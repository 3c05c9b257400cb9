import CommandSuite.Core.EnvNamespace.Environment

/-! # What the migration of identity does

A move takes everything that belongs to one secret and gives it to one variable.
-/

namespace CommandSuite.EnvNamespace

open Library Table Secrets Transcript

/-! ## What is lost, and what is hidden -/

section Statements

structure SameAt (before after : Half) (id : String) : Prop where
  row : after.get id = before.get id
  value : after.values.find id = before.values.find id
  bindings : ∀ memberName, after.bindings.find (id, memberName) = before.bindings.find (id, memberName)

structure Gone (half : Half) (id : String) : Prop where
  row : half.get id = none
  value : half.values.find id = none
  bindings : ∀ memberName, half.bindings.find (id, memberName) = none

/-- The variable has the value, the bindings and the columns of the secret, but for its id and its times. -/
structure Carries (cipher : Option Secrets.FieldCipher) (before after : Database) (secret variable_ : EnvRow) : Prop where
  stored : variable_ ∈ after.variableHalf.rows.rows
  columns : variable_ = { secret with id := variable_.id, createdAt := variable_.createdAt, updatedAt := variable_.updatedAt }
  value : ∃ value, readIdentity cipher before secret = .ok value ∧ Variables.readValue after.variableHalf variable_ = some value
  bindings : ∀ memberName, after.variableHalf.isBound variable_.id memberName = before.secretHalf.isBound secret.id memberName

variable (cipher : Option Secrets.FieldCipher) (db : Database) (now : Int) (drawn : String → String)

def isIdentity (secret : EnvRow) : Bool := secret.envName ∈ IDENTITY_ENV_NAMES

structure Lossless : Prop where
  environment : ∀ memberName, environment cipher (migrateIdentityToVariables cipher db now drawn).2 memberName =
    environment cipher db memberName
  accounted : ∀ secret ∈ db.secretHalf.rows.rows, isIdentity secret = true →
    Gone (migrateIdentityToVariables cipher db now drawn).2.secretHalf secret.id ∧
        (∃ variable_, Carries cipher db (migrateIdentityToVariables cipher db now drawn).2 secret variable_) ∨
      SameAt db.secretHalf (migrateIdentityToVariables cipher db now drawn).2.secretHalf secret.id ∧
        ∃ reason, (secret.slug, reason) ∈ (migrateIdentityToVariables cipher db now drawn).1.skipped
  rolledBack : moveIdentities now drawn (pendingIdentities cipher db) db = none →
    (migrateIdentityToVariables cipher db now drawn).2 = db

def SlugsFree : Prop := ∀ secret ∈ db.secretHalf.rows.rows, isIdentity secret = true → db.variableHalf.getBySlug secret.slug = none

variable {slug : String}

structure IdsFree (pending : List PendingIdentity) : Prop where
  distinct : (pending.map fun entry => drawn entry.secret.slug).Nodup
  free : ∀ entry ∈ pending, db.variableHalf.get (drawn entry.secret.slug) = none ∧
    db.variableHalf.values.find (drawn entry.secret.slug) = none

end Statements

/-! ## What belongs to an id -/

section Deletes

variable {ρ κ : Type} [DecidableEq κ] {key : ρ → κ} {table : Table key} {p : ρ → Bool} {k : κ}

theorem find_deleted (h : ∀ row, key row = k → p row = true) : (table.delete p).find k = none := by
  rw [find_delete]
  cases hFind : table.find k with
  | none => rfl
  | some row => rw [Option.filter_some, h row (key_of_find hFind)]; rfl

theorem find_not_deleted (h : ∀ row, key row = k → p row = false) : (table.delete p).find k = table.find k := by
  rw [find_delete]
  cases hFind : table.find k with
  | none => rfl
  | some row => rw [Option.filter_some, h row (key_of_find hFind)]; rfl

end Deletes

section Halves

variable {half before after : Half} {id other memberName : String}

theorem isBound_iff : half.isBound id memberName = true ↔
    ∃ binding ∈ half.bindings.rows, binding.rowId = id ∧ binding.memberName = memberName := by
  rw [Half.isBound, Option.isSome_iff_exists]
  refine exists_congr fun binding => ?_
  rw [find_eq_some_iff]
  exact and_congr_right fun _ => Prod.mk.injEq .. ▸ Iff.rfl

theorem reaches_iff_isBound {row : EnvRow} :
    half.reaches row memberName = true ↔ row.allMembers = true ∨ half.isBound row.id memberName = true := by
  rw [reaches_iff, isBound_iff]

theorem SameAt.refl (half : Half) (id : String) : SameAt half half id := ⟨rfl, rfl, fun _ => rfl⟩

theorem SameAt.isBound (h : SameAt before after id) (memberName : String) : after.isBound id memberName = before.isBound id memberName := by
  rw [Half.isBound, h.bindings, Half.isBound]

theorem SameAt.trans {last : Half} (h : SameAt before after id) (hLast : SameAt after last id) : SameAt before last id where
  row := hLast.row.trans h.row
  value := hLast.value.trans h.value
  bindings memberName := (hLast.bindings memberName).trans (h.bindings memberName)

theorem Gone.of_same (h : Gone before id) (hSame : SameAt before after id) : Gone after id where
  row := hSame.row.trans h.row
  value := hSame.value.trans h.value
  bindings memberName := (hSame.bindings memberName).trans (h.bindings memberName)

theorem gone_deleteRow (half : Half) (id : String) : Gone (half.deleteRow id) id where
  row := find_deleted fun _ hId => decide_eq_true hId
  value := find_deleted fun _ hId => decide_eq_true hId
  bindings _ := find_deleted fun _ hKey => decide_eq_true (Prod.mk.inj hKey).1

theorem same_deleteRow (half : Half) (h : other ≠ id) : SameAt half (half.deleteRow id) other where
  row := find_not_deleted fun _ hId => decide_eq_false (hId ▸ h)
  value := find_not_deleted fun _ hId => decide_eq_false (hId ▸ h)
  bindings _ := find_not_deleted fun _ hKey => decide_eq_false ((Prod.mk.inj hKey).1 ▸ h)

theorem insert_eq_some_iff {row : EnvRow} : half.insert row = some after ↔
    (half.get row.id = none ∧ half.getBySlug row.slug = none) ∧
      after.rows = half.rows.insertOrIgnore row ∧ after.bindings = half.bindings ∧ after.values = half.values := by
  unfold Half.insert
  split
  · rename_i hFree
    constructor
    · rintro h
      obtain rfl := Option.some.inj h
      exact ⟨hFree, rfl, rfl, rfl⟩
    · obtain ⟨rows, slugs, bindings, values⟩ := after
      rintro ⟨-, hRows, hBindings, hValues⟩
      dsimp only at hRows hBindings hValues
      subst hRows hBindings hValues
      rfl
  · rename_i hTaken
    exact iff_of_false (by rintro ⟨⟩) fun h => hTaken h.1

theorem insertValue_eq_some_iff {value : String} {now : Int} : half.insertValue id value now = some after ↔
    half.values.find id = none ∧ after = { half with values := half.values.insertOrIgnore ⟨id, value, now, now⟩ } := by
  rw [Half.insertValue, Half.hasValue]
  cases half.values.find id with
  | none => exact ⟨fun h => ⟨rfl, (Option.some.inj h).symm⟩, fun h => congrArg some h.2.symm⟩
  | some stored => exact iff_of_false (nomatch ·) fun h => nomatch h.1

theorem insertBindings_spec (half : Half) (id : String) (members : List String) (now : Int) :
    (members.foldl (fun half memberName => half.insertBinding id memberName now) half).rows = half.rows ∧
      (members.foldl (fun half memberName => half.insertBinding id memberName now) half).values = half.values ∧
      (∀ other ≠ id, ∀ memberName,
        (members.foldl (fun half memberName => half.insertBinding id memberName now) half).bindings.find (other, memberName) =
          half.bindings.find (other, memberName)) ∧
      ∀ memberName, (members.foldl (fun half memberName => half.insertBinding id memberName now) half).isBound id memberName =
        (half.isBound id memberName || memberName ∈ members) := by
  induction members generalizing half with
  | nil => exact ⟨rfl, rfl, fun _ _ _ => rfl, fun _ => by simp⟩
  | cons first rest ih =>
    obtain ⟨hRows, hValues, hOthers, hBound⟩ := ih (half.insertBinding id first now)
    refine ⟨hRows, hValues, fun other hOther memberName => (hOthers other hOther memberName).trans ?_, fun memberName => (hBound memberName).trans ?_⟩
    · have hKey : Binding.key ⟨id, first, now⟩ ≠ (other, memberName) := fun hKey => hOther (Prod.mk.inj hKey).1.symm
      refine (find_insertOrIgnore half.bindings _ _).trans ?_
      rw [if_neg hKey, Option.or_none]
    · have hFirst : (half.insertBinding id first now).isBound id memberName = (half.isBound id memberName || decide (memberName = first)) := by
        rw [Half.isBound, Half.insertBinding, find_insertOrIgnore, Option.isSome_or, Half.isBound]
        congr 1
        by_cases hMember : memberName = first
        · rw [if_pos (by rw [hMember]; rfl), decide_eq_true hMember]
          rfl
        · have hKey : Binding.key ⟨id, first, now⟩ ≠ (id, memberName) := fun hKey => hMember (Prod.mk.inj hKey).2.symm
          rw [if_neg hKey, decide_eq_false hMember]
          rfl
      rw [hFirst, Bool.or_assoc]
      congr 1
      simp [List.mem_cons, Bool.decide_or]

end Halves

/-! ## One move -/

/-- The secret is there, and this is its value and whom it is bound to. -/
structure Readable (cipher : Option Secrets.FieldCipher) (db : Database) (pending : PendingIdentity) : Prop where
  stored : pending.secret ∈ db.secretHalf.rows.rows
  value : readIdentity cipher db pending.secret = .ok pending.value
  bindings : ∀ memberName, memberName ∈ pending.bindings ↔ db.secretHalf.isBound pending.secret.id memberName = true

structure MoveStep (now : Int) (id : String) (pending : PendingIdentity) (db after : Database) : Prop where
  secrets : after.secretHalf = db.secretHalf.deleteRow pending.secret.id
  free : db.variableHalf.get id = none
  others : ∀ other ≠ id, SameAt db.variableHalf after.variableHalf other
  row : after.variableHalf.get id = some { pending.secret with id, createdAt := now, updatedAt := now }
  value : after.variableHalf.values.find id = some ⟨id, pending.value, now, now⟩
  bound : ∀ memberName, after.variableHalf.isBound id memberName =
    (db.variableHalf.isBound id memberName || memberName ∈ pending.bindings)

variable {cipher : Option Secrets.FieldCipher} {db after : Database} {now : Int} {id : String} {pending : PendingIdentity}

theorem moveStep (h : moveIdentity now id db pending = some after) : MoveStep now id pending db after := by
  obtain ⟨inserted, hInserted, h⟩ := Option.bind_eq_some_iff.mp h
  obtain ⟨valued, hValued, h⟩ := Option.bind_eq_some_iff.mp h
  obtain rfl := Option.some.inj h
  obtain ⟨⟨hFree, -⟩, hRows, hBindings, hValues⟩ := insert_eq_some_iff.mp hInserted
  obtain ⟨hUnvalued, rfl⟩ := insertValue_eq_some_iff.mp hValued
  obtain ⟨hBoundRows, hBoundValues, hOthers, hBound⟩ :=
    insertBindings_spec { inserted with values := inserted.values.insertOrIgnore ⟨id, pending.value, now, now⟩ } id pending.bindings now
  refine ⟨rfl, hFree, fun other hOther => ⟨?_, ?_, fun memberName => ?_⟩, ?_, ?_, fun memberName => ?_⟩
  · rw [Half.get, hBoundRows, hRows, find_insertOrIgnore, if_neg (Ne.symm hOther), Option.or_none]
    rfl
  · rw [hBoundValues, find_insertOrIgnore, if_neg (Ne.symm hOther), Option.or_none, hValues]
  · rw [hOthers other hOther, hBindings]
  · rw [Half.get, hBoundRows, hRows, find_insertOrIgnore, if_pos rfl]
    exact congrArg (fun found : Option EnvRow => found.or _) hFree
  · rw [hBoundValues, find_insertOrIgnore, if_pos rfl, hUnvalued]
    rfl
  · rw [hBound, Half.isBound, hBindings]
    rfl

variable (now) in
theorem moveIdentity_isSome_iff : (moveIdentity now id db pending).isSome = true ↔
    db.variableHalf.get id = none ∧ db.variableHalf.getBySlug pending.secret.slug = none ∧ db.variableHalf.values.find id = none := by
  rw [Option.isSome_iff_exists]
  constructor
  · rintro ⟨after, h⟩
    obtain ⟨inserted, hInserted, h⟩ := Option.bind_eq_some_iff.mp h
    obtain ⟨valued, hValued, -⟩ := Option.bind_eq_some_iff.mp h
    obtain ⟨⟨hFree, hSlug⟩, -, -, hValues⟩ := insert_eq_some_iff.mp hInserted
    exact ⟨hFree, hSlug, hValues ▸ (insertValue_eq_some_iff.mp hValued).1⟩
  · rintro ⟨hFree, hSlug, hValue⟩
    obtain ⟨inserted, hInserted⟩ : ∃ inserted,
        db.variableHalf.insert { pending.secret with id, createdAt := now, updatedAt := now } = some inserted :=
      ⟨_, dif_pos ⟨hFree, hSlug⟩⟩
    obtain ⟨-, -, -, hValues⟩ := insert_eq_some_iff.mp hInserted
    obtain ⟨valued, hValued⟩ : ∃ valued, inserted.insertValue id pending.value now = some valued :=
      ⟨_, insertValue_eq_some_iff.mpr ⟨hValues ▸ hValue, rfl⟩⟩
    exact ⟨_, Option.bind_eq_some_iff.mpr ⟨inserted, hInserted, Option.bind_eq_some_iff.mpr ⟨valued, hValued, rfl⟩⟩⟩

/-! ## The environment under a move -/

section Environment

variable {kind : EnvRivalKind} {memberName envName value : String}

variable (cipher db kind memberName envName value) in
def GivesAt (id : String) : Prop :=
  ∃ row, (db.half kind).get id = some row ∧ row.enabled = true ∧ row.envName = envName ∧
    (db.half kind).reaches row memberName = true ∧ valueOf cipher db kind row = some value

theorem gives_iff : Gives cipher db kind memberName envName value ↔ ∃ id, GivesAt cipher db kind memberName envName value id := by
  constructor
  · rintro ⟨row, hRow, hGives⟩
    exact ⟨row.id, row, find_key hRow, hGives⟩
  · rintro ⟨id, row, hRow, hGives⟩
    exact ⟨row, mem_of_find hRow, hGives⟩

theorem readIdentity_congr {secret : EnvRow} (h : after.secretHalf.values.find secret.id = db.secretHalf.values.find secret.id) :
    readIdentity cipher after secret = readIdentity cipher db secret := by
  unfold readIdentity
  rw [h]

theorem valueOf_congr {row : EnvRow} (h : (after.half kind).values.find row.id = (db.half kind).values.find row.id) :
    valueOf cipher after kind row = valueOf cipher db kind row := by
  cases kind with
  | secretKind => exact congrArg Except.toOption (readIdentity_congr h)
  | variableKind => exact congrArg (Option.map StoredValue.value) h

variable (kind) in
theorem givesAt_congr (h : SameAt (db.half kind) (after.half kind) id) :
    GivesAt cipher after kind memberName envName value id ↔ GivesAt cipher db kind memberName envName value id := by
  unfold GivesAt
  rw [h.row]
  refine exists_congr fun row => and_congr_right fun hRow => ?_
  obtain rfl : row.id = id := key_of_find hRow
  have hReaches : (after.half kind).reaches row memberName = (db.half kind).reaches row memberName := by
    rw [Bool.eq_iff_iff, reaches_iff_isBound, reaches_iff_isBound, h.isBound]
  rw [hReaches, valueOf_congr h.value]

theorem Sound.isBound_eq_false (h : Sound db) (hFree : db.variableHalf.get id = none) (memberName : String) :
    db.variableHalf.isBound id memberName = false := by
  refine Bool.eq_false_iff.mpr fun hBound => ?_
  obtain ⟨binding, hBinding, rfl, -⟩ := isBound_iff.mp hBound
  obtain ⟨row, hRow, hId⟩ := h.anchored .variableKind binding hBinding
  exact (find_eq_none_iff _ _).mp hFree row hRow hId

theorem MoveStep.isBound_eq (hSound : Sound db) (hReadable : Readable cipher db pending) (h : MoveStep now id pending db after)
    (memberName : String) : after.variableHalf.isBound id memberName = db.secretHalf.isBound pending.secret.id memberName := by
  rw [Bool.eq_iff_iff, h.bound, hSound.isBound_eq_false h.free, Bool.false_or, decide_eq_true_iff, hReadable.bindings]

theorem MoveStep.givesAt (hSound : Sound db) (hReadable : Readable cipher db pending) (h : MoveStep now id pending db after) :
    GivesAt cipher after .variableKind memberName envName value id ↔
      GivesAt cipher db .secretKind memberName envName value pending.secret.id := by
  have hReaches : after.variableHalf.reaches { pending.secret with id, createdAt := now, updatedAt := now } memberName =
      db.secretHalf.reaches pending.secret memberName := by
    rw [Bool.eq_iff_iff, reaches_iff_isBound, reaches_iff_isBound, h.isBound_eq hSound hReadable]
  have hVariable : valueOf cipher after .variableKind { pending.secret with id, createdAt := now, updatedAt := now } = some pending.value :=
    congrArg (Option.map StoredValue.value) h.value
  have hSecret : valueOf cipher db .secretKind pending.secret = some pending.value := congrArg Except.toOption hReadable.value
  constructor
  · rintro ⟨row, hRow, hEnabled, hName, hReach, hValue⟩
    obtain rfl := Option.some.inj (h.row.symm.trans hRow)
    exact ⟨pending.secret, find_key hReadable.stored, hEnabled, hName, hReaches.symm.trans hReach,
      hSecret.trans (hVariable.symm.trans hValue)⟩
  · rintro ⟨row, hRow, hEnabled, hName, hReach, hValue⟩
    obtain rfl := Option.some.inj ((find_key hReadable.stored).symm.trans hRow)
    exact ⟨_, h.row, hEnabled, hName, hReaches.trans hReach, hVariable.trans (hSecret.symm.trans hValue)⟩

theorem MoveStep.same_secret (h : MoveStep now id pending db after) {other : String} (hOther : other ≠ pending.secret.id) :
    SameAt db.secretHalf after.secretHalf other := by
  rw [h.secrets]
  exact same_deleteRow db.secretHalf hOther

theorem MoveStep.gone (h : MoveStep now id pending db after) : Gone after.secretHalf pending.secret.id := by
  rw [h.secrets]
  exact gone_deleteRow db.secretHalf pending.secret.id

theorem MoveStep.gives_iff (hSound : Sound db) (hReadable : Readable cipher db pending) (h : MoveStep now id pending db after) :
    (∃ kind, Gives cipher after kind memberName envName value) ↔ ∃ kind, Gives cipher db kind memberName envName value := by
  simp only [EnvNamespace.gives_iff]
  constructor
  · rintro ⟨kind, other, hGives⟩
    cases kind with
    | secretKind =>
      have hOther : other ≠ pending.secret.id := by
        rintro rfl
        obtain ⟨row, hRow, -⟩ := hGives
        cases h.gone.row.symm.trans hRow
      exact ⟨.secretKind, other, (givesAt_congr .secretKind (h.same_secret hOther)).mp hGives⟩
    | variableKind =>
      by_cases hOther : other = id
      · subst hOther
        exact ⟨.secretKind, _, (h.givesAt hSound hReadable).mp hGives⟩
      · exact ⟨.variableKind, other, (givesAt_congr .variableKind (h.others other hOther)).mp hGives⟩
  · rintro ⟨kind, other, hGives⟩
    cases kind with
    | secretKind =>
      by_cases hOther : other = pending.secret.id
      · subst hOther
        exact ⟨.variableKind, id, (h.givesAt hSound hReadable).mpr hGives⟩
      · exact ⟨.secretKind, other, (givesAt_congr .secretKind (h.same_secret hOther)).mpr hGives⟩
    | variableKind =>
      have hOther : other ≠ id := by
        rintro rfl
        obtain ⟨row, hRow, -⟩ := hGives
        cases h.free.symm.trans hRow
      exact ⟨.variableKind, other, (givesAt_congr .variableKind (h.others other hOther)).mpr hGives⟩

end Environment

/-! ## The batch -/

theorem Readable.current (h : Readable cipher db pending) : Current db pending :=
  ⟨h.stored, fun memberName hMember => isBound_iff.mp ((h.bindings memberName).mp hMember)⟩

theorem Readable.move {other : PendingIdentity} (h : Readable cipher db other) (hNe : other.secret.id ≠ pending.secret.id)
    (hStep : MoveStep now id pending db after) : Readable cipher after other where
  stored := mem_of_find ((hStep.same_secret hNe).row.trans (find_key h.stored))
  value := (readIdentity_congr (hStep.same_secret hNe).value).trans h.value
  bindings memberName := by rw [(hStep.same_secret hNe).isBound, h.bindings]

theorem MoveStep.carries (hSound : Sound db) (hReadable : Readable cipher db pending) (h : MoveStep now id pending db after) :
    Carries cipher db after pending.secret { pending.secret with id, createdAt := now, updatedAt := now } where
  stored := mem_of_find h.row
  columns := rfl
  value := ⟨pending.value, hReadable.value, congrArg (Option.map StoredValue.value) h.value⟩
  bindings := h.isBound_eq hSound hReadable

variable {moved : Database} {secret variable_ : EnvRow}

theorem Carries.congr (h : Carries cipher moved after secret variable_)
    (hSame : SameAt db.secretHalf moved.secretHalf secret.id) : Carries cipher db after secret variable_ where
  stored := h.stored
  columns := h.columns
  value := by
    obtain ⟨value, hRead, hValue⟩ := h.value
    exact ⟨value, (readIdentity_congr hSame.value).symm.trans hRead, hValue⟩
  bindings memberName := (h.bindings memberName).trans (hSame.isBound memberName)

theorem Carries.of_same (h : Carries cipher db moved secret variable_)
    (hSame : SameAt moved.variableHalf after.variableHalf variable_.id) : Carries cipher db after secret variable_ where
  stored := mem_of_find (hSame.row.trans (find_key h.stored))
  columns := h.columns
  value := by
    obtain ⟨value, hRead, hValue⟩ := h.value
    exact ⟨value, hRead, (congrArg (Option.map StoredValue.value) hSame.value).trans hValue⟩
  bindings memberName := (hSame.isBound memberName).trans (h.bindings memberName)

structure MovedAll (cipher : Option Secrets.FieldCipher) (pending : List PendingIdentity) (db after : Database) : Prop where
  gives : ∀ memberName envName value,
    (∃ kind, Gives cipher after kind memberName envName value) ↔ ∃ kind, Gives cipher db kind memberName envName value
  secrets : ∀ id, (∀ entry ∈ pending, id ≠ entry.secret.id) → SameAt db.secretHalf after.secretHalf id
  earlier : ∀ id, db.variableHalf.get id ≠ none → SameAt db.variableHalf after.variableHalf id
  moved : ∀ entry ∈ pending, Gone after.secretHalf entry.secret.id ∧ ∃ variable_, Carries cipher db after entry.secret variable_

variable {drawn : String → String}

theorem movedAll {pending : List PendingIdentity} (hSound : Sound db)
    (hReadable : ∀ entry ∈ pending, Readable cipher db entry) (hDistinct : (pending.map fun entry => entry.secret.id).Nodup)
    (h : moveIdentities now drawn pending db = some after) : MovedAll cipher pending db after := by
  induction pending generalizing db with
  | nil =>
    obtain rfl := Option.some.inj h
    exact ⟨fun _ _ _ => Iff.rfl, fun _ _ => .refl _ _, fun _ _ => .refl _ _, nofun⟩
  | cons first rest ih =>
    obtain ⟨moved, hMoved, hRest⟩ := Option.bind_eq_some_iff.mp h
    obtain ⟨hFirst, hLater⟩ := List.forall_mem_cons.mp hReadable
    rw [List.map_cons, List.nodup_cons] at hDistinct
    have hOthers : ∀ entry ∈ rest, entry.secret.id ≠ first.secret.id := fun entry hEntry hSame =>
      hDistinct.1 (List.mem_map.mpr ⟨entry, hEntry, hSame⟩)
    have hStep := moveStep hMoved
    have hAll : MovedAll cipher rest moved after := ih (hSound.moveIdentity hFirst.current hMoved)
      (fun entry hEntry => (hLater entry hEntry).move (hOthers entry hEntry) hStep) hDistinct.2 hRest
    have hVariable : SameAt moved.variableHalf after.variableHalf (drawn first.secret.slug) :=
      hAll.earlier _ (by rw [hStep.row]; exact Option.some_ne_none _)
    refine ⟨fun memberName envName value => ?_, fun id hId => ?_, fun id hId => ?_, ?_⟩
    · rw [hAll.gives, hStep.gives_iff hSound hFirst]
    · obtain ⟨hNotFirst, hNotLater⟩ := List.forall_mem_cons.mp hId
      exact (hStep.same_secret hNotFirst).trans (hAll.secrets id hNotLater)
    · have hNe : id ≠ drawn first.secret.slug := by
        rintro rfl
        exact hId hStep.free
      have hSame := hStep.others id hNe
      exact hSame.trans (hAll.earlier id (by rw [hSame.row]; exact hId))
    · refine List.forall_mem_cons.mpr ⟨⟨?_, _, (hStep.carries hSound hFirst).of_same hVariable⟩, fun entry hEntry => ?_⟩
      · exact hStep.gone.of_same (hAll.secrets _ fun entry hEntry => (hOthers entry hEntry).symm)
      · obtain ⟨hGone, variable_, hCarries⟩ := hAll.moved entry hEntry
        exact ⟨hGone, variable_, hCarries.congr (hStep.same_secret (hOthers entry hEntry))⟩

/-! ## When the batch commits -/

theorem getBySlug_eq_none_iff {half : Half} : half.getBySlug slug = none ↔ ∀ row ∈ half.rows.rows, row.slug ≠ slug := by
  simp [Half.getBySlug]

theorem MoveStep.slug_free (h : MoveStep now id pending db after) (hFree : db.variableHalf.getBySlug slug = none)
    (hNe : slug ≠ pending.secret.slug) : after.variableHalf.getBySlug slug = none := by
  refine getBySlug_eq_none_iff.mpr fun row hRow => ?_
  by_cases hId : row.id = id
  · obtain rfl := Option.some.inj (h.row.symm.trans (hId ▸ find_key hRow))
    exact hNe.symm
  · have hOld : db.variableHalf.get row.id = some row := (h.others row.id hId).row.symm.trans (find_key hRow)
    exact getBySlug_eq_none_iff.mp hFree row (mem_of_find hOld)

theorem moveIdentities_isSome_iff {pending : List PendingIdentity}
    (hSlugs : ∀ entry ∈ pending, db.variableHalf.getBySlug entry.secret.slug = none)
    (hDistinct : (pending.map fun entry => entry.secret.slug).Nodup) :
    (moveIdentities now drawn pending db).isSome = true ↔ IdsFree db drawn pending := by
  induction pending generalizing db with
  | nil => exact iff_of_true rfl ⟨List.nodup_nil, nofun⟩
  | cons first rest ih =>
    obtain ⟨hSlug, hLater⟩ := List.forall_mem_cons.mp hSlugs
    rw [List.map_cons, List.nodup_cons] at hDistinct
    have hOthers : ∀ entry ∈ rest, entry.secret.slug ≠ first.secret.slug := fun entry hEntry hSame =>
      hDistinct.1 (List.mem_map.mpr ⟨entry, hEntry, hSame⟩)
    have hRest : ∀ moved, moveIdentity now (drawn first.secret.slug) db first = some moved →
        ((moveIdentities now drawn rest moved).isSome = true ↔ IdsFree moved drawn rest) := fun moved hMoved =>
      ih (fun entry hEntry => (moveStep hMoved).slug_free (hLater entry hEntry) (hOthers entry hEntry)) hDistinct.2
    constructor
    · intro h
      obtain ⟨after, h⟩ := Option.isSome_iff_exists.mp h
      obtain ⟨moved, hMoved, h⟩ := Option.bind_eq_some_iff.mp h
      have hStep := moveStep hMoved
      obtain ⟨-, -, hValue⟩ := (moveIdentity_isSome_iff now).mp (Option.isSome_iff_exists.mpr ⟨moved, hMoved⟩)
      have hFree : IdsFree moved drawn rest := (hRest moved hMoved).mp (by rw [h]; rfl)
      have hNe : ∀ entry ∈ rest, drawn entry.secret.slug ≠ drawn first.secret.slug := by
        intro entry hEntry hSame
        have hNone := (hFree.free entry hEntry).1
        rw [hSame, hStep.row] at hNone
        cases hNone
      refine ⟨?_, List.forall_mem_cons.mpr ⟨⟨hStep.free, hValue⟩, fun entry hEntry => ?_⟩⟩
      · rw [List.map_cons, List.nodup_cons]
        refine ⟨fun hTaken => ?_, hFree.distinct⟩
        obtain ⟨entry, hEntry, hSame⟩ := List.mem_map.mp hTaken
        exact hNe entry hEntry hSame
      · have hSame := hStep.others _ (hNe entry hEntry)
        exact ⟨hSame.row.symm.trans (hFree.free entry hEntry).1, hSame.value.symm.trans (hFree.free entry hEntry).2⟩
    · intro h
      obtain ⟨⟨hId, hValue⟩, hFree⟩ := List.forall_mem_cons.mp h.free
      obtain ⟨hTaken, hIds⟩ := List.nodup_cons.mp h.distinct
      obtain ⟨moved, hMoved⟩ := Option.isSome_iff_exists.mp ((moveIdentity_isSome_iff now).mpr ⟨hId, hSlug, hValue⟩)
      have hLaterFree : IdsFree moved drawn rest := by
        refine ⟨hIds, fun entry hEntry => ?_⟩
        have hNe : drawn entry.secret.slug ≠ drawn first.secret.slug := fun hSame =>
          hTaken (List.mem_map.mpr ⟨entry, hEntry, hSame⟩)
        have hSame := (moveStep hMoved).others _ hNe
        exact ⟨hSame.row.trans (hFree entry hEntry).1, hSame.value.trans (hFree entry hEntry).2⟩
      obtain ⟨after, hAfter⟩ := Option.isSome_iff_exists.mp ((hRest moved hMoved).mpr hLaterFree)
      exact Option.isSome_iff_exists.mpr ⟨after, Option.bind_eq_some_iff.mpr ⟨moved, hMoved, hAfter⟩⟩

/-! ## The whole migration -/

section Whole

variable {drawn : String → String}

variable {secret : EnvRow}

theorem mem_unmigrated : secret ∈ unmigrated db ↔
    secret ∈ db.secretHalf.rows.rows ∧ isIdentity secret = true ∧ db.variableHalf.getBySlug secret.slug = none := by
  simp only [unmigrated, isIdentity, List.mem_filter, List.mem_insertionSort, decide_eq_true_eq, and_assoc]

theorem mem_pendingIdentities : pending ∈ pendingIdentities cipher db ↔ pending.secret ∈ unmigrated db ∧
    readIdentity cipher db pending.secret = .ok pending.value ∧ pending.bindings = db.secretHalf.listBindings pending.secret.id := by
  rw [pendingIdentities, List.mem_filterMap]
  constructor
  · rintro ⟨secret, hSecret, hEntry⟩
    split at hEntry
    · rename_i value hValue
      obtain rfl := Option.some.inj hEntry
      exact ⟨hSecret, hValue, rfl⟩
    · cases hEntry
  · obtain ⟨secret, value, bindings⟩ := pending
    rintro ⟨hSecret, hValue, hBindings⟩
    dsimp only at hSecret hValue hBindings
    exact ⟨secret, hSecret, by rw [hValue, hBindings]⟩

theorem mem_skippedIdentities {slug reason : String} : (slug, reason) ∈ skippedIdentities cipher db ↔
    ∃ secret ∈ unmigrated db, secret.slug = slug ∧ readIdentity cipher db secret = .error reason := by
  rw [skippedIdentities, List.mem_filterMap]
  refine exists_congr fun secret => and_congr_right fun _ => ?_
  cases readIdentity cipher db secret with
  | ok value => exact iff_of_false (nomatch ·) fun h => nomatch h.2
  | error found => simp

theorem readable_of_mem_pendingIdentities (h : pending ∈ pendingIdentities cipher db) : Readable cipher db pending := by
  obtain ⟨hSecret, hValue, hBindings⟩ := mem_pendingIdentities.mp h
  refine ⟨of_mem_unmigrated hSecret, hValue, fun memberName => ?_⟩
  rw [hBindings, mem_listBindings, isBound_iff]

theorem slug_free_of_mem_pendingIdentities (h : pending ∈ pendingIdentities cipher db) :
    db.variableHalf.getBySlug pending.secret.slug = none :=
  (mem_unmigrated.mp (mem_pendingIdentities.mp h).1).2.2

theorem eq_of_slug {half : Half} {row other : EnvRow} (hRow : row ∈ half.rows.rows) (hOther : other ∈ half.rows.rows)
    (hSlug : row.slug = other.slug) : row = other :=
  List.inj_on_of_nodup_map half.slugs hRow hOther hSlug

theorem nodup_slugs_pendingIdentities : ((pendingIdentities cipher db).map fun entry => entry.secret.slug).Nodup := by
  refine List.Nodup.map_on (fun entry hEntry other hOther hSlug => ?_) (List.Nodup.of_map _ nodup_pendingIdentities)
  obtain ⟨hSecret, hValue, hBindings⟩ := mem_pendingIdentities.mp hEntry
  obtain ⟨hRival, hSame, hBound⟩ := mem_pendingIdentities.mp hOther
  obtain ⟨secret, value, bindings⟩ := entry
  obtain ⟨rival, same, bound⟩ := other
  dsimp only at *
  obtain rfl := eq_of_slug (of_mem_unmigrated hSecret) (of_mem_unmigrated hRival) hSlug
  obtain rfl := Except.ok.inj (hValue.symm.trans hSame)
  rw [hBindings, hBound]

theorem skipped_migrateIdentityToVariables :
    (migrateIdentityToVariables cipher db now drawn).1.skipped = skippedIdentities cipher db := by
  unfold migrateIdentityToVariables
  dsimp only
  split
  · rfl
  · split <;> rfl

theorem migrateIdentityToVariables_snd : (migrateIdentityToVariables cipher db now drawn).2 =
    (moveIdentities now drawn (pendingIdentities cipher db) db).getD db := by
  unfold migrateIdentityToVariables
  dsimp only
  split
  · rename_i hEmpty
    rw [List.isEmpty_iff.mp hEmpty]
    rfl
  · split
    · rename_i hFailed
      rw [hFailed]
      rfl
    · rename_i hMoved
      rw [hMoved]
      rfl

variable (cipher now drawn) in
theorem committed_or_unchanged (h : Sound db) :
    MovedAll cipher (pendingIdentities cipher db) db (migrateIdentityToVariables cipher db now drawn).2 ∨
      moveIdentities now drawn (pendingIdentities cipher db) db = none ∧ (migrateIdentityToVariables cipher db now drawn).2 = db := by
  rw [migrateIdentityToVariables_snd]
  cases hBatch : moveIdentities now drawn (pendingIdentities cipher db) db with
  | none => exact .inr ⟨rfl, rfl⟩
  | some moved => exact .inl (movedAll h (fun _ => readable_of_mem_pendingIdentities) nodup_pendingIdentities hBatch)

theorem environment_migrateIdentityToVariables (h : Sound db) (memberName : String) :
    environment cipher (migrateIdentityToVariables cipher db now drawn).2 memberName = environment cipher db memberName := by
  rcases committed_or_unchanged cipher now drawn h with hMoved | ⟨-, hSame⟩
  · refine funext fun envName => Option.ext fun value => ?_
    rw [(h.migrateIdentityToVariables now drawn).environment_eq_some_iff, hMoved.gives, h.environment_eq_some_iff]
  · rw [hSame]

theorem same_of_not_pending (h : Sound db) (hStored : secret ∈ db.secretHalf.rows.rows)
    (hNot : ∀ value, secret ∈ unmigrated db → readIdentity cipher db secret ≠ .ok value) :
    SameAt db.secretHalf (migrateIdentityToVariables cipher db now drawn).2.secretHalf secret.id := by
  rcases committed_or_unchanged cipher now drawn h with hMoved | ⟨-, hSame⟩
  · refine hMoved.secrets _ fun entry hEntry hId => ?_
    obtain ⟨hPending, hValue, -⟩ := mem_pendingIdentities.mp hEntry
    obtain rfl := eq_of_id (of_mem_unmigrated hPending) hStored hId
    exact hNot _ hPending hValue
  · rw [hSame]
    exact .refl _ _

theorem not_gone_of_same {before after : Half} (hStored : secret ∈ before.rows.rows)
    (hSame : SameAt before after secret.id) : ¬ Gone after secret.id := by
  intro hGone
  cases (find_key hStored).symm.trans (hSame.row.symm.trans hGone.row)

theorem Lossless.readable_or_reported (h : Lossless cipher db now drawn) (hStored : secret ∈ db.secretHalf.rows.rows)
    (hIdentity : isIdentity secret = true)
    (hSame : SameAt db.secretHalf (migrateIdentityToVariables cipher db now drawn).2.secretHalf secret.id) :
    secret ∈ unmigrated db ∧ ∃ reason, readIdentity cipher db secret = .error reason := by
  rcases h.accounted secret hStored hIdentity with ⟨hGone, -⟩ | ⟨-, reason, hReported⟩
  · exact absurd hGone (not_gone_of_same hStored hSame)
  · rw [skipped_migrateIdentityToVariables] at hReported
    obtain ⟨other, hOther, hSlug, hError⟩ := mem_skippedIdentities.mp hReported
    obtain rfl := eq_of_slug (of_mem_unmigrated hOther) hStored hSlug
    exact ⟨hOther, reason, hError⟩

/-- The migration loses and hides nothing just when no identity has the slug of a variable and the ids that it draws are free. -/
theorem lossless_iff (h : Sound db) :
    Lossless cipher db now drawn ↔ SlugsFree db ∧ IdsFree db drawn (pendingIdentities cipher db) := by
  have hCommits : (moveIdentities now drawn (pendingIdentities cipher db) db).isSome = true ↔
      IdsFree db drawn (pendingIdentities cipher db) :=
    moveIdentities_isSome_iff (fun _ => slug_free_of_mem_pendingIdentities) nodup_slugs_pendingIdentities
  constructor
  · intro hLossless
    refine ⟨fun secret hStored hIdentity => ?_, hCommits.mp ?_⟩
    · by_contra hTaken
      -- `continue; // already migrated`
      have hHidden : secret ∉ unmigrated db := fun hIn => hTaken (mem_unmigrated.mp hIn).2.2
      exact hHidden (hLossless.readable_or_reported hStored hIdentity (same_of_not_pending h hStored fun _ hIn => absurd hIn hHidden)).1
    · by_contra hFailed
      have hNone := Option.not_isSome_iff_eq_none.mp hFailed
      cases hPending : pendingIdentities cipher db with
      | nil =>
        rw [hPending] at hNone
        cases hNone
      | cons entry rest =>
        have hEntry : entry ∈ pendingIdentities cipher db := hPending ▸ List.mem_cons_self
        obtain ⟨hIn, hValue, -⟩ := mem_pendingIdentities.mp hEntry
        obtain ⟨hStored, hIdentity, -⟩ := mem_unmigrated.mp hIn
        have hSame : SameAt db.secretHalf (migrateIdentityToVariables cipher db now drawn).2.secretHalf entry.secret.id := by
          rw [hLossless.rolledBack hNone]
          exact .refl _ _
        obtain ⟨-, reason, hError⟩ := hLossless.readable_or_reported hStored hIdentity hSame
        cases hValue.symm.trans hError
  · rintro ⟨hSlugs, hIds⟩
    have hCommitted := hCommits.mpr hIds
    refine ⟨environment_migrateIdentityToVariables h, fun secret hStored hIdentity => ?_, fun hNone => ?_⟩
    · have hIn : secret ∈ unmigrated db := mem_unmigrated.mpr ⟨hStored, hIdentity, hSlugs secret hStored hIdentity⟩
      cases hRead : readIdentity cipher db secret with
      | ok value =>
        have hPending : (⟨secret, value, db.secretHalf.listBindings secret.id⟩ : PendingIdentity) ∈ pendingIdentities cipher db :=
          mem_pendingIdentities.mpr ⟨hIn, hRead, rfl⟩
        rcases committed_or_unchanged cipher now drawn h with hMoved | ⟨hNone, -⟩
        · exact .inl (hMoved.moved _ hPending)
        · rw [hNone] at hCommitted
          cases hCommitted
      | error reason =>
        refine .inr ⟨same_of_not_pending h hStored fun value _ => hRead ▸ nofun, reason, ?_⟩
        rw [skipped_migrateIdentityToVariables]
        exact mem_skippedIdentities.mpr ⟨secret, hIn, rfl, hRead⟩
    · rw [hNone] at hCommitted
      cases hCommitted

end Whole

/-! A name that is moved, and one that a variable hides. -/

section Examples

def aliceName : Uuid := ⟨"4d3f9a0e-5b21-4c0f-9a63-2f1c8a7d6b10", by decide⟩

def plainCipher : Option Secrets.FieldCipher := some ⟨some, fun value => .ok (some value)⟩

def storeName : List Call :=
  [.createSecret ⟨"git-name", "GIT_AUTHOR_NAME", none, some true, some true, "alice"⟩ aliceName 1,
    .setSecretValue plainCipher aliceName.text "Alice" 2]

def nameStored : Database := final serve .empty storeName

def nameHidden : Database := final serve nameStored
  [.createVariable ⟨"git-name", "EDITOR", none, some true, some true, "alice"⟩ "var_1" 3]

theorem sound_nameStored : Sound nameStored := final_invariant (P := Sound) (fun _ call h => h.serve call) sound_empty storeName

theorem sound_nameHidden : Sound nameHidden := sound_nameStored.serve _

theorem name_is_moved : (pendingIdentities plainCipher nameStored).length = 1 ∧ Lossless plainCipher nameStored 4 fun _ => "var_2" := by
  refine ⟨by decide +kernel, (lossless_iff sound_nameStored).mpr ⟨?_, ?_, ?_⟩⟩
  · unfold SlugsFree
    decide +kernel
  · decide +kernel
  · decide +kernel

/-- The variable that has the slug of the secret is another one. -/
theorem hidden_by_variable : ¬ ∀ (cipher : Option Secrets.FieldCipher) (db : Database) (now : Int) (drawn : String → String),
    Sound db → Lossless cipher db now drawn := by
  intro h
  obtain ⟨secret, hStored, hIdentity, hTaken⟩ : ∃ secret ∈ nameHidden.secretHalf.rows.rows,
      isIdentity secret = true ∧ nameHidden.variableHalf.getBySlug secret.slug ≠ none := by decide +kernel
  have hLossless := h plainCipher nameHidden 4 (fun _ => "var_2") sound_nameHidden
  have hHidden : secret ∉ unmigrated nameHidden := fun hIn => hTaken (mem_unmigrated.mp hIn).2.2
  refine hHidden (hLossless.readable_or_reported hStored hIdentity ?_).1
  exact same_of_not_pending sound_nameHidden hStored fun _ hIn => absurd hIn hHidden

end Examples

end CommandSuite.EnvNamespace
