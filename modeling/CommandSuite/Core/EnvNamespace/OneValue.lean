import CommandSuite.Core.EnvNamespace.Stores
import CommandSuite.Library.Exclusive

/-! # One value for each name

A holder of a name is a row of either store, known by its kind and its id, and its audience are the members it
reaches.
-/

namespace CommandSuite.EnvNamespace

open Library Library.Fallible Secrets Table Transcript

namespace Database

def resolversOf (db : Database) (memberName envName : String) (kind : EnvRivalKind) : List (EnvRivalKind × EnvRow) :=
  ((db.half kind).rows.select fun row => row.envName = envName && (db.half kind).reaches row memberName).map (kind, ·)

def resolvers (db : Database) (memberName envName : String) : List (EnvRivalKind × EnvRow) :=
  db.resolversOf memberName envName .secretKind ++ db.resolversOf memberName envName .variableKind

def holders (db : Database) (envName : String) : Set (EnvRivalKind × String) :=
  { holder | ∃ row ∈ (db.half holder.1).rows.rows, row.id = holder.2 ∧ row.envName = envName }

def audience (db : Database) (holder : EnvRivalKind × String) : Set String :=
  { memberName | ∃ row ∈ (db.half holder.1).rows.rows, row.id = holder.2 ∧ (db.half holder.1).reaches row memberName = true }

variable {db : Database} {kind : EnvRivalKind} {id envName memberName : String}

theorem mem_holders : (kind, id) ∈ db.holders envName ↔ ∃ row ∈ (db.half kind).rows.rows, row.id = id ∧ row.envName = envName :=
  Iff.rfl

theorem mem_audience :
    memberName ∈ db.audience (kind, id) ↔ ∃ row ∈ (db.half kind).rows.rows, row.id = id ∧ (db.half kind).reaches row memberName = true :=
  Iff.rfl

end Database

/-- No two rows of a name reach one member, and nothing is bound to a row that is not there. -/
structure Sound (db : Database) : Prop where
  exclusive : Exclusive db.holders db.audience
  anchored : ∀ kind, ∀ binding ∈ (db.half kind).bindings.rows, ∃ row ∈ (db.half kind).rows.rows, row.id = binding.rowId
  named : ∀ row ∈ db.secretHalf.rows.rows, row.id ≠ ""

section Lookups

variable {half : Half} {row : EnvRow} {id memberName : String}

theorem reaches_iff : half.reaches row memberName = true ↔
    row.allMembers = true ∨ ∃ binding ∈ half.bindings.rows, binding.rowId = row.id ∧ binding.memberName = memberName := by
  simp [Half.reaches]

theorem reachesAnyone_of_reaches (h : half.reaches row memberName = true) : half.reachesAnyone row = true := by
  rcases reaches_iff.mp h with hAll | ⟨binding, hBinding, hRow, _⟩
  · simp [Half.reachesAnyone, hAll]
  · simp only [Half.reachesAnyone, Bool.or_eq_true, List.any_eq_true, decide_eq_true_eq]
    exact .inr ⟨binding, hBinding, hRow⟩

theorem mem_listBindings :
    memberName ∈ half.listBindings id ↔ ∃ binding ∈ half.bindings.rows, binding.rowId = id ∧ binding.memberName = memberName := by
  simp only [Half.listBindings, List.mem_map, List.mem_insertionSort, mem_select, decide_eq_true_eq, and_assoc]

theorem eq_of_id {other : EnvRow} (hRow : row ∈ half.rows.rows) (hOther : other ∈ half.rows.rows) (hId : other.id = row.id) :
    other = row :=
  List.inj_on_of_nodup_map half.rows.nodup hOther hRow hId

theorem rows_insert {after : Half} (h : half.insert row = some after) :
    after.rows.rows = half.rows.rows ++ [row] ∧ after.bindings = half.bindings ∧ ∀ other ∈ half.rows.rows, other.id ≠ row.id := by
  unfold Half.insert at h
  split at h
  · rename_i hFree
    cases h
    refine ⟨?_, rfl, (find_eq_none_iff _ _).mp hFree.1⟩
    rw [rows_insertOrIgnore, if_pos hFree.1]
  · cases h

theorem mem_bindings_insertBinding {memberName : String} {now : Int} {binding : Binding}
    (h : binding ∈ (half.insertBinding id memberName now).bindings.rows) :
    binding ∈ half.bindings.rows ∨ binding = ⟨id, memberName, now⟩ := by
  change binding ∈ (half.bindings.insertOrIgnore ⟨id, memberName, now⟩).rows at h
  rw [rows_insertOrIgnore] at h
  split at h
  · exact (List.mem_append.mp h).imp_right List.mem_singleton.mp
  · exact .inl h

end Lookups

variable {db : Database} {kind : EnvRivalKind} {half : Half} {id envName memberName : String}

/-! ## What the checks say -/

/-- No other row that targets the name reaches any of these members. -/
def Unrivalled (db : Database) (kind : EnvRivalKind) (id envName : String) (reached : Set String) : Prop :=
  ∀ holder ∈ db.holders envName, holder ≠ (kind, id) → Disjoint reached (db.audience holder)

variable {reached : Set String}

theorem unrivalled_of_none (reaching : Half → EnvRow → Bool)
    (hReaching : ∀ half row, ∀ memberName ∈ reached, Half.reaches half row memberName = true → reaching half row = true)
    (h : findEnvRival db envName kind id reaching = none) : Unrivalled db kind id envName reached := by
  rintro ⟨other, _⟩ ⟨row, hRow, rfl, hName⟩ hOther
  refine Set.disjoint_left.mpr fun member hMember hReached => ?_
  obtain ⟨same, hSame, hId, hReaches⟩ := hReached
  rw [eq_of_id hRow hSame hId] at hReaches
  have hNone := findEnvRival_eq_none_iff.mp h other row hRow hName hOther
  rw [hReaching _ _ member hMember hReaches] at hNone
  cases hNone

theorem unrivalled_of_checkAnyone (h : checkAnyone db kind id envName = .ok ()) (reached : Set String) :
    Unrivalled db kind id envName reached := by
  refine unrivalled_of_none _ (fun _ _ _ _ hReaches => reachesAnyone_of_reaches hReaches) ?_
  unfold checkAnyone at h
  split at h
  · cases h
  · assumption

theorem unrivalled_of_checkMember (h : checkMember db kind id envName memberName = .ok ()) :
    Unrivalled db kind id envName {memberName} := by
  refine unrivalled_of_none (fun half row => half.reaches row memberName) ?_ ?_
  · rintro _ _ _ rfl hReaches
    exact hReaches
  · unfold checkMember at h
    split at h
    · cases h
    · assumption

theorem Unrivalled.mono {reached fewer : Set String} (h : Unrivalled db kind id envName reached) (hFewer : fewer ⊆ reached) :
    Unrivalled db kind id envName fewer :=
  fun _ hHolder hOther => (h _ hHolder hOther).mono_left hFewer

theorem unrivalled_of_forall (h : ∀ member ∈ reached, Unrivalled db kind id envName {member}) :
    Unrivalled db kind id envName reached := by
  intro holder hHolder hOther
  refine Set.disjoint_left.mpr fun member hMember => ?_
  exact Set.disjoint_left.mp (h member hMember holder hHolder hOther) rfl

theorem Sound.unrivalled (h : Sound db) {row : EnvRow} (hRow : row ∈ (db.half kind).rows.rows) :
    Unrivalled db kind row.id row.envName (db.audience (kind, row.id)) :=
  fun _ hHolder hOther => h.exclusive row.envName ⟨row, hRow, rfl, rfl⟩ hHolder hOther.symm

theorem forM_eq_ok {α ε : Type} {f : α → Except ε Unit} {items : List α} :
    items.forM f = .ok () ↔ ∀ item ∈ items, f item = .ok () := by
  induction items with
  | nil => simp [pure, Except.pure]
  | cons item items ih =>
    change (f item >>= fun _ => items.forM f) = Except.ok () ↔ _
    rw [List.forall_mem_cons, ← ih, bind_eq_ok]
    exact ⟨fun ⟨_, hFirst, hRest⟩ => ⟨hFirst, hRest⟩, fun ⟨hFirst, hRest⟩ => ⟨_, hFirst, hRest⟩⟩

def reachedBy (half : Half) (id : String) (allMembers : Bool) : Set String :=
  { memberName | allMembers = true ∨ ∃ binding ∈ half.bindings.rows, binding.rowId = id ∧ binding.memberName = memberName }

theorem unrivalled_of_checkUpdate (hSound : Sound db) {existing : EnvRow} (hRow : existing ∈ (db.half kind).rows.rows)
    {allMembers : Bool} (h : checkUpdate db kind existing envName allMembers = .ok ()) :
    Unrivalled db kind existing.id envName (reachedBy (db.half kind) existing.id allMembers) := by
  unfold checkUpdate at h
  split at h
  · obtain ⟨_, _, hAudience⟩ := bind_eq_ok.mp h
    unfold checkAudience at hAudience
    split at hAudience
    · exact unrivalled_of_checkAnyone hAudience _
    · rename_i hTargeted
      refine unrivalled_of_forall fun member hMember => unrivalled_of_checkMember (forM_eq_ok.mp hAudience member ?_)
      rcases hMember with hAll | hBound
      · exact absurd hAll hTargeted
      · exact mem_listBindings.mpr hBound
  · -- the name is the old one and nobody is reached who was not reached before
    rename_i hKept
    obtain ⟨hName, hNarrower⟩ := not_or.mp hKept
    rw [not_not.mp hName]
    refine (hSound.unrivalled hRow).mono fun member hMember => ⟨existing, hRow, rfl, reaches_iff.mpr ?_⟩
    rcases hMember with hAll | hBound
    · exact .inl (Bool.of_not_eq_false fun hTargeted => hNarrower ⟨hAll, hTargeted⟩)
    · exact .inr hBound

/-! ## What the operations keep -/

section

variable (h : Sound db)
include h

theorem Sound.withHalf (id : String)
    (hRows : ∀ row ∈ half.rows.rows, row.id ≠ id → row ∈ (db.half kind).rows.rows)
    (hBindings : ∀ binding ∈ half.bindings.rows, binding.rowId ≠ id → binding ∈ (db.half kind).bindings.rows)
    (hRivals : ∀ row ∈ half.rows.rows, row.id = id → Unrivalled db kind id row.envName { member | half.reaches row member = true })
    (hAnchored : ∀ binding ∈ half.bindings.rows, ∃ row ∈ half.rows.rows, row.id = binding.rowId)
    (hNamed : kind = .secretKind → ∀ row ∈ half.rows.rows, row.id ≠ "") : Sound (db.withHalf kind half) := by
  have hSame : ∀ other ≠ kind, (db.withHalf kind half).half other = db.half other := fun _ hOther =>
    db.half_withHalf_of_ne hOther half
  refine ⟨h.exclusive.change (kind, id) ?_ ?_, ?_, ?_⟩
  · rintro name ⟨other, otherId⟩ hHolder hNe
    by_cases hKind : other = kind
    · subst hKind
      have hId : otherId ≠ id := fun hEq => hNe (by rw [hEq])
      rw [Database.mem_holders, Database.half_withHalf] at hHolder
      obtain ⟨row, hRow, rfl, hName⟩ := hHolder
      refine ⟨⟨row, hRows row hRow hId, rfl, hName⟩, fun member hMember => ?_⟩
      rw [Database.mem_audience, Database.half_withHalf] at hMember
      obtain ⟨same, hSameRow, hSameId, hReaches⟩ := hMember
      refine ⟨same, hRows same hSameRow (hSameId ▸ hId), hSameId, reaches_iff.mpr ?_⟩
      refine (reaches_iff.mp hReaches).imp_right ?_
      rintro ⟨binding, hBinding, hRowId, hMember⟩
      exact ⟨binding, hBindings binding hBinding (by rw [hRowId, hSameId]; exact hId), hRowId, hMember⟩
    · rw [Database.mem_holders, hSame other hKind] at hHolder
      refine ⟨hHolder, fun member hMember => ?_⟩
      rw [Database.mem_audience, hSame other hKind] at hMember
      exact hMember
  · intro name hHolder holder hHeld hNe
    rw [Database.mem_holders, Database.half_withHalf] at hHolder
    obtain ⟨row, hRow, hId, rfl⟩ := hHolder
    refine (hRivals row hRow hId holder hHeld hNe).mono_left fun member hMember => ?_
    rw [Database.mem_audience, Database.half_withHalf] at hMember
    obtain ⟨same, hSameRow, hSameId, hReaches⟩ := hMember
    rw [eq_of_id hRow hSameRow (hSameId.trans hId.symm)] at hReaches
    exact hReaches
  · intro other
    by_cases hKind : other = kind
    · subst hKind
      rw [Database.half_withHalf]
      exact hAnchored
    · rw [hSame other hKind]
      exact h.anchored other
  · cases kind with
    | secretKind => exact hNamed rfl
    | variableKind => exact h.named

theorem Sound.insert {row : EnvRow} (hInsert : (db.half kind).insert row = some half)
    (hAll : row.allMembers = true → ∀ reached, Unrivalled db kind row.id row.envName reached)
    (hNamed : kind = .secretKind → row.id ≠ "") : Sound (db.withHalf kind half) := by
  obtain ⟨hRows, hBindings, hFresh⟩ := rows_insert hInsert
  have hMem : ∀ other ∈ half.rows.rows, other ∈ (db.half kind).rows.rows ∨ other = row := by
    intro other hOther
    rw [hRows] at hOther
    exact (List.mem_append.mp hOther).imp_right List.mem_singleton.mp
  refine h.withHalf row.id ?_ ?_ ?_ ?_ ?_
  · exact fun other hOther hNe => (hMem other hOther).resolve_right fun hEq => hNe (congrArg EnvRow.id hEq)
  · rw [hBindings]
    exact fun binding hBinding _ => hBinding
  · intro other hOther hId holder hHolder hNe
    have hEq : other = row := (hMem other hOther).resolve_left fun hOld => hFresh other hOld hId
    subst hEq
    refine Set.disjoint_left.mpr fun member hMember => ?_
    rcases reaches_iff.mp hMember with hApplies | ⟨binding, hBinding, hBound, _⟩
    · exact Set.disjoint_left.mp (hAll hApplies _ holder hHolder hNe) hMember
    · -- a new row has no bindings yet
      rw [hBindings] at hBinding
      obtain ⟨anchor, hAnchor, hAnchorId⟩ := h.anchored kind binding hBinding
      exact absurd (hAnchorId.trans hBound) (hFresh anchor hAnchor)
  · intro binding hBinding
    rw [hBindings] at hBinding
    obtain ⟨anchor, hAnchor, hAnchorId⟩ := h.anchored kind binding hBinding
    refine ⟨anchor, ?_, hAnchorId⟩
    rw [hRows]
    exact List.mem_append_left _ hAnchor
  · rintro rfl other hOther
    rcases hMem other hOther with hOld | rfl
    · exact h.named other hOld
    · exact hNamed rfl

theorem Sound.updateRow {existing : EnvRow} (hRow : existing ∈ (db.half kind).rows.rows) (patched : Half.Patched)
    (hAudience : Unrivalled db kind existing.id patched.envName (reachedBy (db.half kind) existing.id patched.allMembers)) :
    Sound (db.withHalf kind ((db.half kind).updateRow existing.id patched)) := by
  have hMem : ∀ row ∈ ((db.half kind).updateRow existing.id patched).rows.rows,
      ∃ old ∈ (db.half kind).rows.rows, row.id = old.id ∧ row = if old.id = existing.id then patched.apply old else old := by
    intro row hMember
    obtain ⟨old, hOld, rfl⟩ := List.mem_map.mp hMember
    refine ⟨old, hOld, ?_, by simp only [decide_eq_true_eq]⟩
    split <;> rfl
  have hKept : ∀ old ∈ (db.half kind).rows.rows, ∃ row ∈ ((db.half kind).updateRow existing.id patched).rows.rows, row.id = old.id := by
    intro old hOld
    refine ⟨_, List.mem_map_of_mem hOld, ?_⟩
    dsimp only
    split <;> rfl
  refine h.withHalf existing.id ?_ (fun binding hBinding _ => hBinding) ?_ ?_ ?_
  · intro row hMember hNe
    obtain ⟨old, hOld, hId, hSame⟩ := hMem row hMember
    rw [hSame, if_neg (hId ▸ hNe)]
    exact hOld
  · intro row hMember hId
    obtain ⟨old, _, hOldId, hSame⟩ := hMem row hMember
    rw [if_pos (hOldId.symm.trans hId)] at hSame
    subst hSame
    refine hAudience.mono fun member hReaches => ?_
    refine (reaches_iff.mp hReaches).imp_right fun ⟨binding, hBinding, hBound, hMember⟩ => ?_
    exact ⟨binding, hBinding, hBound.trans hId, hMember⟩
  · intro binding hBinding
    obtain ⟨anchor, hAnchor, hAnchorId⟩ := h.anchored kind binding hBinding
    obtain ⟨row, hMember, hId⟩ := hKept anchor hAnchor
    exact ⟨row, hMember, hId.trans hAnchorId⟩
  · rintro rfl row hMember
    obtain ⟨old, hOld, hId, _⟩ := hMem row hMember
    rw [hId]
    exact h.named old hOld

theorem Sound.insertBinding {row : EnvRow} (hRow : row ∈ (db.half kind).rows.rows) {memberName : String} (now : Int)
    (hMember : Unrivalled db kind row.id row.envName {memberName}) :
    Sound (db.withHalf kind ((db.half kind).insertBinding row.id memberName now)) := by
  have hOld := h.unrivalled hRow
  refine h.withHalf row.id (fun other hOther _ => hOther) ?_ ?_ ?_ ?_
  · rintro binding hBinding hNe
    exact (mem_bindings_insertBinding hBinding).resolve_right fun hEq => hNe (congrArg Binding.rowId hEq)
  · intro other hOther hId
    rw [eq_of_id hRow hOther hId]
    refine unrivalled_of_forall fun member hReaches => ?_
    rcases reaches_iff.mp hReaches with hAll | ⟨binding, hBinding, hBound, hName⟩
    · exact hOld.mono (Set.singleton_subset_iff.mpr ⟨row, hRow, rfl, reaches_iff.mpr (.inl hAll)⟩)
    · rcases mem_bindings_insertBinding hBinding with hBefore | rfl
      · exact hOld.mono (Set.singleton_subset_iff.mpr ⟨row, hRow, rfl, reaches_iff.mpr (.inr ⟨binding, hBefore, hBound, hName⟩)⟩)
      · rw [← hName]
        exact hMember
  · intro binding hBinding
    rcases mem_bindings_insertBinding hBinding with hBefore | rfl
    · exact h.anchored kind binding hBefore
    · exact ⟨row, hRow, rfl⟩
  · rintro rfl
    exact h.named

theorem Sound.shrink {after : Half} (hRows : after.rows.rows ⊆ (db.half kind).rows.rows)
    (hBindings : after.bindings.rows ⊆ (db.half kind).bindings.rows)
    (hAnchored : ∀ binding ∈ after.bindings.rows, ∃ row ∈ after.rows.rows, row.id = binding.rowId) :
    Sound (db.withHalf kind after) := by
  refine h.withHalf "" (fun row hRow _ => hRows hRow) (fun binding hBinding _ => hBindings hBinding) ?_ hAnchored ?_
  · rintro row hRow hId
    rw [← hId]
    refine (h.unrivalled (hRows hRow)).mono fun member hMember => ⟨row, hRows hRow, rfl, reaches_iff.mpr ?_⟩
    refine (reaches_iff.mp hMember).imp_right fun ⟨binding, hBinding, hBound⟩ => ?_
    exact ⟨binding, hBindings hBinding, hBound⟩
  · rintro rfl row hRow
    exact h.named row (hRows hRow)

theorem anchored_deleteRow (kind : EnvRivalKind) (id : String) : ∀ binding ∈ ((db.half kind).deleteRow id).bindings.rows,
    ∃ row ∈ ((db.half kind).deleteRow id).rows.rows, row.id = binding.rowId := by
  intro binding hBinding
  obtain ⟨hStored, hOther⟩ := List.mem_filter.mp hBinding
  obtain ⟨row, hRow, hId⟩ := h.anchored kind binding hStored
  refine ⟨row, List.mem_filter.mpr ⟨hRow, ?_⟩, hId⟩
  dsimp only at hOther ⊢
  rw [hId]
  exact hOther

theorem Sound.deleteRow (id : String) : Sound (db.withHalf kind ((db.half kind).deleteRow id)) :=
  h.shrink List.filter_sublist.subset List.filter_sublist.subset (anchored_deleteRow h kind id)

theorem Sound.deleteBinding (id memberName : String) :
    Sound (db.withHalf kind ((db.half kind).deleteBinding id memberName)) :=
  h.shrink (List.Subset.refl _) List.filter_sublist.subset fun binding hBinding =>
    h.anchored kind binding (List.mem_filter.mp hBinding).1

theorem Sound.withValues (values : Table StoredValue.rowId) :
    Sound (db.withHalf kind { db.half kind with values }) :=
  h.shrink (List.Subset.refl _) (List.Subset.refl _) (h.anchored kind)

end

/-! ## What a run keeps -/

/-- The program keeps the database sound, whether it returns or fails. -/
def Secure {α : Type} (program : EnvM α) (db : Database) : Prop := Ends program db fun _ after => Sound after

variable {now : Int}

theorem allMembers_checked {excludeId slugTaken : String} {validateSlug : String → Except SecretsError Unit} {input : CreateInput}
    (h : checkCreate db kind excludeId slugTaken validateSlug input = .ok ()) (hAll : (input.row id now).allMembers = true) :
    checkAnyone db kind excludeId input.envName = .ok () := by
  have hApplies : input.allMembers = some true := by
    cases hGiven : input.allMembers with
    | none =>
      rw [CreateInput.row, hGiven] at hAll
      cases hAll
    | some applies =>
      rw [CreateInput.row, hGiven] at hAll
      exact congrArg some hAll
  obtain ⟨_, _, h⟩ := bind_eq_ok.mp h
  obtain ⟨_, _, h⟩ := bind_eq_ok.mp h
  rw [if_pos hApplies] at h
  split at h
  · cases h
  · exact h

section Programs

variable (hSound : Sound db)
include hSound

theorem secure_insertRow {row : EnvRow} (hAll : row.allMembers = true → ∀ reached, Unrivalled db kind row.id row.envName reached)
    (hNamed : kind = .secretKind → row.id ≠ "") : Secure (insertRow kind row) db := by
  unfold Secure insertRow
  rw [ends_reads_bind]
  refine ends_present_bind _ (fun _ => hSound) fun half hInsert => ?_
  exact hSound.insert hInsert hAll hNamed

theorem secure_createSecret (input : CreateInput) (id : Uuid) (now : Int) : Secure (create input id now) db := by
  unfold Secure create
  rw [ends_reads_bind]
  refine ends_fromExcept_bind _ (fun _ => hSound) fun _ hChecked => ?_
  have hNamed : id.text ≠ "" := by
    intro hEmpty
    have hLength := id.length
    rw [hEmpty] at hLength
    cases hLength
  refine secure_insertRow hSound (fun hAll reached => ?_) fun _ => hNamed
  have hRivals := unrivalled_of_checkAnyone (allMembers_checked hChecked hAll) reached
  rintro ⟨other, otherId⟩ hHolder hNe
  refine hRivals _ hHolder ?_
  -- the empty id that the check leaves out is the id of no secret
  intro hEmpty
  obtain ⟨row, hRow, hId, _⟩ := Database.mem_holders.mp hHolder
  cases hEmpty
  exact hSound.named row hRow hId

theorem secure_createVariable (input : CreateInput) (id : String) (now : Int) : Secure (Variables.create input id now) db := by
  unfold Secure Variables.create
  rw [ends_reads_bind]
  refine ends_fromExcept_bind _ (fun _ => hSound) fun _ hChecked => ?_
  refine secure_insertRow hSound (fun hAll reached => ?_) (fun hKind => by cases hKind)
  exact unrivalled_of_checkAnyone (allMembers_checked hChecked hAll) reached

theorem secure_update (patch : EnvPatch) (now : Int) : Secure (update kind id patch now) db := by
  unfold Secure update
  rw [ends_reads_bind]
  refine ends_present_bind _ (fun _ => hSound) fun existing hExisting => ?_
  refine ends_fromExcept_bind _ (fun _ => hSound) fun _ hChecked => ?_
  have hRow := mem_of_find hExisting
  obtain rfl : existing.id = id := key_of_find hExisting
  exact hSound.updateRow hRow _ (unrivalled_of_checkUpdate hSound hRow hChecked)

theorem secure_delete : Secure (delete kind id) db := by
  unfold Secure delete
  rw [ends_reads_bind]
  exact ends_present_bind _ (fun _ => hSound) fun _ _ => hSound.deleteRow id

theorem secure_bind (now : Int) : Secure (bind kind id memberName now) db := by
  unfold Secure bind
  rw [ends_reads_bind]
  refine ends_present_bind _ (fun _ => hSound) fun row hRow => ?_
  refine ends_fromExcept_bind _ (fun _ => hSound) fun _ hChecked => ?_
  obtain rfl : row.id = id := key_of_find hRow
  exact hSound.insertBinding (mem_of_find hRow) now (unrivalled_of_checkMember hChecked)

theorem secure_setSecretValue (cipher : Option Secrets.FieldCipher) (value : String) (now : Int) :
    Secure (setValue cipher id value now) db := by
  unfold Secure setValue
  rw [ends_reads_bind]
  refine ends_present_bind _ (fun _ => hSound) fun _ _ => ?_
  refine ends_fromExcept_bind _ (fun _ => hSound) fun _ _ => ?_
  refine ends_present_bind _ (fun _ => hSound) fun _ _ => ?_
  exact ends_present_bind _ (fun _ => hSound) fun _ _ => hSound.withValues _

theorem secure_setVariableValue (value : String) (now : Int) : Secure (Variables.setValue id value now) db := by
  unfold Secure Variables.setValue
  rw [ends_reads_bind]
  refine ends_present_bind _ (fun _ => hSound) fun _ _ => ?_
  exact ends_fromExcept_bind _ (fun _ => hSound) fun _ _ => hSound.withValues _

end Programs

/-! ### The migration -/

theorem rows_insertBindings (half : Half) (id : String) (members : List String) (now : Int) :
    (members.foldl (fun half memberName => half.insertBinding id memberName now) half).rows = half.rows ∧
      ∀ binding ∈ (members.foldl (fun half memberName => half.insertBinding id memberName now) half).bindings.rows,
        binding ∈ half.bindings.rows ∨ binding.rowId = id ∧ binding.memberName ∈ members := by
  induction members generalizing half with
  | nil => exact ⟨rfl, fun _ hBinding => .inl hBinding⟩
  | cons first rest ih =>
    obtain ⟨hRows, hBindings⟩ := ih (half.insertBinding id first now)
    refine ⟨hRows, fun binding hBinding => ?_⟩
    rcases hBindings binding hBinding with hOld | ⟨hRow, hMember⟩
    · rcases mem_bindings_insertBinding hOld with hBefore | rfl
      · exact .inl hBefore
      · exact .inr ⟨rfl, List.mem_cons_self⟩
    · exact .inr ⟨hRow, List.mem_cons_of_mem _ hMember⟩

/-- A pending move is of a secret that is there, with the members bound to it. -/
def Current (db : Database) (pending : PendingIdentity) : Prop :=
  pending.secret ∈ db.secretHalf.rows.rows ∧
    ∀ memberName ∈ pending.bindings, ∃ binding ∈ db.secretHalf.bindings.rows,
      binding.rowId = pending.secret.id ∧ binding.memberName = memberName

variable {after : Database} {pending : PendingIdentity}

theorem of_moveIdentity (h : moveIdentity now id db pending = some after) :
    after.secretHalf = db.secretHalf.deleteRow pending.secret.id ∧
      after.variableHalf.rows.rows = db.variableHalf.rows.rows ++ [{ pending.secret with id, createdAt := now, updatedAt := now }] ∧
      (∀ other ∈ db.variableHalf.rows.rows, other.id ≠ id) ∧
      ∀ binding ∈ after.variableHalf.bindings.rows,
        binding ∈ db.variableHalf.bindings.rows ∨ binding.rowId = id ∧ binding.memberName ∈ pending.bindings := by
  obtain ⟨inserted, hInserted, h⟩ := Option.bind_eq_some_iff.mp h
  obtain ⟨valued, hValued, h⟩ := Option.bind_eq_some_iff.mp h
  cases h
  obtain ⟨hRows, hBindings, hFresh⟩ := rows_insert hInserted
  have hSame : valued.rows = inserted.rows ∧ valued.bindings = inserted.bindings := by
    unfold Half.insertValue at hValued
    split at hValued
    · cases hValued
    · cases hValued
      exact ⟨rfl, rfl⟩
  obtain ⟨hBoundRows, hBound⟩ := rows_insertBindings valued id pending.bindings now
  refine ⟨rfl, ?_, hFresh, ?_⟩
  · rw [hBoundRows, hSame.1]
    exact hRows
  · rw [← hBindings, ← hSame.2]
    exact hBound

theorem Sound.moveIdentity (hSound : Sound db) (hCurrent : Current db pending)
    (h : moveIdentity now id db pending = some after) : Sound after := by
  obtain ⟨hSecrets, hRows, hFresh, hBindings⟩ := of_moveIdentity h
  obtain ⟨hSecret, hBound⟩ := hCurrent
  have hKept : ∀ row ∈ after.secretHalf.rows.rows, row ∈ db.secretHalf.rows.rows ∧ row.id ≠ pending.secret.id := by
    intro row hRow
    rw [hSecrets] at hRow
    obtain ⟨hStored, hOther⟩ := List.mem_filter.mp hRow
    exact ⟨hStored, by simpa using hOther⟩
  have hMem : ∀ row ∈ after.variableHalf.rows.rows,
      row ∈ db.variableHalf.rows.rows ∨ row = { pending.secret with id, createdAt := now, updatedAt := now } := by
    intro row hRow
    rw [hRows] at hRow
    exact (List.mem_append.mp hRow).imp_right List.mem_singleton.mp
  have hSecretReach : ∀ row member, after.secretHalf.reaches row member = true → db.secretHalf.reaches row member = true := by
    intro row member hReaches
    refine reaches_iff.mpr ((reaches_iff.mp hReaches).imp_right fun ⟨binding, hBinding, hRow⟩ => ⟨binding, ?_, hRow⟩)
    rw [hSecrets] at hBinding
    exact (List.mem_filter.mp hBinding).1
  refine ⟨hSound.exclusive.replace (.secretKind, pending.secret.id) (.variableKind, id) ?_ ?_, ?_, ?_⟩
  · rintro name ⟨kind, otherId⟩ ⟨row, hRow, hId, hName⟩ hNe
    cases kind with
    | secretKind =>
      obtain ⟨hStored, hOther⟩ := hKept row hRow
      refine ⟨⟨row, hStored, hId, hName⟩, fun hEq => hOther (hId.trans (congrArg Prod.snd hEq)), ?_⟩
      rintro member ⟨same, hSame, hSameId, hReaches⟩
      exact ⟨same, (hKept same hSame).1, hSameId, hSecretReach same member hReaches⟩
    | variableKind =>
      have hOther : otherId ≠ id := fun hEq => hNe (congrArg _ hEq)
      have hOld : ∀ row ∈ after.variableHalf.rows.rows, row.id = otherId → row ∈ db.variableHalf.rows.rows := by
        intro row hRow hId
        rcases hMem row hRow with hStored | rfl
        · exact hStored
        · exact absurd hId.symm hOther
      refine ⟨⟨row, hOld row hRow hId, hId, hName⟩, (nomatch ·), ?_⟩
      rintro member ⟨same, hSame, hSameId, hReaches⟩
      refine ⟨same, hOld same hSame hSameId, hSameId, reaches_iff.mpr ?_⟩
      refine (reaches_iff.mp hReaches).imp_right fun ⟨binding, hBinding, hRowId, hMember⟩ => ⟨binding, ?_, hRowId, hMember⟩
      refine (hBindings binding hBinding).resolve_right fun hNew => hOther ?_
      rw [← hNew.1, hRowId]
      exact hSameId.symm
  · rintro name ⟨row, hRow, hId, hName⟩
    have hNew : ∀ row ∈ after.variableHalf.rows.rows, row.id = id →
        row = { pending.secret with id, createdAt := now, updatedAt := now } := fun row hRow hId =>
      (hMem row hRow).resolve_left fun hStored => hFresh row hStored hId
    have hMoved := hNew row hRow hId
    subst hMoved
    refine ⟨⟨pending.secret, hSecret, rfl, hName⟩, ?_⟩
    rintro member ⟨same, hSame, hSameId, hReaches⟩
    refine ⟨pending.secret, hSecret, rfl, reaches_iff.mpr ?_⟩
    rw [hNew same hSame hSameId] at hReaches
    rcases reaches_iff.mp hReaches with hAll | ⟨binding, hBinding, hRowId, hMember⟩
    · exact .inl hAll
    · rcases hBindings binding hBinding with hStored | ⟨_, hPending⟩
      · -- nothing was bound to the id that was drawn
        obtain ⟨anchor, hAnchor, hAnchorId⟩ := hSound.anchored .variableKind binding hStored
        exact absurd (hAnchorId.trans hRowId) (hFresh anchor hAnchor)
      · rw [hMember] at hPending
        exact .inr (hBound member hPending)
  · intro kind binding hBinding
    cases kind with
    | secretKind =>
      change binding ∈ after.secretHalf.bindings.rows at hBinding
      change ∃ row ∈ after.secretHalf.rows.rows, _
      rw [hSecrets] at hBinding ⊢
      exact anchored_deleteRow hSound .secretKind pending.secret.id binding hBinding
    | variableKind =>
      change ∃ row ∈ after.variableHalf.rows.rows, _
      rw [hRows]
      rcases hBindings binding hBinding with hStored | ⟨hRowId, _⟩
      · obtain ⟨anchor, hAnchor, hAnchorId⟩ := hSound.anchored .variableKind binding hStored
        exact ⟨anchor, List.mem_append_left _ hAnchor, hAnchorId⟩
      · exact ⟨_, List.mem_append_right _ (List.mem_singleton.mpr rfl), hRowId.symm⟩
  · exact fun row hRow => hSound.named row (hKept row hRow).1

theorem Current.moveIdentity {pending other : PendingIdentity} (hOther : Current db other)
    (hNe : other.secret.id ≠ pending.secret.id) (h : moveIdentity now id db pending = some after) : Current after other := by
  obtain ⟨hSecrets, _⟩ := of_moveIdentity h
  unfold Current
  rw [hSecrets]
  refine ⟨List.mem_filter.mpr ⟨hOther.1, by simpa using hNe⟩, fun member hMember => ?_⟩
  obtain ⟨binding, hBinding, hRowId, hName⟩ := hOther.2 member hMember
  refine ⟨binding, List.mem_filter.mpr ⟨hBinding, ?_⟩, hRowId, hName⟩
  simpa [hRowId] using hNe

theorem Sound.moveIdentities {drawn : String → String} {pending : List PendingIdentity}
    (hSound : Sound db) (hCurrent : ∀ entry ∈ pending, Current db entry)
    (hDistinct : (pending.map fun entry => entry.secret.id).Nodup) (h : moveIdentities now drawn pending db = some after) :
    Sound after := by
  induction pending generalizing db with
  | nil =>
    cases h
    exact hSound
  | cons first rest ih =>
    obtain ⟨moved, hMoved, hRest⟩ := Option.bind_eq_some_iff.mp h
    obtain ⟨hFirst, hLater⟩ := List.forall_mem_cons.mp hCurrent
    rw [List.map_cons, List.nodup_cons] at hDistinct
    refine ih (hSound.moveIdentity hFirst hMoved) (fun entry hEntry => ?_) hDistinct.2 hRest
    refine (hLater entry hEntry).moveIdentity (fun hEq => hDistinct.1 ?_) hMoved
    rw [← hEq]
    exact List.mem_map_of_mem hEntry

section Pending

variable {cipher : Option Secrets.FieldCipher}

theorem of_mem_unmigrated {secret : EnvRow} (h : secret ∈ unmigrated db) : secret ∈ db.secretHalf.rows.rows :=
  (List.mem_insertionSort _).mp (List.mem_of_mem_filter (List.mem_of_mem_filter h))

theorem current_of_mem_pendingIdentities {entry : PendingIdentity} (h : entry ∈ pendingIdentities cipher db) : Current db entry := by
  obtain ⟨secret, hSecret, hEntry⟩ := List.mem_filterMap.mp h
  split at hEntry
  · cases hEntry
    exact ⟨of_mem_unmigrated hSecret, fun _ hMember => mem_listBindings.mp hMember⟩
  · cases hEntry

theorem nodup_pendingIdentities : ((pendingIdentities cipher db).map fun entry => entry.secret.id).Nodup := by
  have hSorted : ((unmigrated db).map EnvRow.id).Nodup := by
    refine List.Nodup.sublist ((List.filter_sublist.trans List.filter_sublist).map _) ?_
    exact ((List.perm_insertionSort _ _).map EnvRow.id).nodup_iff.mpr db.secretHalf.rows.nodup
  refine hSorted.sublist ?_
  unfold pendingIdentities
  induction unmigrated db with
  | nil => exact List.Sublist.slnil
  | cons secret rest ih =>
    rw [List.filterMap_cons]
    split
    · exact ih.trans (List.sublist_cons_self _ _)
    · rename_i entry hEntry
      split at hEntry
      · cases hEntry
        exact ih.cons_cons _
      · cases hEntry

theorem Sound.migrateIdentityToVariables (h : Sound db) (now : Int) (drawn : String → String) :
    Sound (migrateIdentityToVariables cipher db now drawn).2 := by
  unfold EnvNamespace.migrateIdentityToVariables
  dsimp only
  split
  · exact h
  · split
    · exact h
    · rename_i hMoved
      exact h.moveIdentities (fun _ hEntry => current_of_mem_pendingIdentities hEntry) nodup_pendingIdentities hMoved

end Pending

theorem Secure.reply {α : Type} {program : EnvM α} (h : Secure program db) (f : α → Reply) :
    Secure (program >>= fun a => pure (f a)) db := by
  unfold Secure at *
  rw [ends_bind]
  refine Ends.imp h ?_
  rintro (_ | _) after hAfter
  · exact hAfter
  · exact hAfter

theorem Sound.serve (h : Sound db) (call : Call) : Sound (serve db call).1 := by
  have hProgram : Secure call.program db := by
    cases call with
    | createSecret input id now => exact (secure_createSecret h input id now).reply _
    | createVariable input id now => exact (secure_createVariable h input id now).reply _
    | update kind id patch now => exact (secure_update h patch now).reply _
    | delete kind id => exact (secure_delete h).reply _
    | bind kind id memberName now => exact (secure_bind h now).reply _
    | unbind kind id memberName => exact h.deleteBinding id memberName
    | setSecretValue cipher id value now => exact (secure_setSecretValue h cipher value now).reply _
    | setVariableValue id value now => exact (secure_setVariableValue h value now).reply _
    | deleteValue kind id => exact h.withValues _
    | migrate cipher now drawn => exact h.migrateIdentityToVariables now drawn
  exact (ends_iff_run _).mp hProgram

theorem sound_empty : Sound .empty := by
  refine ⟨?_, ?_, fun _ hRow => nomatch hRow⟩
  · rintro name ⟨kind, id⟩ ⟨row, hRow, _⟩
    cases kind <;> cases hRow
  · intro kind binding hBinding
    cases kind <;> cases hBinding

section Resolvers

variable {found : EnvRivalKind × EnvRow}

theorem of_mem_resolversOf (h : found ∈ db.resolversOf memberName envName kind) : found.1 = kind ∧
    found.2 ∈ (db.half kind).rows.rows ∧ found.2.envName = envName ∧ (db.half kind).reaches found.2 memberName = true := by
  obtain ⟨row, hRow, rfl⟩ := List.mem_map.mp h
  obtain ⟨hStored, hMeets⟩ := List.mem_filter.mp hRow
  rw [Bool.and_eq_true, decide_eq_true_eq] at hMeets
  exact ⟨rfl, hStored, hMeets⟩

theorem of_mem_resolvers (h : found ∈ db.resolvers memberName envName) :
    (found.1, found.2.id) ∈ db.holders envName ∧ memberName ∈ db.audience (found.1, found.2.id) := by
  obtain ⟨kind, hKind⟩ : ∃ kind, found ∈ db.resolversOf memberName envName kind :=
    (List.mem_append.mp h).elim (fun hSecret => ⟨_, hSecret⟩) fun hVariable => ⟨_, hVariable⟩
  obtain ⟨rfl, hStored, hName, hReaches⟩ := of_mem_resolversOf hKind
  exact ⟨⟨found.2, hStored, rfl, hName⟩, found.2, hStored, rfl, hReaches⟩

theorem nodup_resolvers : ((db.resolvers memberName envName).map fun found => (found.1, found.2.id)).Nodup := by
  have hHalf : ∀ kind, ((db.resolversOf memberName envName kind).map fun found => (found.1, found.2.id)).Nodup := by
    intro kind
    have hIds : ((db.resolversOf memberName envName kind).map fun found => found.2.id).Nodup := by
      rw [Database.resolversOf, List.map_map]
      exact (db.half kind).rows.nodup.sublist (List.filter_sublist.map EnvRow.id)
    refine List.Nodup.of_map Prod.snd ?_
    rw [List.map_map]
    exact hIds
  rw [Database.resolvers, List.map_append]
  refine List.nodup_append'.mpr ⟨hHalf _, hHalf _, ?_⟩
  rw [List.disjoint_left]
  rintro ⟨kind, id⟩ hSecret hVariable
  obtain ⟨first, hFirst, hKind⟩ := List.mem_map.mp hSecret
  obtain ⟨second, hSecond, hSame⟩ := List.mem_map.mp hVariable
  have hKinds : first.1 = second.1 := (Prod.mk.inj (hKind.trans hSame.symm)).1
  rw [(of_mem_resolversOf hFirst).1, (of_mem_resolversOf hSecond).1] at hKinds
  cases hKinds

end Resolvers

theorem Sound.length_resolvers_le (h : Sound db) (memberName envName : String) : (db.resolvers memberName envName).length ≤ 1 := by
  rw [← List.length_map fun found : EnvRivalKind × EnvRow => (found.1, found.2.id)]
  refine h.exclusive.length_le_one envName memberName nodup_resolvers ?_ ?_
  · intro holder hHolder
    obtain ⟨found, hFound, rfl⟩ := List.mem_map.mp hHolder
    exact (of_mem_resolvers hFound).1
  · intro holder hHolder
    obtain ⟨found, hFound, rfl⟩ := List.mem_map.mp hHolder
    exact (of_mem_resolvers hFound).2

/-- In every run from an empty database, at most one row of the two stores targets a name and reaches a member. -/
theorem one_value_per_name (calls : List Call) :
    ∀ step ∈ run serve .empty calls, ∀ memberName envName : String,
      (step.after.resolvers memberName envName).length ≤ 1 := by
  intro step hStep memberName envName
  obtain ⟨hBefore, hSame⟩ := run_invariant (P := Sound) (fun _ call h => h.serve call) sound_empty hStep
  rw [hSame]
  exact (hBefore.serve step.input).length_resolvers_le memberName envName

def apiTokens : List Call :=
  [.createVariable ⟨"api-token", "API_TOKEN", none, some true, some true, "alice"⟩ "1" 1,
    .createVariable ⟨"other-token", "API_TOKEN", none, some true, some true, "bob"⟩ "2" 2]

theorem one_api_token : ((final serve .empty apiTokens).resolvers "alice" "API_TOKEN").length ≤ 1 :=
  one_value_per_name apiTokens _ (List.getLast_mem (List.cons_ne_nil _ _)) "alice" "API_TOKEN"

end CommandSuite.EnvNamespace
