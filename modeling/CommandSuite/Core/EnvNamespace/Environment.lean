import CommandSuite.Core.EnvNamespace.OneValue

/-! # The environment of a member

`listForMember` and `resolveFor` of both stores, and the environment that they make together as far as the values can be
decrypted.
-/

namespace CommandSuite.EnvNamespace

open Library Library.Fallible Library.Transcript Secrets

inductive ResolveError where
  | secrets (error : SecretsError)
  | encryptedField (message : String)

abbrev Env := String → Option String

namespace Env

def empty : Env := fun _ => none

/-- `env[name] = value`. -/
def assign (env : Env) (name value : String) : Env := fun other => if other = name then some value else env other

def ofRows (value : EnvRow → Option String) (rows : List EnvRow) (env : Env) : Env :=
  rows.foldl (fun env row =>
    match value row with
    | none => env
    | some value => env.assign row.envName value) env

def valueFor (value : EnvRow → Option String) (envName : String) (row : EnvRow) : Option String :=
  if row.envName = envName then value row else none

theorem ofRows_apply (value : EnvRow → Option String) (rows : List EnvRow) (env : Env) (envName : String) :
    ofRows value rows env envName = (rows.reverse.findSome? (valueFor value envName)).or (env envName) := by
  induction rows generalizing env with
  | nil => rfl
  | cons row rows ih =>
    have hFirst : (match value row with
        | none => env
        | some value => env.assign row.envName value) envName = (valueFor value envName row).or (env envName) := by
      unfold valueFor
      cases value row with
      | none => split <;> rfl
      | some value =>
        by_cases hName : row.envName = envName
        · rw [if_pos hName]
          exact if_pos hName.symm
        · rw [if_neg hName]
          exact if_neg fun hSame => hName hSame.symm
    rw [List.reverse_cons, List.findSome?_append, Option.or_assoc]
    refine (ih _).trans (congrArg _ (hFirst.trans ?_))
    rw [List.findSome?_singleton]

end Env

theorem findSome?_eq_some_iff {α β : Type} {f : α → Option β} {items : List α}
    (hOnly : ∀ a ∈ items, ∀ b ∈ items, (f a).isSome = true → (f b).isSome = true → a = b) {value : β} :
    items.findSome? f = some value ↔ ∃ item ∈ items, f item = some value := by
  constructor
  · exact fun h => List.exists_of_findSome?_eq_some h
  · rintro ⟨item, hItem, hValue⟩
    obtain ⟨found, hFound⟩ : ∃ found, items.findSome? f = some found :=
      Option.isSome_iff_exists.mp (List.findSome?_isSome_iff.mpr ⟨item, hItem, by rw [hValue]; rfl⟩)
    obtain ⟨other, hOther, hSame⟩ := List.exists_of_findSome?_eq_some hFound
    rw [hOnly other hOther item hItem (by rw [hSame]; rfl) (by rw [hValue]; rfl), hValue] at hSame
    rw [hFound, hSame]

/-! ## Resolving -/

/-- The enabled rows that reach the member, in the order of `created_at`. -/
def Half.listForMember (half : Half) (memberName : String) : List EnvRow :=
  (half.rows.select fun row => row.enabled && half.reaches row memberName).insertionSort fun a b => a.createdAt ≤ b.createdAt

namespace Secrets

def readValue (cipher : Option Secrets.FieldCipher) (half : Half) (secret : EnvRow) : Except ResolveError (Option String) :=
  match half.values.find secret.id, cipher with
  | none, _ => .ok none
  | some _, none => .error (.secrets (.raised .noKek "no encryption key is active; cannot resolve secrets"))
  | some stored, some cipher => (cipher.decrypt stored.value).mapError .encryptedField

def resolveFor (cipher : Option Secrets.FieldCipher) (half : Half) (memberName : String) : Except ResolveError Env :=
  (half.listForMember memberName).foldlM (fun env secret => do
    match ← readValue cipher half secret with
    | none => return env
    | some value => return env.assign secret.envName value) Env.empty

end Secrets

namespace Variables

def readValue (half : Half) (variable_ : EnvRow) : Option String := (half.values.find variable_.id).map StoredValue.value

def resolveFor (half : Half) (memberName : String) : Env := Env.ofRows (readValue half) (half.listForMember memberName) Env.empty

end Variables

/-! ## The two stores together -/

section Environment

variable (cipher : Option Secrets.FieldCipher) (db : Database)

def valueOf (kind : EnvRivalKind) (row : EnvRow) : Option String :=
  match kind with
  | .secretKind => (readIdentity cipher db row).toOption
  | .variableKind => Variables.readValue db.variableHalf row

/-- What the member's runner gets for a name, as far as the values can be decrypted. -/
def environment (memberName : String) : Env := fun envName =>
  (db.resolvers memberName envName).findSome? fun found => if found.2.enabled then valueOf cipher db found.1 found.2 else none

def Gives (kind : EnvRivalKind) (memberName envName value : String) : Prop :=
  ∃ row ∈ (db.half kind).rows.rows, row.enabled = true ∧ row.envName = envName ∧
    (db.half kind).reaches row memberName = true ∧ valueOf cipher db kind row = some value

end Environment

variable {cipher : Option Secrets.FieldCipher} {db : Database} {memberName envName : String}

theorem Sound.eq_of_reaches (h : Sound db) {kind other : EnvRivalKind} {row rival : EnvRow} (hRow : row ∈ (db.half kind).rows.rows)
    (hRival : rival ∈ (db.half other).rows.rows) (hName : row.envName = envName) (hSame : rival.envName = envName)
    (hReaches : (db.half kind).reaches row memberName = true) (hBoth : (db.half other).reaches rival memberName = true) :
    (kind, row) = (other, rival) := by
  have hHolder : (kind, row.id) = (other, rival.id) := by
    by_contra hNe
    have hDisjoint := h.exclusive envName ⟨row, hRow, rfl, hName⟩ ⟨rival, hRival, rfl, hSame⟩ hNe
    exact Set.disjoint_left.mp hDisjoint ⟨row, hRow, rfl, hReaches⟩ ⟨rival, hRival, rfl, hBoth⟩
  obtain ⟨rfl, hId⟩ := Prod.mk.inj hHolder
  rw [eq_of_id hRival hRow hId]

theorem mem_resolvers {found : EnvRivalKind × EnvRow} : found ∈ db.resolvers memberName envName ↔
    found.2 ∈ (db.half found.1).rows.rows ∧ found.2.envName = envName ∧ (db.half found.1).reaches found.2 memberName = true := by
  have hHalf : ∀ kind, found ∈ db.resolversOf memberName envName kind ↔ found.1 = kind ∧
      found.2 ∈ (db.half kind).rows.rows ∧ found.2.envName = envName ∧ (db.half kind).reaches found.2 memberName = true := by
    intro kind
    refine ⟨of_mem_resolversOf, ?_⟩
    rintro ⟨rfl, hStored, hName, hReaches⟩
    refine List.mem_map.mpr ⟨found.2, (Table.mem_select _ _ _).mpr ⟨hStored, ?_⟩, rfl⟩
    rw [Bool.and_eq_true, decide_eq_true_eq]
    exact ⟨hName, hReaches⟩
  rw [Database.resolvers, List.mem_append, hHalf, hHalf]
  obtain ⟨kind, row⟩ := found
  cases kind <;> simp

theorem mem_listForMember {half : Half} {row : EnvRow} :
    row ∈ half.listForMember memberName ↔ row ∈ half.rows.rows ∧ row.enabled = true ∧ half.reaches row memberName = true := by
  rw [Half.listForMember, List.mem_insertionSort, Table.mem_select, Bool.and_eq_true]

theorem Sound.environment_eq_some_iff (h : Sound db) {value : String} :
    environment cipher db memberName envName = some value ↔ ∃ kind, Gives cipher db kind memberName envName value := by
  rw [environment, findSome?_eq_some_iff]
  · constructor
    · rintro ⟨⟨kind, row⟩, hFound, hValue⟩
      obtain ⟨hStored, hName, hReaches⟩ := mem_resolvers.mp hFound
      dsimp only at hValue
      split at hValue
      · rename_i hEnabled
        exact ⟨kind, row, hStored, hEnabled, hName, hReaches, hValue⟩
      · cases hValue
    · rintro ⟨kind, row, hStored, hEnabled, hName, hReaches, hValue⟩
      exact ⟨(kind, row), mem_resolvers.mpr ⟨hStored, hName, hReaches⟩, (if_pos hEnabled).trans hValue⟩
  · intro found hFound other hOther _ _
    obtain ⟨hStored, hName, hReaches⟩ := mem_resolvers.mp hFound
    obtain ⟨hRival, hSame, hBoth⟩ := mem_resolvers.mp hOther
    exact h.eq_of_reaches hStored hRival hName hSame hReaches hBoth

theorem Sound.ofRows_eq_some_iff (h : Sound db) (kind : EnvRivalKind) {value : String} :
    Env.ofRows (valueOf cipher db kind) ((db.half kind).listForMember memberName) Env.empty envName = some value ↔
      Gives cipher db kind memberName envName value := by
  rw [Env.ofRows_apply]
  change Option.or _ none = _ ↔ _
  rw [Option.or_none, findSome?_eq_some_iff]
  · constructor
    · rintro ⟨row, hRow, hValue⟩
      obtain ⟨hStored, hEnabled, hReaches⟩ := mem_listForMember.mp (List.mem_reverse.mp hRow)
      unfold Env.valueFor at hValue
      split at hValue
      · rename_i hName
        exact ⟨row, hStored, hEnabled, hName, hReaches, hValue⟩
      · cases hValue
    · rintro ⟨row, hStored, hEnabled, hName, hReaches, hValue⟩
      exact ⟨row, List.mem_reverse.mpr (mem_listForMember.mpr ⟨hStored, hEnabled, hReaches⟩), (if_pos hName).trans hValue⟩
  · have hNamed : ∀ row, (Env.valueFor (valueOf cipher db kind) envName row).isSome = true → row.envName = envName := by
      intro row hValue
      unfold Env.valueFor at hValue
      split at hValue
      · assumption
      · cases hValue
    intro row hRow rival hRival hValue hOther
    obtain ⟨hStored, -, hReaches⟩ := mem_listForMember.mp (List.mem_reverse.mp hRow)
    obtain ⟨hHeld, -, hBoth⟩ := mem_listForMember.mp (List.mem_reverse.mp hRival)
    exact (Prod.mk.inj (h.eq_of_reaches hStored hHeld (hNamed row hValue) (hNamed rival hOther) hReaches hBoth)).2

/-- Where every value can be decrypted, `resolveFor` of the secrets assigns what can be read. -/
theorem resolveFor_eq_ok {env : Env} (h : resolveFor cipher db.secretHalf memberName = .ok env) :
    env = Env.ofRows (valueOf cipher db .secretKind) (db.secretHalf.listForMember memberName) Env.empty := by
  have hRead : ∀ secret found, readValue cipher db.secretHalf secret = .ok found → valueOf cipher db .secretKind secret = found := by
    intro secret found hFound
    change (readIdentity cipher db secret).toOption = found
    unfold readIdentity
    unfold readValue at hFound
    cases hStored : db.secretHalf.values.find secret.id with
    | none =>
      rw [hStored] at hFound
      exact (Except.ok.inj hFound)
    | some stored =>
      rw [hStored] at hFound
      cases cipher with
      | none => cases hFound
      | some cipher =>
        dsimp only at hFound ⊢
        rw [mapError_eq_ok] at hFound
        rw [hFound]
        cases found <;> rfl
  unfold resolveFor at h
  generalize db.secretHalf.listForMember memberName = rows at h ⊢
  generalize Env.empty = start at h ⊢
  induction rows generalizing start with
  | nil => exact (Except.ok.inj h).symm
  | cons secret rows ih =>
    rw [List.foldlM_cons] at h
    obtain ⟨next, hFirst, hRest⟩ := bind_eq_ok.mp h
    obtain ⟨found, hFound, hNext⟩ := bind_eq_ok.mp hFirst
    rw [ih next hRest, Env.ofRows, Env.ofRows, List.foldl_cons]
    congr 1
    rw [hRead secret found hFound]
    cases found with
    | none => exact (Except.ok.inj hNext).symm
    | some value => exact (Except.ok.inj hNext).symm

theorem Sound.environment_eq (h : Sound db) {env : Env} (hSecrets : resolveFor cipher db.secretHalf memberName = .ok env)
    (envName : String) :
    environment cipher db memberName envName = (env envName).or (Variables.resolveFor db.variableHalf memberName envName) := by
  rw [resolveFor_eq_ok hSecrets]
  refine Option.ext fun value => ?_
  have hFromSecrets : Env.ofRows (valueOf cipher db .secretKind) (db.secretHalf.listForMember memberName) Env.empty envName = some value ↔
      Gives cipher db .secretKind memberName envName value := h.ofRows_eq_some_iff .secretKind
  have hVariables : Variables.resolveFor db.variableHalf memberName envName = some value ↔
      Gives cipher db .variableKind memberName envName value := h.ofRows_eq_some_iff .variableKind
  rw [h.environment_eq_some_iff, Option.or_eq_some_iff, hFromSecrets, hVariables]
  constructor
  · rintro ⟨kind, hGives⟩
    cases kind with
    | secretKind => exact .inl hGives
    | variableKind =>
      refine .inr ⟨Option.eq_none_iff_forall_ne_some.mpr fun other hOther => ?_, hGives⟩
      -- no member has the name from both stores
      obtain ⟨secret, hSecret, -, hName, hReaches, -⟩ := (h.ofRows_eq_some_iff .secretKind).mp hOther
      obtain ⟨variable_, hVariable, -, hSame, hBoth, -⟩ := hGives
      cases h.eq_of_reaches hSecret hVariable hName hSame hReaches hBoth
  · rintro (hGives | ⟨-, hGives⟩)
    · exact ⟨_, hGives⟩
    · exact ⟨_, hGives⟩

/-- In every run, a member gets for a name the value of an enabled identity that has the name and reaches the member. -/
theorem resolved_exactly (calls : List Call) (memberName : String) {env : Env}
    (hSecrets : resolveFor cipher (final serve .empty calls).secretHalf memberName = .ok env) (envName value : String) :
    (env envName).or (Variables.resolveFor (final serve .empty calls).variableHalf memberName envName) = some value ↔
      ∃ kind, Gives cipher (final serve .empty calls) kind memberName envName value := by
  have h : Sound (final serve .empty calls) := final_invariant (fun _ call h => h.serve call) sound_empty calls
  rw [← h.environment_eq hSecrets, h.environment_eq_some_iff]

def tokenCalls : List Call :=
  [.createVariable ⟨"api-token", "API_TOKEN", none, some true, some true, "alice"⟩ "1" 1, .setVariableValue "1" "t0ken" 2]

theorem token_resolved : (Env.empty "API_TOKEN").or (Variables.resolveFor (final serve .empty tokenCalls).variableHalf "bob" "API_TOKEN") =
    some "t0ken" ↔ ∃ kind, Gives none (final serve .empty tokenCalls) kind "bob" "API_TOKEN" "t0ken" :=
  resolved_exactly tokenCalls "bob" rfl "API_TOKEN" "t0ken"

end CommandSuite.EnvNamespace
