import CommandSuite.Library.Fallible
import CommandSuite.Library.Table
import CommandSuite.Library.Text
import Mathlib.Data.List.Sort

/-! # The runner environment namespace

`packages/core/src/env-namespace.ts` and what `secrets.ts` and `variables.ts` share: two stores of the
same shape write into one environment map, and the lookup of a rival row queries both.
-/

namespace CommandSuite.EnvNamespace

open Library Library.Fallible

inductive EnvRivalKind where
  | secretKind | variableKind
  deriving DecidableEq

def EnvRivalKind.text : EnvRivalKind → String
  | .secretKind => "secret"
  | .variableKind => "variable"

inductive SecretsErrorCode where
  | notFound | invalidInput | slugTaken | envTaken | noKek
  deriving DecidableEq

inductive SecretsError where
  | raised (code : SecretsErrorCode) (message : String)
  | constraint
  deriving DecidableEq

/-- A row of `secrets` or of `variables`. -/
structure EnvRow where
  id : String
  slug : String
  envName : String
  description : String
  enabled : Bool
  allMembers : Bool
  createdBy : String
  createdAt : Int
  updatedAt : Int
  deriving DecidableEq

structure Binding where
  rowId : String
  memberName : String
  createdAt : Int
  deriving DecidableEq

def Binding.key (binding : Binding) : String × String := (binding.rowId, binding.memberName)

/-- A row of `secret_values`, whose value is encrypted, or of `variable_values`. -/
structure StoredValue where
  rowId : String
  value : String
  createdAt : Int
  updatedAt : Int
  deriving DecidableEq

structure Half where
  rows : Table EnvRow.id
  slugs : (rows.rows.map EnvRow.slug).Nodup
  bindings : Table Binding.key
  values : Table StoredValue.rowId

namespace Half

def empty : Half := ⟨.empty, List.nodup_nil, .empty, .empty⟩

variable (half : Half)

def get (id : String) : Option EnvRow := half.rows.find id

def getBySlug (slug : String) : Option EnvRow := half.rows.rows.find? fun row => row.slug = slug

def isBound (id memberName : String) : Bool := (half.bindings.find (id, memberName)).isSome

/-- In the order of `created_at`. -/
def listBindings (id : String) : List String :=
  ((half.bindings.select fun binding => binding.rowId = id).insertionSort fun a b => a.createdAt ≤ b.createdAt).map
    Binding.memberName

def hasValue (id : String) : Bool := (half.values.find id).isSome

def insert (row : EnvRow) : Option Half :=
  if hFree : half.rows.find row.id = none ∧ half.getBySlug row.slug = none then
    some { half with
      rows := half.rows.insertOrIgnore row
      slugs := by
        have hSlug : ∀ other ∈ half.rows.rows, other.slug ≠ row.slug := by simpa [getBySlug] using hFree.2
        rw [Table.rows_insertOrIgnore, if_pos hFree.1, List.map_append, List.map_singleton]
        refine List.nodup_append'.mpr ⟨half.slugs, List.nodup_singleton _, ?_⟩
        simpa using hSlug }
  else none

/-- What `update` may write. The slug is immutable. -/
structure Patched where
  envName : String
  description : String
  enabled : Bool
  allMembers : Bool
  updatedAt : Int

def Patched.apply (patched : Patched) (row : EnvRow) : EnvRow :=
  { row with
    envName := patched.envName, description := patched.description, enabled := patched.enabled,
    allMembers := patched.allMembers, updatedAt := patched.updatedAt }

def updateRow (id : String) (patched : Patched) : Half :=
  { half with
    rows := half.rows.update (fun row => row.id = id) patched.apply fun _ => rfl
    slugs := by
      change ((half.rows.rows.map fun row => if decide (row.id = id) = true then patched.apply row else row).map EnvRow.slug).Nodup
      rw [List.map_map]
      have hSlugs : (EnvRow.slug ∘ fun row => if decide (row.id = id) = true then patched.apply row else row) = EnvRow.slug := by
        funext row
        simp only [Function.comp_apply]
        split <;> rfl
      rw [hSlugs]
      exact half.slugs }

def deleteRow (id : String) : Half :=
  { rows := half.rows.delete fun row => row.id = id
    slugs := half.slugs.sublist (List.filter_sublist.map _)
    bindings := half.bindings.delete fun binding => binding.rowId = id
    values := half.values.delete fun stored => stored.rowId = id }

def insertBinding (id memberName : String) (now : Int) : Half :=
  { half with bindings := half.bindings.insertOrIgnore ⟨id, memberName, now⟩ }

def deleteBinding (id memberName : String) : Half :=
  { half with bindings := half.bindings.delete fun binding => binding.rowId = id && binding.memberName = memberName }

/-- `ON CONFLICT DO UPDATE`. -/
def upsertValue (id value : String) (now : Int) : Half :=
  let values := half.values.update (fun stored => stored.rowId = id) (fun stored => { stored with value, updatedAt := now }) fun _ => rfl
  { half with values := values.insertOrIgnore ⟨id, value, now, now⟩ }

def insertValue (id value : String) (now : Int) : Option Half :=
  if half.hasValue id then none else some { half with values := half.values.insertOrIgnore ⟨id, value, now, now⟩ }

def deleteValue (id : String) : Half := { half with values := half.values.delete fun stored => stored.rowId = id }

def reaches (row : EnvRow) (memberName : String) : Bool :=
  row.allMembers || half.bindings.rows.any fun binding => binding.rowId = row.id && binding.memberName = memberName

def reachesAnyone (row : EnvRow) : Bool := row.allMembers || half.bindings.rows.any fun binding => binding.rowId = row.id

end Half

structure Database where
  secretHalf : Half
  variableHalf : Half

namespace Database

def empty : Database := ⟨.empty, .empty⟩

def half (db : Database) : EnvRivalKind → Half
  | .secretKind => db.secretHalf
  | .variableKind => db.variableHalf

def withHalf (db : Database) (kind : EnvRivalKind) (half : Half) : Database :=
  match kind with
  | .secretKind => { db with secretHalf := half }
  | .variableKind => { db with variableHalf := half }

@[simp] theorem half_withHalf (db : Database) (kind : EnvRivalKind) (half : Half) : (db.withHalf kind half).half kind = half := by
  cases kind <;> rfl

theorem half_withHalf_of_ne (db : Database) {kind other : EnvRivalKind} (h : other ≠ kind) (half : Half) :
    (db.withHalf kind half).half other = db.half other := by
  cases kind <;> cases other <;> first | rfl | exact absurd rfl h

end Database

structure EnvRival where
  kind : EnvRivalKind
  slug : String
  deriving DecidableEq

/-- The two branches of the union: rows of the kind that target the name, other than the excluded one. -/
def rivalsOf (db : Database) (envName : String) (excludeKind : EnvRivalKind) (excludeId : String)
    (reaching : Half → EnvRow → Bool) (kind : EnvRivalKind) : List EnvRival :=
  ((db.half kind).rows.select fun row => row.envName = envName && !(excludeKind = kind && row.id = excludeId) &&
    reaching (db.half kind) row).map fun row => ⟨kind, row.slug⟩

def findEnvRival (db : Database) (envName : String) (excludeKind : EnvRivalKind) (excludeId : String)
    (reaching : Half → EnvRow → Bool) : Option EnvRival :=
  (rivalsOf db envName excludeKind excludeId reaching .secretKind ++ rivalsOf db envName excludeKind excludeId reaching .variableKind).head?

def findEnvRivalForMember (db : Database) (envName : String) (excludeKind : EnvRivalKind) (excludeId memberName : String) :
    Option EnvRival :=
  findEnvRival db envName excludeKind excludeId fun half row => half.reaches row memberName

def findEnvRivalAnyone (db : Database) (envName : String) (excludeKind : EnvRivalKind) (excludeId : String) : Option EnvRival :=
  findEnvRival db envName excludeKind excludeId Half.reachesAnyone

def envRivalMessage (memberName envName : String) (rival : EnvRival) : String :=
  memberName ++ " already resolves " ++ envName ++ " from " ++ rival.kind.text ++ " \"" ++ rival.slug ++ "\""

variable {db : Database} {envName : String} {excludeKind : EnvRivalKind} {excludeId : String} {reaching : Half → EnvRow → Bool}

theorem mem_rivalsOf {kind : EnvRivalKind} {rival : EnvRival} :
    rival ∈ rivalsOf db envName excludeKind excludeId reaching kind ↔
      ∃ row ∈ (db.half kind).rows.rows, row.envName = envName ∧ (kind, row.id) ≠ (excludeKind, excludeId) ∧
        reaching (db.half kind) row = true ∧ rival = ⟨kind, row.slug⟩ := by
  simp only [rivalsOf, List.mem_map, Table.mem_select, Bool.and_eq_true, Bool.not_eq_true', Bool.and_eq_false_imp,
    decide_eq_true_eq, decide_eq_false_iff_not, ne_eq, Prod.mk.injEq, not_and]
  constructor
  · rintro ⟨row, ⟨hRow, ⟨hName, hOther⟩, hReach⟩, rfl⟩
    exact ⟨row, hRow, hName, fun hKind => hOther hKind.symm, hReach, rfl⟩
  · rintro ⟨row, hRow, hName, hOther, hReach, rfl⟩
    exact ⟨row, ⟨hRow, ⟨hName, fun hKind => hOther hKind.symm⟩, hReach⟩, rfl⟩

theorem findEnvRival_eq_none_iff :
    findEnvRival db envName excludeKind excludeId reaching = none ↔
      ∀ kind, ∀ row ∈ (db.half kind).rows.rows, row.envName = envName → (kind, row.id) ≠ (excludeKind, excludeId) →
        reaching (db.half kind) row = false := by
  rw [findEnvRival, List.head?_eq_none_iff, List.append_eq_nil_iff, List.eq_nil_iff_forall_not_mem, List.eq_nil_iff_forall_not_mem]
  constructor
  · rintro ⟨hSecrets, hVariables⟩ kind row hRow hName hOther
    apply Bool.eq_false_iff.mpr
    intro hReach
    have hRival := mem_rivalsOf.mpr ⟨row, hRow, hName, hOther, hReach, rfl⟩
    cases kind with
    | secretKind => exact hSecrets _ hRival
    | variableKind => exact hVariables _ hRival
  · intro h
    have hNone : ∀ kind rival, rival ∉ rivalsOf db envName excludeKind excludeId reaching kind := by
      intro kind rival hRival
      obtain ⟨row, hRow, hName, hOther, hReach, _⟩ := mem_rivalsOf.mp hRival
      rw [h kind row hRow hName hOther] at hReach
      cases hReach
    exact ⟨hNone .secretKind, hNone .variableKind⟩

end CommandSuite.EnvNamespace
