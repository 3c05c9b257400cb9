import CommandSuite.Core.App
import CommandSuite.Library.Fallible

/-! # Members

The roster of `packages/core/src/team-store.ts`, and how `members-domain.ts` resolves what a member may do. A row
keeps its permissions as they were written, which are resolved at every read.
-/

namespace CommandSuite

open Library Fallible Text

def Permission.key : Permission → String
  | .teamManage => "team.manage"
  | .membersManage => "members.manage"
  | .membersContext => "members.context"
  | .objectivesCreate => "objectives.create"
  | .objectivesCancel => "objectives.cancel"
  | .objectivesReassign => "objectives.reassign"
  | .objectivesWatch => "objectives.watch"
  | .activityRead => "activity.read"
  | .toolsManage => "tools.manage"
  | .secretsManage => "secrets.manage"
  | .notificationsManage => "notifications.manage"
  | .channelsManage => "channels.manage"
  | .teamProcessManage => "team_process.manage"

def PERMISSIONS : List Permission :=
  [.teamManage, .membersManage, .membersContext, .objectivesCreate, .objectivesCancel, .objectivesReassign,
    .objectivesWatch, .activityRead, .toolsManage, .secretsManage, .notificationsManage, .channelsManage,
    .teamProcessManage]

theorem mem_PERMISSIONS (permission : Permission) : permission ∈ PERMISSIONS := by
  cases permission <;> decide

theorem Permission.key_injective : Function.Injective Permission.key := by
  intro left right h
  have hNodup : (PERMISSIONS.map Permission.key).Nodup := by decide
  exact List.inj_on_of_nodup_map hNodup (mem_PERMISSIONS left) (mem_PERMISSIONS right) h

namespace Members

/-- `MemberLoadError`, of a field that fails its schema too, and the `TypeError` of a `for` over what is no list. -/
inductive LoadError where
  | memberLoad (message : String)
  | schema (field : String)
  | notIterable (variableName : String)

/-! ## Permissions -/

def LEGACY_PERMISSION_EXPANSIONS : List (String × List Permission) :=
  [("objectives.manage", [.objectivesCreate, .objectivesCancel, .objectivesReassign, .objectivesWatch]),
    ("process.manage", [.teamProcessManage])]

def inherited : List String :=
  ["constructor", "__defineGetter__", "__defineSetter__", "hasOwnProperty", "__lookupGetter__", "__lookupSetter__",
    "isPrototypeOf", "propertyIsEnumerable", "toString", "valueOf", "__proto__", "toLocaleString"]

def expansion (variableName entry : String) : Except LoadError (Option (List String)) :=
  match LEGACY_PERMISSION_EXPANSIONS.lookup entry with
  | some leaves => .ok (some (leaves.map Permission.key))
  | none => if entry ∈ inherited then .error (.notIterable variableName) else .ok none

/-- The named bundles in the order of their keys. The one called `__proto__` is no key: it is what a key that is
missing is looked up in. -/
abbrev PermissionPresets := List (String × List String)

def arrayIndex (key : String) : Option Nat :=
  let index := key.toList.foldl (fun value c => 10 * value + (c.toNat - '0'.toNat)) 0
  if toString index = key ∧ index < 2 ^ 32 - 1 then some index else none

/-- What every array answers to beside its elements, its length and what every object does. -/
def arrayMethods : List String :=
  ["at", "concat", "copyWithin", "entries", "every", "fill", "filter", "find", "findIndex", "findLast", "findLastIndex",
    "flat", "flatMap", "forEach", "includes", "indexOf", "join", "keys", "lastIndexOf", "map", "pop", "push", "reduce",
    "reduceRight", "reverse", "shift", "slice", "some", "sort", "splice", "toReversed", "toSorted", "toSpliced",
    "unshift", "values", "with"]

/-- The characters of the element, where a text stands for a bundle. -/
def arrayElement (array : List String) (entry : String) : Option (List String) :=
  match (arrayIndex entry).bind fun index => array[index]? with
  | some element => if element = "" then none else some (element.toList.map String.singleton)
  | none => none

/-- `presets[entry]`. -/
def presetOf (presets : PermissionPresets) (entry : String) : Except LoadError (Option (List String)) :=
  match presets.lookup entry, presets.lookup "__proto__" with
  | some leaves, _ => .ok (some leaves)
  | none, none => .ok none
  | none, some prototype =>
    if entry ∈ arrayMethods ∨ (entry = "length" ∧ prototype ≠ []) then .error (.notIterable "presetLeaves")
    else .ok (arrayElement prototype entry)

def resolvePresetLeaf (leaf : String) : Except LoadError (List String) := do
  return (← expansion "presetExpansion" leaf).getD [leaf]

def unknownEntry (presets : PermissionPresets) (context entry : String) : LoadError :=
  let keys := (presets.map Prod.fst).filter fun name => name ≠ "__proto__"
  let names := if keys.isEmpty then "(none)" else ", ".intercalate keys
  let leaves := ", ".intercalate (PERMISSIONS.map Permission.key)
  .memberLoad (s!"{context}: unknown permission or preset " ++ "'" ++ entry ++ "'. " ++
    s!"Valid leaves: {leaves}. Presets: {names}.")

/-- One round of the loop of `resolvePermissions`. -/
def resolveEntry (presets : PermissionPresets) (context entry : String) : Except LoadError (List String) := do
  if entry ∈ PERMISSIONS.map Permission.key then return [entry]
  match ← expansion "expansion" entry with
  | some leaves => return leaves
  | none =>
    match ← presetOf presets entry with
    | some leaves => return (← leaves.mapM resolvePresetLeaf).flatten
    | none => throw (unknownEntry presets context entry)

def resolvePermissions (raw : List String) (presets : PermissionPresets) (context : String) :
    Except LoadError (List Permission) := do
  let resolved ← raw.mapM (resolveEntry presets context)
  return PERMISSIONS.filter fun permission => permission.key ∈ resolved.flatten

theorem resolvePermissions_leaves (permissions : List Permission) (presets : PermissionPresets) (context : String) :
    resolvePermissions (permissions.map Permission.key) presets context =
      .ok (PERMISSIONS.filter fun permission => permission ∈ permissions) := by
  have hEntries : (permissions.map Permission.key).mapM (resolveEntry presets context) =
      .ok (permissions.map fun permission => [permission.key]) := by
    induction permissions with
    | nil => rfl
    | cons first rest ih =>
      have hFirst : resolveEntry presets context first.key = .ok [first.key] := by
        unfold resolveEntry
        rw [if_pos (List.mem_map_of_mem (mem_PERMISSIONS first))]
        rfl
      rw [List.map_cons, List.mapM_cons, hFirst, ih]
      rfl
  unfold resolvePermissions
  rw [hEntries]
  refine congrArg Except.ok (List.filter_congr fun permission _ => ?_)
  simp only [List.mem_flatten, List.mem_map, exists_exists_and_eq_and, List.mem_singleton, decide_eq_decide]
  constructor
  · rintro ⟨other, hOther, hKey⟩
    rw [Permission.key_injective hKey]
    exact hOther
  · intro h
    exact ⟨permission, h, rfl⟩

/-! ## The roster -/

/-- `RoleSchema`. -/
structure Role where
  title : String
  description : String
  valid : 1 ≤ units title ∧ units title ≤ 64

structure MemberRow where
  name : Name
  role : Role
  instructions : String
  rawPermissions : List String

abbrev MemberRow.key (row : MemberRow) : Name := row.name

/-- The rows in their `insertion_order`, which grows. -/
abbrev Roster := Table MemberRow.key

structure LoadedMember extends Member where
  role : Role
  instructions : String
  rawPermissions : List String

def rowToLoaded (presets : PermissionPresets) (row : MemberRow) : Except LoadError LoadedMember := do
  let permissions ← resolvePermissions row.rawPermissions presets s!"member '{row.name.text}'"
  return ⟨⟨row.name, permissions⟩, row.role, row.instructions, row.rawPermissions⟩

def findByName (presets : PermissionPresets) (roster : Roster) (name : Name) : Except LoadError (Option LoadedMember) :=
  match roster.find name with
  | some row => (rowToLoaded presets row).map some
  | none => .ok none

def members (presets : PermissionPresets) (roster : Roster) : Except LoadError (List LoadedMember) :=
  roster.rows.mapM (rowToLoaded presets)

/-- What `rawPermissions` must be: 32 names at most, of one to 64 characters. -/
def validateRawPermissions (raw : List String) : Except LoadError Unit :=
  if raw.length ≤ 32 && raw.all fun entry => 1 ≤ units entry && units entry ≤ 64 then .ok ()
  else .error (.schema "member.permissions")

structure AddMemberInput where
  name : Name
  role : Role
  instructions : String
  rawPermissions : List String

structure UpdateMemberPatch where
  role : Option Role
  instructions : Option String
  rawPermissions : Option (List String)

abbrev RosterM := EStateM LoadError Roster

section Statements

variable (presets : PermissionPresets)

def readBack (name : Name) (message : String) : RosterM LoadedMember := do
  let found ← fromExcept (findByName presets (← reads id) name)
  present found (.memberLoad message)

def addMember (input : AddMemberInput) : RosterM LoadedMember := do
  fromExcept (validateRawPermissions input.rawPermissions)
  require (← reads fun roster : Roster => (roster.find input.name).isNone)
    (.memberLoad s!"duplicate name '{input.name.text}'")
  let _ ← fromExcept (resolvePermissions input.rawPermissions presets s!"member '{input.name.text}'")
  update fun roster => roster.insertOrIgnore ⟨input.name, input.role, input.instructions, input.rawPermissions⟩
  readBack presets input.name s!"addMember: row not visible after insert (name='{input.name.text}')"

def removeMember (name : Name) : RosterM Unit := do
  require (← reads fun roster : Roster => (roster.find name).isSome)
    (.memberLoad s!"no such member: '{name.text}'")
  update fun roster => roster.delete fun row => row.name = name

def UpdateMemberPatch.apply (patch : UpdateMemberPatch) (row : MemberRow) : MemberRow :=
  { row with
    role := patch.role.getD row.role
    instructions := patch.instructions.getD row.instructions
    rawPermissions := patch.rawPermissions.getD row.rawPermissions }

def updateMember (name : Name) (patch : UpdateMemberPatch) : RosterM LoadedMember := do
  require (← reads fun roster : Roster => (roster.find name).isSome)
    (.memberLoad s!"no such member: '{name.text}'")
  match patch.rawPermissions with
  | some raw =>
    fromExcept (validateRawPermissions raw)
    let _ ← fromExcept (resolvePermissions raw presets s!"member '{name.text}'")
  | none => pure ()
  update fun roster => roster.update (fun row => row.name = name) patch.apply fun _ => rfl
  readBack presets name s!"updateMember: row vanished mid-update (name='{name.text}')"

end Statements

end Members

end CommandSuite
