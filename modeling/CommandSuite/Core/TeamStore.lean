import CommandSuite.Core.Enrollments
import CommandSuite.Core.Members

/-! # The team store

`packages/core/src/team-store.ts`: the named bundles and the members with what they sign in with. Unlike in the roster,
the bundles change, and a secret is kept as the cipher of the host wraps it.
-/

namespace CommandSuite.TeamStore

open Library Fallible Members

/-- A row of `permission_presets`. -/
structure PresetRow where
  name : String
  permissions : List String
  deriving DecidableEq

abbrev PresetRow.key (row : PresetRow) : String := row.name

/-- A row of `members` with the columns of the TOTP login. -/
structure StoredMember extends MemberRow where
  totpSecret : Option String
  totpLastCounter : Int

abbrev StoredMember.key (row : StoredMember) : Name := row.name

structure Stores where
  presets : Table PresetRow.key
  members : Table StoredMember.key

def Stores.empty : Stores := ⟨.empty, .empty⟩

structure LoadedMember extends Members.LoadedMember where
  totpSecret : Option String
  totpLastCounter : Int

/-- A `MemberLoadError`, or the error of a field that does not decrypt. -/
inductive StoreError where
  | load (error : LoadError)
  | encryptedField (message : String)

/-! ## Validation -/

/-- `PRESET_KEY_REGEX`, of 64 characters at most. -/
def presetNameSchema (name : String) : Bool := 1 ≤ name.length && name.length ≤ 64 && name.toList.all nameCharacter

def validatePermissionPreset (name : String) (leaves : List String) : Except LoadError Unit := do
  if !presetNameSchema name then throw (.schema ("preset '" ++ name ++ "'"))
  if !(leaves.length ≤ 32 && leaves.all fun leaf => leaf ∈ PERMISSIONS.map Permission.key) then
    throw (.schema ("preset '" ++ name ++ "'.permissions"))

def base32Character (c : Char) : Bool := ('A' ≤ c && c ≤ 'Z') || ('2' ≤ c && c ≤ '7')

def base64UrlCharacter (c : Char) : Bool := c.isAlphanum || c == '_' || c == '-'

/-- `TOTP_SECRET_REGEX`: a secret in the clear, or one that is wrapped already. -/
def totpSecretSchema (secret : String) : Bool :=
  let plain := secret.toList.takeWhile base32Character
  let padding := secret.toList.dropWhile base32Character
  (plain ≠ [] && padding.all fun c => c == '=') ||
    match secret.toList.splitOn ':' with
    | [version, iv, tag, ciphertext] =>
      version = "enc-v1".toList && [iv, tag, ciphertext].all fun part => part ≠ [] && part.all base64UrlCharacter
    | _ => false

def validateTotpSecret (secret : String) : Except LoadError Unit :=
  if 16 ≤ Text.units secret && Text.units secret ≤ 128 && totpSecretSchema secret then .ok () else .error (.schema "totpSecret")

/-! ## Reading -/

def getPresets (presets : Table PresetRow.key) : PermissionPresets :=
  let rows := presets.rows.insertionSort fun a b => a.name ≤ b.name
  let indexed := rows.filter fun row => (arrayIndex row.name).isSome
  let named := rows.filter fun row => (arrayIndex row.name).isNone
  let ordered := indexed.insertionSort fun a b => (arrayIndex a.name).getD 0 ≤ (arrayIndex b.name).getD 0
  (ordered ++ named).map fun row => (row.name, row.permissions)

section Cipher

variable (cipher : Option FieldCipher)

def decryptTotpSecret (stored : Option String) : Except StoreError (Option String) :=
  match stored, cipher with
  | none, _ => .ok none
  | some stored, none => .ok (some stored)
  | some stored, some cipher => (cipher.decrypt stored).mapError .encryptedField

def encryptTotpSecret (iv : Nat) (plaintext : Option String) : Option String :=
  match plaintext, cipher with
  | none, _ => none
  | some plaintext, none => some plaintext
  | some plaintext, some cipher => cipher.encrypt iv plaintext

def rowToLoaded (presets : Table PresetRow.key) (row : StoredMember) : Except StoreError LoadedMember := do
  let loaded ← (Members.rowToLoaded (getPresets presets) row.toMemberRow).mapError .load
  return ⟨loaded, ← decryptTotpSecret cipher row.totpSecret, row.totpLastCounter⟩

def findByName (stores : Stores) (name : Name) : Except StoreError (Option LoadedMember) :=
  match stores.members.find name with
  | some row => (rowToLoaded cipher stores.presets row).map some
  | none => .ok none

def members (stores : Stores) : Except StoreError (List LoadedMember) :=
  stores.members.rows.mapM (rowToLoaded cipher stores.presets)

end Cipher

/-! ## Writing -/

structure AddMemberInput extends Members.AddMemberInput where
  totpSecret : Option String

abbrev StoresM := EStateM StoreError Stores

def memberLoad (message : String) : StoreError := .load (.memberLoad message)

def checks {α : Type} (value : Except LoadError α) : StoresM α := fromExcept (value.mapError .load)

def checkSecret : Option String → StoresM Unit
  | some secret => checks (validateTotpSecret secret)
  | none => pure ()

def writeMembers (f : Table StoredMember.key → Table StoredMember.key) : StoresM Unit :=
  update fun stores => { stores with members := f stores.members }

def writePresets (f : Table PresetRow.key → Table PresetRow.key) : StoresM Unit :=
  update fun stores => { stores with presets := f stores.presets }

def setPreset (name : String) (permissions : List String) : StoresM Unit := do
  checks (validatePermissionPreset name permissions)
  writePresets fun presets =>
    (presets.insertOrIgnore ⟨name, permissions⟩).update (fun row => row.name = name)
      (fun row => { row with permissions := permissions }) fun _ => rfl

def deletePreset (name : String) : StoresM Bool := do
  let changes ← reads fun stores : Stores => stores.presets.changes fun row => row.name = name
  writePresets fun presets => presets.delete fun row => row.name = name
  return 0 < changes

section Cipher

variable (cipher : Option FieldCipher)

def readBack (name : Name) (message : String) : StoresM LoadedMember := do
  let found ← fromExcept (findByName cipher (← reads id) name)
  present found (memberLoad message)

def requireMember (name : Name) : StoresM Unit := do
  require (← reads fun stores : Stores => (stores.members.find name).isSome) (memberLoad s!"no such member: '{name.text}'")

def addMember (input : AddMemberInput) (iv : Nat) : StoresM LoadedMember := do
  checks (validateRawPermissions input.rawPermissions)
  checkSecret input.totpSecret
  require (← reads fun stores : Stores => (stores.members.find input.name).isNone) (memberLoad s!"duplicate name '{input.name.text}'")
  let _ ← checks (resolvePermissions input.rawPermissions (getPresets (← reads Stores.presets)) s!"member '{input.name.text}'")
  writeMembers fun members => members.insertOrIgnore
    ⟨⟨input.name, input.role, input.instructions, input.rawPermissions⟩, encryptTotpSecret cipher iv input.totpSecret, 0⟩
  readBack cipher input.name s!"addMember: row not visible after insert (name='{input.name.text}')"

def removeMember (name : Name) : StoresM Unit := do
  requireMember name
  writeMembers fun members => members.delete fun row => row.name = name

def updateMember (name : Name) (patch : UpdateMemberPatch) : StoresM LoadedMember := do
  requireMember name
  match patch.rawPermissions with
  | some raw =>
    checks (validateRawPermissions raw)
    let _ ← checks (resolvePermissions raw (getPresets (← reads Stores.presets)) s!"member '{name.text}'")
  | none => pure ()
  writeMembers fun members => members.update (fun row => row.name = name)
    (fun row => { row with toMemberRow := patch.apply row.toMemberRow }) fun _ => rfl
  readBack cipher name s!"updateMember: row vanished mid-update (name='{name.text}')"

def setTotpSecret (name : Name) (secret : Option String) (iv : Nat) : StoresM LoadedMember := do
  requireMember name
  checkSecret secret
  writeMembers fun members => members.update (fun row => row.name = name)
    (fun row => { row with totpSecret := encryptTotpSecret cipher iv secret, totpLastCounter := 0 }) fun _ => rfl
  readBack cipher name s!"setTotpSecret: row vanished mid-update (name='{name.text}')"

def bumpTotpCounter (name : Name) (counter : Int) (members : Table StoredMember.key) : Table StoredMember.key :=
  members.update (fun row => row.name = name && row.totpLastCounter < counter)
    (fun row => { row with totpLastCounter := counter }) fun _ => rfl

def recordTotpAccept (name : Name) (counter : Int) : StoresM (Option LoadedMember) := do
  writeMembers (bumpTotpCounter name counter)
  fromExcept (findByName cipher (← reads id) name)

end Cipher

/-! ## Calls -/

inductive Call where
  | addMember (input : AddMemberInput) (iv : Nat)
  | updateMember (name : Name) (patch : UpdateMemberPatch)
  | removeMember (name : Name)
  | setTotpSecret (name : Name) (secret : Option String) (iv : Nat)
  | recordTotpAccept (name : Name) (counter : Int)
  | setPreset (name : String) (permissions : List String)
  | deletePreset (name : String)

section Calls

variable (cipher : Option FieldCipher)

def Call.program : Call → StoresM Unit
  | .addMember input iv => do let _ ← TeamStore.addMember cipher input iv
  | .updateMember name patch => do let _ ← TeamStore.updateMember cipher name patch
  | .removeMember name => TeamStore.removeMember name
  | .setTotpSecret name secret iv => do let _ ← TeamStore.setTotpSecret cipher name secret iv
  | .recordTotpAccept name counter => do let _ ← TeamStore.recordTotpAccept cipher name counter
  | .setPreset name permissions => TeamStore.setPreset name permissions
  | .deletePreset name => do let _ ← TeamStore.deletePreset name

def serve : Transcript.Machine Stores Call (Except StoreError Unit) := fun stores call =>
  let (outcome, after) := run (call.program cipher) stores
  (after, outcome)

end Calls

end CommandSuite.TeamStore
