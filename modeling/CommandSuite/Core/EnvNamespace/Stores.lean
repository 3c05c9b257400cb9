import CommandSuite.Core.EnvNamespace
import CommandSuite.Library.Transcript

/-! # Secrets, variables and the migration between them

`packages/core/src/secrets.ts` and `packages/core/src/variables.ts`. What the two stores do alike is
one function of the kind of row; what differs is what each passes to it.
-/

namespace CommandSuite.EnvNamespace

open Library Library.Fallible Text

abbrev EnvM := EStateM SecretsError Database

def invalidInput (message : String) : SecretsError := .raised .invalidInput message

/-! ## Names and slugs -/

def RESERVED_ENV_PREFIXES : List String := ["CSUITE_", "OTEL_", "CLAUDE_CODE_", "CODEX_", "LD_", "DYLD_"]

def RESERVED_ENV_NAMES : List String :=
  ["PATH", "HOME", "SHELL", "TERM", "TMPDIR", "USER", "LOGNAME", "IFS", "ENV", "BASH_ENV", "PS4", "PROMPT_COMMAND",
    "NODE_OPTIONS", "NODE_PATH", "NODE_EXTRA_CA_CERTS", "PYTHONPATH", "PYTHONSTARTUP", "PERL5LIB", "PERL5OPT", "RUBYOPT",
    "GIT_ASKPASS", "SSH_ASKPASS"]

def isReservedEnvName (name : String) : Bool :=
  RESERVED_ENV_NAMES.contains name || RESERVED_ENV_PREFIXES.any fun start => startsWith name start

/-- `/^[A-Z][A-Z0-9_]*$/`. -/
def isEnvName (name : String) : Bool :=
  match name.toList with
  | [] => false
  | first :: rest => first.isUpper && rest.all fun c => c.isUpper || c.isDigit || c = '_'

def ENV_NAME_MAX : Nat := 128

def validateEnvName (envName : String) : Except SecretsError Unit :=
  if envName = "" then .error (invalidInput "envName is required")
  else if units envName > ENV_NAME_MAX then .error (invalidInput s!"envName too long (max {ENV_NAME_MAX})")
  else if !isEnvName envName then
    .error (invalidInput "envName must be an uppercase POSIX environment variable name ([A-Z][A-Z0-9_]*)")
  else if isReservedEnvName envName then
    .error (invalidInput ("envName '" ++ envName ++ "' is reserved (runner-managed or an interpreter/loader control variable)"))
  else .ok ()

def isSlugCharacter (c : Char) : Bool := c.isLower || c.isDigit

/-- `/^[a-z0-9](?:[a-z0-9]|-(?!-))*[a-z0-9]$|^[a-z0-9]$/`. -/
def isSourceSlug (slug : String) : Bool :=
  let characters := slug.toList
  characters.head?.any isSlugCharacter && characters.getLast?.any isSlugCharacter &&
    characters.all (fun c => isSlugCharacter c || c = '-') &&
    (characters.zip characters.tail).all fun pair => !(pair.1 = '-' && pair.2 = '-')

/-- `validateSourceSlug` of `tool-sources/store.ts`, its error raised again as one of the secrets. -/
def validateSourceSlug (slug : String) : Except SecretsError Unit :=
  if slug = "" then .error (invalidInput "slug is required")
  else if units slug > 32 then .error (invalidInput "slug too long (max 32)")
  else if !isSourceSlug slug then
    .error (invalidInput "slug must be lowercase letters/digits/dashes, no consecutive dashes, no leading/trailing dash")
  else .ok ()

def validateVariableSlug (slug : String) : Except SecretsError Unit :=
  if slug = "" then .error (invalidInput "slug is required")
  else if units slug > 64 then .error (invalidInput "slug too long (max 64)")
  else if !(slug.toList.head?.any isSlugCharacter && slug.toList.all fun c => isSlugCharacter c || c = '-') then
    .error (invalidInput "slug must be lowercase alphanumeric with hyphens ([a-z0-9][a-z0-9-]*)")
  else .ok ()

/-! ## What the two stores share -/

structure CreateInput where
  slug : String
  envName : String
  description : Option String
  allMembers : Option Bool
  enabled : Option Bool
  creator : String

structure EnvPatch where
  envName : Option String
  description : Option String
  allMembers : Option Bool
  enabled : Option Bool

def notFound (kind : EnvRivalKind) (id : String) : SecretsError := .raised .notFound s!"{kind.text} {id} not found"

def appliesToAll (kind : EnvRivalKind) (envName : String) (rival : EnvRival) : SecretsError :=
  .raised .envTaken (rival.kind.text ++ " \"" ++ rival.slug ++ "\" already targets " ++ envName ++ " and this " ++ kind.text ++
    " applies to all members")

def checkAnyone (db : Database) (kind : EnvRivalKind) (id envName : String) : Except SecretsError Unit :=
  match findEnvRivalAnyone db envName kind id with
  | some rival => .error (appliesToAll kind envName rival)
  | none => .ok ()

def checkMember (db : Database) (kind : EnvRivalKind) (id envName memberName : String) : Except SecretsError Unit :=
  match findEnvRivalForMember db envName kind id memberName with
  | some rival => .error (.raised .envTaken (envRivalMessage memberName envName rival))
  | none => .ok ()

def checkCreate (db : Database) (kind : EnvRivalKind) (excludeId slugTaken : String)
    (validateSlug : String → Except SecretsError Unit) (input : CreateInput) : Except SecretsError Unit := do
  validateSlug input.slug
  validateEnvName input.envName
  if ((db.half kind).getBySlug input.slug).isSome then .error (.raised .slugTaken slugTaken)
  else if input.allMembers = some true then checkAnyone db kind excludeId input.envName
  else .ok ()

def CreateInput.row (input : CreateInput) (id : String) (now : Int) : EnvRow :=
  ⟨id, input.slug, input.envName, input.description.getD "", input.enabled.getD true, input.allMembers.getD false,
    input.creator, now, now⟩

def insertRow (kind : EnvRivalKind) (row : EnvRow) : EnvM (Option EnvRow) := do
  let db ← reads id
  let half ← present ((db.half kind).insert row) .constraint
  Fallible.update fun db => db.withHalf kind half
  reads fun db => (db.half kind).get row.id

def validateRename (existing : EnvRow) (envName : String) : Except SecretsError Unit :=
  if envName ≠ existing.envName then validateEnvName envName else .ok ()

def checkAudience (db : Database) (kind : EnvRivalKind) (id envName : String) (willApplyToAll : Bool) : Except SecretsError Unit :=
  if willApplyToAll then checkAnyone db kind id envName
  else ((db.half kind).listBindings id).forM fun memberName => checkMember db kind id envName memberName

def checkUpdate (db : Database) (kind : EnvRivalKind) (existing : EnvRow) (envName : String) (willApplyToAll : Bool) :
    Except SecretsError Unit :=
  if envName ≠ existing.envName ∨ willApplyToAll = true ∧ existing.allMembers = false then do
    validateRename existing envName
    checkAudience db kind existing.id envName willApplyToAll
  else .ok ()

def update (kind : EnvRivalKind) (id : String) (patch : EnvPatch) (now : Int) : EnvM (Option EnvRow) := do
  let db ← reads fun db => db
  let existing ← present ((db.half kind).get id) (notFound kind id)
  let envName := patch.envName.getD existing.envName
  let allMembers := patch.allMembers.getD existing.allMembers
  fromExcept (checkUpdate db kind existing envName allMembers)
  Fallible.update fun db => db.withHalf kind ((db.half kind).updateRow id
    ⟨envName, patch.description.getD existing.description, patch.enabled.getD existing.enabled, allMembers, now⟩)
  reads fun db => (db.half kind).get id

def delete (kind : EnvRivalKind) (id : String) : EnvM Unit := do
  let db ← reads fun db => db
  let _ ← present ((db.half kind).get id) (notFound kind id)
  Fallible.update fun db => db.withHalf kind ((db.half kind).deleteRow id)

def bind (kind : EnvRivalKind) (id memberName : String) (now : Int) : EnvM Unit := do
  let db ← reads fun db => db
  let row ← present ((db.half kind).get id) (notFound kind id)
  fromExcept (checkMember db kind id row.envName memberName)
  Fallible.update fun db => db.withHalf kind ((db.half kind).insertBinding id memberName now)

def unbind (kind : EnvRivalKind) (id memberName : String) : EnvM Unit :=
  Fallible.update fun db => db.withHalf kind ((db.half kind).deleteBinding id memberName)

def deleteValue (kind : EnvRivalKind) (id : String) : EnvM Unit :=
  Fallible.update fun db => db.withHalf kind ((db.half kind).deleteValue id)

def VALUE_MAX : Nat := 32768

def validateValue (value : String) : Except SecretsError Unit :=
  if value = "" then .error (invalidInput "value is required")
  else if units value > VALUE_MAX then .error (invalidInput s!"value too long (max {VALUE_MAX})")
  else .ok ()

/-! ## Secrets -/

namespace Secrets

structure Uuid where
  text : String
  length : text.length = 36

structure FieldCipher where
  encrypt : String → Option String
  decrypt : String → Except String (Option String)

def create (input : CreateInput) (id : Uuid) (now : Int) : EnvM (Option EnvRow) := do
  let db ← reads fun db => db
  let slugTaken := "a secret called \"" ++ input.slug ++ "\" already exists"
  fromExcept (checkCreate db .secretKind "" slugTaken validateSourceSlug input)
  insertRow .secretKind (input.row id.text now)

def setValue (cipher : Option FieldCipher) (id value : String) (now : Int) : EnvM Unit := do
  let db ← reads fun db => db
  let _ ← present (db.secretHalf.get id) (notFound .secretKind id)
  fromExcept (validateValue value)
  let cipher ← present cipher (.raised .noKek "no encryption key is active; cannot store a secret value")
  let encrypted ← present (cipher.encrypt value) (invalidInput "value is required")
  Fallible.update fun db => db.withHalf .secretKind (db.secretHalf.upsertValue id encrypted now)

end Secrets

/-! ## Variables -/

namespace Variables

def create (input : CreateInput) (id : String) (now : Int) : EnvM (Option EnvRow) := do
  let db ← reads fun db => db
  let slugTaken := "slug \"" ++ input.slug ++ "\" is already in use"
  fromExcept (checkCreate db .variableKind id slugTaken validateVariableSlug input)
  insertRow .variableKind (input.row id now)

def setValue (id value : String) (now : Int) : EnvM Unit := do
  let db ← reads fun db => db
  let _ ← present (db.variableHalf.get id) (notFound .variableKind id)
  fromExcept (validateValue value)
  Fallible.update fun db => db.withHalf .variableKind (db.variableHalf.upsertValue id value now)

end Variables

/-! ## The migration of identity -/

section Migration

def IDENTITY_ENV_NAMES : List String := ["GIT_AUTHOR_NAME", "GIT_AUTHOR_EMAIL", "GIT_COMMITTER_NAME", "GIT_COMMITTER_EMAIL"]

structure IdentityMigrationResult where
  migrated : List String
  skipped : List (String × String)
  noop : Bool

structure PendingIdentity where
  secret : EnvRow
  value : String
  bindings : List String

variable (cipher : Option Secrets.FieldCipher) (db : Database)

def readIdentity (secret : EnvRow) : Except String String :=
  match db.secretHalf.values.find secret.id, cipher with
  | none, _ => .error "no stored value"
  | some _, none => .error "no encryption key is active; the value cannot be decrypted"
  | some stored, some cipher =>
    match cipher.decrypt stored.value with
    | .error message => .error s!"value unreadable ({message})"
    | .ok none => .error "value decrypted to nothing"
    | .ok (some value) => .ok value

/-- The secrets that are identity and whose slug is not among the variables, in the order of `created_at`. -/
def unmigrated : List EnvRow :=
  ((db.secretHalf.rows.rows.insertionSort fun a b => a.createdAt ≤ b.createdAt).filter fun secret =>
    secret.envName ∈ IDENTITY_ENV_NAMES).filter fun secret => db.variableHalf.getBySlug secret.slug = none

def pendingIdentities : List PendingIdentity :=
  (unmigrated db).filterMap fun secret =>
    match readIdentity cipher db secret with
    | .ok value => some ⟨secret, value, db.secretHalf.listBindings secret.id⟩
    | .error _ => none

def skippedIdentities : List (String × String) :=
  (unmigrated db).filterMap fun secret =>
    match readIdentity cipher db secret with
    | .ok _ => none
    | .error reason => some (secret.slug, reason)

def moveIdentity (now : Int) (id : String) (db : Database) (pending : PendingIdentity) : Option Database := do
  let inserted ← db.variableHalf.insert { pending.secret with id, createdAt := now, updatedAt := now }
  let valued ← inserted.insertValue id pending.value now
  let bound := pending.bindings.foldl (fun half memberName => half.insertBinding id memberName now) valued
  return ⟨db.secretHalf.deleteRow pending.secret.id, bound⟩

def moveIdentities (now : Int) (drawn : String → String) : List PendingIdentity → Database → Option Database
  | [], db => some db
  | pending :: rest, db => do
    let moved ← moveIdentity now (drawn pending.secret.slug) db pending
    moveIdentities now drawn rest moved

/-- `drawn` gives the id that is drawn for the row of a slug. The batch is one transaction. -/
def migrateIdentityToVariables (now : Int) (drawn : String → String) : IdentityMigrationResult × Database :=
  let skipped := skippedIdentities cipher db
  let pending := pendingIdentities cipher db
  if pending.isEmpty then (⟨[], skipped, skipped.isEmpty⟩, db)
  else
    match moveIdentities now drawn pending db with
    | none => (⟨[], skipped, false⟩, db)
    | some moved => (⟨pending.map fun entry => entry.secret.slug, skipped, false⟩, moved)

end Migration

/-! ## Calls -/

inductive Call where
  | createSecret (input : CreateInput) (id : Secrets.Uuid) (now : Int)
  | createVariable (input : CreateInput) (id : String) (now : Int)
  | update (kind : EnvRivalKind) (id : String) (patch : EnvPatch) (now : Int)
  | delete (kind : EnvRivalKind) (id : String)
  | bind (kind : EnvRivalKind) (id memberName : String) (now : Int)
  | unbind (kind : EnvRivalKind) (id memberName : String)
  | setSecretValue (cipher : Option Secrets.FieldCipher) (id value : String) (now : Int)
  | setVariableValue (id value : String) (now : Int)
  | deleteValue (kind : EnvRivalKind) (id : String)
  | migrate (cipher : Option Secrets.FieldCipher) (now : Int) (drawn : String → String)

inductive Reply where
  | row (row : Option EnvRow)
  | done
  | migrated (result : IdentityMigrationResult)

def Call.program : Call → EnvM Reply
  | .createSecret input id now => do return .row (← Secrets.create input id now)
  | .createVariable input id now => do return .row (← Variables.create input id now)
  | .update kind id patch now => do return .row (← EnvNamespace.update kind id patch now)
  | .delete kind id => do
    EnvNamespace.delete kind id
    return .done
  | .bind kind id memberName now => do
    EnvNamespace.bind kind id memberName now
    return .done
  | .unbind kind id memberName => do
    EnvNamespace.unbind kind id memberName
    return .done
  | .setSecretValue cipher id value now => do
    Secrets.setValue cipher id value now
    return .done
  | .setVariableValue id value now => do
    Variables.setValue id value now
    return .done
  | .deleteValue kind id => do
    EnvNamespace.deleteValue kind id
    return .done
  | .migrate cipher now drawn => do
    let result ← reads fun db => migrateIdentityToVariables cipher db now drawn
    Fallible.update fun _ => result.2
    return .migrated result.1

def serve : Transcript.Machine Database Call (Except SecretsError Reply) := fun db call =>
  let (outcome, after) := run call.program db
  (after, outcome)

end CommandSuite.EnvNamespace
