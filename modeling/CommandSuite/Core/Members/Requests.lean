import CommandSuite.Core.Members

/-! # The routes of members

`POST`, `PATCH` and `DELETE /members` and the approval of an enrollment, up to their write to the roster. A request is
checked, waits for its body and is checked again; a `PATCH` of what members are told waits once more, for the hashes
of everybody's instructions.
-/

namespace CommandSuite.Members

open Library

inductive CredentialMode where
  | bootstrap
  | pending
  deriving DecidableEq

structure CreateMemberRequest where
  name : Name
  role : Role
  instructions : String
  permissions : List Permission
  credentialMode : CredentialMode

structure UpdateMemberRequest where
  role : Option Role
  instructions : Option String
  permissions : Option (List Permission)

inductive ApproveEnrollmentRequest where
  | bind (memberName : Name)
  | create (memberName : Name) (role : Role) (instructions : String) (permissions : List Permission)

/-- A request with the body that it brings later, `none` when that fails its schema. `lookup` is what the enrollments
say of the code of an approval. -/
inductive Request where
  | create (body : Option CreateMemberRequest)
  | update (name : String) (body : Option UpdateMemberRequest)
  | delete (name : String)
  | approve (body : Option ApproveEnrollmentRequest) (lookup : Except Refusal Unit)

inductive Pending where
  | authenticated (caller : LoadedMember) (request : Request)
  | creating (body : Option CreateMemberRequest)
  | updating (target : LoadedMember) (body : Option UpdateMemberRequest)
  | hashing (name : Name) (patch : UpdateMemberPatch)
  | approving (body : Option ApproveEnrollmentRequest) (lookup : Except Refusal Unit)

inductive Reply where
  | waiting
  | created (member : LoadedMember) (credentialMode : CredentialMode)
  | updated (member : LoadedMember)
  | deleted (name : Name)
  | approved (name : Name)

inductive Next where
  | waits (pending : Pending)
  | writes (program : RosterM Reply) (refusal : LoadError → Refusal)

structure Config where
  presets : PermissionPresets
  persistMembers : Bool

def LoadError.message : LoadError → String
  | .memberLoad message => message
  | .schema field => field
  | .notIterable variableName => s!"{variableName} is not iterable"

def uncaught (_ : LoadError) : Refusal := ⟨500, "Internal Server Error"⟩

def managesMembers (member : LoadedMember) : Bool := hasPermission member.permissions .membersManage

section Routes

variable (config : Config) (roster : Roster)

def find (name : Name) : Except Refusal (Option LoadedMember) := (findByName config.presets roster name).mapError uncaught

def admitManager (caller : LoadedMember) (forbidden unavailable : String) : Except Refusal Unit := do
  if !managesMembers caller then throw ⟨403, forbidden⟩
  if !config.persistMembers then throw ⟨501, unavailable⟩

def targetOf (raw : String) : Except Refusal LoadedMember := do
  let some name := Name.parse raw | throw ⟨400, "invalid member name"⟩
  let some target ← find config roster name | throw ⟨404, s!"no such member: {name.text}"⟩
  return target

/-- The guard of the last holder of `members.manage`. -/
def guardSole (error : String) : Except Refusal Unit := do
  let all ← (members config.presets roster).mapError uncaught
  if (all.filter managesMembers).length ≤ 1 then throw ⟨409, error⟩

def caught (status : Nat) (error : LoadError) : Refusal := ⟨status, error.message⟩

/-- A handler that catches a `MemberLoadError` alone. -/
def caughtLoad (status : Nat) : LoadError → Refusal
  | .notIterable variableName => uncaught (.notIterable variableName)
  | error => caught status error

def resolve (permissions : List Permission) (context : String) : Except Refusal (List Permission) :=
  (resolvePermissions (permissions.map Permission.key) config.presets context).mapError (caught 400)

def deleteMember (raw : String) : Except Refusal Next := do
  let target ← targetOf config roster raw
  if managesMembers target then
    guardSole config roster "cannot delete the sole members.manage holder — grant it to another member first"
  return .writes (do removeMember target.name; return .deleted target.name) (caughtLoad 404)

def createMember : Option CreateMemberRequest → Except Refusal Next
  | none => .error ⟨400, "invalid member payload"⟩
  | some body => do
    if (← find config roster body.name).isSome then throw ⟨409, s!"member '{body.name.text}' already exists"⟩
    let permissions ← resolve config body.permissions s!"create member '{body.name.text}'"
    let input := ⟨body.name, body.role, body.instructions, permissions.map Permission.key⟩
    return .writes (do return .created (← addMember config.presets input) body.credentialMode) (caught 409)

def approveEnrollment (lookup : Except Refusal Unit) : Option ApproveEnrollmentRequest → Except Refusal Next
  | none => .error ⟨400, "invalid approve payload"⟩
  | some (.bind memberName) => do
    lookup
    let some target ← find config roster memberName | throw ⟨404, s!"no such member: {memberName.text}"⟩
    return .writes (return .approved target.name) (caught 409)
  | some (.create memberName role instructions permissions) => do
    lookup
    if (← find config roster memberName).isSome then throw ⟨409, s!"member '{memberName.text}' already exists"⟩
    let permissions ← resolve config permissions s!"approve-enrollment {memberName.text}"
    let input := ⟨memberName, role, instructions, permissions.map Permission.key⟩
    return .writes (do return .approved (← addMember config.presets input).name) (caught 409)

def applyUpdate (name : Name) (patch : UpdateMemberPatch) : Next :=
  .writes (do return .updated (← updateMember config.presets name patch)) (caughtLoad 400)

/-- The permissions that a `PATCH` asks for, with the guard of the last holder. -/
def nextPermissions (target : LoadedMember) : Option (List Permission) → Except Refusal (Option (List String))
  | none => .ok none
  | some permissions => do
    let next ← resolve config permissions s!"update member '{target.name.text}'"
    if managesMembers target && !hasPermission next .membersManage then
      guardSole config roster "cannot remove members.manage from its sole holder — grant it to another member first"
    return some (next.map Permission.key)

/-- A `PATCH` once its body is there. `target` is as it was before that. -/
def updateBody (target : LoadedMember) : Option UpdateMemberRequest → Except Refusal Next
  | none => .error ⟨400, "invalid update payload"⟩
  | some body => do
    let rawPermissions ← nextPermissions config roster target body.permissions
    let patch : UpdateMemberPatch := ⟨body.role, body.instructions, rawPermissions⟩
    -- the hashes of everybody's instructions are taken before a role or instructions change
    if body.role.isSome || body.instructions.isSome then
      let _ ← (members config.presets roster).mapError uncaught
      return .waits (.hashing target.name patch)
    return applyUpdate config target.name patch

def authenticate (caller : Name) (request : Request) : Except Refusal Next := do
  let some member ← find config roster caller | throw ⟨401, "token references unknown member"⟩
  return .waits (.authenticated member request)

def opens (caller : LoadedMember) : Request → Except Refusal Next
  | .create body => do
    admitManager config caller "creating members requires the members.manage permission"
      "member creation is not available (server missing persistMembers hook)"
    return .waits (.creating body)
  | .update name body => do
    admitManager config caller "updating members requires the members.manage permission"
      "member updates are not available (persistMembers missing)"
    return .waits (.updating (← targetOf config roster name) body)
  | .delete name => do
    admitManager config caller "deleting members requires the members.manage permission"
      "member deletion is not available (persistMembers missing)"
    deleteMember config roster name
  | .approve body lookup => do
    admitManager config caller "approving enrollments requires members.manage"
      "enrollment approval is not available (persistMembers missing)"
    return .waits (.approving body lookup)

def resumes : Pending → Except Refusal Next
  | .authenticated caller request => opens config roster caller request
  | .creating body => createMember config roster body
  | .updating target body => updateBody config roster target body
  | .hashing name patch => .ok (applyUpdate config name patch)
  | .approving body lookup => approveEnrollment config roster lookup body

end Routes

/-! ## Serving -/

structure Office where
  roster : Roster
  pending : List Pending

/-- A request comes, or what a waiting one waits for is there, or fails. -/
inductive Event where
  | opened (caller : Name) (request : Request)
  | resumed (index : Nat)
  | failed (index : Nat)

def Office.take (office : Office) : Except Refusal Next → Office × Except Refusal Reply
  | .error refusal => (office, .error refusal)
  | .ok (.waits pending) => ({ office with pending := office.pending ++ [pending] }, .ok .waiting)
  | .ok (.writes program refusal) =>
    let (outcome, roster) := Fallible.run program office.roster
    ({ office with roster := roster }, outcome.mapError refusal)

def serve (config : Config) : Transcript.Machine Office Event (Except Refusal Reply) := fun office event =>
  match event with
  | .opened caller request => office.take (authenticate config office.roster caller request)
  | .resumed index =>
    match office.pending[index]? with
    | none => (office, .ok .waiting)
    | some pending =>
      { office with pending := office.pending.eraseIdx index }.take (resumes config office.roster pending)
  | .failed index => ({ office with pending := office.pending.eraseIdx index }, .error ⟨500, "Internal Server Error"⟩)

end CommandSuite.Members
