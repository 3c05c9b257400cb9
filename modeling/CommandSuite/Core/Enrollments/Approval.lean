import CommandSuite.Core.Enrollments
import CommandSuite.Core.Members.Requests

/-! # Approving an enrollment

`POST /enroll/approve` of `packages/core/src/app.ts` over the three stores it writes to: the member is added, its
token is inserted and the enrollment is approved, one after the other.
-/

namespace CommandSuite.EnrollmentApproval

open Library Members Function Transcript Table EnrollmentStore

/-! ## Tokens -/

inductive TokenOrigin where
  | bootstrap | rotate | enroll
  deriving DecidableEq

structure TokenRow where
  id : String
  memberName : String
  hash : String
  label : String
  origin : TokenOrigin
  createdAt : Int
  lastUsedAt : Option Int
  expiresAt : Option Int
  createdBy : Option String
  deriving DecidableEq

abbrev TokenRow.key (row : TokenRow) : String := row.id

abbrev TokenStore := Table TokenRow.key

/-- `none` is a violation of the primary key or of the unique hash. -/
def insertStmt (store : TokenStore) (row : TokenRow) : Option TokenStore :=
  if (store.find row.id).isSome || store.rows.any (fun other => other.hash = row.hash) then none else some (store.insertOrIgnore row)

def revoke (store : TokenStore) (id : String) : TokenStore := store.delete fun row => row.id = id

variable {row : TokenRow}

theorem mem_revoke {store : TokenStore} {id : String} : row ∈ (revoke store id).rows ↔ row ∈ store.rows ∧ row.id ≠ id := by
  simp [revoke, delete]

theorem rows_insertStmt {store left : TokenStore} (h : insertStmt store row = some left) : left.rows = store.rows ++ [row] := by
  unfold insertStmt at h
  split at h
  · cases h
  · rename_i hFree
    cases h
    rw [rows_insertOrIgnore, if_pos]
    simp only [Bool.or_eq_true, not_or, Bool.not_eq_true, Option.isSome_eq_false_iff] at hFree
    exact Option.isNone_iff_eq_none.mp hFree.1

/-! ## Requests -/

inductive ApprovalMode where
  | bind | create
  deriving DecidableEq

def ApprovalMode.text : ApprovalMode → String
  | .bind => "bind"
  | .create => "create"

structure Approval where
  userCode : String
  approvedBy : Name
  memberName : Name
  mode : ApprovalMode
  label : String
  plaintext : BearerToken
  issued : Option TokenRow

/-- What a caller asks for. `normalized` is what `normalizeUserCode` makes of the code. -/
structure ApproveRequest where
  caller : LoadedMember
  body : Option ApproveEnrollmentRequest
  normalized : Option String
  label : Option String

def modeOf : ApproveEnrollmentRequest → ApprovalMode
  | .bind _ => .bind
  | .create .. => .create

def Approval.input (approval : Approval) (row : TokenRow) : ApproveInput where
  userCode := approval.userCode
  approvedBy := approval.approvedBy.text
  boundMember := approval.memberName.text
  approveArgsJson := "\x7b\"mode\":\"" ++ approval.mode.text ++ "\"\x7d"
  issuedTokenId := row.id
  issuedTokenPlaintext := approval.plaintext

/-- The stores, and the requests that wait. `approved` are those that have succeeded. -/
structure Desk where
  roster : Roster
  enrollments : EnrollmentStore
  tokens : TokenStore
  arrived : Nat
  inFlight : Nat → Option Approval
  approved : List Approval

def Desk.openWith (roster : Roster) (enrollments : EnrollmentStore) (tokens : TokenStore) : Desk :=
  ⟨roster, enrollments, tokens, 0, fun _ => none, []⟩

/-- `inserts` and `decides` resume a request. The value is wrapped with an initialisation vector, or cannot be. -/
inductive Event where
  | approve (request : ApproveRequest) (plaintext : BearerToken) (now : Int)
  | inserts (request : Nat) (tokenId : String) (createdAt : Int)
  | insertFails (request : Nat)
  | decides (request : Nat) (iv : Option Nat)
  | reject (input : RejectInput)
  | poll (deviceCode : String) (now : Int)
  | purge (now : Int)

def internal : Refusal := ⟨500, "Internal Server Error"⟩

section

variable (config : Config) (hash hashRawToken : String → String) (cipher : Option FieldCipher)

def lookupPending (enrollments : EnrollmentStore) (normalized : Option String) (now : Int) : Except Refusal EnrollmentRow :=
  match normalized with
  | none => .error ⟨400, "invalid userCode format"⟩
  | some userCode =>
    match enrollments.lookupByUserCode userCode now with
    | .notFound => .error ⟨404, "no such enrollment"⟩
    | .expired => .error ⟨410, "enrollment expired"⟩
    | .alreadyApproved => .error ⟨409, "enrollment already approved"⟩
    | .alreadyRejected _ => .error ⟨409, "enrollment already rejected"⟩
    | .pending row => .ok row

def admits (request : ApproveRequest) (now : Int) (desk : Desk) : Except Refusal (EnrollmentRow × ApproveEnrollmentRequest × Next) := do
  admitManager config request.caller "approving enrollments requires members.manage"
    "enrollment approval is not available (persistMembers missing)"
  let some body := request.body | throw ⟨400, "invalid approve payload"⟩
  let row ← lookupPending desk.enrollments request.normalized now
  return (row, body, ← approveEnrollment config desk.roster (.ok ()) (some body))

def approve (request : ApproveRequest) (plaintext : BearerToken) (now : Int) (desk : Desk) : Desk × Except Refusal (Option Name) :=
  match admits config request now desk with
  | .error refusal => (desk, .error refusal)
  | .ok (_, _, .waits _) => (desk, .ok none)
  | .ok (row, body, .writes program refusal) =>
    match Fallible.run program desk.roster with
    | (.ok (.approved memberName), roster) =>
      let approval : Approval :=
        ⟨row.userCode, request.caller.name, memberName, modeOf body, request.label.getD row.labelHint, plaintext, none⟩
      ({ desk with
          roster := roster
          arrived := desk.arrived + 1
          inFlight := update desk.inFlight desk.arrived (some approval) }, .ok none)
    | (.ok _, roster) => ({ desk with roster := roster }, .ok none)
    | (.error error, roster) => ({ desk with roster := roster }, .error (refusal error))

def Desk.ends (desk : Desk) (request : Nat) : Desk := { desk with inFlight := update desk.inFlight request none }

def tokenRow (approval : Approval) (tokenId : String) (createdAt : Int) : TokenRow where
  id := tokenId
  memberName := approval.memberName.text
  hash := hashRawToken approval.plaintext.text
  label := String.ofList (Text.takeUnits 64 approval.label.toList)
  origin := .enroll
  createdAt := createdAt
  lastUsedAt := none
  expiresAt := none
  createdBy := some approval.approvedBy.text

def inserts (request : Nat) (tokenId : String) (createdAt : Int) (desk : Desk) : Desk × Except Refusal (Option Name) :=
  match desk.inFlight request with
  | none => (desk, .ok none)
  | some approval =>
    match approval.issued with
    | some _ => (desk, .ok none)
    | none =>
      let row := tokenRow hashRawToken approval tokenId createdAt
      match insertStmt desk.tokens row with
      | none => (desk.ends request, .error internal)
      | some tokens =>
        ({ desk with tokens := tokens, inFlight := update desk.inFlight request (some { approval with issued := some row }) }, .ok none)

def insertFails (request : Nat) (desk : Desk) : Desk × Except Refusal (Option Name) :=
  match desk.inFlight request with
  | none => (desk, .ok none)
  | some approval => if approval.issued.isNone then (desk.ends request, .error internal) else (desk, .ok none)

def decides (request : Nat) (iv : Option Nat) (desk : Desk) : Desk × Except Refusal (Option Name) :=
  match desk.inFlight request with
  | none => (desk, .ok none)
  | some approval =>
    match approval.issued, iv with
    | none, _ => (desk, .ok none)
    | some _, none => (desk.ends request, .error internal)
    | some row, some iv =>
      let (enrollments, success) := desk.enrollments.approve cipher (approval.input row) iv
      let desk := { desk with enrollments := enrollments }
      if success then ({ desk.ends request with approved := desk.approved ++ [approval] }, .ok (some approval.memberName))
      else ({ desk.ends request with tokens := revoke desk.tokens row.id }, .error ⟨409, "enrollment changed state during approval — try again"⟩)

def poll (deviceCode : String) (now : Int) (desk : Desk) : Desk :=
  let (enrollments, outcome) := desk.enrollments.pollByDeviceCode hash cipher deviceCode now
  let desk := { desk with enrollments := enrollments }
  match outcome with
  | .ok (.approved token) =>
    if desk.roster.rows.any fun row => row.name.text = token.memberName then desk
    else { desk with tokens := revoke desk.tokens token.tokenId }
  | _ => desk

def serve : Machine Desk Event (Except Refusal (Option Name)) := fun desk event =>
  match event with
  | .approve request plaintext now => approve config request plaintext now desk
  | .inserts request tokenId createdAt => inserts hashRawToken request tokenId createdAt desk
  | .insertFails request => insertFails request desk
  | .decides request iv => decides cipher request iv desk
  | .reject input => ({ desk with enrollments := (desk.enrollments.reject input).1 }, .ok none)
  | .poll deviceCode now => (poll hash cipher deviceCode now desk, .ok none)
  | .purge now => ({ desk with enrollments := (desk.enrollments.purgeExpired now).1 }, .ok none)

end

/-! ## What the member store is left with -/

open Fallible

theorem ends_addMember (presets : PermissionPresets) (input : AddMemberInput) (roster : Roster) :
    Ends (addMember presets input) roster fun outcome after =>
      match outcome with
      | .ok member => member.name = input.name ∧
          after = roster.insertOrIgnore ⟨input.name, input.role, input.instructions, input.rawPermissions⟩
      | .error _ => after = roster := by
  unfold addMember
  cases hRaw : validateRawPermissions input.rawPermissions with
  | error error => exact rfl
  | ok valid =>
    rw [ends_fromExcept_ok, ends_reads_bind]
    cases hFree : (roster.find input.name).isNone with
    | false => exact rfl
    | true =>
      rw [ends_require_true]
      cases hResolved : resolvePermissions input.rawPermissions presets s!"member '{input.name.text}'" with
      | error error => exact rfl
      | ok permissions =>
        have hNone : roster.find input.name = none := Option.isNone_iff_eq_none.mp hFree
        let row : MemberRow := ⟨input.name, input.role, input.instructions, input.rawPermissions⟩
        have hFind : (roster.insertOrIgnore row).find input.name = some row := by
          rw [find_insertOrIgnore, hNone, Option.none_or, if_pos rfl]
        have hRead : findByName presets (roster.insertOrIgnore row) input.name =
            .ok (some ⟨⟨input.name, permissions⟩, input.role, input.instructions, input.rawPermissions⟩) := by
          unfold findByName
          rw [hFind]
          dsimp only
          unfold rowToLoaded
          rw [hResolved]
          rfl
        rw [ends_fromExcept_ok, ends_update_bind]
        unfold readBack
        rw [ends_reads_bind]
        dsimp only [id]
        rw [hRead, ends_fromExcept_ok]
        exact ⟨rfl, rfl⟩

variable {config : Config} {desk : Desk}

theorem run_approveEnrollment {body : ApproveEnrollmentRequest} {next : Next}
    (h : approveEnrollment config desk.roster (.ok ()) (some body) = .ok next) : ∃ program refusal, next = .writes program refusal ∧
      Ends program desk.roster fun outcome after =>
        match outcome with
        | .ok reply => ∃ memberName, reply = .approved memberName ∧ (modeOf body = .bind ∧ after = desk.roster ∨
          modeOf body = .create ∧ ∃ row : MemberRow, row.name = memberName ∧ after = desk.roster.insertOrIgnore row)
        | .error _ => after = desk.roster := by
  cases body with
  | bind memberName =>
    cases hFind : find config desk.roster memberName with
    | error refusal => simp [approveEnrollment, hFind, bind, Except.bind] at h
    | ok found =>
      cases found with
      | none => simp [approveEnrollment, hFind, bind, Except.bind, throw, throwThe, MonadExceptOf.throw] at h
      | some target =>
        simp only [approveEnrollment, hFind, bind, Except.bind, pure, Except.pure, Except.ok.injEq] at h
        exact ⟨_, _, h.symm, target.name, rfl, .inl ⟨rfl, rfl⟩⟩
  | create memberName role instructions permissions =>
    cases hFind : find config desk.roster memberName with
    | error refusal => simp [approveEnrollment, hFind, bind, Except.bind] at h
    | ok found =>
      cases found with
      | some target => simp [approveEnrollment, hFind, bind, Except.bind, throw, throwThe, MonadExceptOf.throw] at h
      | none =>
        cases hResolved : resolve config permissions s!"approve-enrollment {memberName.text}" with
        | error refusal => simp [approveEnrollment, hFind, hResolved, bind, Except.bind] at h
        | ok resolved =>
          have hNext : approveEnrollment config desk.roster (.ok ()) (some (.create memberName role instructions permissions)) =
              .ok (.writes (do return .approved (← addMember config.presets ⟨memberName, role, instructions, resolved.map Permission.key⟩).name)
                (caught 409)) := by
            simp only [approveEnrollment, hFind, hResolved, bind, Except.bind, pure, Except.pure]
            rfl
          rw [hNext] at h
          cases h
          refine ⟨_, _, rfl, ?_⟩
          rw [ends_bind]
          refine (ends_addMember config.presets _ desk.roster).imp fun outcome after hEnds => ?_
          cases outcome with
          | error error => exact hEnds
          | ok member => exact ⟨member.name, rfl, .inr ⟨rfl, _, hEnds.1.symm, hEnds.2⟩⟩

theorem approve_cases (config : Config) (request : ApproveRequest) (plaintext : BearerToken) (now : Int) (desk : Desk) :
    (∃ refusal, approve config request plaintext now desk = (desk, .error refusal)) ∨
    ∃ (approval : Approval) (roster : Roster), approve config request plaintext now desk =
        ({ desk with
            roster := roster
            arrived := desk.arrived + 1
            inFlight := update desk.inFlight desk.arrived (some approval) }, .ok none) ∧
      approval.issued = none ∧ (approval.mode = .bind ∧ roster = desk.roster ∨
        approval.mode = .create ∧ ∃ row : MemberRow, row.name = approval.memberName ∧ roster = desk.roster.insertOrIgnore row) := by
  unfold approve
  cases hAdmit : admits config request now desk with
  | error refusal => exact .inl ⟨refusal, rfl⟩
  | ok admitted =>
    obtain ⟨row, body, next⟩ := admitted
    have hNext : approveEnrollment config desk.roster (.ok ()) (some body) = .ok next := by
      obtain ⟨_, -, hBody⟩ := bind_eq_ok.mp hAdmit
      cases hRequest : request.body with
      | none =>
        rw [hRequest] at hBody
        cases hBody
      | some asked =>
        rw [hRequest] at hBody
        obtain ⟨found, -, hFound⟩ := bind_eq_ok.mp hBody
        obtain ⟨resumed, hResumed, hSame⟩ := bind_eq_ok.mp hFound
        cases hSame
        exact hResumed
    obtain ⟨program, refusal, rfl, hEnds⟩ := run_approveEnrollment hNext
    rw [ends_iff_run] at hEnds
    dsimp only
    cases hRun : Fallible.run program desk.roster with
    | mk outcome after =>
      rw [hRun] at hEnds
      cases outcome with
      | error error =>
        dsimp only at hEnds ⊢
        rw [hEnds]
        exact .inl ⟨refusal error, rfl⟩
      | ok reply =>
        obtain ⟨memberName, rfl, hRoster⟩ := hEnds
        exact .inr ⟨_, after, rfl, rfl, hRoster⟩

/-! ## Who holds what -/

def Holds (desk : Desk) (approval : Approval) : Prop := (∃ request, desk.inFlight request = some approval) ∨ approval ∈ desk.approved

variable {value : Option Approval}

theorem served_update {served : Nat → Option Approval} {place : Nat} {approval : Approval} :
    (∃ request, update served place value request = some approval) ↔
      value = some approval ∨ ∃ request, request ≠ place ∧ served request = some approval := by
  constructor
  · rintro ⟨request, h⟩
    by_cases hSame : request = place
    · subst hSame
      rw [update_self] at h
      exact .inl h
    · rw [update_of_ne hSame] at h
      exact .inr ⟨request, hSame, h⟩
  · rintro (rfl | ⟨request, hOther, h⟩)
    · exact ⟨place, update_self _ _ _⟩
    · exact ⟨request, by rw [update_of_ne hOther, h]⟩

theorem Holds.stays {desk after : Desk} {request : Nat} {approval other : Approval} (h : Holds desk other)
    (hServed : desk.inFlight request = some approval) (hFlight : after.inFlight = update desk.inFlight request value)
    (hApproved : after.approved = desk.approved) : other = approval ∨ Holds after other := by
  unfold Holds at *
  rw [hFlight, hApproved, served_update]
  obtain ⟨index, hIndex⟩ | hMem := h
  · by_cases hSame : index = request
    · rw [hSame, hServed] at hIndex
      exact .inl (Option.some_inj.mp hIndex).symm
    · exact .inr (.inl (.inr ⟨index, hSame, hIndex⟩))
  · exact .inr (.inr hMem)

/-- Beside what was there, the stores hold what a request that is served or has succeeded has put there. -/
structure Atomic (roster : Roster) (tokens : TokenStore) (desk : Desk) : Prop where
  members : ∀ row ∈ desk.roster.rows,
    row ∈ roster.rows ∨ ∃ approval, Holds desk approval ∧ approval.mode = .create ∧ approval.memberName = row.name
  issued : ∀ row ∈ desk.tokens.rows, row ∈ tokens.rows ∨ ∃ approval, Holds desk approval ∧ approval.issued = some row
  owner : ∀ approval row, Holds desk approval → approval.issued = some row → row.memberName = approval.memberName.text
  decided : ∀ approval ∈ desk.approved, ∀ row ∈ desk.enrollments.rows, isUndecided approval.userCode row = false
  once : (desk.approved.map Approval.userCode).Nodup
  fresh : ∀ request, desk.arrived ≤ request → desk.inFlight request = none

def StaysDecided (before after : EnrollmentStore) : Prop := ∀ userCode,
  (∀ row ∈ before.rows, isUndecided userCode row = false) → ∀ row ∈ after.rows, isUndecided userCode row = false

theorem staysDecided_delete (before : EnrollmentStore) (gone : EnrollmentRow → Bool) : StaysDecided before (before.delete gone) :=
  fun _ h row hMem => h row (List.mem_filter.mp hMem).1

theorem staysDecided_update (before : EnrollmentStore) (changed : EnrollmentRow → Bool) (write : EnrollmentRow → EnrollmentRow)
    (keeps : ∀ row, (write row).deviceCodeHash = row.deviceCodeHash)
    (hWrite : ∀ userCode row, isUndecided userCode (write row) = true → isUndecided userCode row = true) :
    StaysDecided before (before.update changed write keeps) := by
  intro userCode h row hMem
  obtain ⟨old, hOld, rfl⟩ := List.mem_map.mp hMem
  split
  · by_contra hNot
    have hBefore := hWrite userCode old ((Bool.not_eq_false _).mp hNot)
    rw [h old hOld] at hBefore
    cases hBefore
  · exact h old hOld

theorem isUndecided_approvedRow (cipher : Option FieldCipher) (input : ApproveInput) (iv : Nat) (userCode : String) (row : EnrollmentRow) :
    isUndecided userCode (approvedRow cipher input iv row) = false := by
  simp [isUndecided, approvedRow]

theorem staysDecided_approve (cipher : Option FieldCipher) (before : EnrollmentStore) (input : ApproveInput) (iv : Nat) :
    StaysDecided before (before.approve cipher input iv).1 :=
  staysDecided_update before _ (approvedRow cipher input iv) (fun _ => rfl) fun userCode row h => by
    rw [isUndecided_approvedRow] at h
    cases h

theorem isUndecided_approve (cipher : Option FieldCipher) (before : EnrollmentStore) (input : ApproveInput) (iv : Nat) :
    ∀ row ∈ (before.approve cipher input iv).1.rows, isUndecided input.userCode row = false := by
  intro row hMem
  obtain ⟨old, -, rfl⟩ := List.mem_map.mp hMem
  split
  · exact isUndecided_approvedRow cipher input iv _ old
  · rename_i hDecided
    exact (Bool.not_eq_true _).mp hDecided

theorem approve_succeeds_iff (cipher : Option FieldCipher) (before : EnrollmentStore) (input : ApproveInput) (iv : Nat) :
    (before.approve cipher input iv).2 = true ↔ ∃ row ∈ before.rows, isUndecided input.userCode row = true := by
  unfold EnrollmentStore.approve changes select
  rw [decide_eq_true_iff, List.length_pos_iff_exists_mem]
  simp only [List.mem_filter]

theorem staysDecided_reject (before : EnrollmentStore) (input : RejectInput) : StaysDecided before (before.reject input).1 :=
  staysDecided_update before _ (rejectedRow input) (fun _ => rfl) fun userCode row h => by
    simp [isUndecided, rejectedRow] at h

theorem staysDecided_poll (hash : String → String) (cipher : Option FieldCipher) (before : EnrollmentStore) (deviceCode : String) (now : Int) :
    StaysDecided before (before.pollByDeviceCode hash cipher deviceCode now).1 := by
  have hSame : StaysDecided before before := fun _ h => h
  unfold pollByDeviceCode pollByHash
  split
  · exact hSame
  · dsimp only
    split
    · exact staysDecided_delete before _
    · split
      · exact staysDecided_delete before _
      · split
        · exact hSame
        · exact staysDecided_delete before _
        · exact staysDecided_delete before _
      · exact staysDecided_update before _ (fun row => { row with lastPolledAt := some now }) (fun _ => rfl) fun _ _ h => h

namespace Atomic

variable {roster : Roster} {tokens : TokenStore} {after : Desk}

section

variable (h : Atomic roster tokens desk)
include h

theorem enrollments {store : EnrollmentStore} (hDecided : StaysDecided desk.enrollments store) :
    Atomic roster tokens { desk with enrollments := store } where
  members := h.members
  issued := h.issued
  owner := h.owner
  decided approval hMem := hDecided approval.userCode (h.decided approval hMem)
  once := h.once
  fresh := h.fresh

theorem revoke (id : String) : Atomic roster tokens { desk with tokens := revoke desk.tokens id } where
  members := h.members
  issued row hMem := h.issued row (List.mem_filter.mp hMem).1
  owner := h.owner
  decided := h.decided
  once := h.once
  fresh := h.fresh

theorem poll (hash : String → String) (cipher : Option FieldCipher) (deviceCode : String) (now : Int) :
    Atomic roster tokens (poll hash cipher deviceCode now desk) := by
  have hPolled := h.enrollments (staysDecided_poll hash cipher desk.enrollments deviceCode now)
  unfold EnrollmentApproval.poll
  dsimp only
  split
  · split
    · exact hPolled
    · exact hPolled.revoke _
  · exact hPolled

theorem approve (config : Config) (request : ApproveRequest) (plaintext : BearerToken) (now : Int) :
    Atomic roster tokens (approve config request plaintext now desk).1 := by
  obtain ⟨refusal, hRefused⟩ | ⟨approval, members, hAdmitted, hIssued, hRoster⟩ := approve_cases config request plaintext now desk
  · rw [hRefused]
    exact h
  · rw [hAdmitted]
    have hHolds (other : Approval) : Holds { desk with
        roster := members
        arrived := desk.arrived + 1
        inFlight := update desk.inFlight desk.arrived (some approval) } other ↔ other = approval ∨ Holds desk other := by
      unfold Holds
      dsimp only
      rw [served_update, or_assoc, Option.some_inj, eq_comm]
      refine or_congr_right (or_congr_left (exists_congr fun index => and_iff_right_of_imp ?_))
      rintro hIndex rfl
      rw [h.fresh _ (Nat.le_refl _)] at hIndex
      cases hIndex
    refine ⟨fun row hMem => ?_, fun row hMem => ?_, fun other row hOther hRow => ?_, h.decided, h.once, fun index hIndex => ?_⟩
    · have hOld (hRow : row ∈ desk.roster.rows) : row ∈ roster.rows ∨
          ∃ other, (other = approval ∨ Holds desk other) ∧ other.mode = .create ∧ other.memberName = row.name := by
        obtain hThere | ⟨other, hOther, hSays⟩ := h.members row hRow
        · exact .inl hThere
        · exact .inr ⟨other, .inr hOther, hSays⟩
      simp only [hHolds]
      dsimp only at hMem
      obtain ⟨-, rfl⟩ | ⟨hCreate, new, hName, rfl⟩ := hRoster
      · exact hOld hMem
      · rw [rows_insertOrIgnore] at hMem
        split at hMem
        · obtain hRow | hNew := List.mem_append.mp hMem
          · exact hOld hRow
          · rw [List.mem_singleton.mp hNew]
            exact .inr ⟨approval, .inl rfl, hCreate, hName.symm⟩
        · exact hOld hMem
    · simp only [hHolds]
      obtain hThere | ⟨other, hOther, hSays⟩ := h.issued row hMem
      · exact .inl hThere
      · exact .inr ⟨other, .inr hOther, hSays⟩
    · obtain rfl | hBefore := (hHolds other).mp hOther
      · rw [hIssued] at hRow
        cases hRow
      · exact h.owner other row hBefore hRow
    · dsimp only at hIndex ⊢
      rw [update_of_ne (by omega)]
      exact h.fresh index (by omega)

end

variable {request : Nat} {approval : Approval}

section

variable (h : Atomic roster tokens desk)
include h

theorem served_lt (hServed : desk.inFlight request = some approval) : request < desk.arrived := by
  by_contra hNot
  rw [h.fresh request (Nat.le_of_not_lt hNot)] at hServed
  cases hServed

theorem fresh_update (hServed : desk.inFlight request = some approval)
    (value : Option Approval) {index : Nat} (hIndex : desk.arrived ≤ index) : update desk.inFlight request value index = none := by
  have hLt := h.served_lt hServed
  rw [update_of_ne (by omega)]
  exact h.fresh index hIndex

variable {left : TokenStore}

section

variable (hServed : desk.inFlight request = some approval)
include hServed

theorem loses
    (hBind : approval.mode = .bind) (hLeft : left.rows ⊆ desk.tokens.rows)
    (hGone : ∀ row, approval.issued = some row → row ∉ left.rows) : Atomic roster tokens { desk.ends request with tokens := left } := by
  have hStays {other : Approval} (hOther : Holds desk other) :
      other = approval ∨ Holds { desk.ends request with tokens := left } other := hOther.stays hServed rfl rfl
  refine ⟨fun row hMem => ?_, fun row hMem => ?_, fun other row hOther hRow => ?_, h.decided, h.once, fun index hIndex => ?_⟩
  · obtain hThere | ⟨other, hOther, hCreate, hName⟩ := h.members row hMem
    · exact .inl hThere
    · obtain rfl | hHolds := hStays hOther
      · rw [hBind] at hCreate
        cases hCreate
      · exact .inr ⟨other, hHolds, hCreate, hName⟩
  · obtain hThere | ⟨other, hOther, hIssued⟩ := h.issued row (hLeft hMem)
    · exact .inl hThere
    · obtain rfl | hHolds := hStays hOther
      · exact absurd hMem (hGone row hIssued)
      · exact .inr ⟨other, hHolds, hIssued⟩
  · refine h.owner other row ?_ hRow
    unfold Holds Desk.ends at hOther
    dsimp only at hOther
    rw [served_update] at hOther
    obtain (hNone | ⟨index, -, hIndex⟩) | hApproved := hOther
    · cases hNone
    · exact .inl ⟨index, hIndex⟩
    · exact .inr hApproved
  · exact h.fresh_update hServed none hIndex

theorem issues
    (hNone : approval.issued = none) {row : TokenRow} (hOwner : row.memberName = approval.memberName.text)
    (hLeft : insertStmt desk.tokens row = some left) :
    Atomic roster tokens
      { desk with tokens := left, inFlight := update desk.inFlight request (some { approval with issued := some row }) } := by
  have hStays {other : Approval} (hOther : Holds desk other) : other = approval ∨ Holds
      { desk with tokens := left, inFlight := update desk.inFlight request (some { approval with issued := some row }) } other :=
    hOther.stays hServed rfl rfl
  have hNew : Holds
      { desk with tokens := left, inFlight := update desk.inFlight request (some { approval with issued := some row }) }
      { approval with issued := some row } := .inl ⟨request, update_self _ _ _⟩
  refine ⟨fun member hMem => ?_, fun token hMem => ?_, fun other token hOther hRow => ?_, h.decided, h.once, fun index hIndex => ?_⟩
  · obtain hThere | ⟨other, hOther, hCreate, hName⟩ := h.members member hMem
    · exact .inl hThere
    · obtain rfl | hHolds := hStays hOther
      · exact .inr ⟨_, hNew, hCreate, hName⟩
      · exact .inr ⟨other, hHolds, hCreate, hName⟩
  · dsimp only at hMem
    rw [rows_insertStmt hLeft] at hMem
    obtain hOld | hInserted := List.mem_append.mp hMem
    · obtain hThere | ⟨other, hOther, hIssued⟩ := h.issued token hOld
      · exact .inl hThere
      · obtain rfl | hHolds := hStays hOther
        · rw [hNone] at hIssued
          cases hIssued
        · exact .inr ⟨other, hHolds, hIssued⟩
    · exact .inr ⟨_, hNew, by rw [List.mem_singleton.mp hInserted]⟩
  · unfold Holds at hOther
    dsimp only at hOther
    rw [served_update] at hOther
    obtain (hSame | ⟨index, -, hIndex⟩) | hApproved := hOther
    · obtain rfl := Option.some_inj.mp hSame
      obtain rfl := Option.some_inj.mp hRow
      exact hOwner
    · exact h.owner other token (.inl ⟨index, hIndex⟩) hRow
    · exact h.owner other token (.inr hApproved) hRow
  · exact h.fresh_update hServed _ hIndex

theorem succeeds
    {store : EnrollmentStore} (hDecided : StaysDecided desk.enrollments store)
    (hWas : ∃ row ∈ desk.enrollments.rows, isUndecided approval.userCode row = true)
    (hIs : ∀ row ∈ store.rows, isUndecided approval.userCode row = false) :
    Atomic roster tokens { { desk with enrollments := store }.ends request with approved := desk.approved ++ [approval] } := by
  have hHolds (other : Approval) :
      Holds { { desk with enrollments := store }.ends request with approved := desk.approved ++ [approval] } other ↔ Holds desk other := by
    unfold Holds Desk.ends
    dsimp only
    rw [served_update, List.mem_append, List.mem_singleton]
    constructor
    · rintro ((hNone | ⟨index, -, hIndex⟩) | hApproved | rfl)
      · cases hNone
      · exact .inl ⟨index, hIndex⟩
      · exact .inr hApproved
      · exact .inl ⟨request, hServed⟩
    · rintro (⟨index, hIndex⟩ | hApproved)
      · by_cases hSame : index = request
        · rw [hSame, hServed] at hIndex
          exact .inr (.inr (Option.some_inj.mp hIndex).symm)
        · exact .inl (.inr ⟨index, hSame, hIndex⟩)
      · exact .inr (.inl hApproved)
  refine ⟨?_, ?_, fun other row hOther => h.owner other row ((hHolds other).mp hOther), fun other hOther => ?_, ?_, fun index hIndex => ?_⟩
  · simp only [hHolds]
    exact h.members
  · simp only [hHolds]
    exact h.issued
  · obtain hOld | hNew := List.mem_append.mp hOther
    · exact hDecided other.userCode (h.decided other hOld)
    · rw [List.mem_singleton.mp hNew]
      exact hIs
  · rw [List.map_append, List.map_singleton, ← List.concat_eq_append]
    refine h.once.concat fun hMem => ?_
    obtain ⟨other, hOther, hSame⟩ := List.mem_map.mp hMem
    obtain ⟨row, hRow, hUndecided⟩ := hWas
    have hNot := h.decided other hOther row hRow
    rw [hSame, hUndecided] at hNot
    cases hNot
  · exact h.fresh_update hServed none hIndex

end

end

theorem openWith (roster : Roster) (enrollments : EnrollmentStore) (tokens : TokenStore) :
    Atomic roster tokens (Desk.openWith roster enrollments tokens) where
  members _ hMem := .inl hMem
  issued _ hMem := .inl hMem
  owner _ _ hHolds := by
    obtain ⟨request, hNone⟩ | hApproved := hHolds
    · cases hNone
    · cases hApproved
  decided _ hMem := by cases hMem
  once := List.nodup_nil
  fresh _ _ := rfl

end Atomic

/-! ## The condition -/

/-- A request that has added its member does not fail any more, and a value to be stored can be wrapped. -/
def Event.Lasts (hashRawToken : String → String) (desk : Desk) : Event → Prop
  | .inserts request tokenId createdAt => ∀ approval ∈ desk.inFlight request, approval.issued.isNone → approval.mode = .create →
      (insertStmt desk.tokens (tokenRow hashRawToken approval tokenId createdAt)).isSome
  | .insertFails request => ∀ approval ∈ desk.inFlight request, approval.issued.isNone → approval.mode = .bind
  | .decides request iv => ∀ approval ∈ desk.inFlight request, approval.issued.isSome →
      iv.isSome ∧ (approval.mode = .create → ∃ row ∈ desk.enrollments.rows, isUndecided approval.userCode row = true)
  | _ => True

instance (hashRawToken : String → String) (desk : Desk) : (event : Event) → Decidable (event.Lasts hashRawToken desk)
  | .inserts request tokenId createdAt => inferInstanceAs (Decidable (∀ approval ∈ desk.inFlight request, approval.issued.isNone →
      approval.mode = .create → (insertStmt desk.tokens (tokenRow hashRawToken approval tokenId createdAt)).isSome))
  | .insertFails request =>
    inferInstanceAs (Decidable (∀ approval ∈ desk.inFlight request, approval.issued.isNone → approval.mode = .bind))
  | .decides request iv => inferInstanceAs (Decidable (∀ approval ∈ desk.inFlight request, approval.issued.isSome →
      iv.isSome ∧ (approval.mode = .create → ∃ row ∈ desk.enrollments.rows, isUndecided approval.userCode row = true)))
  | .approve .. | .reject _ | .poll .. | .purge _ => inferInstanceAs (Decidable True)

theorem ApprovalMode.eq_bind {mode : ApprovalMode} (h : mode ≠ .create) : mode = .bind := by
  cases mode with
  | bind => rfl
  | create => exact absurd rfl h

/-- An error answer is that of a request that is refused, or that goes with its token and has added no member. -/
def FailsWhole (step : Step Desk Event (Except Refusal (Option Name))) : Prop :=
  ∀ refusal, step.output = .error refusal → step.after = step.before ∨
    ∃ request approval, step.before.inFlight request = some approval ∧ approval.mode = .bind ∧ step.after.inFlight request = none ∧
      step.after.roster = step.before.roster ∧ step.after.approved = step.before.approved ∧
      ∀ row, row ∈ step.after.tokens.rows ↔ row ∈ step.before.tokens.rows ∧ ∀ own, approval.issued = some own → row.id ≠ own.id

variable {reply : Option Name}

theorem failsWhole_ok {step : Step Desk Event (Except Refusal (Option Name))} (h : step.output = .ok reply) :
    FailsWhole step := by
  intro refusal hError
  rw [h] at hError
  cases hError

section Steps

variable {roster : Roster} {tokens : TokenStore} (h : Atomic roster tokens desk) (hashRawToken : String → String) {request : Nat}

include h

theorem ends_failsWhole {approval : Approval} (hServed : desk.inFlight request = some approval) (hBind : approval.mode = .bind)
    (hIssued : approval.issued = none) (event : Event) (output : Except Refusal (Option Name)) :
    Atomic roster tokens (desk.ends request) ∧ FailsWhole ⟨desk, event, output, desk.ends request⟩ := by
  constructor
  · refine h.loses hServed hBind (List.Subset.refl _) fun row hRow => ?_
    rw [hIssued] at hRow
    cases hRow
  · intro _ _
    refine .inr ⟨request, approval, hServed, hBind, update_self _ _ _, rfl, rfl, fun row => ?_⟩
    constructor
    · intro hMem
      refine ⟨hMem, fun own hOwn => ?_⟩
      rw [hIssued] at hOwn
      cases hOwn
    · exact And.left

theorem serve_inserts {tokenId : String} {createdAt : Int}
    (hLasts : Event.Lasts hashRawToken desk (.inserts request tokenId createdAt)) :
    Atomic roster tokens (inserts hashRawToken request tokenId createdAt desk).1 ∧
    FailsWhole ⟨desk, .inserts request tokenId createdAt, (inserts hashRawToken request tokenId createdAt desk).2,
      (inserts hashRawToken request tokenId createdAt desk).1⟩ := by
  unfold inserts
  cases hServed : desk.inFlight request with
  | none => exact ⟨h, failsWhole_ok rfl⟩
  | some approval =>
    cases hIssued : approval.issued with
    | some row =>
      dsimp only
      rw [hIssued]
      exact ⟨h, failsWhole_ok rfl⟩
    | none =>
      dsimp only
      rw [hIssued]
      dsimp only
      cases hInsert : insertStmt desk.tokens (tokenRow hashRawToken approval tokenId createdAt) with
      | none =>
        have hBind : approval.mode = .bind :=
          ApprovalMode.eq_bind fun hCreate => by
            have hSome := hLasts approval hServed (by rw [hIssued]; rfl) hCreate
            rw [hInsert] at hSome
            cases hSome
        exact ends_failsWhole h hServed hBind hIssued _ _
      | some left => exact ⟨h.issues hServed hIssued rfl hInsert, failsWhole_ok rfl⟩

theorem serve_insertFails (hLasts : Event.Lasts hashRawToken desk (.insertFails request)) :
    Atomic roster tokens (insertFails request desk).1 ∧
    FailsWhole ⟨desk, .insertFails request, (insertFails request desk).2, (insertFails request desk).1⟩ := by
  unfold insertFails
  cases hServed : desk.inFlight request with
  | none => exact ⟨h, failsWhole_ok rfl⟩
  | some approval =>
    cases hIssued : approval.issued with
    | some row =>
      dsimp only
      rw [hIssued]
      exact ⟨h, failsWhole_ok rfl⟩
    | none =>
      dsimp only
      rw [hIssued]
      exact ends_failsWhole h hServed (hLasts approval hServed (by rw [hIssued]; rfl)) hIssued _ _

theorem serve_decides (cipher : Option FieldCipher) {iv : Option Nat}
    (hLasts : Event.Lasts hashRawToken desk (.decides request iv)) :
    Atomic roster tokens (decides cipher request iv desk).1 ∧
    FailsWhole ⟨desk, .decides request iv, (decides cipher request iv desk).2, (decides cipher request iv desk).1⟩ := by
  unfold decides
  cases hServed : desk.inFlight request with
  | none => exact ⟨h, failsWhole_ok rfl⟩
  | some approval =>
    cases hIssued : approval.issued with
    | none =>
      dsimp only
      rw [hIssued]
      exact ⟨h, failsWhole_ok rfl⟩
    | some row =>
      obtain ⟨hWraps, hPending⟩ := hLasts approval hServed (by rw [hIssued]; rfl)
      cases iv with
      | none => cases hWraps
      | some iv =>
        dsimp only
        rw [hIssued]
        dsimp only
        have hDecided := staysDecided_approve cipher desk.enrollments (approval.input row) iv
        split
        · rename_i hSuccess
          refine ⟨h.succeeds hServed hDecided ?_ ?_, failsWhole_ok rfl⟩
          · exact (approve_succeeds_iff cipher _ (approval.input row) iv).mp hSuccess
          · exact isUndecided_approve cipher _ (approval.input row) iv
        · rename_i hFails
          have hBind : approval.mode = .bind :=
            ApprovalMode.eq_bind fun hCreate => hFails ((approve_succeeds_iff cipher _ (approval.input row) iv).mpr (hPending hCreate))
          constructor
          · have hLeft : (revoke desk.tokens row.id).rows ⊆ desk.tokens.rows := fun _ hMem => (mem_revoke.mp hMem).1
            refine (h.enrollments hDecided).loses hServed hBind hLeft fun own hOwn hMem => ?_
            obtain rfl := Option.some_inj.mp (hIssued.symm.trans hOwn)
            exact (mem_revoke.mp hMem).2 rfl
          · intro _ _
            refine .inr ⟨request, approval, hServed, hBind, update_self _ _ _, rfl, rfl, fun other => ?_⟩
            dsimp only
            rw [mem_revoke, hIssued]
            refine and_congr_right fun _ => ⟨?_, fun hOwn => hOwn row rfl⟩
            rintro hOther own hOwn
            rwa [← Option.some_inj.mp hOwn]

end Steps

theorem staysDecided_purge (before : EnrollmentStore) (now : Int) : StaysDecided before (before.purgeExpired now).1 :=
  staysDecided_delete before _

variable {event : Event}

theorem serve_atomic (config : Config) (hash : String → String) {hashRawToken : String → String} (cipher : Option FieldCipher)
    {roster : Roster} {tokens : TokenStore} (h : Atomic roster tokens desk) (hLasts : event.Lasts hashRawToken desk) :
    Atomic roster tokens (serve config hash hashRawToken cipher desk event).1 ∧
    FailsWhole (stepAt (serve config hash hashRawToken cipher) desk event) := by
  cases event with
  | approve request plaintext now =>
    refine ⟨h.approve config request plaintext now, fun refusal hError => ?_⟩
    obtain ⟨other, hRefused⟩ | ⟨approval, members, hAdmitted, -⟩ := approve_cases config request plaintext now desk
    · exact .inl (congrArg Prod.fst hRefused)
    · have hAnswer : (approve config request plaintext now desk).2 = .ok none := congrArg Prod.snd hAdmitted
      exact nomatch hAnswer.symm.trans hError
  | inserts request tokenId createdAt => exact serve_inserts h hashRawToken hLasts
  | insertFails request => exact serve_insertFails h hashRawToken hLasts
  | decides request iv => exact serve_decides h hashRawToken cipher hLasts
  | reject input => exact ⟨h.enrollments (staysDecided_reject desk.enrollments input), failsWhole_ok rfl⟩
  | poll deviceCode now => exact ⟨h.poll hash cipher deviceCode now, failsWhole_ok rfl⟩
  | purge now => exact ⟨h.enrollments (staysDecided_purge desk.enrollments now), failsWhole_ok rfl⟩

section Members

variable (hash hashRawToken : String → String) (cipher : Option FieldCipher) (desk : Desk)

theorem inserts_roster (request : Nat) (tokenId : String) (createdAt : Int) :
    (inserts hashRawToken request tokenId createdAt desk).1.roster = desk.roster := by
  unfold inserts
  split
  · rfl
  · split
    · rfl
    · dsimp only
      split <;> rfl

theorem insertFails_roster (request : Nat) : (insertFails request desk).1.roster = desk.roster := by
  unfold insertFails
  split
  · rfl
  · split <;> rfl

theorem decides_roster (request : Nat) (iv : Option Nat) : (decides cipher request iv desk).1.roster = desk.roster := by
  unfold decides
  split
  · rfl
  · split
    · rfl
    · rfl
    · dsimp only
      split <;> rfl

theorem poll_roster (deviceCode : String) (now : Int) : (poll hash cipher deviceCode now desk).roster = desk.roster := by
  unfold poll
  dsimp only
  split
  · split <;> rfl
  · rfl

end Members

theorem roster_subset (config : Config) (hash hashRawToken : String → String) (cipher : Option FieldCipher) (desk : Desk) (event : Event) :
    desk.roster.rows ⊆ (serve config hash hashRawToken cipher desk event).1.roster.rows := by
  cases event with
  | approve request plaintext now =>
    obtain ⟨refusal, hRefused⟩ | ⟨approval, members, hAdmitted, -, hRoster⟩ := approve_cases config request plaintext now desk
    · rw [show (serve config hash hashRawToken cipher desk (.approve request plaintext now)).1 = desk from congrArg Prod.fst hRefused]
      exact List.Subset.refl _
    · rw [show (serve config hash hashRawToken cipher desk (.approve request plaintext now)).1.roster = members from
        congrArg (fun served => served.1.roster) hAdmitted]
      obtain ⟨-, rfl⟩ | ⟨-, row, -, rfl⟩ := hRoster
      · exact List.Subset.refl _
      · rw [rows_insertOrIgnore]
        split
        · exact List.subset_append_left _ _
        · exact List.Subset.refl _
  | inserts request tokenId createdAt => exact (inserts_roster hashRawToken desk request tokenId createdAt).symm ▸ List.Subset.refl _
  | insertFails request => exact (insertFails_roster desk request).symm ▸ List.Subset.refl _
  | decides request iv => exact (decides_roster cipher desk request iv).symm ▸ List.Subset.refl _
  | reject input => exact List.Subset.refl _
  | poll deviceCode now => exact (poll_roster hash cipher desk deviceCode now).symm ▸ List.Subset.refl _
  | purge now => exact List.Subset.refl _

theorem tokens_subset {config : Config} {hash hashRawToken : String → String} {cipher : Option FieldCipher} {desk : Desk}
    (hPoll : ∀ deviceCode now, event ≠ .poll deviceCode now)
    (h : (serve config hash hashRawToken cipher desk event).2 = .ok reply) :
    desk.tokens.rows ⊆ (serve config hash hashRawToken cipher desk event).1.tokens.rows := by
  cases event with
  | approve request plaintext now =>
    obtain ⟨refusal, hRefused⟩ | ⟨approval, members, hAdmitted, -⟩ := approve_cases config request plaintext now desk
    · exact nomatch (congrArg Prod.snd hRefused).symm.trans h
    · rw [show (serve config hash hashRawToken cipher desk (.approve request plaintext now)).1.tokens = desk.tokens from
        congrArg (fun served => served.1.tokens) hAdmitted]
      exact List.Subset.refl _
  | inserts request tokenId createdAt =>
    unfold serve inserts
    dsimp only
    split
    · exact List.Subset.refl _
    · split
      · exact List.Subset.refl _
      · split
        · exact List.Subset.refl _
        · rename_i hInsert
          rw [rows_insertStmt hInsert]
          exact List.subset_append_left _ _
  | insertFails request =>
    unfold serve insertFails
    dsimp only
    split
    · exact List.Subset.refl _
    · split <;> exact List.Subset.refl _
  | decides request iv =>
    unfold serve decides at *
    dsimp only at *
    split at h
    · exact List.Subset.refl _
    · split at h
      · exact List.Subset.refl _
      · cases h
      · split at h
        · rename_i hSuccess
          rw [if_pos hSuccess]
          exact List.Subset.refl _
        · cases h
  | reject input => exact List.Subset.refl _
  | poll deviceCode now => exact absurd rfl (hPoll deviceCode now)
  | purge now => exact List.Subset.refl _

/-! ## Runs -/

theorem approval_is_atomic (config : Config) (hash hashRawToken : String → String) (cipher : Option FieldCipher) (roster : Roster)
    (enrollments : EnrollmentStore) (tokens : TokenStore) (events : List Event)
    (hLasts : ∀ step ∈ run (serve config hash hashRawToken cipher) (.openWith roster enrollments tokens) events,
      step.input.Lasts hashRawToken step.before) :
    let desk := final (serve config hash hashRawToken cipher) (.openWith roster enrollments tokens) events
    (∀ step ∈ run (serve config hash hashRawToken cipher) (.openWith roster enrollments tokens) events, FailsWhole step ∧
      ((∀ deviceCode now, step.input ≠ .poll deviceCode now) → ∀ reply, step.output = .ok reply →
        step.before.tokens.rows ⊆ step.after.tokens.rows)) ∧
    roster.rows ⊆ desk.roster.rows ∧
    (∀ row ∈ desk.roster.rows, row ∉ roster.rows → ∃ approval, Holds desk approval ∧ approval.mode = .create ∧ approval.memberName = row.name) ∧
    (∀ row ∈ desk.tokens.rows, row ∉ tokens.rows → ∃ approval, Holds desk approval ∧ approval.issued = some row ∧
      row.memberName = approval.memberName.text) ∧
    ∀ first ∈ desk.approved, ∀ second ∈ desk.approved, first.userCode = second.userCode → first = second := by
  have hStart := Atomic.openWith roster enrollments tokens
  have hRun := run_invariant_of (P := Atomic roster tokens) (C := fun desk event => Event.Lasts hashRawToken desk event)
    (fun desk event h hMeets => (serve_atomic config hash cipher h hMeets).1) hStart hLasts
  have hEnd := final_invariant_of (P := Atomic roster tokens) (C := fun desk event => Event.Lasts hashRawToken desk event)
    (fun desk event h hMeets => (serve_atomic config hash cipher h hMeets).1) hStart hLasts
  have hKept := final_invariant (P := fun desk => roster.rows ⊆ desk.roster.rows)
    (fun desk event h => List.Subset.trans h (roster_subset config hash hashRawToken cipher desk event))
    (s := .openWith roster enrollments tokens) (List.Subset.refl _) events
  refine ⟨fun step hStep => ?_, hKept, fun row hMem hNew => ?_, fun row hMem hNew => ?_, fun first hFirst second hSecond hSame => ?_⟩
  · obtain ⟨hBefore, hNext⟩ := hRun step hStep
    rw [hNext]
    exact ⟨(serve_atomic config hash cipher hBefore (hLasts step hStep)).2, fun hPoll _ => tokens_subset hPoll⟩
  · exact (hEnd.members row hMem).resolve_left hNew
  · obtain ⟨approval, hHolds, hIssued⟩ := (hEnd.issued row hMem).resolve_left hNew
    exact ⟨approval, hHolds, hIssued, hEnd.owner approval row hHolds hIssued⟩
  · exact List.inj_on_of_nodup_map hEnd.once hFirst hSecond hSame

/-! Ada approves an enrollment for a new member, and somebody rejects it while the request waits. -/

def ada : LoadedMember := ⟨⟨⟨"ada", by decide⟩, [.membersManage]⟩, ⟨"Lead", "", by decide⟩, "", ["members.manage"]⟩

def kim : Name := ⟨"kim", by decide⟩

def asks : Event := .approve ⟨ada, some (.create kim ⟨"Agent", "", by decide⟩ "" []), some "ABCDEFGH", some "laptop"⟩ ⟨"r"⟩ 0

def enrolling : EnrollmentStore :=
  ⟨[⟨"d", "ABCDEFGH", 0, 300000, .pending, none, none, "laptop", none, none, none, none, none, none, none⟩], by decide⟩

def lead : Roster := ⟨[⟨⟨"ada", by decide⟩, ⟨"Lead", "", by decide⟩, "", ["members.manage"]⟩], by decide⟩

abbrev office : Machine Desk Event (Except Refusal (Option Name)) := serve ⟨[], true⟩ id id none

def kimsToken : TokenRow := ⟨"t", "kim", "csuite_r", "laptop", .enroll, 0, none, none, some "ada"⟩

theorem unopposed_approval : ∃ approval,
    Holds (final office (.openWith lead enrolling .empty)
      [asks, .inserts 0 "t" 0, .decides 0 (some 0), .reject ⟨"ABCDEFGH", "ada", none⟩]) approval ∧
    approval.issued = some kimsToken ∧ kimsToken.memberName = approval.memberName.text :=
  (approval_is_atomic ⟨[], true⟩ id id none lead enrolling .empty
    [asks, .inserts 0 "t" 0, .decides 0 (some 0), .reject ⟨"ABCDEFGH", "ada", none⟩] (by decide)).2.2.2.1
    kimsToken (by decide) (by decide)

theorem rejected_approval_leaves_member : ¬∀ events : List Event,
    ∀ step ∈ run office (.openWith lead enrolling .empty) events, ∀ refusal, step.output = .error refusal →
      ∀ name, (step.after.roster.find name).isSome → (lead.find name).isSome ∨
        ∃ approval, Holds step.after approval ∧ approval.mode = .create ∧ approval.memberName = name := by
  intro h
  have hRun := h ([asks, .inserts 0 "t" 0, .reject ⟨"ABCDEFGH", "ada", none⟩] ++ [.decides 0 (some 0)])
  rw [run_append] at hRun
  have hLast := hRun _ (List.mem_append_right _ (List.mem_singleton_self _))
    ⟨409, "enrollment changed state during approval — try again"⟩ rfl kim (by decide)
  obtain hThere | ⟨approval, hHolds, -⟩ := hLast
  · cases hThere
  · obtain ⟨request, hServed⟩ | hApproved := hHolds
    · cases request with
      | zero => cases hServed
      | succ request => cases hServed
    · cases hApproved

end CommandSuite.EnrollmentApproval
