import CommandSuite.Library.Table
import CommandSuite.Library.Text
import CommandSuite.Library.Transcript

/-! # `EnrollmentStore`

`packages/core/src/enrollments.ts`: the pending enrollments of the device-code flow. The codes a mint draws, the clock
and the initialisation vector of an encryption are arguments; `hash` is the digest of a device code.
-/

namespace CommandSuite

open Library Text

def ENCRYPTED_FIELD_PREFIX : String := "enc-v1:"

/-- What `generateBearerToken` returns. -/
structure BearerToken where
  random : String
  deriving DecidableEq

def BearerToken.text (token : BearerToken) : String := "csuite_" ++ token.random

/-- The host's cipher. A text that does not look encrypted is wrapped, and its wrapper opens to it. -/
structure FieldCipher where
  encrypt : Nat → String → Option String
  decrypt : String → Except String (Option String)
  opens : ∀ iv plaintext, startsWith plaintext ENCRYPTED_FIELD_PREFIX = false →
    ∃ ciphertext, encrypt iv plaintext = some ciphertext ∧ startsWith ciphertext ENCRYPTED_FIELD_PREFIX = true ∧
      decrypt ciphertext = .ok (some plaintext)

inductive EnrollmentStatus where
  | pending | approved | rejected
  deriving DecidableEq

structure EnrollmentRow where
  deviceCodeHash : String
  userCode : String
  createdAt : Int
  expiresAt : Int
  status : EnrollmentStatus
  sourceIp : Option String
  sourceUa : Option String
  labelHint : String
  approvedBy : Option String
  boundMember : Option String
  approveArgsJson : Option String
  issuedTokenId : Option String
  issuedTokenCiphertext : Option String
  rejectReason : Option String
  lastPolledAt : Option Int
  deriving DecidableEq

structure MintInput where
  sourceIp : Option String
  sourceUa : Option String
  labelHint : Option String

structure MintResult where
  deviceCode : String
  userCode : String
  userCodeFormatted : String
  deviceCodeHash : String
  expiresAt : Int
  expiresIn : Int
  interval : Nat

structure ApproveInput where
  userCode : String
  approvedBy : String
  boundMember : String
  approveArgsJson : String
  issuedTokenId : String
  issuedTokenPlaintext : BearerToken

structure RejectInput where
  userCode : String
  rejectedBy : String
  reason : Option String

structure DeliveredToken where
  tokenPlaintext : String
  tokenId : String
  memberName : String
  deriving DecidableEq

inductive PollOutcome where
  | authorizationPending
  | slowDown
  | expiredToken
  | accessDenied (reason : Option String)
  | approved (token : DeliveredToken)
  deriving DecidableEq

inductive LookupOutcome where
  | pending (row : EnrollmentRow)
  | expired
  | alreadyApproved
  | alreadyRejected (reason : Option String)
  | notFound

abbrev EnrollmentStore := Table EnrollmentRow.deviceCodeHash

namespace EnrollmentStore

def ENROLLMENT_TTL_MS : Int := 5 * 60 * 1000
def DEFAULT_POLL_INTERVAL_S : Nat := 5
def SLOW_DOWN_THRESHOLD_MS : Int := 2500
def USER_CODE_LEN : Nat := 8

def formatUserCode (internal : String) : String :=
  if internal.length ≠ USER_CODE_LEN then internal
  else String.ofList (internal.toList.take 4) ++ "-" ++ String.ofList (internal.toList.drop 4)

variable (hash : String → String) (cipher : Option FieldCipher) (store : EnrollmentStore)

/-- `none` is a violation of the primary key or of the unique user code. -/
def insertStmt (row : EnrollmentRow) : Option EnrollmentStore :=
  if (store.find row.deviceCodeHash).isSome || store.rows.any (fun other => other.userCode = row.userCode) then none
  else some (store.insertOrIgnore row)

def freshRow (input : MintInput) (createdAt : Int) (deviceCode userCode : String) : EnrollmentRow where
  deviceCodeHash := hash deviceCode
  userCode := userCode
  createdAt := createdAt
  expiresAt := createdAt + ENROLLMENT_TTL_MS
  status := .pending
  sourceIp := input.sourceIp
  sourceUa := input.sourceUa
  labelHint := String.ofList (takeUnits 64 (input.labelHint.getD "").toList)
  approvedBy := none
  boundMember := none
  approveArgsJson := none
  issuedTokenId := none
  issuedTokenCiphertext := none
  rejectReason := none
  lastPolledAt := none

/-- The loop of `mint` over the pairs of a device code and a user code that it draws. -/
def mintLoop (input : MintInput) (createdAt : Int) : List (String × String) → EnrollmentStore × Option MintResult
  | [] => (store, none)
  | (deviceCode, userCode) :: draws =>
    let row := freshRow hash input createdAt deviceCode userCode
    match insertStmt store row with
    | none => mintLoop input createdAt draws
    | some inserted =>
      (inserted, some ⟨deviceCode, userCode, formatUserCode userCode, row.deviceCodeHash, row.expiresAt,
        ENROLLMENT_TTL_MS / 1000, DEFAULT_POLL_INTERVAL_S⟩)

def mint (input : MintInput) (createdAt : Int) (draws : List (String × String)) : EnrollmentStore × Option MintResult :=
  mintLoop hash store input createdAt (draws.take 5)

def lookupByUserCode (userCode : String) (now : Int) : LookupOutcome :=
  match store.rows.find? fun row => row.userCode = userCode with
  | none => .notFound
  | some row =>
    if row.expiresAt < now then .expired
    else
      match row.status with
      | .approved => .alreadyApproved
      | .rejected => .alreadyRejected row.rejectReason
      | .pending => .pending row

def isUndecided (userCode : String) (row : EnrollmentRow) : Bool := row.userCode = userCode && row.status = .pending

def wrapped (iv : Nat) (token : BearerToken) : String :=
  match cipher with
  | none => token.text
  | some cipher => (cipher.encrypt iv token.text).getD token.text

/-- The columns that `approveStmt` sets. -/
def approvedRow (input : ApproveInput) (iv : Nat) (row : EnrollmentRow) : EnrollmentRow :=
  { row with
    status := .approved
    approvedBy := some input.approvedBy
    boundMember := some input.boundMember
    approveArgsJson := some input.approveArgsJson
    issuedTokenId := some input.issuedTokenId
    issuedTokenCiphertext := some (wrapped cipher iv input.issuedTokenPlaintext) }

def rejectedRow (input : RejectInput) (row : EnrollmentRow) : EnrollmentRow :=
  { row with status := .rejected, approvedBy := some input.rejectedBy, rejectReason := input.reason }

def approve (input : ApproveInput) (iv : Nat) : EnrollmentStore × Bool :=
  let undecided := isUndecided input.userCode
  (store.update undecided (approvedRow cipher input iv) fun _ => rfl, 0 < store.changes undecided)

def reject (input : RejectInput) : EnrollmentStore × Bool :=
  let undecided := isUndecided input.userCode
  (store.update undecided (rejectedRow input) fun _ => rfl, 0 < store.changes undecided)

/-- The token that an approved row holds for its device, if its columns are there and open. -/
def deliverable (row : EnrollmentRow) : Except String (Option DeliveredToken) :=
  match row.issuedTokenId, row.issuedTokenCiphertext, row.boundMember with
  | some id, some ciphertext, some member =>
    let plaintext : Except String (Option String) :=
      match cipher with
      | none => .ok (some ciphertext)
      | some cipher => if startsWith ciphertext ENCRYPTED_FIELD_PREFIX then cipher.decrypt ciphertext else .ok (some ciphertext)
    plaintext.map fun opened => opened.map fun text => ⟨text, id, member⟩
  | _, _, _ => .ok none

def deleteByDeviceHashStmt (deviceCodeHash : String) : EnrollmentStore := store.delete fun row => row.deviceCodeHash = deviceCodeHash

def touchPollStmt (now : Int) (deviceCodeHash : String) : EnrollmentStore :=
  store.update (fun row => row.deviceCodeHash = deviceCodeHash) (fun row => { row with lastPolledAt := some now }) fun _ => rfl

def pollByHash (deviceCodeHash : String) (now : Int) : EnrollmentStore × Except String PollOutcome :=
  match store.find deviceCodeHash with
  | none => (store, .ok .expiredToken)
  | some row =>
    let consumed := deleteByDeviceHashStmt store deviceCodeHash
    if row.expiresAt < now then (consumed, .ok .expiredToken)
    else
      match row.status with
      | .rejected => (consumed, .ok (.accessDenied row.rejectReason))
      | .approved =>
        match deliverable cipher row with
        | .error error => (store, .error error)
        | .ok none => (consumed, .ok .expiredToken)
        | .ok (some token) => (consumed, .ok (.approved token))
      | .pending =>
        let tooSoon := row.lastPolledAt.any fun last => now - last < SLOW_DOWN_THRESHOLD_MS
        (touchPollStmt store now deviceCodeHash, .ok (if tooSoon then .slowDown else .authorizationPending))

def pollByDeviceCode (deviceCode : String) (now : Int) : EnrollmentStore × Except String PollOutcome :=
  pollByHash cipher store (hash deviceCode) now

def purgeExpired (now : Int) : EnrollmentStore × Nat :=
  let isExpired : EnrollmentRow → Bool := fun row => row.expiresAt < now
  (store.delete isExpired, store.changes isExpired)

/-- A call at a time of the clock. `approve` and `reject` do not read it; `mint` may insert its row later than it read it. -/
inductive Call where
  | mint (input : MintInput) (createdAt : Int) (draws : List (String × String))
  | approve (input : ApproveInput) (iv : Nat) (now : Int)
  | reject (input : RejectInput) (now : Int)
  | poll (deviceCode : String) (now : Int)
  | purge (now : Int)

inductive Answer where
  | minted (result : Option MintResult)
  | decided (success : Bool)
  | polled (outcome : Except String PollOutcome)
  | purged (changes : Nat)

def apply : Transcript.Machine EnrollmentStore Call Answer
  | store, .mint input createdAt draws =>
    let (after, result) := mint hash store input createdAt draws
    (after, .minted result)
  | store, .approve input iv _ =>
    let (after, success) := approve cipher store input iv
    (after, .decided success)
  | store, .reject input _ =>
    let (after, success) := reject store input
    (after, .decided success)
  | store, .poll deviceCode now =>
    let (after, outcome) := pollByDeviceCode hash cipher store deviceCode now
    (after, .polled outcome)
  | store, .purge now =>
    let (after, changes) := purgeExpired store now
    (after, .purged changes)

end EnrollmentStore

end CommandSuite
