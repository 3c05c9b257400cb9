import CommandSuite.Core.TeamStore.Readable

/-! # Signing in with a code

`packages/core/src/totp.ts` and `POST /session/totp` of `packages/core/src/app.ts`. Nothing waits between the reading of
a member and the write of its counter, so a request is one step. `otpauth` is a parameter, and so is every reading of
the clock.
-/

namespace CommandSuite.SessionTotp

open Library TeamStore

/-! ## Codes -/

def TOTP_PERIOD_SECONDS : Int := 30

def TOTP_WINDOW : Int := 1

def currentCounter (now : Int) : Int := now / (1000 * TOTP_PERIOD_SECONDS)

/-- The library, with the parameters of `totp.ts`. `validate` answers with the offset of a period in the window that the
token is the code of. -/
structure Otpauth where
  fromBase32 : String → Option (List UInt8)
  generate : List UInt8 → Int → String
  validate : String → List UInt8 → Int → Option Int
  validates : ∀ token secret timestamp delta, validate token secret timestamp = some delta →
    -TOTP_WINDOW ≤ delta ∧ delta ≤ TOTP_WINDOW ∧ generate secret (currentCounter timestamp + delta) = token

inductive VerifyResult where
  | ok (counter : Int)
  | malformed
  | invalid
  | replay

def sixDigits (code : String) : Bool := code.length = 6 && code.toList.all Char.isDigit

def verifyCode (otpauth : Otpauth) (secret code : String) (lastCounter now : Int) : VerifyResult :=
  let trimmed := Text.trim code
  if !sixDigits trimmed then .malformed
  else
    match otpauth.fromBase32 secret with
    | none => .malformed
    | some secretObj =>
      match otpauth.validate trimmed secretObj now with
      | none => .invalid
      | some delta =>
        let counter := currentCounter now + delta
        if counter ≤ lastCounter then .replay else .ok counter

/-! ## Lockouts -/

def TOTP_MAX_FAILURES : Nat := 5
def TOTP_LOCKOUT_WINDOW_MS : Int := 15 * 60 * 1000
def TOTP_CODELESS_MAX_FAILURES : Nat := 40
def TOTP_CODELESS_PER_SOURCE_MAX_FAILURES : Nat := 5
def TOTP_LOCKOUT_MAX_BUCKETS : Nat := 10000
def CODELESS_LOCKOUT_KEY : String := "__codeless__"
def CODELESS_SOURCE_LOCKOUT_PREFIX : String := "codeless-src:"

/-- `TotpLockout`, under its key. -/
structure Bucket where
  key : String
  failures : Nat
  firstFailureAt : Int
  deriving DecidableEq

abbrev Lockouts := Table Bucket.key

def maxFailuresFor (key : String) : Nat :=
  if key = CODELESS_LOCKOUT_KEY then TOTP_CODELESS_MAX_FAILURES
  else if Text.startsWith key CODELESS_SOURCE_LOCKOUT_PREFIX then TOTP_CODELESS_PER_SOURCE_MAX_FAILURES
  else TOTP_MAX_FAILURES

def Bucket.live (t : Int) (bucket : Bucket) : Bool := t - bucket.firstFailureAt < TOTP_LOCKOUT_WINDOW_MS

def clearTotpLockout (lockouts : Lockouts) (key : String) : Lockouts := lockouts.delete fun bucket => bucket.key = key

def checkTotpLockout (lockouts : Lockouts) (key : String) (t : Int) : Lockouts × Option Int :=
  match lockouts.find key with
  | none => (lockouts, none)
  | some entry =>
    if !entry.live t then (clearTotpLockout lockouts key, none)
    else if entry.failures ≥ maxFailuresFor key then
      (lockouts, some ((TOTP_LOCKOUT_WINDOW_MS - (t - entry.firstFailureAt) + 999) / 1000))
    else (lockouts, none)

def dropOldest (lockouts : Lockouts) (excess : Nat) : Lockouts :=
  ⟨lockouts.rows.drop excess, lockouts.nodup.sublist ((List.drop_sublist _ _).map Bucket.key)⟩

def pruneTotpLockouts (lockouts : Lockouts) (t : Int) : Lockouts :=
  let fresh := lockouts.delete fun bucket => !bucket.live t
  if fresh.rows.length ≤ TOTP_LOCKOUT_MAX_BUCKETS then fresh
  else dropOldest fresh (fresh.rows.length - TOTP_LOCKOUT_MAX_BUCKETS)

def setBucket (lockouts : Lockouts) (key : String) (t : Int) : Lockouts :=
  (lockouts.insertOrIgnore ⟨key, 1, t⟩).update (fun bucket => bucket.key = key)
    (fun bucket => { bucket with failures := 1, firstFailureAt := t }) fun _ => rfl

def counting (lockouts : Lockouts) (key : String) (t : Int) : Bool := (lockouts.find key).any (Bucket.live t)

def recordTotpFailure (lockouts : Lockouts) (key : String) (t : Int) : Lockouts :=
  if counting lockouts key t then
    lockouts.update (fun bucket => bucket.key = key) (fun bucket => { bucket with failures := bucket.failures + 1 }) fun _ => rfl
  else if lockouts.rows.length ≥ TOTP_LOCKOUT_MAX_BUCKETS then setBucket (pruneTotpLockouts lockouts t) key t
  else setBucket lockouts key t

/-! ## The route -/

/-- A body that passed `TotpLoginRequestSchema`. -/
structure TotpLoginRequest where
  code : String
  member : Option Name
  valid : sixDigits code = true

/-- What `now()` answers where a request calls it, at the verification of each secret in turn. -/
structure Readings where
  checkSource : Int
  check : Int
  verify : Nat → Int
  record : Int
  recordSource : Int

inductive Reply where
  | invalidPayload
  | tooManyAttempts (retryAfter : Int)
  | memberNameRequired (retryAfter : Int)
  | invalidCode
  | session (matched : LoadedMember)
  | failed (error : StoreError)

/-- What a request does besides: the failures it counts, each as the first of its bucket or not, the buckets that it
clears, and the login that it accepts. -/
inductive Note where
  | failure (key : String) (t : Int) (first : Bool)
  | cleared (key : String)
  | accepted (name : Name) (counter : Int)
  | replied (reply : Reply)

structure Server where
  stores : Stores
  lockouts : Lockouts

def TotpLoginRequest.lockoutKey (request : TotpLoginRequest) : String := (request.member.map Name.text).getD CODELESS_LOCKOUT_KEY

/-- `clientSourceKey` is whatever the headers say. -/
def TotpLoginRequest.sourceKey (request : TotpLoginRequest) (clientSourceKey : String) : Option String :=
  if request.member.isNone then some (CODELESS_SOURCE_LOCKOUT_PREFIX ++ clientSourceKey) else none

section Route

variable (otpauth : Otpauth) (cipher : Option FieldCipher)

def candidates (stores : Stores) : Option Name → Except StoreError (List LoadedMember)
  | some name => (findByName cipher stores name).map Option.toList
  | none => members cipher stores

def firstVerified (code : String) (verify : Nat → Int) : List LoadedMember → Nat → Option (LoadedMember × Int)
  | [], _ => none
  | member :: rest, reading =>
    match member.totpSecret.filter fun secret => secret ≠ "" with
    | none => firstVerified code verify rest reading
    | some secret =>
      match verifyCode otpauth secret code member.totpLastCounter (verify reading) with
      | .ok counter => some (member, counter)
      | .malformed | .invalid | .replay => firstVerified code verify rest (reading + 1)

def checkSource (lockouts : Lockouts) (sourceKey : Option String) (t : Int) : Lockouts × Option Int :=
  match sourceKey with
  | some key => checkTotpLockout lockouts key t
  | none => (lockouts, none)

def failures (request : TotpLoginRequest) (clientSourceKey : String) (readings : Readings) : List (String × Int) :=
  (request.lockoutKey, readings.record) :: ((request.sourceKey clientSourceKey).map fun key => (key, readings.recordSource)).toList

def recordFailures (lockouts : Lockouts) : List (String × Int) → Lockouts × List Note
  | [] => (lockouts, [])
  | (key, t) :: rest =>
    let (lockouts', notes) := recordFailures (recordTotpFailure lockouts key t) rest
    (lockouts', .failure key t (!counting lockouts key t) :: notes)

def cleared (request : TotpLoginRequest) (clientSourceKey : String) (matched : Name) : List String :=
  request.lockoutKey :: (request.sourceKey clientSourceKey).toList ++ if request.member.isNone then [matched.text] else []

def lockedReply (request : TotpLoginRequest) (retryAfter : Int) : Reply :=
  if request.member.isNone then .memberNameRequired retryAfter else .tooManyAttempts retryAfter

def authenticate (stores : Stores) (lockouts : Lockouts) (request : TotpLoginRequest) (clientSourceKey : String) (readings : Readings) :
    Server × List Note :=
  match candidates cipher stores request.member with
  | .error error => (⟨stores, lockouts⟩, [.replied (.failed error)])
  | .ok members =>
    match firstVerified otpauth request.code readings.verify members 0 with
    | none =>
      let (lockouts', notes) := recordFailures lockouts (failures request clientSourceKey readings)
      (⟨stores, lockouts'⟩, notes ++ [.replied .invalidCode])
    | some (matched, counter) =>
      match Fallible.run (recordTotpAccept cipher matched.name counter) stores with
      | (.error error, stores') => (⟨stores', lockouts⟩, [.replied (.failed error)])
      | (.ok _, stores') =>
        let keys := cleared request clientSourceKey matched.name
        (⟨stores', keys.foldl clearTotpLockout lockouts⟩,
          .accepted matched.name counter :: keys.map Note.cleared ++ [.replied (.session matched)])

/-- `POST /session/totp`. -/
def login (server : Server) (body : Option TotpLoginRequest) (clientSourceKey : String) (readings : Readings) : Server × List Note :=
  match body with
  | none => (server, [.replied .invalidPayload])
  | some request =>
    match checkSource server.lockouts (request.sourceKey clientSourceKey) readings.checkSource with
    | (lockouts, some retryAfter) => ({ server with lockouts := lockouts }, [.replied (.tooManyAttempts retryAfter)])
    | (lockouts, none) =>
      match checkTotpLockout lockouts request.lockoutKey readings.check with
      | (lockouts, some retryAfter) => ({ server with lockouts := lockouts }, [.replied (lockedReply request retryAfter)])
      | (lockouts, none) => authenticate otpauth cipher server.stores lockouts request clientSourceKey readings

/-- What reaches the server: a login, or a call of the member store from another route. -/
inductive Input where
  | login (body : Option TotpLoginRequest) (clientSourceKey : String) (readings : Readings)
  | store (call : Call)

def serve : Transcript.Machine Server Input (List Note)
  | server, .login body clientSourceKey readings => login otpauth cipher server body clientSourceKey readings
  | server, .store call => ({ server with stores := (Fallible.run (call.program cipher) server.stores).2 }, [])

end Route

end CommandSuite.SessionTotp

/-! ## A code is accepted once

The counter in a member's row is that of the last login that was accepted, and only an enrollment takes it back. So the
counters of a member's logins increase, whichever path they took and whatever the clocks said.
-/

namespace CommandSuite.SessionTotp

open Library Fallible TeamStore

def Input.enrolls (name : Name) : Input → Bool
  | .store (.addMember input _) => input.name = name
  | .store (.setTotpSecret other _ _) => other = name
  | .store _ | .login .. => false

def acceptedOf (name : Name) (notes : List Note) : List Int :=
  notes.filterMap fun note =>
    match note with
    | .accepted other counter => if other = name then some counter else none
    | .failure .. | .cleared _ | .replied _ => none

/-- The code is the one of that period for the secret of the member, whose counter is smaller. -/
def IsCodeOf (otpauth : Otpauth) (cipher : Option FieldCipher) (stores : Stores) (name : Name) (code : String) (counter : Int) : Prop :=
  ∃ row secret secretObj, stores.members.find name = some row ∧ decryptTotpSecret cipher row.totpSecret = .ok (some secret) ∧
    otpauth.fromBase32 secret = some secretObj ∧ otpauth.generate secretObj counter = Text.trim code ∧ row.totpLastCounter < counter

/-! ## Verification -/

section Verification

variable {otpauth : Otpauth} {cipher : Option FieldCipher}

theorem verifyCode_eq_ok {secret code : String} {lastCounter now counter : Int}
    (h : verifyCode otpauth secret code lastCounter now = .ok counter) :
    lastCounter < counter ∧ ∃ secretObj, otpauth.fromBase32 secret = some secretObj ∧ otpauth.generate secretObj counter = Text.trim code := by
  unfold verifyCode at h
  dsimp only at h
  split at h
  · cases h
  · split at h
    · cases h
    · rename_i secretObj hSecret
      split at h
      · cases h
      · rename_i delta hDelta
        split at h
        · cases h
        · rename_i hLater
          cases h
          obtain ⟨-, -, hCode⟩ := otpauth.validates _ _ _ _ hDelta
          exact ⟨not_le.mp hLater, secretObj, hSecret, hCode⟩

variable {members : List LoadedMember} {member : LoadedMember}

theorem firstVerified_eq_some {code : String} {verify : Nat → Int} {reading : Nat}
    {counter : Int} (h : firstVerified otpauth code verify members reading = some (member, counter)) :
    member ∈ members ∧ ∃ secret now, member.totpSecret = some secret ∧
      verifyCode otpauth secret code member.totpLastCounter now = .ok counter := by
  induction members generalizing reading with
  | nil => cases h
  | cons first rest ih =>
    have hLater : ∀ {reading}, firstVerified otpauth code verify rest reading = some (member, counter) → member ∈ first :: rest ∧
        ∃ secret now, member.totpSecret = some secret ∧ verifyCode otpauth secret code member.totpLastCounter now = .ok counter :=
      fun h => ⟨List.mem_cons_of_mem _ (ih h).1, (ih h).2⟩
    unfold firstVerified at h
    split at h
    · exact hLater h
    · rename_i secret hSecret
      split at h
      · rename_i hVerified
        cases h
        exact ⟨List.mem_cons_self, secret, _, (Option.filter_eq_some_iff.mp hSecret).1, hVerified⟩
      all_goals exact hLater h

theorem exists_row_of_candidates {stores : Stores} {target : Option Name}
    (h : candidates cipher stores target = .ok members) (hMember : member ∈ members) :
    ∃ row, stores.members.find member.name = some row ∧ member.totpLastCounter = row.totpLastCounter ∧
      decryptTotpSecret cipher row.totpSecret = .ok member.totpSecret := by
  have hRow : ∃ row ∈ stores.members.rows, rowToLoaded cipher stores.presets row = .ok member := by
    cases target with
    | none => exact exists_mem_of_mapM_eq_ok h member hMember
    | some name =>
      simp only [candidates, findByName] at h
      cases hFind : stores.members.find name with
      | none =>
        rw [hFind] at h
        cases h
        cases hMember
      | some row =>
        rw [hFind] at h
        dsimp only at h
        cases hLoaded : rowToLoaded cipher stores.presets row with
        | error error =>
          rw [hLoaded] at h
          cases h
        | ok loaded =>
          rw [hLoaded] at h
          cases h
          obtain rfl := List.mem_singleton.mp hMember
          exact ⟨row, Table.mem_of_find hFind, hLoaded⟩
  obtain ⟨row, hRow, hLoaded⟩ := hRow
  obtain ⟨permissions, secret, -, hSecret, rfl⟩ := rowToLoaded_eq_ok_iff.mp hLoaded
  exact ⟨row, Table.find_key hRow, rfl, hSecret⟩

end Verification

/-! ## Enrollments -/

/-- The member is enrolled as before, if it is there, and its counter is no smaller. -/
def SameEnrollment (name : Name) (before after : Stores) : Prop :=
  ∀ row, after.members.find name = some row → ∃ old, before.members.find name = some old ∧ old.totpLastCounter ≤ row.totpLastCounter

instance (name : Name) : Std.Refl (SameEnrollment name) := ⟨fun _ row hRow => ⟨row, hRow, le_refl _⟩⟩

instance (name : Name) : IsTrans Stores (SameEnrollment name) := by
  refine ⟨fun first second third hFirst hSecond row hRow => ?_⟩
  obtain ⟨later, hLater, hLe⟩ := hSecond row hRow
  obtain ⟨old, hOld, hLe'⟩ := hFirst later hLater
  exact ⟨old, hOld, hLe'.trans hLe⟩

section Enrollments

variable {cipher : Option FieldCipher} {name : Name} {stores : Stores}

theorem keeps_readBack_any {K : Stores → Stores → Prop} [Std.Refl K] (other : Name) (message : String) :
    Keeps K (readBack cipher other message) stores fun _ _ => True := by
  have hRead : Keeps K (readBack cipher other message) stores fun _ => Read cipher other := keeps_readBack message
  exact hRead.mono (fun _ hK => hK) fun _ _ _ _ => trivial

theorem keeps_writeMembers_of {f : Table StoredMember.key → Table StoredMember.key} (h : SameEnrollment name stores { stores with members := f stores.members }) :
    Keeps (SameEnrollment name) (writeMembers f) stores fun _ _ => True :=
  keeps_update h trivial

theorem sameEnrollment_update {p : StoredMember → Bool} {f : StoredMember → StoredMember} {keeps : ∀ row, (f row).name = row.name}
    (h : ∀ row, row.name = name → p row = true → row.totpLastCounter ≤ (f row).totpLastCounter) :
    SameEnrollment name stores { stores with members := stores.members.update p f keeps } := by
  intro row hRow
  rw [Table.find_update] at hRow
  obtain ⟨old, hOld, rfl⟩ := Option.map_eq_some_iff.mp hRow
  refine ⟨old, hOld, ?_⟩
  split
  · rename_i hUpdated
    exact h old ((Table.find_eq_some_iff stores.members name old).mp hOld).2 hUpdated
  · exact le_refl _

theorem keeps_addMember_of_ne (input : AddMemberInput) (iv : Nat) (h : input.name ≠ name) :
    Keeps (SameEnrollment name) (addMember cipher input iv) stores fun _ _ => True := by
  refine keeps_fromExcept_bind _ fun _ _ => (keeps_checkSecret input.totpSecret).bind fun _ _ _ _ => ?_
  rw [keeps_reads_bind]
  refine keeps_require_bind _ fun _ => ?_
  rw [keeps_reads_bind]
  refine keeps_fromExcept_bind _ fun _ _ => (keeps_writeMembers_of fun row hRow => ?_).bind fun _ _ _ _ =>
    keeps_readBack_any _ _
  rw [Table.find_insertOrIgnore, if_neg h, Option.or_none] at hRow
  exact ⟨row, hRow, le_refl _⟩

theorem keeps_updateMember_same (other : Name) (patch : Members.UpdateMemberPatch) :
    Keeps (SameEnrollment name) (updateMember cipher other patch) stores fun _ _ => True := by
  have hWrites : ∀ stores', Keeps (SameEnrollment name) (do
      writeMembers fun members => members.update (fun row => row.name = other)
        (fun row => { row with toMemberRow := patch.apply row.toMemberRow }) fun _ => rfl
      readBack cipher other s!"updateMember: row vanished mid-update (name='{other.text}')") stores' fun _ _ => True :=
    fun stores' => by
      refine (keeps_writeMembers_of ?_).bind fun _ _ _ _ =>
        keeps_readBack_any _ _
      exact sameEnrollment_update fun _ _ _ => le_refl _
  refine keeps_requireMember.bind fun _ stores' _ _ => ?_
  cases hRaw : patch.rawPermissions with
  | none => exact hWrites stores'
  | some raw =>
    refine keeps_fromExcept_bind _ fun _ _ => ?_
    dsimp only
    rw [keeps_reads_bind]
    exact keeps_fromExcept_bind _ fun _ _ => hWrites stores'

theorem keeps_setTotpSecret_of_ne {other : Name} (secret : Option String) (iv : Nat) (h : other ≠ name) :
    Keeps (SameEnrollment name) (setTotpSecret cipher other secret iv) stores fun _ _ => True := by
  refine keeps_requireMember.bind fun _ _ _ _ => (keeps_checkSecret secret).bind fun _ _ _ _ => ?_
  refine (keeps_writeMembers_of (sameEnrollment_update fun row hName hOther => ?_)).bind fun _ _ _ _ =>
    keeps_readBack_any _ _
  exact absurd ((of_decide_eq_true hOther).symm.trans hName) h

theorem keeps_removeMember_same (other : Name) : Keeps (SameEnrollment name) (removeMember other) stores fun _ _ => True := by
  refine keeps_requireMember.bind fun _ stores' _ _ => keeps_writeMembers_of fun row hRow => ?_
  rw [Table.find_delete] at hRow
  exact ⟨row, (Option.filter_eq_some_iff.mp hRow).1, le_refl _⟩

theorem run_recordTotpAccept (cipher : Option FieldCipher) (stores : Stores) (other : Name) (counter : Int) : (run (recordTotpAccept cipher other counter) stores).2 =
    { stores with members := bumpTotpCounter other counter stores.members } := by
  have hEnds : Ends (recordTotpAccept cipher other counter) stores fun _ stores' =>
      stores' = { stores with members := bumpTotpCounter other counter stores.members } := by
    unfold recordTotpAccept writeMembers
    rw [ends_update_bind, ends_reads_bind, ends_fromExcept]
  exact (ends_iff_run _).mp hEnds

theorem sameEnrollment_recordTotpAccept (other : Name) (counter : Int) :
    SameEnrollment name stores (run (recordTotpAccept cipher other counter) stores).2 := by
  rw [run_recordTotpAccept]
  exact sameEnrollment_update fun row _ hLater => le_of_lt (of_decide_eq_true (Bool.and_eq_true_iff.mp hLater).2)

theorem sameEnrollment_call {call : Call} (h : (Input.store call).enrolls name = false) :
    SameEnrollment name stores (run (call.program cipher) stores).2 := by
  have hKeeps : ∀ program : StoresM Unit, Keeps (SameEnrollment name) program stores (fun _ _ => True) →
      SameEnrollment name stores (run program stores).2 := fun program hProgram => ((ends_iff_run program).mp hProgram).1
  cases call with
  | addMember input iv =>
    exact hKeeps _ ((keeps_addMember_of_ne input iv (of_decide_eq_false h)).bind fun _ _ _ _ => keeps_pure trivial)
  | updateMember other patch => exact hKeeps _ ((keeps_updateMember_same other patch).bind fun _ _ _ _ => keeps_pure trivial)
  | removeMember other => exact hKeeps _ (keeps_removeMember_same other)
  | setTotpSecret other secret iv =>
    exact hKeeps _ ((keeps_setTotpSecret_of_ne secret iv (of_decide_eq_false h)).bind fun _ _ _ _ => keeps_pure trivial)
  | recordTotpAccept other counter =>
    have hEnds : Ends (recordTotpAccept cipher other counter) stores fun _ stores' => SameEnrollment name stores stores' :=
      (ends_iff_run _).mpr (sameEnrollment_recordTotpAccept other counter)
    exact hKeeps _ (Keeps.bind (M := fun _ _ => True) (hEnds.imp fun _ _ hSame => ⟨hSame, fun _ _ => trivial⟩)
      fun _ _ _ _ => keeps_pure trivial)
  | setPreset other permissions => exact hKeeps _ (keeps_fromExcept_bind _ fun _ _ => keeps_update (fun row hRow => ⟨row, hRow, le_refl _⟩) trivial)
  | deletePreset other =>
    refine hKeeps _ ?_
    have hDelete : Keeps (SameEnrollment name) (deletePreset other) stores fun _ _ => True := by
      unfold deletePreset
      rw [keeps_reads_bind]
      exact Keeps.bind (M := fun _ _ => True) (keeps_update (fun row hRow => ⟨row, hRow, le_refl _⟩) trivial) fun _ _ _ _ => keeps_pure trivial
    exact hDelete.bind fun _ _ _ _ => keeps_pure trivial

end Enrollments

/-! ## Logins -/

section Logins

variable {otpauth : Otpauth} {cipher : Option FieldCipher} {server : Server} {name : Name}

theorem acceptedOf_append (name : Name) (first second : List Note) :
    acceptedOf name (first ++ second) = acceptedOf name first ++ acceptedOf name second := List.filterMap_append

theorem acceptedOf_recordFailures (name : Name) (lockouts : Lockouts) (keys : List (String × Int)) :
    acceptedOf name (recordFailures lockouts keys).2 = [] := by
  induction keys generalizing lockouts with
  | nil => rfl
  | cons first rest ih => exact ih _

structure Accepts (otpauth : Otpauth) (cipher : Option FieldCipher) (server after : Server) (request : TotpLoginRequest)
    (matched : LoadedMember) (counter : Int) : Prop where
  candidate : ∃ members, candidates cipher server.stores request.member = .ok members ∧ matched ∈ members
  verified : ∃ secret now, matched.totpSecret = some secret ∧
    verifyCode otpauth secret request.code matched.totpLastCounter now = .ok counter
  stores : after.stores = { server.stores with members := bumpTotpCounter matched.name counter server.stores.members }

theorem login_cases (otpauth : Otpauth) (cipher : Option FieldCipher) (server : Server) (body : Option TotpLoginRequest) (clientSourceKey : String) (readings : Readings) :
    ((login otpauth cipher server body clientSourceKey readings).1.stores = server.stores ∧
        ∀ name, acceptedOf name (login otpauth cipher server body clientSourceKey readings).2 = []) ∨
      ∃ request matched counter, body = some request ∧
        Accepts otpauth cipher server (login otpauth cipher server body clientSourceKey readings).1 request matched counter ∧
        ((∀ name, acceptedOf name (login otpauth cipher server body clientSourceKey readings).2 = []) ∨
          ∀ name, acceptedOf name (login otpauth cipher server body clientSourceKey readings).2 =
            if matched.name = name then [counter] else []) := by
  cases body with
  | none => exact .inl ⟨rfl, fun _ => rfl⟩
  | some request =>
    unfold login
    dsimp only
    split
    · exact .inl ⟨rfl, fun _ => rfl⟩
    · split
      · exact .inl ⟨rfl, fun _ => rfl⟩
      · rename_i lockouts _
        unfold authenticate
        split
        · exact .inl ⟨rfl, fun _ => rfl⟩
        · rename_i members hMembers
          split
          · refine .inl ⟨rfl, fun name => ?_⟩
            dsimp only
            rw [acceptedOf_append, acceptedOf_recordFailures]
            rfl
          · rename_i matched counter hVerified
            obtain ⟨hMatched, hVerify⟩ := firstVerified_eq_some hVerified
            have hStores := run_recordTotpAccept cipher server.stores matched.name counter
            refine .inr ⟨request, matched, counter, rfl, ?_⟩
            split
            · rename_i error stores' hRun
              rw [hRun] at hStores
              exact ⟨⟨⟨members, hMembers, hMatched⟩, hVerify, hStores⟩, .inl fun _ => rfl⟩
            · rename_i stores' hRun
              rw [hRun] at hStores
              refine ⟨⟨⟨members, hMembers, hMatched⟩, hVerify, hStores⟩, .inr fun name => ?_⟩
              dsimp only
              by_cases hName : matched.name = name <;> simp [acceptedOf, hName]

variable {after : Server}

theorem Accepts.exists_row {request : TotpLoginRequest} {matched : LoadedMember} {counter : Int}
    (h : Accepts otpauth cipher server after request matched counter) :
    ∃ row, server.stores.members.find matched.name = some row ∧ row.totpLastCounter < counter ∧
      after.stores.members.find matched.name = some { row with totpLastCounter := counter } ∧
      IsCodeOf otpauth cipher server.stores matched.name request.code counter := by
  obtain ⟨members, hMembers, hMatched⟩ := h.candidate
  obtain ⟨secret, now, hSecret, hVerified⟩ := h.verified
  obtain ⟨hLater, secretObj, hBase32, hCode⟩ := verifyCode_eq_ok hVerified
  obtain ⟨row, hFind, hCounter, hDecrypted⟩ := exists_row_of_candidates hMembers hMatched
  rw [hCounter] at hLater
  rw [hSecret] at hDecrypted
  have hName : row.name = matched.name := ((Table.find_eq_some_iff server.stores.members matched.name row).mp hFind).2
  refine ⟨row, hFind, hLater, ?_, row, secret, secretObj, hFind, hDecrypted, hBase32, hCode, hLater⟩
  rw [h.stores]
  dsimp only
  unfold bumpTotpCounter
  rw [Table.find_update, hFind, Option.map_some, if_pos (by simp [hName, hLater])]

/-! ## Runs -/

structure Increasing (name : Name) (server : Server) (past : List Note) : Prop where
  pairwise : (acceptedOf name past).Pairwise (· < ·)
  bounded : ∀ counter ∈ acceptedOf name past, ∀ row, server.stores.members.find name = some row → counter ≤ row.totpLastCounter

theorem Increasing.of_sameEnrollment {past notes : List Note} (h : Increasing name server past)
    (hSame : SameEnrollment name server.stores after.stores) (hNotes : acceptedOf name notes = []) :
    Increasing name after (past ++ notes) := by
  have hPast : acceptedOf name (past ++ notes) = acceptedOf name past := by rw [acceptedOf_append, hNotes, List.append_nil]
  refine ⟨hPast ▸ h.pairwise, fun counter hCounter row hRow => ?_⟩
  rw [hPast] at hCounter
  obtain ⟨old, hOld, hLe⟩ := hSame row hRow
  exact (h.bounded counter hCounter old hOld).trans hLe

theorem increasing_serve (input : Input) (past : List Note) (hInput : input.enrolls name = false) (h : Increasing name server past) :
    Increasing name (serve otpauth cipher server input).1 (past ++ (serve otpauth cipher server input).2) := by
  cases input with
  | store call => exact h.of_sameEnrollment (sameEnrollment_call hInput) rfl
  | login body clientSourceKey readings =>
    obtain ⟨hStores, hNone⟩ | ⟨request, matched, counter, -, hAccepts, hNotes⟩ :=
      login_cases otpauth cipher server body clientSourceKey readings
    · have hSame : SameEnrollment name server.stores (serve otpauth cipher server (.login body clientSourceKey readings)).1.stores := by
        change SameEnrollment name server.stores (login otpauth cipher server body clientSourceKey readings).1.stores
        rw [hStores]
        exact Std.Refl.refl _
      exact h.of_sameEnrollment hSame (hNone name)
    · have hSame : SameEnrollment name server.stores (serve otpauth cipher server (.login body clientSourceKey readings)).1.stores := by
        have hAfter := hAccepts.stores
        rw [← run_recordTotpAccept cipher] at hAfter
        change SameEnrollment name server.stores (login otpauth cipher server body clientSourceKey readings).1.stores
        rw [hAfter]
        exact sameEnrollment_recordTotpAccept _ _
      obtain hNone | hOne := hNotes
      · exact h.of_sameEnrollment hSame (hNone name)
      · by_cases hName : matched.name = name
        · obtain ⟨row, hFind, hLater, hAfter, -⟩ := hAccepts.exists_row
          rw [hName] at hFind hAfter
          have hPast : acceptedOf name (past ++ (serve otpauth cipher server (.login body clientSourceKey readings)).2) =
              acceptedOf name past ++ [counter] := by
            rw [acceptedOf_append]
            exact congrArg (acceptedOf name past ++ ·) ((hOne name).trans (if_pos hName))
          refine ⟨?_, fun used hUsed row' hRow' => ?_⟩
          · rw [hPast, List.pairwise_append]
            refine ⟨h.pairwise, List.pairwise_singleton _ _, fun used hUsed later hNew => ?_⟩
            rw [List.mem_singleton.mp hNew]
            exact (h.bounded used hUsed row hFind).trans_lt hLater
          · obtain rfl := Option.some.inj (hRow'.symm.trans hAfter)
            rw [hPast, List.mem_append, List.mem_singleton] at hUsed
            obtain hUsed | rfl := hUsed
            · exact (h.bounded used hUsed row hFind).trans hLater.le
            · exact le_refl _
        · exact h.of_sameEnrollment hSame ((hOne name).trans (if_neg hName))

/-- Until a member is enrolled anew, the counters of its logins increase, and its codes are of the periods they count. -/
theorem counters_increase (otpauth : Otpauth) (cipher : Option FieldCipher) (server : Server) (name : Name) {inputs : List Input}
    (h : ∀ input ∈ inputs, input.enrolls name = false) :
    (acceptedOf name ((Transcript.run (serve otpauth cipher) server inputs).flatMap Step.output)).Pairwise (· < ·) ∧
      ∀ step ∈ Transcript.run (serve otpauth cipher) server inputs, ∀ counter ∈ acceptedOf name step.output,
        ∃ request clientSourceKey readings, step.input = .login (some request) clientSourceKey readings ∧
          IsCodeOf otpauth cipher step.before.stores name request.code counter := by
  constructor
  · have hStart : Increasing name server [] := ⟨List.Pairwise.nil, nofun⟩
    exact (Transcript.final_history_of (fun _ past input hInput hBefore => increasing_serve input past hInput hBefore) hStart h).pairwise
  · intro step hStep counter hCounter
    obtain ⟨-, hServe⟩ := Transcript.run_invariant (P := fun _ => True) (fun _ _ _ => trivial) trivial hStep
    rw [hServe] at hCounter
    cases hInput : step.input with
    | store call =>
      rw [hInput] at hCounter
      cases hCounter
    | login body clientSourceKey readings =>
      rw [hInput] at hCounter
      change counter ∈ acceptedOf name (login otpauth cipher step.before body clientSourceKey readings).2 at hCounter
      obtain ⟨-, hNone⟩ | ⟨request, matched, found, rfl, hAccepts, hNone | hOne⟩ :=
        login_cases otpauth cipher step.before body clientSourceKey readings
      · rw [hNone] at hCounter
        cases hCounter
      · rw [hNone] at hCounter
        cases hCounter
      · rw [hOne] at hCounter
        split at hCounter
        · rename_i hName
          obtain rfl := List.mem_singleton.mp hCounter
          obtain ⟨row, -, -, -, hCode⟩ := hAccepts.exists_row
          exact ⟨request, clientSourceKey, readings, rfl, hName ▸ hCode⟩
        · cases hCounter

end Logins

/-! The secret that the HOTP standard publishes codes for: each is used once, on whichever path it comes. -/

def publishedSecret : String := "GEZDGNBVGY3TQOJQGEZDGNBVGY3TQOJQ"

def publishedKey : List UInt8 := [49, 50, 51, 52, 53, 54, 55, 56, 57, 48, 49, 50, 51, 52, 53, 54, 55, 56, 57, 48]

def publishedCode (key : List UInt8) (counter : Int) : String :=
  if key = publishedKey ∧ 0 ≤ counter then ["755224", "287082", "359152", "969429", "338314"].getD counter.toNat "" else ""

def publishedOtpauth : Otpauth where
  fromBase32 := fun text => if text = publishedSecret then some publishedKey else none
  generate := publishedCode
  validate := fun token key timestamp => [0, 1, -1].find? fun delta => publishedCode key (currentCounter timestamp + delta) = token
  validates := by
    intro token key timestamp delta h
    have hCode : publishedCode key (currentCounter timestamp + delta) = token := by simpa using List.find?_some h
    have hWindow := List.mem_of_find?_eq_some h
    simp only [List.mem_cons, List.not_mem_nil, or_false] at hWindow
    refine ⟨?_, ?_, hCode⟩ <;> unfold TOTP_WINDOW <;> omega

def enrolled : StoredMember := ⟨⟨ada, ⟨"Operator", "", (by decide : 1 ≤ 8 ∧ 8 ≤ 64)⟩, "", []⟩, some publishedSecret, 0⟩

def oneEnrolled : Server := ⟨⟨.empty, ⟨[enrolled], by decide⟩⟩, .empty⟩

def attempt (member : Option Name) (code : String) (valid : sixDigits code = true) (t : Int) : Input :=
  .login (some ⟨code, member, valid⟩) "unknown" ⟨t, t, fun _ => t, t, t⟩

def threeAttempts : List Input :=
  [attempt (some ada) "287082" (by decide) 59000, attempt none "287082" (by decide) 59500, attempt none "359152" (by decide) 61000]

theorem counters_threeAttempts :
    let notes := (Transcript.run (serve publishedOtpauth none) oneEnrolled threeAttempts).flatMap Step.output
    acceptedOf ada notes = [1, 2] ∧ (acceptedOf ada notes).Pairwise (· < ·) := by
  have hNone : ∀ input ∈ threeAttempts, input.enrolls ada = false := by simp [threeAttempts, attempt, Input.enrolls]
  exact ⟨rfl, (counters_increase publishedOtpauth none oneEnrolled ada hNone).1⟩

end CommandSuite.SessionTotp
