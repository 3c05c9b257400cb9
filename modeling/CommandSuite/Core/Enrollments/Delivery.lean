import CommandSuite.Core.Enrollments

/-! # One enrollment from its mint on

The row of an enrollment goes through four phases, and every call moves it along them or leaves it.
-/

namespace CommandSuite.EnrollmentStore

open Library Transcript Table

/-! ## Phases -/

/-- What a call says about an enrollment: a decision that took, or the answer of a poll. -/
inductive Event where
  | waits
  | approves (token : DeliveredToken)
  | rejects
  | delivers (token : DeliveredToken)
  | denies
  | expires
  deriving DecidableEq

namespace Event

def isDecision : Event → Bool
  | .approves _ | .rejects => true
  | _ => false

def isDelivery : Event → Bool
  | .delivers _ => true
  | _ => false

def isFinal : Event → Bool
  | .delivers _ | .denies | .expires => true
  | _ => false

end Event

inductive Phase where
  | pending
  | approved (token : Option DeliveredToken)
  | rejected
  | gone

inductive Moves : Phase → Event → Phase → Prop where
  | waits : Moves .pending .waits .pending
  | approves (token : DeliveredToken) : Moves .pending (.approves token) (.approved (some token))
  | rejects : Moves .pending .rejects .rejected
  | delivers (token : DeliveredToken) : Moves (.approved (some token)) (.delivers token) .gone
  | denies : Moves .rejected .denies .gone
  | expires (p : Phase) : Moves p .expires .gone

inductive Path : Phase → List Event → Phase → Prop where
  | nil (p : Phase) : Path p [] p
  | lost {p q : Phase} {events : List Event} : Path .gone events q → Path p events q
  | step {p r q : Phase} {event : Event} {events : List Event} : Moves p event r → Path r events q → Path p (event :: events) q

def Ahead : Phase → Event → Prop
  | .pending, _ => True
  | .approved token, event => event = .expires ∨ ∃ held, token = some held ∧ event = .delivers held
  | .rejected, event => event = .expires ∨ event = .denies
  | .gone, event => event = .expires

section Paths

variable {p q : Phase} {event : Event} {events : List Event}

theorem Moves.ahead (h : Moves p event q) : Ahead p event := by
  cases h with
  | waits => trivial
  | approves token => trivial
  | rejects => trivial
  | delivers token => exact .inr ⟨token, rfl, rfl⟩
  | denies => exact .inr rfl
  | expires p => cases p <;> simp [Ahead]

theorem ahead_of_gone {later : Event} (h : Ahead .gone later) (p : Phase) : Ahead p later := by
  cases p <;> simp_all [Ahead]

theorem Moves.ahead_of_ahead (h : Moves p event q) {later : Event} (hLater : Ahead q later) : Ahead p later := by
  cases h with
  | waits => trivial
  | approves token => trivial
  | rejects => trivial
  | delivers token => exact ahead_of_gone hLater _
  | denies => exact ahead_of_gone hLater _
  | expires p => exact ahead_of_gone hLater p

theorem Path.ahead (h : Path p events q) : ∀ event ∈ events, Ahead p event := by
  induction h with
  | nil p => simp
  | lost _ ih => exact fun event hEvent => ahead_of_gone (ih event hEvent) _
  | step hMoves _ ih =>
    exact List.forall_mem_cons.mpr ⟨hMoves.ahead, fun event hEvent => hMoves.ahead_of_ahead (ih event hEvent)⟩

theorem Path.split {before after : List Event} (h : Path p (before ++ event :: after) q) :
    ∃ r r', Path p before r ∧ Moves r event r' ∧ Path r' after q := by
  generalize hEvents : before ++ event :: after = events at h
  induction h generalizing before with
  | nil p => simp at hEvents
  | lost _ ih =>
    obtain ⟨r, r', hBefore, hRest⟩ := ih hEvents
    exact ⟨r, r', .lost hBefore, hRest⟩
  | @step p r q head events hMoves hPath ih =>
    cases before with
    | nil =>
      obtain ⟨rfl, rfl⟩ := List.cons.inj hEvents
      exact ⟨p, r, .nil p, hMoves, hPath⟩
    | cons first before =>
      obtain ⟨rfl, hRest⟩ := List.cons.inj hEvents
      obtain ⟨s, s', hBefore, hRest⟩ := ih hRest
      exact ⟨s, s', .step hMoves hBefore, hRest⟩

theorem Path.approves_mem {token : DeliveredToken} (h : Path p events (.approved (some token))) (hStart : p ≠ .approved (some token)) :
    .approves token ∈ events := by
  generalize hEnd : Phase.approved (some token) = q at h
  induction h with
  | nil p => exact absurd hEnd.symm hStart
  | lost _ ih => exact ih nofun hEnd
  | @step p r q event events hMoves _ ih =>
    by_cases hNext : r = .approved (some token)
    · subst hNext
      cases hMoves
      exact List.mem_cons_self
    · exact List.mem_cons_of_mem _ (ih hNext hEnd)

end Paths

structure DeliversOnce (events : List Event) : Prop where
  decided : events.countP Event.isDecision ≤ 1
  delivered : events.countP Event.isDelivery ≤ 1
  approved : ∀ before token after, events = before ++ .delivers token :: after → .approves token ∈ before
  final : ∀ before event after, events = before ++ event :: after → event.isFinal → ∀ later ∈ after, later = .expires
  exclusive : ∀ token, .delivers token ∈ events → .denies ∉ events

theorem countP_le_one_of_split {α : Type} {accepts : α → Bool} {items : List α}
    (h : ∀ before item after, items = before ++ item :: after → accepts item = true → ∀ later ∈ after, accepts later = false) :
    items.countP accepts ≤ 1 := by
  induction items with
  | nil => simp
  | cons item items ih =>
    by_cases hItem : accepts item = true
    · have hNone : items.countP accepts = 0 := by
        rw [List.countP_eq_zero]
        intro later hLater
        rw [h [] item items rfl hItem later hLater]
        exact Bool.false_ne_true
      rw [List.countP_cons_of_pos hItem, hNone]
    · rw [List.countP_cons_of_neg hItem]
      exact ih fun before other after hItems => h (item :: before) other after (congrArg (item :: ·) hItems)

theorem Moves.gone_of_isFinal {p q : Phase} {event : Event} (h : Moves p event q) (hFinal : event.isFinal = true) : q = .gone := by
  cases h <;> first | rfl | cases hFinal

theorem Moves.not_isDecision_of_ahead {p q : Phase} {event later : Event} (h : Moves p event q) (hDecision : event.isDecision = true)
    (hLater : Ahead q later) : later.isDecision = false := by
  cases h with
  | approves token =>
    obtain rfl | ⟨held, _, rfl⟩ := hLater
    · rfl
    · rfl
  | rejects =>
    obtain rfl | rfl := hLater
    · rfl
    · rfl
  | waits => cases hDecision
  | delivers token => cases hDecision
  | denies => cases hDecision
  | expires p => cases hDecision

theorem Path.deliversOnce {events : List Event} {q : Phase} (h : Path .pending events q) : DeliversOnce events := by
  have hFinal : ∀ before event after, events = before ++ event :: after → event.isFinal → ∀ later ∈ after, later = .expires := by
    rintro before event after rfl hFinal later hLater
    obtain ⟨r, r', _, hMoves, hAfter⟩ := h.split
    obtain rfl := hMoves.gone_of_isFinal hFinal
    exact hAfter.ahead later hLater
  refine ⟨countP_le_one_of_split ?_, countP_le_one_of_split ?_, ?_, hFinal, ?_⟩
  · rintro before event after rfl hDecision later hLater
    obtain ⟨r, r', _, hMoves, hAfter⟩ := h.split
    exact hMoves.not_isDecision_of_ahead hDecision (hAfter.ahead later hLater)
  · intro before event after hEvents hDelivery later hLater
    have hIsFinal : event.isFinal = true := by
      cases event <;> first | rfl | cases hDelivery
    rw [hFinal before event after hEvents hIsFinal later hLater]
    rfl
  · rintro before token after rfl
    obtain ⟨r, r', hBefore, hMoves, _⟩ := h.split
    cases hMoves
    exact hBefore.approves_mem nofun
  · intro token hDelivers hDenies
    obtain ⟨before, after, hEvents⟩ := List.append_of_mem hDelivers
    rw [hEvents] at hDenies
    obtain hEarlier | hLater := List.mem_append.mp hDenies
    · obtain ⟨first, second, hBefore⟩ := List.append_of_mem hEarlier
      have hAll := hFinal first .denies (second ++ .delivers token :: after) (by rw [hEvents, hBefore]; simp) rfl
      cases hAll (.delivers token) (by simp)
    · obtain hSame | hLater := List.mem_cons.mp hLater
      · cases hSame
      · cases hFinal before (.delivers token) after hEvents rfl .denies hLater

/-! ## What the store says -/

variable (hash : String → String) (cipher : Option FieldCipher)

def phase : Option EnrollmentRow → Phase
  | none => .gone
  | some row =>
    match row.status with
    | .pending => .pending
    | .approved => .approved ((deliverable cipher row).toOption.join)
    | .rejected => .rejected

def ofOutcome : PollOutcome → Event
  | .authorizationPending | .slowDown => .waits
  | .expiredToken => .expires
  | .accessDenied _ => .denies
  | .approved token => .delivers token

def approvedToken (input : ApproveInput) : DeliveredToken :=
  ⟨input.issuedTokenPlaintext.text, input.issuedTokenId, input.boundMember⟩

/-- What a step says about the enrollment of this device code. A decision is about the row it was taken on. -/
def event (deviceCodeHash : String) (step : Step EnrollmentStore Call Answer) : Option Event :=
  let decides (userCode : String) : Bool := (step.before.find deviceCodeHash).any (isUndecided userCode)
  match step.input, step.output with
  | .approve input _ _, .decided success =>
    if success && decides input.userCode then some (.approves (approvedToken input)) else none
  | .reject input _, .decided success => if success && decides input.userCode then some .rejects else none
  | .poll deviceCode _, .polled outcome => if hash deviceCode = deviceCodeHash then outcome.toOption.map ofOutcome else none
  | _, _ => none

def mints (deviceCodeHash : String) (step : Step EnrollmentStore Call Answer) : Bool :=
  match step.output with
  | .minted (some result) => result.deviceCodeHash = deviceCodeHash
  | _ => false

/-- Everything that is said about an enrollment, until its device code is drawn once more. -/
def events (deviceCodeHash : String) (steps : List (Step EnrollmentStore Call Answer)) : List Event :=
  (steps.takeWhile fun step => !mints deviceCodeHash step).filterMap (event hash deviceCodeHash)

/-- A step that says nothing about an enrollment leaves its phase or loses it. -/
def Follows (before : Phase) (event : Option Event) (after : Phase) : Prop :=
  match event with
  | none => after = before ∨ after = .gone
  | some event => Moves before event after

theorem Path.of_follows {p r q : Phase} {said : Option Event} {later : List Event} (h : Follows p said r) (hPath : Path r later q) :
    Path p (said.toList ++ later) q := by
  cases said with
  | none =>
    obtain rfl | rfl := h
    · exact hPath
    · exact .lost hPath
  | some said => exact .step h hPath

section Steps

variable {store : EnrollmentStore} {deviceCodeHash : String}

theorem mintLoop_cases (store : EnrollmentStore) (input : MintInput) (createdAt : Int) (draws : List (String × String)) :
    mintLoop hash store input createdAt draws = (store, none) ∨
      ∃ row result, mintLoop hash store input createdAt draws = (store.insertOrIgnore row, some result) ∧
        store.find row.deviceCodeHash = none ∧ row.deviceCodeHash = result.deviceCodeHash ∧ row.status = .pending := by
  induction draws with
  | nil => exact .inl rfl
  | cons draw draws ih =>
    obtain ⟨deviceCode, userCode⟩ := draw
    simp only [mintLoop, insertStmt]
    split
    · rename_i hNone
      split at hNone
      · exact ih
      · cases hNone
    · rename_i inserted hSome
      split at hSome
      · cases hSome
      · rename_i hFresh
        cases hSome
        refine .inr ⟨_, _, rfl, ?_, rfl, rfl⟩
        simp only [Bool.or_eq_true, not_or, Option.not_isSome_iff_eq_none] at hFresh
        exact hFresh.1

theorem find_mint_of_ne (store : EnrollmentStore) (input : MintInput) (createdAt : Int) (draws : List (String × String))
    (h : ∀ result, (mint hash store input createdAt draws).2 = some result → result.deviceCodeHash ≠ deviceCodeHash) :
    (mint hash store input createdAt draws).1.find deviceCodeHash = store.find deviceCodeHash := by
  unfold mint at h ⊢
  obtain hNone | ⟨row, result, hSome, _, hHash, _⟩ := mintLoop_cases hash store input createdAt (draws.take 5)
  · rw [hNone]
  · rw [hSome] at h ⊢
    rw [find_insertOrIgnore, if_neg (hHash ▸ h result rfl), Option.or_none]

theorem startsWith_bearerToken (token : BearerToken) : Text.startsWith token.text ENCRYPTED_FIELD_PREFIX = false := by
  rw [Bool.eq_false_iff]
  intro h
  rw [Text.startsWith_iff, BearerToken.text, String.toList_append] at h
  obtain ⟨rest, hRest⟩ := h
  cases hRest

theorem phase_approvedRow (input : ApproveInput) (iv : Nat) (row : EnrollmentRow) :
    phase cipher (some (approvedRow cipher input iv row)) = .approved (some (approvedToken input)) := by
  have hDeliverable : deliverable cipher (approvedRow cipher input iv row) = .ok (some (approvedToken input)) := by
    unfold deliverable approvedRow
    cases cipher with
    | none => rfl
    | some cipher =>
      obtain ⟨ciphertext, hEncrypt, hPrefix, hDecrypt⟩ := cipher.opens iv _ (startsWith_bearerToken input.issuedTokenPlaintext)
      simp only [wrapped, hEncrypt, Option.getD_some, hPrefix, if_true, hDecrypt]
      rfl
  rw [phase]
  simp only [hDeliverable]
  rfl

theorem pending_of_undecided {userCode : String} {row : EnrollmentRow} (h : isUndecided userCode row = true) : row.status = .pending := by
  simpa using (Bool.and_eq_true_iff.mp h).2

theorem follows_decision (userCode : String) (write : EnrollmentRow → EnrollmentRow) (keeps : ∀ row, (write row).deviceCodeHash = row.deviceCodeHash)
    (said : Event) (hMoves : ∀ row, Moves .pending said (phase cipher (some (write row)))) :
    Follows (phase cipher (store.find deviceCodeHash))
      (if decide (0 < store.changes (isUndecided userCode)) && (store.find deviceCodeHash).any (isUndecided userCode) then some said else none)
      (phase cipher ((store.update (isUndecided userCode) write keeps).find deviceCodeHash)) := by
  rw [find_update]
  cases hRow : store.find deviceCodeHash with
  | none => simp [Follows]
  | some row =>
    rw [Option.any_some, Option.map_some]
    by_cases hUndecided : isUndecided userCode row = true
    · have hChanges : 0 < store.changes (isUndecided userCode) :=
        List.length_pos_of_mem ((mem_select _ _ row).mpr ⟨mem_of_find hRow, hUndecided⟩)
      rw [decide_eq_true hChanges, hUndecided, Bool.and_true, if_pos rfl, if_pos rfl]
      have hPhase : phase cipher (some row) = .pending := by rw [phase, pending_of_undecided hUndecided]
      rw [hPhase]
      exact hMoves row
    · rw [Bool.eq_false_iff.mpr hUndecided, Bool.and_false, if_neg Bool.false_ne_true, if_neg Bool.false_ne_true]
      exact .inl rfl

theorem follows_delete (isDeleted : EnrollmentRow → Bool) :
    Follows (phase cipher (store.find deviceCodeHash)) none (phase cipher ((store.delete isDeleted).find deviceCodeHash)) := by
  rw [find_delete]
  cases store.find deviceCodeHash with
  | none => exact .inl rfl
  | some row =>
    cases hDeleted : isDeleted row with
    | true =>
      rw [Option.filter_some_neg (by simpa using hDeleted)]
      exact .inr rfl
    | false =>
      rw [Option.filter_some_pos (by simpa using hDeleted)]
      exact .inl rfl

theorem find_delete_self : (deleteByDeviceHashStmt store deviceCodeHash).find deviceCodeHash = none := by
  rw [deleteByDeviceHashStmt, find_delete]
  cases hRow : store.find deviceCodeHash with
  | none => rfl
  | some row =>
    have hKey : row.deviceCodeHash = deviceCodeHash := key_of_find hRow
    exact Option.filter_some_neg (by simp [hKey])

theorem find_poll_other (polled : String) (now : Int) (h : polled ≠ deviceCodeHash) :
    (pollByHash cipher store polled now).1.find deviceCodeHash = store.find deviceCodeHash := by
  have hKept : ∀ row, store.find deviceCodeHash = some row → row.deviceCodeHash ≠ polled := fun row hRow =>
    (key_of_find hRow).trans_ne h.symm
  have hDeleted : (deleteByDeviceHashStmt store polled).find deviceCodeHash = store.find deviceCodeHash := by
    rw [deleteByDeviceHashStmt, find_delete]
    cases hRow : store.find deviceCodeHash with
    | none => rfl
    | some row => exact Option.filter_some_pos (by simpa using hKept row hRow)
  have hTouched : (touchPollStmt store now polled).find deviceCodeHash = store.find deviceCodeHash := by
    rw [touchPollStmt, find_update]
    cases hRow : store.find deviceCodeHash with
    | none => rfl
    | some row => rw [Option.map_some, if_neg (by simpa using hKept row hRow)]
  unfold pollByHash
  split
  · rfl
  split
  · exact hDeleted
  split
  · exact hDeleted
  · split
    · rfl
    · exact hDeleted
    · exact hDeleted
  · exact hTouched

theorem follows_poll (now : Int) :
    Follows (phase cipher (store.find deviceCodeHash)) ((pollByHash cipher store deviceCodeHash now).2.toOption.map ofOutcome)
      (phase cipher ((pollByHash cipher store deviceCodeHash now).1.find deviceCodeHash)) := by
  unfold pollByHash
  cases hRow : store.find deviceCodeHash with
  | none =>
    simp only [hRow]
    exact .expires _
  | some row =>
    simp only
    split
    · rw [find_delete_self]
      exact .expires _
    cases hStatus : row.status with
    | rejected =>
      simp only [find_delete_self, phase, hStatus]
      exact .denies
    | approved =>
      cases hToken : deliverable cipher row with
      | error error =>
        simp only [hRow]
        exact .inl rfl
      | ok token =>
        cases token with
        | none =>
          simp only [find_delete_self]
          exact .expires _
        | some token =>
          simp only [find_delete_self, phase, hStatus, hToken]
          exact .delivers token
    | pending =>
      have hTouched : (touchPollStmt store now deviceCodeHash).find deviceCodeHash = some { row with lastPolledAt := some now } := by
        rw [touchPollStmt, find_update, hRow, Option.map_some, if_pos (decide_eq_true (key_of_find hRow))]
      have hSaid : ∀ tooSoon : Bool, ofOutcome (if tooSoon then .slowDown else .authorizationPending) = .waits := by decide
      simp only [hTouched, phase, hStatus, Except.toOption, Option.map_some, hSaid]
      exact .waits

theorem follows_apply (call : Call) (h : mints deviceCodeHash (stepAt (apply hash cipher) store call) = false) :
    Follows (phase cipher (store.find deviceCodeHash)) (event hash deviceCodeHash (stepAt (apply hash cipher) store call))
      (phase cipher ((apply hash cipher store call).1.find deviceCodeHash)) := by
  cases call with
  | mint input createdAt draws =>
    have hOther : ∀ result, (mint hash store input createdAt draws).2 = some result → result.deviceCodeHash ≠ deviceCodeHash := by
      intro result hResult
      simpa [mints, apply, hResult] using h
    have hFind := find_mint_of_ne hash store input createdAt draws hOther
    change Follows _ none (phase cipher ((mint hash store input createdAt draws).1.find deviceCodeHash))
    rw [hFind]
    exact .inl rfl
  | approve input iv now =>
    exact follows_decision cipher input.userCode (approvedRow cipher input iv) (fun _ => rfl) (.approves (approvedToken input))
      fun row => phase_approvedRow cipher input iv row ▸ .approves _
  | reject input now =>
    exact follows_decision cipher input.userCode (rejectedRow input) (fun _ => rfl) .rejects fun row => .rejects
  | poll deviceCode now =>
    change Follows _ (if hash deviceCode = deviceCodeHash then (pollByHash cipher store (hash deviceCode) now).2.toOption.map ofOutcome else none)
      (phase cipher ((pollByHash cipher store (hash deviceCode) now).1.find deviceCodeHash))
    by_cases hSame : hash deviceCode = deviceCodeHash
    · rw [if_pos hSame, hSame]
      exact follows_poll cipher now
    · rw [if_neg hSame, find_poll_other cipher _ now hSame]
      exact .inl rfl
  | purge now => exact follows_delete cipher _

theorem path_events (calls : List Call) (store : EnrollmentStore) (deviceCodeHash : String) :
    ∃ q, Path (phase cipher (store.find deviceCodeHash))
      (events hash deviceCodeHash (run (apply hash cipher) store calls)) q := by
  induction calls generalizing store with
  | nil => exact ⟨_, .nil _⟩
  | cons call calls ih =>
    rw [run_cons, events]
    cases hMints : mints deviceCodeHash (stepAt (apply hash cipher) store call) with
    | true =>
      rw [List.takeWhile_cons_of_neg (by simp [hMints])]
      exact ⟨_, .nil _⟩
    | false =>
      obtain ⟨q, hPath⟩ := ih (apply hash cipher store call).1
      rw [List.takeWhile_cons_of_pos (by simp [hMints])]
      have hFollows := (follows_apply hash cipher call hMints : Follows (phase cipher (store.find deviceCodeHash)) _ _)
      refine ⟨q, ?_⟩
      have hAll := hPath.of_follows hFollows
      cases hSaid : event hash deviceCodeHash (stepAt (apply hash cipher) store call) with
      | none =>
        rw [List.filterMap_cons_none hSaid]
        rwa [hSaid] at hAll
      | some said =>
        rw [List.filterMap_cons_some hSaid]
        rwa [hSaid] at hAll

theorem phase_minted {call : Call} {result : MintResult} (h : (apply hash cipher store call).2 = .minted (some result)) :
    phase cipher ((apply hash cipher store call).1.find result.deviceCodeHash) = .pending := by
  cases call with
  | mint input createdAt draws =>
    have hResult : (mint hash store input createdAt draws).2 = some result := Answer.minted.inj h
    change phase cipher ((mint hash store input createdAt draws).1.find result.deviceCodeHash) = .pending
    unfold mint at hResult ⊢
    obtain hNone | ⟨row, minted, hSome, hFresh, hHash, hStatus⟩ := mintLoop_cases hash store input createdAt (draws.take 5)
    · rw [hNone] at hResult
      cases hResult
    · rw [hSome] at hResult ⊢
      cases hResult
      rw [← hHash, find_insertOrIgnore, hFresh, if_pos rfl, Option.none_or, phase]
      simp only [hStatus]
  | approve input iv now => cases h
  | reject input now => cases h
  | poll deviceCode now => cases h
  | purge now => cases h

end Steps

/-! ## Every sequence of calls -/

def decision : Call → Option (String × Int)
  | .approve input _ now => some (input.userCode, now)
  | .reject input now => some (input.userCode, now)
  | _ => none

/-- A decision that takes is on a row that is pending and has not expired. -/
def Timely (step : Step EnrollmentStore Call Answer) : Prop :=
  ∀ userCode now, decision step.input = some (userCode, now) → step.output = .decided true →
    (∃ row ∈ step.before.rows, isUndecided userCode row) ∧ ∀ row ∈ step.before.rows, isUndecided userCode row → now ≤ row.expiresAt

/-- No decision comes for a row that is still pending past its expiry. -/
def InTime (store : EnrollmentStore) (call : Call) : Prop :=
  ∀ userCode now, decision call = some (userCode, now) → ∀ row ∈ store.rows, isUndecided userCode row → now ≤ row.expiresAt

theorem timely_iff (store : EnrollmentStore) (call : Call) : Timely (stepAt (apply hash cipher) store call) ↔ InTime store call := by
  have hTakes : ∀ userCode now, decision call = some (userCode, now) →
      ((apply hash cipher store call).2 = .decided true ↔ ∃ row ∈ store.rows, isUndecided userCode row) := by
    intro userCode now hDecision
    have hChanges : ∀ success, decide (0 < store.changes (isUndecided userCode)) = success →
        (Answer.decided success = .decided true ↔ ∃ row ∈ store.rows, isUndecided userCode row) := by
      rintro _ rfl
      simp [changes, List.length_pos_iff_exists_mem, mem_select]
    cases call with
    | mint input createdAt draws => cases hDecision
    | approve input iv now =>
      cases hDecision
      exact hChanges _ rfl
    | reject input now =>
      cases hDecision
      exact hChanges _ rfl
    | poll deviceCode now => cases hDecision
    | purge now => cases hDecision
  constructor
  · intro h userCode now hDecision row hRow hUndecided
    exact (h userCode now hDecision ((hTakes userCode now hDecision).mpr ⟨row, hRow, hUndecided⟩)).2 row hRow hUndecided
  · intro h userCode now hDecision hOutput
    exact ⟨(hTakes userCode now hDecision).mp hOutput, h userCode now hDecision⟩

/-- Every enrollment is decided once, delivered once and then gone, and every decision is in time, exactly if no decision
comes for a row that is pending past its expiry. -/
theorem delivers_once_iff (calls : List Call) :
    let run := run (apply hash cipher) .empty calls
    ((∀ first mint rest, run = first ++ mint :: rest → ∀ result, mint.output = .minted (some result) →
        DeliversOnce (events hash result.deviceCodeHash rest)) ∧ ∀ step ∈ run, Timely step) ↔
      ∀ step ∈ run, InTime step.before step.input := by
  intro run
  have hOnce : ∀ first mint rest, run = first ++ mint :: rest → ∀ result, mint.output = .minted (some result) →
      DeliversOnce (events hash result.deviceCodeHash rest) := by
    intro first mint rest hRun result hResult
    obtain ⟨earlier, call, later, _, _, rfl, rfl⟩ := run_eq_append_cons _ hRun
    obtain ⟨q, hPath⟩ := path_events hash cipher later
      (apply hash cipher (final (apply hash cipher) .empty earlier) call).1 result.deviceCodeHash
    rw [phase_minted hash cipher hResult] at hPath
    exact hPath.deliversOnce
  have hSteps : ∀ step ∈ run, (Timely step ↔ InTime step.before step.input) := by
    intro step hStep
    obtain ⟨_, hStepAt⟩ := run_invariant (P := fun _ => True) (fun _ _ _ => trivial) trivial hStep
    rw [hStepAt]
    exact timely_iff hash cipher _ _
  constructor
  · rintro ⟨_, hTimely⟩ step hStep
    exact (hSteps step hStep).mp (hTimely step hStep)
  · intro hInTime
    exact ⟨hOnce, fun step hStep => (hSteps step hStep).mpr (hInTime step hStep)⟩

/-- A rejection of an enrollment that nobody polled or purged since it expired is told that it took. -/
theorem expired_enrollment_rejected :
    let calls : List Call :=
      [.mint ⟨none, none, none⟩ 0 [("csuite-dc_x", "ABCDEFGH")], .reject ⟨"ABCDEFGH", "alice", none⟩ 300001]
    ∃ step ∈ run (apply (fun deviceCode => deviceCode) none) .empty calls, step.output = .decided true ∧ ¬Timely step := by
  refine ⟨_, List.getLast_mem (List.cons_ne_nil _ _), rfl, ?_⟩
  intro hTimely
  have hRow := (hTimely "ABCDEFGH" 300001 rfl rfl).2 (freshRow (fun deviceCode => deviceCode) ⟨none, none, none⟩ 0 "csuite-dc_x" "ABCDEFGH")
    List.mem_cons_self rfl
  revert hRow
  decide

end CommandSuite.EnrollmentStore
