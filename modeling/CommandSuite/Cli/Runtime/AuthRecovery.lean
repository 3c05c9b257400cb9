import CommandSuite.Library.Transcript

/-! # Recovery of the authentication

`createAuthRecoveryController` of `packages/cli/src/runtime/auth-recovery.ts`. A 401 blocks the runner. While it is blocked a timer
looks for another saved token and probes it.
-/

namespace CommandSuite.AuthRecovery

open Library Transcript

structure Options where
  initialToken : String
  /-- Whether there is a `resolveReplacementToken`. -/
  reloadable : Bool
  /-- Whether there is a `captureHost`. -/
  captured : Bool

inductive AuthState where
  | blocked
  | recovered
  deriving DecidableEq

inductive Effect where
  | setAuthBlocked (blocked : Bool)
  | enqueueFirst (state : AuthState)
  | enqueue (state : AuthState)
  | replaceToken (token : String)
  | replaceBrokerToken (token : String)
  | requestInstructions
  deriving DecidableEq

structure Controller where
  blocked : Bool
  lastProbedToken : String
  watchTimer : Bool
  probeInFlight : Bool
  deriving DecidableEq

def created (options : Options) : Controller := ⟨false, options.initialToken, false, false⟩

def onCapture (options : Options) (effects : List Effect) : List Effect := if options.captured then effects else []

def probe (options : Options) (saved : Option String) (controller : Controller) : Controller × List Effect :=
  if !controller.blocked || controller.probeInFlight || !options.reloadable then (controller, [])
  else
    match saved with
    | none => (controller, [])
    | some candidate =>
      if candidate = "" ∨ candidate = controller.lastProbedToken then (controller, [])
      else
        ({ controller with probeInFlight := true, lastProbedToken := candidate },
          .replaceToken candidate :: onCapture options [.replaceBrokerToken candidate] ++ [.requestInstructions])

def recover (options : Options) (controller : Controller) : Controller × List Effect :=
  ({ controller with blocked := false, watchTimer := false, probeInFlight := false },
    onCapture options [.enqueue .recovered, .setAuthBlocked false])

def remain (controller : Controller) : Controller := { controller with probeInFlight := false }

def handleUnauthorized (options : Options) (controller : Controller) : Controller × List Effect :=
  ({ controller with blocked := true, watchTimer := controller.watchTimer || options.reloadable },
    if controller.blocked then [] else onCapture options [.setAuthBlocked true, .enqueueFirst .blocked])

def closed (controller : Controller) : Controller := { controller with watchTimer := false }

/-! ## The runner around it -/

structure Use where
  token : String
  place : Nat
  deriving DecidableEq

structure Runner where
  controller : Controller
  current : Use
  /-- What was accepted last: the initial token, or that of a probe. -/
  accepted : Use
  requests : List Use
  saved : Option String
  rejected : List String
  closed : Bool
  deriving DecidableEq

def started (options : Options) (saved : Option String) : Runner :=
  ⟨created options, ⟨options.initialToken, 0⟩, ⟨options.initialToken, 0⟩, [], saved, [], false⟩

inductive Answer where
  | accepted
  | rejected
  | failed

inductive Input where
  | send
  | refused (index : Nat)
  | tick
  | save (token : Option String)
  | answered (answer : Answer)
  | close

def carry (runner : Runner) : Effect → Runner
  | .replaceToken token => { runner with current := ⟨token, runner.current.place + 1⟩ }
  | _ => runner

def act (runner : Runner) (result : Controller × List Effect) : Runner × List Effect :=
  (result.2.foldl carry { runner with controller := result.1 }, result.2)

def answer (options : Options) (runner : Runner) : Answer → Runner × List Effect
  | .accepted => act { runner with accepted := runner.current } (recover options runner.controller)
  | .rejected =>
    let (reported, effects) := handleUnauthorized options runner.controller
    act { runner with rejected := runner.current.token :: runner.rejected } (remain reported, effects)
  | .failed => act runner (remain runner.controller, [])

def next (options : Options) : Machine Runner Input (List Effect) := fun runner input =>
  match input with
  | .send => ({ runner with requests := runner.requests ++ [runner.current] }, [])
  | .refused index =>
    match runner.requests[index]? with
    | none => (runner, [])
    | some request =>
      act { runner with requests := runner.requests.eraseIdx index, rejected := request.token :: runner.rejected }
        (handleUnauthorized options runner.controller)
  | .tick => if runner.controller.watchTimer then act runner (probe options runner.saved runner.controller) else (runner, [])
  | .save token => ({ runner with saved := token }, [])
  | .answered a => if runner.controller.probeInFlight then answer options runner a else (runner, [])
  | .close => ({ runner with controller := AuthRecovery.closed runner.controller, closed := true }, [])

/-! ## What is asked of it -/

def Promising (options : Options) (runner : Runner) (token : String) : Prop :=
  options.reloadable = true ∧ runner.saved = some token ∧ token ≠ "" ∧ token ∉ runner.rejected

/-- A runner that is blocked probes a promising token, or will at the next tick. -/
def Awake (options : Options) (runner : Runner) : Prop :=
  runner.controller.blocked = true → runner.closed = false → ∀ token, Promising options runner token →
    runner.controller.probeInFlight = true ∨ (next options runner .tick).1.controller.probeInFlight = true

/-- A token other than the one accepted last, and in use before it. -/
def Older (runner : Runner) (request : Use) : Prop :=
  request.place < runner.accepted.place ∧ request.token ≠ runner.accepted.token

def Unblocked (step : Step Runner Input (List Effect)) : Prop :=
  ∀ index request, step.input = .refused index → step.before.requests[index]? = some request → Older step.before request →
    step.before.controller.blocked = false → step.after.controller.blocked = false

def NotUndone (options : Options) (step : Step Runner Input (List Effect)) : Prop := Awake options step.after ∧ Unblocked step

/-- No report about an older token comes while nothing is blocked. No probe fails for another reason while its token is still
saved and was never rejected. Such a token is not saved again before another was probed. -/
def Lasting (options : Options) (runner : Runner) : Input → Prop
  | .refused index => runner.controller.blocked = false → ∀ request, runner.requests[index]? = some request → ¬ Older runner request
  | .answered .failed =>
    runner.controller.probeInFlight = true → runner.closed = false → ¬ Promising options runner runner.controller.lastProbedToken
  | .save token => runner.controller.blocked = true → runner.controller.probeInFlight = false → runner.closed = false →
    ¬ Promising options { runner with saved := token } runner.controller.lastProbedToken
  | _ => True

/-! ## Steps -/

/-- The token in use is the one probed last. Until a report comes it is the one accepted last, and the timer runs while blocked. -/
structure Sound (options : Options) (runner : Runner) : Prop where
  probed : runner.current.token = runner.controller.lastProbedToken
  calm : runner.controller.blocked = false → runner.accepted = runner.current ∧ runner.controller.probeInFlight = false
  requests : ∀ request ∈ runner.requests, request.place < runner.current.place ∨ request = runner.current
  watched : runner.controller.blocked = true → runner.closed = false → options.reloadable = true → runner.controller.watchTimer = true

variable {options : Options} {runner : Runner}

theorem sound_started (saved : Option String) : Sound options (started options saved) :=
  ⟨rfl, fun _ => ⟨rfl, rfl⟩, fun _ hNone => (nomatch hNone), fun hBlocked => nomatch hBlocked⟩

theorem carry_onCapture (effects : List Effect) (h : ∀ effect ∈ effects, ∀ token, effect ≠ .replaceToken token) (runner : Runner) :
    (onCapture options effects).foldl carry runner = runner := by
  have hEach : effects.foldl carry runner = runner := by
    induction effects with
    | nil => rfl
    | cons effect effects ih =>
      obtain ⟨hEffect, hRest⟩ := List.forall_mem_cons.mp h
      have hSame : carry runner effect = runner := by
        cases effect with
        | replaceToken token => exact absurd rfl (hEffect token)
        | _ => rfl
      rw [List.foldl_cons, hSame, ih hRest]
  unfold onCapture
  split
  · exact hEach
  · rfl

theorem act_handleUnauthorized (runner : Runner) : (act runner (handleUnauthorized options runner.controller)).1 =
    { runner with controller := (handleUnauthorized options runner.controller).1 } := by
  change (if runner.controller.blocked = true then [] else onCapture options [.setAuthBlocked true, .enqueueFirst .blocked]).foldl carry _ = _
  split
  · rfl
  · exact carry_onCapture _ (by simp) _

theorem act_recover (runner : Runner) :
    (act runner (recover options runner.controller)).1 = { runner with controller := (recover options runner.controller).1 } :=
  carry_onCapture [.enqueue .recovered, .setAuthBlocked false] (by simp) _

def candidate (options : Options) (runner : Runner) : Option String :=
  if runner.controller.watchTimer && runner.controller.blocked && !runner.controller.probeInFlight && options.reloadable then
    runner.saved.filter fun token => token ≠ "" && token ≠ runner.controller.lastProbedToken
  else none

theorem candidate_eq_some_iff {token : String} : candidate options runner = some token ↔
    (runner.controller.watchTimer = true ∧ runner.controller.blocked = true ∧ runner.controller.probeInFlight = false ∧
      options.reloadable = true) ∧ runner.saved = some token ∧ token ≠ "" ∧ token ≠ runner.controller.lastProbedToken := by
  unfold candidate
  rw [Option.ite_none_right_eq_some, Option.filter_eq_some_iff]
  simp only [Bool.and_eq_true, Bool.not_eq_true', decide_eq_true_iff, and_assoc]

theorem tick_eq (options : Options) (runner : Runner) : (next options runner .tick).1 =
    match candidate options runner with
    | none => runner
    | some token =>
      { runner with
        controller := { runner.controller with probeInFlight := true, lastProbedToken := token }
        current := ⟨token, runner.current.place + 1⟩ } := by
  cases hCandidate : candidate options runner with
  | none =>
    change (if runner.controller.watchTimer then act runner (probe options runner.saved runner.controller) else (runner, [])).1 = runner
    have hSkip : runner.controller.watchTimer = true → probe options runner.saved runner.controller = (runner.controller, []) := by
      intro hTimer
      unfold probe
      split
      · rfl
      · rename_i hGuard
        simp only [Bool.or_eq_true, Bool.not_eq_true', not_or, Bool.not_eq_false, Bool.not_eq_true] at hGuard
        split
        · rfl
        · rename_i token hSaved
          rw [if_pos]
          by_contra hFresh
          rw [not_or] at hFresh
          have hSome : candidate options runner = some token :=
            candidate_eq_some_iff.mpr ⟨⟨hTimer, hGuard.1.1, hGuard.1.2, hGuard.2⟩, hSaved, hFresh.1, hFresh.2⟩
          rw [hCandidate] at hSome
          cases hSome
    split
    · rename_i hTimer
      rw [hSkip hTimer]
      rfl
    · rfl
  | some token =>
    obtain ⟨⟨hTimer, hBlocked, hFree, hReloadable⟩, hSaved, hSome, hFresh⟩ := candidate_eq_some_iff.mp hCandidate
    change (if runner.controller.watchTimer then act runner (probe options runner.saved runner.controller) else (runner, [])).1 = _
    have hProbe : probe options runner.saved runner.controller =
        ({ runner.controller with probeInFlight := true, lastProbedToken := token },
          .replaceToken token :: onCapture options [.replaceBrokerToken token] ++ [.requestInstructions]) := by
      unfold probe
      rw [if_neg (by simp [hBlocked, hFree, hReloadable]), hSaved]
      exact if_neg (not_or.mpr ⟨hSome, hFresh⟩)
    rw [if_pos hTimer, hProbe]
    change ((onCapture options [.replaceBrokerToken token] ++ [Effect.requestInstructions]).foldl carry _) = _
    rw [List.foldl_append, carry_onCapture _ (by simp)]
    rfl

theorem awake_iff (h : Sound options runner) : Awake options runner ↔
    (runner.controller.blocked = true → runner.closed = false → runner.controller.probeInFlight = false →
      ¬ Promising options runner runner.controller.lastProbedToken) := by
  constructor
  · intro hAwake hBlocked hOpen hFree hPromising
    rcases hAwake hBlocked hOpen _ hPromising with hFlight | hFlight
    · rw [hFree] at hFlight
      cases hFlight
    · rw [tick_eq] at hFlight
      cases hCandidate : candidate options runner with
      | none =>
        rw [hCandidate] at hFlight
        rw [hFree] at hFlight
        cases hFlight
      | some token =>
        obtain ⟨_, hSaved, _, hFresh⟩ := candidate_eq_some_iff.mp hCandidate
        exact hFresh (Option.some.inj (hSaved.symm.trans hPromising.2.1))
  · intro hAwake hBlocked hOpen token hPromising
    cases hFree : runner.controller.probeInFlight with
    | true => exact .inl rfl
    | false =>
      obtain ⟨hReloadable, hSaved, hSome, hRejected⟩ := hPromising
      have hFresh : token ≠ runner.controller.lastProbedToken :=
        fun hSame => hAwake hBlocked hOpen hFree (hSame ▸ ⟨hReloadable, hSaved, hSome, hRejected⟩)
      have hCandidate : candidate options runner = some token :=
        candidate_eq_some_iff.mpr ⟨⟨h.watched hBlocked hOpen hReloadable, hBlocked, hFree, hReloadable⟩, hSaved, hSome, hFresh⟩
      rw [tick_eq, hCandidate]
      exact .inr rfl

theorem token_of_not_older (h : Sound options runner) (hCalm : runner.controller.blocked = false) {request : Use}
    (hRequest : request ∈ runner.requests) (hOlder : ¬ Older runner request) : request.token = runner.controller.lastProbedToken := by
  have hAccepted := (h.calm hCalm).1
  rw [← h.probed]
  rcases h.requests request hRequest with hPlace | rfl
  · rw [← hAccepted]
    by_contra hToken
    exact hOlder ⟨hAccepted.symm ▸ hPlace, hToken⟩
  · rfl

theorem refused_eq {index : Nat} {request : Use} (hRequest : runner.requests[index]? = some request) :
    (next options runner (.refused index)).1 =
      { runner with
        controller := { runner.controller with blocked := true, watchTimer := runner.controller.watchTimer || options.reloadable }
        requests := runner.requests.eraseIdx index
        rejected := request.token :: runner.rejected } := by
  change (match runner.requests[index]? with
    | none => (runner, [])
    | some request => act { runner with requests := runner.requests.eraseIdx index, rejected := request.token :: runner.rejected }
      (handleUnauthorized options runner.controller)).1 = _
  rw [hRequest]
  exact act_handleUnauthorized { runner with requests := runner.requests.eraseIdx index, rejected := request.token :: runner.rejected }

theorem refused_none {index : Nat} (hRequest : runner.requests[index]? = none) :
    (next options runner (.refused index)).1 = runner := by
  change (match runner.requests[index]? with | none => (runner, []) | some request => _).1 = runner
  rw [hRequest]

theorem answered_none (hFlight : runner.controller.probeInFlight = false) {a : Answer} :
    (next options runner (.answered a)).1 = runner := by
  change (if runner.controller.probeInFlight then _ else (runner, [])).1 = _
  rw [hFlight]
  rfl

theorem answered_eq (hFlight : runner.controller.probeInFlight = true) (a : Answer) : (next options runner (.answered a)).1 =
    match a with
    | .accepted =>
      { runner with
        controller := { runner.controller with blocked := false, watchTimer := false, probeInFlight := false }
        accepted := runner.current }
    | .rejected =>
      { runner with
        controller := { runner.controller with
          blocked := true, watchTimer := runner.controller.watchTimer || options.reloadable, probeInFlight := false }
        rejected := runner.current.token :: runner.rejected }
    | .failed => { runner with controller := remain runner.controller } := by
  change (if runner.controller.probeInFlight then answer options runner a else (runner, [])).1 = _
  rw [if_pos hFlight]
  cases a with
  | accepted => exact act_recover { runner with accepted := runner.current }
  | rejected =>
    change (if runner.controller.blocked = true then [] else onCapture options [.setAuthBlocked true, .enqueueFirst .blocked]).foldl carry _ = _
    split
    · rfl
    · exact carry_onCapture _ (by simp) _
  | failed => rfl

section

variable (h : Sound options runner)
include h

theorem Sound.refused {index : Nat} {request : Use} (hRequest : runner.requests[index]? = some request) :
    Sound options (next options runner (.refused index)).1 := by
  rw [refused_eq hRequest]
  refine ⟨h.probed, fun hCalm => (nomatch hCalm), fun other hOther => h.requests other (List.mem_of_mem_eraseIdx hOther),
    fun _ _ hReloadable => ?_⟩
  change (_ || options.reloadable) = true
  rw [hReloadable, Bool.or_true]

theorem Sound.tick : Sound options (next options runner .tick).1 := by
  rw [tick_eq]
  cases hCandidate : candidate options runner with
  | none => exact h
  | some token =>
    obtain ⟨⟨_, hBlocked, _, _⟩, _⟩ := candidate_eq_some_iff.mp hCandidate
    refine ⟨rfl, fun hCalm => ?_, fun request hRequest => .inl ?_, h.watched⟩
    · change runner.controller.blocked = false at hCalm
      rw [hBlocked] at hCalm
      cases hCalm
    · change request.place < runner.current.place + 1
      rcases h.requests request hRequest with hPlace | rfl
      · exact Nat.lt_succ_of_lt hPlace
      · exact Nat.lt_succ_self _

theorem Sound.blocked_of_flight (hFlight : runner.controller.probeInFlight = true) : runner.controller.blocked = true := by
  by_contra hCalm
  have hFree := (h.calm (Bool.eq_false_iff.mpr hCalm)).2
  rw [hFlight] at hFree
  cases hFree

theorem Sound.answered (a : Answer) : Sound options (next options runner (.answered a)).1 := by
  cases hFlight : runner.controller.probeInFlight with
  | false =>
    rw [answered_none hFlight]
    exact h
  | true =>
    rw [answered_eq hFlight]
    cases a with
    | accepted => exact ⟨h.probed, fun _ => ⟨rfl, rfl⟩, h.requests, fun hBlocked => nomatch hBlocked⟩
    | rejected =>
      refine ⟨h.probed, fun hCalm => (nomatch hCalm), h.requests, fun _ _ hReloadable => ?_⟩
      change (_ || options.reloadable) = true
      rw [hReloadable, Bool.or_true]
    | failed => exact ⟨h.probed, fun hCalm => ⟨(h.calm hCalm).1, rfl⟩, h.requests, h.watched⟩

theorem sound_next (input : Input) : Sound options (next options runner input).1 := by
  cases input with
  | send =>
    refine ⟨h.probed, h.calm, fun request hRequest => ?_, h.watched⟩
    rcases List.mem_append.mp hRequest with hEarlier | hLast
    · exact h.requests request hEarlier
    · exact .inr (List.mem_singleton.mp hLast)
  | refused index =>
    cases hRequest : runner.requests[index]? with
    | none =>
      rw [refused_none hRequest]
      exact h
    | some request => exact h.refused hRequest
  | tick => exact h.tick
  | save token => exact ⟨h.probed, h.calm, h.requests, h.watched⟩
  | answered a => exact h.answered a
  | close => exact ⟨h.probed, h.calm, h.requests, fun _ hOpen => nomatch hOpen⟩

theorem notUndone_refused_iff (hAwake : Awake options runner) (index : Nat) :
    NotUndone options (stepAt (next options) runner (.refused index)) ↔ Lasting options runner (.refused index) := by
  have hAfter := awake_iff (sound_next h (.refused index))
  cases hRequest : runner.requests[index]? with
  | none =>
    refine iff_of_true ⟨?_, ?_⟩ ?_
    · change Awake options (next options runner (.refused index)).1
      rw [refused_none hRequest]
      exact hAwake
    · intro other request hInput hSome
      cases hInput
      change runner.requests[index]? = some request at hSome
      rw [hRequest] at hSome
      cases hSome
    · intro _ request hSome
      rw [hRequest] at hSome
      cases hSome
  | some request =>
    constructor
    · rintro ⟨_, hUnblocked⟩ hCalm other hOther hOlder
      have hBlocked : (next options runner (.refused index)).1.controller.blocked = false := hUnblocked index other rfl hOther hOlder hCalm
      rw [refused_eq hRequest] at hBlocked
      cases hBlocked
    · intro hLasting
      refine ⟨hAfter.mpr ?_, ?_⟩
      · rw [refused_eq hRequest]
        rintro - hOpen hFree ⟨hReloadable, hSaved, hSome, hRejected⟩
        change runner.controller.lastProbedToken ∉ request.token :: runner.rejected at hRejected
        rw [List.mem_cons, not_or] at hRejected
        cases hBlocked : runner.controller.blocked with
        | true => exact (awake_iff h).mp hAwake hBlocked hOpen hFree ⟨hReloadable, hSaved, hSome, hRejected.2⟩
        | false =>
          have hToken := token_of_not_older h hBlocked (List.mem_of_getElem? hRequest) (hLasting hBlocked request hRequest)
          exact hRejected.1 hToken.symm
      · intro other later hInput hLater hOlder hCalm
        cases hInput
        exact absurd hOlder (hLasting hCalm later hLater)

theorem notUndone_answered_iff (hAwake : Awake options runner) (a : Answer) :
    NotUndone options (stepAt (next options) runner (.answered a)) ↔ Lasting options runner (.answered a) := by
  have hAfter := awake_iff (sound_next h (.answered a))
  have hUnblocked : Unblocked (stepAt (next options) runner (.answered a)) := fun _ _ hInput => nomatch hInput
  refine (and_iff_left hUnblocked).trans (hAfter.trans ?_)
  cases hFlight : runner.controller.probeInFlight with
  | false =>
    rw [answered_none hFlight]
    refine iff_of_true ((awake_iff h).mp hAwake) ?_
    cases a with
    | failed =>
      intro hFlying
      rw [hFlight] at hFlying
      cases hFlying
    | accepted | rejected => trivial
  | true =>
    rw [answered_eq hFlight]
    cases a with
    | accepted => exact iff_of_true (fun hBlocked => nomatch hBlocked) trivial
    | rejected =>
      refine iff_of_true (fun _ _ _ hPromising => hPromising.2.2.2 ?_) trivial
      exact List.mem_cons.mpr (.inl h.probed.symm)
    | failed =>
      exact ⟨fun hAwake _ hOpen => hAwake (h.blocked_of_flight hFlight) hOpen rfl, fun hLasting _ hOpen _ => hLasting hFlight hOpen⟩

theorem notUndone_iff (hAwake : Awake options runner) (input : Input) :
    NotUndone options (stepAt (next options) runner input) ↔ Lasting options runner input := by
  have hAfter := awake_iff (sound_next h input)
  cases input with
  | refused index => exact notUndone_refused_iff h hAwake index
  | answered a => exact notUndone_answered_iff h hAwake a
  | send => exact iff_of_true ⟨hAfter.mpr ((awake_iff h).mp hAwake), fun _ _ hInput => nomatch hInput⟩ trivial
  | tick =>
    refine iff_of_true ⟨hAfter.mpr ?_, fun _ _ hInput => nomatch hInput⟩ trivial
    rw [tick_eq]
    cases candidate options runner with
    | none => exact (awake_iff h).mp hAwake
    | some token => exact fun _ _ hFree => nomatch hFree
  | save token =>
    have hUnblocked : Unblocked (stepAt (next options) runner (.save token)) := fun _ _ hInput => nomatch hInput
    refine (and_iff_left hUnblocked).trans (hAfter.trans ?_)
    exact ⟨fun hAwake hBlocked hFree hOpen => hAwake hBlocked hOpen hFree, fun hLasting hBlocked hOpen hFree => hLasting hBlocked hFree hOpen⟩
  | close => exact iff_of_true ⟨hAfter.mpr fun _ hOpen => (nomatch hOpen), fun _ _ hInput => nomatch hInput⟩ trivial

end

/-- Recovery is undone in no step of a run exactly when every step meets the condition. -/
theorem recovery_not_undone_iff (options : Options) (saved : Option String) (inputs : List Input) :
    (∀ step ∈ run (next options) (started options saved) inputs, NotUndone options step) ↔
      ∀ step ∈ run (next options) (started options saved) inputs, Lasting options step.before step.input :=
  forall_step_iff (R := fun runner => Sound options runner ∧ Awake options runner) (V := fun _ => True)
    (fun _ input h _ => notUndone_iff h.1 h.2 input) (fun _ input h _ hNotUndone => ⟨sound_next h.1 input, hNotUndone.1⟩)
    ⟨sound_started saved, (awake_iff (sound_started saved)).mpr fun hBlocked => nomatch hBlocked⟩ fun _ _ => trivial

def enrolled : Options := ⟨"old", true, true⟩

def lateReport : List Input := [.send, .send, .refused 0, .save (some "new"), .tick, .answered .accepted, .refused 0]

/-- The second request of the old token is refused when the new one has been accepted. The runner is blocked again, and no tick probes
the new token, which nobody rejected. -/
theorem late_report_blocks :
    ¬ (∀ step ∈ run (next enrolled) (started enrolled (some "old")) lateReport, NotUndone enrolled step) ∧
      (final (next enrolled) (started enrolled (some "old")) lateReport).controller.blocked = true ∧
      ¬ Awake enrolled (final (next enrolled) (started enrolled (some "old")) lateReport) := by
  have hAsleep : ¬ Awake enrolled (final (next enrolled) (started enrolled (some "old")) lateReport) := by
    intro hAwake
    have hPromising : Promising enrolled (final (next enrolled) (started enrolled (some "old")) lateReport) "new" :=
      ⟨rfl, by decide +kernel, by decide, by decide +kernel⟩
    exact absurd (hAwake (by decide +kernel) (by decide +kernel) "new" hPromising) (by decide +kernel)
  have hLast : (run (next enrolled) (started enrolled (some "old")) lateReport).getLast? = some (stepAt (next enrolled)
      (final (next enrolled) (started enrolled (some "old")) lateReport.dropLast) (.refused 0)) := rfl
  exact ⟨fun hAll => hAsleep (hAll _ (List.mem_of_getLast? hLast)).1, by decide +kernel, hAsleep⟩

end CommandSuite.AuthRecovery
