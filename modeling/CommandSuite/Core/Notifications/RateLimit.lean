import CommandSuite.Library.SlidingWindow

/-! # The rate limit of hooks

`packages/core/src/notifications/dispatcher.ts`, `rateLimited`: each endpoint has a window with the times of the calls
that were let through.
-/

namespace CommandSuite.Notifications

open Library Transcript Function

def RATE_LIMIT_MAX : Nat := 120

def RATE_LIMIT_WINDOW_MS : Int := 60000

/-- `rateWindows`. -/
abbrev RateWindows := String → Option (List Int)

/-- A `checkIngressRateLimit`, with what `now()` says. -/
structure IngressCall where
  now : Int
  endpointId : String

def rateLimited : Machine RateWindows IngressCall Bool := fun windows call =>
  let window := (windows call.endpointId).getD []
  let fresh := window.filter fun t => call.now - t < RATE_LIMIT_WINDOW_MS
  if fresh.length ≥ RATE_LIMIT_MAX then (update windows call.endpointId (some fresh), true)
  else (update windows call.endpointId (some (fresh ++ [call.now])), false)

abbrev RateLog := List (Step RateWindows IngressCall Bool)

def checkIngressRateLimits (calls : List IngressCall) : RateLog := run rateLimited (fun _ => none) calls

def answersAt (endpointId : String) (log : RateLog) : List (Int × Bool) :=
  (log.filter fun step => step.input.endpointId = endpointId).map fun step => (step.input.now, step.output)

def admittedAt (endpointId : String) (log : RateLog) : List Int :=
  ((answersAt endpointId log).filter fun answer => !answer.2).map Prod.fst

structure ExactWindow (calls : List IngressCall) : Prop where
  bounded : ∀ endpointId start, ((admittedAt endpointId (checkIngressRateLimits calls)).filter
    fun t => start ≤ t ∧ t < start + RATE_LIMIT_WINDOW_MS).length ≤ RATE_LIMIT_MAX
  refused : ∀ before step after, checkIngressRateLimits calls = before ++ step :: after → step.output = true →
    ((admittedAt step.input.endpointId before).filter fun t => step.input.now - RATE_LIMIT_WINDOW_MS < t).length = RATE_LIMIT_MAX
  isolated : ∀ endpointId, answersAt endpointId (checkIngressRateLimits calls) =
    answersAt endpointId (checkIngressRateLimits (calls.filter fun call => call.endpointId = endpointId))

/-! ## Each endpoint has a limiter of its own -/

def window (windows : RateWindows) (endpointId : String) : List Int := (windows endpointId).getD []

abbrev limiter : Machine (List Int) Int Bool := SlidingWindow.check RATE_LIMIT_MAX RATE_LIMIT_WINDOW_MS

def timesAt (endpointId : String) (calls : List IngressCall) : List Int :=
  (calls.filter fun call => call.endpointId = endpointId).map IngressCall.now

section

variable (windows : RateWindows) (call : IngressCall) (endpointId : String)

theorem output_rateLimited : (rateLimited windows call).2 = (limiter (window windows call.endpointId) call.now).2 := by
  unfold rateLimited limiter SlidingWindow.check SlidingWindow.fresh window
  dsimp only
  split <;> rfl

theorem window_rateLimited : window (rateLimited windows call).1 endpointId =
    if call.endpointId = endpointId then (limiter (window windows endpointId) call.now).1 else window windows endpointId := by
  by_cases hSame : call.endpointId = endpointId
  · subst hSame
    rw [if_pos rfl]
    unfold rateLimited limiter SlidingWindow.check SlidingWindow.fresh window
    dsimp only
    split <;> simp only [update_self, Option.getD_some]
  · rw [if_neg hSame]
    unfold rateLimited window
    dsimp only
    split <;> simp only [update_of_ne (Ne.symm hSame)]

end

theorem answersAt_run (endpointId : String) (windows : RateWindows) (calls : List IngressCall) :
    answersAt endpointId (run rateLimited windows calls) =
      (run limiter (window windows endpointId) (timesAt endpointId calls)).map fun step => (step.input, step.output) := by
  induction calls generalizing windows with
  | nil => rfl
  | cons call calls ih =>
    have hRest := ih (rateLimited windows call).1
    rw [window_rateLimited] at hRest
    by_cases hSame : call.endpointId = endpointId
    · rw [if_pos hSame] at hRest
      subst hSame
      rw [timesAt, List.filter_cons_of_pos (by exact decide_eq_true rfl), List.map_cons, run_cons,
        run_cons, answersAt, List.filter_cons_of_pos (by exact decide_eq_true rfl), List.map_cons, List.map_cons]
      exact congrArg₂ List.cons (congrArg (Prod.mk call.now) (output_rateLimited windows call)) hRest
    · rw [if_neg hSame] at hRest
      rw [timesAt, List.filter_cons_of_neg (by rw [decide_eq_true_eq]; exact hSame), run_cons, answersAt,
        List.filter_cons_of_neg (by rw [decide_eq_true_eq]; exact hSame)]
      exact hRest

theorem answersAt_limits (endpointId : String) (calls : List IngressCall) :
    answersAt endpointId (checkIngressRateLimits calls) =
      (run limiter [] (timesAt endpointId calls)).map fun step => (step.input, step.output) :=
  answersAt_run endpointId _ calls

theorem admittedAt_limits (endpointId : String) (calls : List IngressCall) :
    admittedAt endpointId (checkIngressRateLimits calls) =
      SlidingWindow.admitted (run limiter [] (timesAt endpointId calls)) := by
  rw [admittedAt, answersAt_limits, List.filter_map, List.map_map]
  rfl

theorem mem_timesAt_of_admitted {endpointId : String} {calls : List IngressCall} {t : Int}
    (h : t ∈ admittedAt endpointId (checkIngressRateLimits calls)) : t ∈ timesAt endpointId calls := by
  rw [admittedAt_limits] at h
  exact SlidingWindow.mem_of_mem_admitted h

theorem final_limits (endpointId : String) (calls : List IngressCall) :
    window (final rateLimited (fun _ => none) calls) endpointId = final limiter [] (timesAt endpointId calls) := by
  have hFinal : ∀ windows, window (final rateLimited windows calls) endpointId =
      final limiter (window windows endpointId) (timesAt endpointId calls) := by
    induction calls with
    | nil => exact fun _ => rfl
    | cons call calls ih =>
      intro windows
      rw [final_cons, ih, window_rateLimited]
      by_cases hSame : call.endpointId = endpointId <;> simp [timesAt, hSame]
  exact hFinal _

section Chronological

variable {calls : List IngressCall} (hSorted : calls.Pairwise fun first second => first.now ≤ second.now)
include hSorted

theorem timesAt_sorted (endpointId : String) : (timesAt endpointId calls).Pairwise (· ≤ ·) :=
  List.pairwise_map.mpr (hSorted.sublist List.filter_sublist)

theorem length_admittedAt_le (endpointId : String) (start : Int) :
    ((admittedAt endpointId (checkIngressRateLimits calls)).filter
      fun t => start ≤ t ∧ t < start + RATE_LIMIT_WINDOW_MS).length ≤ RATE_LIMIT_MAX := by
  rw [admittedAt_limits]
  exact SlidingWindow.length_admitted_le RATE_LIMIT_MAX RATE_LIMIT_WINDOW_MS (timesAt_sorted hSorted endpointId) start

omit hSorted in
theorem filter_recent (now : Int) (times : List Int) : (times.filter fun t => now - RATE_LIMIT_WINDOW_MS < t) =
    SlidingWindow.fresh RATE_LIMIT_WINDOW_MS now times := by
  refine List.filter_congr fun t _ => decide_eq_decide.mpr ?_
  omega

theorem length_recent_of_refused {before : RateLog} {step : Step RateWindows IngressCall Bool} {after : RateLog}
    (h : checkIngressRateLimits calls = before ++ step :: after) (hRefused : step.output = true) :
    ((admittedAt step.input.endpointId before).filter fun t => step.input.now - RATE_LIMIT_WINDOW_MS < t).length =
      RATE_LIMIT_MAX := by
  obtain ⟨past, call, rest, rfl, rfl, rfl, -⟩ := run_eq_append_cons rateLimited h
  obtain ⟨hPast, -, hBefore⟩ := List.pairwise_append.mp hSorted
  have hLimiter := hRefused
  rw [stepAt_output, output_rateLimited, final_limits] at hLimiter
  have hTimes := timesAt_sorted hSorted call.endpointId
  rw [timesAt, List.filter_append, List.filter_cons_of_pos (by exact decide_eq_true rfl), List.map_append, List.map_cons] at hTimes
  have hAdmitted : ∀ t ∈ admittedAt call.endpointId (checkIngressRateLimits past), t ≤ call.now := by
    intro t hTime
    obtain ⟨other, hOther, rfl⟩ := List.mem_map.mp (mem_timesAt_of_admitted hTime)
    exact hBefore other (List.mem_filter.mp hOther).1 call List.mem_cons_self
  change ((admittedAt call.endpointId (checkIngressRateLimits past)).filter
    fun t => call.now - RATE_LIMIT_WINDOW_MS < t).length = RATE_LIMIT_MAX
  refine Nat.le_antisymm ?_ ?_
  · -- They are in the interval of that width which ends with the call.
    have hInterval : (admittedAt call.endpointId (checkIngressRateLimits past)).filter (fun t => call.now - RATE_LIMIT_WINDOW_MS < t) =
        (admittedAt call.endpointId (checkIngressRateLimits past)).filter fun t =>
          call.now - RATE_LIMIT_WINDOW_MS + 1 ≤ t ∧ t < call.now - RATE_LIMIT_WINDOW_MS + 1 + RATE_LIMIT_WINDOW_MS := by
      refine List.filter_congr fun t hTime => decide_eq_decide.mpr ?_
      have hNow := hAdmitted t hTime
      omega
    rw [hInterval]
    exact length_admittedAt_le hPast call.endpointId _
  · rw [filter_recent, admittedAt_limits]
    exact (SlidingWindow.refused_iff RATE_LIMIT_MAX RATE_LIMIT_WINDOW_MS hTimes).mp hLimiter

end Chronological

theorem ingress_window_exact {calls : List IngressCall} (hSorted : calls.Pairwise fun first second => first.now ≤ second.now) :
    ExactWindow calls where
  bounded := length_admittedAt_le hSorted
  refused _ _ _ := length_recent_of_refused hSorted
  isolated endpointId := by
    rw [answersAt_limits, answersAt_limits, timesAt, timesAt, List.filter_filter]
    simp only [Bool.and_self]

theorem burst_window_exact : ExactWindow (List.replicate 121 ⟨1000, "deploys"⟩ ++ [⟨61000, "deploys"⟩]) := by
  refine ingress_window_exact (List.pairwise_append.mpr ⟨List.pairwise_replicate.mpr (.inr le_rfl), List.pairwise_singleton _ _, ?_⟩)
  intro first hFirst second hSecond
  rw [List.eq_of_mem_replicate hFirst, List.mem_singleton.mp hSecond]
  decide

end CommandSuite.Notifications
