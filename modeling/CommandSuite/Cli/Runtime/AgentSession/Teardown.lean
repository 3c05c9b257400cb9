import CommandSuite.Cli.Runtime.AgentSession

/-! # The end of a session

A teardown that nothing keeps waiting has cleaned up once, has shut the runner down once, and the session has settled, unless its
upload of `session_end` failed or a failed restart began it.
-/

namespace CommandSuite.AgentSession

open Library Transcript AgentSession

/-- Every awaited call has settled: no such step is left, and each process that was stopped has exited. -/
structure Quiet (session : AgentSession) : Prop where
  swap : ∀ succeeds, swapAwaited succeeds session = session
  teardown : ∀ succeeds, teardownAwaited succeeds session = session
  reported : restartFailed session = session
  exited : ∀ proc ∈ session.stopped, (session.exitCodes.lookup proc).isSome = true

/-- What ends a session happens once, and has happened when nothing is awaited any more. -/
structure EndsOnce (session : AgentSession) : Prop where
  cleanups : session.cleanups ≤ 1
  runnerShutdowns : session.runnerShutdowns ≤ 1
  completely : Quiet session → session.cleanups = 1 ∧ session.runnerShutdowns = 1 ∧ session.result.isSome = true

/-- The step is neither the failure of the upload in the teardown nor a failed restart that begins the teardown. -/
def EndSucceeds (session : AgentSession) (event : SessionEvent) : Prop :=
  (event = .teardownAwaited false → session.teardownPromise ≠ some .sessionEnd) ∧
    (event = .restartFailed → session.restartFailing = true → session.teardownPromise ≠ none)

instance (session : AgentSession) (event : SessionEvent) : Decidable (EndSucceeds session event) := by
  unfold EndSucceeds
  infer_instance

/-! ## The steps of the teardown -/

/-- How often `cleanup` has been called. -/
def cleaned : Option TeardownPhase → Nat
  | none | some .coordinator | some .contextControl | some .shutdown | some .exitCode => 0
  | some .sessionEnd | some .runnerShutdown | some .returned | some .rejected => 1

def shutDown : Option TeardownPhase → Nat
  | some .runnerShutdown | some .returned => 1
  | _ => 0

structure Ending (session : AgentSession) : Prop where
  cleanups : session.cleanups = cleaned session.teardownPromise
  runnerShutdowns : session.runnerShutdowns = shutDown session.teardownPromise
  waiting : session.teardownPromise ≠ none → session.finishing = true
  rejected : session.teardownPromise ≠ some .rejected
  settled : session.teardownPromise = some .returned → session.result.isSome = true

variable {session : AgentSession}

theorem ending_create (signals : SignalMode) : Ending (create signals) := ⟨rfl, rfl, fun h => absurd rfl h, nofun, nofun⟩

theorem Ending.unchanged (h : Ending session) {after : AgentSession} (hPromise : after.teardownPromise = session.teardownPromise)
    (hCleanups : after.cleanups = session.cleanups) (hShutdowns : after.runnerShutdowns = session.runnerShutdowns)
    (hFinishing : after.finishing = session.finishing) (hResult : after.result = session.result) : Ending after where
  cleanups := by rw [hCleanups, hPromise]; exact h.cleanups
  runnerShutdowns := by rw [hShutdowns, hPromise]; exact h.runnerShutdowns
  waiting := by rw [hPromise, hFinishing]; exact h.waiting
  rejected := by rw [hPromise]; exact h.rejected
  settled := by rw [hPromise, hResult]; exact h.settled

theorem resolve_teardownPromise (session : AgentSession) : (resolve session).teardownPromise = session.teardownPromise := by
  unfold resolve
  split
  · rfl
  · rfl

theorem Ending.resolve (hCleanups : session.cleanups = cleaned session.teardownPromise)
    (hShutdowns : session.runnerShutdowns = shutDown session.teardownPromise) (hFinishing : session.finishing = true)
    (hRejected : session.teardownPromise ≠ some .rejected) : Ending (resolve session) := by
  unfold AgentSession.resolve
  split
  · refine ⟨hCleanups, hShutdowns, fun _ => hFinishing, hRejected, fun _ => ?_⟩
    cases session.result with
    | none => rfl
    | some result => rfl
  · rename_i hOpen
    refine ⟨hCleanups, hShutdowns, fun _ => hFinishing, hRejected, fun hReturned => ?_⟩
    exact absurd (by simp [hFinishing, hReturned]) hOpen

section

variable (h : Ending session)
include h

theorem Ending.finish : Ending (finish session) := by
  unfold AgentSession.finish AgentSession.teardown
  split
  · exact Ending.resolve h.cleanups h.runnerShutdowns rfl h.rejected
  · rename_i hNone
    have hCleanups := h.cleanups
    have hShutdowns := h.runnerShutdowns
    rw [hNone] at hCleanups hShutdowns
    exact Ending.resolve hCleanups hShutdowns rfl nofun

theorem Ending.exits (proc : Nat) (code : Option Int) : Ending (exits proc code session) := by
  unfold AgentSession.exits
  split
  · exact h
  · have hCode : Ending { session with exitCodes := (proc, code) :: session.exitCodes } := h.unchanged rfl rfl rfl rfl rfl
    dsimp only
    split
    · exact hCode.finish
    · refine ⟨h.cleanups, h.runnerShutdowns, h.waiting, h.rejected, fun _ => ?_⟩
      cases session.result with
      | none => rfl
      | some result => rfl
    · split
      · exact hCode
      · exact hCode.finish
    · exact hCode

theorem Ending.grant (kind : SwapKind) : Ending (grant kind session) := by
  unfold AgentSession.grant
  split
  · exact h.unchanged rfl rfl rfl rfl rfl
  · exact h

theorem Ending.swapAwaited (succeeds : Bool) : Ending (swapAwaited succeeds session) := by
  obtain hSame | ⟨swap, -, ⟨phase, hPhase⟩ | ⟨-, -, hFail⟩ | hRespawned⟩ := swapAwaited_cases succeeds session
  · rwa [hSame]
  · rw [hPhase]
    exact h.unchanged rfl rfl rfl rfl rfl
  · rw [hFail]
    cases swap.kind with
    | restart => exact h.unchanged rfl rfl rfl rfl rfl
    | clear => exact h.unchanged rfl rfl rfl rfl rfl
    | reload => exact h.unchanged rfl rfl rfl rfl rfl
  · rw [hRespawned]
    exact h.unchanged rfl rfl rfl rfl rfl

theorem Ending.restartFailed (hMeets : EndSucceeds session .restartFailed) : Ending (restartFailed session) := by
  unfold AgentSession.restartFailed
  split
  · rename_i hFailing
    have hEnding := hMeets.2 rfl hFailing
    unfold AgentSession.teardown
    split
    · exact h.unchanged rfl rfl rfl rfl rfl
    · rename_i hNone
      exact absurd hNone hEnding
  · exact h

theorem Ending.teardownAwaited {succeeds : Bool} (hMeets : EndSucceeds session (.teardownAwaited succeeds)) :
    Ending (teardownAwaited succeeds session) := by
  have hCleanups := h.cleanups
  have hShutdowns := h.runnerShutdowns
  unfold AgentSession.teardownAwaited
  cases hPhase : session.teardownPromise with
  | none => exact h
  | some phase =>
    have hFinishing := h.waiting (by simp [hPhase])
    rw [hPhase] at hCleanups hShutdowns
    cases phase with
    | coordinator =>
      dsimp only
      split
      · exact h
      · exact ⟨hCleanups, hShutdowns, fun _ => hFinishing, nofun, nofun⟩
    | contextControl =>
      dsimp only
      split
      · exact h
      · exact ⟨hCleanups, hShutdowns, fun _ => hFinishing, nofun, nofun⟩
    | shutdown => exact ⟨hCleanups, hShutdowns, fun _ => hFinishing, nofun, nofun⟩
    | exitCode =>
      dsimp only
      split
      · exact h
      · exact ⟨congrArg (· + 1) hCleanups, hShutdowns, fun _ => hFinishing, nofun, nofun⟩
    | sessionEnd =>
      cases succeeds with
      | true => exact ⟨hCleanups, congrArg (· + 1) hShutdowns, fun _ => hFinishing, nofun, nofun⟩
      | false => exact absurd hPhase (hMeets.1 rfl)
    | runnerShutdown => exact Ending.resolve hCleanups hShutdowns hFinishing nofun
    | returned => exact h
    | rejected => exact absurd hPhase h.rejected

end

/-! ## Nothing is awaited for ever -/

structure Stopping (session : AgentSession) : Prop where
  prior : ∀ swap ∈ session.swap, swap.prior ∈ session.stopped
  alone : session.teardownPromise = some .shutdown ∨ session.teardownPromise = some .exitCode →
    session.swap = none ∧ session.currentProc ∈ session.stopped

section

variable (h : Stopping session)
include h

theorem Stopping.unchanged {after : AgentSession} (hSwap : after.swap = session.swap)
    (hCurrent : after.currentProc = session.currentProc) (hStopped : after.stopped = session.stopped)
    (hAlone : after.teardownPromise = some .shutdown ∨ after.teardownPromise = some .exitCode →
      session.teardownPromise = some .shutdown ∨ session.teardownPromise = some .exitCode) : Stopping after where
  prior := by rw [hSwap, hStopped]; exact h.prior
  alone := fun hPhase => by rw [hSwap, hCurrent, hStopped]; exact h.alone (hAlone hPhase)

theorem Stopping.finish : Stopping (finish session) := by
  have hTeardown : Stopping (AgentSession.teardown session) := by
    unfold AgentSession.teardown
    split
    · exact h
    · exact h.unchanged rfl rfl rfl nofun
  have hFinishing : Stopping { AgentSession.teardown session with finishing := true } := hTeardown.unchanged rfl rfl rfl id
  unfold AgentSession.finish AgentSession.resolve
  split
  · exact hFinishing.unchanged rfl rfl rfl id
  · exact hFinishing

theorem Stopping.exits (proc : Nat) (code : Option Int) : Stopping (exits proc code session) := by
  unfold AgentSession.exits
  split
  · exact h
  · have hCode : Stopping { session with exitCodes := (proc, code) :: session.exitCodes } := h.unchanged rfl rfl rfl id
    dsimp only
    split
    · exact hCode.finish
    · exact hCode.unchanged rfl rfl rfl id
    · split
      · exact hCode
      · exact hCode.finish
    · exact hCode

theorem Stopping.grant (kind : SwapKind) : Stopping (grant kind session) := by
  unfold AgentSession.grant
  split
  · rename_i hAdmits
    have hOpen : session.teardownPromise = none ∨ session.teardownPromise = some .coordinator := by
      cases kind with
      | restart => exact .inl (of_decide_eq_true (Bool.and_eq_true_iff.mp (Bool.and_eq_true_iff.mp hAdmits).2).1)
      | clear => simpa using (Bool.and_eq_true_iff.mp hAdmits).2
      | reload => simpa using (Bool.and_eq_true_iff.mp hAdmits).2
    refine ⟨fun swap hSwap => Option.some.inj hSwap ▸ List.mem_cons_self, fun hPhase => ?_⟩
    obtain hNone | hFirst := hOpen
    · rw [hNone] at hPhase
      exact absurd hPhase (by simp)
    · rw [hFirst] at hPhase
      exact absurd hPhase (by simp)
  · exact h

theorem Stopping.swapAwaited (succeeds : Bool) : Stopping (swapAwaited succeeds session) := by
  obtain hSame | ⟨swap, hSwap, hCases⟩ := swapAwaited_cases succeeds session
  · rwa [hSame]
  · have hOpen : ¬ (session.teardownPromise = some .shutdown ∨ session.teardownPromise = some .exitCode) := fun hPhase => by
      cases hSwap.symm.trans (h.alone hPhase).1
    obtain ⟨phase, hPhase⟩ | ⟨-, -, hFail⟩ | hRespawned := hCases
    · rw [hPhase]
      exact ⟨fun swap' hSwap' => Option.some.inj hSwap' ▸ h.prior swap hSwap, fun hClosed => absurd hClosed hOpen⟩
    · rw [hFail]
      cases swap.kind with
      | restart => exact ⟨nofun, fun hClosed => absurd hClosed hOpen⟩
      | clear => exact ⟨nofun, fun hClosed => absurd hClosed hOpen⟩
      | reload => exact ⟨nofun, fun hClosed => absurd hClosed hOpen⟩
    · rw [hRespawned]
      exact ⟨nofun, fun hClosed => absurd hClosed hOpen⟩

theorem Stopping.restartFailed : Stopping (restartFailed session) := by
  unfold AgentSession.restartFailed
  split
  · unfold AgentSession.teardown
    split
    · exact h.unchanged rfl rfl rfl id
    · exact h.unchanged rfl rfl rfl nofun
  · exact h

theorem Stopping.teardownAwaited (succeeds : Bool) : Stopping (teardownAwaited succeeds session) := by
  unfold AgentSession.teardownAwaited
  cases hPhase : session.teardownPromise with
  | none => exact h
  | some phase =>
    cases phase with
    | coordinator =>
      dsimp only
      split
      · exact h
      · exact h.unchanged rfl rfl rfl nofun
    | contextControl =>
      dsimp only
      split
      · exact h
      · rename_i hNone
        exact ⟨fun swap hSwap => List.mem_cons_of_mem _ (h.prior swap hSwap), fun _ => ⟨hNone, List.mem_cons_self⟩⟩
    | shutdown => exact h.unchanged rfl rfl rfl fun _ => .inl hPhase
    | exitCode =>
      dsimp only
      split
      · exact h
      · exact h.unchanged rfl rfl rfl nofun
    | sessionEnd =>
      cases succeeds with
      | true => exact h.unchanged rfl rfl rfl nofun
      | false =>
        dsimp only
        rw [if_neg Bool.false_ne_true]
        split
        · exact h.unchanged rfl rfl rfl nofun
        · exact h.unchanged rfl rfl rfl nofun
    | runnerShutdown =>
      dsimp only
      unfold resolve
      split
      · exact h.unchanged rfl rfl rfl nofun
      · exact h.unchanged rfl rfl rfl nofun
    | returned => exact h
    | rejected => exact h

end

theorem Quiet.swap_eq_none (h : Quiet session) (hStopping : Stopping session) : session.swap = none := by
  obtain hNone | ⟨⟨kind, prior, phase⟩, hSwap⟩ := Option.eq_none_or_eq_some session.swap
  · exact hNone
  · have hExited := h.exited prior (hStopping.prior _ hSwap)
    have hSame := congrArg AgentSession.swap (h.swap false)
    have hFail : (failSwap kind session).swap = none := by cases kind <;> rfl
    simp only [swapAwaited, hSwap] at hSame
    cases phase with
    | exitCode =>
      rw [if_pos hExited] at hSame
      exact absurd hSame (by simp [continueSwap])
    | refreshInstructions => cases kind <;> exact absurd hSame (by simp [continueSwap])
    | refreshSecrets => exact absurd hSame (by simp [continueSwap])
    | shutdown => exact absurd (hFail.symm.trans hSame) nofun
    | sessionEnd => exact absurd (hFail.symm.trans hSame) nofun
    | sessionStart => exact absurd (hFail.symm.trans hSame) nofun
    | respawn => exact absurd (hFail.symm.trans hSame) nofun

theorem Quiet.not_failing (h : Quiet session) : session.restartFailing = false := by
  cases hFailing : session.restartFailing with
  | false => rfl
  | true =>
    have hSame := congrArg restartFailing h.reported
    rw [AgentSession.restartFailed, if_pos hFailing, hFailing] at hSame
    unfold AgentSession.teardown at hSame
    split at hSame
    · exact absurd hSame Bool.false_ne_true
    · exact absurd hSame Bool.false_ne_true

theorem Quiet.returned (h : Quiet session) (hStopping : Stopping session) (hEnding : Ending session)
    (hBegun : session.teardownPromise ≠ none) : session.teardownPromise = some .returned := by
  have hSwap := h.swap_eq_none hStopping
  have hSame := congrArg teardownPromise (h.teardown true)
  cases hPhase : session.teardownPromise with
  | none => exact absurd hPhase hBegun
  | some phase =>
    simp only [AgentSession.teardownAwaited, hPhase] at hSame
    cases phase with
    | coordinator =>
      have hOver : restarting session = false := by rw [restarting, h.not_failing, hSwap]; rfl
      rw [hOver] at hSame
      exact absurd hSame (by simp)
    | contextControl =>
      rw [hSwap] at hSame
      exact absurd hSame (by simp)
    | shutdown => exact absurd hSame (by simp)
    | exitCode =>
      obtain ⟨code, hCode⟩ := Option.isSome_iff_exists.mp (h.exited _ (hStopping.alone (.inr hPhase)).2)
      rw [hCode] at hSame
      exact absurd hSame (by simp)
    | sessionEnd => exact absurd hSame (by simp)
    | runnerShutdown =>
      change (resolve { session with teardownPromise := some .returned }).teardownPromise = _ at hSame
      rw [resolve_teardownPromise] at hSame
      exact absurd hSame (by simp)
    | returned => rfl
    | rejected => exact absurd hPhase hEnding.rejected

theorem Ending.next (h : Ending session ∧ Stopping session) {event : SessionEvent} (hMeets : EndSucceeds session event) :
    Ending (next session event).1 ∧ Stopping (next session event).1 := by
  obtain ⟨hEnding, hStopping⟩ := h
  cases event with
  | signal =>
    change Ending (signal session) ∧ Stopping (signal session)
    unfold signal
    split
    · exact ⟨hEnding.finish, hStopping.finish⟩
    · exact ⟨hEnding, hStopping⟩
  | exits proc code => exact ⟨hEnding.exits proc code, hStopping.exits proc code⟩
  | grant kind => exact ⟨hEnding.grant kind, hStopping.grant kind⟩
  | swapAwaited succeeds => exact ⟨hEnding.swapAwaited succeeds, hStopping.swapAwaited succeeds⟩
  | restartFailed => exact ⟨hEnding.restartFailed hMeets, hStopping.restartFailed⟩
  | teardownAwaited succeeds => exact ⟨hEnding.teardownAwaited hMeets, hStopping.teardownAwaited succeeds⟩

theorem cleaned_le (phase : Option TeardownPhase) : cleaned phase ≤ 1 := by
  unfold cleaned
  split
  all_goals decide

theorem shutDown_le (phase : Option TeardownPhase) : shutDown phase ≤ 1 := by
  unfold shutDown
  split
  all_goals decide

/-- A session ends completely once its teardown has begun, in every run in which the teardown's upload succeeds and no failed restart
begins a teardown. -/
theorem session_ends_completely (signals : SignalMode) (events : List SessionEvent)
    (hMeets : ∀ step ∈ Transcript.run next (create signals) events, EndSucceeds step.before step.input) :
    (run signals events).teardownPromise ≠ none → EndsOnce (run signals events) := by
  have hStart : Ending (create signals) ∧ Stopping (create signals) := ⟨ending_create signals, nofun, by simp [create]⟩
  obtain ⟨hEnding, hStopping⟩ := final_invariant_of (P := fun session => Ending session ∧ Stopping session)
    (fun _ _ h hStep => Ending.next h hStep) hStart hMeets
  intro hBegun
  refine ⟨hEnding.cleanups ▸ cleaned_le _, hEnding.runnerShutdowns ▸ shutDown_le _, fun hQuiet => ?_⟩
  have hReturned := hQuiet.returned hStopping hEnding hBegun
  exact ⟨by rw [hEnding.cleanups, hReturned]; rfl, by rw [hEnding.runnerShutdowns, hReturned]; rfl, hEnding.settled hReturned⟩

/-- A signal, and the upload of `session_end` in the teardown fails. -/
def undelivered : List SessionEvent :=
  [.signal, .teardownAwaited true, .teardownAwaited true, .teardownAwaited true, .exits 0 (some 0), .teardownAwaited true, .teardownAwaited false]

theorem quiet_undelivered : Quiet (run .teardown undelivered) where
  swap := by decide
  teardown := by decide
  reported := by decide
  exited := by decide

theorem failed_upload_ends_nothing : ¬ ∀ (signals : SignalMode) (events : List SessionEvent),
    (run signals events).teardownPromise ≠ none → EndsOnce (run signals events) := by
  intro hAll
  have hEnds := (hAll .teardown undelivered (by decide)).completely quiet_undelivered
  exact absurd hEnds.2.1 (by decide)

theorem signal_ends_completely : EndsOnce (run .teardown [.signal, .teardownAwaited true, .teardownAwaited true, .teardownAwaited false,
    .exits 0 none, .teardownAwaited true, .teardownAwaited true, .teardownAwaited false]) :=
  session_ends_completely .teardown _ (by decide) (by decide)

end CommandSuite.AgentSession
