import CommandSuite.Cli.Runtime.AgentSession

/-! # Swaps of the agent

Between two swaps the session has a running agent, unless a control has failed after it stopped the agent.
-/

namespace CommandSuite.AgentSession

open Library Transcript

/-- The current process is the last one spawned, has not been stopped, and its exit ends the session. -/
structure Attended (session : AgentSession) : Prop where
  last : session.currentProc + 1 = session.spawned
  running : session.currentProc ∉ session.stopped
  watched : session.currentProc ∈ session.watched
  expected : session.expectedRestartExit ≠ some session.currentProc

/-- No swap has the lock, and no restart is about to report its failure. -/
def Idle (session : AgentSession) : Prop := session.swap = none ∧ session.restartFailing = false

/-- What fails is a refetch, or a restart, or the session ends anyhow. -/
def ControlSucceeds (session : AgentSession) (event : SessionEvent) : Prop :=
  event = .swapAwaited false → session.teardownPromise = none → session.restartFailing = false →
    ∀ swap ∈ session.swap, swap.kind = .restart ∨ swap.phase ∈ [.exitCode, .refreshInstructions, .refreshSecrets]

instance (session : AgentSession) (event : SessionEvent) : Decidable (ControlSucceeds session event) := by
  unfold ControlSucceeds
  infer_instance

/-- What carries the property over a swap: processes are counted, and only those that are count as stopped or expected. -/
structure Swapping (session : AgentSession) : Prop where
  last : session.currentProc + 1 = session.spawned
  stopped : ∀ proc ∈ session.stopped, proc < session.spawned
  expected : ∀ proc ∈ session.expectedRestartExit, proc < session.spawned
  attended : session.teardownPromise = none → Idle session → Attended session

variable {session : AgentSession}

theorem swapping_create (signals : SignalMode) : Swapping (create signals) where
  last := rfl
  stopped := by simp [create]
  expected := by simp [create]
  attended := fun _ _ => ⟨rfl, by simp [create], by simp [create], by simp [create]⟩

section

variable (h : Swapping session)
include h

theorem Swapping.current_lt : session.currentProc < session.spawned := by
  have hLast := h.last
  omega

theorem Swapping.unchanged {after : AgentSession} (hSpawned : after.spawned = session.spawned)
    (hCurrent : after.currentProc = session.currentProc) (hStopped : after.stopped = session.stopped)
    (hWatched : after.watched = session.watched) (hExpected : after.expectedRestartExit = session.expectedRestartExit)
    (hIdle : after.teardownPromise = none → Idle after → session.teardownPromise = none ∧ Idle session) : Swapping after where
  last := by rw [hCurrent, hSpawned]; exact h.last
  stopped := by rw [hStopped, hSpawned]; exact h.stopped
  expected := by rw [hExpected, hSpawned]; exact h.expected
  attended := fun hNone hAfter => by
    obtain ⟨hNone, hIdle⟩ := hIdle hNone hAfter
    obtain ⟨hLast, hRunning, hWatch, hOther⟩ := h.attended hNone hIdle
    exact ⟨by rwa [hCurrent, hSpawned], by rwa [hCurrent, hStopped], by rwa [hCurrent, hWatched], by rwa [hExpected, hCurrent]⟩

theorem Swapping.teardown : Swapping (teardown session) := by
  unfold AgentSession.teardown
  split
  · exact h
  · exact h.unchanged rfl rfl rfl rfl rfl nofun

theorem Swapping.resolve : Swapping (resolve session) := by
  unfold AgentSession.resolve
  split
  · exact h.unchanged rfl rfl rfl rfl rfl fun hNone hIdle => ⟨hNone, hIdle⟩
  · exact h

theorem Swapping.finish : Swapping (finish session) :=
  Swapping.resolve (h.teardown.unchanged rfl rfl rfl rfl rfl fun hNone hIdle => ⟨hNone, hIdle⟩)

theorem Swapping.exits (proc : Nat) (code : Option Int) : Swapping (exits proc code session) := by
  unfold AgentSession.exits
  split
  · exact h
  · have hCode : Swapping { session with exitCodes := (proc, code) :: session.exitCodes } :=
      h.unchanged rfl rfl rfl rfl rfl fun hNone hIdle => ⟨hNone, hIdle⟩
    dsimp only
    split
    · exact hCode.finish
    · exact hCode.unchanged rfl rfl rfl rfl rfl fun hNone hIdle => ⟨hNone, hIdle⟩
    · split
      · exact hCode
      · exact hCode.finish
    · exact hCode

theorem Swapping.grant (kind : SwapKind) : Swapping (grant kind session) := by
  unfold AgentSession.grant
  split
  · exact
      { last := h.last
        stopped := List.forall_mem_cons.mpr ⟨h.current_lt, h.stopped⟩
        expected := fun proc hProc => Option.some.inj hProc ▸ h.current_lt
        attended := fun _ hIdle => by cases hIdle.1 }
  · exact h

theorem Swapping.continueSwap (swap : Swap) (phase : SwapPhase) : Swapping (continueSwap swap phase session) :=
  h.unchanged rfl rfl rfl rfl rfl fun _ hIdle => by cases hIdle.1

theorem Swapping.respawned : Swapping (respawned session) where
  last := rfl
  stopped := fun proc hProc => Nat.lt_succ_of_lt (h.stopped proc hProc)
  expected := fun proc hProc => Nat.lt_succ_of_lt (h.expected proc hProc)
  attended := fun _ _ =>
    { last := rfl
      running := fun hProc => Nat.lt_irrefl _ (h.stopped _ hProc)
      watched := List.mem_cons_self
      expected := fun hProc => Nat.lt_irrefl _ (h.expected _ hProc) }

theorem Swapping.failSwap {kind : SwapKind}
    (hEnds : session.teardownPromise = none → session.restartFailing = false → kind = .restart) : Swapping (failSwap kind session) := by
  cases kind with
  | restart => exact h.unchanged rfl rfl rfl rfl rfl fun _ hIdle => by cases hIdle.2
  | clear => exact h.unchanged rfl rfl rfl rfl rfl fun hNone hIdle => by cases hEnds hNone hIdle.2
  | reload => exact h.unchanged rfl rfl rfl rfl rfl fun hNone hIdle => by cases hEnds hNone hIdle.2

theorem Swapping.swapAwaited {succeeds : Bool} (hMeets : ControlSucceeds session (.swapAwaited succeeds)) :
    Swapping (swapAwaited succeeds session) := by
  obtain hSame | ⟨swap, hSwap, ⟨phase, hPhase⟩ | ⟨rfl, hPhase, hFail⟩ | hRespawned⟩ := swapAwaited_cases succeeds session
  · rwa [hSame]
  · rw [hPhase]
    exact h.continueSwap swap phase
  · rw [hFail]
    exact h.failSwap fun hNone hFailing => (hMeets rfl hNone hFailing swap hSwap).resolve_right hPhase
  · rw [hRespawned]
    exact h.respawned

theorem Swapping.restartFailed : Swapping (restartFailed session) := by
  unfold AgentSession.restartFailed
  split
  · unfold AgentSession.teardown
    split
    · rename_i phase hPhase
      exact h.unchanged rfl rfl rfl rfl rfl fun hNone => by cases hPhase.symm.trans hNone
    · exact h.unchanged rfl rfl rfl rfl rfl nofun
  · exact h

theorem Swapping.teardownAwaited (succeeds : Bool) : Swapping (teardownAwaited succeeds session) := by
  unfold AgentSession.teardownAwaited
  cases hPhase : session.teardownPromise with
  | none => exact h
  | some phase =>
    cases phase with
    | coordinator =>
      dsimp only
      split
      · exact h
      · exact h.unchanged rfl rfl rfl rfl rfl nofun
    | contextControl =>
      dsimp only
      split
      · exact h
      · exact
          { last := h.last
            stopped := List.forall_mem_cons.mpr ⟨h.current_lt, h.stopped⟩
            expected := h.expected
            attended := nofun }
    | shutdown => exact h.unchanged rfl rfl rfl rfl rfl nofun
    | exitCode =>
      dsimp only
      split
      · exact h
      · exact h.unchanged rfl rfl rfl rfl rfl nofun
    | sessionEnd =>
      cases succeeds with
      | true => exact h.unchanged rfl rfl rfl rfl rfl nofun
      | false =>
        have hRejected : Swapping { session with teardownPromise := some .rejected } := h.unchanged rfl rfl rfl rfl rfl nofun
        dsimp only
        rw [if_neg Bool.false_ne_true]
        split
        · exact hRejected
        · exact hRejected.unchanged rfl rfl rfl rfl rfl nofun
    | runnerShutdown =>
      have hReturned : Swapping { session with teardownPromise := some .returned } := h.unchanged rfl rfl rfl rfl rfl nofun
      exact hReturned.resolve
    | returned => exact h
    | rejected => exact h

theorem Swapping.next {event : SessionEvent} (hMeets : ControlSucceeds session event) : Swapping (next session event).1 := by
  cases event with
  | signal =>
    change Swapping (signal session)
    unfold signal
    split
    · exact h.finish
    · exact h
  | exits proc code => exact h.exits proc code
  | grant kind => exact h.grant kind
  | swapAwaited succeeds => exact h.swapAwaited hMeets
  | restartFailed => exact h.restartFailed
  | teardownAwaited succeeds => exact h.teardownAwaited succeeds

end

/-- Between two swaps the session has a running agent whose exit ends it, or the teardown has begun, in every run in which no clear
or reload fails once it has stopped the agent. -/
theorem never_outlives_agent (signals : SignalMode) (events : List SessionEvent)
    (hMeets : ∀ step ∈ Transcript.run AgentSession.next (create signals) events, ControlSucceeds step.before step.input) :
    Idle (run signals events) → Attended (run signals events) ∨ (run signals events).teardownPromise ≠ none := by
  have hSwapping := final_invariant_of (P := Swapping) (fun _ _ h hStep => h.next hStep) (swapping_create signals) hMeets
  intro hIdle
  by_cases hNone : (run signals events).teardownPromise = none
  · exact .inl (hSwapping.attended hNone hIdle)
  · exact .inr hNone

theorem failed_clear_leaves_none : ¬ ∀ (signals : SignalMode) (events : List SessionEvent),
    Idle (run signals events) → Attended (run signals events) ∨ (run signals events).teardownPromise ≠ none := by
  intro hAll
  obtain hAttended | hEnded := hAll .teardown [.grant .clear, .swapAwaited true, .exits 0 (some 0), .swapAwaited true, .swapAwaited false]
    ⟨by decide, by decide⟩
  · exact hAttended.running (by decide)
  · exact hEnded (by decide)

theorem reload_without_refetch_attended :
    Attended (run .teardown [.grant .reload, .swapAwaited true, .exits 0 (some 0), .swapAwaited true, .swapAwaited true, .swapAwaited false,
      .swapAwaited false, .swapAwaited true, .swapAwaited true]) :=
  (never_outlives_agent .teardown _ (by decide) ⟨by decide, by decide⟩).resolve_right (by decide)

end CommandSuite.AgentSession
