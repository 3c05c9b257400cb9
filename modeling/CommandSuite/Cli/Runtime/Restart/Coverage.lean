import CommandSuite.Cli.Runtime.Restart
import CommandSuite.Library.Obligation

/-! # No edit is lost

A request is answered by a refetch of both kinds that begins after it, and by a respawn with what they fetched.
-/

namespace CommandSuite.RestartCoordinator

open Library Library.Transcript

inductive RestartHook where
  | activity | gate | detach | stopCurrent | refreshInstructions | refreshSecrets | respawn | onFailure
  deriving DecidableEq

def hookOf : RestartCall → RestartHook
  | .activity => .activity
  | .gate => .gate
  | .detach => .detach
  | .stopCurrent => .stopCurrent
  | .refreshInstructions => .refreshInstructions
  | .refreshSecrets => .refreshSecrets
  | .respawn _ => .respawn
  | .onFailure => .onFailure

def answer : List RestartHook := [.refreshInstructions, .refreshSecrets, .respawn]

/-- The coordinator is not closed, and what fails of a cycle is at most a refetch. -/
def KeepsGoing (coordinator : RestartCoordinator) : RestartEvent → Prop
  | .request _ => True
  | .close => False
  | .awaited succeeds => succeeds = true ∨ coordinator.inFlight = some .refreshInstructions ∨ coordinator.inFlight = some .refreshSecrets

/-- The request does not arrive while the running cycle is fetching. -/
def MissesNoFetch (coordinator : RestartCoordinator) : RestartEvent → Prop
  | .request _ => coordinator.inFlight ≠ some .refreshInstructions ∧ coordinator.inFlight ≠ some .refreshSecrets
  | _ => True

instance (coordinator : RestartCoordinator) : (event : RestartEvent) → Decidable (KeepsGoing coordinator event)
  | .request _ => .isTrue trivial
  | .close => .isFalse id
  | .awaited succeeds => inferInstanceAs (Decidable (succeeds = true ∨ _ ∨ _))

instance (coordinator : RestartCoordinator) : (event : RestartEvent) → Decidable (MissesNoFetch coordinator event)
  | .request _ => inferInstanceAs (Decidable (_ ∧ _))
  | .close => .isTrue trivial
  | .awaited _ => .isTrue trivial

def isAwaited : RestartEvent → Bool
  | .awaited _ => true
  | _ => false

def hooksOf (steps : List (Step RestartCoordinator RestartEvent (List RestartCall))) : List RestartHook :=
  Obligation.doneIn (List.map hookOf) steps

def owed (coordinator : RestartCoordinator) : List RestartHook :=
  match coordinator.inFlight with
  | none => []
  | some .waitForIdle | some .gate | some .stopCurrent => answer
  | some .refreshInstructions => [.refreshSecrets, .respawn]
  | some .refreshSecrets => [.respawn]
  | some .respawn | some (.ended _) => if coordinator.rearm then answer else []

def distance (coordinator : RestartCoordinator) : Nat :=
  match coordinator.inFlight with
  | none => 1
  | some .waitForIdle => 5
  | some .gate => 4
  | some .stopCurrent => 3
  | some .refreshInstructions => 2
  | some .refreshSecrets => 1
  | some .respawn => 7
  | some (.ended _) => 6

structure Going (coordinator : RestartCoordinator) : Prop where
  opened : coordinator.closed = false
  uncovered : coordinator.inFlight = some .respawn ∨ (∃ failed, coordinator.inFlight = some (.ended failed)) → coordinator.covered = false

theorem going_create : Going create := ⟨rfl, fun h => by simp [create] at h⟩

variable {coordinator : RestartCoordinator}

theorem request_cases (hOpen : coordinator.closed = false) (reason : RestartReason) :
    ∃ reasons, reasons ≠ [] ∧ ((coordinator.inFlight = none ∧ (request reason coordinator).2 = [.activity] ∧
        (request reason coordinator).1 =
          { coordinator with covered := true, inFlight := some .waitForIdle, pending := false, reasons := reasons }) ∨
      (coordinator.inFlight ≠ none ∧ (request reason coordinator).2 = [] ∧
        (request reason coordinator).1 =
          { coordinator with rearm := coordinator.rearm || !coordinator.covered, reasons := reasons })) := by
  refine ⟨if reason ∈ coordinator.reasons then coordinator.reasons else coordinator.reasons ++ [reason], ?_, ?_⟩
  · split
    · rename_i hMem
      exact List.ne_nil_of_mem hMem
    · simp
  obtain ⟨closed, pending, inFlight, rearm, covered, reasons⟩ := coordinator
  cases inFlight with
  | none => exact .inl (by simp_all [request, launch, runCycle])
  | some phase =>
    refine .inr ⟨by simp, ?_⟩
    cases covered <;> simp_all [request]

theorem settle_open (hOpen : coordinator.closed = false) (failed : Bool) :
    (settle failed coordinator).1 =
      if coordinator.pending || coordinator.rearm then
        { coordinator with rearm := false, pending := false, covered := true, inFlight := some .waitForIdle }
      else { coordinator with inFlight := none } := by
  cases hArmed : coordinator.pending || coordinator.rearm <;> simp [settle, hOpen, hArmed, launch, runCycle]

variable {event : RestartEvent}

section

variable (hGoing : Going coordinator)
include hGoing

theorem going_next (hKeeps : KeepsGoing coordinator event) : Going (next coordinator event).1 := by
  obtain ⟨hOpen, hUncovered⟩ := hGoing
  cases event with
  | request reason =>
    obtain ⟨reasons, -, ⟨-, -, hNext⟩ | ⟨-, -, hNext⟩⟩ := request_cases hOpen reason
    · exact ⟨by rw [next, hNext]; exact hOpen, fun h => by simp [next, hNext] at h⟩
    · exact ⟨by rw [next, hNext]; exact hOpen, by rw [next, hNext]; exact hUncovered⟩
  | close => exact hKeeps.elim
  | awaited succeeds =>
    cases hPhase : coordinator.inFlight with
    | none => exact ⟨by simpa [next, resume, hPhase] using hOpen, by simp [next, resume, hPhase]⟩
    | some phase =>
      have hNotFetching : phase ≠ .refreshInstructions → phase ≠ .refreshSecrets → succeeds = true := by
        intro hInstructions hSecrets
        simpa [KeepsGoing, hPhase, hInstructions, hSecrets] using hKeeps
      cases phase with
      | waitForIdle =>
        obtain rfl := hNotFetching (by decide) (by decide)
        exact ⟨by simp [next, resume, hPhase, drained, hOpen], fun h => by simp [next, resume, hPhase, drained, hOpen] at h⟩
      | gate =>
        obtain rfl := hNotFetching (by decide) (by decide)
        exact ⟨by simp [next, resume, hPhase, swap, hOpen], fun h => by simp [next, resume, hPhase, swap, hOpen] at h⟩
      | stopCurrent =>
        obtain rfl := hNotFetching (by decide) (by decide)
        exact ⟨by simp [next, resume, hPhase, stopped, hOpen], fun h => by simp [next, resume, hPhase, stopped] at h⟩
      | refreshInstructions =>
        exact ⟨by simp [next, resume, hPhase, instructionsRefreshed, hOpen],
          fun h => by simp [next, resume, hPhase, instructionsRefreshed] at h⟩
      | refreshSecrets => exact ⟨by simp [next, resume, hPhase, secretsRefreshed, hOpen], fun _ => by simp [next, resume, hPhase, secretsRefreshed]⟩
      | respawn =>
        have hFetched : coordinator.covered = false := hUncovered (.inl hPhase)
        exact ⟨by simp [next, resume, hPhase, endCycle, hOpen], fun _ => by simp [next, resume, hPhase, endCycle, hFetched]⟩
      | ended failed =>
        have hSettled : (next coordinator (.awaited succeeds)).1 = (settle failed coordinator).1 := by simp [next, resume, hPhase]
        rw [hSettled, settle_open hOpen]
        split
        · exact ⟨hOpen, fun h => by simp at h⟩
        · exact ⟨hOpen, fun h => by simp at h⟩

theorem owed_next (hKeeps : KeepsGoing coordinator event) (hOwed : owed coordinator ≠ []) :
    List.Sublist (owed coordinator) ((next coordinator event).2.map hookOf) ∨
      (List.Sublist (owed coordinator) ((next coordinator event).2.map hookOf ++ owed (next coordinator event).1) ∧
        distance (next coordinator event).1 + (if isAwaited event then 1 else 0) ≤ distance coordinator) := by
  obtain ⟨hOpen, hUncovered⟩ := hGoing
  cases event with
  | request reason =>
    obtain ⟨reasons, -, ⟨hNone, -, -⟩ | ⟨-, -, hNext⟩⟩ := request_cases hOpen reason
    · simp [owed, hNone] at hOwed
    · refine .inr ⟨(?_ : List.Sublist _ _).trans (List.sublist_append_right _ _), ?_⟩
      · rw [next, hNext]
        cases hPhase : coordinator.inFlight with
        | none => simp [owed, hPhase]
        | some phase => cases phase <;> cases hRearm : coordinator.rearm <;> simp [owed, hPhase, hRearm]
      · rw [next, hNext]
        simp [distance, isAwaited]
  | close => exact hKeeps.elim
  | awaited succeeds =>
    cases hPhase : coordinator.inFlight with
    | none => simp [owed, hPhase] at hOwed
    | some phase =>
      have hNotFetching : phase ≠ .refreshInstructions → phase ≠ .refreshSecrets → succeeds = true := by
        intro hInstructions hSecrets
        simpa [KeepsGoing, hPhase, hInstructions, hSecrets] using hKeeps
      cases phase with
      | waitForIdle =>
        obtain rfl := hNotFetching (by decide) (by decide)
        exact .inr (by simp [next, resume, hPhase, drained, hOpen, owed, distance, isAwaited])
      | gate =>
        obtain rfl := hNotFetching (by decide) (by decide)
        exact .inr (by simp [next, resume, hPhase, swap, hOpen, owed, distance, isAwaited, hookOf, answer])
      | stopCurrent =>
        obtain rfl := hNotFetching (by decide) (by decide)
        exact .inr (by simp [next, resume, hPhase, stopped, owed, distance, isAwaited, hookOf, answer])
      | refreshInstructions =>
        exact .inr (by simp [next, resume, hPhase, instructionsRefreshed, owed, distance, isAwaited, hookOf])
      | refreshSecrets => exact .inl (by simp [next, resume, hPhase, secretsRefreshed, owed, hookOf])
      | respawn => exact .inr (by simp [next, resume, hPhase, endCycle, owed, distance, isAwaited])
      | ended failed =>
        have hRearm : coordinator.rearm = true := by
          by_contra hNot
          simp [owed, hPhase, hNot] at hOwed
        have hSettled : (next coordinator (.awaited succeeds)).1 = (settle failed coordinator).1 := by simp [next, resume, hPhase]
        rw [hSettled, settle_open hOpen, hRearm, Bool.or_true, if_pos rfl]
        exact .inr (by simp [owed, distance, isAwaited, hPhase, hRearm])

theorem owed_sublist_next (hKeeps : KeepsGoing coordinator event) :
    List.Sublist (owed coordinator) ((next coordinator event).2.map hookOf ++ owed (next coordinator event).1) := by
  by_cases hOwed : owed coordinator = []
  · rw [hOwed]
    exact List.nil_sublist _
  · obtain hCalled | ⟨hLeft, -⟩ := owed_next hGoing hKeeps hOwed
    · exact hCalled.trans (List.sublist_append_left _ _)
    · exact hLeft

theorem owed_request {reason : RestartReason} (hMisses : MissesNoFetch coordinator (.request reason)) :
    owed (next coordinator (.request reason)).1 = answer ∧ distance (next coordinator (.request reason)).1 ≤ 7 := by
  obtain ⟨hOpen, hUncovered⟩ := hGoing
  obtain ⟨hInstructions, hSecrets⟩ := hMisses
  obtain ⟨reasons, -, ⟨-, -, hNext⟩ | ⟨hSome, -, hNext⟩⟩ := request_cases hOpen reason
  · rw [next, hNext]
    exact ⟨rfl, by simp [distance]⟩
  · rw [next, hNext]
    cases hPhase : coordinator.inFlight with
    | none => exact absurd hPhase hSome
    | some phase =>
      cases phase with
      | refreshInstructions => exact absurd hPhase hInstructions
      | refreshSecrets => exact absurd hPhase hSecrets
      | respawn => simp [owed, distance, hUncovered (.inl hPhase)]
      | ended failed => simp [owed, distance, hUncovered (.inr ⟨failed, hPhase⟩)]
      | _ => simp [owed, distance]

end

/-! ## Every run -/

/-- In a run whose requests miss no fetch, each is answered: by the time the coordinator is settled, and within seven of
the awaits after it. -/
theorem requests_answered (events : List RestartEvent) (hKeeps : ∀ step ∈ run next create events, KeepsGoing step.before step.input)
    (hMisses : ∀ step ∈ run next create events, MissesNoFetch step.before step.input)
    (before after : List (Step RestartCoordinator RestartEvent (List RestartCall)))
    (step : Step RestartCoordinator RestartEvent (List RestartCall)) (hRun : run next create events = before ++ step :: after)
    (reason : RestartReason) (hRequest : step.input = .request reason)
    (hLater : isSettled (final next create events) = true ∨ 7 ≤ (after.filter fun step => isAwaited step.input).length) :
    List.Sublist answer (hooksOf after) := by
  obtain ⟨earlier, event, later, rfl, rfl, rfl, rfl⟩ := run_eq_append_cons next hRun
  obtain rfl : event = .request reason := hRequest
  rw [hRun] at hKeeps hMisses
  have hEarlier : ∀ step ∈ run next create earlier, KeepsGoing step.before step.input := fun step hStep =>
    hKeeps step (List.mem_append_left _ hStep)
  have hLaterKeeps := fun step hStep => hKeeps step (List.mem_append_right _ (List.mem_cons_of_mem _ hStep))
  have hGoing : Going (final next create earlier) := final_invariant_of (fun _ _ => going_next) going_create hEarlier
  have hAfter : Going (next (final next create earlier) (.request reason)).1 := going_next hGoing trivial
  obtain ⟨hOwed, hDistance⟩ := owed_request hGoing (hMisses _ (List.mem_append_right _ List.mem_cons_self))
  rw [← hOwed]
  obtain hSettled | hAwaits := hLater
  · have hDone := Obligation.owed_sublist (fun _ _ => going_next) (fun _ _ => owed_sublist_next) hAfter hLaterKeeps
    -- A settled coordinator owes nothing.
    have hNothing : owed (final next (next (final next create earlier) (.request reason)).1 later) = [] := by
      rw [final_append, final_cons, isSettled, Option.isNone_iff_eq_none] at hSettled
      rw [owed, hSettled]
    rwa [hNothing, List.append_nil] at hDone
  · refine Obligation.owed_sublist_of_own (fun _ _ => going_next) (fun _ _ => owed_next) (fun s _ => ?_) hAfter hLaterKeeps
      (hDistance.trans ?_)
    · unfold distance
      split <;> decide
    · rw [← map_input_run next _ later, List.filter_map, List.length_map]
      exact hAwaits

theorem request_during_fetch_lost :
    ¬∀ events : List RestartEvent, (∀ step ∈ run next create events, KeepsGoing step.before step.input) →
      ∀ before after step, run next create events = before ++ step :: after → ∀ reason, step.input = .request reason →
        isSettled (final next create events) = true → List.Sublist answer (hooksOf after) := by
  intro hAnswered
  let first : List RestartEvent := [.request .instructions, .awaited true, .awaited true, .awaited true, .awaited true]
  let second : List RestartEvent := [.awaited true, .awaited true, .awaited true]
  have hLost := hAnswered (first ++ .request .instructions :: second) (by decide) (run next create first)
    (run next (next (final next create first) (.request .instructions)).1 second)
    (stepAt next (final next create first) (.request .instructions)) (run_append next create first _) .instructions rfl (by decide)
  exact absurd hLost (by decide)

theorem request_during_respawn_answered :
    List.Sublist answer (hooksOf (run next
      (next (final next create [.request .instructions, .awaited true, .awaited true, .awaited true, .awaited true, .awaited true])
        (.request .instructions)).1 (List.replicate 9 (.awaited true)))) :=
  requests_answered ([.request .instructions, .awaited true, .awaited true, .awaited true, .awaited true, .awaited true] ++
      .request .instructions :: List.replicate 9 (.awaited true)) (by decide) (by decide)
    (run next create [.request .instructions, .awaited true, .awaited true, .awaited true, .awaited true, .awaited true]) _
    (stepAt next _ (.request .instructions)) (run_append next create _ _) .instructions rfl (.inr (by decide))

end CommandSuite.RestartCoordinator
