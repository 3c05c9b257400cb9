import CommandSuite.Cli.Runtime.Restart.Coverage

/-! # Restarts are bounded by edits

Unless a refetch of the instructions fails, every respawn has a request of its own and names a reason, and the
coordinator settles after the last request.
-/

namespace CommandSuite.RestartCoordinator

open Library Library.Transcript

def FetchesInstructions (coordinator : RestartCoordinator) : RestartEvent → Prop
  | .awaited succeeds => coordinator.inFlight = some .refreshInstructions → succeeds = true
  | _ => True

instance (coordinator : RestartCoordinator) : (event : RestartEvent) → Decidable (FetchesInstructions coordinator event)
  | .request _ => .isTrue trivial
  | .close => .isTrue trivial
  | .awaited succeeds => inferInstanceAs (Decidable (_ → succeeds = true))

def isRequest : RestartEvent → Bool
  | .request _ => true
  | _ => false

def isRespawn : RestartCall → Bool
  | .respawn _ => true
  | _ => false

def respawns (steps : List (Step RestartCoordinator RestartEvent (List RestartCall))) : List RestartCall :=
  Obligation.doneIn (List.filter isRespawn) steps

def isGathering : Option RestartPhase → Bool
  | some .waitForIdle | some .gate | some .stopCurrent | some .refreshInstructions | some .refreshSecrets => true
  | _ => false

/-- A gathering cycle covers every request and has a reason, and a cycle is armed by a request that left its reason. -/
structure Sound (coordinator : RestartCoordinator) : Prop where
  pending : coordinator.pending = false
  covered : isGathering coordinator.inFlight = true → coordinator.covered = true
  reasons : isGathering coordinator.inFlight = true → coordinator.reasons ≠ []
  unarmed : isGathering coordinator.inFlight = true → coordinator.rearm = false
  settled : coordinator.inFlight = none → coordinator.rearm = true → coordinator.closed = true
  armed : coordinator.rearm = true → coordinator.reasons ≠ []

theorem sound_create : Sound create := ⟨rfl, fun _ => rfl, by decide, fun _ => rfl, by decide, by decide⟩

def credit (coordinator : RestartCoordinator) : Nat := (isGathering coordinator.inFlight).toNat + coordinator.rearm.toNat

def left : RestartPhase → Nat
  | .waitForIdle => 7
  | .gate => 6
  | .stopCurrent => 5
  | .refreshInstructions => 4
  | .refreshSecrets => 3
  | .respawn => 2
  | .ended _ => 1

def remaining (coordinator : RestartCoordinator) : Nat :=
  match coordinator.inFlight with
  | none => 0
  | some phase => left phase + 7 * coordinator.rearm.toNat

variable {coordinator : RestartCoordinator} {event : RestartEvent}

theorem request_closed (h : coordinator.closed = true) (reason : RestartReason) : request reason coordinator = (coordinator, []) := by
  simp [request, h]

theorem resume_cases {succeeds : Bool} (hFetches : FetchesInstructions coordinator (.awaited succeeds)) {phase : RestartPhase}
    (hPhase : coordinator.inFlight = some phase) :
    (isGathering (some phase) = true ∧ ∃ later calls, isGathering (some later) = true ∧ left later < left phase ∧
        calls.filter isRespawn = [] ∧ resume succeeds coordinator = ({ coordinator with inFlight := some later }, calls)) ∨
      (phase = .refreshSecrets ∧ resume succeeds coordinator = secretsRefreshed coordinator) ∨
      (1 < left phase ∧ ∃ failed, resume succeeds coordinator = ({ coordinator with inFlight := some (.ended failed) }, [])) ∨
      ∃ failed, phase = .ended failed ∧ resume succeeds coordinator = settle failed coordinator := by
  cases phase with
  | waitForIdle =>
    cases succeeds with
    | false => exact .inr (.inr (.inl ⟨by decide, true, by simp [resume, hPhase, endCycle]⟩))
    | true =>
      cases hClosed : coordinator.closed with
      | true => exact .inr (.inr (.inl ⟨by decide, false, by simp [resume, hPhase, drained, hClosed, endCycle]⟩))
      | false => exact .inl ⟨rfl, .gate, [.gate], rfl, by decide, rfl, by simp [resume, hPhase, drained, hClosed]⟩
  | gate =>
    cases succeeds with
    | false => exact .inr (.inr (.inl ⟨by decide, true, by simp [resume, hPhase, endCycle]⟩))
    | true =>
      cases hClosed : coordinator.closed with
      | true => exact .inr (.inr (.inl ⟨by decide, false, by simp [resume, hPhase, swap, hClosed, endCycle]⟩))
      | false => exact .inl ⟨rfl, .stopCurrent, [.detach, .stopCurrent], rfl, by decide, rfl, by simp [resume, hPhase, swap, hClosed]⟩
  | stopCurrent =>
    cases succeeds with
    | false => exact .inr (.inr (.inl ⟨by decide, true, by simp [resume, hPhase, endCycle]⟩))
    | true => exact .inl ⟨rfl, .refreshInstructions, [.refreshInstructions], rfl, by decide, rfl, by simp [resume, hPhase, stopped]⟩
  | refreshInstructions =>
    obtain rfl := hFetches hPhase
    exact .inl ⟨rfl, .refreshSecrets, [.refreshSecrets], rfl, by decide, rfl, by simp [resume, hPhase, instructionsRefreshed]⟩
  | refreshSecrets => exact .inr (.inl ⟨rfl, by simp [resume, hPhase]⟩)
  | respawn => exact .inr (.inr (.inl ⟨by decide, !succeeds, by simp [resume, hPhase, endCycle]⟩))
  | ended failed => exact .inr (.inr (.inr ⟨failed, rfl, by simp [resume, hPhase]⟩))

theorem settle_cases (hPending : coordinator.pending = false) (failed : Bool) :
    (settle failed coordinator).2.filter isRespawn = [] ∧
      (((coordinator.rearm = true → coordinator.closed = true) ∧ (settle failed coordinator).1 = { coordinator with inFlight := none }) ∨
        (coordinator.rearm = true ∧ (settle failed coordinator).1 =
          { coordinator with rearm := false, covered := true, inFlight := some .waitForIdle })) := by
  obtain ⟨closed, pending, inFlight, rearm, covered, reasons⟩ := coordinator
  obtain rfl : pending = false := hPending
  cases closed <;> cases rearm <;> cases failed <;> simp [settle, launch, runCycle, isRespawn]

section

variable (hSound : Sound coordinator)
include hSound

theorem sound_next (hFetches : FetchesInstructions coordinator event) : Sound (next coordinator event).1 := by
  cases event with
  | request reason =>
    cases hClosed : coordinator.closed with
    | true =>
      rw [next, request_closed hClosed]
      exact hSound
    | false =>
      obtain ⟨reasons, hReasons, hRequest⟩ := request_cases hClosed reason
      obtain ⟨hNone, -, hNext⟩ | ⟨hSome, -, hNext⟩ := hRequest
      · have hUnarmed : coordinator.rearm = false := by
          by_contra hArmed
          simp [hSound.settled hNone (Bool.eq_true_of_not_eq_false hArmed)] at hClosed
        rw [next, hNext]
        exact ⟨rfl, fun _ => rfl, fun _ => hReasons, fun _ => hUnarmed, by rintro ⟨⟩, fun _ => hReasons⟩
      · rw [next, hNext]
        refine ⟨hSound.pending, hSound.covered, fun _ => hReasons, fun hGathering => ?_, fun hNone => absurd hNone hSome, fun _ => hReasons⟩
        simp [hSound.unarmed hGathering, hSound.covered hGathering]
  | close => exact ⟨hSound.pending, hSound.covered, hSound.reasons, hSound.unarmed, fun _ _ => rfl, hSound.armed⟩
  | awaited succeeds =>
    cases hPhase : coordinator.inFlight with
    | none =>
      have hSame : (next coordinator (.awaited succeeds)).1 = coordinator := by simp [next, resume, hPhase]
      rw [hSame]
      exact hSound
    | some phase =>
      obtain ⟨hGathering, later, calls, -, -, -, hNext⟩ | ⟨rfl, hNext⟩ | ⟨-, failed, hNext⟩ | ⟨failed, rfl, hNext⟩ := resume_cases hFetches hPhase
      · rw [← hPhase] at hGathering
        rw [next, hNext]
        exact ⟨hSound.pending, fun _ => hSound.covered hGathering, fun _ => hSound.reasons hGathering,
          fun _ => hSound.unarmed hGathering, by rintro ⟨⟩, hSound.armed⟩
      · -- The snapshot leaves no reason, and the cycle is not armed.
        have hUnarmed : coordinator.rearm = false := hSound.unarmed (by rw [hPhase]; rfl)
        rw [next, hNext]
        exact ⟨hSound.pending, by rintro ⟨⟩, by rintro ⟨⟩, by rintro ⟨⟩, by rintro ⟨⟩, (by simp [secretsRefreshed, hUnarmed])⟩
      · rw [next, hNext]
        exact ⟨hSound.pending, by rintro ⟨⟩, by rintro ⟨⟩, by rintro ⟨⟩, by rintro ⟨⟩, hSound.armed⟩
      · rw [next, hNext]
        obtain ⟨-, ⟨hClosed, hSettled⟩ | ⟨hArmed, hLaunched⟩⟩ := settle_cases hSound.pending failed
        · rw [hSettled]
          exact ⟨hSound.pending, by rintro ⟨⟩, by rintro ⟨⟩, by rintro ⟨⟩, fun _ => hClosed, hSound.armed⟩
        · rw [hLaunched]
          exact ⟨hSound.pending, fun _ => rfl, fun _ => hSound.armed hArmed, fun _ => rfl, by rintro ⟨⟩, by rintro ⟨⟩⟩

theorem credit_next (hFetches : FetchesInstructions coordinator event) :
    ((next coordinator event).2.filter isRespawn).length + credit (next coordinator event).1 ≤
      credit coordinator + (isRequest event).toNat := by
  cases event with
  | request reason =>
    cases hClosed : coordinator.closed with
    | true =>
      rw [next, request_closed hClosed]
      simp
    | false =>
      obtain ⟨reasons, hReasons, hRequest⟩ := request_cases hClosed reason
      obtain ⟨hNone, hCalls, hNext⟩ | ⟨hSome, hCalls, hNext⟩ := hRequest
      · rw [next, hNext, hCalls]
        change 0 + (1 + coordinator.rearm.toNat) ≤ _ + 1
        simp [credit, hNone, isGathering, Nat.add_comm]
      · rw [next, hNext, hCalls]
        cases hRearm : coordinator.rearm <;> cases coordinator.covered <;> simp [credit, isRequest, hRearm]
  | close => simp [next, close, credit, isRequest]
  | awaited succeeds =>
    cases hPhase : coordinator.inFlight with
    | none => simp [next, resume, hPhase]
    | some phase =>
      obtain ⟨hGathering, later, calls, hLater, -, hCalls, hNext⟩ | ⟨rfl, hNext⟩ | ⟨-, failed, hNext⟩ | ⟨failed, rfl, hNext⟩ := resume_cases hFetches hPhase
      · rw [next, hNext]
        simp [credit, hPhase, hGathering, hLater, hCalls]
      · rw [next, hNext]
        change 1 + (0 + coordinator.rearm.toNat) ≤ _
        simp [credit, hPhase, isGathering]
      · rw [next, hNext]
        change 0 + (0 + coordinator.rearm.toNat) ≤ _
        rw [credit]
        omega
      · rw [next, hNext]
        obtain ⟨hCalls, ⟨-, hSettled⟩ | ⟨hArmed, hLaunched⟩⟩ := settle_cases hSound.pending failed
        · rw [hSettled, hCalls]
          change 0 + (0 + coordinator.rearm.toNat) ≤ _
          rw [credit]
          omega
        · rw [hLaunched, hCalls]
          simp [credit, hPhase, hArmed, isGathering]

theorem respawn_reasons (hFetches : FetchesInstructions coordinator event) {reasons : List RestartReason}
    (hRespawn : RestartCall.respawn reasons ∈ (next coordinator event).2.filter isRespawn) : reasons ≠ [] := by
  cases event with
  | request reason =>
    cases hClosed : coordinator.closed with
    | true => simp [next, request_closed hClosed] at hRespawn
    | false =>
      obtain ⟨_, -, ⟨-, hCalls, -⟩ | ⟨-, hCalls, -⟩⟩ := request_cases hClosed reason
      · simp [next, hCalls] at hRespawn
      · simp [next, hCalls] at hRespawn
  | close => simp [next] at hRespawn
  | awaited succeeds =>
    cases hPhase : coordinator.inFlight with
    | none => simp [next, resume, hPhase] at hRespawn
    | some phase =>
      obtain ⟨-, later, calls, -, -, hCalls, hNext⟩ | ⟨rfl, hNext⟩ | ⟨-, failed, hNext⟩ | ⟨failed, rfl, hNext⟩ := resume_cases hFetches hPhase
      · rw [next, hNext, hCalls] at hRespawn
        cases hRespawn
      · rw [next, hNext] at hRespawn
        obtain rfl : reasons = coordinator.reasons := by simpa [secretsRefreshed, isRespawn] using hRespawn
        exact hSound.reasons (by rw [hPhase]; rfl)
      · simp [next, hNext] at hRespawn
      · rw [next, hNext, (settle_cases hSound.pending failed).1] at hRespawn
        cases hRespawn

theorem remaining_next (hFetches : FetchesInstructions coordinator event ∧ isRequest event = false) :
    remaining (next coordinator event).1 ≤ remaining coordinator - if isAwaited event then 1 else 0 := by
  cases event with
  | request reason => cases hFetches.2
  | close => exact Nat.le_refl _
  | awaited succeeds =>
    cases hPhase : coordinator.inFlight with
    | none => simp [next, resume, remaining, hPhase]
    | some phase =>
      obtain ⟨-, later, calls, -, hLater, -, hNext⟩ | ⟨rfl, hNext⟩ | ⟨hEarly, failed, hNext⟩ | ⟨failed, rfl, hNext⟩ := resume_cases hFetches.1 hPhase
      · rw [next, hNext, remaining, remaining, hPhase]
        change left later + 7 * coordinator.rearm.toNat ≤ left phase + 7 * coordinator.rearm.toNat - 1
        omega
      · rw [next, hNext, remaining, remaining, hPhase]
        change 2 + 7 * coordinator.rearm.toNat ≤ 3 + 7 * coordinator.rearm.toNat - 1
        omega
      · rw [next, hNext, remaining, remaining, hPhase]
        change 1 + 7 * coordinator.rearm.toNat ≤ left phase + 7 * coordinator.rearm.toNat - 1
        omega
      · rw [next, hNext]
        obtain ⟨-, ⟨-, hSettled⟩ | ⟨hArmed, hLaunched⟩⟩ := settle_cases hSound.pending failed
        · rw [hSettled]
          simp [remaining]
        · rw [hLaunched]
          simp [remaining, hPhase, hArmed, isAwaited, left]

/-! ## Every run -/

theorem respawns_le {events : List RestartEvent}
    (hFetches : ∀ step ∈ run next coordinator events, FetchesInstructions step.before step.input) :
    (respawns (run next coordinator events)).length + credit (final next coordinator events) ≤
      credit coordinator + (events.filter isRequest).length := by
  induction events generalizing coordinator with
  | nil => simp [respawns, Obligation.doneIn]
  | cons event events ih =>
    obtain ⟨hFirst, hRest⟩ := List.forall_mem_cons.mp hFetches
    have hStep := credit_next hSound hFirst
    have hRun : (respawns (run next (next coordinator event).1 events)).length + credit (final next (next coordinator event).1 events) ≤
        credit (next coordinator event).1 + (events.filter isRequest).length := ih (sound_next hSound hFirst) hRest
    have hLength : (respawns (run next coordinator (event :: events))).length =
        ((next coordinator event).2.filter isRespawn).length + (respawns (run next (next coordinator event).1 events)).length := by
      simp [respawns, Obligation.doneIn]
    rw [hLength, final_cons, List.filter_cons]
    cases hRequest : isRequest event <;> simp [hRequest] at hStep ⊢ <;> omega

end

/-- Where no refetch of the instructions fails, `n` requests make at most `2n` respawns, each with a reason, and the
coordinator is settled within fourteen awaits of the last request. -/
theorem restarts_bounded (events : List RestartEvent)
    (hFetches : ∀ step ∈ run next create events, FetchesInstructions step.before step.input) :
    (respawns (run next create events)).length ≤ 2 * (events.filter isRequest).length ∧
      (∀ reasons, RestartCall.respawn reasons ∈ respawns (run next create events) → reasons ≠ []) ∧
      ∀ before after, events = before ++ after → (∀ event ∈ after, isRequest event = false) →
        14 ≤ (after.filter isAwaited).length → isSettled (final next create events) = true := by
  refine ⟨?_, fun reasons hRespawn => ?_, ?_⟩
  · have hLength := respawns_le sound_create hFetches
    have hCredit : credit create = 0 := rfl
    omega
  · obtain ⟨step, hStep, hRespawn⟩ := List.mem_flatMap.mp hRespawn
    obtain ⟨hSound, hAt⟩ := run_invariant_of (fun _ _ => sound_next) sound_create hFetches step hStep
    rw [hAt] at hRespawn
    exact respawn_reasons hSound (hFetches step hStep) hRespawn
  · rintro before after rfl hNone hAwaits
    rw [run_append] at hFetches
    have hSound := final_invariant_of (fun _ _ => sound_next) sound_create fun step hStep => hFetches step (List.mem_append_left _ hStep)
    have hRank : remaining (final next (final next create before) after) ≤
        remaining (final next create before) - (after.filter isAwaited).length := by
      refine Obligation.rank_final_le (C := fun coordinator event => FetchesInstructions coordinator event ∧ isRequest event = false)
        (fun _ _ h hMeets => sound_next h hMeets.1) (fun _ _ => remaining_next) hSound fun step hStep => ⟨?_, ?_⟩
      · exact hFetches step (List.mem_append_right _ hStep)
      · refine hNone _ ?_
        rw [← map_input_run next (final next create before) after]
        exact List.mem_map_of_mem hStep
    have hStart : remaining (final next create before) ≤ 14 := by
      unfold remaining
      split
      · exact Nat.zero_le _
      · rename_i phase _
        have hRearm := (final next create before).rearm.toNat_le
        cases phase <;> simp only [left] <;> omega
    have hZero : remaining (final next create (before ++ after)) = 0 := by
      rw [final_append]
      omega
    rw [isSettled, Option.isNone_iff_eq_none]
    cases hPhase : (final next create (before ++ after)).inFlight with
    | none => rfl
    | some phase =>
      rw [remaining, hPhase] at hZero
      cases phase <;> simp [left] at hZero

theorem failing_refetch_restarts_forever :
    ¬∀ events : List RestartEvent, (respawns (run next create events)).length ≤ 2 * (events.filter isRequest).length ∧
      (∀ reasons, RestartCall.respawn reasons ∈ respawns (run next create events) → reasons ≠ []) ∧
      ∀ before after, events = before ++ after → (∀ event ∈ after, isRequest event = false) →
        14 ≤ (after.filter isAwaited).length → isSettled (final next create events) = true := by
  intro hBounded
  -- The idle wait, the lock, the stop, the failing refetch, the secrets, the respawn and the end of the cycle.
  let cycle : List RestartEvent := [.awaited true, .awaited true, .awaited true, .awaited false, .awaited true, .awaited true, .awaited true]
  have hThrice := (hBounded (.request .instructions :: (cycle ++ cycle ++ cycle))).1
  exact absurd hThrice (by decide)

theorem two_edits_bounded :
    let events : List RestartEvent := .request .instructions :: List.replicate 5 (.awaited true) ++
      .request .environment :: List.replicate 14 (.awaited true)
    (respawns (run next create events)).length ≤ 2 * (events.filter isRequest).length ∧
      (∀ reasons, RestartCall.respawn reasons ∈ respawns (run next create events) → reasons ≠ []) ∧
      ∀ before after, events = before ++ after → (∀ event ∈ after, isRequest event = false) →
        14 ≤ (after.filter isAwaited).length → isSettled (final next create events) = true :=
  restarts_bounded _ (by decide)

end CommandSuite.RestartCoordinator
