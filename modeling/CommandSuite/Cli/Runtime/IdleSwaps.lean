import CommandSuite.Cli.Runtime.ContextControl
import CommandSuite.Cli.Runtime.Restart
import CommandSuite.Cli.Runtime.Trace.Busy

/-! # Swaps at idle

The coordinators of restarts and of context controls over one activity signal and one lifecycle lock, as
`packages/cli/src/runtime/agent-session.ts` connects them.
-/

namespace CommandSuite.IdleSwaps

open Library Busy ContextControlCoordinator Transcript

inductive Swapper where
  | restart
  | control (call : ControlCall)
  deriving DecidableEq

/-- A wait that is over, for that there is a signal, has heard of idle when so many handles had been started. -/
inductive Wait where
  | absent
  | grace
  | listening (listener : Nat)
  | heard (started : Nat)

def Wait.isOver : Wait → Bool
  | .grace | .heard _ => true
  | .absent | .listening _ => false

/-- `lock` are the functions that were given to the lifecycle lock, the one that runs at the head. -/
structure World where
  restart : RestartCoordinator
  control : ContextControlCoordinator
  signal : Option ActivitySignal
  lock : List Swapper
  waits : Swapper → Wait
  subscriptions : Nat

def World.start (captured : Bool) : World where
  restart := .create
  control := .create
  signal := if captured then some .created else none
  lock := []
  waits _ := .absent
  subscriptions := 0

/-! ## Waiting for idle -/

def hearsIdle (listener : Nat) (notes : List Note) : Bool := (heard listener notes).any fun heard => heard.state = .idle

def Wait.hear (signal : ActivitySignal) (notes : List Note) : Wait → Wait
  | .listening listener => if hearsIdle listener notes then .heard signal.handles.length else .listening listener
  | wait => wait

def onSignal (call : Call) (world : World) : World :=
  match world.signal with
  | none => world
  | some signal =>
    { world with
      signal := some (call.action signal).1
      waits := fun swapper => (world.waits swapper).hear (call.action signal).1 (call.action signal).2 }

def setWait (swapper : Swapper) (wait : Wait) (world : World) : World := { world with waits := Function.update world.waits swapper wait }

def waitForIdle (swapper : Swapper) (world : World) : World :=
  match world.signal with
  | none => setWait swapper .grace world
  | some _ =>
    onSignal (.subscribe world.subscriptions)
      (setWait swapper (.listening world.subscriptions) { world with subscriptions := world.subscriptions + 1 })

/-! ## The lifecycle lock -/

def withLifecycleLock (swapper : Swapper) (world : World) : World := { world with lock := world.lock ++ [swapper] }

def World.holds (swapper : Swapper) (world : World) : Bool := world.lock.head? = some swapper

def World.isSwapping (world : World) : Swapper → Bool
  | .restart =>
    match world.restart.inFlight with
    | some .gate | some .stopCurrent | some .refreshInstructions | some .refreshSecrets | some .respawn => true
    | none | some .waitForIdle | some (.ended _) => false
  | .control call =>
    match world.control.bodies call with
    | some (.settled _) => false
    | none | some .idling | some .swapping => true

def release (world : World) : World := { world with lock := world.lock.filter world.isSwapping }

/-! ## Restarts -/

def allowsRestart (event : RestartEvent) (world : World) : Bool :=
  match event, world.restart.inFlight with
  | .awaited succeeds, some .waitForIdle => succeeds && (world.waits .restart).isOver
  | .awaited succeeds, some .gate => succeeds && world.holds .restart
  | _, _ => true

def onRestartCall (world : World) : RestartCall → World
  | .activity => waitForIdle .restart world
  | .gate => withLifecycleLock .restart world
  | _ => world

def onRestart (event : RestartEvent) (world : World) : World × Option Swapper :=
  if allowsRestart event world then
    let (restart, calls) := RestartCoordinator.next world.restart event
    (release (calls.foldl onRestartCall { world with restart := restart }), if .stopCurrent ∈ calls then some .restart else none)
  else (world, none)

/-! ## Controls -/

def allowsControl (action : ControlAction) (world : World) : Bool :=
  match action with
  | .gateCalls => world.control.running.any fun running => world.holds (.control running.1) && (world.control.bodies running.1).isNone
  | .gateRejects _ => false
  | .idles call error => error.isNone && (world.waits (.control call)).isOver
  | _ => true

def onControlEntry (world : World) : ControlEntry → World
  | .began call => if call.control.verb = .compact then world else withLifecycleLock (.control call) world
  | _ => world

/-- The hooks `clear` and `reload` stop the agent before they await anything. -/
def stops : ControlEntry → Option Swapper
  | .started call (.clear _) | .started call (.reload _) => some (.control call)
  | _ => none

def beginsToWait (action : ControlAction) (world : World) : World :=
  match action, world.control.running with
  | .gateCalls, some (call, _) => waitForIdle (.control call) world
  | _, _ => world

def onControl (now : Int) (action : ControlAction) (world : World) : World × Option Swapper :=
  if allowsControl action world then
    let (control, entries) := apply world.control (now, action)
    (release (beginsToWait action (entries.foldl onControlEntry { world with control := control })), entries.findSome? stops)
  else (world, none)

/-! ## Runs -/

inductive Input where
  | signals (call : Call)
  | restarts (event : RestartEvent)
  | controls (now : Int) (action : ControlAction)

def next : Machine World Input (Option Swapper) := fun world input =>
  match input with
  | .signals call => (onSignal call world, none)
  | .restarts event => onRestart event world
  | .controls now action => onControl now action world

abbrev SwapStep := Step World Input (Option Swapper)

def StopsAtIdle (step : SwapStep) : Prop :=
  ∀ swapper signal, step.output = some swapper → step.before.signal = some signal → signal.deriveState = .idle

def Calm (started : Nat) (signal : ActivitySignal) : Prop := signal.blocked = false ∧ ∀ source id, started ≤ id → ¬ Open source signal id

def NothingBegunMeanwhile (step : SwapStep) : Prop :=
  ∀ swapper signal started, step.output = some swapper → step.before.signal = some signal →
    step.before.waits swapper = .heard started → Calm started signal

/-! ## A wait that is over has heard of idle -/

structure Observed (world : World) : Prop where
  tracked : ∀ signal, world.signal = some signal → ∃ past, Tracks signal past
  heard : ∀ swapper started, world.waits swapper = .heard started → ∀ signal, world.signal = some signal →
    started ≤ signal.handles.length ∧ ∀ source id, id < started → ¬ Open source signal id
  grace : ∀ swapper, world.waits swapper = .grace → world.signal = none

theorem Observed.congr {world other : World} (h : Observed world) (hSignal : other.signal = world.signal)
    (hWaits : other.waits = world.waits) : Observed other := by
  refine ⟨fun signal hSome => h.tracked signal (hSignal ▸ hSome), fun swapper started hHeard signal hSome => ?_, fun swapper hGrace => ?_⟩
  · rw [hWaits] at hHeard
    rw [hSignal] at hSome
    exact h.heard swapper started hHeard signal hSome
  · rw [hWaits] at hGrace
    rw [hSignal]
    exact h.grace swapper hGrace

theorem tellsIdle_of_hearsIdle {listener : Nat} {notes : List Note} (h : hearsIdle listener notes = true) :
    notes.any Note.tellsIdle = true := by
  obtain ⟨heard, hHeard, hIdle⟩ := List.any_eq_true.mp h
  obtain ⟨note, hNote, hBy⟩ := List.mem_filterMap.mp hHeard
  refine List.any_eq_true.mpr ⟨note, hNote, ?_⟩
  cases note with
  | welcomed other state | told other state =>
    dsimp only [Note.heardBy] at hBy
    split at hBy
    · obtain rfl := Option.some.inj hBy
      exact hIdle
    · cases hBy
  | handleAutoFinished source reason => cases hBy
  | forceFinished drained => cases hBy

theorem hear_cases (signal : ActivitySignal) (notes : List Note) (wait : Wait) : wait.hear signal notes = wait ∨
    ∃ listener, wait = .listening listener ∧ hearsIdle listener notes = true ∧ wait.hear signal notes = .heard signal.handles.length := by
  cases wait with
  | listening listener =>
    cases hIdle : hearsIdle listener notes with
    | true => exact .inr ⟨listener, rfl, hIdle, if_pos hIdle⟩
    | false => exact .inl (if_neg (Bool.eq_false_iff.mp hIdle))
  | absent | grace | heard started => exact .inl rfl

variable {world : World}

theorem observed_onSignal (h : Observed world) (call : Call) : Observed (onSignal call world) := by
  unfold onSignal
  cases hSignal : world.signal with
  | none => exact h
  | some signal =>
    obtain ⟨past, hTracks⟩ := h.tracked signal hSignal
    have hAfter := tracks_action call signal past hTracks
    refine ⟨fun other hOther => ?_, fun swapper started hHeard other hOther => ?_, fun swapper hGrace => ?_⟩
    · obtain rfl := Option.some.inj hOther
      exact ⟨_, hAfter⟩
    · obtain rfl := Option.some.inj hOther
      change (world.waits swapper).hear (call.action signal).1 (call.action signal).2 = .heard started at hHeard
      rcases hear_cases (call.action signal).1 (call.action signal).2 (world.waits swapper) with hSame | ⟨listener, _, hIdle, hNow⟩
      · rw [hSame] at hHeard
        obtain ⟨hLength, hClosed⟩ := h.heard swapper started hHeard signal hSignal
        refine ⟨hLength.trans (length_action_le call signal), fun source id hId hOpen => ?_⟩
        rcases open_action hOpen with hBefore | hNew
        · exact hClosed source id hId hBefore
        · omega
      · rw [hNow] at hHeard
        obtain rfl := Wait.heard.inj hHeard
        have hIdleNow := idleIfTold_action call signal (tellsIdle_of_hearsIdle hIdle)
        exact ⟨Nat.le_refl _, fun source id _ => ((idle_iff hAfter.counted).mp hIdleNow).2 source id⟩
    · change (world.waits swapper).hear (call.action signal).1 (call.action signal).2 = .grace at hGrace
      rcases hear_cases (call.action signal).1 (call.action signal).2 (world.waits swapper) with hSame | ⟨listener, _, _, hNow⟩
      · rw [hSame] at hGrace
        have hNone := h.grace swapper hGrace
        rw [hSignal] at hNone
        cases hNone
      · rw [hNow] at hGrace
        cases hGrace

theorem observed_setWait (h : Observed world) (swapper : Swapper) (wait : Wait)
    (hHeard : ∀ started, wait ≠ .heard started) (hGrace : wait = .grace → world.signal = none) : Observed (setWait swapper wait world) := by
  refine ⟨h.tracked, fun other started hOther signal hSignal => ?_, fun other hOther => ?_⟩
  · change Function.update world.waits swapper wait other = _ at hOther
    by_cases hSame : other = swapper
    · subst hSame
      rw [Function.update_self] at hOther
      exact absurd hOther (hHeard started)
    · rw [Function.update_of_ne hSame] at hOther
      exact h.heard other started hOther signal hSignal
  · change Function.update world.waits swapper wait other = _ at hOther
    by_cases hSame : other = swapper
    · subst hSame
      rw [Function.update_self] at hOther
      exact hGrace hOther
    · rw [Function.update_of_ne hSame] at hOther
      exact h.grace other hOther

theorem observed_waitForIdle (h : Observed world) (swapper : Swapper) : Observed (waitForIdle swapper world) := by
  unfold waitForIdle
  split
  · rename_i hNone
    exact observed_setWait h swapper .grace nofun fun _ => hNone
  · have hNumbered : Observed { world with subscriptions := world.subscriptions + 1 } := h.congr rfl rfl
    exact observed_onSignal (observed_setWait hNumbered swapper (.listening world.subscriptions) nofun nofun) _

theorem observed_restartCalls (h : Observed world) (calls : List RestartCall) : Observed (calls.foldl onRestartCall world) := by
  induction calls generalizing world with
  | nil => exact h
  | cons call calls ih =>
    refine ih ?_
    cases call with
    | activity => exact observed_waitForIdle h .restart
    | gate => exact h.congr rfl rfl
    | detach | stopCurrent | refreshInstructions | refreshSecrets | respawn reasons | onFailure => exact h

theorem onControlEntry_eq (world : World) (entry : ControlEntry) : ∃ lock, onControlEntry world entry = { world with lock := lock } := by
  cases entry with
  | began call =>
    unfold onControlEntry
    dsimp only
    split
    · exact ⟨world.lock, rfl⟩
    · exact ⟨_, rfl⟩
  | received call queued => exact ⟨world.lock, rfl⟩
  | started call hook => exact ⟨world.lock, rfl⟩
  | reported call event => exact ⟨world.lock, rfl⟩
  | ended call => exact ⟨world.lock, rfl⟩
  | returned call => exact ⟨world.lock, rfl⟩
  | closed => exact ⟨world.lock, rfl⟩

theorem controlEntries_eq (world : World) (entries : List ControlEntry) :
    ∃ lock, entries.foldl onControlEntry world = { world with lock := lock } := by
  induction entries generalizing world with
  | nil => exact ⟨world.lock, rfl⟩
  | cons entry entries ih =>
    obtain ⟨lock, hLock⟩ := onControlEntry_eq world entry
    obtain ⟨later, hLater⟩ := ih (onControlEntry world entry)
    exact ⟨later, by rw [List.foldl_cons, hLater, hLock]⟩

structure Sound (world : World) : Prop where
  observed : Observed world
  gate : world.restart.inFlight = some .gate → (world.waits .restart).isOver = true

theorem sound_start (captured : Bool) : Sound (World.start captured) := by
  refine ⟨⟨fun signal hSignal => ?_, fun _ _ hHeard => (nomatch hHeard), fun _ hGrace => nomatch hGrace⟩, fun hGate => nomatch hGate⟩
  cases captured with
  | false => cases hSignal
  | true =>
    obtain rfl := Option.some.inj hSignal
    exact ⟨[], tracks_created⟩

variable {swapper : Swapper}

theorem isOver_onSignal (h : (world.waits swapper).isOver = true) (call : Call) :
    ((onSignal call world).waits swapper).isOver = true := by
  unfold onSignal
  cases world.signal with
  | none => exact h
  | some signal =>
    change ((world.waits swapper).hear (call.action signal).1 (call.action signal).2).isOver = true
    rcases hear_cases (call.action signal).1 (call.action signal).2 (world.waits swapper) with hSame | ⟨listener, _, _, hNow⟩
    · rwa [hSame]
    · rw [hNow]
      rfl

theorem isOver_waitForIdle {swapper other : Swapper} (h : (world.waits other).isOver = true) (hOther : other ≠ swapper) :
    ((waitForIdle swapper world).waits other).isOver = true := by
  have hKept : ∀ wait subscriptions, ((setWait swapper wait { world with subscriptions }).waits other).isOver = true := by
    intro wait subscriptions
    change (Function.update world.waits swapper wait other).isOver = true
    rwa [Function.update_of_ne hOther]
  unfold waitForIdle
  split
  · exact hKept .grace world.subscriptions
  · exact isOver_onSignal (hKept (.listening world.subscriptions) (world.subscriptions + 1)) _

theorem restart_onSignal (call : Call) (world : World) : (onSignal call world).restart = world.restart := by
  unfold onSignal
  split <;> rfl

theorem restart_waitForIdle (swapper : Swapper) (world : World) : (waitForIdle swapper world).restart = world.restart := by
  unfold waitForIdle
  split
  · rfl
  · exact restart_onSignal _ _

theorem restart_restartCalls (calls : List RestartCall) (world : World) : (calls.foldl onRestartCall world).restart = world.restart := by
  induction calls generalizing world with
  | nil => rfl
  | cons call calls ih =>
    rw [List.foldl_cons, ih]
    cases call with
    | activity => exact restart_waitForIdle .restart world
    | gate | detach | stopCurrent | refreshInstructions | refreshSecrets | respawn reasons | onFailure => rfl

theorem waits_restartCalls {calls : List RestartCall} (h : .activity ∉ calls) (world : World) :
    (calls.foldl onRestartCall world).waits = world.waits := by
  induction calls generalizing world with
  | nil => rfl
  | cons call calls ih =>
    obtain ⟨hFirst, hRest⟩ := not_or.mp (List.mem_cons.not.mp h)
    rw [List.foldl_cons, ih hRest]
    cases call with
    | activity => exact absurd rfl hFirst
    | gate | detach | stopCurrent | refreshInstructions | refreshSecrets | respawn reasons | onFailure => rfl

section Cycles

open RestartCoordinator in
theorem gate_next {coordinator : RestartCoordinator} {event : RestartEvent}
    (h : (RestartCoordinator.next coordinator event).1.inFlight = some .gate) :
    .activity ∉ (RestartCoordinator.next coordinator event).2 ∧
      (coordinator.inFlight = some .gate ∨ coordinator.inFlight = some .waitForIdle ∧ ∃ succeeds, event = .awaited succeeds) := by
  revert h
  obtain ⟨closed, pending, inFlight, rearm, covered, reasons⟩ := coordinator
  cases event with
  | request reason =>
    cases inFlight with
    | none => cases closed <;> simp [RestartCoordinator.next, request, launch, runCycle]
    | some phase => cases closed <;> cases covered <;> simp [RestartCoordinator.next, request]
  | close => simp [RestartCoordinator.next, close]
  | awaited succeeds =>
    cases inFlight with
    | none => simp [RestartCoordinator.next, resume]
    | some phase =>
      cases phase with
      | waitForIdle => cases succeeds <;> cases closed <;> simp [RestartCoordinator.next, resume, drained, endCycle]
      | gate => cases succeeds <;> cases closed <;> simp [RestartCoordinator.next, resume, swap, endCycle]
      | stopCurrent => cases succeeds <;> simp [RestartCoordinator.next, resume, stopped, endCycle]
      | refreshInstructions => simp [RestartCoordinator.next, resume, instructionsRefreshed]
      | refreshSecrets => simp [RestartCoordinator.next, resume, secretsRefreshed]
      | respawn => simp [RestartCoordinator.next, resume, endCycle]
      | ended failed =>
        cases closed <;> cases pending <;> cases rearm <;> simp [RestartCoordinator.next, resume, settle, launch, runCycle]

open RestartCoordinator in
theorem stopCurrent_next {coordinator : RestartCoordinator} {event : RestartEvent}
    (h : .stopCurrent ∈ (RestartCoordinator.next coordinator event).2) :
    coordinator.inFlight = some .gate ∧ ∃ succeeds, event = .awaited succeeds := by
  revert h
  obtain ⟨closed, pending, inFlight, rearm, covered, reasons⟩ := coordinator
  cases event with
  | request reason =>
    cases inFlight with
    | none => cases closed <;> simp [RestartCoordinator.next, request, launch, runCycle]
    | some phase => cases closed <;> cases covered <;> simp [RestartCoordinator.next, request]
  | close => simp [RestartCoordinator.next]
  | awaited succeeds =>
    cases inFlight with
    | none => simp [RestartCoordinator.next, resume]
    | some phase =>
      cases phase with
      | waitForIdle => cases succeeds <;> cases closed <;> simp [RestartCoordinator.next, resume, drained, endCycle]
      | gate => simp
      | stopCurrent => cases succeeds <;> simp [RestartCoordinator.next, resume, stopped, endCycle]
      | refreshInstructions => simp [RestartCoordinator.next, resume, instructionsRefreshed]
      | refreshSecrets => simp [RestartCoordinator.next, resume, secretsRefreshed]
      | respawn => simp [RestartCoordinator.next, resume, endCycle]
      | ended failed =>
        cases failed <;> cases closed <;> cases pending <;> cases rearm <;>
          simp [RestartCoordinator.next, resume, settle, launch, runCycle]

end Cycles

section

variable (h : Sound world)
include h

theorem sound_onRestart (event : RestartEvent) : Sound (onRestart event world).1 := by
  unfold onRestart
  split
  · rename_i hAllowed
    have hLaunched : Observed { world with restart := (RestartCoordinator.next world.restart event).1 } := h.observed.congr rfl rfl
    refine ⟨(observed_restartCalls hLaunched (RestartCoordinator.next world.restart event).2).congr rfl rfl, fun hGate => ?_⟩
    change ((RestartCoordinator.next world.restart event).2.foldl onRestartCall _).restart.inFlight = some .gate at hGate
    rw [restart_restartCalls] at hGate
    obtain ⟨hQuiet, hBefore⟩ := gate_next hGate
    change (((RestartCoordinator.next world.restart event).2.foldl onRestartCall _).waits .restart).isOver = true
    rw [waits_restartCalls hQuiet]
    rcases hBefore with hBefore | ⟨hBefore, succeeds, rfl⟩
    · exact h.gate hBefore
    · unfold allowsRestart at hAllowed
      rw [hBefore] at hAllowed
      exact (Bool.and_eq_true_iff.mp hAllowed).2
  · exact h

theorem sound_onSignal (call : Call) : Sound (onSignal call world) := by
  refine ⟨observed_onSignal h.observed call, fun hGate => ?_⟩
  rw [restart_onSignal] at hGate
  exact isOver_onSignal (h.gate hGate) call

theorem sound_beginsToWait (action : ControlAction) : Sound (beginsToWait action world) := by
  unfold beginsToWait
  split
  · refine ⟨observed_waitForIdle h.observed _, fun hGate => ?_⟩
    rw [restart_waitForIdle] at hGate
    exact isOver_waitForIdle (h.gate hGate) nofun
  · exact h

theorem sound_onControl (now : Int) (action : ControlAction) : Sound (onControl now action world).1 := by
  unfold onControl
  split
  · obtain ⟨lock, hLock⟩ := controlEntries_eq { world with control := (world.control.apply (now, action)).1 }
      (world.control.apply (now, action)).2
    dsimp only
    rw [hLock]
    have hMoved : Sound { world with control := (world.control.apply (now, action)).1, lock := lock } :=
      ⟨h.observed.congr rfl rfl, h.gate⟩
    have hKept := sound_beginsToWait hMoved action
    exact ⟨hKept.observed.congr rfl rfl, hKept.gate⟩
  · exact h

theorem sound_next (input : Input) : Sound (next world input).1 := by
  cases input with
  | signals call => exact sound_onSignal h call
  | restarts event => exact sound_onRestart h event
  | controls now action => exact sound_onControl h now action

end

/-! ## A stop follows a wait that is over -/

theorem stops_control {coordinator : ContextControlCoordinator} {now : Int} {action : ControlAction}
    (h : (coordinator.apply (now, action)).2.findSome? stops = some swapper) :
    ∃ call error, action = .idles call error ∧ swapper = .control call := by
  cases action with
  | handle control =>
    unfold apply handle at h
    dsimp only at h
    split at h <;> cases h
  | close => cases h
  | begin =>
    unfold apply begin at h
    dsimp only at h
    split at h
    · split at h <;> cases h
    · cases h
  | compactSettles result =>
    unfold apply compactSettles at h
    dsimp only at h
    split at h
    · cases result with
      | ok attempt =>
        have hReported : ∀ call, stops (ackAttempt now call attempt) = none := by
          intro call
          cases attempt with
          | applied tokensBefore tokensAfter => cases tokensBefore <;> cases tokensAfter <;> rfl
          | unsupported detail | declined detail => rfl
        simp only [List.findSome?_cons, hReported] at h
        cases h
      | error error => cases h
    · cases h
  | gateCalls =>
    unfold apply gateCalls at h
    dsimp only at h
    split at h
    · split at h <;> cases h
    · cases h
  | gateSettles =>
    unfold apply gateSettles at h
    dsimp only at h
    split at h
    · split at h <;> cases h
    · cases h
  | gateRejects error =>
    unfold apply gateRejects at h
    dsimp only at h
    split at h <;> cases h
  | idles call error =>
    refine ⟨call, error, rfl, ?_⟩
    unfold apply idles at h
    dsimp only at h
    split at h
    · cases error with
      | some error => cases h
      | none =>
        dsimp only at h
        split at h
        · cases h
        · unfold swapHook at h
          split at h <;> exact (Option.some.inj h).symm
    · cases h
  | swapSettles call error =>
    unfold apply swapSettles at h
    dsimp only at h
    split at h
    · cases error <;> cases h
    · cases h
  | returns call =>
    unfold apply returns at h
    dsimp only at h
    split at h <;> cases h

theorem isOver_of_stop (h : Sound world) {input : Input} (hStop : (next world input).2 = some swapper) :
    (world.waits swapper).isOver = true := by
  cases input with
  | signals call => cases hStop
  | restarts event =>
    change (onRestart event world).2 = some swapper at hStop
    unfold onRestart at hStop
    split at hStop
    · dsimp only at hStop
      split at hStop
      · rename_i hCalls
        obtain rfl := Option.some.inj hStop
        exact h.gate (stopCurrent_next hCalls).1
      · cases hStop
    · cases hStop
  | controls now action =>
    change (onControl now action world).2 = some swapper at hStop
    unfold onControl at hStop
    split at hStop
    · rename_i hAllowed
      obtain ⟨call, error, rfl, rfl⟩ := stops_control hStop
      exact (Bool.and_eq_true_iff.mp hAllowed).2
    · cases hStop

theorem idle_iff_calm (h : Observed world) {signal : ActivitySignal} (hSignal : world.signal = some signal)
    {started : Nat} (hHeard : world.waits swapper = .heard started) :
    signal.deriveState = .idle ↔ Calm started signal := by
  obtain ⟨past, hTracks⟩ := h.tracked signal hSignal
  obtain ⟨_, hEarlier⟩ := h.heard swapper started hHeard signal hSignal
  rw [idle_iff hTracks.counted]
  refine and_congr_right fun _ => ⟨fun hClosed source id _ => hClosed source id, fun hLater source id => ?_⟩
  rcases Nat.lt_or_ge id started with hBefore | hAfter
  · exact hEarlier source id hBefore
  · exact hLater source id hAfter

/-- Every agent is stopped at idle exactly in the runs where, whenever one is stopped, all that has begun since its swap heard of
idle is over. -/
theorem swaps_at_idle_iff (captured : Bool) (inputs : List Input) :
    (∀ step ∈ run next (World.start captured) inputs, StopsAtIdle step) ↔
      ∀ step ∈ run next (World.start captured) inputs, NothingBegunMeanwhile step := by
  refine forall₂_congr fun step hStep => ?_
  obtain ⟨hSound, hAt⟩ := run_invariant (P := Sound) (fun _ input h => sound_next h input) (sound_start captured) hStep
  constructor
  · intro hIdle swapper signal started hStop hSignal hHeard
    exact (idle_iff_calm hSound.observed hSignal hHeard).mp (hIdle swapper signal hStop hSignal)
  · intro hCalm swapper signal hStop hSignal
    have hOutput : (next step.before step.input).2 = some swapper := (congrArg Step.output hAt).symm.trans hStop
    have hOver := isOver_of_stop hSound hOutput
    cases hWait : step.before.waits swapper with
    | heard started => exact (idle_iff_calm hSound.observed hSignal hWait).mpr (hCalm swapper signal started hStop hSignal hWait)
    | grace =>
      have hNone := hSound.observed.grace swapper hWait
      rw [hSignal] at hNone
      cases hNone
    | absent | listening listener =>
      rw [hWait] at hOver
      cases hOver

def cleared : Forwarder.ContextControlEvent := ⟨"r1", .clear, "ada", "ops", none⟩

/-- A restart is requested during a `clear`, hears of idle, and gets the lock when the successor has begun a turn. -/
def successorStarts : List Input :=
  [.controls 0 (.handle cleared), .controls 0 .begin, .controls 0 .gateCalls, .controls 0 (.idles ⟨0, cleared⟩ none),
    .restarts (.request .instructions), .restarts (.awaited true), .controls 0 (.swapSettles ⟨0, cleared⟩ none),
    .signals (.start .turnActive none), .restarts (.awaited true)]

theorem successor_stopped_while_working : ¬ ∀ step ∈ run next (World.start true) successorStarts, StopsAtIdle step := by
  intro h
  have hStep : stepAt next (final next (World.start true) (successorStarts.take 8)) (.restarts (.awaited true)) ∈
      run next (World.start true) successorStarts := by
    simp [successorStarts]
  have hWorking : (final next (World.start true) (successorStarts.take 8)).signal.map ActivitySignal.deriveState =
      some .working := by decide +kernel
  obtain ⟨signal, hSignal, hState⟩ := Option.map_eq_some_iff.mp hWorking
  have hIdle := h _ hStep .restart signal (by decide +kernel) hSignal
  rw [hState] at hIdle
  cases hIdle

end CommandSuite.IdleSwaps
