import CommandSuite.Library.Transcript

/-! # The agent session

`packages/cli/src/runtime/agent-session.ts` from the first spawn on: the agent's process is swapped under the lifecycle lock by
restarts and by the controls `clear` and `reload`, its exit is watched, and a teardown ends the session.
-/

namespace CommandSuite

open Library

/-- `meta.signals`: who owns the terminal. -/
inductive SignalMode where
  | teardown
  | forward
  deriving DecidableEq

inductive SwapKind where
  | restart
  | clear
  | reload
  deriving DecidableEq

inductive SwapPhase where
  | shutdown
  | exitCode
  | sessionEnd
  | refreshInstructions
  | refreshSecrets
  | sessionStart
  | respawn
  deriving DecidableEq

structure Swap where
  kind : SwapKind
  prior : Nat
  phase : SwapPhase
  deriving DecidableEq

inductive TeardownPhase where
  | coordinator
  | contextControl
  | shutdown
  | exitCode
  | sessionEnd
  | runnerShutdown
  | returned
  | rejected
  deriving DecidableEq

inductive SessionResult where
  | resolved (code : Int)
  | rejected
  deriving DecidableEq

/-- A process is its place in the order of spawning. An exit code that is `none` is a rejected promise. -/
structure AgentSession where
  signals : SignalMode
  spawned : Nat
  currentProc : Nat
  expectedRestartExit : Option Nat
  /-- The processes whose `shutdown` has been called. -/
  stopped : List Nat
  watched : List Nat
  exitCodes : List (Nat × Option Int)
  swap : Option Swap
  /-- A restart has failed, and its coordinator has not yet been told. -/
  restartFailing : Bool
  teardownPromise : Option TeardownPhase
  exitCode : Int
  cleanups : Nat
  runnerShutdowns : Nat
  /-- `finish` has been called: the session waits for the teardown. -/
  finishing : Bool
  result : Option SessionResult
  deriving DecidableEq

/-- `swapAwaited` and `teardownAwaited` settle what a swap or the teardown awaits. -/
inductive SessionEvent where
  | signal
  | exits (proc : Nat) (code : Option Int)
  | grant (kind : SwapKind)
  | swapAwaited (succeeds : Bool)
  | restartFailed
  | teardownAwaited (succeeds : Bool)
  deriving DecidableEq

namespace AgentSession

def create (signals : SignalMode) : AgentSession where
  signals := signals
  spawned := 1
  currentProc := 0
  expectedRestartExit := none
  stopped := []
  watched := [0]
  exitCodes := []
  swap := none
  restartFailing := false
  teardownPromise := none
  exitCode := 0
  cleanups := 0
  runnerShutdowns := 0
  finishing := false
  result := none

def teardown (session : AgentSession) : AgentSession :=
  match session.teardownPromise with
  | some _ => session
  | none => { session with teardownPromise := some .coordinator }

def resolve (session : AgentSession) : AgentSession :=
  if session.finishing && session.teardownPromise = some .returned then
    { session with result := session.result.or (some (.resolved session.exitCode)) }
  else session

def finish (session : AgentSession) : AgentSession := resolve { teardown session with finishing := true }

def signal (session : AgentSession) : AgentSession :=
  match session.signals with
  | .teardown => finish session
  | .forward => session

/-- The exit of a process settles once. An agent that owns the terminal ends the session by it. -/
def exits (proc : Nat) (code : Option Int) (session : AgentSession) : AgentSession :=
  if session.spawned ≤ proc || (session.exitCodes.lookup proc).isSome then session
  else
    let session := { session with exitCodes := (proc, code) :: session.exitCodes }
    match session.signals, code with
    | .forward, some _ => finish session
    | .forward, none => { session with result := session.result.or (some .rejected) }
    | .teardown, some _ =>
      if proc ∉ session.watched || session.expectedRestartExit = some proc || session.currentProc ≠ proc then session else finish session
    | .teardown, none => session

def admits (kind : SwapKind) (session : AgentSession) : Bool :=
  session.signals = .teardown && session.swap = none &&
    match kind with
    | .restart => session.teardownPromise = none && !session.restartFailing
    | .clear | .reload => session.teardownPromise = none || session.teardownPromise = some .coordinator

def grant (kind : SwapKind) (session : AgentSession) : AgentSession :=
  if admits kind session then
    { session with
      expectedRestartExit := some session.currentProc
      stopped := session.currentProc :: session.stopped
      swap := some ⟨kind, session.currentProc, .shutdown⟩ }
  else session

def failSwap (kind : SwapKind) (session : AgentSession) : AgentSession :=
  match kind with
  | .restart => { session with swap := none, restartFailing := true }
  | .clear | .reload => { session with swap := none }

def respawned (session : AgentSession) : AgentSession :=
  { session with
    spawned := session.spawned + 1
    currentProc := session.spawned
    watched := session.spawned :: session.watched
    swap := none }

def continueSwap (swap : Swap) (phase : SwapPhase) (session : AgentSession) : AgentSession :=
  { session with swap := some { swap with phase := phase } }

def swapAwaited (succeeds : Bool) (session : AgentSession) : AgentSession :=
  match session.swap with
  | none => session
  | some swap =>
    match swap.phase with
    | .shutdown => if succeeds then continueSwap swap .exitCode session else failSwap swap.kind session
    | .exitCode => if (session.exitCodes.lookup swap.prior).isSome then continueSwap swap .sessionEnd session else session
    | .sessionEnd => if succeeds then continueSwap swap .refreshInstructions session else failSwap swap.kind session
    | .refreshInstructions =>
      match swap.kind with
      | .restart | .reload => continueSwap swap .refreshSecrets session
      | .clear => continueSwap swap .sessionStart session
    | .refreshSecrets => continueSwap swap .sessionStart session
    | .sessionStart => if succeeds then continueSwap swap .respawn session else failSwap swap.kind session
    | .respawn => if succeeds then respawned session else failSwap swap.kind session

/-- `onFailure` of the restart coordinator. -/
def restartFailed (session : AgentSession) : AgentSession :=
  if session.restartFailing then teardown { session with restartFailing := false } else session

def restarting (session : AgentSession) : Bool := session.restartFailing || session.swap.any fun swap => swap.kind = .restart

/-- The steps of the teardown. Only a failed upload of `session_end` is not caught. -/
def teardownAwaited (succeeds : Bool) (session : AgentSession) : AgentSession :=
  match session.teardownPromise with
  | none | some .returned | some .rejected => session
  | some .coordinator => if restarting session then session else { session with teardownPromise := some .contextControl }
  | some .contextControl =>
    match session.swap with
    | some _ => session
    | none => { session with teardownPromise := some .shutdown, stopped := session.currentProc :: session.stopped }
  | some .shutdown => { session with teardownPromise := some .exitCode }
  | some .exitCode =>
    match session.exitCodes.lookup session.currentProc with
    | none => session
    | some code => { session with teardownPromise := some .sessionEnd, exitCode := code.getD 1, cleanups := session.cleanups + 1 }
  | some .sessionEnd =>
    if succeeds then { session with teardownPromise := some .runnerShutdown, runnerShutdowns := session.runnerShutdowns + 1 }
    else
      let session := { session with teardownPromise := some .rejected }
      match session.signals with
      | .teardown => session
      | .forward => { session with result := session.result.or (some .rejected) }
  | some .runnerShutdown => resolve { session with teardownPromise := some .returned }

def next : Transcript.Machine AgentSession SessionEvent Unit := fun session event =>
  (match event with
    | .signal => signal session
    | .exits proc code => exits proc code session
    | .grant kind => grant kind session
    | .swapAwaited succeeds => swapAwaited succeeds session
    | .restartFailed => restartFailed session
    | .teardownAwaited succeeds => teardownAwaited succeeds session, ())

abbrev run (signals : SignalMode) (events : List SessionEvent) : AgentSession := Transcript.final next (create signals) events

theorem swapAwaited_cases (succeeds : Bool) (session : AgentSession) : swapAwaited succeeds session = session ∨
    ∃ swap, session.swap = some swap ∧
      ((∃ phase, swapAwaited succeeds session = continueSwap swap phase session) ∨
        (succeeds = false ∧ swap.phase ∉ [.exitCode, .refreshInstructions, .refreshSecrets] ∧
          swapAwaited succeeds session = failSwap swap.kind session) ∨
        swapAwaited succeeds session = respawned session) := by
  unfold swapAwaited
  cases hSwap : session.swap with
  | none => exact .inl rfl
  | some swap =>
    obtain ⟨kind, prior, phase⟩ := swap
    cases phase with
    | shutdown =>
      cases succeeds with
      | true => exact .inr ⟨_, rfl, .inl ⟨.exitCode, rfl⟩⟩
      | false => exact .inr ⟨_, rfl, .inr (.inl ⟨rfl, by simp, rfl⟩)⟩
    | exitCode =>
      dsimp only
      split
      · exact .inr ⟨_, rfl, .inl ⟨.sessionEnd, rfl⟩⟩
      · exact .inl rfl
    | sessionEnd =>
      cases succeeds with
      | true => exact .inr ⟨_, rfl, .inl ⟨.refreshInstructions, rfl⟩⟩
      | false => exact .inr ⟨_, rfl, .inr (.inl ⟨rfl, by simp, rfl⟩)⟩
    | refreshInstructions =>
      cases kind with
      | clear => exact .inr ⟨_, rfl, .inl ⟨.sessionStart, rfl⟩⟩
      | restart => exact .inr ⟨_, rfl, .inl ⟨.refreshSecrets, rfl⟩⟩
      | reload => exact .inr ⟨_, rfl, .inl ⟨.refreshSecrets, rfl⟩⟩
    | refreshSecrets => exact .inr ⟨_, rfl, .inl ⟨.sessionStart, rfl⟩⟩
    | sessionStart =>
      cases succeeds with
      | true => exact .inr ⟨_, rfl, .inl ⟨.respawn, rfl⟩⟩
      | false => exact .inr ⟨_, rfl, .inr (.inl ⟨rfl, by simp, rfl⟩)⟩
    | respawn =>
      cases succeeds with
      | true => exact .inr ⟨_, rfl, .inr (.inr rfl)⟩
      | false => exact .inr ⟨_, rfl, .inr (.inl ⟨rfl, by simp, rfl⟩)⟩

end AgentSession

end CommandSuite
