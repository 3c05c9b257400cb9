import CommandSuite.Library.Transcript

/-! # The restart coordinator

`packages/cli/src/runtime/restart.ts`: requests arrive at the awaits of a cycle, which waits for idle, takes the
lifecycle lock, stops the agent, refetches and respawns.
-/

namespace CommandSuite

open Library

inductive RestartReason where
  | instructions | environment
  deriving DecidableEq

/-- What a cycle awaits. A cycle that is over awaits the handlers of its promise. -/
inductive RestartPhase where
  | waitForIdle
  | gate
  | stopCurrent
  | refreshInstructions
  | refreshSecrets
  | respawn
  | ended (failed : Bool)
  deriving DecidableEq

inductive RestartCall where
  | activity
  | gate
  | detach
  | stopCurrent
  | refreshInstructions
  | refreshSecrets
  | respawn (reasons : List RestartReason)
  | onFailure
  deriving DecidableEq

/-- `awaited` settles what the cycle awaits. -/
inductive RestartEvent where
  | request (reason : RestartReason)
  | close
  | awaited (succeeds : Bool)
  deriving DecidableEq

/-- `reasons` is a set in the order of insertion, and `inFlight` the cycle that runs. -/
structure RestartCoordinator where
  closed : Bool
  pending : Bool
  inFlight : Option RestartPhase
  rearm : Bool
  covered : Bool
  reasons : List RestartReason
  deriving DecidableEq

namespace RestartCoordinator

def create : RestartCoordinator where
  closed := false
  pending := false
  inFlight := none
  rearm := false
  covered := true
  reasons := []

def runCycle (coordinator : RestartCoordinator) : RestartCoordinator × List RestartCall :=
  ({ coordinator with covered := true, inFlight := some .waitForIdle }, [.activity])

def launch (coordinator : RestartCoordinator) : RestartCoordinator × List RestartCall :=
  match coordinator.inFlight with
  | some _ => (coordinator, [])
  | none => runCycle { coordinator with pending := false }

def request (reason : RestartReason) (coordinator : RestartCoordinator) : RestartCoordinator × List RestartCall :=
  if coordinator.closed then (coordinator, [])
  else
    let coordinator := { coordinator with reasons := if reason ∈ coordinator.reasons then coordinator.reasons else coordinator.reasons ++ [reason] }
    match coordinator.inFlight with
    | some _ => if coordinator.covered then (coordinator, []) else ({ coordinator with rearm := true }, [])
    | none => launch { coordinator with pending := true }

def close (coordinator : RestartCoordinator) : RestartCoordinator := { coordinator with closed := true }

def endCycle (failed : Bool) (coordinator : RestartCoordinator) : RestartCoordinator × List RestartCall :=
  ({ coordinator with inFlight := some (.ended failed) }, [])

def drained (coordinator : RestartCoordinator) : RestartCoordinator × List RestartCall :=
  if coordinator.closed then endCycle false coordinator else ({ coordinator with inFlight := some .gate }, [.gate])

/-- `swap`, up to its first await. -/
def swap (coordinator : RestartCoordinator) : RestartCoordinator × List RestartCall :=
  if coordinator.closed then endCycle false coordinator
  else ({ coordinator with inFlight := some .stopCurrent }, [.detach, .stopCurrent])

def stopped (coordinator : RestartCoordinator) : RestartCoordinator × List RestartCall :=
  ({ coordinator with inFlight := some .refreshInstructions }, [.refreshInstructions])

def instructionsRefreshed (succeeds : Bool) (coordinator : RestartCoordinator) : RestartCoordinator × List RestartCall :=
  ({ coordinator with inFlight := some .refreshSecrets, rearm := coordinator.rearm || !succeeds }, [.refreshSecrets])

def secretsRefreshed (coordinator : RestartCoordinator) : RestartCoordinator × List RestartCall :=
  ({ coordinator with inFlight := some .respawn, covered := false, reasons := [] }, [.respawn coordinator.reasons])

/-- The handlers of `catch` and `finally`. -/
def settle (failed : Bool) (coordinator : RestartCoordinator) : RestartCoordinator × List RestartCall :=
  let reported : List RestartCall := if failed then [.onFailure] else []
  let coordinator := { coordinator with inFlight := none }
  if !coordinator.closed && (coordinator.pending || coordinator.rearm) then
    let launched := launch { coordinator with rearm := false }
    (launched.1, reported ++ launched.2)
  else (coordinator, reported)

def resume (succeeds : Bool) (coordinator : RestartCoordinator) : RestartCoordinator × List RestartCall :=
  match coordinator.inFlight with
  | none => (coordinator, [])
  | some .waitForIdle => if succeeds then drained coordinator else endCycle true coordinator
  | some .gate => if succeeds then swap coordinator else endCycle true coordinator
  | some .stopCurrent => if succeeds then stopped coordinator else endCycle true coordinator
  | some .refreshInstructions => instructionsRefreshed succeeds coordinator
  | some .refreshSecrets => secretsRefreshed coordinator
  | some .respawn => endCycle (!succeeds) coordinator
  | some (.ended failed) => settle failed coordinator

def next : Transcript.Machine RestartCoordinator RestartEvent (List RestartCall) := fun coordinator event =>
  match event with
  | .request reason => request reason coordinator
  | .close => (close coordinator, [])
  | .awaited succeeds => resume succeeds coordinator

def isSettled (coordinator : RestartCoordinator) : Bool := coordinator.inFlight.isNone

end RestartCoordinator

end CommandSuite
