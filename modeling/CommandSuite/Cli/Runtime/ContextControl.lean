import CommandSuite.Cli.Runtime.Forwarder

/-! # The context control coordinator

`packages/cli/src/runtime/context-control.ts`: each call of `handle` is chained behind the call before. A `compact` asks the
agent; a `clear` and a `reload` go through the lifecycle gate, wait for idle and swap the agent.
-/

namespace CommandSuite

open Library Forwarder Function

/-- A call of `handle`, numbered in the order of the calls. -/
structure ControlCall where
  number : Nat
  control : ContextControlEvent
  deriving DecidableEq

inductive ControlOutcome where
  | applied | declined | unsupported | failed
  deriving DecidableEq

structure ActivityContextControl where
  ts : Int
  requestId : String
  verb : ContextControlVerb
  outcome : ControlOutcome
  requestedBy : String
  detail : Option String
  tokens : Option (Nat × Nat)
  deriving DecidableEq

inductive CompactAttempt where
  | unsupported (detail : String)
  | applied (tokensBefore tokensAfter : Option Nat)
  | declined (detail : String)

inductive ControlHook where
  | compact (reason : Option String)
  | clear (reason : String)
  | reload (reason : String)
  deriving DecidableEq

inductive ControlStage where
  | compacting
  | gating
  deriving DecidableEq

inductive GatedBody where
  | idling
  | swapping
  | settled (error : Option String)
  deriving DecidableEq

def GatedBody.isLive : GatedBody → Bool
  | .settled _ => false
  | _ => true

inductive ControlEntry where
  | received (call : ControlCall) (queued : Bool)
  | began (call : ControlCall)
  | started (call : ControlCall) (hook : ControlHook)
  | reported (call : ControlCall) (event : ActivityContextControl)
  | ended (call : ControlCall)
  | returned (call : ControlCall)
  | closed
  deriving DecidableEq

/-- `handle` and `close` are called; the other actions are what promises and hooks do. A gate may reject at any time. -/
inductive ControlAction where
  | handle (control : ContextControlEvent)
  | close
  | begin
  | compactSettles (result : Except String CompactAttempt)
  | gateCalls
  | gateSettles
  | gateRejects (error : String)
  | idles (call : ControlCall) (error : Option String)
  | swapSettles (call : ControlCall) (error : Option String)
  | returns (call : ControlCall)

/-- `waiting` are the calls whose promise is chained, `ended` those whose promise is settled and whose `handle` has not returned. -/
structure ContextControlCoordinator where
  closed : Bool
  received : Nat
  waiting : List ControlCall
  running : Option (ControlCall × ControlStage)
  bodies : ControlCall → Option GatedBody
  ended : List ControlCall

namespace ContextControlCoordinator

def create : ContextControlCoordinator where
  closed := false
  received := 0
  waiting := []
  running := none
  bodies _ := none
  ended := []

def ack (now : Int) (call : ControlCall) (outcome : ControlOutcome) (detail : Option String) (tokens : Option (Nat × Nat)) :
    ControlEntry :=
  .reported call
    { ts := now
      requestId := call.control.requestId
      verb := call.control.verb
      outcome := outcome
      requestedBy := call.control.requestedBy
      detail := detail
      tokens := tokens }

def ackAttempt (now : Int) (call : ControlCall) : CompactAttempt → ControlEntry
  | .unsupported detail => ack now call .unsupported (some detail) none
  | .declined detail => ack now call .declined (some detail) none
  | .applied (some before) (some after) => ack now call .applied none (some (before, after))
  | .applied _ _ => ack now call .applied none none

def reasonText (label : String) (control : ContextControlEvent) : String :=
  match control.reason with
  | some reason => label ++ " (" ++ control.requestedBy ++ "): " ++ reason
  | none => label ++ " (" ++ control.requestedBy ++ ")"

def swapHook (control : ContextControlEvent) : ControlHook :=
  if control.verb = .reload then .reload (reasonText "context-reload" control) else .clear (reasonText "context-clear" control)

def abandoned (control : ContextControlEvent) : String :=
  if control.verb = .reload then "session ended before the reload could be applied"
  else "session ended before the clear could be applied"

def setBody (call : ControlCall) (body : GatedBody) (coordinator : ContextControlCoordinator) : ContextControlCoordinator :=
  { coordinator with bodies := update coordinator.bodies call (some body) }

@[simp] theorem bodies_setBody_self (call : ControlCall) (body : GatedBody) (coordinator : ContextControlCoordinator) :
    (setBody call body coordinator).bodies call = some body := update_self ..

theorem bodies_setBody_of_ne {call other : ControlCall} (h : other ≠ call) (body : GatedBody)
    (coordinator : ContextControlCoordinator) : (setBody call body coordinator).bodies other = coordinator.bodies other :=
  update_of_ne h ..

/-- The promise of the running control is settled. A body that is not over goes on by itself. -/
def finish (call : ControlCall) (coordinator : ContextControlCoordinator) : ContextControlCoordinator :=
  { coordinator with
    running := none
    bodies := fun other => (coordinator.bodies other).filter fun body => other ≠ call || body.isLive
    ended := coordinator.ended ++ [call] }

def handle (now : Int) (control : ContextControlEvent) (coordinator : ContextControlCoordinator) :
    ContextControlCoordinator × List ControlEntry :=
  let call : ControlCall := ⟨coordinator.received, control⟩
  let coordinator := { coordinator with received := coordinator.received + 1 }
  if coordinator.closed then
    (coordinator, [.received call false, ack now call .failed (some "runner is shutting down") none, .returned call])
  else ({ coordinator with waiting := coordinator.waiting ++ [call] }, [.received call true])

/-- `run`, up to its first await. -/
def begin (coordinator : ContextControlCoordinator) : ContextControlCoordinator × List ControlEntry :=
  match coordinator.running, coordinator.waiting with
  | none, call :: rest =>
    let coordinator := { coordinator with waiting := rest }
    if call.control.verb = .compact then
      ({ coordinator with running := some (call, .compacting) }, [.began call, .started call (.compact call.control.reason)])
    else ({ coordinator with running := some (call, .gating) }, [.began call])
  | _, _ => (coordinator, [])

/-- The `catch` of `run`. -/
def fail (now : Int) (call : ControlCall) (error : String) (coordinator : ContextControlCoordinator) :
    ContextControlCoordinator × List ControlEntry :=
  (finish call coordinator, [ack now call .failed (some error) none, .ended call])

def compactSettles (now : Int) (result : Except String CompactAttempt) (coordinator : ContextControlCoordinator) :
    ContextControlCoordinator × List ControlEntry :=
  match coordinator.running with
  | some (call, .compacting) =>
    match result with
    | .ok attempt => (finish call coordinator, [ackAttempt now call attempt, .ended call])
    | .error error => fail now call error coordinator
  | _ => (coordinator, [])

def gateCalls (coordinator : ContextControlCoordinator) : ContextControlCoordinator × List ControlEntry :=
  match coordinator.running with
  | some (call, .gating) => if coordinator.bodies call = none then (setBody call .idling coordinator, []) else (coordinator, [])
  | _ => (coordinator, [])

def gateSettles (now : Int) (coordinator : ContextControlCoordinator) : ContextControlCoordinator × List ControlEntry :=
  match coordinator.running with
  | some (call, .gating) =>
    match coordinator.bodies call with
    | some (.settled none) => (finish call coordinator, [.ended call])
    | some (.settled (some error)) => fail now call error coordinator
    | _ => (coordinator, [])
  | _ => (coordinator, [])

def gateRejects (now : Int) (error : String) (coordinator : ContextControlCoordinator) :
    ContextControlCoordinator × List ControlEntry :=
  match coordinator.running with
  | some (call, .gating) => fail now call error coordinator
  | _ => (coordinator, [])

def idles (now : Int) (call : ControlCall) (error : Option String) (coordinator : ContextControlCoordinator) :
    ContextControlCoordinator × List ControlEntry :=
  match coordinator.bodies call with
  | some .idling =>
    match error with
    | some error => (setBody call (.settled (some error)) coordinator, [])
    | none =>
      if coordinator.closed then
        (setBody call (.settled none) coordinator, [ack now call .failed (some (abandoned call.control)) none])
      else (setBody call .swapping coordinator, [.started call (swapHook call.control)])
  | _ => (coordinator, [])

def swapSettles (now : Int) (call : ControlCall) (error : Option String) (coordinator : ContextControlCoordinator) :
    ContextControlCoordinator × List ControlEntry :=
  match coordinator.bodies call with
  | some .swapping =>
    match error with
    | some error => (setBody call (.settled (some error)) coordinator, [])
    | none => (setBody call (.settled none) coordinator, [ack now call .applied none none])
  | _ => (coordinator, [])

def returns (call : ControlCall) (coordinator : ContextControlCoordinator) : ContextControlCoordinator × List ControlEntry :=
  if call ∈ coordinator.ended then ({ coordinator with ended := coordinator.ended.erase call }, [.returned call])
  else (coordinator, [])

def apply : Transcript.Machine ContextControlCoordinator (Int × ControlAction) (List ControlEntry)
  | coordinator, (now, .handle control) => handle now control coordinator
  | coordinator, (_, .close) => ({ coordinator with closed := true }, [.closed])
  | coordinator, (_, .begin) => begin coordinator
  | coordinator, (now, .compactSettles result) => compactSettles now result coordinator
  | coordinator, (_, .gateCalls) => gateCalls coordinator
  | coordinator, (now, .gateSettles) => gateSettles now coordinator
  | coordinator, (now, .gateRejects error) => gateRejects now error coordinator
  | coordinator, (now, .idles call error) => idles now call error coordinator
  | coordinator, (now, .swapSettles call error) => swapSettles now call error coordinator
  | coordinator, (_, .returns call) => returns call coordinator

def logOf (actions : List (Int × ControlAction)) : List ControlEntry := (Transcript.run apply create actions).flatMap Step.output

/-! ## What is asked of it -/

def reportsOf (call : ControlCall) (log : List ControlEntry) : List ActivityContextControl := log.filterMap fun
  | .reported other event => if other = call then some event else none
  | _ => none

def queuedOf (log : List ControlEntry) : List ControlCall := log.filterMap fun
  | .received call true => some call
  | _ => none

def begunOf (log : List ControlEntry) : List ControlCall := log.filterMap fun
  | .began call => some call
  | _ => none

def track (current : Option ControlCall) : ControlEntry → Option (Option ControlCall)
  | .began call => if current = none then some (some call) else none
  | .started call _ => if current = some call then some current else none
  | .ended call => if current = some call then some none else none
  | _ => some current

def NothingStartedAfterClose (log : List ControlEntry) : Prop :=
  ∀ before after, log = before ++ .closed :: after → ∀ call hook, .started call hook ∉ after

/-- What is due beside calls of `handle` and `close`. -/
def IsOwn : ControlAction → Prop
  | .handle _ => False
  | .close => False
  | _ => True

def Quiescent (coordinator : ContextControlCoordinator) : Prop :=
  ∀ now action, IsOwn action → apply coordinator (now, action) = (coordinator, [])

/-- When nothing is due any more, every call has returned, whatever has failed before it. -/
structure Orderly (coordinator : ContextControlCoordinator) (log : List ControlEntry) : Prop where
  answered : ∀ call, .returned call ∈ log → ∃ event, reportsOf call log = [event] ∧ event.requestId = call.control.requestId
  serial : (log.foldlM track none).isSome
  ordered : begunOf log <+: queuedOf log
  closed : NothingStartedAfterClose log
  complete : Quiescent coordinator → ∀ call queued, .received call queued ∈ log → .returned call ∈ log

end ContextControlCoordinator

end CommandSuite
