import CommandSuite.Core.Broker.Rules
import CommandSuite.Core.MessageDelivery.LeaseSafety

/-! # The fan-out of a push

`push` awaits its subscribers, a bounded number of them at a time. Between two of its turns the other operations of the
broker have theirs. To the push they are what they do to the ledger and to the registry.
-/

namespace CommandSuite

open Library Transcript MessageDelivery MessageDeliveryLedger Program PresenceRegistry Action

abbrev FanoutTask := Name × Subscription

structure OpenPush where
  ts : Int
  message : Message
  targetName : Option Name
  context : PushContext
  targetStates : List PresenceState

namespace OpenPush

def tracks (push : OpenPush) : Bool := push.context.trackDisposition ≠ some false

def dispositionNames (push : OpenPush) : List String :=
  match push.targetName with
  | some target => [target.text]
  | none =>
    match push.context.recipients with
    | some recipients => recipients.eraseDups
    | none => push.targetStates.map fun state => state.name.text

def trackedForMember (push : OpenPush) (state : PresenceState) : Bool := push.tracks && state.name.text ∈ push.dispositionNames

def tracked (push : OpenPush) : List PresenceState := push.targetStates.filter push.trackedForMember

def recipients (push : OpenPush) : List PresenceState := push.tracked.filter fun state => !Broker.hasLegacyRunner state

end OpenPush

structure Fanout (L : Type) where
  registry : PresenceRegistry
  deliveryLedger : L
  waiting : List FanoutTask
  running : List FanoutTask
  live : Nat

/-- `returned` and `threw` are the ends of the callback that runs at this place. -/
inductive FanoutEvent where
  | start
  | returned (i : Nat)
  | threw (i : Nat)
  | ledger (op : Op)
  | registry (registry : PresenceRegistry)

namespace Fanout

variable {L : Type} [MessageDeliveryLedger L]

def startNext (limit : Nat) (push : OpenPush) (fanout : Fanout L) : Fanout L × List (Effect L) :=
  match fanout.waiting with
  | [] => (fanout, [])
  | task :: waiting =>
    if fanout.running.length < max 1 limit then
      ({ fanout with waiting := waiting, running := fanout.running ++ [task] }, [.sent task.1 task.2.callback push.message])
    else (fanout, [])

def noteReturned (push : OpenPush) (task : FanoutTask) (ledger : L) : L :=
  if push.tracks && supportsDisposition task.2.clientIdentity then noteSent push.message.id task.1 push.ts ledger else ledger

def next (limit : Nat) (push : OpenPush) : Machine (Fanout L) FanoutEvent (List (Effect L))
  | fanout, .start => fanout.startNext limit push
  | fanout, .returned i =>
    match fanout.running[i]? with
    | none => (fanout, [])
    | some task =>
      ({ fanout with
        running := fanout.running.eraseIdx i
        live := fanout.live + 1
        deliveryLedger := noteReturned push task fanout.deliveryLedger }, [])
  | fanout, .threw i => ({ fanout with running := fanout.running.eraseIdx i }, [])
  | fanout, .ledger op => ({ fanout with deliveryLedger := (MessageDelivery.apply fanout.deliveryLedger op).1 }, [])
  | fanout, .registry registry => ({ fanout with registry := registry }, [])

def isDone (fanout : Fanout L) : Bool := fanout.waiting.isEmpty && fanout.running.isEmpty

end Fanout

namespace Broker

variable {L E : Type} [MessageDeliveryLedger L]

def openPush (now : Int) (message : Message) (targetName : Option Name) (context : PushContext) (broker : Broker L E) : OpenPush where
  ts := now
  message := message
  targetName := targetName
  context := context
  targetStates := (broker.fanout targetName context).filterMap broker.registry.find

def fanoutOf (push : OpenPush) (broker : Broker L E) : List FanoutTask :=
  push.targetStates.flatMap fun state => broker.fanoutTasks (push.trackedForMember state) state

def startFanout (push : OpenPush) (broker : Broker L E) : Fanout L where
  registry := push.targetStates.foldl (fun registry state =>
    modify state.name (fun state => { state with lastSeen := push.ts }) (fun _ => rfl) registry) broker.registry
  deliveryLedger := push.recipients.foldl (fun ledger state => track push.message state.name push.ts ledger) broker.deliveryLedger
  waiting := broker.fanoutOf push
  running := []
  live := 0

end Broker

namespace Fanout

variable {L : Type} [MessageDeliveryLedger L]

def pending (push : OpenPush) (now : Int) (fanout : Fanout L) : Nat :=
  (push.dispositionNames.filter fun name => Broker.isPendingFor fanout.deliveryLedger now push.message.id name).length

def unreported (push : OpenPush) : Nat := (push.tracked.filter Broker.hasLegacyRunner).length

def report (push : OpenPush) (now : Int) (fanout : Fanout L) : PushResult where
  live := fanout.live
  targets :=
    match push.targetName with
    | some target => if (fanout.registry.find target).isSome then 1 else 0
    | none => (push.context.recipients.map List.length).getD push.targetStates.length
  acknowledgement :=
    if push.tracks then
      some
        { status := if fanout.pending push now > 0 then .pending else if unreported push > 0 then .unreported else .settled
          pending := fanout.pending push now
          unreported := unreported push }
    else none
  message := push.message

def returns (push : OpenPush) (now : Int) (fanout : Fanout L) : Option PushResult :=
  if fanout.isDone then some (fanout.report push now) else none

end Fanout

/-! ## A push that nothing comes between -/

namespace Broker

variable {L E : Type} [MessageDeliveryLedger L] {limit : Nat} {push : OpenPush}

def oneByOne (tasks : List FanoutTask) : List FanoutEvent := tasks.flatMap fun _ => [.start, .returned 0]

omit [MessageDeliveryLedger L] in
theorem each_onLedger {α : Type} (items : List α) (f : α → L → L) (broker : Broker L E) :
    each items (fun item => onLedger (f item)) broker =
      ({ broker with deliveryLedger := items.foldl (fun ledger item => f item ledger) broker.deliveryLedger }, []) := by
  induction items generalizing broker with
  | nil => rfl
  | cons item items ih =>
    rw [each, andThen, onLedger, update_apply]
    dsimp only
    rw [ih]
    rfl

omit [MessageDeliveryLedger L] in
theorem each_onRegistry {α : Type} (items : List α) (f : α → PresenceRegistry → PresenceRegistry) (broker : Broker L E) :
    each items (fun item => onRegistry (f item)) broker =
      ({ broker with registry := items.foldl (fun registry item => f item registry) broker.registry }, []) := by
  induction items generalizing broker with
  | nil => rfl
  | cons item items ih =>
    rw [each, andThen, onRegistry, update_apply]
    dsimp only
    rw [ih]
    rfl

def sendTo (push : OpenPush) (task : FanoutTask) : Action L E :=
  (emit (.sent task.1 task.2.callback push.message)).andThen <|
    if push.tracks && supportsDisposition task.2.clientIdentity then
      onLedger (noteSent push.message.id task.1 push.ts)
    else skip

theorem sendTo_eq (push : OpenPush) (task : FanoutTask) (broker : Broker L E) :
    sendTo push task broker = ({ broker with deliveryLedger := Fanout.noteReturned push task broker.deliveryLedger },
      [.sent task.1 task.2.callback push.message]) := by
  unfold sendTo Fanout.noteReturned
  split <;> rfl

variable (limit push) in
theorem oneByOne_runs (tasks : List FanoutTask) (fanout : Fanout L) (hWaiting : fanout.waiting = tasks) (hRunning : fanout.running = [])
    (broker : Broker L E) (hLedger : broker.deliveryLedger = fanout.deliveryLedger) :
    final (Fanout.next limit push) fanout (oneByOne tasks) =
        { fanout with
          waiting := []
          live := fanout.live + tasks.length
          deliveryLedger := (each tasks (sendTo push) broker).1.deliveryLedger } ∧
      (run (Fanout.next limit push) fanout (oneByOne tasks)).flatMap Step.output = (each tasks (sendTo push) broker).2 ∧
      (each tasks (sendTo push) broker).1 =
        { broker with deliveryLedger := (each tasks (sendTo push) broker).1.deliveryLedger } := by
  induction tasks generalizing fanout broker with
  | nil =>
    obtain ⟨registry, ledger, waiting, running, live⟩ := fanout
    dsimp only at hWaiting hRunning hLedger
    subst hWaiting hRunning hLedger
    exact ⟨rfl, rfl, rfl⟩
  | cons task tasks ih =>
    obtain ⟨registry, ledger, waiting, running, live⟩ := fanout
    dsimp only at hWaiting hRunning hLedger
    subst hWaiting hRunning hLedger
    have hFree : ([] : List FanoutTask).length < max 1 limit := lt_max_of_lt_left Nat.zero_lt_one
    have hStarted : Fanout.next limit push ⟨registry, broker.deliveryLedger, task :: tasks, [], live⟩ .start =
        (⟨registry, broker.deliveryLedger, tasks, [task], live⟩, [.sent task.1 task.2.callback push.message]) := by
      rw [Fanout.next, Fanout.startNext]
      exact if_pos hFree
    have hReturned : Fanout.next limit push ⟨registry, broker.deliveryLedger, tasks, [task], live⟩ (.returned 0) =
        (⟨registry, Fanout.noteReturned push task broker.deliveryLedger, tasks, [], live + 1⟩, []) := rfl
    obtain ⟨hFinal, hEffects, hBroker⟩ := ih ⟨registry, Fanout.noteReturned push task broker.deliveryLedger, tasks, [], live + 1⟩ rfl rfl
      { broker with deliveryLedger := Fanout.noteReturned push task broker.deliveryLedger } rfl
    have hEach : each (task :: tasks) (sendTo push) broker =
        ((each tasks (sendTo push) { broker with deliveryLedger := Fanout.noteReturned push task broker.deliveryLedger }).1,
          .sent task.1 task.2.callback push.message ::
            (each tasks (sendTo push) { broker with deliveryLedger := Fanout.noteReturned push task broker.deliveryLedger }).2) := by
      rw [each, andThen, sendTo_eq]
      rfl
    have hTurns : oneByOne (task :: tasks) = .start :: .returned 0 :: oneByOne tasks := rfl
    rw [hEach, hTurns]
    simp only [final_cons, run_cons, List.flatMap_cons, stepAt_output, hStarted, hReturned]
    refine ⟨?_, ?_, ?_⟩
    · rw [hFinal, List.length_cons]
      simp only [Fanout.mk.injEq, true_and]
      omega
    · rw [hEffects]
      rfl
    · exact hBroker

theorem find_seen (states : List PresenceState) (ts : Int) (registry : PresenceRegistry) (name : Name) :
    ((states.foldl (fun registry state =>
      modify state.name (fun state => { state with lastSeen := ts }) (fun _ => rfl) registry) registry).find name).isSome =
        (registry.find name).isSome := by
  induction states generalizing registry with
  | nil => rfl
  | cons state states ih =>
    rw [List.foldl_cons, ih, find_modify]
    split
    · rw [Option.isSome_map]
    · rfl

theorem report_congr {push : OpenPush} {now : Int} {fanout fanout' : Fanout L} (hLive : fanout.live = fanout'.live)
    (hLedger : fanout.deliveryLedger = fanout'.deliveryLedger)
    (hRegistry : ∀ name, (fanout.registry.find name).isSome = (fanout'.registry.find name).isSome) :
    fanout.report push now = fanout'.report push now := by
  unfold Fanout.report Fanout.pending
  rw [hLive, hLedger]
  congr 1
  split
  · rw [hRegistry]
  · rfl

def seen (ts : Int) (state : PresenceState) : Action L E :=
  onRegistry (modify state.name (fun state => { state with lastSeen := ts }) (fun state => .refl state.name))

/-- The changes of `deliver` in its order. -/
def deliverAction (push : OpenPush) (tasks : List FanoutTask) : Action L E :=
  (each push.recipients fun state => onLedger (track push.message state.name push.ts)).andThen <|
    (each push.targetStates (seen push.ts)).andThen <| each tasks (sendTo push)

theorem deliver_eq_action (now : Int) (message : Message) (targetName : Option Name) (context : PushContext) (broker : Broker L E) :
    deliver now message targetName context broker =
      ((⟨broker.registry, (deliverAction (broker.openPush now message targetName context)
          (broker.fanoutOf (broker.openPush now message targetName context)) broker).1.deliveryLedger, [], [],
          (broker.fanoutOf (broker.openPush now message targetName context)).length⟩ : Fanout L).report
            (broker.openPush now message targetName context) now,
        deliverAction (broker.openPush now message targetName context)
          (broker.fanoutOf (broker.openPush now message targetName context)) broker) := by
  refine Prod.ext ?_ rfl
  have hTracks : context.trackDisposition ≠ some false ↔ (broker.openPush now message targetName context).tracks = true :=
    decide_eq_true_iff.symm
  change PushResult.mk _ _ _ _ = PushResult.mk _ _ _ _
  congr 1
  exact if_congr hTracks rfl rfl

theorem deliverAction_eq (push : OpenPush) (broker : Broker L E) :
    deliverAction push (broker.fanoutOf push) broker = each (broker.fanoutOf push) (sendTo push)
      { broker with
        registry := (broker.startFanout push).registry
        deliveryLedger := (broker.startFanout push).deliveryLedger } := by
  unfold deliverAction
  rw [andThen, each_onLedger]
  dsimp only
  rw [andThen]
  unfold seen
  rw [each_onRegistry]
  rfl

/-- A push during which nothing else happens is one of the fan-outs. -/
theorem deliver_eq (limit : Nat) (now : Int) (message : Message) (targetName : Option Name) (context : PushContext) (broker : Broker L E) :
    let push := broker.openPush now message targetName context
    let fanout := final (Fanout.next limit push) (broker.startFanout push) (oneByOne (broker.fanoutOf push))
    deliver now message targetName context broker =
      (fanout.report push now, { broker with registry := fanout.registry, deliveryLedger := fanout.deliveryLedger },
        (run (Fanout.next limit push) (broker.startFanout push) (oneByOne (broker.fanoutOf push))).flatMap Step.output) := by
  intro push fanout
  obtain ⟨hFinal, hEffects, hBroker⟩ := oneByOne_runs limit push (broker.fanoutOf push) (broker.startFanout push) rfl rfl
    { broker with
      registry := (broker.startFanout push).registry
      deliveryLedger := (broker.startFanout push).deliveryLedger } rfl
  rw [← deliverAction_eq push broker] at hFinal hEffects hBroker
  rw [deliver_eq_action, hEffects]
  refine Prod.ext (report_congr ?_ ?_ fun name => ?_) (Prod.ext ?_ rfl)
  · change _ = (final (Fanout.next limit push) (broker.startFanout push) (oneByOne (broker.fanoutOf push))).live
    rw [hFinal]
    exact (Nat.zero_add _).symm
  · change _ = (final (Fanout.next limit push) (broker.startFanout push) (oneByOne (broker.fanoutOf push))).deliveryLedger
    rw [hFinal]
  · change _ = ((final (Fanout.next limit push) (broker.startFanout push) (oneByOne (broker.fanoutOf push))).registry.find name).isSome
    rw [hFinal]
    exact (find_seen push.targetStates push.ts broker.registry name).symm
  · change (deliverAction push (broker.fanoutOf push) broker).1 = _
    rw [hBroker]
    change _ = { broker with
      registry := (final (Fanout.next limit push) (broker.startFanout push) (oneByOne (broker.fanoutOf push))).registry
      deliveryLedger := (final (Fanout.next limit push) (broker.startFanout push) (oneByOne (broker.fanoutOf push))).deliveryLedger }
    rw [hFinal]

end Broker

/-! ## What comes between -/

namespace Broker

variable {L E : Type} [MessageDeliveryLedger L]

def Reaches (ledger : L) (broker : Broker L E) : Prop := ∃ ops, broker.deliveryLedger = final MessageDelivery.apply ledger ops

variable {ledger : L}

theorem Reaches.apply {broker : Broker L E} (h : Reaches ledger broker) (op : Op) :
    Reaches ledger { broker with deliveryLedger := (MessageDelivery.apply broker.deliveryLedger op).1 } := by
  obtain ⟨ops, hOps⟩ := h
  refine ⟨ops ++ [op], ?_⟩
  rw [final_append, ← hOps]
  rfl

omit [MessageDeliveryLedger L] in
theorem anyEffects : Composes fun _ : List (Effect L) => True := ⟨trivial, fun _ _ => trivial⟩

theorem reaches_frames : Frames (Reaches ledger : Broker L E → Prop) (fun _ => True) where
  composes := anyEffects
  frame _ _ _ _ h := h
  ledger _ op _ h := h.apply op

theorem reaches_redeliverPending (now : Int) (name : Name) (callback : Subscriber) (clientIdentity : Option ClientIdentity) :
    Keeps (Reaches ledger : Broker L E → Prop) (fun _ => True) (redeliverPending now name callback clientIdentity) := by
  intro broker h
  unfold redeliverPending
  dsimp only
  split
  · exact ⟨h, trivial⟩
  · refine keeps_each anyEffects (fun row _ => ?_) broker h
    refine (keeps_emit trivial).andThen anyEffects ?_
    split
    · exact keeps_update anyEffects fun _ h => h.apply (.noteSent row.message.id name now)
    · exact keeps_update anyEffects fun _ h => h.apply (.markUnreported row.message.id name now)

theorem reaches_releaseLeases (name : Name) (callback : Subscriber) :
    Keeps (Reaches ledger : Broker L E → Prop) (fun _ => True) (releaseLeases name callback) := by
  intro broker h
  unfold releaseLeases
  dsimp only
  split
  · exact ⟨h, trivial⟩
  · exact ⟨h.apply (.releaseOwner name _), trivial⟩

theorem reaches_redeliverToReady (now : Int) (name : Name) (excluded : Subscriber) :
    Keeps (Reaches ledger : Broker L E → Prop) (fun _ => True) (redeliverToReady now name excluded) := by
  intro broker h
  unfold redeliverToReady
  split
  · exact ⟨h, trivial⟩
  · exact reaches_redeliverPending now name _ _ broker h

variable [EventLog E]

theorem reaches_push (idFactory : Nat → String) (now : Int) (payload : PushPayload) (context : PushContext) :
    Keeps (Reaches ledger : Broker L E → Prop) (fun _ => True)
      fun broker => (push idFactory now payload context broker).2 :=
  fun _ => reaches_frames.keepsAt_push idFactory fun _ _ message _ =>
    ⟨⟨fun member _ _ h => h.apply (.track message member now), fun _ _ _ => trivial⟩, fun _ _ h => h⟩

theorem reaches_apply (idFactory : Nat → String) (broker : Broker L E) (event : Int × BrokerEvent) :
    Reaches broker.deliveryLedger (apply idFactory broker event).1 := by
  obtain ⟨now, event⟩ := event
  have hRules : Rules idFactory now (Reaches broker.deliveryLedger : Broker L E → Prop) (fun _ => True) :=
    { toFrames := reaches_frames
      disposed := fun _ => trivial
      redeliverPending := reaches_redeliverPending now
      degrade := fun name callback => (reaches_releaseLeases name callback).andThen anyEffects (reaches_redeliverToReady now name callback)
      refusals := fun _ _ _ _ _ => reaches_push idFactory now _ _ }
  refine (hRules.keepsAt_apply (fun payload context _ => reaches_push idFactory now payload context broker)
    (fun name callback _ => ?_) ⟨[], rfl⟩).1
  exact (reaches_releaseLeases name callback).andThen anyEffects (hRules.toFrames.onRegistry _) broker

/-- To a fan-out, an operation of the broker is operations on the ledger and a new registry. -/
theorem between (limit : Nat) (push : OpenPush) (idFactory : Nat → String) (fanout : Fanout L) (broker : Broker L E)
    (hLedger : broker.deliveryLedger = fanout.deliveryLedger) (event : Int × BrokerEvent) :
    ∃ events, final (Fanout.next limit push) fanout events =
        { fanout with
          registry := (apply idFactory broker event).1.registry
          deliveryLedger := (apply idFactory broker event).1.deliveryLedger } ∧
      (run (Fanout.next limit push) fanout events).flatMap Step.output = [] := by
  obtain ⟨ops, hOps⟩ := reaches_apply idFactory broker event
  have hRuns : ∀ (ops : List Op) (fanout : Fanout L), final (Fanout.next limit push) fanout (ops.map .ledger) =
        { fanout with deliveryLedger := final MessageDelivery.apply fanout.deliveryLedger ops } ∧
      (run (Fanout.next limit push) fanout (ops.map .ledger)).flatMap Step.output = [] := by
    intro ops
    induction ops with
    | nil => exact fun _ => ⟨rfl, rfl⟩
    | cons op ops ih => exact fun fanout => ih _
  obtain ⟨hFinal, hSilent⟩ := hRuns ops fanout
  refine ⟨ops.map .ledger ++ [.registry (apply idFactory broker event).1.registry], ?_, ?_⟩
  · rw [final_append, hFinal, hOps, hLedger]
    rfl
  · rw [run_append, List.flatMap_append, hSilent]
    rfl

end Broker

/-- A broker with a push that awaits. The two share the registry and the ledger. -/
structure Suspended (L E : Type) where
  broker : Broker L E
  waiting : List FanoutTask
  running : List FanoutTask
  live : Nat

namespace Suspended

variable {L E : Type} [MessageDeliveryLedger L] [EventLog E]

def fanout (suspended : Suspended L E) : Fanout L :=
  ⟨suspended.broker.registry, suspended.broker.deliveryLedger, suspended.waiting, suspended.running, suspended.live⟩

variable (limit : Nat) (push : OpenPush) (idFactory : Nat → String)

/-- An event of the fan-out, or an operation of the broker. The effects are those of the push. -/
def next : Machine (Suspended L E) (FanoutEvent ⊕ Int × BrokerEvent) (List (Effect L))
  | suspended, .inl event =>
    let (fanout, effects) := suspended.fanout.next limit push event
    (⟨{ suspended.broker with registry := fanout.registry, deliveryLedger := fanout.deliveryLedger }, fanout.waiting,
      fanout.running, fanout.live⟩, effects)
  | suspended, .inr event => ({ suspended with broker := (Broker.apply idFactory suspended.broker event).1 }, [])

/-- Whatever the broker does between its turns, a push goes as one of the fan-outs. -/
theorem fans_out (suspended : Suspended L E) (events : List (FanoutEvent ⊕ Int × BrokerEvent)) :
    ∃ turns, final (Fanout.next limit push) suspended.fanout turns = (final (next limit push idFactory) suspended events).fanout ∧
      (run (Fanout.next limit push) suspended.fanout turns).flatMap Step.output =
        (run (next limit push idFactory) suspended events).flatMap Step.output := by
  refine simulated fanout id id (fun suspended event => ?_) suspended events
  cases event with
  | inl event => exact ⟨[event], rfl, List.append_nil _⟩
  | inr event => exact Broker.between limit push idFactory suspended.fanout suspended.broker rfl event

end Suspended

end CommandSuite
