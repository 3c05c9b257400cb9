import CommandSuite.Core.EventLog
import CommandSuite.Core.MessageDelivery.Rows
import CommandSuite.Core.Registry
import CommandSuite.Library.Program
import CommandSuite.Sdk.CredentialSafety

/-! # The broker

`packages/core/src/broker.ts`. An operation takes the broker from one state to the next and has
effects in order: messages handed to subscriber callbacks, disposition events, and, for the
record, the moments at which leases were released. One operation is one step; callbacks return
before the next one starts and do not throw.
-/

namespace CommandSuite

open Library Program PresenceRegistry

structure PushPayload where
  toName : Option String
  title : Option String
  body : String
  level : Option LogLevel
  data : Option JsonObject
  attachments : Option (List Attachment)

structure PushContext where
  fromName : Option String
  recipients : Option (List String)
  trackDisposition : Option Bool

structure IdentityContext where
  name : Option String
  role : Option Role
  tokenId : Option String
  clientIdentity : Option ClientIdentity
  runnerIdentity : Option RunnerIdentity
  subscriptionId : Option String

structure MessageDispositionEvent where
  message : Message
  recipient : Name
  disposition : Disposition
  at_ : Int
  reason : Option DispositionReason

inductive PushError where
  | credentialShapedBody
  | invalidRecipient (toName : String)
  | appendRefused
  deriving DecidableEq

inductive AcknowledgementStatus where
  | pending | unreported | settled

structure Acknowledgement where
  status : AcknowledgementStatus
  pending : Nat
  unreported : Nat

structure PushResult where
  live : Nat
  targets : Nat
  acknowledgement : Option Acknowledgement
  message : Message

structure Broker (L E : Type) where
  registry : PresenceRegistry
  blockedTokenIds : List String
  deliveryLedger : L
  eventLog : E
  minted : Nat

/-- `released` keeps the ledger before and after, and who else was ready at that moment. -/
inductive Effect (L : Type) where
  | sent (member : Name) (callback : Subscriber) (message : Message)
  | disposed (event : MessageDispositionEvent)
  | released (member : Name) (callback : Subscriber) (before after : L) (ready : List Subscriber)

abbrev Action (L E : Type) := Program (Broker L E) (Effect L)

namespace Action

variable {L E : Type}

def onLedger (f : L → L) : Action L E := update fun broker => { broker with deliveryLedger := f broker.deliveryLedger }

def onRegistry (f : PresenceRegistry → PresenceRegistry) : Action L E :=
  update fun broker => { broker with registry := f broker.registry }

end Action

namespace Broker

variable {L E : Type} [MessageDeliveryLedger L] [EventLog E]

def OPEN_TURN_BACKSTOP_MS : Int := 8 * 60 * 60000

def truthy (text : Option String) : Option String := text.filter fun text => text ≠ ""

def resolveTarget (toName : Option String) : Except PushError (Option Name) :=
  match toName with
  | none => .ok none
  | some text =>
    match Name.parse text with
    | some name => .ok (some name)
    | none => .error (.invalidRecipient text)

def assertIdentity (target : Name) (name : Option String) : Bool := name.all fun name => name = target.text

/-- The audience that `push` writes beside the message. -/
def audience (targetName : Option Name) (context : PushContext) : Option (List String) :=
  match targetName with
  | some _ => none
  | none => context.recipients.map fun recipients => (recipients ++ (truthy context.fromName).toList).eraseDups

def registered (broker : Broker L E) (name : String) : Option Name := (get broker.registry name).map PresenceState.name

/-- The names of the presences that `push` fans out to. -/
def fanout (targetName : Option Name) (context : PushContext) (broker : Broker L E) : List Name :=
  match targetName with
  | some target =>
    (broker.registered target.text).toList ++
      ((truthy context.fromName).filter fun fromName => fromName ≠ target.text).toList.filterMap broker.registered
  | none =>
    match context.recipients with
    | some recipients =>
      ((recipients ++ (truthy context.fromName).toList).filterMap broker.registered).eraseDups
    | none => broker.registry.rows.map PresenceState.name

def subscriberReady (broker : Broker L E) (sub : Subscription) : Bool :=
  supportsDisposition sub.clientIdentity && !sub.tokenId.any (fun tokenId => tokenId ∈ broker.blockedTokenIds) &&
    sub.runnerCondition.any fun condition => condition.state = .ready

def hasLegacyRunner (state : PresenceState) : Bool :=
  let runners := state.subscribers.select fun sub => ClientIdentity.isRunner sub.clientIdentity
  !runners.isEmpty && !runners.any fun sub => supportsDisposition sub.clientIdentity

def selectedRunner (broker : Broker L E) (capableRunners : List Subscription) : Option Subscription :=
  (capableRunners.find? fun sub => broker.subscriberReady sub).or
    (capableRunners.find? fun sub =>
      match sub.clientIdentity with
      | some (.runner identity) => identity.livenessProtocol = none
      | _ => false)

def fanoutTasks (broker : Broker L E) (trackedForMember : Bool) (state : PresenceState) :
    List (Name × Subscription) :=
  let capableRunners :=
    if trackedForMember then state.subscribers.select fun sub => supportsDisposition sub.clientIdentity else []
  let selected := (broker.selectedRunner capableRunners).map Subscription.callback
  (state.subscribers.select fun sub =>
    !(ClientIdentity.isRunner sub.clientIdentity && !capableRunners.isEmpty && selected ≠ some sub.callback)).map
      fun sub => (state.name, sub)

def isPendingFor (ledger : L) (now : Int) (messageId : String) (name : String) : Bool :=
  (Name.parse name).any fun name =>
    (MessageDeliveryLedger.pending name now ledger).any fun row => row.message.id = messageId

/-- The part of `push` after the message is in the log. -/
def deliver (now : Int) (message : Message) (targetName : Option Name) (context : PushContext)
    (broker : Broker L E) : PushResult × Broker L E × List (Effect L) :=
  let targetStates := (broker.fanout targetName context).filterMap broker.registry.find
  let tracks := context.trackDisposition ≠ some false
  let dispositionNames : List String :=
    match targetName with
    | some target => [target.text]
    | none =>
      match context.recipients with
      | some recipients => recipients.eraseDups
      | none => targetStates.map fun state => state.name.text
  let tracked := targetStates.filter fun state => tracks && state.name.text ∈ dispositionNames
  let tasks := targetStates.flatMap fun state =>
    broker.fanoutTasks (tracks && state.name.text ∈ dispositionNames) state
  let (delivered, effects) :=
    ((each (tracked.filter fun state => !hasLegacyRunner state) fun state =>
        Action.onLedger (MessageDeliveryLedger.track message state.name now)).andThen <|
      (each targetStates fun state =>
        Action.onRegistry
          (modify state.name (fun state => { state with lastSeen := now }) (fun _ => rfl))).andThen <|
      each tasks fun task =>
        (emit (.sent task.1 task.2.callback message)).andThen <|
          if tracks && supportsDisposition task.2.clientIdentity then
            Action.onLedger (MessageDeliveryLedger.noteSent message.id task.1 now)
          else skip) broker
  let pending := (dispositionNames.filter fun name => isPendingFor delivered.deliveryLedger now message.id name).length
  let unreported := (tracked.filter hasLegacyRunner).length
  ({ live := tasks.length
     targets :=
       match targetName with
       | some target => if (broker.registry.find target).isSome then 1 else 0
       | none => (context.recipients.map List.length).getD targetStates.length
     acknowledgement :=
       if tracks then
         some
           { status := if pending > 0 then .pending else if unreported > 0 then .unreported else .settled
             pending := pending
             unreported := unreported }
       else none
     message := message },
    delivered, effects)

def messageOf (id : String) (now : Int) (targetName : Option Name) (payload : PushPayload)
    (context : PushContext) : Message where
  id := id
  ts := now
  toName := targetName.map Name.text
  fromName := context.fromName
  title := payload.title
  body := payload.body
  level := payload.level.getD .info
  data := payload.data.getD []
  attachments := payload.attachments.getD []

variable (idFactory : Nat → String)

def push (now : Int) (payload : PushPayload) (context : PushContext) (broker : Broker L E) :
    Except PushError PushResult × Broker L E × List (Effect L) :=
  if containsBearerToken payload.body then (.error .credentialShapedBody, broker, [])
  else
    match resolveTarget payload.toName with
    | .error error => (.error error, broker, [])
    | .ok targetName =>
      let message := messageOf (idFactory broker.minted) now targetName payload context
      let broker := { broker with minted := broker.minted + 1 }
      match EventLog.append message (audience targetName context) broker.eventLog with
      | none => (.error .appendRefused, broker, [])
      | some eventLog =>
        let (result, broker, effects) := deliver now message targetName context { broker with eventLog := eventLog }
        (.ok result, broker, effects)

def register (now : Int) (name : Name) (context : IdentityContext) : Action L E :=
  if assertIdentity name context.name then
    Action.onRegistry (registerOrGet name now context.role)
  else skip

def seedMembers (now : Int) (members : List (Name × Role)) : Action L E :=
  each members fun member => Action.onRegistry (registerOrGet member.1 now (some member.2))

/-- The maps of a subscription are set one by one: what a known callback has reported stays. -/
def attach (callback : Subscriber) (tokenId : Option String) (clientIdentity : Option ClientIdentity)
    (subscriptionId : String) (state : PresenceState) : PresenceState :=
  match state.subscribers.find callback with
  | some _ =>
    state.mapSubscription callback (fun sub => { sub with
      tokenId := tokenId, clientIdentity := clientIdentity, subscriptionId := subscriptionId, runnerTurns := [] })
      (fun _ => rfl)
  | none =>
    { state with
      subscribers := state.subscribers.insertOrIgnore
        { callback := callback
          tokenId := tokenId
          clientIdentity := clientIdentity
          subscriptionId := subscriptionId
          runnerCondition := none
          runnerTurns := []
          runnerLastActedAt := none
          runnerLastTurn := none } }

theorem attach_name (callback : Subscriber) (tokenId : Option String) (clientIdentity : Option ClientIdentity)
    (subscriptionId : String) (state : PresenceState) :
    (attach callback tokenId clientIdentity subscriptionId state).name = state.name := by
  unfold attach
  split <;> rfl

def subscribe (now : Int) (name : Name) (callback : Subscriber) (context : IdentityContext) : Action L E :=
  if assertIdentity name context.name then fun broker =>
    let clientIdentity := context.clientIdentity.or (context.runnerIdentity.map .runner)
    let subscriptionId := context.subscriptionId.getD (idFactory broker.minted)
    let minted := if context.subscriptionId.isSome then broker.minted else broker.minted + 1
    let registry := modify name
      (attach callback context.tokenId clientIdentity subscriptionId)
      (attach_name callback context.tokenId clientIdentity subscriptionId)
      (registerOrGet name now context.role broker.registry)
    ({ broker with registry := registry, minted := minted }, [])
  else skip

def readyOthers (broker : Broker L E) (name : Name) (excluded : Subscriber) : List Subscription :=
  match broker.registry.find name with
  | none => []
  | some state => state.subscribers.select fun sub => sub.callback ≠ excluded && broker.subscriberReady sub

/-- `releaseOwner` of the subscription's id, as `projectDegraded` and `projectSubscriberGone` call it. -/
def releaseLeases (name : Name) (callback : Subscriber) : Action L E := fun broker =>
  let owner := (broker.registry.find name).bind fun state =>
    (state.subscribers.find callback).map Subscription.subscriptionId
  match truthy owner with
  | none => (broker, [])
  | some owner =>
    let (_, ledger) := MessageDeliveryLedger.releaseOwner name owner broker.deliveryLedger
    ({ broker with deliveryLedger := ledger },
      [.released name callback broker.deliveryLedger ledger
        ((broker.readyOthers name callback).map Subscription.callback)])

def projectDegraded (name : Name) (callback : Subscriber) : Action L E := releaseLeases name callback

def projectSubscriberGone (name : Name) (callback : Subscriber) : Action L E := releaseLeases name callback

def redeliverPending (now : Int) (name : Name) (callback : Subscriber) (clientIdentity : Option ClientIdentity) :
    Action L E := fun broker =>
  let rows := MessageDeliveryLedger.pending name now broker.deliveryLedger
  let capable := supportsDisposition clientIdentity
  let legacy := ClientIdentity.isRunner clientIdentity && !capable
  if !capable && !legacy then (broker, [])
  else
    each rows (fun row =>
      (emit (.sent name callback row.message)).andThen <|
        if capable then Action.onLedger (MessageDeliveryLedger.noteSent row.message.id name now)
        else Action.onLedger (MessageDeliveryLedger.markUnreported row.message.id name now)) broker

def redeliverToReady (now : Int) (name : Name) (excluded : Subscriber) : Action L E := fun broker =>
  match (broker.readyOthers name excluded).head? with
  | none => (broker, [])
  | some ready => redeliverPending now name ready.callback ready.clientIdentity broker

def unsubscribe (name : Name) (callback : Subscriber) : Action L E :=
  (projectSubscriberGone name callback).andThen <|
    Action.onRegistry (modify name
      (fun state => { state with subscribers := state.subscribers.delete fun sub => sub.callback = callback })
      (fun _ => rfl))

def refusal (message : Message) (fromName : String) (body : String) (recipient : Name)
    (reason : Json) : PushPayload where
  toName := some fromName
  title := some "Message explicitly refused"
  body := body
  level := some .warning
  data := some [("kind", .string "message_disposition"), ("messageId", .string message.id),
    ("recipient", .string recipient.text), ("disposition", .string "refused"), ("reason", reason)]
  attachments := none

def refusalContext : PushContext := ⟨none, none, some false⟩

def reasonCodeText : ReasonCode → String
  | .degraded => "degraded"
  | .turnFailed => "turn_failed"
  | .expired => "expired"
  | .unsupported => "unsupported"
  | .operatorPolicy => "operator_policy"

def reasonJson : Option DispositionReason → Json
  | none => .null
  | some reason => .object [("code", .string (reasonCodeText reason.code)), ("detail", .string reason.detail)]

def disposition (now : Int) (name : Name) (frame : MessageDispositionFrame) (context : IdentityContext) :
    Action L E := fun broker =>
  match assertIdentity name context.name, context.clientIdentity with
  | true, some (.runner identity) =>
    let requiresAcceptance := identity.livenessProtocol = some .runnerStateV1
    let owner := context.subscriptionId.or (if requiresAcceptance then none else some ("legacy:" ++ name.text))
    match supportsDisposition context.clientIdentity, truthy owner with
    | true, some owner =>
      match MessageDeliveryLedger.settle name frame owner requiresAcceptance broker.deliveryLedger with
      | (none, ledger) => ({ broker with deliveryLedger := ledger }, [])
      | (some row, ledger) =>
        ((emit (.disposed ⟨row.message, name, frame.disposition, frame.at_, frame.reason⟩)).andThen fun broker =>
          match decide (frame.disposition = .refused), row.message.fromName with
          | true, some fromName =>
            (push idFactory now (refusal row.message fromName
              ("Message " ++ row.message.id ++ " to " ++ name.text ++ " was refused.") name (reasonJson frame.reason))
              refusalContext broker).2
          | _, _ => (broker, [])) { broker with deliveryLedger := ledger }
    | _, _ => (broker, [])
  | _, _ => (broker, [])

def onSubscription (name : Name) (callback : Subscriber) (f : Subscription → Subscription)
    (keeps : ∀ sub, (f sub).callback = sub.callback) : Action L E :=
  Action.onRegistry
    (modify name (fun state => state.mapSubscription callback f keeps) (fun _ => rfl))

def runnerSubscription (name : Name) (context : IdentityContext) (broker : Broker L E) : Option Subscription :=
  if assertIdentity name context.name && ClientIdentity.isRunner context.clientIdentity then
    (broker.registry.find name).bind fun state => state.findSubscription context.subscriptionId
  else none

def setCondition (condition : RunnerConditionFrame) (sub : Subscription) : Subscription :=
  { sub with runnerCondition := some condition }

def runnerCondition (now : Int) (name : Name) (frame : RunnerConditionFrame) (context : IdentityContext) :
    Action L E := fun broker =>
  match broker.runnerSubscription name context with
  | none => (broker, [])
  | some sub =>
    ((onSubscription name sub.callback (setCondition frame) (fun _ => rfl)).andThen <|
      if frame.state = .degraded then
        (projectDegraded name sub.callback).andThen (redeliverToReady now name sub.callback)
      else if sub.runnerCondition.all fun prior => prior.state ≠ .ready then
        redeliverPending now name sub.callback context.clientIdentity
      else skip) broker

def degradedBy (at_ : Int) (detail : String) : RunnerConditionFrame := ⟨at_, .degraded, some ⟨.unknown, detail⟩⟩

def closeTurn (frame : RunnerTurnFrame) (outcome : TurnOutcome) (sub : Subscription) : Subscription :=
  { sub with
    runnerTurns := sub.runnerTurns.filter fun turn => turn.1 ≠ frame.turnId
    runnerLastTurn := some (frame.at_, outcome)
    runnerLastActedAt := if outcome = .acted then some frame.at_ else sub.runnerLastActedAt }

/-- `turns.set`: an open turn keeps its place and starts anew. -/
def openTurn (frame : RunnerTurnFrame) (sub : Subscription) : Subscription :=
  { sub with
    runnerTurns :=
      if sub.runnerTurns.any fun turn => turn.1 = frame.turnId then
        sub.runnerTurns.map fun turn => if turn.1 = frame.turnId then (turn.1, frame.at_) else turn
      else sub.runnerTurns ++ [(frame.turnId, frame.at_)] }

def runnerTurn (now : Int) (name : Name) (frame : RunnerTurnFrame) (context : IdentityContext) :
    Action L E := fun broker =>
  match broker.runnerSubscription name context with
  | none => (broker, [])
  | some sub =>
    match frame.phase with
    | .started => onSubscription name sub.callback (openTurn frame) (fun _ => rfl) broker
    | .completed outcome =>
      if sub.runnerTurns.any fun turn => turn.1 = frame.turnId then
        ((onSubscription name sub.callback (closeTurn frame outcome) (fun _ => rfl)).andThen <|
          if outcome = .failed ∧ sub.runnerCondition.all (fun condition => condition.state ≠ .degraded) then
            (onSubscription name sub.callback (setCondition (degradedBy frame.at_ "runner turn failed"))
              (fun _ => rfl)).andThen <|
            (projectDegraded name sub.callback).andThen (redeliverToReady now name sub.callback)
          else skip) broker
      else (broker, [])

def isExpiredTurn (now : Int) (turn : String × Int) : Bool := OPEN_TURN_BACKSTOP_MS ≤ now - turn.2

def sweepSubscription (now : Int) (name : Name) (callback : Subscriber) : Action L E := fun broker =>
  let sub := (broker.registry.find name).bind fun state => state.subscribers.find callback
  if sub.any fun sub => sub.runnerTurns.any (isExpiredTurn now) then
    ((onSubscription name callback (fun sub =>
        setCondition (degradedBy now "runner turn exceeded exitability backstop")
          { sub with
            runnerTurns := sub.runnerTurns.filter fun turn => !isExpiredTurn now turn
            runnerLastTurn := some (now, .failed) }) (fun _ => rfl)).andThen <|
      (projectDegraded name callback).andThen (redeliverToReady now name callback)) broker
  else (broker, [])

def subscriptions (broker : Broker L E) : List (Name × Subscriber) :=
  broker.registry.rows.flatMap fun state => state.subscribers.rows.map fun sub => (state.name, sub.callback)

def sweepOpenTurnBackstops (now : Int) : Action L E := fun broker =>
  each broker.subscriptions (fun entry => sweepSubscription now entry.1 entry.2) broker

/-- The loop of `sweepMessageDeliveries`. A push that throws ends it. -/
def refuseExpired (now : Int) : List ExpiredMessageDelivery → Action L E
  | [], broker => (broker, [])
  | row :: rows, broker =>
    ((emit (.disposed ⟨row.message, row.recipient, .refused, now, some MessageDelivery.expiredReason⟩)).andThen
      fun broker =>
        match row.sender with
        | none => refuseExpired now rows broker
        | some sender =>
          match push idFactory now (refusal row.message sender
              ("Message " ++ row.message.id ++ " to " ++ row.recipient.text ++ " expired without acknowledgement.")
              row.recipient (.string "expired")) refusalContext broker with
          | (.error _, broker, effects) => (broker, effects)
          | (.ok _, broker, effects) =>
            let (broker, later) := refuseExpired now rows broker
            (broker, effects ++ later)) broker

def sweepMessageDeliveries (now : Int) : Action L E := fun broker =>
  let (expired, ledger) := MessageDeliveryLedger.expire now broker.deliveryLedger
  refuseExpired idFactory now expired { broker with deliveryLedger := ledger }

/-- The body of the loops of `blockTokens`, for one subscription. -/
def blockSubscription (now : Int) (name : Name) (callback : Subscriber) : Action L E := fun broker =>
  let sub := (broker.registry.find name).bind fun state => state.subscribers.find callback
  if sub.any fun sub => sub.tokenId.any fun tokenId => tokenId ∈ broker.blockedTokenIds then
    ((projectDegraded name callback).andThen (redeliverToReady now name callback)) broker
  else (broker, [])

def blockTokens (now : Int) (tokenIds : List String) : Action L E := fun broker =>
  let broker := { broker with blockedTokenIds := broker.blockedTokenIds ++ tokenIds }
  each broker.subscriptions (fun entry => blockSubscription now entry.1 entry.2) broker

end Broker

inductive BrokerEvent where
  | register (name : Name) (context : IdentityContext)
  | seedMembers (members : List (Name × Role))
  | push (payload : PushPayload) (context : PushContext)
  | subscribe (name : Name) (callback : Subscriber) (context : IdentityContext)
  | unsubscribe (name : Name) (callback : Subscriber)
  | disposition (name : Name) (frame : MessageDispositionFrame) (context : IdentityContext)
  | runnerCondition (name : Name) (frame : RunnerConditionFrame) (context : IdentityContext)
  | runnerTurn (name : Name) (frame : RunnerTurnFrame) (context : IdentityContext)
  | sweepOpenTurnBackstops
  | redeliverPending (name : Name) (callback : Subscriber) (clientIdentity : Option ClientIdentity)
  | sweepMessageDeliveries
  | blockTokens (tokenIds : List String)

namespace Broker

variable {L E : Type} [MessageDeliveryLedger L] [EventLog E] (idFactory : Nat → String)

def apply : Transcript.Machine (Broker L E) (Int × BrokerEvent) (List (Effect L))
  | broker, (now, .register name context) => register now name context broker
  | broker, (now, .seedMembers members) => seedMembers now members broker
  | broker, (now, .push payload context) => (push idFactory now payload context broker).2
  | broker, (now, .subscribe name callback context) => subscribe idFactory now name callback context broker
  | broker, (_, .unsubscribe name callback) => unsubscribe name callback broker
  | broker, (now, .disposition name frame context) => disposition idFactory now name frame context broker
  | broker, (now, .runnerCondition name frame context) => runnerCondition now name frame context broker
  | broker, (now, .runnerTurn name frame context) => runnerTurn now name frame context broker
  | broker, (now, .sweepOpenTurnBackstops) => sweepOpenTurnBackstops now broker
  | broker, (now, .redeliverPending name callback clientIdentity) =>
    redeliverPending now name callback clientIdentity broker
  | broker, (now, .sweepMessageDeliveries) => sweepMessageDeliveries idFactory now broker
  | broker, (now, .blockTokens tokenIds) => blockTokens now tokenIds broker

def start {L E : Type} [LawfulLedger L] (log : E) : Broker L E := ⟨Table.empty, [], LawfulLedger.empty, log, 0⟩

end Broker

end CommandSuite
