import CommandSuite.Core.Broker
import CommandSuite.Core.Channels

/-! # The routes

The handlers of `packages/core/src/app.ts` that put messages on the members' streams or read them
back. A request has passed its schema; what a handler reads of the other stores, the roster, the
channels and the files, is read at the moment of the request and may change between requests.
-/

namespace CommandSuite

open Library EventLog

structure Member where
  name : Name
  permissions : List Permission

abbrev Member.key (member : Member) : Name := member.name

/-- What a handler sees beside the broker. `canonicalize` is the answer of `canonicalizeAttachments`. -/
structure Directory where
  members : Table Member.key
  channels : Option ChannelStore
  canonicalize : Option (List Attachment) → Member → Except String (List Attachment)

structure Refusal where
  status : Nat
  error : String
  deriving DecidableEq

inductive RouteError where
  | noSuchAgent (toName : String)
  | attachment (error : String)
  | noSuchChannel (channelId : String)
  | channelArchived
  | notAMemberOfThisChannel
  | invalidName
  | withAndChannelExclusive
  | channelsNotEnabled
  | invalidBefore
  | noSuchMember (name : String)
  | contextNotPermitted
  | contextNotDelivered
  | push (error : PushError)

namespace App

variable {L E : Type}

section History

variable [EventLog E]

/-- The query string of `GET /history`, its numbers as `Number` reads them. -/
structure HistoryQuery where
  withOther : Option String
  channel : Option String
  limit : Option Number
  before : Option Number

def given (parameter : Option String) : Option String := parameter.filter fun text => text ≠ ""

def historyWith (query : HistoryQuery) : Except RouteError (Option Name) :=
  match given query.withOther with
  | none => .ok none
  | some withRaw =>
    match Name.parse withRaw with
    | none => .error .invalidName
    | some withOther => .ok (some withOther)

def historyChannel (channels : Option ChannelStore) (member : Name) (withOther : Option Name)
    (query : HistoryQuery) : Except RouteError (Option String) :=
  match given query.channel with
  | none => .ok none
  | some channelRaw =>
    if withOther ≠ none then .error .withAndChannelExclusive
    else if channelRaw = GENERAL_CHANNEL_ID then .ok (some GENERAL_CHANNEL_ID)
    else
      match channels with
      | none => .error .channelsNotEnabled
      | some channels =>
        match (channels.getBySlug channelRaw).or (channels.get channelRaw) with
        | none => .error (.noSuchChannel channelRaw)
        | some channel =>
          if channels.isMember channel.id member.text then .ok (some channel.id)
          else .error .notAMemberOfThisChannel

def historyBefore (query : HistoryQuery) : Except RouteError (Option Rat) :=
  match query.before with
  | none => .ok none
  | some .nonFinite => .error .invalidBefore
  | some (.finite before) => .ok (some before)

/-- `GET /history`. -/
def history (channels : Option ChannelStore) (member : Name) (query : HistoryQuery) (eventLog : E) :
    Except RouteError (List Message) := do
  let withOther ← historyWith query
  let channel ← historyChannel channels member withOther query
  let before ← historyBefore query
  return EventLog.query
    { viewer := member.text
      withOther := withOther.map Name.text
      channel := channel
      limit := some (.finite (clampQueryLimit query.limit))
      before := before } eventLog

end History

section Push

variable [MessageDeliveryLedger L] [EventLog E] (idFactory : Nat → String)

def hasMember (broker : Broker L E) (name : String) : Bool := (PresenceRegistry.get broker.registry name).isSome

/-- The context that `POST /push` gives a payload with the thread: a private channel has a recipient list. -/
def routeChannel (channels : Option ChannelStore) (member : Name) (thread : Option Json) :
    Except RouteError PushContext :=
  let broadcast : PushContext := ⟨some member.text, none, none⟩
  match channels, thread with
  | some channels, some (.string threadTag) =>
    match Text.afterPrefix threadTag CHANNEL_THREAD_PREFIX with
    | none => .ok broadcast
    | some channelId =>
      if channelId = GENERAL_CHANNEL_ID then .ok broadcast
      else
        match channels.get channelId with
        | none => .error (.noSuchChannel channelId)
        | some channel =>
          if channel.archivedAt ≠ none then .error .channelArchived
          else if !channels.isMember channelId member.text then .error .notAMemberOfThisChannel
          else .ok ⟨some member.text, channels.recipientNames channelId, none⟩
  | _, _ => .ok broadcast

/-- What `POST /push` hands to the broker, or why it refuses. -/
def prepare (directory : Directory) (member : Member) (payload : PushPayload) (broker : Broker L E) :
    Except RouteError (PushPayload × PushContext) := do
  if (given payload.toName).any fun toName => !hasMember broker toName then
    throw (.noSuchAgent (payload.toName.getD ""))
  let attachments ← (directory.canonicalize payload.attachments member).mapError .attachment
  let context ← routeChannel directory.channels member.name ((payload.data.getD []).get "thread")
  return ({ payload with attachments := some attachments }, context)

variable {context : PushContext} {directory : Directory} {member : Member} {payload prepared : PushPayload} {broker : Broker L E}

omit [MessageDeliveryLedger L] [EventLog E] in
theorem prepare_eq_ok (h : prepare directory member payload broker = .ok (prepared, context)) :
    (∃ attachments, prepared = { payload with attachments := some attachments }) ∧
      routeChannel directory.channels member.name ((payload.data.getD []).get "thread") = .ok context := by
  unfold prepare at h
  simp only [bind, Except.bind, pure, Except.pure, throw, throwThe, MonadExceptOf.throw] at h
  split at h
  · cases h
  · split at h
    · cases h
    · split at h
      · cases h
      · rename_i hRoute
        cases h
        exact ⟨⟨_, rfl⟩, hRoute⟩

omit [MessageDeliveryLedger L] [EventLog E] in
theorem canonicalize_of_prepare (h : prepare directory member payload broker = .ok (prepared, context)) :
    ∃ attachments, directory.canonicalize payload.attachments member = .ok attachments ∧
      prepared.attachments = some attachments := by
  unfold prepare at h
  simp only [bind, Except.bind, pure, Except.pure, throw, throwThe, MonadExceptOf.throw] at h
  split at h
  · cases h
  · cases hCanonical : directory.canonicalize payload.attachments member with
    | error error =>
      rw [hCanonical] at h
      cases h
    | ok attachments =>
      simp only [hCanonical, Except.mapError] at h
      split at h
      · cases h
      · cases h
        exact ⟨attachments, rfl, rfl⟩

theorem fromName_of_routeChannel {channels : Option ChannelStore} {member : Name} {thread : Option Json}
    (h : routeChannel channels member thread = .ok context) : context.fromName = some member.text := by
  unfold routeChannel at h
  dsimp only at h
  split at h
  · split at h
    · cases h
      rfl
    · split at h
      · cases h
        rfl
      · split at h
        · cases h
        · split at h
          · cases h
          · split at h
            · cases h
            · cases h
              rfl
  · cases h
    rfl

/-- `POST /push`, up to the grants on its attachments and the notifications. -/
def postPush (now : Int) (directory : Directory) (member : Member) (payload : PushPayload)
    (broker : Broker L E) : Except RouteError PushResult × Broker L E × List (Effect L) :=
  match prepare directory member payload broker with
  | .error error => (.error error, broker, [])
  | .ok (payload, context) =>
    let (result, broker, effects) := Broker.push idFactory now payload context broker
    (result.mapError .push, broker, effects)

structure ContextControlRequest where
  verb : ContextControlVerb
  reason : Option String

structure ContextControlResponse where
  requestId : String
  verb : ContextControlVerb
  target : Name
  delivered : Bool

def contextControlBody (member : Name) (request : ContextControlRequest) : String :=
  let because := (request.reason.filter fun reason => reason ≠ "").elim "" fun reason => ": " ++ reason
  match request.verb with
  | .compact => member.text ++ " asked your runner to compact your context" ++ because ++ "."
  | .reload =>
    member.text ++ " asked your runner to reload its environment" ++ because ++ ". The current conversation is resumed."
  | .clear =>
    member.text ++ " asked your runner to clear your context" ++ because ++
      ". Your instruction blocks and open objectives are re-delivered afterwards."

def contextControlData (requestId : String) (member target : Name) (request : ContextControlRequest) : JsonObject :=
  [("kind", .string "context_control"), ("requestId", .string requestId), ("verb", .string request.verb.text),
    ("target", .string target.text), ("requestedBy", .string member.text)] ++
    (request.reason.map fun reason => ("reason", Json.string reason)).toList

def contextControlPayload (requestId : String) (member target : Name) (request : ContextControlRequest) : PushPayload :=
  ⟨none, none, contextControlBody member request, some .notice, some (contextControlData requestId member target request), none⟩

/-- Whom `POST /members/:name/context` lets the caller reach. -/
def contextTarget (directory : Directory) (member : Member) (name : String) : Except RouteError Member :=
  match Name.parse name with
  | none => .error .invalidName
  | some name =>
    match directory.members.find name with
    | none => .error (.noSuchMember name.text)
    | some target =>
      if member.name ≠ target.name && !hasPermission member.permissions .membersContext then
        .error .contextNotPermitted
      else .ok target

/-- `POST /members/:name/context`. The request id is a fresh UUID. -/
def postContext (now : Int) (directory : Directory) (member : Member) (name : String)
    (request : ContextControlRequest) (requestId : String) (broker : Broker L E) :
    Except RouteError ContextControlResponse × Broker L E × List (Effect L) :=
  match contextTarget directory member name with
  | .error error => (.error error, broker, [])
  | .ok target =>
    let delivered := (broker.registry.find target.name).any fun state => !state.subscribers.rows.isEmpty
    match Broker.push idFactory now (contextControlPayload requestId member.name target.name request)
        ⟨some "csuite", some [target.name.text], none⟩ broker with
    | (.error _, broker, effects) => (.error .contextNotDelivered, broker, effects)
    | (.ok _, broker, effects) =>
      (.ok { requestId := requestId, verb := request.verb, target := target.name, delivered := delivered }, broker, effects)

end Push

end App

end CommandSuite
