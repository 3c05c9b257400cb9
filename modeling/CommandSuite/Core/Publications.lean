import CommandSuite.Core.Broker

/-! # What the server publishes

Every push of `packages/core/src/app.ts` and of `notifications/dispatcher.ts` that is not a
member's own: its payload and its context. Bodies that other modules compose are parameters.
-/

namespace CommandSuite

open EventLog

structure Publication where
  payload : PushPayload
  context : PushContext

namespace Publication

def notice (body : String) (level : Option LogLevel) (data : JsonObject) (fromName : String)
    (recipients : List String) : Publication where
  payload := ⟨none, none, body, level, some data, none⟩
  context := ⟨some fromName, some recipients, none⟩

def instructionsBody (changed : List String) (actor : String) : String :=
  "Instruction blocks edited by " ++ actor ++
    (if changed.length > 0 then " (" ++ ", ".intercalate changed ++ ")" else "") ++
    ". Your composed instructions changed; the new text applies from your next agent session, and your broker lists you restart-pending until then. Treat this notice as authoritative over conflicting standing text."

def instructionsEvent (changed : List String) (actor : String) (affected : List String) : Publication :=
  notice (instructionsBody changed actor) (some .notice)
    [("kind", .string "instructions"), ("event", .string "edited"), ("changed", .array (changed.map .string)),
      ("actor", .string actor), ("affected", .array (affected.map .string))] "csuite" affected

inductive EnvironmentAction where
  | valueSet | bound | unbound

def EnvironmentAction.text : EnvironmentAction → String
  | .valueSet => "value_set"
  | .bound => "bound"
  | .unbound => "unbound"

/-- `action.replace('_', ' ')`. -/
def EnvironmentAction.words : EnvironmentAction → String
  | .valueSet => "value set"
  | .bound => "bound"
  | .unbound => "unbound"

def environmentEvent (target : String) (action : EnvironmentAction) (actor envName : String) : Publication :=
  notice ("Runner environment " ++ action.words ++ " for " ++ envName ++ ".") (some .info)
    [("kind", .string "environment"), ("action", .string action.text), ("actor", .string actor),
      ("envName", .string envName)] "csuite" [target]

inductive Extra where
  | member (name : String)
  | tool (name : String)

def Extra.json : Option Extra → JsonObject
  | none => []
  | some (.member name) => [("member", .string name)]
  | some (.tool name) => [("tool", .string name)]

def recordEvent (kind event : String) (fields : JsonObject) (thread actor : String) (extra : Option Extra)
    (body : String) (recipients : List String) : Publication :=
  notice body (some .info)
    ([("kind", .string kind), ("event", .string event)] ++ fields ++
      [("thread", .string thread), ("actor", .string actor)] ++ Extra.json extra) actor recipients

def toolSourceEvent (slug sourceKind event actor body : String) (recipients : List String) (extra : Option Extra) :
    Publication :=
  recordEvent "tool_source" event [("source_slug", .string slug), ("source_kind", .string sourceKind)]
    (TOOL_THREAD_PREFIX ++ slug) actor extra body recipients

def secretEvent (slug envName event actor body : String) (recipients : List String) (extra : Option Extra) : Publication :=
  recordEvent "secret" event [("secret_slug", .string slug), ("env_name", .string envName)]
    (SECRET_THREAD_PREFIX ++ slug) actor extra body recipients

def variableEvent (slug envName event actor body : String) (recipients : List String) (extra : Option Extra) : Publication :=
  recordEvent "variable" event [("variable_slug", .string slug), ("env_name", .string envName)]
    (VARIABLE_THREAD_PREFIX ++ slug) actor extra body recipients

def endpointEvent (slug event actor body : String) (recipients : List String) : Publication :=
  recordEvent "notification_endpoint" event [("endpoint_slug", .string slug)] (NOTIFICATION_THREAD_PREFIX ++ slug)
    actor none body recipients

def objectiveEvent (id status event actor body : String) (recipients : List String) : Publication :=
  recordEvent "objective" event [("objective_id", .string id), ("objective_status", .string status)]
    (OBJECTIVE_THREAD_PREFIX ++ id) actor none body recipients

/-- `POST /objectives/:id/discuss`. -/
def objectiveDiscuss (member id : String) (title : Option String) (body : String) (attachments : List Attachment)
    (members : List String) : Publication where
  payload :=
    { toName := none
      title := title
      body := body
      level := some .info
      data := some [("kind", .string "objective_discuss"), ("objective_id", .string id),
        ("thread", .string (OBJECTIVE_THREAD_PREFIX ++ id))]
      attachments := if attachments.length > 0 then some attachments else none }
  context := ⟨some member, some members, none⟩

def sessionOnlineBody (memberName : String) (activeObjectiveCount : Nat) : String :=
  let plate :=
    if activeObjectiveCount > 0 then
      "You have " ++ toString activeObjectiveCount ++ " active objective(s) on your plate — call `objectives_list` to see them."
    else "No active objectives are assigned to you right now."
  "Connected to csuite as " ++ memberName ++ ". " ++ plate ++ " " ++
    "This is a system notice marking the start of a runtime session — no acknowledgement is required. " ++
    "Resume any in-progress work, address open objectives, or stand by for new direction as appropriate."

def sessionOnline (memberName : String) (activeObjectiveCount : Nat) : Publication where
  payload := ⟨some memberName, some "csuite session online", sessionOnlineBody memberName activeObjectiveCount,
    some .info, none, none⟩
  context := ⟨some "csuite", none, none⟩

/-- Where a notification endpoint delivers. A channel without a recipient list is broadcast. -/
inductive NotificationTarget where
  | member (name : String)
  | channel (channelId : String) (recipients : Option (List String))

def externalNotificationData (slug : String) (deliveryIds : List String) (queuedMs : Option Nat) : JsonObject :=
  [("kind", .string "external_notification"), ("endpoint", .string slug),
    ("delivery_ids", .array (deliveryIds.map .string))] ++
    (if deliveryIds.length > 1 then [("coalesced", .number deliveryIds.length)] else []) ++
    (queuedMs.map fun ms => ("queued_ms", Json.number ms)).toList

/-- `pushMessage` of the dispatcher. -/
def externalNotification (slug body : String) (title : Option String) (level : LogLevel)
    (deliveryIds : List String) (queuedMs : Option Nat) : NotificationTarget → Publication
  | .member name =>
    { payload := ⟨some name, title, body, some level, some (externalNotificationData slug deliveryIds queuedMs), none⟩
      context := ⟨some (NOTIFICATION_THREAD_PREFIX ++ slug), none, none⟩ }
  | .channel channelId recipients =>
    { payload := ⟨none, title, body, some level,
        some (externalNotificationData slug deliveryIds queuedMs ++ [("thread", .string (channelThreadTag channelId))]),
        none⟩
      context := ⟨some (NOTIFICATION_THREAD_PREFIX ++ slug), recipients, none⟩ }

inductive Published : Publication → Prop where
  | instructions (changed : List String) (actor : String) (affected : List String) :
    Published (instructionsEvent changed actor affected)
  | environment (target : String) (action : EnvironmentAction) (actor envName : String) :
    Published (environmentEvent target action actor envName)
  | toolSource (slug sourceKind event actor body : String) (recipients : List String) (extra : Option Extra) :
    Published (toolSourceEvent slug sourceKind event actor body recipients extra)
  | secret (slug envName event actor body : String) (recipients : List String) (extra : Option Extra) :
    Published (secretEvent slug envName event actor body recipients extra)
  | variable_ (slug envName event actor body : String) (recipients : List String) (extra : Option Extra) :
    Published (variableEvent slug envName event actor body recipients extra)
  | endpoint (slug event actor body : String) (recipients : List String) :
    Published (endpointEvent slug event actor body recipients)
  | objective (id status event actor body : String) (recipients : List String) :
    Published (objectiveEvent id status event actor body recipients)
  | discuss (member id : String) (title : Option String) (body : String) (attachments : List Attachment)
      (members : List String) : Published (objectiveDiscuss member id title body attachments members)
  | sessionOnline (memberName : String) (activeObjectiveCount : Nat) : Published (sessionOnline memberName activeObjectiveCount)
  | externalNotification (slug body : String) (title : Option String) (level : LogLevel) (deliveryIds : List String)
      (queuedMs : Option Nat) (target : NotificationTarget) :
    Published (externalNotification slug body title level deliveryIds queuedMs target)

def KINDS : List String :=
  ["instructions", "environment", "tool_source", "secret", "variable", "notification_endpoint", "objective",
    "objective_discuss", "external_notification"]

theorem kind_of_published {publication : Publication} (h : Published publication) :
    publication.payload.data = none ∨ ∃ kind ∈ KINDS, (publication.payload.data.getD []).get "kind" = some (.string kind) := by
  cases h with
  | sessionOnline => exact .inl rfl
  | instructions => exact .inr ⟨"instructions", by decide, rfl⟩
  | environment => exact .inr ⟨"environment", by decide, rfl⟩
  | toolSource => exact .inr ⟨"tool_source", by decide, rfl⟩
  | secret => exact .inr ⟨"secret", by decide, rfl⟩
  | variable_ => exact .inr ⟨"variable", by decide, rfl⟩
  | endpoint => exact .inr ⟨"notification_endpoint", by decide, rfl⟩
  | objective => exact .inr ⟨"objective", by decide, rfl⟩
  | discuss => exact .inr ⟨"objective_discuss", by decide, rfl⟩
  | externalNotification slug body title level deliveryIds queuedMs target =>
    refine .inr ⟨"external_notification", by decide, ?_⟩
    cases target <;> rfl

end Publication

end CommandSuite
