import CommandSuite.Core.EventLog
import CommandSuite.Library.Sql
import CommandSuite.Library.Table
import Mathlib.Data.List.Sort

/-! # `SqliteEventLog`

The table `events` and the conditions of its four read statements, under SQL's three-valued
logic. How SQLite prints a JSON value that is not a string is a parameter; it never starts
with a letter.
-/

namespace CommandSuite

open Library EventLog Sql

/-- A row of `events`. The JSON columns hold the values they encode. -/
structure EventRow where
  id : String
  ts : Int
  toName : Option String
  fromName : Option String
  title : Option String
  body : String
  level : LogLevel
  data : JsonObject
  attachments : Option (List Attachment)
  recipients : Option (List String)

namespace SqliteEventLog

/-- The text of a JSON value that is not a string: digits, a minus sign or a bracket first. -/
structure JsonText where
  render : Json → String
  head : ∀ value c rest, value.asString = none → (render value).toList = c :: rest → c.isAlpha = false

variable (json : JsonText)

/-- `json_extract(data, '$.property')`. Missing and null members are NULL, booleans are numbers. -/
def jsonExtract (data : JsonObject) (property : String) : Value :=
  match data.get property with
  | none | some .null => .null
  | some (.bool value) => .number (if value then 1 else 0)
  | some (.number value) => .number value
  | some (.string value) => .text value
  | some value => .text (json.render value)

/-- The text that `LIKE` reads of a value. -/
def likeText : Value → Option String
  | .null => none
  | .number value => some (json.render (.number value))
  | .text value => some value

def like (value : Value) (pattern : String) : Truth := (likeText json value).map fun text => matchLike pattern.toList text.toList

def notLike (value : Value) (pattern : String) : Truth := (like json value pattern).not

def notIn (value : Value) (choices : List String) : Truth := (value.isIn choices).not

open Sql.Truth Sql.Value

/-- `EXISTS (SELECT 1 FROM json_each(events.recipients) WHERE value = ?2)`. -/
def existsRecipient (recipients : Option (List String)) (viewer : String) : Truth :=
  some ((recipients.getD []).any fun recipient => (eq (.text recipient) (.text viewer)).accepts)

/-- The condition of `queryFeedStmt` after `ts < ?1`. -/
def queryFeedStmt (viewer : String) (row : EventRow) : Truth :=
  let toName := ofOption row.toName
  let fromName := ofOption row.fromName
  let thread := jsonExtract json row.data "thread"
  let kind := jsonExtract json row.data "kind"
  let viewer' : Value := .text viewer
  ((isNull toName).or ((eq fromName viewer').or (eq toName viewer'))).and <|
  ((isNull thread).or (notLike json thread "secret:%")).and <|
  (eq fromName viewer').or <|
    caseWhen
      [(some (row.recipients ≠ none), existsRecipient row.recipients viewer), (isNotNull toName, eq toName viewer')]
      (((isNull kind).or (notIn kind ["instructions", "context_control"])).and <|
        (isNull thread).or <|
        (eq thread (.text "chan:general")).or <|
        (notLike json thread "chan:%").and <|
        (notLike json thread "obj:%").and <|
        (notLike json thread "tool:%").and <|
        (notLike json thread "variable:%").and (notLike json thread "hook:%"))

def queryDmStmt (viewer withOther : String) (row : EventRow) : Truth :=
  let toName := ofOption row.toName
  let fromName := ofOption row.fromName
  (isNotNull toName).and
    (((eq fromName (.text viewer)).and (eq toName (.text withOther))).or
      ((eq fromName (.text withOther)).and (eq toName (.text viewer))))

def queryChannelStmt (tag : String) (row : EventRow) : Truth := eq (jsonExtract json row.data "thread") (.text tag)

def queryGeneralStmt (tag : String) (row : EventRow) : Truth :=
  let thread := jsonExtract json row.data "thread"
  (eq thread (.text tag)).or ((isNull (ofOption row.toName)).and (isNull thread))

abbrev rowKey (row : EventRow) : String := row.id

/-- The row that `append` inserts. An empty recipient list is an audience and stays one. -/
def toRow (message : Message) (recipients : Option (List String)) : EventRow where
  id := message.id
  ts := message.ts
  toName := message.toName
  fromName := message.fromName
  title := message.title
  body := message.body
  level := message.level
  data := message.data
  attachments := if message.attachments.length > 0 then some message.attachments else none
  recipients := recipients

def rowToMessage (row : EventRow) : Message where
  id := row.id
  ts := row.ts
  toName := row.toName
  fromName := row.fromName
  title := row.title
  body := row.body
  level := row.level
  data := row.data
  attachments := row.attachments.getD []

theorem rowToMessage_toRow (message : Message) (recipients : Option (List String)) :
    rowToMessage (toRow message recipients) = message := by
  obtain ⟨id, ts, toName, fromName, title, body, level, data, attachments⟩ := message
  cases attachments <;> rfl

end SqliteEventLog

structure SqliteEventLog (json : SqliteEventLog.JsonText) (plan : ScanPlan EventRow) where
  events : Table SqliteEventLog.rowKey

namespace SqliteEventLog

variable {json : JsonText} {plan : ScanPlan EventRow}

/-- `id` is the primary key, so an insert with a known id throws. -/
def append (message : Message) (recipients : Option (List String)) (log : SqliteEventLog json plan) :
    Option (SqliteEventLog json plan) :=
  if (log.events.find message.id).isSome then none
  else some ⟨log.events.insertOrIgnore (toRow message recipients)⟩

def MAX_SAFE_INTEGER : Rat := 9007199254740991

/-- The statement that `query` chooses for a channel id. -/
def channelStatement (json : JsonText) (channel : String) (row : EventRow) : Truth :=
  let tag := channelThreadTag channel
  if channel = GENERAL_CHANNEL_ID then queryGeneralStmt json tag row else queryChannelStmt json tag row

/-- The condition that `query` chooses for its options. -/
def statement (json : JsonText) (options : QueryOptions) (row : EventRow) : Truth :=
  match options.channel with
  | some channel => channelStatement json channel row
  | none =>
    match options.withOther with
    | some withOther =>
      if withOther ≠ "" then queryDmStmt options.viewer withOther row else queryFeedStmt json options.viewer row
    | none => queryFeedStmt json options.viewer row

def query (options : QueryOptions) (log : SqliteEventLog json plan) : List Message :=
  let before := options.before.getD MAX_SAFE_INTEGER
  let rows := plan.order (log.events.select fun row => (row.ts : Rat) < before && (statement json options row).accepts)
  ((rows.insertionSort fun a b => b.ts ≤ a.ts).take (clampQueryLimit options.limit)).map rowToMessage

instance : EventLog (SqliteEventLog json plan) where
  append := append
  query := query

end SqliteEventLog

end CommandSuite
