import CommandSuite.Core.Trace.Redact

/-! # The rollout parser

`packages/cli/src/runtime/agents/codex/rollout-parser.ts`: the lines of a codex rollout become activity events.
`JSON.parse`, `Date.parse` and the rounding of seconds are what they are given as.
-/

namespace CommandSuite

open Library Redact Text Transcript

/-- `none` is an exception, or a date that is not a number; `secondsToMs` is `Math.round(v * 1000)`. -/
structure RolloutHost where
  parseJson : JsString → Option JsValue
  parseDate : JsString → Option Int
  secondsToMs : Rat → Int

structure RolloutUsage where
  inputTokens : Option Rat
  cachedInputTokens : Option Rat
  outputTokens : Option Rat

structure TurnAccum where
  turnId : Option JsString
  startedAtMs : Int
  lastTsMs : Int
  endedAtMs : Option Int
  durationMs : Option Rat
  model : Option JsString
  assistantTexts : List JsString
  reasoningBlocks : List JsString
  usage : Option RolloutUsage

inductive RolloutBlock where
  | thinking (text : JsString)
  | text (text : JsString)
  deriving DecidableEq

structure AnthropicUsage where
  inputTokens : Option Rat
  outputTokens : Option Rat
  cacheCreationInputTokens : Option Rat
  cacheReadInputTokens : Option Rat

structure LlmExchange where
  ts : Int
  duration : Rat
  startedAt : Int
  endedAt : Int
  model : JsString
  stopReason : Option JsString
  content : List RolloutBlock
  usage : Option AnthropicUsage

structure ToolCall where
  name : JsString
  input : JsValue

structure ToolAction where
  ts : Int
  toolName : JsString
  input : JsValue
  result : JsValue
  isError : Option Bool
  toolUseId : JsString

/-- The events of one parser. `agent`, `source` and `querySource` are the same in all of them. -/
inductive RolloutEvent where
  | llmExchange (exchange : LlmExchange)
  | toolAction (action : ToolAction)
  | userPrompt (ts : Int) (text : JsString)

/-- A line, with the time at which it is handled and the values that are registered as secrets by then. -/
structure RolloutMoment where
  line : JsString
  now : Int
  registered : RegisteredValues

structure RolloutParser where
  current : Option TurnAccum
  pendingToolCalls : JsString → Option ToolCall

namespace RolloutParser

def create : RolloutParser := ⟨none, fun _ => none⟩

/-! ## Fields -/

def objectOf : JsValue → Option (List (JsString × JsValue))
  | .object members => some members
  | _ => none

def asObj (value : Option JsValue) : Option (List (JsString × JsValue)) := value.bind objectOf

def stringOf : JsValue → Option JsString
  | .string text => some text
  | _ => none

def numberOf : JsValue → Option Rat
  | .number value => some value
  | _ => none

def field (members : List (JsString × JsValue)) (key : String) : Option JsValue := members.lookup (utf16 key)

def strField (members : List (JsString × JsValue)) (key : String) : Option JsString := (field members key).bind stringOf

def numField (members : List (JsString × JsValue)) (key : String) : Option Rat := (field members key).bind numberOf

def readTokenUsage (info : Option JsValue) : Option RolloutUsage := do
  let object ← asObj info
  let source := ((asObj (field object "last_token_usage")).orElse fun _ => asObj (field object "total_token_usage")).getD object
  let usage : RolloutUsage := ⟨numField source "input_tokens", numField source "cached_input_tokens", numField source "output_tokens"⟩
  if usage.inputTokens.isNone && usage.cachedInputTokens.isNone && usage.outputTokens.isNone then none else some usage

def mapUsage (usage : Option RolloutUsage) : Option AnthropicUsage := do
  let usage ← usage
  if usage.inputTokens.isNone && usage.cachedInputTokens.isNone && usage.outputTokens.isNone then none
  else some ⟨usage.inputTokens, usage.outputTokens, none, usage.cachedInputTokens⟩

def entryText : JsValue → Option JsString
  | .string text => if text = [] then none else some text
  | .object members => (strField members "text").filter fun text => text ≠ []
  | _ => none

def fromArray : Option JsValue → Option JsString
  | some (.string text) => if text = [] then none else some text
  | some (.array items) =>
    let parts := items.filterMap entryText
    if parts = [] then none else some ([10].intercalate parts)
  | _ => none

def extractReasoning (payload : List (JsString × JsValue)) : Option JsString :=
  (fromArray (field payload "summary")).orElse fun _ => fromArray (field payload "content")

def lowerUnit (unit : Nat) : Nat := if 65 ≤ unit && unit ≤ 90 then unit + 32 else unit

/-- The digits of the first match of `/exited with code (\d+)/i`. -/
def exitCode (text : JsString) : Option JsString :=
  text.tails.findSome? fun rest =>
    let start := utf16 "exited with code "
    let digits := (rest.drop start.length).takeWhile fun unit => 48 ≤ unit && unit ≤ 57
    if start.isPrefixOf (rest.map lowerUnit) && digits ≠ [] then some digits else none

def detectExecError : JsValue → Option Bool
  | .string text => (exitCode text).map fun digits => digits.any fun unit => unit ≠ 48
  | _ => none

section Parsing

variable (host : RolloutHost)

def parseArguments : Option JsValue → JsValue
  | some (.string text) => (host.parseJson text).getD (.string text)
  | some value => value
  | none => .null

def parseIsoMs (value : Option JsValue) : Option Int := (value.bind stringOf).bind host.parseDate

def secondsField (payload : List (JsString × JsValue)) (key : String) : Option Int := (numField payload key).map host.secondsToMs

/-! ## Turns -/

def flushTurn (registered : RegisteredValues) (accum : TurnAccum) : List RolloutEvent :=
  if accum.assistantTexts = [] ∧ accum.reasoningBlocks = [] ∧ accum.usage.isNone then []
  else
    let endedAt := accum.endedAtMs.getD accum.lastTsMs
    [.llmExchange
      { ts := accum.startedAtMs
        duration := accum.durationMs.getD (max 0 (endedAt - accum.startedAtMs) : Int)
        startedAt := accum.startedAtMs
        endedAt := endedAt
        model := accum.model.getD (utf16 "codex")
        stopReason := accum.endedAtMs.map fun _ => utf16 "end_turn"
        content := accum.reasoningBlocks.map (fun text => .thinking (redactSecrets registered text [])) ++
          accum.assistantTexts.map fun text => .text (redactSecrets registered text [])
        usage := mapUsage accum.usage }]

def openTurn (registered : RegisteredValues) (turnId : Option JsString) (startedAtMs : Int) (parser : RolloutParser) :
    RolloutParser × List RolloutEvent :=
  let opened : TurnAccum := ⟨turnId, startedAtMs, startedAtMs, none, none, none, [], [], none⟩
  ({ parser with current := some opened }, parser.current.elim [] (flushTurn registered))

/-! ## Lines -/

def handleEventMsg (registered : RegisteredValues) (payload : List (JsString × JsValue)) (tsMs : Int) (parser : RolloutParser) :
    RolloutParser × List RolloutEvent :=
  let type := strField payload "type"
  if type = some (utf16 "task_started") then
    openTurn registered (strField payload "turn_id") ((secondsField host payload "started_at").getD tsMs) parser
  else if type = some (utf16 "task_complete") then
    match parser.current with
    | none => (parser, [])
    | some accum =>
      ({ parser with current := none },
        flushTurn registered
          { accum with
            endedAtMs := some ((secondsField host payload "completed_at").getD accum.lastTsMs)
            durationMs := numField payload "duration_ms" })
  else if type = some (utf16 "user_message") then
    match strField payload "message" with
    | none => (parser, [])
    | some text => (parser, if text = [] then [] else [.userPrompt tsMs (redactSecrets registered text [])])
  else if type = some (utf16 "agent_message") then
    match strField payload "message", parser.current with
    | some text, some accum =>
      (if text = [] then parser
        else { parser with current := some { accum with assistantTexts := accum.assistantTexts ++ [text] } }, [])
    | _, _ => (parser, [])
  else if type = some (utf16 "token_count") then
    match parser.current, readTokenUsage (field payload "info") with
    | some accum, some usage => ({ parser with current := some { accum with usage := some usage } }, [])
    | _, _ => (parser, [])
  else (parser, [])

def handleResponseItem (registered : RegisteredValues) (payload : List (JsString × JsValue)) (tsMs : Int) (parser : RolloutParser) :
    RolloutParser × List RolloutEvent :=
  let type := strField payload "type"
  if type = some (utf16 "function_call") then
    match strField payload "call_id" with
    | none => (parser, [])
    | some callId =>
      let call : ToolCall := ⟨(strField payload "name").getD (utf16 "tool"), parseArguments host (field payload "arguments")⟩
      ({ parser with pendingToolCalls := Function.update parser.pendingToolCalls callId (some call) }, [])
  else if type = some (utf16 "function_call_output") then
    match strField payload "call_id" with
    | none => (parser, [])
    | some callId =>
      let call := parser.pendingToolCalls callId
      let output := (field payload "output").getD .null
      ({ parser with pendingToolCalls := Function.update parser.pendingToolCalls callId none },
        [.toolAction
          { ts := tsMs
            toolName := (call.map ToolCall.name).getD (utf16 "tool")
            input := (call.map fun call => redactJson registered call.input).getD .null
            result := redactJson registered output
            isError := detectExecError output
            toolUseId := callId }])
  else if type = some (utf16 "reasoning") then
    match extractReasoning payload, parser.current with
    | some text, some accum =>
      ({ parser with current := some { accum with reasoningBlocks := accum.reasoningBlocks ++ [text] } }, [])
    | _, _ => (parser, [])
  else (parser, [])

/-- The kind of a line, its payload and its time. A line that is not JSON, or has no payload, is passed over. -/
def recordOf (moment : RolloutMoment) : Option (Option JsString × List (JsString × JsValue) × Int) := do
  let record ← (host.parseJson moment.line).bind objectOf
  let payload ← asObj (field record "payload")
  return (strField record "type", payload, (parseIsoMs host (field record "timestamp")).getD moment.now)

def touch (tsMs : Int) (parser : RolloutParser) : RolloutParser :=
  { parser with current := parser.current.map fun accum => { accum with lastTsMs := tsMs } }

def handleLine : Machine RolloutParser RolloutMoment (List RolloutEvent) := fun parser moment =>
  match recordOf host moment with
  | none => (parser, [])
  | some (type, payload, tsMs) =>
    if type = some (utf16 "turn_context") then
      ({ parser with
        current := parser.current.map fun accum =>
          { accum with model := (strField payload "model").orElse fun _ => accum.model } }, [])
    else if type = some (utf16 "event_msg") then handleEventMsg host moment.registered payload tsMs (touch tsMs parser)
    else if type = some (utf16 "response_item") then handleResponseItem host moment.registered payload tsMs (touch tsMs parser)
    else (touch tsMs parser, [])

def flush (registered : RegisteredValues) (parser : RolloutParser) : RolloutParser × List RolloutEvent :=
  match parser.current with
  | none => (parser, [])
  | some accum => ({ parser with current := none }, flushTurn registered accum)

def emitted (moments : List RolloutMoment) (registered : RegisteredValues) : List RolloutEvent :=
  (run (handleLine host) create moments).flatMap Step.output ++ (flush registered (final (handleLine host) create moments)).2

end Parsing

end RolloutParser

end CommandSuite
