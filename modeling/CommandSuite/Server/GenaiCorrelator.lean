import CommandSuite.Core.Message
import CommandSuite.Library.Text
import Mathlib.Data.List.Sort
import Mathlib.Data.Rat.Floor

/-! # The GenAI correlator

`apps/server/src/genai-correlator.ts`: the queue of request bodies that no `api_request` has claimed yet, and the
exchanges that are keyed by a request id. The files, the raw store, `JSON.parse` and the mapper of
`trace/genai.ts` are what the options say they are. Diagnostics and log lines are left out.
-/

namespace CommandSuite

open Library Function

inductive TelemetrySignal where
  | log | metric
  deriving DecidableEq

structure TelemetryRecord where
  signal : TelemetrySignal
  name : String
  tsUnixNano : Rat
  attributes : JsonObject

inductive GenAiEvent where
  | apiRequestBody | apiRequest | apiResponseBody | apiError
  deriving DecidableEq

namespace GenAiEvent

def text : GenAiEvent → String
  | .apiRequestBody => "api_request_body"
  | .apiRequest => "api_request"
  | .apiResponseBody => "api_response_body"
  | .apiError => "api_error"

def ofText (text : String) : Option GenAiEvent :=
  [GenAiEvent.apiRequestBody, .apiRequest, .apiResponseBody, .apiError].find? fun event => event.text = text

end GenAiEvent

inductive BodyKind where
  | request | response

structure CapturedBody where
  text : Option String
  bodyRef : Option String
  hash : Option String

structure UnclaimedRequest extends CapturedBody where
  startedAt : Int
  model : Option String

structure PendingExchange where
  requestText : Option String
  requestBodyRef : Option String
  requestHash : Option String
  responseText : Option String
  responseHash : Option String
  startedAt : Int
  endedAt : Int
  model : Option String
  hasRequest : Bool
  hasResponse : Bool
  querySource : Option String
  agentName : Option String

structure Normalized where
  event : GenAiEvent
  attrs : JsonObject
  ts : Int
  /-- `none` sorts behind every number. -/
  seq : Option Rat

structure GenAiInferenceInput (I : Type) where
  inference : I
  ts : Int
  requestBodyRef : Option String
  requestSha256 : Option String
  responseSha256 : Option String

/-- Bytes, parsed bodies and inferences are of any type. `none` is an exception, or no raw store. -/
structure GenAiCorrelatorOptions (B J I : Type) where
  readBodyRef : String → Option B
  encode : String → B
  decode : B → String
  appendBody : BodyKind → JsonObject → Int → B → Option String
  parse : String → Option J
  anthropicToGenAi : J → J → Option String → Option String → Int → Option I
  /-- `Number(text)`, where it is finite. -/
  number : String → Option Rat
  ttlMs : Int
  maxPending : Nat

structure GenAiCorrelator where
  fifo : List UnclaimedRequest
  pending : String → Option PendingExchange
  newestTs : Int
  synthSeq : Nat

namespace GenAiCorrelator

def empty : GenAiCorrelator := ⟨[], fun _ => none, 0, 0⟩

def shortName (name : String) : String := (Text.afterPrefix name "claude_code.").getD name

def asStr (attrs : JsonObject) (property : String) : Option String := (attrs.get property).bind Json.asString

def claimRequest (model : Option String) (fifo : List UnclaimedRequest) : Option UnclaimedRequest × List UnclaimedRequest :=
  match model with
  | none => (fifo.head?, fifo.tail)
  | some model =>
    let isOfModel : UnclaimedRequest → Bool := fun request => request.model = some model
    match fifo.find? isOfModel with
    | some request => (some request, fifo.eraseP isOfModel)
    | none => (fifo.head?, fifo.tail)

def freshExchange : PendingExchange where
  requestText := none
  requestBodyRef := none
  requestHash := none
  responseText := none
  responseHash := none
  startedAt := 0
  endedAt := 0
  model := none
  hasRequest := false
  hasResponse := false
  querySource := none
  agentName := none

def getPending (correlator : GenAiCorrelator) (key : String) : PendingExchange := (correlator.pending key).getD freshExchange

variable {B J I : Type} (opts : GenAiCorrelatorOptions B J I)

def captureBody (kind : BodyKind) (attrs : JsonObject) (ts : Int) : CapturedBody :=
  let bodyRef := asStr attrs "body_ref"
  let bytes : Option B :=
    match bodyRef.filter fun ref => ref ≠ "" with
    | some ref => opts.readBodyRef ref
    | none => ((asStr attrs "body").filter fun inline => inline ≠ "").map opts.encode
  match bytes with
  | none => ⟨none, bodyRef, none⟩
  | some bytes => ⟨some (opts.decode bytes), bodyRef, opts.appendBody kind attrs ts bytes⟩

def buildInference (p : PendingExchange) (ts : Int) : Option (GenAiInferenceInput I) := do
  let requestBody ← p.requestText.bind opts.parse
  let responseBody ← p.responseText.bind opts.parse
  let inference ← opts.anthropicToGenAi requestBody responseBody p.querySource p.agentName ts
  return ⟨inference, ts, p.requestBodyRef, p.requestHash, p.responseHash⟩

/-- `p.startedAt || p.endedAt || now()`. -/
def inferenceTs (p : PendingExchange) (now : Int) : Int :=
  if p.startedAt ≠ 0 then p.startedAt else if p.endedAt ≠ 0 then p.endedAt else now

def tryEmit (now : Int) (key : String) (p : PendingExchange) (correlator : GenAiCorrelator) :
    GenAiCorrelator × Option (GenAiInferenceInput I) :=
  if p.hasRequest && p.hasResponse then
    ({ correlator with pending := update correlator.pending key none }, buildInference opts p (inferenceTs p now))
  else ({ correlator with pending := update correlator.pending key (some p) }, none)

def ingestRequestBody (attrs : JsonObject) (ts : Int) (correlator : GenAiCorrelator) : GenAiCorrelator :=
  let request : UnclaimedRequest := ⟨captureBody opts .request attrs ts, ts, asStr attrs "model"⟩
  let fifo := correlator.fifo ++ [request]
  { correlator with fifo := fifo.drop (fifo.length - opts.maxPending) }

/-- What an `api_request` adds to the exchange of its id. -/
def account (attrs : JsonObject) (ts : Int) (claimed : Option UnclaimedRequest) (p : PendingExchange) : PendingExchange :=
  let p :=
    match claimed with
    | some claimed =>
      { p with
        requestText := claimed.text
        requestBodyRef := claimed.bodyRef
        requestHash := claimed.hash
        startedAt := claimed.startedAt
        hasRequest := true
        model := (p.model.or claimed.model).or (asStr attrs "model") }
    | none => { p with model := p.model.or (asStr attrs "model") }
  { p with
    querySource := p.querySource.or (asStr attrs "query_source")
    agentName := p.agentName.or (asStr attrs "agent.name")
    endedAt := ts }

def ingestRequest (now : Int) (attrs : JsonObject) (ts : Int) (correlator : GenAiCorrelator) :
    GenAiCorrelator × Option (GenAiInferenceInput I) :=
  let requestId := (asStr attrs "request_id").getD s!"__acct_{ts}_{correlator.synthSeq}"
  let synthSeq := if (asStr attrs "request_id").isSome then correlator.synthSeq else correlator.synthSeq + 1
  let (claimed, fifo) := claimRequest (asStr attrs "model") correlator.fifo
  let correlator := { correlator with fifo := fifo, synthSeq := synthSeq }
  tryEmit opts now requestId (account attrs ts claimed (correlator.getPending requestId)) correlator

/-- What an `api_response_body` adds to the exchange of its id. -/
def respond (attrs : JsonObject) (ts : Int) (p : PendingExchange) : PendingExchange :=
  let body := captureBody opts .response attrs ts
  { p with responseText := body.text, responseHash := body.hash, hasResponse := true, endedAt := ts }

def ingestResponseBody (now : Int) (attrs : JsonObject) (ts : Int) (correlator : GenAiCorrelator) :
    GenAiCorrelator × Option (GenAiInferenceInput I) :=
  let requestId := (asStr attrs "request_id").getD s!"__resp_{ts}_{correlator.synthSeq}"
  let synthSeq := if (asStr attrs "request_id").isSome then correlator.synthSeq else correlator.synthSeq + 1
  let correlator := { correlator with synthSeq := synthSeq }
  tryEmit opts now requestId (respond opts attrs ts (correlator.getPending requestId)) correlator

def ingestError (attrs : JsonObject) (correlator : GenAiCorrelator) : GenAiCorrelator :=
  let correlator := { correlator with fifo := (claimRequest (asStr attrs "model") correlator.fifo).2 }
  match (asStr attrs "request_id").filter fun requestId => requestId ≠ "" with
  | some requestId => { correlator with pending := update correlator.pending requestId none }
  | none => correlator

def ingestRecord (now : Int) (record : Normalized) (correlator : GenAiCorrelator) :
    GenAiCorrelator × Option (GenAiInferenceInput I) :=
  let correlator := { correlator with newestTs := max correlator.newestTs record.ts }
  match record.event with
  | .apiRequestBody => (ingestRequestBody opts record.attrs record.ts correlator, none)
  | .apiRequest => ingestRequest opts now record.attrs record.ts correlator
  | .apiResponseBody => ingestResponseBody opts now record.attrs record.ts correlator
  | .apiError => (ingestError record.attrs correlator, none)

def ingestRecords (now : Int) : List Normalized → GenAiCorrelator → GenAiCorrelator × List (GenAiInferenceInput I)
  | [], correlator => (correlator, [])
  | record :: records, correlator =>
    let (correlator, emitted) := ingestRecord opts now record correlator
    let (correlator, out) := ingestRecords now records correlator
    (correlator, emitted.toList ++ out)

def evictStale (nowMs : Int) (correlator : GenAiCorrelator) : GenAiCorrelator :=
  let cutoff := nowMs - opts.ttlMs
  let fifo := correlator.fifo.dropWhile fun request => request.startedAt < cutoff
  { correlator with
    fifo := fifo.drop (fifo.length - opts.maxPending)
    pending := fun key => (correlator.pending key).filter fun p => !decide (max p.startedAt p.endedAt < cutoff) }

def recordTsMs (tsUnixNano : Rat) (now : Int) : Int :=
  if 0 < tsUnixNano then ⌊tsUnixNano / 1000000 + 1 / 2⌋ else now

def recordSeq (attrs : JsonObject) : Option Rat :=
  match attrs.get "event.sequence" with
  | some (.number n) => some n
  | some (.string text) => opts.number text
  | _ => none

def normalize (now : Int) (record : TelemetryRecord) : Option Normalized :=
  if record.signal = .log then
    (GenAiEvent.ofText (shortName record.name)).map fun event =>
      ⟨event, record.attributes, recordTsMs record.tsUnixNano now, recordSeq opts record.attributes⟩
  else none

/-- By `event.sequence`, then by time. -/
def sortsBefore (a b : Normalized) : Bool :=
  match a.seq, b.seq with
  | some s, some t => s < t || s = t && a.ts ≤ b.ts
  | some _, none => true
  | none, some _ => false
  | none, none => a.ts ≤ b.ts

def takenUp (now : Int) (records : List TelemetryRecord) : List Normalized :=
  (records.filterMap (normalize opts now)).insertionSort fun a b => sortsBefore a b = true

def ingest (now : Int) (records : List TelemetryRecord) (correlator : GenAiCorrelator) :
    GenAiCorrelator × List (GenAiInferenceInput I) :=
  let (correlator, out) := ingestRecords opts now (takenUp opts now records) correlator
  (evictStale opts correlator.newestTs correlator, out.insertionSort fun a b => a.ts ≤ b.ts)

def sweep (nowMs : Option Int) (correlator : GenAiCorrelator) : GenAiCorrelator :=
  evictStale opts (nowMs.getD correlator.newestTs) correlator

def ingestAll : List (Int × List TelemetryRecord) → GenAiCorrelator → GenAiCorrelator × List (GenAiInferenceInput I)
  | [], correlator => (correlator, [])
  | (now, records) :: batches, correlator =>
    let (correlator, out) := ingest opts now records correlator
    let (correlator, rest) := ingestAll batches correlator
    (correlator, out ++ rest)

end GenAiCorrelator

end CommandSuite
