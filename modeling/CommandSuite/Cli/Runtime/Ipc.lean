import CommandSuite.Cli.Runtime.JsonRpc

/-! # The bridge and the runner

`packages/cli/src/runtime/ipc.ts`, the relay of `bridge.ts` and the bridge connection of `runner.ts`. The agent's requests cross a
socket as frames, each a line of JSON, and so do their responses. `JSON.stringify` and `JSON.parse` are parameters.
-/

namespace CommandSuite.Ipc

open Library JsonObject

def MAX_FRAME_BYTES : Nat := 1 * 1024 * 1024

inductive FrameKind where
  | mcpRequest
  | mcpResponse
  | mcpNotification
  | shutdown
  | error
  deriving DecidableEq

namespace FrameKind

def text : FrameKind → String
  | .mcpRequest => "mcp_request"
  | .mcpResponse => "mcp_response"
  | .mcpNotification => "mcp_notification"
  | .shutdown => "shutdown"
  | .error => "error"

def ofText (text : String) : Option FrameKind :=
  [FrameKind.mcpRequest, .mcpResponse, .mcpNotification, .shutdown, .error].find? fun kind => kind.text = text

@[simp] theorem ofText_text (kind : FrameKind) : ofText kind.text = some kind := by
  cases kind <;> rfl

end FrameKind

/-! ## What is sent -/

inductive McpRequest where
  | toolsList
  | toolsCall (params : Json)

namespace McpRequest

def method : McpRequest → String
  | .toolsList => "tools/list"
  | .toolsCall _ => "tools/call"

def params : McpRequest → Option Json
  | .toolsList => none
  | .toolsCall params => some params

end McpRequest

def requestFrame (id : Nat) (request : McpRequest) : Json :=
  .object ([("kind", .string FrameKind.mcpRequest.text), ("id", .number id), ("method", .string request.method)] ++
    (request.params.map fun params => ("params", params)).toList)

inductive ResponseBody where
  | result (value : Json)
  | error (code : Int) (message : String)

def ResponseBody.member : ResponseBody → String × Json
  | .result value => ("result", value)
  | .error code message => ("error", .object [("code", .number code), ("message", .string message)])

def responseFrame (id : Option Json) (body : ResponseBody) : Json :=
  .object (("kind", .string FrameKind.mcpResponse.text) :: (id.map fun id => ("id", id)).toList ++ [body.member])

def listChangedFrame : Json :=
  .object [("kind", .string FrameKind.mcpNotification.text), ("method", .string "notifications/tools/list_changed"),
    ("params", .object [])]

inductive Outcome where
  | returns (result : Json)
  | throws (message : String)

structure IncomingRequest where
  id : Option Json
  method : Option String
  params : Option Json

def handleMcpRequest (request : IncomingRequest) (outcome : Outcome) : ResponseBody :=
  if request.method = some "tools/list" || request.method = some "tools/call" then
    match outcome with
    | .returns result => .result result
    | .throws message => .error (-32603) message
  else .error (-32601) ("method not found: " ++ request.method.getD "undefined")

inductive Answer where
  | result (value : Option Json)
  | error (message : Option Json)

/-! ## The two sides -/

abbrev Reading := Utf8.Decoder × Unit × JsonRpc.LineReader

def Reading.initial : Reading := (.initial, (), .initial)

/-- `requests` are those made so far, by their ids. -/
structure Bridge where
  nextRequestId : Nat
  pendingRequests : List Nat
  reading : Reading
  closed : Bool
  requests : List (Nat × McpRequest)
  answers : List (Nat × Answer)

/-- `running` are the requests whose handlers have not come to an outcome. -/
structure Runner where
  reading : Reading
  closed : Bool
  running : List IncomingRequest
  outcomes : List (IncomingRequest × Outcome)

structure World where
  bridge : Bridge
  runner : Runner
  toRunner : List Nat
  toBridge : List Nat

def World.start : World where
  bridge := ⟨1, [], .initial, false, [], []⟩
  runner := ⟨.initial, false, [], []⟩
  toRunner := []
  toBridge := []

section

variable (stringify : Json → String) (parse : JsString → Option Json)

def frameBytes (frame : Json) : List Nat := ((stringify frame ++ "\n").toList.map Char.toNat).flatMap Utf8.encode

def encodeFrame (frame : Json) : Except String (List Nat) :=
  let buf := frameBytes stringify frame
  if buf.length > MAX_FRAME_BYTES then
    .error ("ipc: encoded frame " ++ toString buf.length ++ "B exceeds " ++ toString MAX_FRAME_BYTES ++ "B limit")
  else .ok buf

def parseFrame (line : JsString) : Option (FrameKind × JsonObject) :=
  if line = [] then none
  else
    match parse line with
    | some (.object members) =>
      (((get members "kind").bind Json.asString).bind FrameKind.ofText).map fun kind => (kind, members)
    | _ => none

/-! ## The bridge -/

def forwardRequest (request : McpRequest) (world : World) : World :=
  let id := world.bridge.nextRequestId
  let bridge := { world.bridge with nextRequestId := id + 1, requests := world.bridge.requests ++ [(id, request)] }
  match encodeFrame stringify (requestFrame id request) with
  | .ok buf =>
    { world with bridge := { bridge with pendingRequests := bridge.pendingRequests ++ [id] }, toRunner := world.toRunner ++ buf }
  | .error message => { world with bridge := { bridge with answers := bridge.answers ++ [(id, .error (some (.string message)))] } }

def answerOf (response : JsonObject) : Answer :=
  match get response "error" with
  | some error =>
    if JsonRpc.Client.truthy error then
      .error (match error with
        | .object members => get members "message"
        | _ => none)
    else .result (get response "result")
  | none => .result (get response "result")

def pendingOf (members : JsonObject) (bridge : Bridge) : Option Nat :=
  match get members "id" with
  | some (.number id) => bridge.pendingRequests.find? fun pending : Nat => (pending : Rat) = id
  | _ => none

def answer (id : Nat) (answer : Answer) (bridge : Bridge) : Bridge :=
  { bridge with pendingRequests := bridge.pendingRequests.erase id, answers := bridge.answers ++ [(id, answer)] }

def onBridgeLine (bridge : Bridge) (line : JsString) : Bridge :=
  match parseFrame parse line with
  | some (.mcpResponse, members) =>
    match pendingOf members bridge with
    | some id => answer id (answerOf members) bridge
    | none => bridge
  | some (.error, members) =>
    match pendingOf members bridge with
    | some id => answer id (.error (get members "message")) bridge
    | none => bridge
  | some (.shutdown, _) => { bridge with closed := true }
  | some (.mcpNotification, _) | some (.mcpRequest, _) | none => bridge

def bridgeReads (count : Nat) (world : World) : World :=
  if world.bridge.closed then world
  else
    let fed := Transducer.feed JsonRpc.reader world.bridge.reading (world.toBridge.take count)
    { world with
      bridge := fed.2.foldl (onBridgeLine parse) { world.bridge with reading := fed.1 }
      toBridge := world.toBridge.drop count }

/-! ## The runner -/

def onRunnerLine (runner : Runner) (line : JsString) : Runner :=
  match parseFrame parse line with
  | some (.mcpRequest, members) =>
    { runner with
      running := runner.running ++ [⟨get members "id", (get members "method").bind Json.asString, get members "params"⟩] }
  | some (.shutdown, _) => { runner with closed := true }
  | some (.error, _) | some (.mcpResponse, _) | some (.mcpNotification, _) | none => runner

def runnerReads (count : Nat) (world : World) : World :=
  if world.runner.closed then world
  else
    let fed := Transducer.feed JsonRpc.reader world.runner.reading (world.toRunner.take count)
    { world with
      runner := fed.2.foldl (onRunnerLine parse) { world.runner with reading := fed.1 }
      toRunner := world.toRunner.drop count }

def send (frame : Json) (world : World) : World :=
  if world.runner.closed then world
  else
    match encodeFrame stringify frame with
    | .ok buf => { world with toBridge := world.toBridge ++ buf }
    | .error _ => { world with runner := { world.runner with closed := true } }

def settles (index : Nat) (outcome : Outcome) (world : World) : World :=
  match world.runner.running[index]? with
  | none => world
  | some request =>
    send stringify (responseFrame request.id (handleMcpRequest request outcome))
      { world with
        runner := { world.runner with
          running := world.runner.running.eraseIdx index
          outcomes := world.runner.outcomes ++ [(request, outcome)] } }

/-! ## Runs -/

inductive Input where
  | forwardRequest (request : McpRequest)
  | runnerReads (count : Nat)
  | settles (index : Nat) (outcome : Outcome)
  | listChanged
  | bridgeReads (count : Nat)

def next : Transcript.Machine World Input Unit := fun world input =>
  (match input with
    | .forwardRequest request => forwardRequest stringify request world
    | .runnerReads count => runnerReads parse count world
    | .settles index outcome => settles stringify index outcome world
    | .listChanged => send stringify listChangedFrame world
    | .bridgeReads count => bridgeReads parse count world, ())

end

end CommandSuite.Ipc
