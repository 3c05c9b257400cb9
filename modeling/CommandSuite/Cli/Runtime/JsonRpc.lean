import CommandSuite.Core.Message
import CommandSuite.Library.Transcript
import CommandSuite.Library.Utf8

/-! # The JSON-RPC client

`packages/cli/src/runtime/agents/codex/json-rpc.ts`: the client of the codex app-server, which writes one JSON object a line.
`JSON.parse`, and `Number` of what is no number, are parameters.
-/

namespace CommandSuite

open Library JsonObject

namespace JsonRpc

/-! ## Lines -/

/-- The line so far, and whether the unit before it was a carriage return. -/
structure LineReader where
  line : JsString
  afterReturn : Bool
  deriving DecidableEq

namespace LineReader

def initial : LineReader := ⟨[], false⟩

/-- `readline` with `crlfDelay: Infinity`. -/
def step : Transducer LineReader Nat JsString := fun reader unit =>
  if unit = 10 then if reader.afterReturn then ({ reader with afterReturn := false }, []) else (initial, [reader.line])
  else if unit = 13 then (⟨[], true⟩, [reader.line])
  else if unit = 0x2028 || unit = 0x2029 then (initial, [reader.line])
  else (⟨reader.line ++ [unit], false⟩, [])

end LineReader

def units : Transducer Unit Nat Nat := fun _ point =>
  ((), if point < 0x10000 then [point] else [0xD800 + (point - 0x10000) / 0x400, 0xDC00 + (point - 0x10000) % 0x400])

def reader : Transducer (Utf8.Decoder × Unit × LineReader) Nat JsString :=
  Transducer.pipe Utf8.Decoder.step (Transducer.pipe units LineReader.step)

/-! ## Messages -/

inductive Incoming where
  | request (id : Json) (method : String) (params : Option Json)
  | notification (method : String) (params : Option Json)
  | response (id : Json) (error result : Option Json)

def route : Json → Option Incoming
  | .object members =>
    let id := match get members "id" with
      | some .null => none
      | id => id
    match get members "method" with
    | some (.string method) =>
      match id with
      | some id => some (.request id method (get members "params"))
      | none => some (.notification method (get members "params"))
    | _ => id.map fun id => .response id (get members "error") (get members "result")
  | _ => none

/-- What `JSON.stringify` makes of a member: a text, nothing at all, or an exception. -/
inductive Member where
  | written (value : Json)
  | omitted
  | refused

/-- What a handler throws. The text of what is no error may not exist. -/
inductive Thrown where
  | rpc (code : Int) (message : String)
  | error (message : String)
  | other (text : Option String)

inductive Outcome where
  | returns (result : Member)
  | throws (error : Thrown)

inductive ReplyBody where
  | result (value : Json)
  | neither
  | error (code : Int) (message : String)

/-- A reply names the place of its request among the requests of the server. -/
inductive Outgoing where
  | request (id : Nat) (method : String) (params : Member)
  | notification (method : String) (params : Member)
  | reply (key : Nat) (id : Json) (body : ReplyBody)

inductive Settlement where
  | resolved (result : Option Json)
  | rejected (error : Json)
  | closed (reason : String)

inductive Entry where
  | made (id : Nat)
  | received (message : Incoming)
  | closed (reason : String)

/-- `settles` ends a handler, `line` hands the next line on. -/
inductive RpcEvent where
  | chunk (bytes : List Nat)
  | stdoutEnd
  | streamError (reason : String)
  | line
  | request (method : String) (params : Member)
  | notify (method : String) (params : Member)
  | onRequest (method : String) (handler : Nat)
  | offRequest (method : String) (handler : Nat)
  | settles (key : Nat) (outcome : Outcome)
  | close (reason : String)

/-- `running` are the handlers of requests that have not settled. -/
structure Client where
  input : Utf8.Decoder × Unit × LineReader
  lines : List JsString
  nextId : Nat
  pending : List Nat
  settled : List (Nat × Settlement)
  requestHandlers : String → Option Nat
  running : List (Nat × Json)
  written : List Outgoing
  log : List Entry
  /-- Standard output has ended, and is closed once its lines are handed on. -/
  ended : Bool
  closedReason : Option String

namespace Client

def create : Client where
  input := (.initial, (), .initial)
  lines := []
  nextId := 1
  pending := []
  settled := []
  requestHandlers := fun _ => none
  running := []
  written := []
  log := []
  ended := false
  closedReason := none

def serverRequests (client : Client) : List Json := client.log.filterMap fun entry =>
  match entry with
  | .received (.request id _ _) => some id
  | _ => none

def writeMessage (message : Outgoing) (client : Client) : Client :=
  match client.closedReason with
  | some _ => client
  | none =>
    match message with
    | .request _ _ .refused | .notification _ .refused => client
    | message => { client with written := client.written ++ [message] }

section

variable (parse : JsString → Option Json) (number : Json → Option Rat)

def idNumber : Json → Option Rat
  | .number id => some id
  | id => number id

/-- `if (msg.error)`. -/
def truthy : Json → Bool
  | .null => false
  | .bool value => value
  | .number value => value ≠ 0
  | .string value => value ≠ ""
  | .array _ | .object _ => true

def settlementOf (error result : Option Json) : Settlement :=
  match error with
  | some error => if truthy error then .rejected error else .resolved result
  | none => .resolved result

def handleResponse (id : Json) (error result : Option Json) (client : Client) : Client :=
  match client.pending.find? fun n : Nat => idNumber number id = some (n : Rat) with
  | none => client
  | some n => { client with pending := client.pending.erase n, settled := client.settled ++ [(n, settlementOf error result)] }

def handleServerRequest (key : Nat) (id : Json) (method : String) (client : Client) : Client :=
  match client.requestHandlers method with
  | none => writeMessage (.reply key id (.error (-32601) ("method not found: " ++ method))) client
  | some _ => { client with running := client.running ++ [(key, id)] }

def dispatch (message : Incoming) (client : Client) : Client :=
  let key := client.serverRequests.length
  let client := { client with log := client.log ++ [.received message] }
  match message with
  | .request id method _ => handleServerRequest key id method client
  | .notification _ _ => client
  | .response id error result => handleResponse number id error result client

def onLine (line : JsString) (client : Client) : Client :=
  if line = [] then client
  else
    match (parse line).bind route with
    | none => client
    | some message => dispatch number message client

def cleanup (reason : String) (client : Client) : Client :=
  match client.closedReason with
  | some _ => client
  | none =>
    { client with
      closedReason := some reason
      pending := []
      settled := client.settled ++ client.pending.map fun id => (id, .closed reason)
      log := client.log ++ [.closed reason] }

def onData (bytes : List Nat) (client : Client) : Client :=
  match client.closedReason, client.ended with
  | none, false =>
    { client with
      input := (Transducer.feed reader client.input bytes).1
      lines := client.lines ++ (Transducer.feed reader client.input bytes).2 }
  | _, _ => client

def onEnd (client : Client) : Client :=
  match client.closedReason, client.ended with
  | none, false =>
    { client with
      ended := true
      lines := client.lines ++ if client.input.2.2.line = [] then [] else [client.input.2.2.line] }
  | _, _ => client

def request (method : String) (params : Member) (client : Client) : Client :=
  match client.closedReason with
  | some _ => client
  | none =>
    writeMessage (.request client.nextId method params)
      { client with nextId := client.nextId + 1, pending := client.pending ++ [client.nextId], log := client.log ++ [.made client.nextId] }

def replyTo (key : Nat) (id : Json) (outcome : Outcome) (client : Client) : Client :=
  match outcome with
  | .returns (.written value) => writeMessage (.reply key id (.result value)) client
  | .returns .omitted => writeMessage (.reply key id .neither) client
  | .returns .refused => client
  | .throws (.rpc code message) => writeMessage (.reply key id (.error code message)) client
  | .throws (.error message) | .throws (.other (some message)) => writeMessage (.reply key id (.error (-32603) message)) client
  | .throws (.other none) => client

def settles (key : Nat) (outcome : Outcome) (client : Client) : Client :=
  match client.running.find? fun handler => handler.1 = key with
  | none => client
  | some handler =>
    replyTo handler.1 handler.2 outcome { client with running := client.running.filter fun other => other.1 ≠ key }

def nextLine (client : Client) : Client :=
  match client.lines with
  | [] => if client.ended then cleanup "stdout-closed" client else client
  | line :: lines => onLine parse number line { client with lines := lines }

def next : Transcript.Machine Client RpcEvent Unit := fun client event =>
  (match event with
    | .chunk bytes => onData bytes client
    | .stdoutEnd => onEnd client
    | .streamError reason | .close reason => cleanup reason client
    | .line => nextLine parse number client
    | .request method params => request method params client
    | .notify method params => writeMessage (.notification method params) client
    | .onRequest method handler => { client with requestHandlers := Function.update client.requestHandlers method (some handler) }
    | .offRequest method handler =>
      if client.requestHandlers method = some handler then
        { client with requestHandlers := Function.update client.requestHandlers method none }
      else client
    | .settles key outcome => settles key outcome client, ())

abbrev run (events : List RpcEvent) : Client := Transcript.final (next parse number) create events

end

/-! ## What writing changes -/

theorem writeMessage_eq (message : Outgoing) (client : Client) :
    ∃ more, writeMessage message client = { client with written := client.written ++ more } := by
  unfold writeMessage
  split
  · exact ⟨[], by rw [List.append_nil]⟩
  · split
    · exact ⟨[], by rw [List.append_nil]⟩
    · exact ⟨[], by rw [List.append_nil]⟩
    · exact ⟨[_], rfl⟩

theorem replyTo_eq (key : Nat) (id : Json) (outcome : Outcome) (client : Client) :
    ∃ more, replyTo key id outcome client = { client with written := client.written ++ more } := by
  unfold replyTo
  split
  · exact writeMessage_eq _ client
  · exact writeMessage_eq _ client
  · exact ⟨[], by rw [List.append_nil]⟩
  · exact writeMessage_eq _ client
  · exact writeMessage_eq _ client
  · exact writeMessage_eq _ client
  · exact ⟨[], by rw [List.append_nil]⟩

theorem handleServerRequest_eq (key : Nat) (id : Json) (method : String) (client : Client) :
    ∃ running written, handleServerRequest key id method client = { client with running := running, written := written } := by
  unfold handleServerRequest
  split
  · obtain ⟨more, hWritten⟩ := writeMessage_eq (.reply key id (.error (-32601) ("method not found: " ++ method))) client
    exact ⟨client.running, client.written ++ more, hWritten⟩
  · exact ⟨_, client.written, rfl⟩

theorem dispatch_eq (number : Json → Option Rat) (message : Incoming) (client : Client) :
    ∃ pending settled running written, dispatch number message client =
      { client with log := client.log ++ [.received message], pending := pending, settled := settled, running := running, written := written } := by
  cases message with
  | request id method params =>
    obtain ⟨running, written, hRequest⟩ := handleServerRequest_eq client.serverRequests.length id method
      { client with log := client.log ++ [.received (.request id method params)] }
    exact ⟨client.pending, client.settled, running, written, hRequest⟩
  | notification method params => exact ⟨client.pending, client.settled, client.running, client.written, rfl⟩
  | response id error result =>
    dsimp only [dispatch, handleResponse]
    split
    · exact ⟨client.pending, client.settled, client.running, client.written, rfl⟩
    · exact ⟨_, _, client.running, client.written, rfl⟩

end Client

end JsonRpc

end CommandSuite
