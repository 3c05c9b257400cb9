import CommandSuite.Core.Message
import CommandSuite.Library.Lines
import CommandSuite.Library.Transcript
import CommandSuite.Library.Utf8

/-! # The transcript reader

`packages/cli/src/runtime/trace/transcript-reader.ts` and `parseTranscriptLine` of `packages/core/src/trace/transcript.ts`. Files
grow, the path is a live value, and a drain waits for the file to be opened, measured, read and closed. `JSON.parse`, `Date.parse`
and the parser of a message are what they are given as. Watchers are the drains they ask for.
-/

namespace CommandSuite

open Library JsonObject

inductive ContentBlock (C : Type) where
  | text (text : String)
  | toolUse (id name : String) (input : C)
  | toolResult (toolUseId : String) (content : C) (isError : Bool)
  | other (raw : C)

structure ParsedAnthropicMessage (C : Type) where
  role : String
  content : List (ContentBlock C)
  model : Option String
  usage : Option C
  stopReason : Option String
  id : Option String

structure TranscriptEntry (C : Type) where
  uuid : String
  ts : Int
  type : String
  isSidechain : Bool
  isMeta : Bool
  promptId : Option String
  attributionMcpServer : Option String
  attributionMcpTool : Option String
  message : Option (ParsedAnthropicMessage C)

inductive TranscriptEvent (C : Type) where
  | llmExchange (ts duration startedAt : Int) (sourceId : String) (response : ParsedAnthropicMessage C)
  | toolAction (ts : Int) (sourceId toolName toolUseId : String) (result : C) (isError : Bool)
  | userPrompt (ts : Int) (text : String) (promptId : Option String) (sourceId : String)

/-- What is not modelled. `none` is an exception, or a date that is not a number. -/
structure TranscriptParsers (C : Type) where
  parseJson : String → Option Json
  parseDate : String → Option Int
  parseAnthropicMessage : Json → ParsedAnthropicMessage C

section Entries

variable {C : Type} (parsers : TranscriptParsers C)

def parseTs : Option Json → Int
  | some (.string text) => (parsers.parseDate text).getD 0
  | _ => 0

def presentStr (object : JsonObject) (property : String) : Option String :=
  ((object.get property).bind Json.asString).filter fun text => text ≠ ""

def isTrue : Option Json → Bool
  | some (.bool value) => value
  | _ => false

def anthropicMessageOf : Option Json → Option (ParsedAnthropicMessage C)
  | some (.object members) => some (parsers.parseAnthropicMessage (.object members))
  | some (.array items) => some (parsers.parseAnthropicMessage (.array items))
  | _ => none

def parseTranscriptLine : Json → Option (TranscriptEntry C)
  | .object o => do
    let type ← presentStr o "type"
    let uuid ← presentStr o "uuid"
    return {
      uuid := uuid
      ts := parseTs parsers (get o "timestamp")
      type := type
      isSidechain := isTrue (get o "isSidechain")
      isMeta := isTrue (get o "isMeta")
      promptId := presentStr o "promptId"
      attributionMcpServer := presentStr o "attributionMcpServer"
      attributionMcpTool := presentStr o "attributionMcpTool"
      message := anthropicMessageOf parsers (get o "message") }
  | _ => none

end Entries

def NEWLINE : Nat := 0x0A

inductive DrainStage where
  | opening
  | stating
  | reading (len : Nat)
  | closing

/-- The drain under way, with the path and the offset it has taken at its entry. -/
structure DrainFlight where
  drainPath : String
  start : Nat
  stage : DrainStage

structure ReadLine where
  path : String
  index : Nat
  text : String

/-- `flight` is `draining`. `read` is every line that was come to, `emitted` what was enqueued for each line that passed the dedup set. -/
structure TranscriptReader (C : Type) where
  path : Option String
  offset : Nat
  seen : List String
  toolNames : String → Option String
  prevLineTs : Int
  drainQueued : Bool
  closed : Bool
  flight : Option DrainFlight
  read : List ReadLine
  emitted : List (String × List (TranscriptEvent C))

namespace TranscriptReader

variable {C : Type} (parsers : TranscriptParsers C)

def initial : TranscriptReader C := ⟨none, 0, [], fun _ => none, 0, false, false, none, [], []⟩

def harvest (content : List (ContentBlock C)) (toolNames : String → Option String) : String → Option String :=
  content.foldl (fun toolNames block =>
    match block with
    | .toolUse id name _ => Function.update toolNames id (some name)
    | _ => toolNames) toolNames

def toolActions (toolNames : String → Option String) (entry : TranscriptEntry C) (content : List (ContentBlock C)) :
    List (TranscriptEvent C) :=
  content.filterMap fun block =>
    match block with
    | .toolResult toolUseId content isError =>
      let toolName := (((toolNames toolUseId).or entry.attributionMcpTool).or entry.attributionMcpServer).getD "tool"
      some (.toolAction entry.ts (entry.uuid ++ ":" ++ toolUseId) toolName toolUseId content isError)
    | _ => none

def promptText (content : List (ContentBlock C)) : String :=
  Text.join '\n' (content.filterMap fun block =>
    match block with
    | .text text => some text
    | _ => none)

def eventsOf (triggerTs : Int) (toolNames : String → Option String) (entry : TranscriptEntry C) : List (TranscriptEvent C) :=
  match entry.message with
  | none => []
  | some msg =>
    if entry.type = "assistant" then
      let startedAt := if 0 < triggerTs then triggerTs else entry.ts
      [.llmExchange entry.ts (max 0 (entry.ts - startedAt)) startedAt entry.uuid msg]
    else if entry.type = "user" then
      let results := toolActions toolNames entry msg.content
      if results ≠ [] then results
      else
        let text := promptText msg.content
        if text = "" then [] else [.userPrompt entry.ts text entry.promptId entry.uuid]
    else []

def processLine (line : String) (reader : TranscriptReader C) : TranscriptReader C :=
  match (parsers.parseJson line).bind (parseTranscriptLine parsers) with
  | none => reader
  | some entry =>
    let triggerTs := reader.prevLineTs
    let reader := { reader with prevLineTs := if 0 < entry.ts then entry.ts else reader.prevLineTs }
    if entry.isMeta then reader
    else if entry.uuid ∈ reader.seen then reader
    else
      let toolNames :=
        if entry.type = "assistant" then harvest (entry.message.elim [] ParsedAnthropicMessage.content) reader.toolNames
        else reader.toolNames
      { reader with
        seen := reader.seen ++ [entry.uuid]
        toolNames := toolNames
        emitted := reader.emitted ++ [(entry.uuid, eventsOf triggerTs toolNames entry)] }

def readLine (path : String) (index : Nat) (line : String) (reader : TranscriptReader C) : TranscriptReader C :=
  let reader := { reader with read := reader.read ++ [⟨path, index, line⟩] }
  if Text.trim line = "" then reader else processLine parsers line reader

def readLines (path : String) : Nat → List String → TranscriptReader C → TranscriptReader C
  | _, [], reader => reader
  | index, line :: rest, reader => readLines path (index + 1) rest (readLine parsers path index line reader)

def drain (reader : TranscriptReader C) : TranscriptReader C :=
  if reader.closed then reader
  else
    match reader.path with
    | none => reader
    | some path =>
      if reader.flight.isSome then { reader with drainQueued := true }
      else { reader with flight := some ⟨path, reader.offset, .opening⟩ }

/-- The outer `finally` of a drain. -/
def finish (reader : TranscriptReader C) : TranscriptReader C :=
  let reader := { reader with flight := none }
  if reader.drainQueued && !reader.closed then drain { reader with drainQueued := false } else reader

def moveTo (flight : DrainFlight) (stage : DrainStage) (reader : TranscriptReader C) : TranscriptReader C :=
  { reader with flight := some { flight with stage := stage } }

def commit (content : List Nat) (flight : DrainFlight) (bytes : List Nat) (reader : TranscriptReader C) : TranscriptReader C :=
  if bytes = [] then reader
  else if reader.closed || reader.path ≠ some flight.drainPath then reader
  else
    match lastIndexOf NEWLINE bytes with
    | none => reader
    | some lastNl =>
      let completeText := Utf8.toString (bytes.take lastNl)
      let index := (lines NEWLINE (content.take flight.start)).length
      readLines parsers flight.drainPath index (Text.split '\n' completeText) { reader with offset := flight.start + lastNl + 1 }

def ensurePath (getPath : Option String) (reader : TranscriptReader C) : TranscriptReader C :=
  if reader.closed then reader
  else
    match getPath with
    | none => reader
    | some p =>
      if p = "" then reader
      else if reader.path = some p then reader
      else drain { reader with path := some p, offset := 0, prevLineTs := 0 }

end TranscriptReader

/-- The files, the value of `getPath`, and the reader. -/
structure Tail (C : Type) where
  files : String → List Nat
  getPath : Option String
  reader : TranscriptReader C

/-- `opened`, `statted`, `read` and `released` are the awaits of the drain under way; `none` or `false` is a rejection. A read brings
what it asked for, or less. -/
inductive TailEvent where
  | append (path : String) (bytes : List Nat)
  | pathChanges (getPath : Option String)
  | poll
  | watch
  | opened (ok : Bool)
  | statted (ok : Bool)
  | read (bytesRead : Option Nat)
  | released
  | close

namespace Tail

variable {C : Type} (parsers : TranscriptParsers C)

def attach (files : String → List Nat) (getPath : Option String) : Tail C := ⟨files, getPath, TranscriptReader.initial.ensurePath getPath⟩

def chunk (tail : Tail C) (flight : DrainFlight) (len bytesRead : Nat) : List Nat :=
  ((tail.files flight.drainPath).drop flight.start).take (min bytesRead len)

def resume (event : TailEvent) (tail : Tail C) (flight : DrainFlight) : TranscriptReader C :=
  match flight.stage, event with
  | .opening, .opened true => tail.reader.moveTo flight .stating
  | .opening, .opened false => tail.reader.finish
  | .stating, .statted true =>
    let size := (tail.files flight.drainPath).length
    if size ≤ flight.start then tail.reader.moveTo flight .closing else tail.reader.moveTo flight (.reading (size - flight.start))
  | .stating, .statted false => tail.reader.moveTo flight .closing
  | .reading len, .read (some bytesRead) =>
    (tail.reader.commit parsers (tail.files flight.drainPath) flight (tail.chunk flight len bytesRead)).moveTo flight .closing
  | .reading _, .read none => tail.reader.moveTo flight .closing
  | .closing, .released => tail.reader.finish
  | _, _ => tail.reader

def next : Transcript.Machine (Tail C) TailEvent Unit := fun tail event =>
  match event with
  | .append path bytes => ({ tail with files := Function.update tail.files path (tail.files path ++ bytes) }, ())
  | .pathChanges getPath => ({ tail with getPath := getPath }, ())
  | .poll => ({ tail with reader := (tail.reader.ensurePath tail.getPath).drain }, ())
  | .watch => ({ tail with reader := tail.reader.drain }, ())
  | .close => ({ tail with reader := { tail.reader with closed := true } }, ())
  | event =>
    match tail.reader.flight with
    | none => (tail, ())
    | some flight => ({ tail with reader := resume parsers event tail flight }, ())

end Tail

end CommandSuite
