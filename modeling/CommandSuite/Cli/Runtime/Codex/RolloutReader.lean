import CommandSuite.Cli.Runtime.TranscriptReader
import Mathlib.Data.List.Infix

/-! # The rollout reader

`packages/cli/src/runtime/agents/codex/rollout-reader.ts`: every rollout file has its own parser, and one drain at a time goes over
the files that are tracked. Files grow; a listing is what `readdirSync` gives, and `none` where it throws. A path is told by its part
below the sessions directory. Of a parser there is what it is called with.
-/

namespace CommandSuite

open Library

/-! ## Names -/

namespace RolloutName

/-- `ROLLOUT_RE`. A dot takes every character but a line end. -/
def isRollout (name : String) : Bool :=
  let chars := name.toList
  "rollout-".toList.isPrefixOf chars && ".jsonl".toList.isSuffixOf chars && 14 ≤ chars.length &&
    chars.all fun char => char ≠ '\n' && char ≠ '\r' && char ≠ '\u2028' && char ≠ '\u2029'

def isHex (char : Char) : Bool := ('0' ≤ char && char ≤ '9') || ('a' ≤ char && char ≤ 'f') || ('A' ≤ char && char ≤ 'F')

def isThreadId (chars : List Char) : Bool :=
  let groups := chars.splitOn '-'
  groups.map List.length = [8, 4, 4, 4, 12] && groups.all fun group => group.all isHex

/-- `THREAD_ID_RE`, in whatever case. -/
def threadIdOf (name : String) : Option String :=
  let chars := name.toList
  let id := (chars.drop (chars.length - 42)).take 36
  if (chars.drop (chars.length - 6)).map Char.toLower = ".jsonl".toList && isThreadId id then some (String.ofList id) else none

def includes (name part : String) : Bool := decide (part.toList <:+: name.toList)

def sourceFor (name : String) (rootId : Option String) : String :=
  match rootId with
  | none => "codex_main_thread"
  | some rootId =>
    if rootId ≠ "" && includes name rootId then "codex_main_thread"
    else "codex_subagent:" ++ (threadIdOf name).elim "unknown" fun id => String.ofList (id.toList.take 8)

def basename (path : String) : String := String.ofList ((path.toList.splitOn '/').getLastD [])

end RolloutName

open RolloutName

/-! ## The reader -/

inductive ParserCall where
  | handleLine (line : String)
  | flush
  deriving DecidableEq

/-- `start` is the offset that the file has been tracked from; `calls` are those of its parser. -/
structure TrackedFile where
  path : String
  source : String
  start : Nat
  offset : Nat
  calls : List ParserCall

/-- `draining`: the place of the file that is being drained, and whether the drain is the final one. -/
structure RolloutFlight where
  index : Nat
  stage : DrainStage
  isFinal : Bool

/-- How far `close` has come. It waits for a drain under way, drains a last time, and flushes. -/
inductive ReaderPhase where
  | isOpen
  | waiting
  | draining
  | done
  deriving DecidableEq

structure RolloutReader where
  tracked : List TrackedFile
  ignored : List String
  drainQueued : Bool
  flight : Option RolloutFlight
  phase : ReaderPhase

namespace RolloutReader

def initial : RolloutReader := ⟨[], [], false, none, .isOpen⟩

def isClosed (reader : RolloutReader) : Bool := reader.phase ≠ .isOpen

def startTracking (path source : String) (offset : Nat) (reader : RolloutReader) : RolloutReader :=
  let file : TrackedFile := ⟨path, source, offset, offset, []⟩
  { reader with
    tracked :=
      if reader.tracked.any fun other => other.path = path then
        reader.tracked.map fun other => if other.path = path then file else other
      else reader.tracked ++ [file] }

def discoverOne (rootId : Option String) (reader : RolloutReader) (path : String) : RolloutReader :=
  let name := basename path
  if !isRollout name then reader
  else if reader.tracked.any (fun file => file.path = path) || path ∈ reader.ignored then reader
  else reader.startTracking path (sourceFor name rootId) 0

def discover (listing : Option (List String)) (rootId : Option String) (reader : RolloutReader) : RolloutReader :=
  (listing.getD []).foldl (discoverOne rootId) reader

/-! ## Drains -/

def startDrain (reader : RolloutReader) : RolloutReader :=
  if reader.tracked = [] then { reader with drainQueued := reader.drainQueued && reader.isClosed }
  else { reader with flight := some ⟨0, .opening, false⟩ }

def drainAll (reader : RolloutReader) : RolloutReader :=
  if reader.flight.isSome then { reader with drainQueued := true } else reader.startDrain

/-- What `close` does behind its last drain. -/
def flushAll (reader : RolloutReader) : RolloutReader :=
  { reader with
    flight := none
    phase := .done
    tracked := reader.tracked.map fun file => { file with calls := file.calls ++ [.flush] } }

def startFinalDrain (reader : RolloutReader) : RolloutReader :=
  if reader.tracked = [] then reader.flushAll else { reader with flight := some ⟨0, .opening, true⟩, phase := .draining }

def drainAllFinal (reader : RolloutReader) : RolloutReader :=
  if reader.flight.isSome then { reader with phase := .waiting } else reader.startFinalDrain

def advance (flight : RolloutFlight) (reader : RolloutReader) : RolloutReader :=
  if flight.index + 1 < reader.tracked.length then { reader with flight := some ⟨flight.index + 1, .opening, flight.isFinal⟩ }
  else if flight.isFinal then reader.flushAll
  else
    let ended := { reader with flight := none }
    if ended.drainQueued && !ended.isClosed then startDrain { ended with drainQueued := false } else ended

def moveTo (flight : RolloutFlight) (stage : DrainStage) (reader : RolloutReader) : RolloutReader :=
  { reader with flight := some { flight with stage := stage } }

def isBlank (line : String) : Bool := Text.trim line = ""

def consume (bytes : List Nat) (file : TrackedFile) : TrackedFile :=
  match lastIndexOf NEWLINE bytes with
  | none => file
  | some lastNl =>
    let completeText := Utf8.toString (bytes.take lastNl)
    { file with
      offset := file.offset + lastNl + 1
      calls := file.calls ++ ((Text.split '\n' completeText).filter fun line => !isBlank line).map .handleLine }

/-! ## Attachment -/

/-- With `ignore`, what is on disk is passed over, and the file of the resumed thread is tailed from its size. -/
inductive Preexisting where
  | track
  | ignore (resumeThreadId : Option String)

def snapshotOne (sizes : String → Option Nat) (resumeThreadId : Option String) (reader : RolloutReader) (path : String) : RolloutReader :=
  let name := basename path
  if !isRollout name then reader
  else if resumeThreadId.any fun id => id ≠ "" && includes name id then
    reader.startTracking path "codex_main_thread" ((sizes path).getD 0)
  else { reader with ignored := reader.ignored ++ [path] }

def snapshot (sizes : String → Option Nat) (listing : Option (List String)) : Preexisting → RolloutReader
  | .track => initial
  | .ignore resumeThreadId => (listing.getD []).foldl (snapshotOne sizes resumeThreadId) initial

end RolloutReader

structure RolloutTail where
  files : String → List Nat
  reader : RolloutReader

/-- `opened`, `statted`, `read` and `released` are the awaits of the drain under way, where `none` or `false` is a rejection; `tick` is
the timer that `close` waits with. -/
inductive RolloutInput where
  | append (path : String) (bytes : List Nat)
  | poll (listing : Option (List String)) (rootId : Option String)
  | watch
  | opened (ok : Bool)
  | statted (ok : Bool)
  | read (bytesRead : Option Nat)
  | released
  | close (listing : Option (List String)) (rootId : Option String)
  | tick

namespace RolloutTail

open RolloutReader

/-- The sessions directory is listed twice; `vanished` are the files that are gone when their size is asked for. -/
def attach (files : String → List Nat) (vanished : String → Bool) (preexisting : Preexisting) (present listing : Option (List String))
    (rootId : Option String) : RolloutTail :=
  let sizes path := if vanished path then none else some (files path).length
  ⟨files, ((snapshot sizes present preexisting).discover listing rootId).drainAll⟩

def chunk (tail : RolloutTail) (file : TrackedFile) (len bytesRead : Nat) : List Nat :=
  ((tail.files file.path).drop file.offset).take (min bytesRead len)

def consumeAt (tail : RolloutTail) (flight : RolloutFlight) (len bytesRead : Nat) : RolloutReader :=
  { tail.reader with
    tracked := tail.reader.tracked.modify flight.index fun file => file |> consume (tail.chunk file len bytesRead) }

def resume (input : RolloutInput) (tail : RolloutTail) (flight : RolloutFlight) (file : TrackedFile) : RolloutReader :=
  match flight.stage, input with
  | .opening, .opened true => tail.reader.moveTo flight .stating
  | .opening, .opened false => tail.reader.advance flight
  | .stating, .statted true =>
    let size := (tail.files file.path).length
    if size ≤ file.offset then tail.reader.moveTo flight .closing else tail.reader.moveTo flight (.reading (size - file.offset))
  | .stating, .statted false => tail.reader.moveTo flight .closing
  | .reading len, .read (some bytesRead) => (tail.consumeAt flight len bytesRead).moveTo flight .closing
  | .reading _, .read none => tail.reader.moveTo flight .closing
  | .closing, .released => tail.reader.advance flight
  | _, _ => tail.reader

def next : Transcript.Machine RolloutTail RolloutInput Unit := fun tail input =>
  match input with
  | .append path bytes => ({ tail with files := Function.update tail.files path (tail.files path ++ bytes) }, ())
  | .poll listing rootId =>
    (if tail.reader.isClosed then tail else { tail with reader := (tail.reader.discover listing rootId).drainAll }, ())
  | .watch => (if tail.reader.isClosed then tail else { tail with reader := tail.reader.drainAll }, ())
  | .close listing rootId =>
    (if tail.reader.isClosed then tail
      else { tail with reader := (RolloutReader.discover listing rootId { tail.reader with phase := .waiting }).drainAllFinal }, ())
  | .tick =>
    (if tail.reader.phase = .waiting && tail.reader.flight.isNone then { tail with reader := tail.reader.startFinalDrain } else tail, ())
  | input =>
    match tail.reader.flight with
    | none => (tail, ())
    | some flight =>
      match tail.reader.tracked[flight.index]? with
      | none => (tail, ())
      | some file => ({ tail with reader := resume input tail flight file }, ())

end RolloutTail

end CommandSuite
