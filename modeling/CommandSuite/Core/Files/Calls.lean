import CommandSuite.Core.Files.FilesystemStore
import CommandSuite.Library.Transcript

/-! # Calls

The calls of viewers at a store, in any order. A `writeFile` comes in two steps, and other calls may
come between them.
-/

namespace CommandSuite.Files

open Library Fallible Database

inductive Call where
  | stat (path : String)
  | list (path : String)
  | listShared
  | listAllFiles
  | openReadStream (path : String)
  | copyByBlobRef (src dst : String) (mimeType : Option String) (collision : Option WriteCollisionStrategy)
  | writeFile (path mimeType : String) (collision : Option WriteCollisionStrategy)
  | mkdir (path : String) (recursive : Bool)
  | remove (path : String) (recursive : Bool)
  | move (source destination : String)

def Call.target : Call → Option Path
  | .copyByBlobRef _ dst _ _ => (normalizePath dst).toOption
  | .writeFile path _ _ => (normalizePath path).toOption
  | .mkdir path _ => (normalizePath path).toOption
  | .move _ destination => (normalizePath destination).toOption
  | _ => none

/-- A `writeFile` that awaits its blob, with the memberships it was checked against. -/
structure PendingWrite where
  acl : ObjectiveAcl
  input : WriteFileInput
  path : Path
  now : Int

inductive Reply where
  | found (entry : Option FsEntry)
  | listed (entries : List FsEntry)
  | stream (entry : FsEntry) (hash : String)
  | waiting (write : PendingWrite)
  | written (entry : FsEntry) (renamed : Bool)
  | entry (entry : FsEntry)
  | done

def Reply.entries : Reply → List FsEntry
  | .found answer => answer.toList
  | .listed answers => answers
  | .stream opened _ => [opened]
  | .written placed _ => [placed]
  | .entry changed => [changed]
  | .waiting _ | .done => []

def ask {α : Type} (query : Database → Except FsError α) : FsM α := do
  let answer ← fromDb query
  valid answer

def Call.program (acl : ObjectiveAcl) (viewer : ViewerContext) (now : Int) : Call → FsM Reply
  | .stat path => do return .found (← ask fun db => Files.stat acl db path viewer)
  | .list path => do return .listed (← ask fun db => Files.list acl db path viewer)
  | .listShared => do return .listed (← ask fun db => .ok (Files.listShared acl db viewer))
  | .listAllFiles => do return .listed (← ask fun db => Files.listAllFiles acl db viewer)
  | .openReadStream path => do
    let opened ← ask fun db => Files.openReadStream acl db path viewer
    return .stream opened.1 opened.2
  | .copyByBlobRef src dst mimeType collision => do
    return .entry (← Files.copyByBlobRef acl ⟨src, dst, mimeType, collision, viewer⟩ now)
  | .writeFile path mimeType collision => do
    let normalized ← Files.writeFile acl ⟨path, mimeType, viewer, collision⟩ now
    return .waiting ⟨acl, ⟨path, mimeType, viewer, collision⟩, normalized, now⟩
  | .mkdir path recursive => do return .entry (← Files.mkdir acl path viewer recursive now)
  | .remove path recursive => do
    Files.remove acl path viewer recursive
    return .done
  | .move source destination => do return .entry (← Files.move acl source destination viewer now)

structure Desk where
  store : FilesystemStore
  pending : List PendingWrite

def Desk.empty : Desk := ⟨.empty, []⟩

/-- A call comes with the memberships at its time. `putSettled` is what the blob store answers a pending write. -/
inductive Event where
  | call (acl : ObjectiveAcl) (viewer : ViewerContext) (now : Int) (request : Call)
  | putSettled (index : Nat) (put : Except Thrown PutResult)
  | grant (path viewer grantedVia : String) (now : Int)
  | ensureHome (memberName : Name) (now : Int)

def settle (write : PendingWrite) (put : Except Thrown PutResult) : FsM Reply := do
  let put ← fromExcept put
  let written ← finishWriteFile write.input write.path write.now put
  return .written written.1 written.2

def Event.program (pending : List PendingWrite) : Event → FsM Reply
  | .call acl viewer now request => request.program acl viewer now
  | .putSettled index put =>
    match pending[index]? with
    | none => return .done
    | some write => settle write put
  | .grant path viewer grantedVia now => do
    Files.grant path viewer grantedVia now
    return .done
  | .ensureHome memberName now => do
    Files.ensureHome memberName now
    return .done

def serve : Transcript.Machine Desk Event (Except Thrown Reply) := fun desk event =>
  let (outcome, store) := run (event.program desk.pending) desk.store
  let pending := match event, outcome with
    | .putSettled index _, _ => desk.pending.eraseIdx index
    | _, .ok (.waiting write) => desk.pending ++ [write]
    | _, _ => desk.pending
  (⟨store, pending⟩, outcome)

structure Actor where
  acl : ObjectiveAcl
  viewer : ViewerContext
  target : Option Path

def Desk.actor (desk : Desk) : Event → Option Actor
  | .call acl viewer _ request => some ⟨acl, viewer, request.target⟩
  | .putSettled index _ => desk.pending[index]?.map fun write => ⟨write.acl, write.input.writer, some write.path⟩
  | .grant .. | .ensureHome .. => none

end CommandSuite.Files
