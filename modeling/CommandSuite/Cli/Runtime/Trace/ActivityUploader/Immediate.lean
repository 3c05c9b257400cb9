import CommandSuite.Cli.Runtime.Trace.ActivityUploader.Accounting

/-! # Immediate events

`enqueueImmediate` of `packages/cli/src/runtime/trace/host.ts`: an event is enqueued, and a flush that is to reject when its upload
fails is awaited. The session opens its presence once it resolves.
-/

namespace CommandSuite.Uploader

open Library Transcript Uploader Program

variable {E : Type}

inductive Acknowledgement where
  | settling (settle : Settle)
  | ready
  | joined
  | resolved
  | rejected
  deriving DecidableEq

namespace Acknowledgement

def isDue : Acknowledgement → Bool
  | .settling .checking | .ready => true
  | .settling .awaiting | .joined | .resolved | .rejected => false

def isOver : Acknowledgement → Bool
  | .resolved | .rejected => true
  | .settling _ | .ready | .joined => false

def wake (fails : Bool) : Acknowledgement → Acknowledgement
  | .settling .awaiting => if fails then .rejected else .settling .checking
  | .joined => if fails then .rejected else .resolved
  | acknowledgement => acknowledgement

end Acknowledgement

/-- `landed`: a POST with the event has succeeded. -/
structure Immediate (E : Type) where
  uploader : ActivityUploader E
  acknowledgement : Acknowledgement
  landed : Bool

inductive ImmediateInput (E : Type) where
  | other (event : Event E)
  | advance

section Calls

variable (options : ActivityUploaderOptions) (size : E → Nat)

/-- The rest of `flush`. -/
def advance (call : Immediate E) : Immediate E :=
  match call.acknowledgement with
  | .settling .checking => { call with acknowledgement := if call.uploader.upload.promised then .settling .awaiting else .ready }
  | .ready =>
    let uploader := (doFlush options true call.uploader).1
    { call with uploader, acknowledgement := if uploader.upload.promised then .joined else .resolved }
  | .settling .awaiting | .joined | .resolved | .rejected => call

variable [DecidableEq E]

end Calls

/-! ## What is asked of the call -/

section Uploads

variable (options : ActivityUploaderOptions) {uploader : ActivityUploader E}

section

variable (h : uploader.upload.promised = true)
include h

end

end Uploads

/-! ## Every step keeps an acknowledgement true -/

structure Truthful (call : Immediate E) : Prop where
  promised : call.acknowledgement = .joined → call.uploader.upload.promised = true
  joined : call.acknowledgement = .joined → call.uploader.upload = .settling false → call.landed = true
  resolved : call.acknowledgement = .resolved → call.landed = true

section Steps

variable (options : ActivityUploaderOptions) (size : E → Nat) {call : Immediate E}

variable [DecidableEq E]

omit [DecidableEq E] in
theorem Truthful.keep (h : Truthful call) {other : Immediate E} (hAt : other.acknowledgement = call.acknowledgement)
    (hUpload : call.acknowledgement = .joined → other.uploader.upload = call.uploader.upload)
    (hLanded : call.landed = true → other.landed = true) : Truthful other := by
  constructor
  · intro hJoined
    rw [hAt] at hJoined
    rw [hUpload hJoined]
    exact h.promised hJoined
  · intro hJoined hSettling
    rw [hAt] at hJoined
    rw [hUpload hJoined] at hSettling
    exact hLanded (h.joined hJoined hSettling)
  · intro hResolved
    rw [hAt] at hResolved
    exact hLanded (h.resolved hResolved)

end Steps

def sent : List (ImmediateInput Nat) := [.advance, .other (.uploadSettles (some 1)), .other .promiseClears]

end CommandSuite.Uploader
