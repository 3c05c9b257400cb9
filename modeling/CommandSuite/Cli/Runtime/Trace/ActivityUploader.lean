import CommandSuite.Library.Program
import CommandSuite.Library.Transcript

/-! # The activity uploader

`packages/cli/src/runtime/trace/activity-uploader.ts`. Calls, timers, the end of a POST and the continuations of the async
functions are single steps, which may come in every order that the event loop allows.
-/

namespace CommandSuite.Uploader

open Library Program

structure QueuedEvent (E : Type) where
  event : E
  bytes : Nat

structure ActivityUploaderOptions where
  maxBatchEvents : Nat
  maxBatchBytes : Nat
  maxBatchAgeMs : Nat
  maxQueueEvents : Nat
  maxQueueBytes : Nat
  maxPostBytes : Nat

def DEFAULT_OPTIONS : ActivityUploaderOptions := ⟨50, 64 * 1024, 500, 1000, 64 * 1024 * 1024, 8 * 1024 * 1024⟩

def BACKOFF_START_MS : Nat := 200

def BACKOFF_MAX_MS : Nat := 30000

/-! ## State -/

/-- `inFlight` while the POST is on the wire, and `inFlightPromise` until it is cleared. -/
inductive Upload (E : Type) where
  | idle
  | onWire (batch : List (QueuedEvent E)) (throwOnFailure : Bool)
  | settling (rejected : Bool)

/-- Where `settleInFlight` stands: it awaits the promise, or it is to look again. -/
inductive Settle where
  | awaiting
  | checking
  deriving DecidableEq

/-- What is to be continued of a `flush` or of the `close`. -/
inductive Continuation where
  | flushSettling (settle : Settle) (throwOnFailure : Bool)
  | flushReady (throwOnFailure : Bool)
  | closeSettling (settle : Settle)
  | closeReady
  | closeDraining (settle : Settle) (before : Nat)
  deriving DecidableEq

/-- `backoffTimers` are those that are pending: the field holds the latest, and forgets it when an earlier one fires. -/
structure ActivityUploader (E : Type) where
  queue : List (QueuedEvent E)
  queueBytes : Int
  flushTimer : Option Nat
  upload : Upload E
  closed : Bool
  backoffMs : Nat
  backoffTimer : Option Nat
  backoffTimers : List Nat
  nextTimer : Nat
  statEnqueued : Nat
  statUploaded : Int
  statDropped : Nat
  peakQueuedEvents : Nat
  peakQueuedBytes : Int
  authBlocked : Bool
  evictedWhileBlocked : Nat
  evictedBytesWhileBlocked : Nat
  continuations : List Continuation

variable {E : Type}

def bytesOf (events : List (QueuedEvent E)) : Int := (events.map fun queued => (queued.bytes : Int)).sum

namespace Upload

def inFlight : Upload E → Bool
  | .onWire _ _ => true
  | .idle | .settling _ => false

def batch : Upload E → List (QueuedEvent E)
  | .onWire batch _ => batch
  | .idle | .settling _ => []

/-- `inFlightPromise` is set. -/
def promised : Upload E → Bool
  | .idle => false
  | .onWire _ _ | .settling _ => true

end Upload

namespace ActivityUploader

def created : ActivityUploader E := ⟨[], 0, none, .idle, false, 0, none, [], 0, 0, 0, 0, 0, 0, false, 0, 0, []⟩

end ActivityUploader

inductive Note (E : Type) where
  | accepted (event : E)
  | refused (event : E)
  | evicted (event : E)
  | posted (batch : List E)
  | delivered (batch : List E)
  | failed (batch : List E)
  | droppedAtClose (events : List E)

abbrev Action (E : Type) := Program (ActivityUploader E) (Note E)

/-! ## Timers -/

section Calls

variable (options : ActivityUploaderOptions)

def scheduleFlush (delayMs : Nat) (uploader : ActivityUploader E) : ActivityUploader E :=
  if uploader.upload.inFlight || uploader.closed || uploader.backoffTimer.isSome || uploader.authBlocked then uploader
  else if uploader.flushTimer.isSome && options.maxBatchAgeMs ≤ delayMs then uploader
  else { uploader with flushTimer := some delayMs }

def clearFlushTimer (uploader : ActivityUploader E) : ActivityUploader E := { uploader with flushTimer := none }

def clearBackoffTimer (uploader : ActivityUploader E) : ActivityUploader E :=
  { uploader with
    backoffTimer := none
    backoffTimers := match uploader.backoffTimer with
      | some id => uploader.backoffTimers.erase id
      | none => uploader.backoffTimers }

def setBackoffTimer (uploader : ActivityUploader E) : ActivityUploader E :=
  { uploader with
    backoffMs := if uploader.backoffMs = 0 then BACKOFF_START_MS else min (uploader.backoffMs * 2) BACKOFF_MAX_MS
    backoffTimer := some uploader.nextTimer
    backoffTimers := uploader.backoffTimers ++ [uploader.nextTimer]
    nextTimer := uploader.nextTimer + 1 }

/-! ## Queueing -/

def notePeaks (uploader : ActivityUploader E) : ActivityUploader E :=
  { uploader with
    peakQueuedEvents := max uploader.peakQueuedEvents uploader.queue.length
    peakQueuedBytes := max uploader.peakQueuedBytes uploader.queueBytes }

def isFull (bytes : Nat) (uploader : ActivityUploader E) : Bool :=
  uploader.queue.length + 1 > options.maxQueueEvents || uploader.queueBytes + bytes > options.maxQueueBytes

def shiftOldest (dropped : QueuedEvent E) (rest : List (QueuedEvent E)) (uploader : ActivityUploader E) : ActivityUploader E :=
  { uploader with
    queue := rest
    queueBytes := uploader.queueBytes - dropped.bytes
    statDropped := uploader.statDropped + 1
    evictedWhileBlocked := uploader.evictedWhileBlocked + if uploader.authBlocked then 1 else 0
    evictedBytesWhileBlocked := uploader.evictedBytesWhileBlocked + if uploader.authBlocked then dropped.bytes else 0 }

def makeRoom (bytes : Nat) : List (QueuedEvent E) → Action E
  | [] => skip
  | dropped :: rest => fun uploader =>
    if isFull options bytes uploader then
      ((update (shiftOldest dropped rest)).andThen
        ((emit (.evicted dropped.event)).andThen (makeRoom bytes rest))) uploader
    else (uploader, [])

def push (queued : QueuedEvent E) (uploader : ActivityUploader E) : ActivityUploader E :=
  notePeaks { uploader with queue := uploader.queue ++ [queued], queueBytes := uploader.queueBytes + queued.bytes }

def flushDelay (uploader : ActivityUploader E) : Nat :=
  if uploader.queue.length ≥ options.maxBatchEvents || uploader.queueBytes ≥ options.maxBatchBytes then 0 else options.maxBatchAgeMs

def countEnqueued (uploader : ActivityUploader E) : ActivityUploader E := { uploader with statEnqueued := uploader.statEnqueued + 1 }

/-- `size` is the length of the event's JSON in bytes. -/
def enqueue (size : E → Nat) (event : E) : Action E := fun uploader =>
  if uploader.closed then ({ uploader with statDropped := uploader.statDropped + 1 }, [.refused event])
  else
    ((update countEnqueued).andThen ((emit (.accepted event)).andThen
      ((makeRoom options (size event) uploader.queue).andThen ((update (push ⟨event, size event⟩)).andThen
        (update fun uploader => scheduleFlush options (flushDelay options uploader) uploader))))) uploader

def unshift (queued : QueuedEvent E) (uploader : ActivityUploader E) : ActivityUploader E :=
  notePeaks { uploader with queue := queued :: uploader.queue, queueBytes := uploader.queueBytes + queued.bytes }

def enqueueFirst (size : E → Nat) (event : E) : Action E := fun uploader =>
  if uploader.closed then (uploader, [])
  else (unshift ⟨event, size event⟩ (countEnqueued uploader), [.accepted event])

def setAuthBlocked (blocked : Bool) : Action E := update fun uploader =>
  let uploader := { uploader with authBlocked := blocked }
  if blocked then clearBackoffTimer (clearFlushTimer uploader)
  else if uploader.queue.isEmpty then uploader
  else scheduleFlush options 0 uploader

/-! ## Flushing -/

/-- `taken` and `bytes` are what is in the batch. -/
def takeBatch (taken bytes : Nat) : List (QueuedEvent E) → List (QueuedEvent E) × List (QueuedEvent E)
  | [] => ([], [])
  | next :: rest =>
    if taken < options.maxBatchEvents && !(taken > 0 && bytes + next.bytes > options.maxPostBytes) then
      let (batch, queue) := takeBatch (taken + 1) (bytes + next.bytes) rest
      (next :: batch, queue)
    else ([], next :: rest)

/-- `runFlush` up to its await. -/
def startUpload (throwOnFailure : Bool) : Action E := fun uploader =>
  let (batch, queue) := takeBatch options 0 0 uploader.queue
  ({ uploader with
      upload := .onWire batch throwOnFailure
      queue := queue
      queueBytes := uploader.queueBytes - bytesOf batch },
    [.posted (batch.map QueuedEvent.event)])

def doFlush (throwOnFailure : Bool) : Action E := fun uploader =>
  if uploader.upload.promised || uploader.queue.isEmpty then (uploader, []) else startUpload options throwOnFailure uploader

/-- The end of `runFlush`. -/
def flushMore (uploader : ActivityUploader E) : ActivityUploader E :=
  if !uploader.queue.isEmpty && uploader.backoffMs = 0 then scheduleFlush options 0 uploader else uploader

def succeeded (accepted : Int) (uploader : ActivityUploader E) : ActivityUploader E :=
  { uploader with statUploaded := uploader.statUploaded + accepted, backoffMs := 0, upload := .settling false }

/-- `runFlush` after an answer of the broker. -/
def uploadSucceeded (batch : List (QueuedEvent E)) (accepted : Int) : Action E := fun uploader =>
  (flushMore options (succeeded accepted uploader), [.delivered (batch.map QueuedEvent.event)])

def requeue (batch : List (QueuedEvent E)) (throwOnFailure : Bool) (uploader : ActivityUploader E) : ActivityUploader E :=
  { uploader with
    queue := batch ++ uploader.queue
    queueBytes := uploader.queueBytes + bytesOf batch
    upload := .settling throwOnFailure }

def backOff (uploader : ActivityUploader E) : ActivityUploader E :=
  if uploader.authBlocked then uploader else setBackoffTimer uploader

/-- `runFlush` after an error. -/
def uploadFailed (batch : List (QueuedEvent E)) (throwOnFailure : Bool) : Action E := fun uploader =>
  let gated := backOff (requeue batch throwOnFailure uploader)
  (if throwOnFailure then gated else flushMore options gated, [.failed (batch.map QueuedEvent.event)])

def settleUpload (accepted : Option Int) : Action E := fun uploader =>
  match uploader.upload, accepted with
  | .onWire batch _, some accepted => uploadSucceeded options batch accepted uploader
  | .onWire batch throwOnFailure, none => uploadFailed options batch throwOnFailure uploader
  | .idle, _ | .settling _, _ => (uploader, [])

/-! ## Continuations -/

/-- The promise has settled. Who awaits it goes on, or rejects with it; the loop of `close` catches. -/
def Continuation.wake (rejected : Bool) : Continuation → Option Continuation
  | .flushSettling .awaiting throwOnFailure => if rejected then none else some (.flushSettling .checking throwOnFailure)
  | .closeSettling .awaiting => if rejected then none else some (.closeSettling .checking)
  | .closeDraining .awaiting before => some (.closeDraining .checking before)
  | continuation => some continuation

/-- The `finally` handler of `doFlush`. -/
def clearPromise : Action E := update fun uploader =>
  match uploader.upload with
  | .settling rejected =>
    { uploader with upload := .idle, continuations := uploader.continuations.filterMap (Continuation.wake rejected) }
  | .idle | .onWire _ _ => uploader

def addContinuation (continuation : Continuation) (uploader : ActivityUploader E) : ActivityUploader E :=
  { uploader with continuations := uploader.continuations ++ [continuation] }

/-- `flush` up to its first await. -/
def flush (throwOnFailure : Bool) : Action E := update fun uploader =>
  addContinuation (if uploader.upload.promised then .flushSettling .awaiting throwOnFailure else .flushReady throwOnFailure)
    (clearFlushTimer uploader)

/-- `close` up to its first await. -/
def close : Action E := update fun uploader =>
  if uploader.closed then uploader
  else
    addContinuation (if uploader.upload.promised then .closeSettling .awaiting else .closeReady)
      (clearFlushTimer (clearBackoffTimer { uploader with closed := true }))

/-- The end of `close`. -/
def dropRemaining : Action E := fun uploader =>
  if uploader.authBlocked then (clearBackoffTimer uploader, [])
  else
    (clearBackoffTimer { uploader with statDropped := uploader.statDropped + uploader.queue.length, queue := [], queueBytes := 0 },
      [.droppedAtClose (uploader.queue.map QueuedEvent.event)])

/-- The loop of `close`. -/
def drain : Action E := fun uploader =>
  if uploader.authBlocked || uploader.queue.isEmpty then dropRemaining uploader
  else
    ((doFlush options false).andThen (update (addContinuation (.closeDraining .awaiting uploader.queue.length)))) uploader

def Continuation.perform (continuation : Continuation) : Action E := fun uploader =>
  match continuation with
  | .flushSettling _ throwOnFailure =>
    (addContinuation
      (if uploader.upload.promised then .flushSettling .awaiting throwOnFailure else .flushReady throwOnFailure) uploader, [])
  | .flushReady throwOnFailure => doFlush options throwOnFailure uploader
  | .closeSettling _ =>
    (addContinuation (if uploader.upload.promised then .closeSettling .awaiting else .closeReady) uploader, [])
  | .closeReady => drain options uploader
  | .closeDraining _ before => if uploader.queue.length ≥ before then dropRemaining uploader else drain options uploader

def Continuation.isDue : Continuation → Bool
  | .flushSettling settle _ | .closeSettling settle | .closeDraining settle _ => settle = .checking
  | .flushReady _ | .closeReady => true

def resume (index : Nat) : Action E := fun uploader =>
  match uploader.continuations[index]? with
  | none => (uploader, [])
  | some continuation =>
    if continuation.isDue then
      continuation.perform options { uploader with continuations := uploader.continuations.eraseIdx index }
    else (uploader, [])

/-! ## The machine -/

def Upload.isSettling : Upload E → Bool
  | .settling _ => true
  | .idle | .onWire _ _ => false

def isQuiet (uploader : ActivityUploader E) : Bool :=
  !uploader.upload.isSettling && uploader.continuations.all fun continuation => !continuation.isDue

def flushTimerFires : Action E := fun uploader =>
  if isQuiet uploader && uploader.flushTimer.isSome then doFlush options false (clearFlushTimer uploader) else (uploader, [])

def backoffTimerFires (id : Nat) : Action E := update fun uploader =>
  if isQuiet uploader && uploader.backoffTimers.contains id then
    scheduleFlush options 0 { uploader with backoffTimer := none, backoffTimers := uploader.backoffTimers.erase id }
  else uploader

inductive Event (E : Type) where
  | enqueue (event : E)
  | enqueueFirst (event : E)
  | setAuthBlocked (blocked : Bool)
  | flush (throwOnFailure : Bool)
  | close
  | flushTimerFires
  | backoffTimerFires (id : Nat)
  | uploadSettles (accepted : Option Int)
  | promiseClears
  | resumes (index : Nat)

def Event.action (size : E → Nat) : Event E → Action E
  | .enqueue event => Uploader.enqueue options size event
  | .enqueueFirst event => Uploader.enqueueFirst size event
  | .setAuthBlocked blocked => Uploader.setAuthBlocked options blocked
  | .flush throwOnFailure => Uploader.flush throwOnFailure
  | .close => Uploader.close
  | .flushTimerFires => Uploader.flushTimerFires options
  | .backoffTimerFires id => Uploader.backoffTimerFires options id
  | .uploadSettles accepted => settleUpload options accepted
  | .promiseClears => clearPromise
  | .resumes index => resume options index

def next (size : E → Nat) : Transcript.Machine (ActivityUploader E) (Event E) (List (Note E)) := fun uploader event =>
  event.action options size uploader

end Calls

end CommandSuite.Uploader
