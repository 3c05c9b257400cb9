import CommandSuite.Cli.Runtime.Trace.ActivityUploader.Accounting
import Mathlib.Algebra.Order.BigOperators.Group.List

/-! # Timers and caps of the uploader

When events wait and nothing is on the wire, a timer is armed or a `flush` is about to take its turn.
-/

namespace CommandSuite.Uploader

open Library Transcript

variable {E : Type}

/-! ## What the caps ask -/

section Caps

variable (options : ActivityUploaderOptions)

structure WithinCaps (queue : List (QueuedEvent E)) : Prop where
  events : queue.length ≤ options.maxQueueEvents
  bytes : 2 ≤ queue.length → bytesOf queue ≤ options.maxQueueBytes

structure Packed (uploader : ActivityUploader E) : Prop where
  bytesEq : uploader.queueBytes = bytesOf uploader.queue
  caps : WithinCaps options uploader.queue

instance (queue : List (QueuedEvent E)) : Decidable (WithinCaps options queue) :=
  decidable_of_iff (queue.length ≤ options.maxQueueEvents ∧ (2 ≤ queue.length → bytesOf queue ≤ options.maxQueueBytes))
    ⟨fun h => ⟨h.1, h.2⟩, fun h => ⟨h.events, h.bytes⟩⟩

variable {options}

theorem Packed.congr {uploader other : ActivityUploader E} (h : Packed options uploader) (hQueue : other.queue = uploader.queue)
    (hBytes : other.queueBytes = uploader.queueBytes) : Packed options other :=
  ⟨by rw [hBytes, hQueue, h.bytesEq], hQueue ▸ h.caps⟩

theorem bytesOf_append (first second : List (QueuedEvent E)) : bytesOf (first ++ second) = bytesOf first + bytesOf second := by
  rw [bytesOf, List.map_append, List.sum_append]
  rfl

theorem bytesOf_nonneg (queue : List (QueuedEvent E)) : 0 ≤ bytesOf queue := by
  refine List.sum_nonneg fun bytes hBytes => ?_
  obtain ⟨queued, -, rfl⟩ := List.mem_map.mp hBytes
  exact Int.natCast_nonneg _

theorem WithinCaps.suffix {batch rest : List (QueuedEvent E)} (h : WithinCaps options (batch ++ rest)) : WithinCaps options rest := by
  obtain ⟨hEvents, hBytes⟩ := h
  rw [List.length_append] at hEvents hBytes
  rw [bytesOf_append] at hBytes
  have hNonneg := bytesOf_nonneg batch
  exact ⟨by omega, fun hTwo => by have := hBytes (by omega); omega⟩

variable {uploader : ActivityUploader E}

theorem Packed.scheduleFlush (h : Packed options uploader) (delayMs : Nat) :
    Packed options (scheduleFlush options delayMs uploader) := by
  obtain ⟨timer, hTimer⟩ := scheduleFlush_eq options delayMs uploader
  rw [hTimer]
  exact h.congr rfl rfl

theorem Packed.flushMore (h : Packed options uploader) : Packed options (flushMore options uploader) := by
  unfold Uploader.flushMore
  split
  · exact h.scheduleFlush 0
  · exact h

variable (options) in
theorem makeRoom_spec (bytes : Nat) {queue : List (QueuedEvent E)} (hQueue : uploader.queue = queue)
    (hBytes : uploader.queueBytes = bytesOf queue) :
    (makeRoom options bytes queue uploader).1.queueBytes = bytesOf (makeRoom options bytes queue uploader).1.queue ∧
      ((makeRoom options bytes queue uploader).1.queue = [] ∨ isFull options bytes (makeRoom options bytes queue uploader).1 = false) := by
  induction queue generalizing uploader with
  | nil => exact ⟨hQueue.symm ▸ hBytes, .inl hQueue⟩
  | cons dropped rest ih =>
    unfold makeRoom
    split
    · have hRest : bytesOf (dropped :: rest) = dropped.bytes + bytesOf rest := rfl
      refine ih rfl ?_
      change uploader.queueBytes - dropped.bytes = bytesOf rest
      omega
    · rename_i hRoom
      exact ⟨hQueue.symm ▸ hBytes, .inr (Bool.eq_false_iff.mpr hRoom)⟩

section

variable (h : Packed options uploader)
include h

theorem packed_enqueue (size : E → Nat) (event : E)
    (hRoom : uploader.closed = true ∨ 0 < options.maxQueueEvents) : Packed options (enqueue options size event uploader).1 := by
  unfold enqueue
  split
  · exact h.congr rfl rfl
  · rename_i hOpen
    have hPositive : 0 < options.maxQueueEvents := hRoom.resolve_left hOpen
    obtain ⟨hBytes, hRoom⟩ := makeRoom_spec options (size event) (show (countEnqueued uploader).queue = uploader.queue from rfl) h.bytesEq
    change Packed options (scheduleFlush options _ (push ⟨event, size event⟩
      (makeRoom options (size event) uploader.queue (countEnqueued uploader)).1))
    refine Packed.scheduleFlush ?_ _
    generalize (makeRoom options (size event) uploader.queue (countEnqueued uploader)).1 = room at hBytes hRoom ⊢
    have hPushed : bytesOf (room.queue ++ [⟨event, size event⟩]) = bytesOf room.queue + size event := by
      rw [bytesOf_append]
      exact congrArg _ (add_zero _)
    refine ⟨?_, ?_, fun hTwo => ?_⟩
    · change room.queueBytes + size event = bytesOf (room.queue ++ [⟨event, size event⟩])
      rw [hPushed, hBytes]
    · change (room.queue ++ [_]).length ≤ _
      rw [List.length_append, List.length_singleton]
      rcases hRoom with hEmpty | hFits
      · rw [hEmpty]
        exact hPositive
      · simp only [isFull, Bool.or_eq_false_iff, decide_eq_false_iff_not] at hFits
        omega
    · change 2 ≤ (room.queue ++ [_]).length at hTwo
      change bytesOf (room.queue ++ [⟨event, size event⟩]) ≤ _
      rw [hPushed]
      rw [List.length_append, List.length_singleton] at hTwo
      rcases hRoom with hEmpty | hFits
      · rw [hEmpty, List.length_nil] at hTwo
        exact absurd hTwo (by decide)
      · simp only [isFull, Bool.or_eq_false_iff, decide_eq_false_iff_not] at hFits
        omega

theorem packed_doFlush (throwOnFailure : Bool) : Packed options (doFlush options throwOnFailure uploader).1 := by
  unfold doFlush
  split
  · exact h
  · have hQueue := takeBatch_append options 0 0 uploader.queue
    obtain ⟨hBytes, hCaps⟩ := h
    rw [← hQueue] at hBytes hCaps
    refine ⟨?_, hCaps.suffix⟩
    change uploader.queueBytes - bytesOf (takeBatch options 0 0 uploader.queue).1 = bytesOf (takeBatch options 0 0 uploader.queue).2
    rw [hBytes, bytesOf_append]
    omega

theorem packed_dropRemaining : Packed options (dropRemaining uploader).1 := by
  unfold dropRemaining
  split
  · exact h.congr rfl rfl
  · exact ⟨rfl, Nat.zero_le _, fun hTwo => absurd hTwo (show ¬ 2 ≤ 0 by decide)⟩

theorem packed_drain : Packed options (drain options uploader).1 := by
  unfold drain
  split
  · exact packed_dropRemaining h
  · exact (packed_doFlush h false).congr rfl rfl

theorem packed_resume (index : Nat) : Packed options (resume options index uploader).1 := by
  unfold resume
  split
  · exact h
  · rename_i continuation hContinuation
    have hTaken : Packed options { uploader with continuations := uploader.continuations.eraseIdx index } := h.congr rfl rfl
    split
    · cases continuation with
      | flushSettling settle throwOnFailure => exact hTaken.congr rfl rfl
      | flushReady throwOnFailure => exact packed_doFlush hTaken throwOnFailure
      | closeSettling settle => exact hTaken.congr rfl rfl
      | closeReady => exact packed_drain hTaken
      | closeDraining settle before =>
        change Packed options (if _ then _ else _ : _ × _).1
        split
        · exact packed_dropRemaining hTaken
        · exact packed_drain hTaken
    · exact h

theorem packed_settleUpload (accepted : Option Int)
    (hFits : accepted = none → WithinCaps options (uploader.upload.batch ++ uploader.queue)) :
    Packed options (settleUpload options accepted uploader).1 := by
  unfold settleUpload
  split
  · refine Packed.flushMore ?_
    exact h.congr rfl rfl
  · rename_i batch throwOnFailure hUpload
    have hRequeued : Packed options (requeue batch throwOnFailure uploader) := by
      rw [hUpload] at hFits
      refine ⟨?_, hFits rfl⟩
      change uploader.queueBytes + bytesOf batch = bytesOf (batch ++ uploader.queue)
      rw [bytesOf_append, h.bytesEq]
      exact add_comm _ _
    have hGated : Packed options (backOff (requeue batch throwOnFailure uploader)) := by
      unfold backOff
      split
      · exact hRequeued
      · exact hRequeued.congr rfl rfl
    unfold uploadFailed
    dsimp only
    split
    · exact hGated
    · exact hGated.flushMore
  · exact h
  · exact h

end

end Caps

/-! ## What keeps the uploader going -/

section Timers

def isArmed (uploader : ActivityUploader E) : Bool :=
  uploader.flushTimer.isSome || uploader.backoffTimer.any uploader.backoffTimers.contains

structure Waits (uploader : ActivityUploader E) : Prop where
  isOpen : uploader.closed = false
  unblocked : uploader.authBlocked = false
  free : uploader.upload.inFlight = false
  queued : uploader.queue.isEmpty = false

instance (uploader : ActivityUploader E) : Decidable (Waits uploader) :=
  decidable_of_iff (uploader.closed = false ∧ uploader.authBlocked = false ∧ uploader.upload.inFlight = false ∧
      uploader.queue.isEmpty = false)
    ⟨fun h => ⟨h.1, h.2.1, h.2.2.1, h.2.2.2⟩, fun h => ⟨h.isOpen, h.unblocked, h.free, h.queued⟩⟩

def Upload.isRejected : Upload E → Bool
  | .settling rejected => rejected
  | .idle | .onWire _ _ => false

/-- A `flush` that is going to try. It only joins an upload that is settling, and rejects with one that is rejected. -/
def Continuation.attempts : Upload E → Continuation → Bool
  | .idle, .flushReady _ | .idle, .flushSettling .checking _ | .settling false, .flushSettling _ _ => true
  | _, _ => false

/-- A continuation of `close`. -/
def Continuation.isClosing : Continuation → Bool
  | .flushSettling _ _ | .flushReady _ => false
  | .closeSettling _ | .closeReady | .closeDraining _ _ => true

def isAttempted (uploader : ActivityUploader E) : Bool := uploader.continuations.any (Continuation.attempts uploader.upload)

def Pending (uploader : ActivityUploader E) : Prop := ∀ id, uploader.backoffTimer = some id → id ∈ uploader.backoffTimers

variable {continuation : Continuation}

theorem Continuation.attempts_closing (upload : Upload E) (h : continuation.isClosing = true) :
    continuation.attempts upload = false := by
  cases continuation with
  | flushSettling _ _ | flushReady _ => cases h
  | closeSettling _ | closeReady | closeDraining _ _ =>
    cases upload with
    | idle | onWire _ _ => rfl
    | settling rejected => cases rejected <;> rfl

structure Live (uploader : ActivityUploader E) : Prop where
  pending : Pending uploader
  going : Waits uploader → isArmed uploader = true ∨ isAttempted uploader = true

variable {uploader other : ActivityUploader E}

theorem isArmed_of_backoffTimer (hPending : Pending uploader)
    (h : uploader.backoffTimer.isSome = true) : isArmed uploader = true := by
  obtain ⟨id, hId⟩ := Option.isSome_iff_exists.mp h
  rw [isArmed, hId, Option.any_some, List.contains_iff_mem.mpr (hPending id hId), Bool.or_true]

theorem live_scheduleFlush (options : ActivityUploaderOptions) (delayMs : Nat)
    (hPending : Pending uploader) :
    Live (scheduleFlush options delayMs uploader) := by
  refine ⟨?_, fun hWaits => .inl ?_⟩
  · obtain ⟨timer, hTimer⟩ := scheduleFlush_eq options delayMs uploader
    rw [hTimer]
    exact hPending
  · unfold scheduleFlush at hWaits ⊢
    split
    · rename_i hHeld
      rw [if_pos hHeld] at hWaits
      rw [hWaits.free, hWaits.isOpen, hWaits.unblocked] at hHeld
      exact isArmed_of_backoffTimer hPending (by simpa using hHeld)
    · split
      · rename_i hArmed
        rw [isArmed, (Bool.and_eq_true_iff.mp hArmed).1, Bool.true_or]
      · rfl

theorem live_of_not_waits (hPending : Pending uploader) (h : ¬ Waits uploader) :
    Live uploader := ⟨hPending, fun hWaits => absurd hWaits h⟩

theorem Live.congr (h : Live uploader) (hWaits : Waits other → Waits uploader) (hFlush : other.flushTimer = uploader.flushTimer)
    (hBackoff : other.backoffTimer = uploader.backoffTimer) (hTimers : other.backoffTimers = uploader.backoffTimers)
    (hAttempted : isAttempted uploader = true → isArmed uploader = true ∨ isAttempted other = true) : Live other := by
  have hArmed : isArmed other = isArmed uploader := by rw [isArmed, isArmed, hFlush, hBackoff, hTimers]
  refine ⟨fun id hId => ?_, fun hOther => ?_⟩
  · rw [hTimers]
    exact h.pending id (hBackoff ▸ hId)
  · rw [hArmed]
    rcases h.going (hWaits hOther) with hGoing | hGoing
    · exact .inl hGoing
    · exact hAttempted hGoing

theorem pending_clearBackoffTimer (uploader : ActivityUploader E) : Pending (clearBackoffTimer uploader) := nofun

theorem pending_setBackoffTimer (uploader : ActivityUploader E) : Pending (setBackoffTimer uploader) := by
  rintro id hId
  obtain rfl := Option.some.inj hId
  exact List.mem_append_right _ (List.mem_singleton_self _)

variable (options : ActivityUploaderOptions)

theorem pending_makeRoom (bytes : Nat) {queue : List (QueuedEvent E)} (h : Pending uploader) :
    Pending (makeRoom options bytes queue uploader).1 := by
  induction queue generalizing uploader with
  | nil => exact h
  | cons dropped rest ih =>
    unfold makeRoom
    split
    · exact ih (show Pending (shiftOldest dropped rest uploader) from h)
    · exact h

theorem live_enqueue (h : Live uploader) (size : E → Nat) (event : E) : Live (enqueue options size event uploader).1 := by
  unfold enqueue
  split
  · rename_i hClosed
    exact live_of_not_waits h.pending fun hWaits => absurd (hClosed.symm.trans hWaits.isOpen) (by decide)
  · exact live_scheduleFlush options _ (pending_makeRoom options (size event) (show Pending (countEnqueued uploader) from h.pending))

theorem live_setAuthBlocked (h : Live uploader) (blocked : Bool) : Live (setAuthBlocked options blocked uploader).1 := by
  change Live (if _ then _ else if _ then _ else _)
  split
  · rename_i hBlocked
    exact live_of_not_waits (pending_clearBackoffTimer _) fun hWaits => absurd (hBlocked.symm.trans hWaits.unblocked) (by decide)
  · split
    · rename_i hEmpty
      exact live_of_not_waits h.pending fun hWaits => absurd (hEmpty.symm.trans hWaits.queued) (by decide)
    · exact live_scheduleFlush options 0 h.pending

theorem live_doFlush (hPending : Pending uploader) (throwOnFailure : Bool)
    (h : uploader.upload.isSettling = true → Live uploader) : Live (doFlush options throwOnFailure uploader).1 := by
  unfold doFlush
  split
  · rename_i hJoins
    cases hUpload : uploader.upload with
    | idle =>
      rw [hUpload] at hJoins
      exact live_of_not_waits hPending fun hWaits => absurd (hJoins.symm.trans hWaits.queued) (by decide)
    | onWire batch throws =>
      refine live_of_not_waits hPending fun hWaits => ?_
      have hFree := hWaits.free
      rw [hUpload] at hFree
      cases hFree
    | settling rejected => exact h (by rw [hUpload]; rfl)
  · exact live_of_not_waits hPending fun hWaits => nomatch hWaits.free

theorem live_flushTimerFires (h : Live uploader) : Live (flushTimerFires options uploader).1 := by
  unfold flushTimerFires
  split
  · rename_i hFires
    refine live_doFlush options (show Pending (clearFlushTimer uploader) from h.pending) false fun hSettling => ?_
    have hQuiet := (Bool.and_eq_true_iff.mp (Bool.and_eq_true_iff.mp hFires).1).1
    change (!uploader.upload.isSettling) = true at hQuiet
    change uploader.upload.isSettling = true at hSettling
    rw [hSettling] at hQuiet
    cases hQuiet
  · exact h

theorem live_backoffTimerFires (h : Live uploader) (id : Nat) : Live (backoffTimerFires options id uploader).1 := by
  change Live (if _ then _ else _)
  split
  · exact live_scheduleFlush options 0 nofun
  · exact h

theorem live_flushMore (hPending : Pending uploader)
    (h : uploader.backoffMs ≠ 0 → Live uploader) : Live (flushMore options uploader) := by
  unfold flushMore
  split
  · exact live_scheduleFlush options 0 hPending
  · rename_i hNone
    by_cases hBackoff : uploader.backoffMs = 0
    · refine live_of_not_waits hPending fun hWaits => hNone ?_
      rw [hWaits.queued, hBackoff]
      rfl
    · exact h hBackoff

theorem live_settleUpload (h : Live uploader) (accepted : Option Int) : Live (settleUpload options accepted uploader).1 := by
  unfold settleUpload
  split
  · exact live_flushMore options h.pending fun hBackoff => absurd rfl hBackoff
  · rename_i batch throwOnFailure hUpload
    have hGated : Live (backOff (requeue batch throwOnFailure uploader)) := by
      unfold backOff
      split
      · rename_i hBlocked
        exact live_of_not_waits h.pending fun hWaits => absurd (hBlocked.symm.trans hWaits.unblocked) (by decide)
      · exact ⟨pending_setBackoffTimer _, fun _ => .inl (isArmed_of_backoffTimer (pending_setBackoffTimer _) rfl)⟩
    unfold uploadFailed
    dsimp only
    split
    · exact hGated
    · exact live_flushMore options hGated.pending fun _ => hGated
  · exact h
  · exact h

theorem live_enqueueFirst (h : Live uploader) (size : E → Nat) (event : E)
    (hGoing : uploader.closed = true ∨ uploader.authBlocked = true ∨ uploader.upload.inFlight = true ∨ isArmed uploader = true ∨
      isAttempted uploader = true) : Live (enqueueFirst size event uploader).1 := by
  unfold enqueueFirst
  split
  · exact h
  · rename_i hOpen
    refine ⟨h.pending, fun hWaits => ?_⟩
    rcases hGoing with hClosed | hBlocked | hFlight | hGoing
    · exact absurd hClosed hOpen
    · exact absurd (hBlocked.symm.trans hWaits.unblocked) (by decide)
    · exact absurd (hFlight.symm.trans hWaits.free) (by decide)
    · exact hGoing

theorem isAttempted_addContinuation
    (h : isAttempted uploader = true ∨ continuation.attempts uploader.upload = true) :
    isAttempted (addContinuation continuation uploader) = true := by
  change (uploader.continuations ++ [continuation]).any (Continuation.attempts uploader.upload) = true
  rw [List.any_append, Bool.or_eq_true, List.any_cons, List.any_nil, Bool.or_false]
  exact h

theorem live_flush (h : Live uploader) (throwOnFailure : Bool)
    (hRejected : uploader.upload.isRejected = true → Waits uploader → uploader.backoffTimer.isSome = true) :
    Live (flush throwOnFailure uploader).1 := by
  change Live (addContinuation _ (clearFlushTimer uploader))
  refine ⟨h.pending, fun hWaits => ?_⟩
  have hBefore : Waits uploader := ⟨hWaits.isOpen, hWaits.unblocked, hWaits.free, hWaits.queued⟩
  cases hUpload : uploader.upload with
  | idle => exact .inr (isAttempted_addContinuation (.inr (by simp [clearFlushTimer, hUpload, Upload.promised, Continuation.attempts])))
  | onWire batch throws =>
    have hFree := hBefore.free
    rw [hUpload] at hFree
    cases hFree
  | settling rejected =>
    cases rejected with
    | false => exact .inr (isAttempted_addContinuation (.inr (by simp [clearFlushTimer, hUpload, Upload.promised, Continuation.attempts])))
    | true =>
      refine .inl (isArmed_of_backoffTimer h.pending (hRejected ?_ hBefore))
      rw [hUpload]
      rfl

theorem live_clearPromise (h : Live uploader) : Live (clearPromise uploader).1 := by
  unfold clearPromise
  rw [Program.update_apply]
  dsimp only
  split
  · rename_i rejected hUpload
    refine h.congr (fun hWaits => ⟨hWaits.isOpen, hWaits.unblocked, by rw [hUpload]; rfl, hWaits.queued⟩) rfl rfl rfl fun hAttempted => .inr ?_
    obtain ⟨continuation, hContinuation, hAttempts⟩ := List.any_eq_true.mp hAttempted
    rw [hUpload] at hAttempts
    refine List.any_eq_true.mpr ?_
    cases rejected with
    | true => cases continuation <;> cases hAttempts
    | false =>
      cases continuation with
      | flushSettling settle throwOnFailure =>
        refine ⟨.flushSettling .checking throwOnFailure, List.mem_filterMap.mpr ⟨_, hContinuation, ?_⟩, rfl⟩
        cases settle <;> rfl
      | flushReady _ | closeSettling _ | closeReady | closeDraining _ _ => cases hAttempts
  · exact h
  · exact h

/-! ## Continuations -/

theorem live_addContinuation (h : Live uploader) (continuation : Continuation) : Live (addContinuation continuation uploader) :=
  h.congr (fun hWaits => ⟨hWaits.isOpen, hWaits.unblocked, hWaits.free, hWaits.queued⟩) rfl rfl rfl
    fun hAttempted => .inr (isAttempted_addContinuation (.inl hAttempted))

theorem live_dropRemaining (uploader : ActivityUploader E) : Live (dropRemaining uploader).1 := by
  unfold dropRemaining
  split
  · rename_i hBlocked
    exact live_of_not_waits (pending_clearBackoffTimer _) fun hWaits => absurd (hBlocked.symm.trans hWaits.unblocked) (by decide)
  · exact live_of_not_waits (pending_clearBackoffTimer _) fun hWaits => nomatch hWaits.queued

theorem live_drain (h : Live uploader) : Live (drain options uploader).1 := by
  unfold drain
  split
  · exact live_dropRemaining uploader
  · exact live_addContinuation (live_doFlush options h.pending false fun _ => h) _

theorem mem_eraseIdx_or_eq {α : Type} {items : List α} {index : Nat} {item other : α} (h : items[index]? = some item)
    (hOther : other ∈ items) : other = item ∨ other ∈ items.eraseIdx index := by
  obtain ⟨place, hPlace, rfl⟩ := List.getElem_of_mem hOther
  by_cases hSame : place = index
  · subst hSame
    exact .inl (Option.some.inj ((List.getElem?_eq_getElem hPlace).symm.trans h))
  · exact .inr (List.mem_eraseIdx_iff_getElem.mpr ⟨place, hPlace, hSame, rfl⟩)

theorem isAttempted_eraseIdx {index : Nat} (hContinuation : uploader.continuations[index]? = some continuation)
    (h : isAttempted uploader = true) : continuation.attempts uploader.upload = true ∨
      isAttempted { uploader with continuations := uploader.continuations.eraseIdx index } = true := by
  obtain ⟨other, hOther, hAttempts⟩ := List.any_eq_true.mp h
  rcases mem_eraseIdx_or_eq hContinuation hOther with rfl | hLeft
  · exact .inl hAttempts
  · exact .inr (List.any_eq_true.mpr ⟨other, hLeft, hAttempts⟩)

theorem live_eraseIdx {index : Nat} (h : Live uploader)
    (hContinuation : uploader.continuations[index]? = some continuation) (hNot : continuation.attempts uploader.upload = false) :
    Live { uploader with continuations := uploader.continuations.eraseIdx index } := by
  refine h.congr (fun hWaits => ⟨hWaits.isOpen, hWaits.unblocked, hWaits.free, hWaits.queued⟩) rfl rfl rfl fun hAttempted => .inr ?_
  refine (isAttempted_eraseIdx hContinuation hAttempted).resolve_left fun hAttempts => ?_
  rw [hNot] at hAttempts
  cases hAttempts

theorem live_resume (h : Live uploader) (index : Nat) : Live (resume options index uploader).1 := by
  unfold resume
  split
  · exact h
  · rename_i continuation hContinuation
    split
    · rename_i hDue
      cases continuation with
      | flushSettling settle throwOnFailure =>
        obtain rfl : settle = .checking := of_decide_eq_true hDue
        refine h.congr (fun hWaits => ⟨hWaits.isOpen, hWaits.unblocked, hWaits.free, hWaits.queued⟩) rfl rfl rfl fun hAttempted => .inr ?_
        refine isAttempted_addContinuation ?_
        rcases isAttempted_eraseIdx hContinuation hAttempted with hAttempts | hLeft
        · refine .inr ?_
          change Continuation.attempts uploader.upload (if uploader.upload.promised then _ else _) = true
          cases hUpload : uploader.upload with
          | idle => rfl
          | onWire batch throws =>
            rw [hUpload] at hAttempts
            cases hAttempts
          | settling rejected =>
            rw [hUpload] at hAttempts
            cases rejected with
            | false => rfl
            | true => cases hAttempts
        · exact .inl hLeft
      | flushReady throwOnFailure =>
        have hPending : Pending { uploader with continuations := uploader.continuations.eraseIdx index } := h.pending
        refine live_doFlush options hPending throwOnFailure fun hSettling => live_eraseIdx h hContinuation ?_
        change uploader.upload.isSettling = true at hSettling
        cases hUpload : uploader.upload with
        | idle =>
          rw [hUpload] at hSettling
          cases hSettling
        | onWire _ _ => rfl
        | settling rejected => cases rejected <;> rfl
      | closeSettling settle => exact live_addContinuation (live_eraseIdx h hContinuation (Continuation.attempts_closing _ rfl)) _
      | closeReady => exact live_drain options (live_eraseIdx h hContinuation (Continuation.attempts_closing _ rfl))
      | closeDraining settle before =>
        have hLeft := live_eraseIdx h hContinuation (Continuation.attempts_closing _ rfl)
        change Live (if _ then _ else _ : _ × _).1
        split
        · exact live_dropRemaining _
        · exact live_drain options hLeft
    · exact h

end Timers

/-! ## Every run -/

section Runs

variable (options : ActivityUploaderOptions) (size : E → Nat)

/-- What a step must not do: put events at the head beyond the caps or where no timer is armed, queue an event where none is to
be queued, and call `flush` while a rejected upload settles. -/
def Careful (uploader : ActivityUploader E) : Event E → Prop
  | .enqueue _ => uploader.closed = true ∨ 0 < options.maxQueueEvents
  | .enqueueFirst event => uploader.closed = true ∨ WithinCaps options (⟨event, size event⟩ :: uploader.queue) ∧
      (uploader.authBlocked = true ∨ uploader.upload.inFlight = true ∨ isArmed uploader = true ∨ isAttempted uploader = true)
  | .flush _ => uploader.upload.isRejected = true → Waits uploader → uploader.backoffTimer.isSome = true
  | .uploadSettles none => WithinCaps options (uploader.upload.batch ++ uploader.queue)
  | .setAuthBlocked _ | .close | .flushTimerFires | .backoffTimerFires _ | .uploadSettles (some _) | .promiseClears | .resumes _ => True

instance (uploader : ActivityUploader E) : (event : Event E) → Decidable (Careful options size uploader event)
  | .enqueue _ => inferInstanceAs (Decidable (_ ∨ _))
  | .enqueueFirst _ => inferInstanceAs (Decidable (_ ∨ _ ∧ _))
  | .flush _ => inferInstanceAs (Decidable (_ → _ → _))
  | .uploadSettles none => inferInstanceAs (Decidable (WithinCaps _ _))
  | .setAuthBlocked _ | .close | .flushTimerFires | .backoffTimerFires _ | .uploadSettles (some _) | .promiseClears | .resumes _ =>
    inferInstanceAs (Decidable True)

structure Kept (uploader : ActivityUploader E) : Prop where
  packed : Packed options uploader
  live : Live uploader

theorem kept_created : Kept options (E := E) .created :=
  ⟨⟨rfl, Nat.zero_le _, fun hTwo => absurd hTwo (show ¬ 2 ≤ 0 by decide)⟩, nofun, fun hWaits => nomatch hWaits.queued⟩

variable {uploader : ActivityUploader E}

theorem Kept.next (h : Kept options uploader) {event : Event E}
    (hCareful : Careful options size uploader event) : Kept options (next options size uploader event).1 := by
  obtain ⟨hPacked, hLive⟩ := h
  cases event with
  | enqueue event => exact ⟨packed_enqueue hPacked size event hCareful, live_enqueue options hLive size event⟩
  | enqueueFirst event =>
    refine ⟨?_, live_enqueueFirst hLive size event (hCareful.imp_right And.right)⟩
    change Packed options (enqueueFirst size event uploader).1
    unfold enqueueFirst
    split
    · exact hPacked
    · rename_i hOpen
      refine ⟨?_, (hCareful.resolve_left hOpen).1⟩
      change uploader.queueBytes + size event = size event + bytesOf uploader.queue
      rw [hPacked.bytesEq, add_comm]
  | setAuthBlocked blocked =>
    refine ⟨?_, live_setAuthBlocked options hLive blocked⟩
    change Packed options (if _ then _ else if _ then _ else _)
    split
    · exact hPacked.congr rfl rfl
    · split
      · exact hPacked.congr rfl rfl
      · refine Packed.scheduleFlush ?_ 0
        exact hPacked.congr rfl rfl
  | flush throwOnFailure => exact ⟨hPacked.congr rfl rfl, live_flush hLive throwOnFailure hCareful⟩
  | close =>
    change Kept options (if _ then _ else _)
    split
    · exact ⟨hPacked, hLive⟩
    · exact ⟨hPacked.congr rfl rfl, live_of_not_waits nofun fun hWaits => nomatch hWaits.isOpen⟩
  | flushTimerFires =>
    refine ⟨?_, live_flushTimerFires options hLive⟩
    change Packed options (flushTimerFires options uploader).1
    unfold flushTimerFires
    split
    · refine packed_doFlush ?_ false
      exact hPacked.congr rfl rfl
    · exact hPacked
  | backoffTimerFires id =>
    refine ⟨?_, live_backoffTimerFires options hLive id⟩
    change Packed options (if _ then _ else _)
    split
    · refine Packed.scheduleFlush ?_ 0
      exact hPacked.congr rfl rfl
    · exact hPacked
  | uploadSettles accepted =>
    refine ⟨packed_settleUpload hPacked accepted ?_, live_settleUpload options hLive accepted⟩
    rintro rfl
    exact hCareful
  | promiseClears =>
    refine ⟨?_, live_clearPromise hLive⟩
    change Packed options (clearPromise uploader).1
    unfold clearPromise
    rw [Program.update_apply]
    dsimp only
    split
    · exact hPacked.congr rfl rfl
    · exact hPacked
    · exact hPacked
  | resumes index => exact ⟨packed_resume hPacked index, live_resume options hLive index⟩

/-- The uploader goes on between the turns of the event loop, and its queue is within the caps. -/
structure NotWedged (uploader : ActivityUploader E) : Prop where
  armed : isQuiet uploader = true → Waits uploader → isArmed uploader = true
  caps : WithinCaps options uploader.queue

theorem isAttempted_eq_false_of_isQuiet (h : isQuiet uploader = true) : isAttempted uploader = false := by
  obtain ⟨hSettled, hNone⟩ := Bool.and_eq_true_iff.mp h
  refine List.any_eq_false.mpr fun continuation hContinuation hAttempts => ?_
  have hWaiting := List.all_eq_true.mp hNone continuation hContinuation
  cases hUpload : uploader.upload with
  | idle =>
    rw [hUpload] at hAttempts
    cases continuation with
    | flushSettling settle throwOnFailure => cases settle <;> simp_all [Continuation.attempts, Continuation.isDue]
    | flushReady _ => cases hWaiting
    | closeSettling _ | closeReady | closeDraining _ _ => cases hAttempts
  | onWire _ _ =>
    rw [hUpload] at hAttempts
    cases hAttempts
  | settling _ =>
    rw [hUpload] at hSettled
    cases hSettled

theorem Kept.notWedged (h : Kept options uploader) : NotWedged options uploader := by
  refine ⟨fun hQuiet hWaits => ?_, h.packed.caps⟩
  refine (h.live.going hWaits).resolve_right ?_
  rw [isAttempted_eq_false_of_isQuiet hQuiet]
  exact Bool.false_ne_true

/-- Where every step is careful, the uploader is never wedged and never overflows. -/
theorem not_wedged_of_careful {events : List (Event E)}
    (h : ∀ step ∈ run (next options size) .created events, Careful options size step.before step.input) :
    ∀ step ∈ run (next options size) .created events, NotWedged options step.after := by
  intro step hStep
  obtain ⟨hBefore, hSame⟩ := run_invariant_of (P := Kept options)
    (fun uploader event hKept hCareful => hKept.next options size hCareful) (kept_created options) h step hStep
  rw [hSame]
  exact (hBefore.next options size (h step hStep)).notWedged

end Runs

theorem retried_not_wedged : (run (next DEFAULT_OPTIONS fun _ => 1) .created retried).length = 9 ∧
    ∀ step ∈ run (next DEFAULT_OPTIONS fun _ => 1) .created retried, NotWedged DEFAULT_OPTIONS step.after :=
  ⟨by decide, not_wedged_of_careful DEFAULT_OPTIONS (fun _ => 1) (by decide)⟩

def twoQueued : ActivityUploaderOptions := { DEFAULT_OPTIONS with maxQueueEvents := 2 }

theorem marker_overflows : ¬ ∀ (options : ActivityUploaderOptions) (size : Nat → Nat) (events : List (Event Nat)),
    ∀ step ∈ run (next options size) .created events, NotWedged options step.after := by
  intro h
  have hLast := (h twoQueued (fun _ => 1) [.enqueue 1, .enqueue 2, .setAuthBlocked true, .enqueueFirst 3] _
    (List.getLast_mem (List.cons_ne_nil _ _))).caps.events
  exact absurd hLast (by decide)

end CommandSuite.Uploader
