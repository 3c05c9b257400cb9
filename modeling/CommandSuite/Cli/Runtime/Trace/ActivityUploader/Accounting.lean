import CommandSuite.Cli.Runtime.Trace.ActivityUploader
import Mathlib.Algebra.Order.Group.Multiset
import Mathlib.Tactic.Abel

/-! # Order and accounting of the uploader

The events that were delivered, that are on the wire and that are queued are in the order in which they were enqueued, and what
else was enqueued is lost.
-/

namespace CommandSuite.Uploader

open Library Program Transcript

variable {E : Type}

/-! ## What became of the events -/

def acceptedOf (notes : List (Note E)) : List E := notes.flatMap fun
  | .accepted event => [event]
  | .refused _ | .evicted _ | .posted _ | .delivered _ | .failed _ | .droppedAtClose _ => []

def deliveredOf (notes : List (Note E)) : List E := notes.flatMap fun
  | .delivered batch => batch
  | .accepted _ | .refused _ | .evicted _ | .posted _ | .failed _ | .droppedAtClose _ => []

def lostOf (notes : List (Note E)) : List E := notes.flatMap fun
  | .evicted event => [event]
  | .droppedAtClose events => events
  | .accepted _ | .refused _ | .posted _ | .delivered _ | .failed _ => []

@[simp] theorem acceptedOf_append (notes later : List (Note E)) : acceptedOf (notes ++ later) = acceptedOf notes ++ acceptedOf later :=
  List.flatMap_append

@[simp] theorem deliveredOf_append (notes later : List (Note E)) :
    deliveredOf (notes ++ later) = deliveredOf notes ++ deliveredOf later := List.flatMap_append

@[simp] theorem lostOf_append (notes later : List (Note E)) : lostOf (notes ++ later) = lostOf notes ++ lostOf later :=
  List.flatMap_append

def held (uploader : ActivityUploader E) : List E := (uploader.upload.batch ++ uploader.queue).map QueuedEvent.event

/-- `incoming` is accepted and not yet queued. -/
structure Accounts (incoming : List E) (uploader : ActivityUploader E) (notes : List (Note E)) : Prop where
  order : (deliveredOf notes ++ (held uploader ++ incoming)).Sublist (acceptedOf notes)
  balance : (acceptedOf notes : Multiset E) = deliveredOf notes + held uploader + incoming + lostOf notes
  counted : uploader.statEnqueued = (acceptedOf notes).length

variable {incoming : List E} {uploader other : ActivityUploader E}

theorem Accounts.frame {notes later : List (Note E)}
    (h : Accounts incoming uploader notes) (hHeld : held other = held uploader)
    (hCounted : other.statEnqueued = uploader.statEnqueued) (hAccepted : acceptedOf later = []) (hDelivered : deliveredOf later = [])
    (hLost : lostOf later = []) : Accounts incoming other (notes ++ later) := by
  obtain ⟨hOrder, hBalance, hStat⟩ := h
  refine ⟨?_, ?_, ?_⟩
  · rwa [deliveredOf_append, acceptedOf_append, hAccepted, hDelivered, List.append_nil, List.append_nil, hHeld]
  · rwa [deliveredOf_append, acceptedOf_append, lostOf_append, hAccepted, hDelivered, hLost, List.append_nil, List.append_nil,
      List.append_nil, hHeld]
  · rwa [acceptedOf_append, hAccepted, List.append_nil, hCounted]

variable {notes : List (Note E)}

theorem Accounts.congr (h : Accounts incoming uploader notes) (hHeld : held other = held uploader)
    (hCounted : other.statEnqueued = uploader.statEnqueued) : Accounts incoming other notes := by
  have hNone : Accounts incoming other (notes ++ []) := h.frame hHeld hCounted rfl rfl rfl
  rwa [List.append_nil] at hNone

theorem Accounts.of_nil {uploader : ActivityUploader E}
    (h : Accounts incoming uploader notes) : Accounts incoming uploader (notes ++ []) := h.frame rfl rfl rfl rfl rfl

section Steps

variable (options : ActivityUploaderOptions)

theorem scheduleFlush_eq (delayMs : Nat) (uploader : ActivityUploader E) :
    ∃ timer, scheduleFlush options delayMs uploader = { uploader with flushTimer := timer } := by
  unfold scheduleFlush
  split
  · exact ⟨uploader.flushTimer, rfl⟩
  · split
    · exact ⟨uploader.flushTimer, rfl⟩
    · exact ⟨some delayMs, rfl⟩

variable {uploader : ActivityUploader E} {notes : List (Note E)}

theorem Accounts.scheduleFlush {incoming : List E} (h : Accounts incoming uploader notes) (delayMs : Nat) : Accounts incoming (scheduleFlush options delayMs uploader) notes := by
  obtain ⟨timer, hTimer⟩ := scheduleFlush_eq options delayMs uploader
  rw [hTimer]
  exact h.congr rfl rfl

theorem Accounts.flushMore {incoming : List E} (h : Accounts incoming uploader notes) : Accounts incoming (flushMore options uploader) notes := by
  unfold Uploader.flushMore
  split
  · exact h.scheduleFlush options 0
  · exact h

/-! ## Queueing -/

theorem Accounts.accept (h : Accounts [] uploader notes) (event : E) :
    Accounts [event] (countEnqueued uploader) (notes ++ [.accepted event]) := by
  obtain ⟨hOrder, hBalance, hCounted⟩ := h
  have hAccepted : acceptedOf (notes ++ [.accepted event]) = acceptedOf notes ++ [event] := acceptedOf_append notes _
  have hDelivered : deliveredOf (notes ++ [.accepted event]) = deliveredOf notes := (deliveredOf_append notes _).trans (List.append_nil _)
  have hLost : lostOf (notes ++ [.accepted event]) = lostOf notes := (lostOf_append notes _).trans (List.append_nil _)
  rw [List.append_nil] at hOrder
  refine ⟨?_, ?_, ?_⟩
  · rw [hAccepted, hDelivered, ← List.append_assoc]
    exact hOrder.append_right [event]
  · rw [hAccepted, hDelivered, hLost, ← Multiset.coe_add, hBalance, Multiset.coe_nil]
    change _ = (deliveredOf notes : Multiset E) + held uploader + _ + _
    abel
  · rw [hAccepted, List.length_append, ← hCounted]
    rfl

theorem Accounts.evict {incoming : List E} {dropped : QueuedEvent E}
    {rest : List (QueuedEvent E)} (h : Accounts incoming uploader notes) (hQueue : uploader.queue = dropped :: rest) :
    Accounts incoming (shiftOldest dropped rest uploader) (notes ++ [.evicted dropped.event]) := by
  have hHeld : held uploader = uploader.upload.batch.map QueuedEvent.event ++ ([dropped.event] ++ rest.map QueuedEvent.event) := by
    rw [held, hQueue, List.map_append, List.map_cons, List.singleton_append]
  have hRest : held (shiftOldest dropped rest uploader) = uploader.upload.batch.map QueuedEvent.event ++ rest.map QueuedEvent.event :=
    List.map_append
  have hAccepted : acceptedOf (notes ++ [.evicted dropped.event]) = acceptedOf notes :=
    (acceptedOf_append notes _).trans (List.append_nil _)
  have hDelivered : deliveredOf (notes ++ [.evicted dropped.event]) = deliveredOf notes :=
    (deliveredOf_append notes _).trans (List.append_nil _)
  have hLost : lostOf (notes ++ [.evicted dropped.event]) = lostOf notes ++ [dropped.event] := lostOf_append notes _
  obtain ⟨hOrder, hBalance, hCounted⟩ := h
  rw [hHeld] at hOrder hBalance
  refine ⟨?_, ?_, ?_⟩
  · rw [hAccepted, hDelivered, hRest]
    refine List.Sublist.trans (List.Sublist.append_left (List.Sublist.append_right ?_ _) _) hOrder
    exact List.Sublist.append_left (List.sublist_append_right _ _) _
  · rw [hAccepted, hDelivered, hLost, hRest, hBalance]
    simp only [← Multiset.coe_add]
    abel
  · rw [hAccepted]
    exact hCounted

theorem accounts_makeRoom {incoming : List E} (bytes : Nat) {queue : List (QueuedEvent E)}
    (h : Accounts incoming uploader notes) (hQueue : uploader.queue = queue) :
    Accounts incoming (makeRoom options bytes queue uploader).1 (notes ++ (makeRoom options bytes queue uploader).2) := by
  induction queue generalizing uploader notes with
  | nil => exact h.of_nil
  | cons dropped rest ih =>
    unfold makeRoom
    split
    · have hRest := ih (h.evict hQueue) rfl
      rw [List.append_assoc] at hRest
      exact hRest
    · exact h.of_nil

theorem Accounts.push {q : QueuedEvent E}
    (h : Accounts [q.event] uploader notes) : Accounts [] (push q uploader) notes := by
  have hHeld : held (Uploader.push q uploader) = held uploader ++ [q.event] := by
    change (uploader.upload.batch ++ (uploader.queue ++ [q])).map QueuedEvent.event = _
    rw [← List.append_assoc, List.map_append]
    rfl
  obtain ⟨hOrder, hBalance, hCounted⟩ := h
  refine ⟨?_, ?_, hCounted⟩
  · rw [hHeld, List.append_nil]
    exact hOrder
  · rw [hHeld, hBalance, ← Multiset.coe_add, Multiset.coe_nil]
    abel

theorem accounts_enqueue (size : E → Nat) (event : E) : Extends (Accounts []) (enqueue options size event) := by
  intro uploader notes h
  unfold enqueue
  split
  · exact h.frame rfl rfl rfl rfl rfl
  · have hRoom := accounts_makeRoom options (size event) (h.accept event) rfl
    rw [List.append_assoc] at hRoom
    change Accounts [] (scheduleFlush options (flushDelay options (push _ _)) (push _ _)) (notes ++ ([] ++ ([_] ++ (_ ++ ([] ++ [])))))
    rw [List.nil_append, List.nil_append, List.append_nil]
    exact (Accounts.push (q := ⟨event, size event⟩) hRoom).scheduleFlush options _

theorem accounts_setAuthBlocked (blocked : Bool) : Extends (Accounts (E := E) []) (setAuthBlocked options blocked) := by
  refine extends_update fun uploader notes h => ?_
  have hBlocked : Accounts [] { uploader with authBlocked := blocked } notes := h.congr rfl rfl
  dsimp only
  split
  · exact hBlocked.congr rfl rfl
  · split
    · exact hBlocked
    · exact hBlocked.scheduleFlush options 0

/-! ## Flushing -/

theorem takeBatch_append (taken bytes : Nat) (queue : List (QueuedEvent E)) :
    (takeBatch options taken bytes queue).1 ++ (takeBatch options taken bytes queue).2 = queue := by
  induction queue generalizing taken bytes with
  | nil => rfl
  | cons first rest ih =>
    unfold takeBatch
    split
    · exact congrArg (first :: ·) (ih _ _)
    · rfl

theorem accounts_doFlush (throwOnFailure : Bool) : Extends (Accounts (E := E) []) (doFlush options throwOnFailure) := by
  intro uploader notes h
  unfold doFlush
  split
  · exact h.of_nil
  · rename_i hFree
    have hIdle : uploader.upload.batch = [] := by
      cases hUpload : uploader.upload with
      | idle => rfl
      | onWire batch throwOnFailure => simp [hUpload, Upload.promised] at hFree
      | settling rejected => rfl
    refine h.frame ?_ rfl rfl rfl rfl
    change ((takeBatch options 0 0 uploader.queue).1 ++ (takeBatch options 0 0 uploader.queue).2).map _ = held uploader
    rw [takeBatch_append, held, hIdle, List.nil_append]

theorem accounts_settleUpload (accepted : Option Int) : Extends (Accounts (E := E) []) (settleUpload options accepted) := by
  intro uploader notes h
  unfold settleUpload
  split
  · rename_i batch throwOnFailure accepted hUpload
    obtain ⟨hOrder, hBalance, hCounted⟩ := h
    have hHeld : held uploader = batch.map QueuedEvent.event ++ uploader.queue.map QueuedEvent.event := by
      rw [held, hUpload]
      exact List.map_append
    have hDelivered : deliveredOf (notes ++ [.delivered (batch.map QueuedEvent.event)]) =
        deliveredOf notes ++ batch.map QueuedEvent.event :=
      (deliveredOf_append notes _).trans (congrArg _ (List.append_nil _))
    have hAccepted : acceptedOf (notes ++ [.delivered (batch.map QueuedEvent.event)]) = acceptedOf notes :=
      (acceptedOf_append notes _).trans (List.append_nil _)
    have hLost : lostOf (notes ++ [.delivered (batch.map QueuedEvent.event)]) = lostOf notes :=
      (lostOf_append notes _).trans (List.append_nil _)
    have hSettled : Accounts [] (succeeded accepted uploader) (notes ++ [.delivered (batch.map QueuedEvent.event)]) := by
      refine ⟨?_, ?_, ?_⟩
      · rw [hAccepted, hDelivered, List.append_nil, List.append_assoc]
        rw [hHeld, List.append_nil] at hOrder
        exact hOrder
      · rw [hAccepted, hDelivered, hLost, hBalance, hHeld]
        change _ = _ + (uploader.queue.map QueuedEvent.event : Multiset E) + _ + _
        simp only [← Multiset.coe_add]
        abel
      · rw [hAccepted]
        exact hCounted
    exact hSettled.flushMore options
  · rename_i batch throwOnFailure hUpload
    have hRequeued : Accounts [] (requeue batch throwOnFailure uploader) notes := by
      refine h.congr ?_ rfl
      rw [held, held, hUpload]
      rfl
    have hGated : Accounts [] (backOff (requeue batch throwOnFailure uploader)) notes := by
      unfold backOff
      split
      · exact hRequeued
      · exact hRequeued.congr rfl rfl
    refine Accounts.frame (?_ : Accounts [] _ notes) rfl rfl rfl rfl rfl
    unfold uploadFailed
    dsimp only
    split
    · exact hGated
    · exact hGated.flushMore options
  · exact h.of_nil
  · exact h.of_nil

/-! ## Continuations -/

theorem accounts_dropRemaining : Extends (Accounts (E := E) []) dropRemaining := by
  intro uploader notes h
  unfold dropRemaining
  split
  · exact h.frame rfl rfl rfl rfl rfl
  · obtain ⟨hOrder, hBalance, hCounted⟩ := h
    have hHeld : held uploader = uploader.upload.batch.map QueuedEvent.event ++ uploader.queue.map QueuedEvent.event := List.map_append
    have hKept : ∀ emptied : ActivityUploader E, emptied.upload = uploader.upload → emptied.queue = [] →
        held emptied = uploader.upload.batch.map QueuedEvent.event := by
      intro emptied hUpload hQueue
      rw [held, hUpload, hQueue, List.append_nil]
    have hEmptied := hKept (clearBackoffTimer { uploader with
      statDropped := uploader.statDropped + uploader.queue.length
      queue := []
      queueBytes := 0 }) rfl rfl
    rw [hHeld] at hOrder hBalance
    have hAccepted : acceptedOf (notes ++ [.droppedAtClose (uploader.queue.map QueuedEvent.event)]) = acceptedOf notes :=
      (acceptedOf_append notes _).trans (List.append_nil _)
    have hDelivered : deliveredOf (notes ++ [.droppedAtClose (uploader.queue.map QueuedEvent.event)]) = deliveredOf notes :=
      (deliveredOf_append notes _).trans (List.append_nil _)
    have hLost : lostOf (notes ++ [.droppedAtClose (uploader.queue.map QueuedEvent.event)]) =
        lostOf notes ++ uploader.queue.map QueuedEvent.event :=
      (lostOf_append notes _).trans (congrArg _ (List.append_nil _))
    refine ⟨?_, ?_, ?_⟩
    · rw [hAccepted, hDelivered, hEmptied, List.append_nil]
      rw [List.append_nil] at hOrder
      exact (List.Sublist.append_left (List.sublist_append_left _ _) _).trans hOrder
    · rw [hAccepted, hDelivered, hLost, hEmptied, hBalance]
      simp only [← Multiset.coe_add]
      abel
    · rw [hAccepted]
      exact hCounted

theorem accounts_drain : Extends (Accounts (E := E) []) (drain options) := by
  intro uploader notes h
  unfold drain
  split
  · exact accounts_dropRemaining uploader notes h
  · refine (accounts_doFlush options false).andThen (extends_update fun _ _ hJoined => ?_) uploader notes h
    exact hJoined.congr rfl rfl

theorem accounts_perform (continuation : Continuation) : Extends (Accounts (E := E) []) (continuation.perform options) := by
  intro uploader notes h
  cases continuation with
  | flushSettling settle throwOnFailure => exact h.frame rfl rfl rfl rfl rfl
  | flushReady throwOnFailure => exact accounts_doFlush options throwOnFailure uploader notes h
  | closeSettling settle => exact h.frame rfl rfl rfl rfl rfl
  | closeReady => exact accounts_drain options uploader notes h
  | closeDraining settle before =>
    change Accounts [] (if _ then _ else _ : _ × _).1 (notes ++ (if _ then _ else _ : _ × _).2)
    split
    · exact accounts_dropRemaining uploader notes h
    · exact accounts_drain options uploader notes h

theorem accounts_resume (index : Nat) : Extends (Accounts (E := E) []) (resume options index) := by
  intro uploader notes h
  unfold resume
  split
  · exact h.of_nil
  · rename_i continuation hContinuation
    split
    · exact accounts_perform options continuation _ notes (h.congr rfl rfl)
    · exact h.of_nil

theorem accounts_action (size : E → Nat) {event : Event E} (h : ∀ marker, event ≠ .enqueueFirst marker) :
    Extends (Accounts []) (event.action options size) := by
  cases event with
  | enqueue event => exact accounts_enqueue options size event
  | enqueueFirst marker => exact absurd rfl (h marker)
  | setAuthBlocked blocked => exact accounts_setAuthBlocked options blocked
  | flush throwOnFailure => exact extends_update fun _ _ h => h.congr rfl rfl
  | close =>
    refine extends_update fun uploader notes h => ?_
    split
    · exact h
    · exact h.congr rfl rfl
  | flushTimerFires =>
    intro uploader notes h
    change Accounts [] (flushTimerFires options uploader).1 (notes ++ (flushTimerFires options uploader).2)
    unfold flushTimerFires
    split
    · exact accounts_doFlush options false _ notes (h.congr rfl rfl)
    · exact h.of_nil
  | backoffTimerFires id =>
    refine extends_update fun uploader notes h => ?_
    split
    · refine Accounts.scheduleFlush options ?_ 0
      exact h.congr rfl rfl
    · exact h
  | uploadSettles accepted => exact accounts_settleUpload options accepted
  | promiseClears =>
    refine extends_update fun uploader notes h => ?_
    split
    · rename_i hUpload
      refine h.congr ?_ rfl
      rw [held, held, hUpload]
      rfl
    · exact h
    · exact h
  | resumes index => exact accounts_resume options index

end Steps

/-! ## Every run -/

section Runs

variable (options : ActivityUploaderOptions) (size : E → Nat)

def after (events : List (Event E)) : ActivityUploader E := final (next options size) .created events

def notesOf (events : List (Event E)) : List (Note E) := (run (next options size) .created events).flatMap Step.output

theorem accounts_run {events : List (Event E)} (h : ∀ event ∈ events, ∀ marker, event ≠ .enqueueFirst marker) :
    Accounts [] (after options size events) (notesOf options size events) := by
  have hCreated : Accounts [] (.created : ActivityUploader E) [] := ⟨.slnil, rfl, rfl⟩
  refine final_history_of (fun uploader notes event hEvent hBefore => ?_) hCreated h
  exact accounts_action options size hEvent uploader notes hBefore

/-- What is delivered keeps the order in which it was enqueued, and every event is in one place. -/
theorem order_and_accounting (events : List (Event E)) (h : ∀ event ∈ events, ∀ marker, event ≠ .enqueueFirst marker) :
    (deliveredOf (notesOf options size events) ++ held (after options size events)).Sublist (acceptedOf (notesOf options size events)) ∧
      (acceptedOf (notesOf options size events)).Perm (deliveredOf (notesOf options size events) ++
        lostOf (notesOf options size events) ++ held (after options size events)) ∧
      ((acceptedOf (notesOf options size events)).Nodup → (deliveredOf (notesOf options size events)).Nodup) ∧
      (after options size events).statEnqueued = (deliveredOf (notesOf options size events)).length +
        (lostOf (notesOf options size events)).length + (after options size events).queue.length +
        (after options size events).upload.batch.length := by
  obtain ⟨hOrder, hBalance, hCounted⟩ := accounts_run options size h
  rw [List.append_nil] at hOrder
  have hPerm : (acceptedOf (notesOf options size events)).Perm (deliveredOf (notesOf options size events) ++
      lostOf (notesOf options size events) ++ held (after options size events)) := by
    refine Multiset.coe_eq_coe.mp (hBalance.trans ?_)
    rw [Multiset.coe_nil, ← Multiset.coe_add, ← Multiset.coe_add]
    abel
  refine ⟨hOrder, hPerm, fun hNodup => (hNodup.sublist hOrder).of_append_left, ?_⟩
  rw [hCounted, hPerm.length_eq, held]
  simp only [List.length_append, List.length_map]
  omega

end Runs

def retried : List (Event Nat) :=
  [.enqueue 1, .flushTimerFires, .enqueue 2, .uploadSettles none, .promiseClears, .backoffTimerFires 0, .flushTimerFires,
    .uploadSettles (some 2), .promiseClears]

theorem retried_in_order : deliveredOf (notesOf DEFAULT_OPTIONS (fun _ => 1) retried) = [1, 2] ∧
    (after DEFAULT_OPTIONS (fun _ => 1) retried).statEnqueued = (deliveredOf (notesOf DEFAULT_OPTIONS (fun _ => 1) retried)).length +
      (lostOf (notesOf DEFAULT_OPTIONS (fun _ => 1) retried)).length + (after DEFAULT_OPTIONS (fun _ => 1) retried).queue.length +
      (after DEFAULT_OPTIONS (fun _ => 1) retried).upload.batch.length :=
  ⟨by decide, (order_and_accounting DEFAULT_OPTIONS (fun _ => 1) retried (by simp [retried])).2.2.2⟩

end CommandSuite.Uploader
