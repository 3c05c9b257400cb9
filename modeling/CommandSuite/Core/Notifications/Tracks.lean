import CommandSuite.Core.Notifications.Recoveries
import CommandSuite.Library.Assignment

/-! # The track of a delivery

A delivery waits in one buffer, or in one group that a recovery has not reached, and is left alone there until it is
dispatched.
-/

namespace CommandSuite.Notifications

open Library Store Table

def groupIds (groups : Groups) : List String := groups.flatMap fun group => group.2.map DeliveryRecord.id

def buffered (buffers : Table DebounceBuffer.key) : List String := buffers.rows.flatMap DebounceBuffer.deliveryIds

def Desk.waiting (desk : Desk) : List String := buffered desk.buffers ++ groupIds (unreached desk.processes)

structure Apart (id : String) (desk : Desk) : Prop where
  queue : id ∉ queued desk.store
  processes : ∀ process ∈ desk.processes, id ∉ process.touches
  messages : ∀ record, desk.store.deliveries.find id = some record → record.messageIds = []

def InFlight (id : String) (processes : List Process) : Prop := ∃ flight, .pushing flight ∈ processes ∧ id ∈ flight.job.ids

abbrev Touched (id : String) (desk : Desk) (marks : List Mark) : Prop := ¬Apart id desk ∨ id ∈ passed marks

structure Track (id : String) (desk : Desk) (past : List Mark) : Prop where
  once : (passed past).count id + desk.waiting.count id ≤ 1
  apart : id ∈ desk.waiting ∨ (Stranded desk.store id ∧ id ∉ passed past) → Apart id desk
  stays : id ∈ desk.waiting → ∀ record, desk.store.deliveries.find id = some record → record.Debouncing
  flight : Stranded desk.store id → id ∈ passed past → InFlight id desk.processes
  accounted : ∀ endpoint, .enters endpoint id ∈ past → id ∈ passed past ∨ id ∈ desk.waiting ∨ ∃ mark ∈ past, mark.Misses id

structure Moves (id : String) (desk : Desk) (marks : List Mark) (after : Desk) : Prop where
  leaves : Leaves (Touched id desk marks) id desk.store after.store
  touches : ∀ process ∈ after.processes, id ∈ process.touches → Touched id desk marks
  count : (passed marks).count id + after.waiting.count id ≤ desk.waiting.count id
  kept : id ∈ desk.waiting → id ∈ passed marks ∨ id ∈ after.waiting ∨ ∃ mark ∈ marks, mark.Misses id
  flight : Stranded after.store id → InFlight id desk.processes ∨ id ∈ passed marks → InFlight id after.processes
  enters : ∀ endpoint, .enters endpoint id ∉ marks

theorem passed_append (first second : List Mark) : passed (first ++ second) = passed first ++ passed second := List.flatMap_append

section Tracks

variable {id : String} {desk after : Desk} {past marks : List Mark}

theorem Apart.moves (h : Apart id desk) (hNot : id ∉ passed marks) (hMoves : Moves id desk marks after) : Apart id after := by
  have hAlone : ¬Touched id desk marks := fun hTouched => hTouched.elim (fun hNotApart => hNotApart h) hNot
  refine ⟨fun hQueued => ?_, fun process hProcess hTouches => hAlone (hMoves.touches process hProcess hTouches), fun record hRecord => ?_⟩
  · exact (hMoves.leaves.queue hQueued).elim hAlone h.queue
  · obtain ⟨old, hOld, _, hTouched | rfl⟩ := hMoves.leaves.receipt record hRecord
    · exact absurd hTouched hAlone
    · exact h.messages record hOld

theorem Moves.waited (h : Moves id desk marks after) (hOnce : (passed past).count id + desk.waiting.count id ≤ 1)
    (hWaits : id ∈ after.waiting) : id ∈ desk.waiting ∧ id ∉ passed marks := by
  have hCount := h.count
  have hAfter : 0 < after.waiting.count id := List.count_pos_iff.mpr hWaits
  constructor
  · apply List.count_pos_iff.mp
    omega
  · intro hPassed
    have hMarks : 0 < (passed marks).count id := List.count_pos_iff.mpr hPassed
    omega

theorem Track.moves (h : Track id desk past) (hMoves : Moves id desk marks after) : Track id after (past ++ marks) := by
  refine ⟨?_, fun hWhy => ?_, fun hWaits record hRecord => ?_, fun hStranded hPassed => ?_, fun endpoint hEnters => ?_⟩
  · have hOnce := h.once
    have hCount := hMoves.count
    rw [passed_append, List.count_append]
    omega
  · rcases hWhy with hWaits | ⟨hStranded, hNot⟩
    · obtain ⟨hBefore, hNot⟩ := hMoves.waited h.once hWaits
      exact (h.apart (.inl hBefore)).moves hNot hMoves
    · rw [passed_append, List.mem_append, not_or] at hNot
      exact (h.apart (.inr ⟨hMoves.leaves.stranded hStranded, hNot.1⟩)).moves hNot.2 hMoves
  · obtain ⟨hBefore, hNot⟩ := hMoves.waited h.once hWaits
    obtain ⟨old, hOld, _, hTouched | rfl⟩ := hMoves.leaves.receipt record hRecord
    · exact absurd (hTouched.resolve_right hNot) (not_not.mpr (h.apart (.inl hBefore)))
    · exact h.stays hBefore record hOld
  · rw [passed_append, List.mem_append] at hPassed
    exact hMoves.flight hStranded (hPassed.imp_left (h.flight (hMoves.leaves.stranded hStranded)))
  · rcases List.mem_append.mp hEnters with hBefore | hNow
    · rw [passed_append, List.mem_append]
      rcases h.accounted endpoint hBefore with hPassed | hWaits | ⟨mark, hMark, hMisses⟩
      · exact .inl (.inl hPassed)
      · rcases hMoves.kept hWaits with hPassed | hStill | ⟨mark, hMark, hMisses⟩
        · exact .inl (.inr hPassed)
        · exact .inr (.inl hStill)
        · exact .inr (.inr ⟨mark, List.mem_append_right _ hMark, hMisses⟩)
      · exact .inr (.inr ⟨mark, List.mem_append_left _ hMark, hMisses⟩)
    · exact absurd hNow (hMoves.enters endpoint)

end Tracks

/-! ## New deliveries -/

structure Newborn (id : String) (desk : Desk) (past : List Mark) : Prop where
  apart : Apart id desk
  waits : id ∉ desk.waiting
  unpassed : id ∉ passed past
  enters : ∀ endpoint, .enters endpoint id ∉ past
  stranded : ¬Stranded desk.store id

structure Unborn (id : String) (desk : Desk) (past : List Mark) : Prop extends Newborn id desk past where
  receipt : desk.store.deliveries.find id = none

section Newborns

variable {id : String} {desk after : Desk} {past marks : List Mark} {store : Store} {endpoint : NotificationEndpoint}

theorem Newborn.track (h : Newborn id desk past) : Track id desk past := by
  have hPassed : (passed past).count id = 0 := List.count_eq_zero.mpr h.unpassed
  have hWaits : desk.waiting.count id = 0 := List.count_eq_zero.mpr h.waits
  refine ⟨by omega, fun _ => h.apart, fun hWaiting => absurd hWaiting h.waits, fun hStranded => absurd hStranded h.stranded, ?_⟩
  exact fun endpoint hEnters => absurd hEnters (h.enters endpoint)

theorem Unborn.moves (h : Unborn id desk past) (hMoves : Moves id desk marks after) : Unborn id after (past ++ marks) := by
  have hCount := hMoves.count
  rw [List.count_eq_zero.mpr h.waits] at hCount
  have hNot : id ∉ passed marks := by
    apply List.count_eq_zero.mp
    omega
  have hReceipt : after.store.deliveries.find id = none := by
    by_contra hSome
    obtain ⟨record, hRecord⟩ := Option.ne_none_iff_exists'.mp hSome
    obtain ⟨old, hOld, _⟩ := hMoves.leaves.receipt record hRecord
    rw [h.receipt] at hOld
    cases hOld
  refine ⟨⟨h.apart.moves hNot hMoves, ?_, ?_, fun endpoint hEnters => ?_, ?_⟩, hReceipt⟩
  · apply List.count_eq_zero.mp
    omega
  · rw [passed_append, List.mem_append, not_or]
    exact ⟨h.unpassed, hNot⟩
  · exact (List.mem_append.mp hEnters).elim (h.enters endpoint) (hMoves.enters endpoint)
  · exact fun hStranded => h.stranded (hMoves.leaves.stranded hStranded)

theorem Unborn.insertDelivery (h : Unborn id desk past) {record : DeliveryRecord} (hId : record.id = id) (hBlank : record.messageIds = [])
    (hCalm : ¬record.Debouncing) (hInsert : desk.store.insertDelivery record = some store) :
    Newborn id { desk with store := store } past := by
  have hFind : ∀ other, store.deliveries.find id = some other → other = record := by
    intro other hOther
    rw [insertDelivery_eq_some hInsert, trimDeliveries, evict, find_delete] at hOther
    have hInserted := (Option.filter_eq_some_iff.mp hOther).1
    rw [inserted, find_insertOrIgnore, h.receipt, if_pos hId, Option.none_or] at hInserted
    exact (Option.some.inj hInserted).symm
  refine ⟨⟨fun hQueued => ?_, h.apart.processes, fun other hOther => ?_⟩, h.waits, h.unpassed, h.enters, ?_⟩
  · rw [insertDelivery_eq_some hInsert] at hQueued
    obtain ⟨row, hRow, hMem⟩ := List.mem_flatMap.mp hQueued
    obtain ⟨old, hOld, _, hSubset, _⟩ := mem_pending_evict hRow
    exact h.apart.queue (List.mem_flatMap.mpr ⟨old, hOld, hSubset hMem⟩)
  · rw [hFind other hOther]
    exact hBlank
  · rintro ⟨other, hOther, hDebouncing⟩
    rw [hFind other hOther] at hDebouncing
    exact hCalm hDebouncing

theorem Newborn.updateDelivery (h : Newborn id desk past) {patch : DeliveryPatch} (hCalm : patch.Calm) (hBlank : patch.addMessageIds = [])
    (hUpdate : desk.store.updateDelivery id patch = some store) : Newborn id { desk with store := store } past := by
  have hLeaves : Leaves True id desk.store store := leaves_updateDelivery hUpdate hCalm fun _ => trivial
  unfold Store.updateDelivery at hUpdate
  split at hUpdate
  · cases hUpdate
  · cases hUpdate
    refine ⟨⟨h.apart.queue, h.apart.processes, fun record hRecord => ?_⟩, h.waits, h.unpassed, h.enters, fun hStranded => ?_⟩
    · rw [find_patchDelivery] at hRecord
      obtain ⟨old, hOld, rfl⟩ := Option.map_eq_some_iff.mp hRecord
      have hMessages := h.apart.messages old hOld
      split
      · rw [DeliveryPatch.apply]
        dsimp only
        rw [hMessages, hBlank]
        rfl
      · exact hMessages
    · exact h.stranded (hLeaves.stranded hStranded)

theorem buffered_bufferDelivery (now : Int) (endpointId id : String) (buffers : Table DebounceBuffer.key) :
    (buffered (bufferDelivery now endpointId id buffers)).Perm (id :: buffered buffers) := by
  unfold bufferDelivery
  split
  · rename_i hNone
    rw [buffered, rows_insertOrIgnore, if_pos hNone, List.flatMap_append]
    exact List.perm_append_singleton id _
  · rename_i buffer hBuffer
    have hUpdated := (perm_update hBuffer (fun buffer : DebounceBuffer => { buffer with deliveryIds := buffer.deliveryIds ++ [id] })
      fun _ => rfl).flatMap_right DebounceBuffer.deliveryIds
    have hBefore := (perm_delete hBuffer).flatMap_right DebounceBuffer.deliveryIds
    refine hUpdated.trans (List.Perm.trans ?_ (hBefore.symm.cons id))
    rw [List.flatMap_cons, List.flatMap_cons]
    rw [List.append_assoc]
    exact List.perm_middle

theorem Newborn.enter (h : Newborn id desk past) (now : Int)
    (hStore : store = (desk.store.updateDelivery id ⟨some .pending, some (some "debouncing"), [], none, none⟩).getD desk.store) :
    Track id { desk with store := store, buffers := bufferDelivery now endpoint.id id desk.buffers } (past ++ [.enters endpoint id]) := by
  have hPassed : passed (past ++ [.enters endpoint id]) = passed past := by
    rw [passed_append]
    exact List.append_nil _
  have hCount : (buffered (bufferDelivery now endpoint.id id desk.buffers) ++ groupIds (unreached desk.processes)).count id = 1 := by
    have hNone := List.count_eq_zero.mpr h.waits
    rw [Desk.waiting, List.count_append] at hNone
    rw [List.count_append, (buffered_bufferDelivery now endpoint.id id desk.buffers).count_eq, List.count_cons_self]
    omega
  have hReceipt : ∀ record, store.deliveries.find id = some record → record.Debouncing ∧ record.messageIds = [] := by
    intro record hRecord
    rw [hStore, Store.updateDelivery] at hRecord
    cases hFind : desk.store.getDeliveryRecord id with
    | none =>
      rw [hFind] at hRecord
      exact absurd hRecord (by rw [Option.getD_none, ← getDeliveryRecord, hFind]; rintro ⟨⟩)
    | some old =>
      rw [hFind, Option.getD_some, find_patchDelivery, ← getDeliveryRecord, hFind] at hRecord
      cases hRecord
      have hKey : old.id = id := key_of_find hFind
      dsimp only
      rw [if_pos hKey]
      exact ⟨⟨rfl, rfl⟩, (List.append_nil _).trans (h.apart.messages old hFind)⟩
  have hQueue : queued store = queued desk.store := by
    rw [hStore, Store.updateDelivery]
    split <;> rfl
  refine ⟨?_, fun _ => ⟨?_, h.apart.processes, fun record hRecord => (hReceipt record hRecord).2⟩,
    fun _ record hRecord => (hReceipt record hRecord).1, fun _ hMem => ?_, fun _ _ => .inr (.inl ?_)⟩
  · rw [hPassed, List.count_eq_zero.mpr h.unpassed, Nat.zero_add]
    exact hCount.le
  · rw [hQueue]
    exact h.apart.queue
  · rw [hPassed] at hMem
    exact absurd hMem h.unpassed
  · exact List.count_pos_iff.mp (hCount.symm ▸ Nat.one_pos)

theorem Newborn.dispatch {segment : Segment} (h : Newborn id desk past) (hLeaves : Leaves True id desk.store segment.store)
    (hUnreached : unreached segment.process.toList = []) : Track id (desk.spawn segment).1 past := by
  have hStranded : ¬Stranded segment.store id := fun hAfter => h.stranded (hLeaves.stranded hAfter)
  have hWaits : id ∉ (desk.spawn segment).1.waiting := by
    change id ∉ buffered desk.buffers ++ groupIds ((desk.processes ++ segment.process.toList).flatMap Process.recoveries)
    rw [List.flatMap_append, ← unreached, ← unreached, hUnreached, List.append_nil]
    exact h.waits
  refine ⟨?_, fun hWhy => ?_, fun hWaiting => absurd hWaiting hWaits, fun hAfter => absurd hAfter hStranded, ?_⟩
  · rw [List.count_eq_zero.mpr h.unpassed, List.count_eq_zero.mpr hWaits]
    exact Nat.zero_le _
  · exact hWhy.elim (fun hWaiting => absurd hWaiting hWaits) fun hAfter => absurd hAfter.1 hStranded
  · exact fun endpoint hEnters => absurd hEnters (h.enters endpoint)

end Newborns

end CommandSuite.Notifications
