import CommandSuite.Core.Notifications.Windows

/-! # What calls leave alone

A receipt changes, and its delivery gets into the queue, only where a dispatch or a flush has it.
-/

namespace CommandSuite.Notifications

open Library Table Store

/-- What `listStrandedDebounce` selects. -/
abbrev DeliveryRecord.Debouncing (record : DeliveryRecord) : Prop :=
  record.status = .pending ∧ record.statusReason = some "debouncing"

def Stranded (store : Store) (id : String) : Prop := ∃ record, store.deliveries.find id = some record ∧ record.Debouncing

def queued (store : Store) : List String := store.pending.rows.flatMap PendingRecord.deliveryIds

structure Leaves (touched : Prop) (id : String) (before after : Store) : Prop where
  receipt : ∀ record, after.deliveries.find id = some record → ∃ old, before.deliveries.find id = some old ∧
    (record.Debouncing → old.Debouncing) ∧ (touched ∨ record = old)
  queue : id ∈ queued after → touched ∨ id ∈ queued before

section Stores

variable {touched more : Prop} {id : String} {before between after store : Store}

theorem Leaves.refl (store : Store) : Leaves touched id store store :=
  ⟨fun record hRecord => ⟨record, hRecord, fun h => h, .inr rfl⟩, .inr⟩

theorem Leaves.trans (hFirst : Leaves touched id before between) (hSecond : Leaves touched id between after) :
    Leaves touched id before after := by
  refine ⟨fun record hRecord => ?_, fun hId => ?_⟩
  · obtain ⟨middle, hMiddle, hDebouncing, hSame⟩ := hSecond.receipt record hRecord
    obtain ⟨old, hOld, hOldDebouncing, hOldSame⟩ := hFirst.receipt middle hMiddle
    refine ⟨old, hOld, fun h => hOldDebouncing (hDebouncing h), ?_⟩
    rcases hSame with hTouched | rfl
    · exact .inl hTouched
    · exact hOldSame
  · exact (hSecond.queue hId).elim .inl hFirst.queue

theorem Leaves.mono (h : Leaves touched id before after) (hMore : touched → more) : Leaves more id before after := by
  refine ⟨fun record hRecord => ?_, fun hId => (h.queue hId).imp_left hMore⟩
  obtain ⟨old, hOld, hDebouncing, hSame⟩ := h.receipt record hRecord
  exact ⟨old, hOld, hDebouncing, hSame.imp_left hMore⟩

theorem Leaves.stranded (h : Leaves touched id before after) (hStranded : Stranded after id) : Stranded before id := by
  obtain ⟨record, hRecord, hDebouncing⟩ := hStranded
  obtain ⟨old, hOld, hBefore, _⟩ := h.receipt record hRecord
  exact ⟨old, hOld, hBefore hDebouncing⟩

theorem Leaves.of_less (hReceipt : ∀ record, after.deliveries.find id = some record → before.deliveries.find id = some record)
    (hQueue : ∀ row ∈ after.pending.rows, ∃ old ∈ before.pending.rows, row.deliveryIds ⊆ old.deliveryIds) :
    Leaves touched id before after := by
  refine ⟨fun record hRecord => ⟨record, hReceipt record hRecord, fun h => h, .inr rfl⟩, fun hId => .inr ?_⟩
  obtain ⟨row, hRow, hMem⟩ := List.mem_flatMap.mp hId
  obtain ⟨old, hOld, hSubset⟩ := hQueue row hRow
  exact List.mem_flatMap.mpr ⟨old, hOld, hSubset hMem⟩

theorem Leaves.foldl {α : Type} {step : Store → α → Store} {as : List α} (hStep : ∀ a ∈ as, ∀ store, Leaves touched id store (step store a))
    (store : Store) : Leaves touched id store (as.foldl step store) := by
  induction as generalizing store with
  | nil => exact .refl store
  | cons a as ih =>
    obtain ⟨hFirst, hRest⟩ := List.forall_mem_cons.mp hStep
    exact (hFirst store).trans (ih hRest (step store a))

theorem leaves_deletePending (store : Store) (ids : List Nat) : Leaves touched id store (store.deletePending ids) :=
  .of_less (fun _ hRecord => hRecord) fun row hRow => ⟨row, (List.mem_filter.mp hRow).1, List.Subset.refl _⟩

theorem leaves_delete (store : Store) (endpointId : String) : Leaves touched id store (store.delete endpointId) := by
  refine .of_less (fun record hRecord => ?_) fun row hRow => ⟨row, (List.mem_filter.mp hRow).1, List.Subset.refl _⟩
  rw [Store.delete, find_delete] at hRecord
  exact (Option.filter_eq_some_iff.mp hRecord).1

theorem leaves_put (store : Store) (endpoint : NotificationEndpoint) : Leaves touched id store (store.put endpoint) := by
  unfold put
  split <;> exact .of_less (fun _ hRecord => hRecord) fun row hRow => ⟨row, hRow, List.Subset.refl _⟩

theorem leaves_insertPending (store : Store) {row : PendingRecord} (hRow : id ∈ row.deliveryIds → touched) :
    Leaves touched id store (store.insertPending row) := by
  refine ⟨fun record hRecord => ⟨record, hRecord, fun h => h, .inr rfl⟩, fun hId => ?_⟩
  obtain ⟨other, hOther, hMem⟩ := List.mem_flatMap.mp hId
  rw [insertPending, rows_insertOrIgnore] at hOther
  split at hOther
  · rcases List.mem_append.mp hOther with hOld | hNew
    · exact .inr (List.mem_flatMap.mpr ⟨other, hOld, hMem⟩)
    · rw [List.mem_singleton.mp hNew] at hMem
      exact .inl (hRow hMem)
  · exact .inr (List.mem_flatMap.mpr ⟨other, hOther, hMem⟩)

theorem leaves_insertDelivery {record : DeliveryRecord} (hInsert : store.insertDelivery record = some after) (hOther : record.id ≠ id) :
    Leaves touched id store after := by
  rw [insertDelivery_eq_some hInsert]
  refine .of_less (fun other hFind => ?_) fun row hRow => ?_
  · rw [trimDeliveries, evict, find_delete] at hFind
    have hInserted := (Option.filter_eq_some_iff.mp hFind).1
    rw [inserted, find_insertOrIgnore, if_neg hOther, Option.or_none] at hInserted
    exact hInserted
  · obtain ⟨old, hOld, _, hSubset, _⟩ := mem_pending_evict hRow
    exact ⟨old, hOld, hSubset⟩

/-! ### Updates -/

def DeliveryPatch.Calm (patch : DeliveryPatch) : Prop := ∀ old : DeliveryRecord, (patch.apply old).Debouncing → old.Debouncing

variable {patch : DeliveryPatch}

theorem DeliveryPatch.Calm.of_status {status : NotificationDeliveryStatus} (hStatus : patch.status = some status)
    (hSettled : status ≠ .pending) : patch.Calm := by
  rintro old ⟨hPending, _⟩
  rw [DeliveryPatch.apply, hStatus] at hPending
  exact absurd hPending hSettled

variable {other : String}

theorem leaves_patchDelivery (store : Store) (hCalm : patch.Calm) (hOther : other = id → touched) :
    Leaves touched id store (store.patchDelivery other patch) := by
  refine ⟨fun record hRecord => ?_, .inr⟩
  rw [find_patchDelivery] at hRecord
  obtain ⟨old, hOld, rfl⟩ := Option.map_eq_some_iff.mp hRecord
  have hKey : old.id = id := key_of_find hOld
  refine ⟨old, hOld, ?_, ?_⟩
  · split
    · exact hCalm old
    · exact fun h => h
  · split
    · rename_i hSame
      exact .inl (hOther (hSame.symm.trans hKey))
    · exact .inr rfl

theorem leaves_updateDelivery (hUpdate : store.updateDelivery other patch = some after)
    (hCalm : patch.Calm) (hOther : other = id → touched) : Leaves touched id store after := by
  unfold updateDelivery at hUpdate
  split at hUpdate
  · cases hUpdate
  · cases hUpdate
    exact leaves_patchDelivery store hCalm hOther

theorem leaves_getD_updateDelivery (store : Store) (hCalm : patch.Calm)
    (hOther : other = id → touched) : Leaves touched id store ((store.updateDelivery other patch).getD store) := by
  cases hUpdate : store.updateDelivery other patch with
  | none => exact .refl store
  | some after => exact leaves_updateDelivery hUpdate hCalm hOther

theorem leaves_expire (store : Store) {row : PendingRecord} (hRow : id ∈ row.deliveryIds → touched) :
    Leaves touched id store (expire store row) := by
  refine .foldl (fun delivery hDelivery store => ?_) store
  split
  · refine leaves_getD_updateDelivery store (.of_status rfl (by decide)) fun hSame => hRow ?_
    rw [← hSame]
    exact (Stable.mem_deliveriesByIds hDelivery).2
  · exact .refl store

theorem leaves_onMessageDisposition (store : Store) (frame : MessageDispositionFrame)
    (hMessages : ∀ record, store.deliveries.find id = some record → record.messageIds ≠ [] → touched) :
    Leaves touched id store (onMessageDisposition store frame) := by
  have hEach : ∀ patch : DeliveryPatch, patch.Calm → Leaves touched id store ((store.findDeliveriesByMessageId frame.messageId).foldl
      (fun store delivery => (store.updateDelivery delivery.id patch).getD store) store) := by
    refine fun patch hCalm => .foldl (fun delivery hDelivery store => leaves_getD_updateDelivery store hCalm fun hSame => ?_) store
    obtain ⟨hStored, hMem⟩ := (mem_select _ _ _).mp hDelivery
    refine hMessages delivery ((find_eq_some_iff _ _ _).mpr ⟨hStored, hSame⟩) ?_
    exact List.ne_nil_of_mem (of_decide_eq_true hMem)
  unfold onMessageDisposition
  cases frame.disposition with
  | acted => exact hEach _ (.of_status rfl (by decide))
  | handled => exact hEach _ (.of_status rfl (by decide))
  | refused => exact hEach _ (.of_status rfl (by decide))
  | accepted => exact .refl store
  | deferred => exact .refl store

end Stores

/-! ## Dispatches -/

def Job.Noted (job : Job) : Prop := ∀ note ∈ job.notes, ' ' ∈ note.toList

def Process.Noted : Process → Prop
  | .pushing flight => flight.job.Noted
  | .ready _ => True

def Job.ids (job : Job) : List String := job.newest.map DeliveryRecord.id

def Task.touches : Task → List String
  | .flush _ _ rows => rows.flatMap PendingRecord.deliveryIds
  | .recover _ _ | .pause => []

def Process.touches : Process → List String
  | .pushing flight => flight.job.ids ++ flight.tasks.flatMap Task.touches
  | .ready tasks => tasks.flatMap Task.touches

/-- A segment leaves a delivery alone, unless it is touched, and so will what it goes on with. -/
structure Segment.Leaves (touched : Prop) (id : String) (store : Store) (segment : Segment) : Prop where
  store : Notifications.Leaves touched id store segment.store
  touches : ∀ process ∈ segment.process, id ∈ process.touches → touched
  noted : ∀ process ∈ segment.process, process.Noted

section Jobs

variable {touched : Prop} {id : String} {world : World} {store after : Store} {job job' : Job} {tasks : List Task}
  {group : List DeliveryRecord}

theorem space_mem_intercalate {notes : List String} (hNotes : notes ≠ []) (hSpace : ∀ note ∈ notes, ' ' ∈ note.toList)
    (separator : String) : ' ' ∈ (separator.intercalate notes).toList := by
  cases notes with
  | nil => exact absurd rfl hNotes
  | cons note notes =>
    have hFirst := hSpace note List.mem_cons_self
    cases notes with
    | nil =>
      rw [String.intercalate_singleton]
      exact hFirst
    | cons next notes =>
      rw [String.intercalate_cons_cons, String.toList_append, String.toList_append]
      exact List.mem_append_left _ (List.mem_append_left _ hFirst)

theorem space_mem_sentence {first : String} (hFirst : ' ' ∈ first.toList) (middle last : String) :
    ' ' ∈ (first ++ middle ++ last).toList := by
  rw [String.toList_append, String.toList_append]
  exact List.mem_append_left _ (List.mem_append_left _ hFirst)

theorem not_debouncing_patch (hNoted : job.Noted) (now : Int) (index : Nat) (delivery old : DeliveryRecord) :
    ¬((job.patch now index delivery).apply old).Debouncing := by
  rintro ⟨_, hReason⟩
  change (if job.notes.isEmpty then none else some ("; ".intercalate job.notes)) = some "debouncing" at hReason
  split at hReason
  · cases hReason
  · rename_i hNotes
    have hSpace := space_mem_intercalate (fun hNone => hNotes (List.isEmpty_iff.mpr hNone)) hNoted "; "
    rw [Option.some.inj hReason] at hSpace
    exact absurd hSpace (by decide)

theorem calm_patch (hNoted : job.Noted) (now : Int) (index : Nat) (delivery : DeliveryRecord) : (job.patch now index delivery).Calm :=
  fun old h => absurd h (not_debouncing_patch hNoted now index delivery old)

theorem Job.Noted.note (hNoted : job.Noted) {text : String} (hText : ' ' ∈ text.toList) : (job.note text).Noted := by
  intro note hNote
  rcases List.mem_append.mp hNote with hOld | hNew
  · exact hNoted note hOld
  · rw [List.mem_singleton.mp hNew]
    exact hText

theorem Job.Noted.receive (hNoted : job.Noted) (target : NotificationTarget) (outcome : Outcome) : (job.receive target outcome).Noted := by
  unfold Job.receive
  split
  · exact hNoted
  · exact hNoted.note (space_mem_sentence (by decide) _ _)
  · exact hNoted.note (space_mem_sentence (by decide) _ _)

theorem newest_receive (job : Job) (target : NotificationTarget) (outcome : Outcome) : (job.receive target outcome).newest = job.newest := by
  unfold Job.receive
  split <;> rfl

theorem leaves_turn {target : NotificationTarget} (hTurn : job.turn world store target = .passes after job') (hNoted : job.Noted)
    (hJob : id ∈ job.ids → touched) : Leaves touched id store after ∧ job'.Noted := by
  have hHeld : ∀ (name : String) (reason : PendingReason) (waitMs : Int),
      Leaves touched id store (store.insertPending (job.pendingRow name reason world.now waitMs)) :=
    fun name reason waitMs => leaves_insertPending store hJob
  unfold Job.turn at hTurn
  split at hTurn
  · cases hTurn
  · cases hTurn
    exact ⟨.refl store, hNoted⟩
  · unfold Job.memberTurn at hTurn
    dsimp only at hTurn
    split at hTurn
    · cases hTurn
      exact ⟨.refl store, hNoted.note (space_mem_sentence (by decide) _ _)⟩
    · split at hTurn
      · split at hTurn <;> cases hTurn
        · exact ⟨hHeld _ _ _, hNoted.note (space_mem_sentence (by decide) _ _)⟩
        · exact ⟨.refl store, hNoted.note (space_mem_sentence (by decide) _ _)⟩
      · split at hTurn <;> cases hTurn
        exact ⟨hHeld _ _ _, hNoted.note (space_mem_sentence (by decide) _ _)⟩

theorem leaves_update (hNoted : job.Noted) (now : Int) (index : Nat) (hGroup : id ∈ group.map DeliveryRecord.id → touched) (store : Store) :
    Leaves touched id store (job.update now index group store).1 := by
  induction group generalizing index store with
  | nil => exact .refl store
  | cons delivery group ih =>
    rw [Job.update]
    split
    · exact .refl store
    · rename_i updated hUpdate
      have hFirst : Leaves touched id store updated := leaves_updateDelivery hUpdate (calm_patch hNoted now index delivery) fun hSame =>
        hGroup (List.mem_cons.mpr (.inl hSame.symm))
      exact hFirst.trans (ih (index + 1) (fun hMem => hGroup (List.mem_cons_of_mem _ hMem)) updated)

theorem Segment.Leaves.goesOn (hLeaves : Notifications.Leaves touched id store after) (hTasks : id ∈ tasks.flatMap Task.touches → touched)
    (pushes : List Push) (flushed : List PendingRecord) : Segment.Leaves touched id store ⟨after, goesOn tasks, pushes, flushed⟩ := by
  refine ⟨hLeaves, fun process hProcess hTouches => ?_, fun process hProcess => ?_⟩ <;>
    unfold Notifications.goesOn at hProcess <;> dsimp only at hProcess <;> split at hProcess <;> cases hProcess
  · exact hTasks hTouches
  · trivial

theorem Segment.Leaves.following {segment : Segment} (hFirst : Notifications.Leaves touched id store after)
    (h : Segment.Leaves touched id after segment) : Segment.Leaves touched id store segment :=
  ⟨hFirst.trans h.store, h.touches, h.noted⟩

theorem leaves_deliver (targets : List NotificationTarget) (store : Store) (hNoted : job.Noted) (hJob : id ∈ job.ids → touched)
    (hTasks : id ∈ tasks.flatMap Task.touches → touched) : Segment.Leaves touched id store (deliver world tasks targets store job) := by
  induction targets generalizing store job with
  | nil =>
    have hUpdate := leaves_update hNoted world.now 0 hJob store
    rw [deliver]
    split <;> rename_i after hSame <;> rw [show after = (job.update world.now 0 job.newest store).1 by rw [hSame]]
    · exact .goesOn hUpdate hTasks [] []
    · exact ⟨hUpdate, by rintro _ ⟨⟩, by rintro _ ⟨⟩⟩
  | cons target targets ih =>
    rw [deliver]
    split
    · refine ⟨.refl store, fun process hProcess hTouches => ?_, fun process hProcess => ?_⟩ <;> cases hProcess
      · exact (List.mem_append.mp hTouches).elim hJob hTasks
      · exact hNoted
    · rename_i middle next hTurn
      obtain ⟨hFirst, hNext⟩ : Notifications.Leaves touched id store middle ∧ next.Noted := leaves_turn hTurn hNoted hJob
      have hSame := (passed_turn hTurn).2.newest
      exact .following hFirst (ih middle hNext fun hMem => hJob (by rw [Job.ids, ← hSame]; exact hMem))

theorem leaves_dispatchGroup (store : Store) (endpoint : NotificationEndpoint) (options : DispatchOptions)
    (hGroup : id ∈ group.map DeliveryRecord.id → touched) (hTasks : id ∈ tasks.flatMap Task.touches → touched) :
    Segment.Leaves touched id store (dispatchGroup world store endpoint group options tasks) := by
  unfold dispatchGroup
  split
  · exact .goesOn (.refl store) hTasks [] []
  · rename_i primary older hNewest
    refine leaves_deliver _ store (fun _ hNote => nomatch hNote) (fun hMem => hGroup ?_) hTasks
    have hSame : Job.newest ⟨endpoint, primary, older, options, world.now, [], 0, [], 0⟩ = newestFirst group := hNewest.symm
    rw [Job.ids, hSame] at hMem
    obtain ⟨delivery, hDelivery, hId⟩ := List.mem_map.mp hMem
    exact List.mem_map.mpr ⟨delivery, mem_newestFirst.mp hDelivery, hId⟩

theorem leaves_runTasks (tasks : List Task) (store : Store) (hTasks : id ∈ tasks.flatMap Task.touches → touched)
    (hPassed : id ∈ passed (taskMarks tasks store) → touched) : Segment.Leaves touched id store (runTasks world tasks store) := by
  induction tasks generalizing store with
  | nil => exact ⟨.refl store, fun _ hProcess => (nomatch hProcess), fun _ hProcess => (nomatch hProcess)⟩
  | cons task tasks ih =>
    have hRest : id ∈ tasks.flatMap Task.touches → touched := fun hMem => hTasks (List.mem_append_right _ hMem)
    cases task with
    | pause => exact .goesOn (.refl store) hRest [] []
    | flush memberName endpointId rows =>
      have hDeleted : Notifications.Leaves touched id store (store.deletePending (rows.map PendingRecord.id)) :=
        leaves_deletePending store _
      rw [runTasks]
      rw [taskMarks] at hPassed
      dsimp only at hPassed ⊢
      split
      · rename_i hNone
        rw [hNone] at hPassed
        exact .following hDeleted (ih _ hRest hPassed)
      · rename_i hSome hEmpty
        rw [hSome, hEmpty] at hPassed
        exact .following hDeleted (ih _ hRest hPassed)
      · rename_i endpoint delivery deliveries hEndpoint hRead
        have hDispatch : Segment.Leaves touched id (store.deletePending (rows.map PendingRecord.id))
            (dispatchGroup world (store.deletePending (rows.map PendingRecord.id)) endpoint (delivery :: deliveries)
              (flushOptions world.now memberName rows) tasks) := by
          refine leaves_dispatchGroup _ endpoint _ (fun hMem => hTasks (List.mem_append_left _ ?_)) hRest
          obtain ⟨other, hOther, rfl⟩ := List.mem_map.mp hMem
          rw [← hRead] at hOther
          exact List.mem_eraseDups.mp (Stable.mem_deliveriesByIds hOther).2
        exact .following hDeleted ⟨hDispatch.store, hDispatch.touches, hDispatch.noted⟩
    | recover endpointId group =>
      rw [runTasks]
      rw [taskMarks] at hPassed
      split
      · rename_i hNone
        rw [hNone] at hPassed
        exact ih store hRest fun hMem => hPassed (List.mem_append_right _ hMem)
      · rename_i endpoint hEndpoint
        refine leaves_dispatchGroup store endpoint _ (fun hMem => hPassed (List.mem_append_left _ ?_)) hRest
        change id ∈ (Mark.recovers endpointId group store).group.map DeliveryRecord.id
        rw [Mark.group_recovers hEndpoint]
        exact hMem

end Jobs

end CommandSuite.Notifications
