import CommandSuite.Core.Notifications.Dispatcher
import CommandSuite.Core.Notifications.Receipts

/-! # Flushes of the queue

A flush reads rows of the queue and takes them one endpoint at a time, with pushes in between. A row that it has read and
not yet taken can be read again.
-/

namespace CommandSuite.Notifications

open Library Transcript Table

def Task.taken : Task → List Nat
  | .flush _ _ rows => rows.map PendingRecord.id
  | .recover _ _ | .pause => []

def Process.tasks : Process → List Task
  | .pushing flight => flight.tasks
  | .ready tasks => tasks

def Process.held (process : Process) : List Nat := process.tasks.flatMap Task.taken

def held (processes : List Process) : List Nat := processes.flatMap Process.held

def Event.reads (world : World) (store : Store) : Event → List PendingRecord
  | .onWake memberName => store.pendingForMember memberName none
  | .onActivityReport memberName working => if working then [] else store.pendingForMember memberName (some .busy)
  | .sweep => (store.pendingDue world.now).filter fun row => row.reason = .busy
  | _ => []

/-- No row that is read is held by a flush that has not reached it. -/
def Unheld (desk : Desk) (call : World × Event) : Prop := ∀ row ∈ call.2.reads call.1 desk.store, row.id ∉ held desk.processes

/-! ## The queue only gets rows with new ids -/

structure Queues (before after : Store) : Prop where
  next : before.nextPending ≤ after.nextPending
  rows : ∀ row ∈ after.pending.rows, (∃ old ∈ before.pending.rows, row = { old with deliveryIds := row.deliveryIds }) ∨
    (before.nextPending ≤ row.id ∧ row.id < after.nextPending)

section Queues

variable {before between after : Store}

theorem Queues.refl (store : Store) : Queues store store := ⟨le_rfl, fun row hRow => .inl ⟨row, hRow, rfl⟩⟩

theorem Queues.trans (hFirst : Queues before between) (hSecond : Queues between after) : Queues before after := by
  refine ⟨hFirst.next.trans hSecond.next, fun row hRow => ?_⟩
  rcases hSecond.rows row hRow with ⟨middle, hMiddle, hSame⟩ | ⟨hLower, hUpper⟩
  · rcases hFirst.rows middle hMiddle with ⟨old, hOld, hOldSame⟩ | ⟨hLower, hUpper⟩
    · refine .inl ⟨old, hOld, ?_⟩
      rw [hSame, hOldSame]
    · have hId : row.id = middle.id := by rw [hSame]
      rw [← hId] at hLower hUpper
      exact .inr ⟨hLower, lt_of_lt_of_le hUpper hSecond.next⟩
  · exact .inr ⟨hFirst.next.trans hLower, hUpper⟩

theorem Queues.of_same (hPending : after.pending = before.pending) (hNext : after.nextPending = before.nextPending) :
    Queues before after := by
  refine ⟨hNext.ge, fun row hRow => .inl ⟨row, ?_, rfl⟩⟩
  rw [← hPending]
  exact hRow

theorem queues_deletePending (store : Store) (ids : List Nat) : Queues store (store.deletePending ids) :=
  ⟨le_rfl, fun row hRow => .inl ⟨row, (List.mem_filter.mp hRow).1, rfl⟩⟩

theorem queues_insertPending (store : Store) (row : PendingRecord) : Queues store (store.insertPending row) := by
  refine ⟨Nat.le_succ _, fun other hOther => ?_⟩
  rw [Store.insertPending, rows_insertOrIgnore] at hOther
  split at hOther
  · rcases List.mem_append.mp hOther with hOld | hNew
    · exact .inl ⟨other, hOld, rfl⟩
    · rw [List.mem_singleton.mp hNew]
      exact .inr ⟨le_rfl, Nat.lt_succ_self _⟩
  · exact .inl ⟨other, hOther, rfl⟩

theorem queues_evict (store : Store) (endpointId : String) (evicted : List String) : Queues store (store.evict endpointId evicted) := by
  refine ⟨le_rfl, fun row hRow => .inl ?_⟩
  obtain ⟨old, hOld, rfl⟩ := List.mem_map.mp hRow
  refine ⟨old, (List.mem_filter.mp hOld).1, ?_⟩
  split <;> rfl

theorem queues_insertDelivery {store after : Store} {record : DeliveryRecord} (h : store.insertDelivery record = some after) :
    Queues store after := by
  have hInserted : Queues store (store.inserted record) := .of_same rfl rfl
  rw [insertDelivery_eq_some h]
  exact hInserted.trans (queues_evict _ _ _)

theorem queues_updateDelivery {store after : Store} {id : String} {patch : DeliveryPatch}
    (h : store.updateDelivery id patch = some after) : Queues store after := by
  unfold Store.updateDelivery at h
  split at h
  · cases h
  · cases h
    exact .of_same rfl rfl

theorem queues_getD_updateDelivery (store : Store) (id : String) (patch : DeliveryPatch) :
    Queues store ((store.updateDelivery id patch).getD store) := by
  cases hUpdate : store.updateDelivery id patch with
  | none => exact .refl store
  | some after => exact queues_updateDelivery hUpdate

theorem queues_foldl {α : Type} {step : Store → α → Store} (hStep : ∀ store a, Queues store (step store a)) (as : List α)
    (store : Store) : Queues store (as.foldl step store) := by
  induction as generalizing store with
  | nil => exact .refl store
  | cons a as ih => exact (hStep store a).trans (ih (step store a))

theorem queues_delete (store : Store) (endpointId : String) : Queues store (store.delete endpointId) :=
  ⟨le_rfl, fun row hRow => .inl ⟨row, (List.mem_filter.mp hRow).1, rfl⟩⟩

theorem queues_put (store : Store) (endpoint : NotificationEndpoint) : Queues store (store.put endpoint) := by
  unfold Store.put
  split <;> exact .of_same rfl rfl

theorem queues_expire (store : Store) (row : PendingRecord) : Queues store (expire store row) := by
  refine queues_foldl (fun store delivery => ?_) _ _
  split
  · exact queues_getD_updateDelivery _ _ _
  · exact .refl store

theorem queues_onMessageDisposition (store : Store) (frame : MessageDispositionFrame) :
    Queues store (onMessageDisposition store frame) := by
  unfold onMessageDisposition
  dsimp only
  split
  · exact .refl store
  · exact queues_foldl (fun _ _ => queues_getD_updateDelivery _ _ _) _ _

theorem queues_update (job : Job) (now : Int) (index : Nat) (deliveries : List DeliveryRecord) (store : Store) :
    Queues store (job.update now index deliveries store).1 := by
  induction deliveries generalizing index store with
  | nil => exact .refl store
  | cons delivery deliveries ih =>
    rw [Job.update]
    split
    · exact .refl store
    · rename_i updated hUpdate
      exact (queues_updateDelivery hUpdate).trans (ih (index + 1) updated)

theorem queues_turn {job job' : Job} {world : World} {store after : Store} {target : NotificationTarget}
    (h : job.turn world store target = .passes after job') : Queues store after := by
  unfold Job.turn at h
  split at h
  · cases h
  · cases h
    exact .refl store
  · unfold Job.memberTurn at h
    dsimp only at h
    split at h
    · cases h
      exact .refl store
    · split at h
      · split at h <;> cases h
        · exact queues_insertPending _ _
        · exact .refl store
      · split at h <;> cases h
        exact queues_insertPending _ _

end Queues

/-! ## What a segment takes -/

def taken (tasks : List Task) : List Nat := tasks.flatMap Task.taken

def Segment.held (segment : Segment) : List Nat := Notifications.held segment.process.toList

def Segment.took (segment : Segment) : List Nat := segment.flushed.map PendingRecord.id

structure Takes (ids : List Nat) (store : Store) (segment : Segment) : Prop where
  queues : Queues store segment.store
  sublist : (segment.took ++ segment.held).Sublist ids
  gone : (∀ id ∈ ids, id < store.nextPending) → ∀ row ∈ segment.store.pending.rows, row.id ∉ segment.took

section Segments

variable {world : World} {tasks : List Task}

theorem held_goesOn (tasks : List Task) : held (goesOn tasks).toList = taken tasks := by
  cases tasks with
  | nil => rfl
  | cons task tasks => exact List.append_nil _

theorem takes_deliver (targets : List NotificationTarget) (store : Store) (job : Job) :
    Queues store (deliver world tasks targets store job).store ∧ (deliver world tasks targets store job).flushed = [] ∧
      (deliver world tasks targets store job).held.Sublist (taken tasks) := by
  induction targets generalizing store job with
  | nil =>
    have hQueues := queues_update job world.now 0 job.newest store
    rw [deliver]
    split
    · rename_i after hUpdate
      rw [hUpdate] at hQueues
      refine ⟨hQueues, rfl, ?_⟩
      rw [Segment.held, held_goesOn]
    · rename_i after hUpdate
      rw [hUpdate] at hQueues
      exact ⟨hQueues, rfl, List.nil_sublist _⟩
  | cons target targets ih =>
    rw [deliver]
    split
    · refine ⟨.refl store, rfl, ?_⟩
      change (taken tasks ++ []).Sublist (taken tasks)
      rw [List.append_nil]
    · rename_i after job' hTurn
      obtain ⟨hQueues, hFlushed, hHeld⟩ := ih after job'
      exact ⟨(queues_turn hTurn).trans hQueues, hFlushed, hHeld⟩

theorem takes_dispatchGroup (store : Store) (endpoint : NotificationEndpoint) (group : List DeliveryRecord)
    (options : DispatchOptions) : Queues store (dispatchGroup world store endpoint group options tasks).store ∧
      (dispatchGroup world store endpoint group options tasks).flushed = [] ∧
      (dispatchGroup world store endpoint group options tasks).held.Sublist (taken tasks) := by
  unfold dispatchGroup
  split
  · refine ⟨.refl store, rfl, ?_⟩
    rw [Segment.held, held_goesOn]
  · exact takes_deliver _ _ _

variable {segment : Segment}

theorem Takes.of_unflushed {ids : List Nat} {store : Store} (hQueues : Queues store segment.store)
    (hFlushed : segment.flushed = []) (hHeld : segment.held.Sublist ids) : Takes ids store segment := by
  refine ⟨hQueues, ?_, fun _ row _ => ?_⟩
  · rw [Segment.took, hFlushed]
    exact hHeld
  · rw [Segment.took, hFlushed]
    exact List.not_mem_nil

theorem Takes.mono {ids more : List Nat} {before store : Store} (h : Takes ids store segment)
    (hBefore : Queues before store) (hMore : ids.Sublist more) : Takes more before segment :=
  ⟨hBefore.trans h.queues, h.sublist.trans hMore, fun hIds => h.gone fun id hId =>
    lt_of_lt_of_le (hIds id (hMore.subset hId)) hBefore.next⟩

theorem takes_runTasks (tasks : List Task) (store : Store) : Takes (taken tasks) store (runTasks world tasks store) := by
  induction tasks generalizing store with
  | nil => exact .of_unflushed (.refl store) rfl (List.nil_sublist _)
  | cons task tasks ih =>
    cases task with
    | pause =>
      refine .of_unflushed (.refl store) rfl ?_
      rw [Segment.held, runTasks, held_goesOn]
      exact List.Sublist.refl _
    | recover endpointId group =>
      rw [runTasks]
      split
      · exact ih store
      · obtain ⟨hQueues, hFlushed, hHeld⟩ := takes_dispatchGroup store _ group .plain
        exact .of_unflushed hQueues hFlushed hHeld
    | flush memberName endpointId rows =>
      have hDeleted := queues_deletePending store (rows.map PendingRecord.id)
      rw [runTasks]
      split
      · exact (ih _).mono hDeleted (List.sublist_append_right _ _)
      · exact (ih _).mono hDeleted (List.sublist_append_right _ _)
      · rename_i endpoint delivery deliveries _ _
        obtain ⟨hQueues, _, hHeld⟩ := takes_dispatchGroup
          (store.deletePending (rows.map PendingRecord.id)) endpoint (delivery :: deliveries)
          (flushOptions world.now memberName rows)
        refine ⟨hDeleted.trans hQueues, List.Sublist.append (List.Sublist.refl _) hHeld, fun hIds row hRow hTook => ?_⟩
        rcases hQueues.rows row hRow with ⟨old, hOld, hSame⟩ | ⟨hLower, _⟩
        · have hKept := (List.mem_filter.mp hOld).2
          rw [Bool.not_eq_true', decide_eq_false_iff_not] at hKept
          rw [hSame] at hTook
          exact hKept hTook
        · have hUpper := hIds row.id (List.mem_append_left _ hTook)
          exact absurd hUpper (not_lt.mpr hLower)

end Segments

/-! ## Calls that read no row -/

structure Idle (desk : Desk) (result : Desk × Output) : Prop where
  queues : Queues desk.store result.1.store
  held : held result.1.processes = held desk.processes
  flushed : result.2.flushed = []

section Idle

variable {content : Content} {world : World} {desk : Desk}

theorem Idle.refl (desk : Desk) : Idle desk (desk, .none) := ⟨.refl _, rfl, rfl⟩

variable {store : Store} {buffers : Table DebounceBuffer.key}

theorem Idle.of_store (hQueues : Queues desk.store store) :
    Idle desk ({ desk with store := store, buffers := buffers }, .none) := ⟨hQueues, rfl, rfl⟩

theorem Idle.after {result : Desk × Output} (hQueues : Queues desk.store store)
    (h : Idle { desk with store := store, buffers := buffers } result) : Idle desk result :=
  ⟨hQueues.trans h.queues, h.held, h.flushed⟩

theorem held_append (first second : List Process) : held (first ++ second) = held first ++ held second := List.flatMap_append

theorem Idle.spawn {segment : Segment} (h : Takes [] desk.store segment) : Idle desk (desk.spawn segment) := by
  have hNone := List.append_eq_nil_iff.mp (List.sublist_nil.mp h.sublist)
  refine ⟨h.queues, ?_, List.map_eq_nil_iff.mp hNone.1⟩
  change Notifications.held (desk.processes ++ segment.process.toList) = _
  rw [held_append]
  exact (congrArg (_ ++ ·) hNone.2).trans (List.append_nil _)

theorem idle_dispatchGroup (endpoint : NotificationEndpoint) (group : List DeliveryRecord) (options : DispatchOptions) :
    Idle desk (desk.spawn (dispatchGroup world desk.store endpoint group options [])) := by
  obtain ⟨hQueues, hFlushed, hHeld⟩ := takes_dispatchGroup desk.store endpoint group options
  exact .spawn (.of_unflushed hQueues hFlushed hHeld)

theorem idle_flushDebounce (endpointId : String) : Idle desk (flushDebounce world desk endpointId) := by
  unfold flushDebounce
  split
  · exact .refl desk
  · dsimp only
    split
    · exact .of_store (.refl _)
    · exact .after (.refl _) (idle_dispatchGroup _ _ _)

theorem idle_debounce (endpoint : NotificationEndpoint) (id : String) : Idle desk (debounce world desk endpoint id) := by
  unfold debounce
  dsimp only
  split
  · exact .of_store (.refl _)
  · rename_i store hUpdate
    split
    · exact .after (queues_updateDelivery hUpdate) (idle_flushDebounce _)
    · exact .of_store (queues_updateDelivery hUpdate)

theorem idle_runPipeline (endpoint : NotificationEndpoint) (delivery : DeliveryRecord) :
    Idle desk (runPipeline content world desk endpoint delivery) := by
  unfold runPipeline
  split
  · exact .of_store (queues_getD_updateDelivery _ _ _)
  · dsimp only
    split
    · exact .refl desk
    · rename_i store hUpdate
      split
      · exact .after (queues_updateDelivery hUpdate) (idle_debounce _ _)
      · exact .after (queues_updateDelivery hUpdate) (idle_dispatchGroup _ _ _)

theorem idle_receipt (record : DeliveryRecord) : Idle desk (desk.receipt record, .none) := by
  refine .of_store ?_
  cases hInsert : desk.store.insertDelivery record with
  | none => exact .refl _
  | some after => exact queues_insertDelivery hInsert

theorem idle_ingest (input : IngestInput) (id : String) : Idle desk (ingest content world desk input id) := by
  unfold ingest
  split
  · split
    · exact .refl desk
    · exact idle_receipt _
  · split
    · exact idle_receipt _
    · split
      · exact .refl desk
      · dsimp only
        split
        · exact .refl desk
        · rename_i store hInsert
          exact .after (queues_insertDelivery hInsert) (idle_runPipeline _ _)

theorem idle_replay (deliveryId id : String) : Idle desk (replay content world desk deliveryId id) := by
  unfold replay
  split
  · exact .refl desk
  · split
    · exact .refl desk
    · split
      · exact .refl desk
      · dsimp only
        split
        · exact .refl desk
        · rename_i store hInsert
          exact .after (queues_insertDelivery hInsert) (idle_runPipeline _ _)

theorem idle_sweepBuffers (buffers : List DebounceBuffer) (desk : Desk) : Idle desk (sweepBuffers world buffers desk) := by
  induction buffers generalizing desk with
  | nil => exact .refl desk
  | cons buffer buffers ih =>
    rw [sweepBuffers]
    have hFirst : ∀ windowMs : Int, Idle desk
        (if world.now - buffer.firstAt ≥ windowMs then flushDebounce world desk buffer.endpointId else (desk, .none)) := by
      intro windowMs
      split
      · exact idle_flushDebounce _
      · exact .refl desk
    have hSecond := fun windowMs : Int => ih
      (if world.now - buffer.firstAt ≥ windowMs then flushDebounce world desk buffer.endpointId else (desk, .none)).1
    refine ⟨(hFirst _).queues.trans (hSecond _).queues, (hSecond _).held.trans (hFirst _).held, ?_⟩
    exact List.append_eq_nil_iff.mpr ⟨(hFirst _).flushed, (hSecond _).flushed⟩

theorem taken_recoverTasks (stranded : List DeliveryRecord) : taken (recoverTasks stranded) = [] := by
  rw [taken, recoverTasks, List.flatMap_map]
  exact List.flatMap_eq_nil_iff.mpr fun _ _ => rfl

theorem idle_recover : Idle desk (desk.spawn (runTasks world (recoverTasks desk.store.listStrandedDebounce) desk.store)) := by
  apply Idle.spawn
  rw [← taken_recoverTasks desk.store.listStrandedDebounce]
  exact takes_runTasks _ _

end Idle

/-! ## No row is taken twice -/

structure Once (past : List Nat) (desk : Desk) : Prop where
  fresh : ∀ row ∈ desk.store.pending.rows, row.id < desk.store.nextPending
  bounded : ∀ id ∈ past ++ held desk.processes, id < desk.store.nextPending
  nodup : (past ++ held desk.processes).Nodup
  gone : ∀ row ∈ desk.store.pending.rows, row.id ∉ past

section Once

variable {past : List Nat} {desk : Desk} {world : World} {row : PendingRecord} {before after : Store}

theorem Queues.fresh (h : Queues before after) (hFresh : ∀ row ∈ before.pending.rows, row.id < before.nextPending)
    (hRow : row ∈ after.pending.rows) : row.id < after.nextPending := by
  rcases h.rows row hRow with ⟨old, hOld, hSame⟩ | ⟨_, hUpper⟩
  · rw [hSame]
    exact lt_of_lt_of_le (hFresh old hOld) h.next
  · exact hUpper

theorem Queues.gone (h : Queues before after) (hGone : ∀ row ∈ before.pending.rows, row.id ∉ past)
    (hBounded : ∀ id ∈ past, id < before.nextPending) (hRow : row ∈ after.pending.rows) : row.id ∉ past := by
  rcases h.rows row hRow with ⟨old, hOld, hSame⟩ | ⟨hLower, _⟩
  · rw [hSame]
    exact hGone old hOld
  · intro hPast
    exact absurd (hBounded row.id hPast) (not_lt.mpr hLower)

theorem Once.of_idle (h : Once past desk) {result : Desk × Output} (hIdle : Idle desk result) :
    Once (past ++ result.2.flushed.map PendingRecord.id) result.1 := by
  rw [hIdle.flushed, List.map_nil, List.append_nil]
  refine ⟨fun row hRow => hIdle.queues.fresh h.fresh hRow, ?_, ?_, fun row hRow => ?_⟩
  · rw [hIdle.held]
    exact fun id hId => lt_of_lt_of_le (h.bounded id hId) hIdle.queues.next
  · rw [hIdle.held]
    exact h.nodup
  · exact hIdle.queues.gone h.gone (fun id hId => h.bounded id (List.mem_append_left _ hId)) hRow

variable {segment : Segment}

theorem Once.spawn (h : Once past desk) {ids : List Nat} (hTakes : Takes ids desk.store segment)
    (hNodup : ids.Nodup) (hIds : ∀ id ∈ ids, id < desk.store.nextPending ∧ id ∉ past ++ held desk.processes) :
    Once (past ++ (desk.spawn segment).2.flushed.map PendingRecord.id) (desk.spawn segment).1 := by
  have hSame : (past ++ segment.took ++ held (desk.processes ++ segment.process.toList)).Perm
      (past ++ held desk.processes ++ (segment.took ++ segment.held)) := by
    rw [held_append, List.append_assoc, List.append_assoc]
    refine List.Perm.append_left past ?_
    rw [← List.append_assoc, ← List.append_assoc]
    exact List.Perm.append_right _ List.perm_append_comm
  have hAll : (past ++ held desk.processes ++ ids).Nodup :=
    List.nodup_append'.mpr ⟨h.nodup, hNodup, fun id hPast hId => (hIds id hId).2 hPast⟩
  have hSub := (List.Sublist.refl (past ++ held desk.processes)).append hTakes.sublist
  refine ⟨fun row hRow => hTakes.queues.fresh h.fresh hRow, fun id hId => ?_, ?_, fun row hRow hPast => ?_⟩
  · refine lt_of_lt_of_le ?_ hTakes.queues.next
    rcases List.mem_append.mp (hSub.subset (hSame.mem_iff.mp hId)) with hOld | hNew
    · exact h.bounded id hOld
    · exact (hIds id hNew).1
  · exact (hSame.nodup_iff).mpr (hAll.sublist hSub)
  · rcases List.mem_append.mp hPast with hOld | hTook
    · exact hTakes.queues.gone h.gone (fun id hId => h.bounded id (List.mem_append_left _ hId)) hRow hOld
    · exact hTakes.gone (fun id hId => (hIds id hId).1) row hRow hTook

theorem Once.resume (h : Once past desk) {index : Nat} {process : Process} (hProcess : desk.processes[index]? = some process)
    (hTakes : Takes process.held desk.store segment) :
    Once (past ++ (desk.resume index segment).2.flushed.map PendingRecord.id) (desk.resume index segment).1 := by
  obtain ⟨hIndex, hAt⟩ := List.getElem?_eq_some_iff.mp hProcess
  have hPerm : (past ++ held (desk.processes.eraseIdx index) ++ process.held).Perm (past ++ held desk.processes) := by
    rw [List.append_assoc]
    refine List.Perm.append_left past (List.perm_append_comm.trans ?_)
    have hSame := (List.getElem_cons_eraseIdx_perm hIndex).flatMap_right Process.held
    rw [List.flatMap_cons, hAt] at hSame
    exact hSame
  have hNodup := List.nodup_append'.mp (hPerm.nodup_iff.mpr h.nodup)
  have hOthers : Once past { desk with processes := desk.processes.eraseIdx index } :=
    ⟨h.fresh, fun id hId => h.bounded id (hPerm.subset (List.mem_append_left _ hId)), hNodup.1, h.gone⟩
  refine hOthers.spawn hTakes hNodup.2.1 fun id hId => ⟨?_, fun hPast => hNodup.2.2 hPast hId⟩
  exact h.bounded id (hPerm.subset (List.mem_append_right _ hId))

/-! ## Reads -/

theorem taken_append (first second : List Task) : taken (first ++ second) = taken first ++ taken second := List.flatMap_append

theorem taken_flushTasks (memberName : String) (rows : List PendingRecord) : taken (flushTasks memberName rows) =
    (rows.map PendingRecord.endpointId).eraseDups.flatMap fun endpointId =>
      (rows.filter fun row => row.endpointId = endpointId).map PendingRecord.id := by
  rw [taken, flushTasks, byEndpoint, List.flatMap_map, List.flatMap_map]
  rfl

variable {rows : List PendingRecord}

theorem nodup_flushTasks (memberName : String) (hRows : (rows.map PendingRecord.id).Nodup) :
    (taken (flushTasks memberName rows)).Nodup := by
  rw [taken_flushTasks]
  refine nodup_groups PendingRecord.endpointId hRows (nodup_eraseDups _) (fun endpointId => ?_)
    fun endpointId id hId => ?_
  · exact hRows.sublist (List.filter_sublist.map _)
  · obtain ⟨row, hRow, rfl⟩ := List.mem_map.mp hId
    obtain ⟨hMem, hSame⟩ := List.mem_filter.mp hRow
    exact ⟨row, hMem, of_decide_eq_true hSame, rfl⟩

variable {memberName : String}

theorem mem_flushTasks {id : Nat} (h : id ∈ taken (flushTasks memberName rows)) : ∃ row ∈ rows, row.id = id := by
  rw [taken_flushTasks] at h
  obtain ⟨_, _, hId⟩ := List.mem_flatMap.mp h
  obtain ⟨row, hRow, hSame⟩ := List.mem_map.mp hId
  exact ⟨row, (List.mem_filter.mp hRow).1, hSame⟩

theorem taken_starvedTasks (starved : List PendingRecord) : taken (starvedTasks starved) =
    (starved.map PendingRecord.memberName).eraseDups.flatMap fun memberName =>
      taken (flushTasks memberName (starved.filter fun row => row.memberName = memberName)) := by
  rw [taken, starvedTasks, List.flatMap_assoc]
  refine congrArg (List.flatMap · _) (funext fun memberName => ?_)
  exact (taken_append _ _).trans (List.append_nil _)

variable {starved : List PendingRecord}

theorem nodup_starvedTasks (hRows : (starved.map PendingRecord.id).Nodup) : (taken (starvedTasks starved)).Nodup := by
  rw [taken_starvedTasks]
  refine nodup_groups PendingRecord.memberName hRows (nodup_eraseDups _) (fun memberName => ?_)
    fun memberName id hId => ?_
  · exact nodup_flushTasks _ (hRows.sublist (List.filter_sublist.map _))
  · obtain ⟨row, hRow, hSame⟩ := mem_flushTasks hId
    obtain ⟨hMem, hMember⟩ := List.mem_filter.mp hRow
    exact ⟨row, hMem, of_decide_eq_true hMember, hSame⟩

theorem mem_starvedTasks {id : Nat} (h : id ∈ taken (starvedTasks starved)) : ∃ row ∈ starved, row.id = id := by
  rw [taken_starvedTasks] at h
  obtain ⟨_, _, hId⟩ := List.mem_flatMap.mp h
  obtain ⟨row, hRow, hSame⟩ := mem_flushTasks hId
  exact ⟨row, (List.mem_filter.mp hRow).1, hSame⟩

theorem nodup_pendingForMember (store : Store) (memberName : String) (reason : Option PendingReason) :
    ((store.pendingForMember memberName reason).map PendingRecord.id).Nodup := by
  have hSorted := (List.perm_insertionSort (fun left right : PendingRecord => left.createdAt ≤ right.createdAt)
    (store.pending.select fun row => row.memberName = memberName && reason.all fun asked => row.reason = asked)).map PendingRecord.id
  exact hSorted.nodup_iff.mpr (store.pending.nodup.sublist (List.filter_sublist.map _))

variable {store : Store} {reason : Option PendingReason}

theorem mem_pendingForMember (h : row ∈ store.pendingForMember memberName reason) : row ∈ store.pending.rows :=
  (List.mem_filter.mp ((List.mem_insertionSort _).mp h)).1

theorem nodup_pendingDue (store : Store) (now : Int) : ((store.pendingDue now).map PendingRecord.id).Nodup := by
  have hSorted := (List.perm_insertionSort (fun left right : PendingRecord => left.deadlineAt ≤ right.deadlineAt)
    (store.pending.select fun row => row.deadlineAt ≤ now)).map PendingRecord.id
  exact hSorted.nodup_iff.mpr (store.pending.nodup.sublist (List.filter_sublist.map _))

theorem mem_pendingDue {now : Int} : row ∈ store.pendingDue now ↔ row ∈ store.pending.rows ∧ row.deadlineAt ≤ now := by
  refine (List.mem_insertionSort _).trans ?_
  rw [mem_select, decide_eq_true_eq]

theorem Once.flushPendingFor (h : Once past desk)
    (hUnheld : ∀ row ∈ desk.store.pendingForMember memberName reason, row.id ∉ held desk.processes) :
    Once (past ++ (flushPendingFor world desk memberName reason).2.flushed.map PendingRecord.id)
      (flushPendingFor world desk memberName reason).1 := by
  refine h.spawn (takes_runTasks _ _) (nodup_flushTasks _ (nodup_pendingForMember _ _ _)) fun id hId => ?_
  obtain ⟨row, hRow, rfl⟩ := mem_flushTasks hId
  have hStored := mem_pendingForMember hRow
  refine ⟨h.fresh row hStored, fun hPast => ?_⟩
  rcases List.mem_append.mp hPast with hTaken | hHeld
  · exact h.gone row hStored hTaken
  · exact hUnheld row hRow hHeld

theorem Once.sweep (h : Once past desk) (hUnheld : Unheld desk (world, .sweep)) :
    Once (past ++ (sweep world desk).2.flushed.map PendingRecord.id) (sweep world desk).1 := by
  have hIdle : Idle desk (sweepBuffers world desk.buffers.rows desk) := idle_sweepBuffers _ _
  have hSwept := h.of_idle hIdle
  unfold Notifications.sweep
  generalize hResult : sweepBuffers world desk.buffers.rows desk = swept at hIdle hSwept ⊢
  dsimp only
  rw [Output.append, hIdle.flushed, List.nil_append]
  rw [hIdle.flushed, List.map_nil, List.append_nil] at hSwept
  let due := swept.1.store.pendingDue world.now
  let lapsed := due.filter fun row => row.reason = .offline
  let starved := due.filter fun row => row.reason = .busy
  let store := lapsed.foldl expire (swept.1.store.deletePending (lapsed.map PendingRecord.id))
  have hQueues : Queues swept.1.store store := (queues_deletePending _ _).trans (queues_foldl queues_expire _ _)
  have hSpent : Idle swept.1 ({ swept.1 with store := store }, .none) := .of_store hQueues
  have hStore := hSwept.of_idle hSpent
  rw [Output.none, List.map_nil, List.append_nil] at hStore
  have hNodup : (starved.map PendingRecord.id).Nodup := (nodup_pendingDue _ _).sublist (List.filter_sublist.map _)
  refine hStore.spawn (takes_runTasks (starvedTasks starved) store) (nodup_starvedTasks hNodup) fun id hId => ?_
  obtain ⟨row, hRow, rfl⟩ := mem_starvedTasks hId
  obtain ⟨hDue, hBusy⟩ := List.mem_filter.mp hRow
  obtain ⟨hStored, hDeadline⟩ := mem_pendingDue.mp hDue
  refine ⟨lt_of_lt_of_le (hSwept.fresh row hStored) hQueues.next, fun hPast => ?_⟩
  rcases List.mem_append.mp hPast with hTaken | hHeld
  · exact hSwept.gone row hStored hTaken
  · change row.id ∈ held swept.1.processes at hHeld
    rw [hIdle.held] at hHeld
    -- a row that was there before the buffers were flushed is one the condition speaks about
    rcases hIdle.queues.rows row hStored with ⟨old, hOld, hSame⟩ | ⟨hLower, _⟩
    · rw [hSame] at hHeld hBusy hDeadline
      exact hUnheld old (List.mem_filter.mpr ⟨mem_pendingDue.mpr ⟨hOld, hDeadline⟩, hBusy⟩) hHeld
    · exact absurd (h.bounded row.id (List.mem_append_right _ hHeld)) (not_lt.mpr hLower)

theorem Once.perform (h : Once past desk) (content : Content) {call : World × Event} (hUnheld : Unheld desk call) :
    Once (past ++ (serve content desk call).2.flushed.map PendingRecord.id) (serve content desk call).1 := by
  obtain ⟨world, event⟩ := call
  cases event with
  | ingest input id => exact h.of_idle (idle_ingest input id)
  | replay deliveryId id => exact h.of_idle (idle_replay deliveryId id)
  | pushed index outcome =>
    rw [serve, Event.perform]
    split
    · rename_i flight hProcess
      obtain ⟨hQueues, hFlushed, hHeld⟩ := takes_deliver flight.targets desk.store
        (flight.job.receive flight.target outcome)
      exact h.resume hProcess (.of_unflushed hQueues hFlushed hHeld)
    · exact h.of_idle (.refl desk)
  | proceed index =>
    rw [serve, Event.perform]
    split
    · rename_i tasks hProcess
      exact h.resume hProcess (takes_runTasks tasks desk.store)
    · exact h.of_idle (.refl desk)
  | timer endpointId => exact h.of_idle (idle_flushDebounce endpointId)
  | onWake memberName => exact h.flushPendingFor hUnheld
  | onActivityReport memberName working =>
    cases working with
    | true => exact h.of_idle (.refl desk)
    | false => exact h.flushPendingFor hUnheld
  | sweep => exact h.sweep hUnheld
  | recover => exact h.of_idle idle_recover
  | disposition frame => exact h.of_idle (.of_store (queues_onMessageDisposition _ _))
  | put endpoint => exact h.of_idle (.of_store (queues_put _ _))
  | delete endpointId => exact h.of_idle (.of_store (queues_delete _ _))

end Once

def dispatched (steps : List (Step Desk (World × Event) Output)) : List Nat :=
  steps.flatMap fun step => step.output.flushed.map PendingRecord.id

theorem Once.run {past : List Nat} {desk : Desk} (h : Once past desk) (content : Content) {calls : List (World × Event)}
    (hUnheld : ∀ step ∈ run (serve content) desk calls, Unheld step.before step.input) :
    (past ++ dispatched (run (serve content) desk calls)).Nodup := by
  induction calls generalizing past desk with
  | nil =>
    rw [run_nil, dispatched, List.flatMap_nil, List.append_nil]
    exact (List.nodup_append'.mp h.nodup).1
  | cons call calls ih =>
    rw [run_cons] at hUnheld ⊢
    obtain ⟨hFirst, hRest⟩ := List.forall_mem_cons.mp hUnheld
    have hRun := ih (h.perform content hFirst) hRest
    rw [List.append_assoc] at hRun
    exact hRun

/-- As long as no call reads a row that an unfinished flush has read and not reached yet, no row is dispatched twice. -/
theorem dispatched_at_most_once (content : Content) (desk : Desk) (hProcesses : desk.processes = [])
    (hFresh : ∀ row ∈ desk.store.pending.rows, row.id < desk.store.nextPending) (calls : List (World × Event))
    (hUnheld : ∀ step ∈ run (serve content) desk calls, Unheld step.before step.input) :
    (dispatched (run (serve content) desk calls)).Nodup := by
  have hStart : Once [] desk := by
    refine ⟨hFresh, ?_, ?_, fun _ _ => List.not_mem_nil⟩ <;> rw [hProcesses]
    · exact fun id hId => nomatch hId
    · exact List.nodup_nil
  exact hStart.run content hUnheld

section Example

def plainPolicy : NotificationDeliveryPolicy := ⟨.queue, .now, 0, 10, 1000, 1000⟩

def endpointFor (id : String) : NotificationEndpoint :=
  ⟨id, id, id, true, [⟨some "ann", none⟩], .info, none, none, [], plainPolicy, none⟩

def twoHeld : Store where
  endpoints := ⟨[endpointFor "e", endpointFor "f"], by decide⟩
  deliveries := ⟨[receipt "d" 0, { receipt "g" 0 with endpointId := "f" }], by decide⟩
  pending := ⟨[queuedRow, { queuedRow with id := 1, endpointId := "f", deliveryIds := ["g"] }], by decide⟩
  nextPending := 2

def awake : World := ⟨10, fun _ => true, fun _ => true, fun _ => false, none⟩

def unfiltered : Content := ⟨fun _ _ => none, fun _ body => body, fun _ => ""⟩

def wokenTwice : List (World × Event) :=
  [(awake, .onWake "ann"), (awake, .onWake "ann"), (awake, .pushed 0 (some ("m", false))), (awake, .proceed 1)]

theorem woken_twice_dispatched_twice : dispatched (run (serve unfiltered) ⟨twoHeld, .empty, []⟩ wokenTwice) = [0, 1, 1] := by
  decide

def wokenAgain : List (World × Event) :=
  [(awake, .onWake "ann"), (awake, .pushed 0 (some ("m", false))), (awake, .proceed 0), (awake, .pushed 0 (some ("n", false))),
    (awake, .onWake "ann")]

theorem woken_again_dispatched_once :
    (∀ step ∈ run (serve unfiltered) ⟨twoHeld, .empty, []⟩ wokenAgain, Unheld step.before step.input) ∧
      (dispatched (run (serve unfiltered) ⟨twoHeld, .empty, []⟩ wokenAgain)).Nodup := by
  have hUnheld : ∀ step ∈ run (serve unfiltered) ⟨twoHeld, .empty, []⟩ wokenAgain, Unheld step.before step.input := by
    unfold Unheld
    decide
  exact ⟨hUnheld, dispatched_at_most_once unfiltered ⟨twoHeld, .empty, []⟩ rfl (by decide) wokenAgain hUnheld⟩

end Example

end CommandSuite.Notifications
