import CommandSuite.Core.Notifications.Advances

/-! # Buffered deliveries are dispatched once

What enters a buffer leaves it in the group of its window, or is recovered after a start in the group of its endpoint.
-/

namespace CommandSuite.Notifications

open Library Transcript Store Table Action

def Event.rest (desk : Desk) : Event → List Task
  | .pushed index _ | .proceed index => ((desk.processes[index]?).map Process.tasks).getD []
  | _ => []

/-- Only a start recovers, and it finds no dispatch that awaits with a receipt that is still stranded. What finishes is whole. -/
def Orderly (desk : Desk) : Action → Prop
  | .call world event => event ≠ .recover ∧ ∀ job, event.finishing world desk = some job → Whole desk.store (event.rest desk) job
  | .boot _ => ∀ flight, .pushing flight ∈ desk.processes → ∀ id ∈ flight.job.ids, ¬Stranded desk.store id

def Action.draws : Action → List String
  | .call _ event => event.draws
  | .boot _ => []

structure Consistent (drawn : List String) (desk : Desk) (past : List Mark) : Prop where
  windows : Windows desk.buffers past
  progress : ((recovery past).reached ++ unreached desk.processes).Perm (recovery past).stranded
  noted : ∀ process ∈ desk.processes, process.Noted
  track : ∀ id, Track id desk past
  unborn : ∀ id ∉ drawn, Unborn id desk past

section Calls

variable {content : Content} {world : World} {drawn more own : List String} {desk after : Desk} {past marks : List Mark} {id : String}
  {store : Store} {record : DeliveryRecord} {endpoint : NotificationEndpoint}

theorem foldl_recovery (hBoots : ∀ store, .boots store ∉ marks) (recovery : Recovery) :
    marks.foldl Mark.recovery recovery = ⟨recovery.stranded, recovery.reached ++ marks.flatMap Mark.reached⟩ := by
  induction marks generalizing recovery with
  | nil => simp
  | cons mark marks ih =>
    rw [List.foldl_cons, ih fun store hMem => hBoots store (List.mem_cons_of_mem _ hMem), List.flatMap_cons]
    cases mark with
    | boots store => exact absurd List.mem_cons_self (hBoots store)
    | enters endpoint id => rfl
    | closes endpointId ids store => rfl
    | recovers endpointId group store =>
      rw [← List.append_assoc]
      rfl

section

variable (h : Consistent drawn desk past)
include h

theorem Consistent.advances (hStep : Advances own desk marks after) (hMore : drawn ⊆ more)
    (hOwn : ∀ id ∈ own, id ∈ more ∧ Track id after (past ++ marks)) : Consistent more after (past ++ marks) := by
  refine ⟨hStep.windows past h.windows, ?_, fun process hProcess => ?_, fun id => ?_, fun id hNew => ?_⟩
  · have hRecovery : recovery (past ++ marks) = ⟨(recovery past).stranded, (recovery past).reached ++ marks.flatMap Mark.reached⟩ := by
      rw [recovery, List.foldl_append]
      exact foldl_recovery hStep.boots _
    rw [hRecovery, List.append_assoc]
    exact (hStep.reached.append_left _).trans h.progress
  · exact (hStep.noted process hProcess).elim (fun hNoted => hNoted) (h.noted process)
  · by_cases hId : id ∈ own
    · exact (hOwn id hId).2
    · exact (h.track id).moves (hStep.moves id hId)
  · have hOther : id ∉ own := fun hId => hNew (hOwn id hId).1
    exact (h.unborn id fun hDrawn => hNew (hMore hDrawn)).moves (hStep.moves id hOther)

theorem Consistent.goesOn (hStep : Advances [] desk marks after) :
    Consistent drawn after (past ++ marks) := h.advances hStep (List.Subset.refl _) fun _ hId => nomatch hId

theorem Consistent.ofOwn (hId : id ∈ drawn) (hStep : Advances [id] desk marks after)
    (hTrack : Track id after (past ++ marks)) : Consistent drawn after (past ++ marks) := by
  refine h.advances hStep (List.Subset.refl _) fun other hOther => ?_
  rw [List.mem_singleton.mp hOther]
  exact ⟨hId, hTrack⟩

theorem Consistent.mono (hMore : drawn ⊆ more) : Consistent more desk past :=
  ⟨h.windows, h.progress, h.noted, h.track, fun id hNew => h.unborn id fun hDrawn => hNew (hMore hDrawn)⟩

theorem Consistent.flush (endpointId : String) :
    Consistent drawn (flushDebounce world desk endpointId).1 (past ++ flushMarks desk endpointId) :=
  h.goesOn (advances_flush world desk endpointId)

theorem Consistent.insert (hNew : record.id ∉ drawn) (hBlank : record.messageIds = [])
    (hCalm : ¬record.Debouncing) (hInsert : desk.store.insertDelivery record = some store) :
    Consistent (drawn ++ [record.id]) { desk with store := store } past ∧ Newborn record.id { desk with store := store } past := by
  have hNewborn := (h.unborn record.id hNew).insertDelivery rfl hBlank hCalm hInsert
  have hOwn : ∀ id ∈ [record.id], id ∈ drawn ++ [record.id] ∧ Track id { desk with store := store } (past ++ []) := by
    intro id hId
    rw [List.mem_singleton.mp hId, List.append_nil]
    exact ⟨List.mem_append_right _ (List.mem_singleton_self _), hNewborn.track⟩
  have hInserted := h.advances (advances_insert hInsert) (List.subset_append_left _ _) hOwn
  rw [List.append_nil] at hInserted
  exact ⟨hInserted, hNewborn⟩

theorem Consistent.debounce (hId : id ∈ drawn) (hNew : Newborn id desk past) :
    Consistent drawn (debounce world desk endpoint id).1 (past ++ debounceMarks world desk endpoint id) := by
  have hEntered : Consistent drawn
      { desk with
        store := (desk.store.updateDelivery id ⟨some .pending, some (some "debouncing"), [], none, none⟩).getD desk.store
        buffers := bufferDelivery world.now endpoint.id id desk.buffers } (past ++ [.enters endpoint id]) := by
    refine h.ofOwn hId (advances_enter world.now fun other hOther => ?_) (hNew.enter world.now rfl)
    cases hUpdate : desk.store.updateDelivery id ⟨some .pending, some (some "debouncing"), [], none, none⟩ with
    | none => exact .refl _
    | some store => exact leaves_updateOther (ne_of_not_own hOther) hUpdate
  unfold Notifications.debounce debounceMarks
  dsimp only
  cases hUpdate : desk.store.updateDelivery id ⟨some .pending, some (some "debouncing"), [], none, none⟩ with
  | none =>
    rw [hUpdate] at hEntered
    exact hEntered
  | some store =>
    rw [hUpdate] at hEntered
    dsimp only
    rw [List.append_cons]
    split
    · exact hEntered.flush _
    · rw [List.append_nil]
      exact hEntered

theorem Consistent.dispatch (hId : record.id ∈ drawn) (hNew : Newborn record.id desk past)
    (hKept : Kept desk.store [record]) :
    Consistent drawn (desk.spawn (dispatchGroup world desk.store endpoint [record] .plain [])).1 (past ++ []) := by
  obtain ⟨hUnreached, hStep⟩ : unreached (dispatchGroup world desk.store endpoint [record] .plain []).process.toList = [] ∧ _ :=
    advances_dispatch hKept
  have hLeaves : Segment.Leaves True record.id desk.store (dispatchGroup world desk.store endpoint [record] .plain []) :=
    leaves_dispatchGroup desk.store endpoint .plain (fun _ => trivial) fun _ => trivial
  refine h.ofOwn hId hStep ?_
  rw [List.append_nil]
  exact hNew.dispatch hLeaves.store hUnreached

theorem Consistent.pipeline (hId : record.id ∈ drawn) (hNew : Newborn record.id desk past) :
    Consistent drawn (runPipeline content world desk endpoint record).1 (past ++ pipelineMarks content world desk endpoint record) := by
  have hUpdated : ∀ patch : DeliveryPatch, patch.Calm → patch.addMessageIds = [] → ∀ store,
      desk.store.updateDelivery record.id patch = some store →
      Consistent drawn { desk with store := store } past ∧ Newborn record.id { desk with store := store } past := by
    intro patch hCalm hBlank store hUpdate
    have hNewborn := hNew.updateDelivery hCalm hBlank hUpdate
    have hSame := h.ofOwn hId (advances_update hUpdate) (by rw [List.append_nil]; exact hNewborn.track)
    rw [List.append_nil] at hSame
    exact ⟨hSame, hNewborn⟩
  unfold runPipeline pipelineMarks
  cases content.refuses endpoint.filters record.body with
  | some reason =>
    dsimp only
    rw [List.append_nil]
    cases hUpdate : desk.store.updateDelivery record.id ⟨some .filtered, some (some reason), [], none, none⟩ with
    | none => exact h
    | some store => exact (hUpdated _ (.of_status rfl (by decide)) rfl store hUpdate).1
  | none =>
    dsimp only
    cases hUpdate : desk.store.updateDelivery record.id
        ⟨none, none, [], some (content.rendered endpoint.template record.body), none⟩ with
    | none =>
      rw [List.append_nil]
      exact h
    | some store =>
      obtain ⟨hRendered, hNewborn⟩ := hUpdated ⟨none, none, [], some (content.rendered endpoint.template record.body), none⟩
        (fun _ hDebouncing => hDebouncing) rfl store hUpdate
      dsimp only
      split
      · exact hRendered.debounce hId hNewborn
      · refine hRendered.dispatch hId hNewborn fun delivery hDelivery => ?_
        rw [List.mem_singleton.mp hDelivery]
        exact kept_of_updateDelivery hUpdate

theorem Consistent.receipt (hNew : record.id ∉ drawn) (hBlank : record.messageIds = [])
    (hCalm : ¬record.Debouncing) : Consistent (drawn ++ [record.id]) (desk.receipt record) past := by
  unfold Desk.receipt
  cases hInsert : desk.store.insertDelivery record with
  | none => exact h.mono (List.subset_append_left _ _)
  | some store => exact (h.insert hNew hBlank hCalm hInsert).1

theorem Consistent.ingest (input : IngestInput) (hNew : id ∉ drawn) :
    Consistent (drawn ++ [id]) (ingest content world desk input id).1 (past ++ ingestMarks content world desk input id) := by
  have hMore : Consistent (drawn ++ [id]) desk past := h.mono (List.subset_append_left _ _)
  unfold Notifications.ingest ingestMarks
  cases input.refused with
  | some reason =>
    dsimp only
    rw [List.append_nil]
    split
    · exact hMore
    · have hCalm : ¬(input.unverifiedRecord content id world.now reason).Debouncing := fun hDebouncing => by cases hDebouncing.1
      exact h.receipt hNew rfl hCalm
  | none =>
    dsimp only
    cases !input.endpoint.enabled with
    | true =>
      rw [if_pos rfl, if_pos rfl, List.append_nil]
      have hCalm : ¬(input.record id world.now .rejected (some "endpoint disabled") none input.body).Debouncing :=
        fun hDebouncing => by cases hDebouncing.1
      exact h.receipt hNew rfl hCalm
    | false =>
      rw [if_neg Bool.false_ne_true, if_neg Bool.false_ne_true]
      cases input.dedupeKey.bind (desk.store.findDeliveryByDedupe input.endpoint.id) with
      | some existing =>
        dsimp only
        rw [List.append_nil]
        exact hMore
      | none =>
        dsimp only
        cases hInsert : desk.store.insertDelivery (input.record id world.now .pending none input.dedupeKey input.body) with
        | none =>
          dsimp only
          rw [List.append_nil]
          exact hMore
        | some store =>
          obtain ⟨hInserted, hNewborn⟩ := h.insert hNew rfl (fun hDebouncing => by cases hDebouncing.2) hInsert
          exact hInserted.pipeline (List.mem_append_right _ (List.mem_singleton_self _)) hNewborn

theorem Consistent.replay (deliveryId : String) (hNew : id ∉ drawn) :
    Consistent (drawn ++ [id]) (replay content world desk deliveryId id).1 (past ++ replayMarks content world desk deliveryId id) := by
  have hMore : Consistent (drawn ++ [id]) desk (past ++ []) := by
    rw [List.append_nil]
    exact h.mono (List.subset_append_left _ _)
  unfold Notifications.replay replayMarks
  cases desk.store.getDeliveryRecord deliveryId with
  | none => exact hMore
  | some source =>
    dsimp only
    by_cases hRejected : source.status = .rejected
    · rw [if_pos hRejected, if_pos hRejected]
      exact hMore
    · rw [if_neg hRejected, if_neg hRejected]
      cases desk.store.get source.endpointId with
      | none => exact hMore
      | some endpoint =>
        dsimp only
        cases hInsert : desk.store.insertDelivery ⟨id, endpoint.id, endpoint.slug, world.now, .pending, none, none, [], source.body,
          source.contentType, "", endpoint.level,
          some (endpoint.title.getD (if endpoint.displayName = "" then endpoint.slug else endpoint.displayName)), none, none,
          some source.id⟩ with
        | none => exact hMore
        | some store =>
          obtain ⟨hInserted, hNewborn⟩ := h.insert hNew rfl (fun hDebouncing => by cases hDebouncing.2) hInsert
          exact hInserted.pipeline (List.mem_append_right _ (List.mem_singleton_self _)) hNewborn

theorem Consistent.sweepBuffers (buffers : List DebounceBuffer) :
    Consistent drawn (sweepBuffers world buffers desk).1 (past ++ sweepMarks world buffers desk) := by
  induction buffers generalizing desk past with
  | nil =>
    rw [sweepMarks, List.append_nil]
    exact h
  | cons buffer buffers ih =>
    rw [Notifications.sweepBuffers, sweepMarks]
    dsimp only
    split
    · rw [← List.append_assoc]
      exact ih (h.flush _)
    · exact ih h

end

/-! ### Flushes of the queue -/

theorem queueing_flushTasks (memberName : String) (rows : List PendingRecord) : Queueing (flushTasks memberName rows) := by
  intro task hTask
  obtain ⟨_, _, rfl⟩ := List.mem_map.mp hTask
  rfl

theorem mem_touches_flushTasks {memberName : String} {rows : List PendingRecord}
    (hId : id ∈ (flushTasks memberName rows).flatMap Task.touches) : ∃ row ∈ rows, id ∈ row.deliveryIds := by
  obtain ⟨task, hTask, hMem⟩ := List.mem_flatMap.mp hId
  obtain ⟨group, hGroup, rfl⟩ := List.mem_map.mp hTask
  obtain ⟨endpointId, _, rfl⟩ := List.mem_map.mp hGroup
  obtain ⟨row, hRow, hRowId⟩ := List.mem_flatMap.mp hMem
  exact ⟨row, (List.mem_filter.mp hRow).1, hRowId⟩

theorem queueing_starvedTasks (starved : List PendingRecord) : Queueing (starvedTasks starved) := by
  intro task hTask
  obtain ⟨memberName, _, hMember⟩ := List.mem_flatMap.mp hTask
  rcases List.mem_append.mp hMember with hFlush | hPause
  · exact queueing_flushTasks _ _ task hFlush
  · rw [List.mem_singleton.mp hPause]
    rfl

theorem mem_touches_starvedTasks {starved : List PendingRecord} (hId : id ∈ (starvedTasks starved).flatMap Task.touches) :
    ∃ row ∈ starved, id ∈ row.deliveryIds := by
  obtain ⟨task, hTask, hMem⟩ := List.mem_flatMap.mp hId
  obtain ⟨memberName, _, hMember⟩ := List.mem_flatMap.mp hTask
  rcases List.mem_append.mp hMember with hFlush | hPause
  · obtain ⟨row, hRow, hRowId⟩ := mem_touches_flushTasks (List.mem_flatMap.mpr ⟨task, hFlush, hMem⟩)
    exact ⟨row, (List.mem_filter.mp hRow).1, hRowId⟩
  · rw [List.mem_singleton.mp hPause] at hMem
    cases hMem

theorem Consistent.flushPendingFor (h : Consistent drawn desk past) (memberName : String) (reason : Option PendingReason) :
    Consistent drawn (flushPendingFor world desk memberName reason).1 (past ++ []) := by
  refine h.goesOn (advances_queue (queueing_flushTasks _ _) (fun _ => .refl _) fun id hId => ?_)
  obtain ⟨row, hRow, hRowId⟩ := mem_touches_flushTasks hId
  exact List.mem_flatMap.mpr ⟨row, mem_pendingForMember hRow, hRowId⟩

theorem Consistent.sweep (h : Consistent drawn desk past) :
    Consistent drawn (sweep world desk).1 (past ++ sweepMarks world desk.buffers.rows desk) := by
  have hSwept : Consistent drawn (Notifications.sweepBuffers world desk.buffers.rows desk).1 _ := h.sweepBuffers desk.buffers.rows
  unfold Notifications.sweep
  generalize Notifications.sweepBuffers world desk.buffers.rows desk = swept at hSwept ⊢
  have hQueued : ∀ row ∈ swept.1.store.pendingDue world.now, ∀ id ∈ row.deliveryIds, id ∈ queued swept.1.store :=
    fun row hRow id hId => List.mem_flatMap.mpr ⟨row, (mem_pendingDue.mp hRow).1, hId⟩
  have hExpired : ∀ id, Leaves (¬Apart id swept.1) id swept.1.store
      (((swept.1.store.pendingDue world.now).filter fun row => row.reason = .offline).foldl expire
        (swept.1.store.deletePending
          (((swept.1.store.pendingDue world.now).filter fun row => row.reason = .offline).map PendingRecord.id))) := by
    refine fun id => (leaves_deletePending swept.1.store _).trans (.foldl (fun row hRow store => leaves_expire store ?_) _)
    exact fun hId hApart => hApart.queue (hQueued row (List.mem_filter.mp hRow).1 id hId)
  have hStarved := queueing_starvedTasks ((swept.1.store.pendingDue world.now).filter fun row => row.reason = .busy)
  have hTouched : ∀ id ∈ (starvedTasks ((swept.1.store.pendingDue world.now).filter fun row => row.reason = .busy)).flatMap Task.touches,
      id ∈ queued swept.1.store := by
    intro id hId
    obtain ⟨row, hRow, hRowId⟩ := mem_touches_starvedTasks hId
    exact hQueued row (List.mem_filter.mp hRow).1 id hRowId
  rw [← List.append_nil (past ++ sweepMarks world desk.buffers.rows desk)]
  exact hSwept.goesOn (advances_queue hStarved hExpired hTouched)

theorem Consistent.call (h : Consistent drawn desk past) {event : Event} (hNew : ∀ id ∈ event.draws, id ∉ drawn)
    (hOrderly : Orderly desk (.call world event)) :
    Consistent (drawn ++ event.draws) (event.perform content world desk).1 (past ++ event.marks content world desk) := by
  have hMore : ∀ {after : Desk} {marks : List Mark}, Consistent drawn after marks → Consistent (drawn ++ event.draws) after marks :=
    fun hSame => hSame.mono (List.subset_append_left _ _)
  have hSame : Consistent drawn desk (past ++ []) := by
    rw [List.append_nil]
    exact h
  obtain ⟨hRunning, hWhole⟩ := hOrderly
  cases event with
  | ingest input id => exact h.ingest input (hNew id (List.mem_singleton_self id))
  | replay deliveryId id => exact h.replay deliveryId (hNew id (List.mem_singleton_self id))
  | pushed index outcome =>
    refine hMore ?_
    rw [Event.perform, Event.marks]
    split
    · rename_i flight hProcess
      refine h.goesOn (advances_pushed h.noted hProcess outcome fun job hJob => ?_)
      have hRest := hWhole job hJob
      rw [Event.rest, hProcess] at hRest
      exact hRest
    · exact hSame
  | proceed index =>
    refine hMore ?_
    rw [Event.perform, Event.marks]
    cases hProcess : desk.processes[index]? with
    | none => exact hSame
    | some process =>
      cases process with
      | pushing flight => exact hSame
      | ready tasks =>
        refine h.goesOn (advances_proceed hProcess fun job hJob => ?_)
        have hFinishing : (Event.proceed index).finishing world desk = some job := by
          rw [Event.finishing, hProcess]
          exact hJob
        have hRest := hWhole job hFinishing
        rw [Event.rest, hProcess] at hRest
        exact hRest
  | timer endpointId => exact hMore (h.flush endpointId)
  | onWake memberName => exact hMore (h.flushPendingFor memberName none)
  | onActivityReport memberName working =>
    cases working with
    | true => exact hMore hSame
    | false => exact hMore (h.flushPendingFor memberName (some .busy))
  | sweep => exact hMore h.sweep
  | recover => exact absurd rfl hRunning
  | disposition frame =>
    refine hMore (h.goesOn (.of_store fun id _ => leaves_onMessageDisposition desk.store frame fun record hRecord hMessages hApart => ?_))
    exact hMessages (hApart.messages record hRecord)
  | put endpoint => exact hMore (h.goesOn (.of_store fun _ _ => leaves_put desk.store endpoint))
  | delete endpointId => exact hMore (h.goesOn (.of_store fun _ _ => leaves_delete desk.store endpointId))

/-! ### Starts -/

theorem mem_listStrandedDebounce : record ∈ store.listStrandedDebounce ↔ record ∈ store.deliveries.rows ∧ record.Debouncing := by
  refine (List.mem_insertionSort _).trans ?_
  rw [mem_select, Bool.and_eq_true_iff, decide_eq_true_eq, decide_eq_true_eq]

theorem mem_stranded_iff : id ∈ store.listStrandedDebounce.map DeliveryRecord.id ↔ Stranded store id := by
  constructor
  · intro hId
    obtain ⟨record, hRecord, hSame⟩ := List.mem_map.mp hId
    obtain ⟨hStored, hDebouncing⟩ := mem_listStrandedDebounce.mp hRecord
    exact ⟨record, (find_eq_some_iff _ _ _).mpr ⟨hStored, hSame⟩, hDebouncing⟩
  · rintro ⟨record, hRecord, hDebouncing⟩
    exact List.mem_map.mpr ⟨record, mem_listStrandedDebounce.mpr ⟨mem_of_find hRecord, hDebouncing⟩, key_of_find hRecord⟩

theorem nodup_stranded (store : Store) : (store.listStrandedDebounce.map DeliveryRecord.id).Nodup := by
  have hSorted := (List.perm_insertionSort (fun left right : DeliveryRecord => left.receivedAt ≤ right.receivedAt)
    (store.deliveries.select fun record => record.status = .pending && record.statusReason = some "debouncing")).map DeliveryRecord.id
  exact hSorted.nodup_iff.mpr (store.deliveries.nodup.sublist (List.filter_sublist.map _))

theorem perm_recoverTasks (stranded : List DeliveryRecord) :
    (groupIds ((recoverTasks stranded).flatMap Task.recovery)).Perm (stranded.map DeliveryRecord.id) := by
  have hEach : ∀ record ∈ stranded, record.endpointId ∈ (stranded.map DeliveryRecord.endpointId).eraseDups :=
    fun record hRecord => List.mem_eraseDups.mpr (List.mem_map_of_mem hRecord)
  have hGroups := (Assignment.flatMap_filter_perm DeliveryRecord.endpointId (nodup_eraseDups _) hEach).map DeliveryRecord.id
  rw [List.map_flatMap] at hGroups
  rw [recoverTasks, List.flatMap_map, groupIds, List.flatMap_assoc]
  refine List.Perm.trans (List.Perm.of_eq ?_) hGroups
  exact List.flatMap_congr fun endpointId _ => List.append_nil _

def Desk.booted (desk : Desk) : Desk := ⟨desk.store, .empty, [.ready (recoverTasks desk.store.listStrandedDebounce)]⟩

theorem perm_waiting_booted (desk : Desk) : desk.booted.waiting.Perm (desk.store.listStrandedDebounce.map DeliveryRecord.id) := by
  have hUnreached : unreached desk.booted.processes = (recoverTasks desk.store.listStrandedDebounce).flatMap Task.recovery := List.append_nil _
  rw [Desk.waiting, hUnreached]
  exact perm_recoverTasks _

theorem Apart.booted (h : Apart id desk) : Apart id desk.booted := by
  refine ⟨h.queue, fun process hProcess hTouches => ?_, h.messages⟩
  rw [List.mem_singleton.mp hProcess] at hTouches
  obtain ⟨task, hTask, hMem⟩ := List.mem_flatMap.mp hTouches
  obtain ⟨_, _, rfl⟩ := List.mem_map.mp hTask
  cases hMem

theorem passed_boots (past : List Mark) (store : Store) : passed (past ++ [.boots store]) = passed past := by
  rw [passed_append]
  exact List.append_nil _

theorem Track.booted (h : Track id desk past) (hOrderly : Orderly desk (.boot world)) :
    Track id desk.booted (past ++ [.boots desk.store]) := by
  have hWaits : id ∈ desk.booted.waiting ↔ Stranded desk.store id := (perm_waiting_booted desk).mem_iff.trans mem_stranded_iff
  have hUnpassed : Stranded desk.store id → id ∉ passed past := by
    intro hStranded hPassed
    obtain ⟨flight, hFlight, hId⟩ := h.flight hStranded hPassed
    exact hOrderly flight hFlight id hId hStranded
  have hApart : Stranded desk.store id → Apart id desk.booted := fun hStranded => (h.apart (.inr ⟨hStranded, hUnpassed hStranded⟩)).booted
  refine ⟨?_, fun hWhy => hApart (hWhy.elim hWaits.mp And.left), fun hWaiting record hRecord => ?_, fun hStranded hPassed => ?_,
    fun endpoint hEnters => ?_⟩
  · have hOnce := h.once
    have hCount : desk.booted.waiting.count id ≤ 1 := (perm_waiting_booted desk).count_eq id ▸ List.nodup_iff_count_le_one.mp (nodup_stranded _) id
    rw [passed_boots]
    by_cases hStranded : Stranded desk.store id
    · rw [List.count_eq_zero.mpr (hUnpassed hStranded)]
      omega
    · rw [List.count_eq_zero.mpr fun hWaiting => hStranded (hWaits.mp hWaiting)]
      omega
  · obtain ⟨other, hOther, hDebouncing⟩ := hWaits.mp hWaiting
    change desk.store.deliveries.find id = some record at hRecord
    rw [hOther] at hRecord
    cases hRecord
    exact hDebouncing
  · rw [passed_boots] at hPassed
    exact absurd hPassed (hUnpassed hStranded)
  · have hBefore : .enters endpoint id ∈ past :=
      (List.mem_append.mp hEnters).resolve_right fun hLast => Mark.noConfusion (List.mem_singleton.mp hLast)
    rw [passed_boots]
    rcases h.accounted endpoint hBefore with hPassed | hWaiting | ⟨mark, hMark, hMisses⟩
    · exact .inl hPassed
    · cases hReceipt : desk.store.deliveries.find id with
      | none => exact .inr (.inr ⟨_, List.mem_append_right _ (List.mem_singleton_self _), hReceipt⟩)
      | some record => exact .inr (.inl (hWaits.mpr ⟨record, hReceipt, h.stays hWaiting record hReceipt⟩))
    · exact .inr (.inr ⟨mark, List.mem_append_left _ hMark, hMisses⟩)

theorem Unborn.booted (h : Unborn id desk past) : Unborn id desk.booted (past ++ [.boots desk.store]) := by
  refine ⟨⟨h.apart.booted, fun hWaits => ?_, ?_, fun endpoint hEnters => ?_, h.stranded⟩, h.receipt⟩
  · exact h.stranded (mem_stranded_iff.mp ((perm_waiting_booted desk).mem_iff.mp hWaits))
  · rw [passed_boots]
    exact h.unpassed
  · rcases List.mem_append.mp hEnters with hBefore | hLast
    · exact h.enters endpoint hBefore
    · exact Mark.noConfusion (List.mem_singleton.mp hLast)

theorem Consistent.booted (h : Consistent drawn desk past) (hOrderly : Orderly desk (.boot world)) :
    Consistent drawn desk.booted (past ++ [.boots desk.store]) := by
  refine ⟨h.windows.boot desk.store, ?_, fun process hProcess => ?_, fun id => (h.track id).booted hOrderly,
    fun id hNew => (h.unborn id hNew).booted⟩
  · rw [recovery, List.foldl_append]
    exact List.Perm.of_eq (List.append_nil _)
  · rw [List.mem_singleton.mp hProcess]
    trivial

theorem whole_of_recovering {job : Job} (hJob : recovering world (recoverTasks store.listStrandedDebounce) store = some job)
    (tasks : List Task) : Whole store tasks job := by
  obtain ⟨⟨endpointId, group, hTask, hGroup⟩, _⟩ := of_recovering hJob
  obtain ⟨_, _, hSame⟩ := List.mem_map.mp hTask
  cases hSame
  refine .inl fun delivery hDelivery hNone => ?_
  have hStored := (mem_listStrandedDebounce.mp (List.mem_filter.mp (hGroup delivery hDelivery)).1).1
  exact (find_eq_none_iff _ _).mp hNone delivery hStored rfl

theorem Consistent.boot (h : Consistent drawn desk past) (hOrderly : Orderly desk (.boot world)) :
    Consistent drawn (perform content desk (.boot world)).1 (past ++ (perform content desk (.boot world)).2) := by
  have hWhole : ∀ job, recovering world (recoverTasks desk.store.listStrandedDebounce) desk.booted.store = some job →
      Whole desk.booted.store (recoverTasks desk.store.listStrandedDebounce) job := fun job hJob => whole_of_recovering hJob _
  have hReady : desk.booted.processes[0]? = some (.ready (recoverTasks desk.store.listStrandedDebounce)) := rfl
  have hDone := (h.booted hOrderly).goesOn (advances_proceed hReady hWhole)
  rw [← List.append_cons] at hDone
  exact hDone

theorem Consistent.perform (h : Consistent drawn desk past) {action : Action} (hNew : ∀ id ∈ action.draws, id ∉ drawn)
    (hOrderly : Orderly desk action) :
    Consistent (drawn ++ action.draws) (traced content desk action).1 (past ++ (traced content desk action).2) := by
  cases action with
  | call world event => exact h.call hNew hOrderly
  | boot world => exact (h.boot hOrderly).mono (List.subset_append_left _ _)

theorem Consistent.run (h : Consistent drawn desk past) {actions : List Action} (hDraws : (drawn ++ actions.flatMap draws).Nodup)
    (hOrderly : ∀ step ∈ run (traced content) desk actions, Orderly step.before step.input) :
    Consistent (drawn ++ actions.flatMap draws) (final (traced content) desk actions)
      (past ++ (run (traced content) desk actions).flatMap Step.output) := by
  induction actions generalizing drawn desk past with
  | nil =>
    rw [List.flatMap_nil, List.append_nil, run_nil, List.flatMap_nil, List.append_nil]
    exact h
  | cons action actions ih =>
    rw [List.flatMap_cons, ← List.append_assoc] at hDraws
    rw [run_cons] at hOrderly
    obtain ⟨hFirst, hRest⟩ := List.forall_mem_cons.mp hOrderly
    have hNew : ∀ id ∈ action.draws, id ∉ drawn := fun id hId hDrawn =>
      (List.nodup_append'.mp (List.nodup_append'.mp hDraws).1).2.2 hDrawn hId
    have hDone := ih (h.perform hNew hFirst) hDraws hRest
    rw [List.flatMap_cons, run_cons, List.flatMap_cons, ← List.append_assoc, ← List.append_assoc]
    exact hDone

theorem consistent_new : Consistent [] .new [] := by
  have hNewborn : ∀ id, Newborn id .new [] := fun id =>
    ⟨⟨List.not_mem_nil, fun _ hProcess => (nomatch hProcess), fun _ hRecord => (nomatch hRecord)⟩, List.not_mem_nil, List.not_mem_nil,
      fun _ => List.not_mem_nil, fun ⟨_, hRecord, _⟩ => (nomatch hRecord)⟩
  refine ⟨⟨fun _ => rfl, fun before endpointId ids store hPrefix => ?_⟩, .refl _, fun _ hProcess => (nomatch hProcess),
    fun id => (hNewborn id).track, fun id _ => ⟨hNewborn id, rfl⟩⟩
  have hNone := List.prefix_nil.mp hPrefix
  exact absurd hNone (List.append_ne_nil_of_right_ne_nil _ (List.cons_ne_nil _ _))

end Calls

structure DispatchedOnce (desk : Desk) (marks : List Mark) : Prop where
  opened : ∀ endpointId, openWindow endpointId marks = bufferedFor desk.buffers endpointId
  closed : ∀ before endpointId ids store, before ++ [.closes endpointId ids store] <+: marks → ids = openWindow endpointId before
  recovered : ((recovery marks).reached ++ unreached desk.processes).Perm (recovery marks).stranded
  once : (passed marks ++ desk.waiting).Nodup
  accounted : ∀ endpoint id, .enters endpoint id ∈ marks → id ∈ passed marks ∨ id ∈ desk.waiting ∨ ∃ mark ∈ marks, mark.Misses id

theorem Consistent.dispatchedOnce {drawn : List String} {desk : Desk} {past : List Mark} (h : Consistent drawn desk past) :
    DispatchedOnce desk past := by
  refine ⟨h.windows.opened, h.windows.closed, h.progress, ?_, fun endpoint id => (h.track id).accounted endpoint⟩
  refine List.nodup_iff_count_le_one.mpr fun id => ?_
  rw [List.count_append]
  exact (h.track id).once

/-- In every orderly run each delivery that enters a buffer is passed to one dispatch, in the group of its window or of a
recovery, unless its endpoint or its receipt is gone when it has its turn. A window closes when it is due or full. -/
theorem buffered_dispatched_once (content : Content) (actions : List Action) (hDraws : (actions.flatMap draws).Nodup)
    (hOrderly : ∀ step ∈ run (traced content) .new actions, Orderly step.before step.input) :
    DispatchedOnce (final (traced content) .new actions)
        ((run (traced content) .new actions).flatMap Step.output) ∧
      ∀ step ∈ run (traced content) .new actions,
        (∀ buffer ∈ step.before.buffers.rows, step.input.Due step.before buffer →
          ∃ store, .closes buffer.endpointId buffer.deliveryIds store ∈ step.output) ∧
        ∀ endpoint id, .enters endpoint id ∈ step.output → Unfilled step.after.buffers endpoint := by
  refine ⟨(consistent_new.run hDraws hOrderly).dispatchedOnce, fun step hStep => ?_⟩
  obtain ⟨_, hSame⟩ := run_invariant (P := fun _ => True) (fun _ _ _ => trivial) trivial hStep
  rw [hSame]
  exact ⟨fun buffer hBuffer hDue => closes_of_due content hBuffer hDue, fun endpoint id hEnters => hasRoom_of_enters hEnters⟩

section Examples

def quietDesk (now : Int) : World := ⟨now, fun _ => true, fun _ => true, fun _ => false, none⟩

def debounced : NotificationEndpoint :=
  ⟨"e", "ci", "ci", true, [⟨some "ann", none⟩], .info, none, none, [], ⟨.queue, .now, 50, 10, 1000, 1000⟩, none⟩

def verified : IngestInput := ⟨debounced, "\x7b\x7d", 2, none, fun _ => none, none, none⟩

def refusal : IngestInput := { verified with refused := some "bad signature" }

def twoWindows : List Action :=
  [.call (quietDesk 0) (.put debounced), .call (quietDesk 0) (.ingest verified "d"), .call (quietDesk 10) (.ingest verified "g"),
    .call (quietDesk 50) (.timer "e"), .call (quietDesk 60) (.pushed 0 (some ("m", false))), .call (quietDesk 70) (.ingest verified "h"),
    .boot (quietDesk 100)]

theorem orderly_quiet {desk : Desk} {world : World} {event : Event} (hRunning : event ≠ .recover) (hQuiet : event.finishing world desk = none) :
    Orderly desk (.call world event) :=
  ⟨hRunning, fun _ hJob => absurd (hQuiet.symm.trans hJob) nofun⟩

theorem two_windows_dispatched_once :
    ((twoWindows.flatMap draws).Nodup ∧
        ∀ step ∈ run (traced unfiltered) .new twoWindows, Orderly step.before step.input) ∧
      DispatchedOnce (final (traced unfiltered) .new twoWindows)
        ((run (traced unfiltered) .new twoWindows).flatMap Step.output) ∧
      ∀ step ∈ run (traced unfiltered) .new twoWindows,
        (∀ buffer ∈ step.before.buffers.rows, step.input.Due step.before buffer →
          ∃ store, .closes buffer.endpointId buffer.deliveryIds store ∈ step.output) ∧
        ∀ endpoint id, .enters endpoint id ∈ step.output → Unfilled step.after.buffers endpoint := by
  have hDraws : (twoWindows.flatMap draws).Nodup := by decide
  have hOrderly : ∀ step ∈ run (traced unfiltered) .new twoWindows, Orderly step.before step.input := by
    refine List.forall_mem_cons.mpr ⟨orderly_quiet nofun rfl, List.forall_mem_cons.mpr ⟨orderly_quiet nofun rfl,
      List.forall_mem_cons.mpr ⟨orderly_quiet nofun rfl, List.forall_mem_cons.mpr ⟨orderly_quiet nofun rfl,
        List.forall_mem_cons.mpr ⟨⟨nofun, fun job hJob => ?_⟩, List.forall_mem_cons.mpr ⟨orderly_quiet nofun rfl,
          List.forall_mem_singleton.mpr fun flight hFlight => ?_⟩⟩⟩⟩⟩⟩
    · cases hJob
      refine .inl ?_
      unfold Kept
      decide
    · cases hFlight
  exact ⟨⟨hDraws, hOrderly⟩, buffered_dispatched_once unfiltered twoWindows hDraws hOrderly⟩

example : passed ((run (traced unfiltered) .new twoWindows).flatMap Step.output) = ["d", "g", "h"] := by decide

/-! ### A receipt that retention takes -/

theorem rows_receipt {desk : Desk} {record : DeliveryRecord} (hNew : desk.store.getDeliveryRecord record.id = none)
    (hKey : record.dedupeKey = none) (hRoom : (desk.store.receipts record.endpointId).length < DELIVERY_RETENTION_PER_ENDPOINT) :
    (desk.receipt record).store.deliveries.rows = desk.store.deliveries.rows ++ [record] := by
  have hRows : (desk.store.inserted record).deliveries.rows = desk.store.deliveries.rows ++ [record] := by
    exact (rows_insertOrIgnore _ record).trans (if_pos hNew)
  have hReceipts : ((desk.store.inserted record).receipts record.endpointId).length ≤ DELIVERY_RETENTION_PER_ENDPOINT := by
    rw [receipts, select, hRows, List.filter_append, List.length_append]
    have hOne := List.length_filter_le (fun other : DeliveryRecord => other.endpointId = record.endpointId) [record]
    rw [List.length_singleton] at hOne
    change (desk.store.receipts record.endpointId).length + _ ≤ _
    omega
  have hNone : beyondRetention ((desk.store.inserted record).receipts record.endpointId) = [] := by
    rw [beyondRetention, Retention.beyond_of_length_le _ hReceipts]
    rfl
  rw [Desk.receipt, insertDelivery, hKey]
  change (trimDeliveries (desk.store.inserted record) record.endpointId).deliveries.rows = _
  rw [trimDeliveries, hNone, ← hRows]
  exact List.filter_eq_self.mpr fun _ _ => rfl

theorem evicted_receipt {desk : Desk} {record oldest : DeliveryRecord} (hKey : record.dedupeKey = none)
    (hEndpoint : oldest.endpointId = record.endpointId)
    (hRank : DELIVERY_RETENTION_PER_ENDPOINT ≤
      Retention.rank newer ((desk.store.inserted record).receipts record.endpointId) oldest) :
    oldest ∉ (desk.receipt record).store.deliveries.rows := by
  rw [Desk.receipt, insertDelivery, hKey]
  change oldest ∉ (trimDeliveries (desk.store.inserted record) record.endpointId).deliveries.rows
  rw [mem_trimDeliveries]
  rintro ⟨_, hKept⟩
  exact absurd (hKept hEndpoint) (not_lt.mpr hRank)

def spamId (k : Nat) : String := String.ofList (List.replicate k 'x')

theorem spamId_injective {j k : Nat} (h : spamId j = spamId k) : j = k := by
  have hLength := congrArg (fun id : String => id.toList.length) h
  simpa [spamId] using hLength

theorem spamId_ne (k : Nat) : spamId k ≠ "d" := by
  intro hSame
  have hMem : 'd' ∈ (spamId k).toList := by
    rw [hSame]
    decide
  rw [spamId, String.toList_ofList] at hMem
  exact absurd (List.eq_of_mem_replicate hMem) (by decide)

def spam (k : Nat) : DeliveryRecord := refusal.unverifiedRecord unfiltered (spamId k) 1 "bad signature"

def spamming (n : Nat) : List Action := (List.range n).map fun k => .call (quietDesk 1) (.ingest refusal (spamId k))

def crowding (n : Nat) : List Action :=
  [.call (quietDesk 0) (.put debounced), .call (quietDesk 0) (.ingest verified "d")] ++ spamming n ++ [.call (quietDesk 50) (.timer "e")]

def bufferedDelivery : DeliveryRecord :=
  { verified.record "d" 0 .pending (some "debouncing") none verified.body with rendered := verified.body }

def bufferedDesk : Desk := final (traced unfiltered) .new
  [.call (quietDesk 0) (.put debounced), .call (quietDesk 0) (.ingest verified "d")]

theorem rows_bufferedDesk : bufferedDesk.store.deliveries.rows = [bufferedDelivery] := rfl

theorem spamming_succ (n : Nat) : spamming (n + 1) = spamming n ++ [.call (quietDesk 1) (.ingest refusal (spamId n))] := by
  rw [spamming, List.range_succ, List.map_append]
  rfl

section Spammed

variable {n : Nat} {store : Store}

section

variable (hRows : store.deliveries.rows = bufferedDelivery :: (List.range n).map spam)
include hRows

theorem find_spam : store.deliveries.find (spam n).key = none := by
  refine (find_eq_none_iff _ _).mpr fun record hRecord => ?_
  rw [hRows] at hRecord
  rcases List.mem_cons.mp hRecord with rfl | hSpam
  · exact (spamId_ne n).symm
  · obtain ⟨k, hk, rfl⟩ := List.mem_map.mp hSpam
    intro hSame
    rw [spamId_injective hSame] at hk
    exact List.not_mem_range_self hk

theorem receipts_spam : store.receipts "e" = bufferedDelivery :: (List.range n).map spam := by
  rw [receipts, select, hRows]
  refine List.filter_eq_self.mpr fun record hRecord => ?_
  rcases List.mem_cons.mp hRecord with rfl | hSpam
  · rfl
  · obtain ⟨_, _, rfl⟩ := List.mem_map.mp hSpam
    rfl

theorem rows_inserted_spam : (store.inserted (spam n)).deliveries.rows = bufferedDelivery :: (List.range (n + 1)).map spam := by
  rw [List.range_succ, List.map_append, ← List.cons_append, ← hRows]
  exact (rows_insertOrIgnore _ (spam n)).trans (if_pos (find_spam hRows))

end

theorem rank_bufferedDelivery (n : Nat) : Retention.rank newer (bufferedDelivery :: (List.range n).map spam) bufferedDelivery = n := by
  have hAll : ∀ record ∈ (List.range n).map spam, decide (¬newer bufferedDelivery record) = true := by
    intro record hRecord
    obtain ⟨k, _, rfl⟩ := List.mem_map.mp hRecord
    refine decide_eq_true ?_
    rintro (hLater | ⟨hSame, _⟩)
    · exact absurd (show (0 : Int) > 1 from hLater) (by decide)
    · exact absurd (show (0 : Int) = 1 from hSame) (by decide)
  rw [Retention.rank_cons, Retention.rank, List.countP_eq_length.mpr hAll, List.length_map, List.length_range, if_pos (.inr ⟨rfl, le_rfl⟩)]
  omega

end Spammed

theorem spammed (n : Nat) (hRoom : n < DELIVERY_RETENTION_PER_ENDPOINT) :
    (final (traced unfiltered) bufferedDesk (spamming n)).store.deliveries.rows = bufferedDelivery :: (List.range n).map spam := by
  induction n with
  | zero => exact rows_bufferedDesk
  | succ n ih =>
    have hRows := ih (Nat.lt_of_succ_lt hRoom)
    rw [spamming_succ, final_append, List.range_succ, List.map_append, ← List.cons_append, ← hRows]
    have hReceipts : (receipts (final (traced unfiltered) bufferedDesk (spamming n)).store (spam n).endpointId).length <
        DELIVERY_RETENTION_PER_ENDPOINT := by
      change (receipts _ "e").length < _
      rw [receipts_spam hRows, List.length_cons, List.length_map, List.length_range]
      omega
    exact rows_receipt (find_spam hRows) rfl hReceipts

theorem crowded_out_receipt :
    (final (traced unfiltered) bufferedDesk (spamming DELIVERY_RETENTION_PER_ENDPOINT)).store.getDeliveryRecord "d" = none := by
  obtain ⟨n, hN⟩ : ∃ n, DELIVERY_RETENTION_PER_ENDPOINT = n + 1 := ⟨999, rfl⟩
  have hRows := spammed n (by omega)
  rw [hN, spamming_succ, final_append]
  generalize final (traced unfiltered) bufferedDesk (spamming n) = desk at hRows
  have hInserted := rows_inserted_spam hRows
  have hEvicted : bufferedDelivery ∉ (desk.receipt (spam n)).store.deliveries.rows := by
    refine evicted_receipt rfl rfl ?_
    change _ ≤ Retention.rank newer ((desk.store.inserted (spam n)).receipts "e") bufferedDelivery
    rw [receipts_spam hInserted, rank_bufferedDelivery, hN]
  refine (find_eq_none_iff _ _).mpr fun record hRecord hSame => hEvicted ?_
  have hStored : record ∈ (desk.store.inserted (spam n)).deliveries.rows := (mem_trimDeliveries.mp hRecord).1
  rw [hInserted] at hStored
  rcases List.mem_cons.mp hStored with rfl | hSpam
  · exact hRecord
  · obtain ⟨k, _, rfl⟩ := List.mem_map.mp hSpam
    exact absurd hSame (spamId_ne k)

theorem spamming_marks (n : Nat) (desk : Desk) :
    (run (traced unfiltered) desk (spamming n)).flatMap Step.output = [] ∧
      (final (traced unfiltered) desk (spamming n)).buffers = desk.buffers ∧
      (final (traced unfiltered) desk (spamming n)).processes = desk.processes := by
  unfold spamming
  generalize List.range n = ks
  induction ks generalizing desk with
  | nil => exact ⟨rfl, rfl, rfl⟩
  | cons k ks ih => exact ih (desk.receipt (spam k))

theorem spamming_draws (n : Nat) : (spamming n).flatMap draws = (List.range n).map spamId := by
  rw [spamming, List.flatMap_map, List.map_eq_flatMap]
  rfl

theorem nodup_crowding (n : Nat) : ((crowding n).flatMap draws).Nodup := by
  rw [crowding, List.flatMap_append, List.flatMap_append, spamming_draws]
  change ("d" :: (List.range n).map spamId ++ []).Nodup
  rw [List.append_nil, List.nodup_cons]
  refine ⟨fun hMem => ?_, List.nodup_range.map fun _ _ => spamId_injective⟩
  obtain ⟨k, _, hSame⟩ := List.mem_map.mp hMem
  exact spamId_ne k hSame

theorem mem_crowding {n : Nat} {action : Action} (h : action ∈ crowding n) :
    ∃ world event, action = .call world event ∧ event ≠ .recover ∧ (∀ endpointId, event ≠ .delete endpointId) ∧
      ∀ world desk, event.finishing world desk = none := by
  rcases List.mem_append.mp h with hEarlier | hTimer
  · rcases List.mem_append.mp hEarlier with hFirst | hSpam
    · rcases List.mem_cons.mp hFirst with rfl | hSecond
      · exact ⟨_, _, rfl, nofun, nofun, fun _ _ => rfl⟩
      · cases List.mem_singleton.mp hSecond
        exact ⟨_, _, rfl, nofun, nofun, fun _ _ => rfl⟩
    · obtain ⟨_, _, rfl⟩ := List.mem_map.mp hSpam
      exact ⟨_, _, rfl, nofun, nofun, fun _ _ => rfl⟩
  · cases List.mem_singleton.mp hTimer
    exact ⟨_, _, rfl, nofun, nofun, fun _ _ => rfl⟩

theorem orderly_crowding (n : Nat) : ∀ step ∈ run (traced unfiltered) .new (crowding n), Orderly step.before step.input := by
  intro step hStep
  have hInput : step.input ∈ crowding n := by
    rw [← map_input_run (traced unfiltered) .new (crowding n)]
    exact List.mem_map_of_mem hStep
  obtain ⟨world, event, hSame, hRunning, _, hQuiet⟩ := mem_crowding hInput
  rw [hSame]
  exact orderly_quiet hRunning (hQuiet _ _)

theorem run_crowding {n : Nat}
    (hGone : (final (traced unfiltered) bufferedDesk (spamming n)).store.getDeliveryRecord "d" = none) :
    ∃ store, store.getDeliveryRecord "d" = none ∧
      (run (traced unfiltered) .new (crowding n)).flatMap Step.output = [.enters debounced "d", .closes "e" ["d"] store] ∧
      (final (traced unfiltered) .new (crowding n)).waiting = [] := by
  obtain ⟨hMarks, hBuffers, hProcesses⟩ := spamming_marks n bufferedDesk
  have hRun : (run (traced unfiltered) .new (crowding n)).flatMap Step.output =
      [.enters debounced "d"] ++ (run (traced unfiltered) bufferedDesk (spamming n)).flatMap Step.output ++
        flushMarks (final (traced unfiltered) bufferedDesk (spamming n)) "e" := by
    rw [crowding, run_append, run_append, final_append, List.flatMap_append, List.flatMap_append]
    exact congrArg (_ ++ ·) (List.append_nil _)
  have hFinal : final (traced unfiltered) .new (crowding n) =
      (flushDebounce (quietDesk 50) (final (traced unfiltered) bufferedDesk (spamming n)) "e").1 := by
    rw [crowding, final_append, final_append]
    rfl
  rw [hRun, hFinal, hMarks]
  generalize final (traced unfiltered) bufferedDesk (spamming n) = desk at *
  have hFind : desk.buffers.find "e" = some ⟨"e", ["d"], 0⟩ := by
    rw [hBuffers]
    rfl
  refine ⟨desk.store, hGone, by rw [flushMarks_of_find hFind]; rfl, ?_⟩
  have hGroup : desk.store.deliveriesByIds ["d"] = [] := by
    rw [deliveriesByIds, List.filterMap_cons, hGone]
    rfl
  have hEmpty : buffered (desk.buffers.delete fun other => other.endpointId = "e") = [] := by
    rw [hBuffers]
    rfl
  unfold flushDebounce
  rw [hFind]
  dsimp only
  rw [hGroup]
  split
  · rw [Desk.waiting, hEmpty, hProcesses]
    rfl
  · change buffered (desk.buffers.delete _) ++ groupIds (unreached (desk.processes ++ [])) = []
    rw [hEmpty, hProcesses]
    rfl

theorem crowded_out_not_dispatched :
    ¬∀ (content : Content) (actions : List Action), (actions.flatMap draws).Nodup →
      (∀ step ∈ run (traced content) .new actions, Orderly step.before step.input) →
      ∀ endpoint id, .enters endpoint id ∈ (run (traced content) .new actions).flatMap Step.output →
        (∀ world, .call world (.delete endpoint.id) ∉ actions) →
        id ∈ passed ((run (traced content) .new actions).flatMap Step.output) ∨
          id ∈ (final (traced content) .new actions).waiting := by
  intro h
  obtain ⟨store, hGone, hRun, hFinal⟩ := run_crowding crowded_out_receipt
  have hDelivery := h unfiltered _ (nodup_crowding _) (orderly_crowding _) debounced "d" (by rw [hRun]; exact List.mem_cons_self)
    fun world hMem => by
      obtain ⟨_, event, hSame, _, hDeletes, _⟩ := mem_crowding hMem
      cases hSame
      exact hDeletes _ rfl
  rw [hRun, hFinal] at hDelivery
  rcases hDelivery with hPassed | hWaits
  · obtain ⟨mark, hMark, hMem⟩ := List.mem_flatMap.mp hPassed
    obtain ⟨record, hRecord, hId⟩ := List.mem_map.mp hMem
    rcases List.mem_cons.mp hMark with rfl | hLast
    · cases hRecord
    · cases List.mem_singleton.mp hLast
      rw [Mark.group] at hRecord
      split at hRecord
      · obtain ⟨hStored, _⟩ := Stable.mem_deliveriesByIds hRecord
        exact (find_eq_none_iff _ _).mp hGone record hStored hId
      · cases hRecord
  · cases hWaits

end Examples

end CommandSuite.Notifications
