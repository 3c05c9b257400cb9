import CommandSuite.Core.Notifications.Deadlines
import CommandSuite.Core.Notifications.Tracks

/-! # What one call does with what waits

Each part of a call takes deliveries from the buffers, or from the recovery that runs on, and passes them to dispatches.
-/

namespace CommandSuite.Notifications

open Library Mark Table

structure Advances (own : List String) (desk : Desk) (marks : List Mark) (after : Desk) : Prop where
  windows : ∀ past, Windows desk.buffers past → Windows after.buffers (past ++ marks)
  reached : (marks.flatMap Mark.reached ++ unreached after.processes).Perm (unreached desk.processes)
  boots : ∀ store, .boots store ∉ marks
  noted : ∀ process ∈ after.processes, process.Noted ∨ process ∈ desk.processes
  moves : ∀ id ∉ own, Moves id desk marks after

/-- What a segment does for a delivery, when some processes run on in it. -/
structure Serves (id : String) (desk : Desk) (running : List Process) (buffers : Table DebounceBuffer.key) (segment : Segment)
    (marks : List Mark) : Prop where
  leaves : Segment.Leaves (Touched id desk marks) id desk.store segment
  count : (passed marks).count id + (buffered buffers).count id + (groupIds (unreached segment.process.toList)).count id ≤
    (buffered desk.buffers).count id + (groupIds (unreached running)).count id
  kept : id ∈ buffered desk.buffers ++ groupIds (unreached running) →
    id ∈ passed marks ∨ id ∈ buffered buffers ++ groupIds (unreached segment.process.toList) ∨ ∃ mark ∈ marks, mark.Misses id
  flight : Stranded segment.store id → id ∈ passed marks ∨ InFlight id running → segment.InFlight id

section Segments

variable {own : List String} {id : String} {desk after : Desk} {marks : List Mark} {running others : List Process}
  {buffers : Table DebounceBuffer.key} {segment : Segment}

theorem unreached_append (first second : List Process) : unreached (first ++ second) = unreached first ++ unreached second :=
  List.flatMap_append

theorem groupIds_append (first second : Groups) : groupIds (first ++ second) = groupIds first ++ groupIds second :=
  List.flatMap_append

theorem Serves.moves (h : Serves id desk running buffers segment marks) (hProcesses : desk.processes.Perm (others ++ running))
    (hAfter : after = ⟨segment.store, buffers, others ++ segment.process.toList⟩) (hEnters : ∀ endpoint, .enters endpoint id ∉ marks) :
    Moves id desk marks after := by
  subst hAfter
  have hPerm : (groupIds (unreached desk.processes)).Perm (groupIds (unreached others) ++ groupIds (unreached running)) := by
    rw [← groupIds_append, ← unreached_append]
    exact (hProcesses.flatMap_right _).flatMap_right _
  have hNow : groupIds (unreached (others ++ segment.process.toList)) =
      groupIds (unreached others) ++ groupIds (unreached segment.process.toList) := by
    rw [unreached_append, groupIds_append]
  refine ⟨h.leaves.store, fun process hProcess hTouches => ?_, ?_, fun hWaits => ?_, fun hStranded hWhy => ?_, hEnters⟩
  · rcases List.mem_append.mp hProcess with hOther | hNew
    · refine .inl fun hApart => hApart.processes process ?_ hTouches
      exact hProcesses.mem_iff.mpr (List.mem_append_left _ hOther)
    · exact h.leaves.touches process (Option.mem_toList.mp hNew) hTouches
  · have hCount := h.count
    rw [Desk.waiting, Desk.waiting, List.count_append, List.count_append, hPerm.count_eq, hNow, List.count_append, List.count_append]
    dsimp only
    omega
  · rw [Desk.waiting, hNow]
    rw [Desk.waiting, List.mem_append, hPerm.mem_iff, List.mem_append] at hWaits
    have hHere : id ∈ groupIds (unreached others) ∨ id ∈ buffered desk.buffers ++ groupIds (unreached running) := by
      rw [List.mem_append]
      tauto
    rcases hHere with hOther | hServed
    · exact .inr (.inl (List.mem_append_right _ (List.mem_append_left _ hOther)))
    · refine (h.kept hServed).imp_right (Or.imp_left fun hStill => ?_)
      rw [List.mem_append] at hStill
      rw [List.mem_append, List.mem_append]
      tauto
  · have hHere : InFlight id others ∨ id ∈ passed marks ∨ InFlight id running := by
      rcases hWhy with ⟨flight, hFlight, hId⟩ | hPassed
      · rw [hProcesses.mem_iff, List.mem_append] at hFlight
        exact hFlight.imp (fun hOther => ⟨flight, hOther, hId⟩) fun hRunning => .inr ⟨flight, hRunning, hId⟩
      · exact .inr (.inl hPassed)
    rcases hHere with ⟨flight, hOther, hId⟩ | hServed
    · exact ⟨flight, List.mem_append_left _ hOther, hId⟩
    · obtain ⟨flight, hProcess, hId⟩ := h.flight hStranded hServed
      exact ⟨flight, List.mem_append_right _ (Option.mem_toList.mpr hProcess), hId⟩

theorem Advances.of_segment (hProcesses : desk.processes.Perm (others ++ running))
    (hAfter : after = ⟨segment.store, buffers, others ++ segment.process.toList⟩)
    (hWindows : ∀ past, Windows desk.buffers past → Windows buffers (past ++ marks))
    (hReached : marks.flatMap Mark.reached ++ unreached segment.process.toList = unreached running)
    (hMarks : ∀ mark ∈ marks, (∀ store, mark ≠ .boots store) ∧ ∀ endpoint id, mark ≠ .enters endpoint id)
    (hNoted : ∀ process ∈ segment.process, process.Noted)
    (hServes : ∀ id ∉ own, Serves id desk running buffers segment marks) : Advances own desk marks after := by
  refine ⟨?_, ?_, fun store hMem => (hMarks _ hMem).1 store rfl, fun process hProcess => ?_, fun id hId => ?_⟩
  · rw [hAfter]
    exact hWindows
  · rw [hAfter]
    dsimp only
    rw [unreached_append]
    have hSame := (hProcesses.flatMap_right Process.recoveries).symm
    rw [List.flatMap_append, ← unreached, ← unreached, ← unreached, ← hReached] at hSame
    refine List.Perm.trans ?_ hSame
    rw [← List.append_assoc, ← List.append_assoc]
    exact List.perm_append_comm.append_right _
  · rw [hAfter] at hProcess
    rcases List.mem_append.mp hProcess with hOther | hNew
    · exact .inr (hProcesses.mem_iff.mpr (List.mem_append_left _ hOther))
    · exact .inl (hNoted process (Option.mem_toList.mp hNew))
  · exact (hServes id hId).moves hProcesses hAfter fun endpoint hMem => (hMarks _ hMem).2 endpoint id rfl

theorem Advances.of_new (segment : Segment) (hAfter : after = ⟨segment.store, buffers, desk.processes ++ segment.process.toList⟩)
    (hWindows : ∀ past, Windows desk.buffers past → Windows buffers (past ++ marks))
    (hReached : marks.flatMap Mark.reached ++ unreached segment.process.toList = [])
    (hMarks : ∀ mark ∈ marks, (∀ store, mark ≠ .boots store) ∧ ∀ endpoint id, mark ≠ .enters endpoint id)
    (hNoted : ∀ process ∈ segment.process, process.Noted)
    (hServes : ∀ id ∉ own, Serves id desk [] buffers segment marks) : Advances own desk marks after := by
  have hProcesses : desk.processes.Perm (desk.processes ++ []) := .of_eq (List.append_nil _).symm
  exact .of_segment hProcesses hAfter hWindows hReached hMarks hNoted hServes

theorem Advances.of_store {store : Store} (hLeaves : ∀ id ∉ own, Leaves (¬Apart id desk) id desk.store store) :
    Advances own desk [] { desk with store := store } := by
  refine ⟨fun past h => ?_, .refl _, fun _ hMem => (nomatch hMem), fun process hProcess => .inr hProcess, fun id hId => ?_⟩
  · rw [List.append_nil]
    exact h
  · refine ⟨(hLeaves id hId).mono .inl, fun process hProcess hTouches => ?_, ?_, fun hWaits => .inr (.inl hWaits), fun _ hWhy => ?_,
      fun _ hMem => (nomatch hMem)⟩
    · exact .inl fun hApart => hApart.processes process hProcess hTouches
    · exact (Nat.zero_add _).le
    · exact hWhy.elim (fun hFlight => hFlight) fun hPassed => (nomatch hPassed)

theorem Advances.refl (own : List String) (desk : Desk) : Advances own desk [] desk := .of_store fun _ _ => .refl _

end Segments

/-! ## Flushes of buffers -/

section Flushes

variable {id : String} {desk : Desk} {store : Store} {ids : List String}

theorem deliveriesByIds_sublist (store : Store) (ids : List String) :
    ((store.deliveriesByIds ids).map DeliveryRecord.id).Sublist ids := by
  induction ids with
  | nil => exact List.nil_sublist _
  | cons other ids ih =>
    rw [Store.deliveriesByIds, List.filterMap_cons]
    split
    · exact ih.cons other
    · rename_i record hRecord
      have hKey : record.id = other := key_of_find hRecord
      rw [List.map_cons, hKey]
      exact ih.cons_cons other

theorem mem_deliveriesByIds_of_kept (hId : id ∈ ids) (hKept : store.getDeliveryRecord id ≠ none) :
    id ∈ (store.deliveriesByIds ids).map DeliveryRecord.id := by
  obtain ⟨record, hRecord⟩ := Option.ne_none_iff_exists'.mp hKept
  exact List.mem_map.mpr ⟨record, List.mem_filterMap.mpr ⟨id, hId, hRecord⟩, key_of_find hRecord⟩

theorem perm_buffered {buffer : DebounceBuffer} {endpointId : String} {buffers : Table DebounceBuffer.key}
    (hBuffer : buffers.find endpointId = some buffer) :
    (buffered buffers).Perm (buffer.deliveryIds ++ buffered (buffers.delete fun other => other.endpointId = endpointId)) :=
  (perm_delete hBuffer).flatMap_right DebounceBuffer.deliveryIds

section Buffers

variable {endpointId : String} {buffer : DebounceBuffer}

theorem closes_neutral (endpointId : String) (ids : List String) (store : Store) :
    ∀ mark ∈ [closes endpointId ids store], (∀ store, mark ≠ .boots store) ∧ ∀ endpoint id, mark ≠ .enters endpoint id := by
  intro mark hMark
  rw [List.mem_singleton.mp hMark]
  exact ⟨fun _ hSame => Mark.noConfusion hSame, fun _ _ hSame => Mark.noConfusion hSame⟩

theorem mem_buffered_nil (hBuffer : desk.buffers.find endpointId = some buffer)
    (hWaits : id ∈ buffered desk.buffers ++ groupIds (unreached [])) :
    id ∈ buffer.deliveryIds ∨ id ∈ buffered (desk.buffers.delete fun other => other.endpointId = endpointId) := by
  change id ∈ buffered desk.buffers ++ [] at hWaits
  rw [List.append_nil, (perm_buffered hBuffer).mem_iff, List.mem_append] at hWaits
  exact hWaits

theorem advances_dropBuffer (hBuffer : desk.buffers.find endpointId = some buffer) (hEndpoint : desk.store.get endpointId = none) :
    Advances [] desk [.closes endpointId buffer.deliveryIds desk.store]
      { desk with buffers := desk.buffers.delete fun other => other.endpointId = endpointId } := by
  have hPassed : passed [.closes endpointId buffer.deliveryIds desk.store] = [] := by
    rw [passed, List.flatMap_cons, Mark.group_closes_of_none hEndpoint]
    rfl
  refine .of_new ⟨desk.store, none, [], []⟩ ?_ (fun past h => h.flush hBuffer desk.store) rfl (closes_neutral _ _ _)
    (fun _ hProcess => nomatch hProcess) fun id _ => ?_
  · rw [Option.toList_none, List.append_nil]
  · refine ⟨⟨.refl _, fun _ hProcess => (nomatch hProcess), fun _ hProcess => (nomatch hProcess)⟩, ?_, fun hWaits => ?_, ?_⟩
    · rw [hPassed, (perm_buffered hBuffer).count_eq, List.count_append]
      change 0 + _ + 0 ≤ _ + 0
      omega
    · rcases mem_buffered_nil hBuffer hWaits with hHere | hOther
      · exact .inr (.inr ⟨_, List.mem_singleton_self _, hHere, .inl hEndpoint⟩)
      · exact .inr (.inl (List.mem_append_left _ hOther))
    · rw [hPassed]
      rintro _ (hMem | ⟨_, hMem, _⟩) <;> cases hMem

theorem advances_dispatchBuffer (world : World) {endpoint : NotificationEndpoint} (hBuffer : desk.buffers.find endpointId = some buffer)
    (hEndpoint : desk.store.get endpointId = some endpoint) :
    Advances [] desk [.closes endpointId buffer.deliveryIds desk.store]
      ({ desk with buffers := desk.buffers.delete fun other => other.endpointId = endpointId }.spawn
        (dispatchGroup world desk.store endpoint (desk.store.deliveriesByIds buffer.deliveryIds) .plain [])).1 := by
  have hPassed : passed [.closes endpointId buffer.deliveryIds desk.store] =
      (desk.store.deliveriesByIds buffer.deliveryIds).map DeliveryRecord.id := by
    rw [passed, List.flatMap_cons, group_closes hEndpoint]
    exact List.append_nil _
  have hReached : unreached
      (dispatchGroup world desk.store endpoint (desk.store.deliveriesByIds buffer.deliveryIds) .plain []).process.toList = [] :=
    unreached_dispatchGroup fun primary older middle last => whole_of_kept (Kept.of_read (List.Subset.refl _))
  have hLeaves : ∀ id, Segment.Leaves (Touched id desk [.closes endpointId buffer.deliveryIds desk.store]) id desk.store
      (dispatchGroup world desk.store endpoint (desk.store.deliveriesByIds buffer.deliveryIds) .plain []) := by
    refine fun id => leaves_dispatchGroup desk.store endpoint .plain (fun hMem => .inr ?_) fun hMem => (nomatch hMem)
    rw [hPassed]
    exact hMem
  refine .of_new _ rfl (fun past h => h.flush hBuffer desk.store) hReached (closes_neutral _ _ _) (hLeaves "").noted
    fun id _ => ⟨hLeaves id, ?_, fun hWaits => ?_, fun hStranded hWhy => ?_⟩
  · have hCount := (deliveriesByIds_sublist desk.store buffer.deliveryIds).count_le id
    rw [hReached, hPassed, (perm_buffered hBuffer).count_eq, List.count_append]
    change _ + _ + 0 ≤ _ + 0
    dsimp only
    omega
  · rcases mem_buffered_nil hBuffer hWaits with hHere | hOther
    · by_cases hKept : desk.store.getDeliveryRecord id = none
      · exact .inr (.inr ⟨_, List.mem_singleton_self _, hHere, .inr hKept⟩)
      · rw [hPassed]
        exact .inl (mem_deliveriesByIds_of_kept hHere hKept)
    · exact .inr (.inl (List.mem_append_left _ hOther))
  · rw [hPassed] at hWhy
    rcases hWhy with hMem | ⟨_, hMem, _⟩
    · have hKept : Kept desk.store (desk.store.deliveriesByIds buffer.deliveryIds) := Kept.of_read (List.Subset.refl _)
      exact inFlight_dispatchGroup (fun primary older middle last => whole_of_kept hKept) hMem hStranded
    · cases hMem

theorem advances_flush (world : World) (desk : Desk) (endpointId : String) :
    Advances [] desk (flushMarks desk endpointId) (flushDebounce world desk endpointId).1 := by
  cases hBuffer : desk.buffers.find endpointId with
  | none =>
    rw [flushMarks, flushDebounce, hBuffer]
    exact .refl [] desk
  | some buffer =>
    rw [flushMarks_of_find hBuffer, flushDebounce, hBuffer]
    dsimp only
    cases hEndpoint : desk.store.get endpointId with
    | none => exact advances_dropBuffer hBuffer hEndpoint
    | some endpoint => exact advances_dispatchBuffer world hBuffer hEndpoint

end Buffers

end Flushes

/-! ## What runs on -/

section Tasks

variable {id : String} {world : World} {desk : Desk} {store : Store} {marks : List Mark} {tasks : List Task} {index : Nat}

section

variable (hMarks : ∀ mark ∈ marks, ∃ endpointId group store, mark = .recovers endpointId group store)
include hMarks

theorem count_passed_le : (passed marks).count id ≤ (groupIds (marks.flatMap Mark.reached)).count id := by
  induction marks with
  | nil => exact le_rfl
  | cons mark marks ih =>
    obtain ⟨⟨endpointId, group, store, rfl⟩, hRest⟩ := List.forall_mem_cons.mp hMarks
    have hLater := ih hRest
    have hFirst : ((recovers endpointId group store).group.map DeliveryRecord.id).count id ≤ (group.map DeliveryRecord.id).count id := by
      rw [Mark.group]
      split
      · exact le_rfl
      · exact Nat.zero_le _
    rw [passed, List.flatMap_cons, List.count_append, ← passed, List.flatMap_cons, groupIds_append, List.count_append]
    change _ + _ ≤ (group.map DeliveryRecord.id ++ []).count id + _
    rw [List.append_nil]
    omega

theorem passed_of_reached
    (hId : id ∈ groupIds (marks.flatMap Mark.reached)) : id ∈ passed marks ∨ ∃ mark ∈ marks, mark.Misses id := by
  obtain ⟨⟨endpointId, group⟩, hGroup, hMem⟩ := List.mem_flatMap.mp hId
  obtain ⟨mark, hMark, hReached⟩ := List.mem_flatMap.mp hGroup
  obtain ⟨_, _, store, rfl⟩ := hMarks mark hMark
  cases List.mem_singleton.mp hReached
  cases hEndpoint : store.get endpointId with
  | none => exact .inr ⟨_, hMark, hMem, hEndpoint⟩
  | some endpoint =>
    refine .inl (List.mem_flatMap.mpr ⟨_, hMark, ?_⟩)
    rw [group_recovers hEndpoint]
    exact hMem

end

theorem perm_eraseIdx {process : Process} (hProcess : desk.processes[index]? = some process) :
    desk.processes.Perm (desk.processes.eraseIdx index ++ [process]) := by
  obtain ⟨hIndex, hAt⟩ := List.getElem?_eq_some_iff.mp hProcess
  have hPerm := List.getElem_cons_eraseIdx_perm hIndex
  rw [hAt] at hPerm
  exact hPerm.symm.trans (List.perm_append_singleton _ _).symm

theorem windows_nil (past : List Mark) (h : Windows desk.buffers past) : Windows desk.buffers (past ++ []) := by
  rw [List.append_nil]
  exact h

theorem advances_pushed {flight : Flight} (hNoted : ∀ process ∈ desk.processes, process.Noted)
    (hProcess : desk.processes[index]? = some (.pushing flight)) (outcome : Outcome)
    (hWhole : ∀ job, (Event.pushed index outcome).finishing world desk = some job → Whole desk.store flight.tasks job) :
    Advances [] desk [] (desk.resume index
      (deliver world flight.tasks flight.targets desk.store (flight.job.receive flight.target outcome))).1 := by
  have hMem : Process.pushing flight ∈ desk.processes := List.mem_of_getElem? hProcess
  have hJob : (flight.job.receive flight.target outcome).Noted := (hNoted _ hMem).receive flight.target outcome
  have hIds : (flight.job.receive flight.target outcome).ids = flight.job.ids := by
    rw [Job.ids, newest_receive]
    rfl
  have hFinishes : ∀ middle last, Job.pass world flight.targets desk.store (flight.job.receive flight.target outcome) =
      some (middle, last) → Whole desk.store flight.tasks last := by
    intro middle last hPass
    refine hWhole last ?_
    rw [Event.finishing, hProcess]
    exact congrArg (Option.map Prod.snd) hPass
  have hLeaves : ∀ id, Segment.Leaves (Touched id desk []) id desk.store
      (deliver world flight.tasks flight.targets desk.store (flight.job.receive flight.target outcome)) := by
    refine fun id => leaves_deliver _ _ hJob (fun hId => .inl fun hApart => hApart.processes _ hMem ?_)
      fun hId => .inl fun hApart => hApart.processes _ hMem (List.mem_append_right _ hId)
    rw [hIds] at hId
    exact List.mem_append_left _ hId
  have hReached := unreached_deliver hFinishes
  have hRunning : unreached [Process.pushing flight] = flight.tasks.flatMap Task.recovery := List.append_nil _
  refine .of_segment (perm_eraseIdx hProcess) rfl windows_nil (hReached.trans hRunning.symm) (by rintro _ ⟨⟩)
    (hLeaves "").noted fun id _ => ⟨hLeaves id, ?_, fun hWaits => .inr (.inl ?_), fun hStranded hWhy => ?_⟩
  · rw [hReached, hRunning]
    exact (Nat.zero_add _ ▸ le_rfl)
  · rw [hReached, ← hRunning]
    exact hWaits
  · rcases hWhy with hPassed | ⟨other, hOther, hId⟩
    · cases hPassed
    · cases List.mem_singleton.mp hOther
      exact inFlight_deliver hJob (hIds ▸ hId) hFinishes hStranded

theorem advances_proceed (hProcess : desk.processes[index]? = some (.ready tasks))
    (hWhole : ∀ job, recovering world tasks desk.store = some job → Whole desk.store tasks job) :
    Advances [] desk (taskMarks tasks desk.store) (desk.resume index (runTasks world tasks desk.store)).1 := by
  have hMem : Process.ready tasks ∈ desk.processes := List.mem_of_getElem? hProcess
  have hMarks : ∀ mark ∈ taskMarks tasks desk.store, ∃ endpointId group store, mark = .recovers endpointId group store :=
    fun mark hMark => taskMarks_recovers hMark
  have hLeaves : ∀ id, Segment.Leaves (Touched id desk (taskMarks tasks desk.store)) id desk.store (runTasks world tasks desk.store) :=
    fun id => leaves_runTasks tasks desk.store (fun hId => .inl fun hApart => hApart.processes _ hMem hId) .inr
  have hReached := unreached_runTasks hWhole
  have hRunning : unreached [Process.ready tasks] = tasks.flatMap Task.recovery := List.append_nil _
  refine .of_segment (perm_eraseIdx hProcess) rfl (fun past h => h.runTasks tasks desk.store) (hReached.trans hRunning.symm)
    taskMarks_neutral (hLeaves "").noted fun id _ => ⟨hLeaves id, ?_, fun hWaits => ?_, fun hStranded hWhy => ?_⟩
  · have hCount : (passed (taskMarks tasks desk.store)).count id ≤ _ := count_passed_le hMarks
    rw [hRunning, ← hReached, groupIds_append, List.count_append]
    dsimp only
    omega
  · rw [hRunning, ← hReached, groupIds_append, List.mem_append, List.mem_append] at hWaits
    rw [List.mem_append]
    rcases hWaits with hBuffered | hPassed | hLater
    · exact .inr (.inl (.inl hBuffered))
    · exact (passed_of_reached hMarks hPassed).imp_right .inr
    · exact .inr (.inl (.inr hLater))
  · rcases hWhy with hPassed | ⟨flight, hFlight, _⟩
    · exact (runTasks_reaches hWhole).2 hPassed hStranded
    · cases List.mem_singleton.mp hFlight

abbrev Queueing (tasks : List Task) : Prop := ∀ task ∈ tasks, task.recovery = []

theorem taskMarks_of_queueing (hTasks : Queueing tasks) (store : Store) : taskMarks tasks store = [] := by
  induction tasks generalizing store with
  | nil => rfl
  | cons task tasks ih =>
    obtain ⟨hTask, hRest⟩ := List.forall_mem_cons.mp hTasks
    cases task with
    | pause => rfl
    | flush memberName endpointId rows =>
      rw [taskMarks]
      split
      · exact ih hRest _
      · exact ih hRest _
      · rfl
    | recover endpointId group => cases hTask

theorem recovering_of_queueing (hTasks : Queueing tasks) {job : Job} : recovering world tasks store ≠ some job := by
  intro hJob
  obtain ⟨⟨endpointId, group, hTask, _⟩, _⟩ := of_recovering hJob
  cases hTasks _ hTask

theorem advances_queue (hTasks : Queueing tasks) (hStore : ∀ id, Leaves (¬Apart id desk) id desk.store store)
    (hQueued : ∀ id ∈ tasks.flatMap Task.touches, id ∈ queued desk.store) :
    Advances [] desk [] ({ desk with store := store }.spawn (runTasks world tasks store)).1 := by
  have hWhole : ∀ job, recovering world tasks store = some job → Whole store tasks job :=
    fun job hJob => absurd hJob (recovering_of_queueing hTasks)
  have hReached := unreached_runTasks hWhole
  rw [taskMarks_of_queueing hTasks, List.flatMap_eq_nil_iff.mpr hTasks] at hReached
  have hNone : unreached (runTasks world tasks store).process.toList = [] := hReached
  have hLeaves : ∀ id, Segment.Leaves (Touched id desk []) id desk.store (runTasks world tasks store) := by
    refine fun id => .following ((hStore id).mono .inl) ?_
    refine leaves_runTasks tasks store (fun hId => .inl fun hApart => hApart.queue (hQueued id hId)) fun hId => ?_
    rw [taskMarks_of_queueing hTasks] at hId
    cases hId
  refine .of_new _ rfl windows_nil hReached (fun _ hMark => nomatch hMark) (hLeaves "").noted
    fun id _ => ⟨hLeaves id, ?_, fun hWaits => .inr (.inl ?_), fun _ hWhy => ?_⟩
  · rw [hNone]
    exact (Nat.zero_add _ ▸ le_rfl)
  · rw [hNone]
    exact hWaits
  · rcases hWhy with hPassed | ⟨_, hFlight, _⟩
    · cases hPassed
    · cases hFlight

end Tasks

/-! ## New deliveries -/

section Own

variable {id : String} {world : World} {desk : Desk} {store : Store} {record : DeliveryRecord} {endpoint : NotificationEndpoint}

theorem ne_of_not_own {other : String} (h : other ∉ [id]) : id ≠ other := fun hSame => h (List.mem_singleton.mpr hSame.symm)

theorem advances_insert (hInsert : desk.store.insertDelivery record = some store) :
    Advances [record.id] desk [] { desk with store := store } :=
  .of_store fun _ hOther => leaves_insertDelivery hInsert (ne_of_not_own hOther)

theorem leaves_updateOther {touched : Prop} {other : String} {patch : DeliveryPatch} (hOther : id ≠ other)
    (hUpdate : desk.store.updateDelivery id patch = some store) : Leaves touched other desk.store store := by
  unfold Store.updateDelivery at hUpdate
  split at hUpdate
  · cases hUpdate
  · cases hUpdate
    refine .of_less (fun record hRecord => ?_) fun row hRow => ⟨row, hRow, List.Subset.refl _⟩
    rw [find_patchDelivery] at hRecord
    obtain ⟨old, hOld, rfl⟩ := Option.map_eq_some_iff.mp hRecord
    have hKey : old.id = other := key_of_find hOld
    rw [if_neg fun hSame => hOther (hSame.symm.trans hKey)]
    exact hOld

theorem advances_update {patch : DeliveryPatch} (hUpdate : desk.store.updateDelivery id patch = some store) :
    Advances [id] desk [] { desk with store := store } :=
  .of_store fun _ hOther => leaves_updateOther (ne_of_not_own hOther) hUpdate

theorem advances_enter (now : Int) (hStore : ∀ other ∉ [id], Leaves (¬Apart other desk) other desk.store store) :
    Advances [id] desk [.enters endpoint id]
      { desk with store := store, buffers := bufferDelivery now endpoint.id id desk.buffers } := by
  have hPassed : passed [.enters endpoint id] = [] := rfl
  refine ⟨fun past h => h.enter now endpoint id, .refl _, fun store hMem => ?_, fun process hProcess => .inr hProcess, fun other hOther => ?_⟩
  · exact Mark.noConfusion (List.mem_singleton.mp hMem)
  · have hWaits : Desk.waiting { desk with store := store, buffers := bufferDelivery now endpoint.id id desk.buffers } =
        buffered (bufferDelivery now endpoint.id id desk.buffers) ++ groupIds (unreached desk.processes) := rfl
    have hPerm := (buffered_bufferDelivery now endpoint.id id desk.buffers).append_right (groupIds (unreached desk.processes))
    refine ⟨(hStore other hOther).mono .inl, fun process hProcess hTouches => ?_, ?_, fun hWaiting => .inr (.inl ?_), fun _ hWhy => ?_,
      fun otherEndpoint hMem => ?_⟩
    · exact .inl fun hApart => hApart.processes process hProcess hTouches
    · rw [hPassed, hWaits, hPerm.count_eq, List.cons_append, List.count_cons_of_ne (ne_of_not_own hOther)]
      exact (Nat.zero_add _).le
    · rw [hWaits, hPerm.mem_iff]
      exact List.mem_cons_of_mem _ hWaiting
    · exact hWhy.elim (fun hFlight => hFlight) fun hMem => (nomatch hMem)
    · have hSame := List.mem_singleton.mp hMem
      exact ne_of_not_own hOther (enters.inj hSame).2.symm

theorem advances_dispatch (hKept : Kept desk.store [record]) :
    unreached (dispatchGroup world desk.store endpoint [record] .plain []).process.toList = [] ∧
      Advances [record.id] desk [] (desk.spawn (dispatchGroup world desk.store endpoint [record] .plain [])).1 := by
  have hReached : unreached (dispatchGroup world desk.store endpoint [record] .plain []).process.toList = [] :=
    unreached_dispatchGroup fun primary older middle last => whole_of_kept hKept
  have hLeaves : ∀ id ∉ [record.id], Segment.Leaves (Touched id desk []) id desk.store
      (dispatchGroup world desk.store endpoint [record] .plain []) :=
    fun id hOther => leaves_dispatchGroup desk.store endpoint .plain (fun hMem => absurd hMem hOther) fun hMem => (nomatch hMem)
  have hAny : Segment.Leaves True "" desk.store (dispatchGroup world desk.store endpoint [record] .plain []) :=
    leaves_dispatchGroup desk.store endpoint .plain (fun _ => trivial) fun _ => trivial
  refine ⟨hReached, .of_new _ rfl windows_nil hReached (fun _ hMark => nomatch hMark) hAny.noted
    fun id hOther => ⟨hLeaves id hOther, ?_, fun hWaits => .inr (.inl ?_), fun _ hWhy => ?_⟩⟩
  · rw [hReached]
    exact (Nat.zero_add _ ▸ le_rfl)
  · rw [hReached]
    exact hWaits
  · rcases hWhy with hPassed | ⟨_, hFlight, _⟩
    · cases hPassed
    · cases hFlight

end Own

end CommandSuite.Notifications
