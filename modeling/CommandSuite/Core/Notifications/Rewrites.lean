import CommandSuite.Core.Notifications.Dispatcher
import CommandSuite.Core.Notifications.Receipts

/-! # What calls write to receipts

A dispatch reads its receipts when it starts and writes them when its pushes are done, from what it has read.
-/

namespace CommandSuite.Notifications

open Library Table

/-! ## Dispatches that finish -/

def Job.pass (world : World) : List NotificationTarget → Store → Job → Option (Store × Job)
  | [], store, job => some (store, job)
  | target :: targets, store, job =>
    match job.turn world store target with
    | .awaits _ => none
    | .passes store job => pass world targets store job

def finished (world : World) (store : Store) (endpoint : NotificationEndpoint) (group : List DeliveryRecord) : Option Job :=
  match newestFirst group with
  | [] => none
  | primary :: older =>
    (Job.pass world endpoint.targets store ⟨endpoint, primary, older, .plain, world.now, [], 0, [], 0⟩).map Prod.snd

def recovering (world : World) : List Task → Store → Option Job
  | [], _ | .pause :: _, _ => none
  | .flush _ endpointId rows :: tasks, store =>
    let store := store.deletePending (rows.map PendingRecord.id)
    match store.get endpointId, store.deliveriesByIds (rows.flatMap PendingRecord.deliveryIds).eraseDups with
    | none, _ | some _, [] => recovering world tasks store
    | some _, _ :: _ => none
  | .recover endpointId group :: tasks, store =>
    match store.get endpointId with
    | none => recovering world tasks store
    | some endpoint => finished world store endpoint group

def Event.finishing (world : World) (desk : Desk) : Event → Option Job
  | .pushed index outcome =>
    match desk.processes[index]? with
    | some (.pushing flight) =>
      (Job.pass world flight.targets desk.store (flight.job.receive flight.target outcome)).map Prod.snd
    | _ => none
  | .proceed index =>
    match desk.processes[index]? with
    | some (.ready tasks) => recovering world tasks desk.store
    | _ => none
  | _ => none

/-- What holds of each receipt that the updates reach, with its place in the group. The first that is gone stops them. -/
def Reached (deliveries : Table DeliveryRecord.key) (P : Nat → DeliveryRecord → DeliveryRecord → Prop) :
    Nat → List DeliveryRecord → Prop
  | _, [] => True
  | index, delivery :: group =>
    match deliveries.find delivery.id with
    | none => True
    | some row => P index delivery row ∧ Reached deliveries P (index + 1) group

section Reached

variable {deliveries others : Table DeliveryRecord.key} {P Q : Nat → DeliveryRecord → DeliveryRecord → Prop}
  {group : List DeliveryRecord} {index : Nat}

theorem Reached.mono (h : Reached deliveries P index group)
    (hMono : ∀ index, ∀ delivery ∈ group, ∀ row, deliveries.find delivery.id = some row → P index delivery row → Q index delivery row) :
    Reached deliveries Q index group := by
  induction group generalizing index with
  | nil => trivial
  | cons delivery group ih =>
    rw [Reached] at h ⊢
    split
    · trivial
    · rename_i row hRow
      rw [hRow] at h
      refine ⟨hMono index delivery List.mem_cons_self row hRow h.1, ih h.2 fun index other hOther => ?_⟩
      exact hMono index other (List.mem_cons_of_mem _ hOther)

theorem Reached.of_forall
    (h : ∀ index, ∀ delivery ∈ group, ∀ row, deliveries.find delivery.id = some row → P index delivery row) :
    Reached deliveries P index group := by
  induction group generalizing index with
  | nil => trivial
  | cons delivery group ih =>
    rw [Reached]
    split
    · trivial
    · rename_i row hRow
      refine ⟨h index delivery List.mem_cons_self row hRow, ih fun index other hOther => ?_⟩
      exact h index other (List.mem_cons_of_mem _ hOther)

theorem Reached.congr {P : Nat → DeliveryRecord → Prop} (hSame : ∀ id, others.find id = none ↔ deliveries.find id = none)
    (h : Reached deliveries (fun index delivery _ => P index delivery) index group) :
    Reached others (fun index delivery _ => P index delivery) index group := by
  induction group generalizing index with
  | nil => trivial
  | cons delivery group ih =>
    rw [Reached] at h ⊢
    split
    · trivial
    · rename_i row hRow
      split at h
      · rename_i hGone
        rw [(hSame delivery.id).mpr hGone] at hRow
        cases hRow
      · exact ⟨h.1, ih h.2⟩

end Reached

theorem find_patchDelivery (store : Store) (id : String) (patch : DeliveryPatch) (other : String) :
    (store.patchDelivery id patch).deliveries.find other =
      (store.deliveries.find other).map fun record => if record.id = id then patch.apply record else record := by
  have hFind := find_update store.deliveries (fun record => record.id = id) patch.apply (fun _ => rfl) other
  simp only [decide_eq_true_eq] at hFind
  exact hFind

/-! ## The loop over the targets -/

structure Job.Passed (job after : Job) : Prop where
  newest : after.newest = job.newest
  messageIds : after.messageIds = job.messageIds
  acknowledged : after.acknowledged = job.acknowledged
  options : after.options = job.options

section Passes

variable {world : World} {store after : Store} {job job' : Job}

theorem Job.Passed.refl (job : Job) : job.Passed job := ⟨rfl, rfl, rfl, rfl⟩

theorem Job.Passed.trans {last : Job} (hFirst : job.Passed job') (hSecond : job'.Passed last) : job.Passed last :=
  ⟨hSecond.newest.trans hFirst.newest, hSecond.messageIds.trans hFirst.messageIds, hSecond.acknowledged.trans hFirst.acknowledged,
    hSecond.options.trans hFirst.options⟩

theorem passed_turn {target : NotificationTarget} (h : job.turn world store target = .passes after job') :
    after.deliveries = store.deliveries ∧ job.Passed job' := by
  unfold Job.turn at h
  split at h
  · cases h
  · cases h
    exact ⟨rfl, .refl _⟩
  · unfold Job.memberTurn at h
    dsimp only at h
    split at h
    · cases h
      exact ⟨rfl, rfl, rfl, rfl, rfl⟩
    · split at h
      · split at h <;> cases h <;> exact ⟨rfl, rfl, rfl, rfl, rfl⟩
      · split at h <;> cases h
        exact ⟨rfl, rfl, rfl, rfl, rfl⟩

theorem passed_pass {targets : List NotificationTarget} (h : Job.pass world targets store job = some (after, job')) :
    after.deliveries = store.deliveries ∧ job.Passed job' := by
  induction targets generalizing store job with
  | nil =>
    cases h
    exact ⟨rfl, .refl _⟩
  | cons target targets ih =>
    rw [Job.pass] at h
    split at h
    · cases h
    · rename_i middle next hTurn
      obtain ⟨hDeliveries, hPassed⟩ := passed_turn hTurn
      obtain ⟨hRest, hLast⟩ := ih h
      exact ⟨hRest.trans hDeliveries, hPassed.trans hLast⟩

theorem queued_of_forced {name : String} (hForce : job.options.forceMember = some name)
    (h : Job.pass world [⟨some name, none⟩] store job = some (after, job')) : job'.queued = job.queued := by
  have hMember : ∀ middle next, job.memberTurn world store name = .passes middle next → next.queued = job.queued := by
    intro middle next hTurn
    unfold Job.memberTurn at hTurn
    dsimp only at hTurn
    split at hTurn
    · cases hTurn
      rfl
    · simp [hForce] at hTurn
  cases hTurn : job.turn world store ⟨some name, none⟩ with
  | awaits push =>
    rw [Job.pass, hTurn] at h
    cases h
  | passes middle next =>
    rw [Job.pass, hTurn] at h
    cases h
    exact hMember _ _ hTurn

theorem deliver_cases (tasks : List Task) (targets : List NotificationTarget) (store : Store) (job : Job) :
    (∃ middle last, Job.pass world targets store job = some (middle, last) ∧
      (deliver world tasks targets store job).store = (last.update world.now 0 last.newest middle).1) ∨
    (deliver world tasks targets store job).store.deliveries = store.deliveries := by
  induction targets generalizing store job with
  | nil =>
    refine .inl ⟨store, job, rfl, ?_⟩
    rw [deliver]
    split <;> rename_i hUpdate <;> rw [hUpdate]
  | cons target targets ih =>
    cases hTurn : job.turn world store target with
    | awaits push =>
      rw [deliver, hTurn]
      exact .inr rfl
    | passes next job' =>
      rw [deliver, Job.pass, hTurn]
      rcases ih next job' with ⟨middle, last, hPass, hStore⟩ | hSame
      · exact .inl ⟨middle, last, hPass, hStore⟩
      · exact .inr (hSame.trans (passed_turn hTurn).1)

end Passes

/-! ## Tasks -/

theorem mem_newestFirst {group : List DeliveryRecord} {delivery : DeliveryRecord} : delivery ∈ newestFirst group ↔ delivery ∈ group :=
  List.mem_insertionSort _

theorem of_recovering {world : World} {tasks : List Task} {store : Store} {job : Job} (h : recovering world tasks store = some job) :
    (∃ endpointId group, Task.recover endpointId group ∈ tasks ∧ ∀ delivery ∈ job.newest, delivery ∈ group) ∧
      job.messageIds = [] ∧ job.acknowledged = 0 := by
  induction tasks generalizing store with
  | nil => cases h
  | cons task tasks ih =>
    have hLater : ∀ store, recovering world tasks store = some job →
        (∃ endpointId group, Task.recover endpointId group ∈ task :: tasks ∧ ∀ delivery ∈ job.newest, delivery ∈ group) ∧
          job.messageIds = [] ∧ job.acknowledged = 0 := by
      intro store hJob
      obtain ⟨⟨endpointId, group, hTask, hGroup⟩, hBlank⟩ := ih hJob
      exact ⟨⟨endpointId, group, List.mem_cons_of_mem _ hTask, hGroup⟩, hBlank⟩
    cases task with
    | pause => cases h
    | flush memberName endpointId rows =>
      rw [recovering] at h
      split at h
      · exact hLater _ h
      · exact hLater _ h
      · cases h
    | recover endpointId group =>
      rw [recovering] at h
      split at h
      · exact hLater _ h
      · unfold finished at h
        split at h
        · cases h
        · rename_i primary older hNewest
          obtain ⟨⟨middle, last⟩, hPass, rfl⟩ := Option.map_eq_some_iff.mp h
          obtain ⟨_, hPassed⟩ := passed_pass hPass
          refine ⟨⟨endpointId, group, List.mem_cons_self, fun delivery hDelivery => ?_⟩, hPassed.messageIds, hPassed.acknowledged⟩
          rw [hPassed.newest] at hDelivery
          rw [← mem_newestFirst, hNewest]
          exact hDelivery

theorem recover_not_mem_flushTasks (memberName : String) (rows : List PendingRecord) (endpointId : String)
    (group : List DeliveryRecord) : Task.recover endpointId group ∉ flushTasks memberName rows := by
  intro hTask
  obtain ⟨_, _, hSame⟩ := List.mem_map.mp hTask
  cases hSame

theorem recover_not_mem_starvedTasks (starved : List PendingRecord) (endpointId : String) (group : List DeliveryRecord) :
    Task.recover endpointId group ∉ starvedTasks starved := by
  intro hTask
  obtain ⟨memberName, _, hMember⟩ := List.mem_flatMap.mp hTask
  rcases List.mem_append.mp hMember with hFlush | hPause
  · exact recover_not_mem_flushTasks _ _ _ _ hFlush
  · cases List.mem_singleton.mp hPause

/-! ## Properties that calls keep -/

def Event.draws : Event → List String
  | .ingest _ id | .replay _ id => [id]
  | _ => []

/-- A property of the receipts that single writes keep. What a call writes to a receipt of its own adds no message, and
what it writes to others comes from what it has just read of them or is safe. Only a quiet call, which finishes nothing
that began earlier, queues again for what it reads. -/
structure Stable (quiet : Prop) (fresh buffered : List String) (Safe : String → DeliveryPatch → Prop) (I : Store → Prop) : Prop where
  less : ∀ {store after : Store}, after.deliveries.rows ⊆ store.deliveries.rows → I store → I after
  inserted : ∀ {store : Store} {record : DeliveryRecord}, I store → record.id ∈ fresh → record.messageIds = [] → I (store.inserted record)
  patched : ∀ {store : Store} {id : String} {patch : DeliveryPatch}, I store → Safe id patch → I (store.patchDelivery id patch)
  drawn : ∀ {id : String} {patch : DeliveryPatch}, id ∈ fresh → patch.addMessageIds = [] → Safe id patch
  lapsed : ∀ {store : Store} {delivery : DeliveryRecord} {patch : DeliveryPatch}, I store → delivery ∈ store.deliveries.rows →
    delivery.status = .pending → patch.status = some .expired → patch.addMessageIds = [] → Safe delivery.id patch
  read : ∀ {store : Store} {delivery : DeliveryRecord} {job : Job} {now : Int} {index : Nat}, I store →
    delivery ∈ store.deliveries.rows → job.messageIds = [] → job.acknowledged = 0 →
    job.queued = 0 ∨ quiet ∧ (delivery.id ∈ buffered ∨ delivery.status = .pending) → Safe delivery.id (job.patch now index delivery)

namespace Stable

variable {quiet : Prop} {fresh buffered : List String} {Safe : String → DeliveryPatch → Prop} {I : Store → Prop} {world : World} {store : Store}
  {after : Store}

section

variable (h : Stable quiet fresh buffered Safe I)
include h

theorem same (hSame : after.deliveries = store.deliveries) (hI : I store) : I after := by
  refine h.less ?_ hI
  rw [hSame]
  exact List.Subset.refl _

theorem deletePending (hI : I store) (ids : List Nat) : I (store.deletePending ids) := h.same (Eq.refl store.deliveries) hI

variable {patch : DeliveryPatch}

theorem updateDelivery {id : String} (hI : I store)
    (hSafe : Safe id patch) (hUpdate : store.updateDelivery id patch = some after) : I after := by
  unfold Store.updateDelivery at hUpdate
  split at hUpdate
  · cases hUpdate
  · cases hUpdate
    exact h.patched hI hSafe

theorem getD_updateDelivery {id : String} (hI : I store)
    (hSafe : Safe id patch) : I ((store.updateDelivery id patch).getD store) := by
  cases hUpdate : store.updateDelivery id patch with
  | none => exact hI
  | some after => exact h.updateDelivery hI hSafe hUpdate

theorem insertDelivery {record : DeliveryRecord} (hI : I store)
    (hFresh : record.id ∈ fresh) (hBlank : record.messageIds = []) (hInsert : store.insertDelivery record = some after) : I after := by
  rw [insertDelivery_eq_some hInsert]
  exact h.less List.filter_sublist.subset (h.inserted hI hFresh hBlank)

theorem update {job : Job} {now : Int} {index : Nat} {group : List DeliveryRecord} (hI : I store)
    (hSafe : Reached store.deliveries (fun index delivery _ => Safe delivery.id (job.patch now index delivery)) index group) :
    I (job.update now index group store).1 := by
  induction group generalizing index store with
  | nil => exact hI
  | cons delivery group ih =>
    rw [Job.update, Store.updateDelivery]
    rw [Reached] at hSafe
    cases hRow : store.getDeliveryRecord delivery.id with
    | none => exact hI
    | some row =>
      have hFind : store.deliveries.find delivery.id = some row := hRow
      rw [hFind] at hSafe
      refine ih (h.patched hI hSafe.1) (hSafe.2.congr fun id => ?_)
      rw [find_patchDelivery, Option.map_eq_none_iff]

end

variable {tasks : List Task}

theorem deliver (h : Stable quiet fresh buffered Safe I) {targets : List NotificationTarget} {job : Job} (hI : I store)
    (hSafe : ∀ middle last, Job.pass world targets store job = some (middle, last) →
      Reached store.deliveries (fun index delivery _ => Safe delivery.id (last.patch world.now index delivery)) 0 last.newest) :
    I (deliver world tasks targets store job).store := by
  rcases deliver_cases tasks targets store job with ⟨middle, last, hPass, hStore⟩ | hSame
  · have hDeliveries := (passed_pass hPass).1
    have hReached := hSafe middle last hPass
    rw [← hDeliveries] at hReached
    rw [hStore]
    exact h.update (h.same hDeliveries hI) hReached
  · exact h.same hSame hI

theorem dispatchGroup (h : Stable quiet fresh buffered Safe I) {endpoint : NotificationEndpoint} {group : List DeliveryRecord}
    {options : DispatchOptions} (hI : I store) (hRead : ∀ delivery ∈ group, delivery.id ∈ fresh ∨
      (delivery ∈ store.deliveries.rows ∧ (options.forceMember.isSome ∨ quiet ∧ (delivery.id ∈ buffered ∨ delivery.status = .pending)))) :
    I (dispatchGroup world store endpoint group options tasks).store := by
  unfold Notifications.dispatchGroup
  split
  · exact hI
  · rename_i primary older hNewest
    refine h.deliver hI fun middle last hPass => Reached.of_forall fun index delivery hDelivery row _ => ?_
    obtain ⟨_, hPassed⟩ := passed_pass hPass
    have hNoMessage : last.messageIds = [] := hPassed.messageIds
    have hMem : delivery ∈ group := by
      rw [hPassed.newest] at hDelivery
      rw [← mem_newestFirst, hNewest]
      exact hDelivery
    rcases hRead delivery hMem with hFresh | ⟨hStored, hWhy⟩
    · exact h.drawn hFresh hNoMessage
    · refine h.read hI hStored hNoMessage hPassed.acknowledged ?_
      cases hForce : options.forceMember with
      | some name =>
        rw [hForce] at hPass
        exact .inl (queued_of_forced hForce hPass)
      | none =>
        rw [hForce] at hWhy
        exact .inr (hWhy.resolve_left (by decide))

theorem mem_deliveriesByIds {ids : List String} {delivery : DeliveryRecord} (h : delivery ∈ store.deliveriesByIds ids) :
    delivery ∈ store.deliveries.rows ∧ delivery.id ∈ ids := by
  obtain ⟨id, hId, hFind⟩ := List.mem_filterMap.mp h
  have hKey : delivery.id = id := key_of_find hFind
  rw [hKey]
  exact ⟨mem_of_find hFind, hId⟩

theorem runTasks (h : Stable quiet fresh buffered Safe I) (hI : I store)
    (hSafe : ∀ job, recovering world tasks store = some job →
      Reached store.deliveries (fun index delivery _ => Safe delivery.id (job.patch world.now index delivery)) 0 job.newest) :
    I (runTasks world tasks store).store := by
  induction tasks generalizing store with
  | nil => exact hI
  | cons task tasks ih =>
    cases task with
    | pause => exact hI
    | flush memberName endpointId rows =>
      have hDeleted : I (store.deletePending (rows.map PendingRecord.id)) := h.deletePending hI _
      rw [Notifications.runTasks]
      rw [recovering] at hSafe
      dsimp only at hSafe ⊢
      split
      · rename_i hNone
        rw [hNone] at hSafe
        exact ih hDeleted hSafe
      · rename_i hSome hEmpty
        rw [hSome, hEmpty] at hSafe
        exact ih hDeleted hSafe
      · rename_i delivery deliveries hEndpoint hRead
        refine h.dispatchGroup hDeleted fun other hOther => .inr ⟨?_, .inl rfl⟩
        rw [← hRead] at hOther
        exact (mem_deliveriesByIds hOther).1
    | recover endpointId group =>
      rw [Notifications.runTasks]
      rw [recovering] at hSafe
      split
      · rename_i hNone
        rw [hNone] at hSafe
        exact ih hI hSafe
      · rename_i endpoint hEndpoint
        rw [hEndpoint] at hSafe
        unfold Notifications.dispatchGroup
        unfold finished at hSafe
        dsimp only at hSafe
        split
        · exact hI
        · rename_i primary older hNewest
          rw [hNewest] at hSafe
          refine h.deliver hI fun middle last hPass => hSafe last ?_
          exact congrArg (Option.map Prod.snd) hPass

/-- The buffers hold receipts of the call or such as are known to be buffered. -/
def Buffered (fresh buffered : List String) (buffers : Table DebounceBuffer.key) : Prop :=
  ∀ buffer ∈ buffers.rows, ∀ id ∈ buffer.deliveryIds, id ∈ fresh ∨ id ∈ buffered

section Buffers

variable {desk : Desk} {content : Content} {endpointId : String}

theorem flushDebounce (h : Stable quiet fresh buffered Safe I) (hQuiet : quiet) (hI : I desk.store)
    (hBuffered : Buffered fresh buffered desk.buffers) : I (flushDebounce world desk endpointId).1.store := by
  unfold Notifications.flushDebounce
  split
  · exact hI
  · rename_i buffer hBuffer
    dsimp only
    split
    · exact hI
    · refine h.dispatchGroup hI fun delivery hDelivery => ?_
      obtain ⟨hStored, hId⟩ := mem_deliveriesByIds hDelivery
      rcases hBuffered buffer (mem_of_find hBuffer) delivery.id hId with hFresh | hKnown
      · exact .inl hFresh
      · exact .inr ⟨hStored, .inr ⟨hQuiet, .inl hKnown⟩⟩

theorem buffered_flushDebounce (hBuffered : Buffered fresh buffered desk.buffers) :
    Buffered fresh buffered (Notifications.flushDebounce world desk endpointId).1.buffers := by
  unfold Notifications.flushDebounce
  split
  · exact hBuffered
  · have hRest : Buffered fresh buffered (desk.buffers.delete fun other => other.endpointId = endpointId) :=
      fun buffer hBuffer => hBuffered buffer (List.mem_filter.mp hBuffer).1
    dsimp only
    split <;> exact hRest

theorem buffered_bufferDelivery {now : Int} {endpointId id : String} (hId : id ∈ fresh)
    (hBuffered : Buffered fresh buffered desk.buffers) : Buffered fresh buffered (bufferDelivery now endpointId id desk.buffers) := by
  intro buffer hBuffer other hOther
  unfold bufferDelivery at hBuffer
  split at hBuffer
  · rename_i hNone
    rw [rows_insertOrIgnore, if_pos hNone] at hBuffer
    rcases List.mem_append.mp hBuffer with hOld | hNew
    · exact hBuffered buffer hOld other hOther
    · rw [List.mem_singleton.mp hNew] at hOther
      rw [List.mem_singleton.mp hOther]
      exact .inl hId
  · obtain ⟨old, hOld, rfl⟩ := List.mem_map.mp hBuffer
    split at hOther
    · rcases List.mem_append.mp hOther with hKept | hAdded
      · exact hBuffered old hOld other hKept
      · rw [List.mem_singleton.mp hAdded]
        exact .inl hId
    · exact hBuffered old hOld other hOther

section

variable (h : Stable quiet fresh buffered Safe I) {endpoint : NotificationEndpoint}

include h

theorem debounce (hQuiet : quiet) {id : String} (hI : I desk.store)
    (hId : id ∈ fresh) (hBuffered : Buffered fresh buffered desk.buffers) : I (debounce world desk endpoint id).1.store := by
  unfold Notifications.debounce
  dsimp only
  split
  · exact hI
  · rename_i store hUpdate
    have hStore := h.updateDelivery hI (h.drawn hId rfl) hUpdate
    split
    · exact h.flushDebounce hQuiet hStore (buffered_bufferDelivery hId hBuffered)
    · exact hStore

theorem runPipeline (hQuiet : quiet) {delivery : DeliveryRecord} (hI : I desk.store)
    (hId : delivery.id ∈ fresh) (hBuffered : Buffered fresh buffered desk.buffers) :
    I (runPipeline content world desk endpoint delivery).1.store := by
  unfold Notifications.runPipeline
  split
  · exact h.getD_updateDelivery hI (h.drawn hId rfl)
  · dsimp only
    split
    · exact hI
    · rename_i store hUpdate
      have hStore := h.updateDelivery hI (h.drawn hId rfl) hUpdate
      split
      · exact h.debounce hQuiet hStore hId hBuffered
      · refine h.dispatchGroup hStore fun other hOther => .inl ?_
        rw [List.mem_singleton.mp hOther]
        exact hId

theorem receipt {record : DeliveryRecord} (hI : I desk.store) (hId : record.id ∈ fresh)
    (hBlank : record.messageIds = []) : I (desk.receipt record).store := by
  unfold Desk.receipt
  cases hInsert : desk.store.insertDelivery record with
  | none => exact hI
  | some after => exact h.insertDelivery hI hId hBlank hInsert

theorem ingest (hQuiet : quiet) {input : IngestInput} {id : String} (hI : I desk.store) (hId : id ∈ fresh)
    (hBuffered : Buffered fresh buffered desk.buffers) : I (ingest content world desk input id).1.store := by
  unfold Notifications.ingest
  split
  · split
    · exact hI
    · exact h.receipt hI hId rfl
  · split
    · exact h.receipt hI hId rfl
    · split
      · exact hI
      · dsimp only
        split
        · exact hI
        · rename_i store hInsert
          exact h.runPipeline hQuiet (h.insertDelivery hI hId rfl hInsert) hId hBuffered

theorem replay (hQuiet : quiet) {deliveryId id : String} (hI : I desk.store) (hId : id ∈ fresh)
    (hBuffered : Buffered fresh buffered desk.buffers) : I (replay content world desk deliveryId id).1.store := by
  unfold Notifications.replay
  split
  · exact hI
  · split
    · exact hI
    · split
      · exact hI
      · dsimp only
        split
        · exact hI
        · rename_i store hInsert
          exact h.runPipeline hQuiet (h.insertDelivery hI hId rfl hInsert) hId hBuffered

theorem sweepBuffers (hQuiet : quiet) {buffers : List DebounceBuffer} (hI : I desk.store)
    (hBuffered : Buffered fresh buffered desk.buffers) : I (sweepBuffers world buffers desk).1.store := by
  induction buffers generalizing desk with
  | nil => exact hI
  | cons buffer buffers ih =>
    rw [Notifications.sweepBuffers]
    dsimp only
    split
    · exact ih (h.flushDebounce hQuiet hI hBuffered) (buffered_flushDebounce hBuffered)
    · exact ih hI hBuffered

theorem expire {row : PendingRecord} (hI : I store) : I (expire store row) := by
  have hEach : ∀ deliveries : List DeliveryRecord, (∀ delivery ∈ deliveries, delivery ∈ store.deliveries.rows) → ∀ after, I after →
      I (deliveries.foldl (fun store delivery =>
        if delivery.status = .pending then
          (store.updateDelivery delivery.id ⟨some .expired, some (some s!"queue TTL lapsed before {row.memberName} woke"), [], none,
            none⟩).getD store
        else store) after) := by
    intro deliveries hDeliveries
    induction deliveries with
    | nil => exact fun after hAfter => hAfter
    | cons delivery deliveries ih =>
      intro after hAfter
      obtain ⟨hStored, hRest⟩ := List.forall_mem_cons.mp hDeliveries
      rw [List.foldl_cons]
      refine ih hRest _ ?_
      split
      · rename_i hPending
        exact h.getD_updateDelivery hAfter (h.lapsed hI hStored hPending rfl rfl)
      · exact hAfter
  exact hEach _ (fun delivery hDelivery => (mem_deliveriesByIds hDelivery).1) store hI

theorem sweep (hQuiet : quiet) (hI : I desk.store) (hBuffered : Buffered fresh buffered desk.buffers) :
    I (sweep world desk).1.store := by
  have hSwept : I (Notifications.sweepBuffers world desk.buffers.rows desk).1.store := h.sweepBuffers hQuiet hI hBuffered
  have hLapsed : ∀ (rows : List PendingRecord) (store : Store), I store → I (rows.foldl Notifications.expire store) := by
    intro rows
    induction rows with
    | nil => exact fun store hStore => hStore
    | cons row rows ih => exact fun store hStore => ih _ (h.expire hStore)
  refine h.runTasks (hLapsed _ _ (h.deletePending hSwept _)) fun job hJob => ?_
  obtain ⟨⟨endpointId, group, hTask, _⟩, _⟩ := of_recovering hJob
  exact absurd hTask (recover_not_mem_starvedTasks _ _ _)

theorem recover (hQuiet : quiet) (hI : I store) :
    I (Notifications.runTasks world (recoverTasks store.listStrandedDebounce) store).store := by
  refine h.runTasks hI fun job hJob => Reached.of_forall fun index delivery hDelivery row _ => ?_
  obtain ⟨⟨endpointId, group, hTask, hGroup⟩, hNoMessage, hAcknowledged⟩ := of_recovering hJob
  obtain ⟨_, _, hSame⟩ := List.mem_map.mp hTask
  cases hSame
  have hStranded := (List.mem_insertionSort _).mp (List.mem_filter.mp (hGroup delivery hDelivery)).1
  obtain ⟨hStored, hPending⟩ := (mem_select _ _ _).mp hStranded
  have hStatus := (Bool.and_eq_true_iff.mp hPending).1
  exact h.read hI hStored hNoMessage hAcknowledged (.inr ⟨hQuiet, .inr (of_decide_eq_true hStatus)⟩)

theorem foldl_updateDelivery {deliveries : List DeliveryRecord} {patch : DeliveryPatch}
    (hSafe : ∀ delivery ∈ deliveries, Safe delivery.id patch) (hI : I store) :
    I (deliveries.foldl (fun store delivery => (store.updateDelivery delivery.id patch).getD store) store) := by
  induction deliveries generalizing store with
  | nil => exact hI
  | cons delivery deliveries ih =>
    obtain ⟨hFirst, hRest⟩ := List.forall_mem_cons.mp hSafe
    exact ih hRest (h.getD_updateDelivery hI hFirst)

theorem perform {call : World × Event} (hI : I desk.store)
    (hQuiet : call.2.finishing call.1 desk = none → quiet) (hFresh : ∀ id ∈ call.2.draws, id ∈ fresh)
    (hBuffered : Buffered fresh buffered desk.buffers)
    (hFinishing : ∀ job, call.2.finishing call.1 desk = some job →
      Reached desk.store.deliveries (fun index delivery _ => Safe delivery.id (job.patch call.1.now index delivery)) 0 job.newest)
    (hHeard : ∀ frame, call.2 = .disposition frame → I (onMessageDisposition desk.store frame)) :
    I (serve content desk call).1.store := by
  obtain ⟨world, event⟩ := call
  cases event with
  | ingest input id => exact h.ingest (hQuiet rfl) hI (hFresh id (List.mem_singleton_self id)) hBuffered
  | replay deliveryId id => exact h.replay (hQuiet rfl) hI (hFresh id (List.mem_singleton_self id)) hBuffered
  | pushed index outcome =>
    rw [serve, Event.perform]
    split
    · rename_i flight hProcess
      refine h.deliver hI fun middle last hPass => hFinishing last ?_
      rw [Event.finishing, hProcess]
      exact congrArg (Option.map Prod.snd) hPass
    · exact hI
  | proceed index =>
    rw [serve, Event.perform]
    split
    · rename_i tasks hProcess
      refine h.runTasks hI fun job hJob => hFinishing job ?_
      rw [Event.finishing, hProcess]
      exact hJob
    · exact hI
  | timer endpointId => exact h.flushDebounce (hQuiet rfl) hI hBuffered
  | onWake memberName =>
    refine h.runTasks hI fun job hJob => ?_
    obtain ⟨⟨endpointId, group, hTask, _⟩, _⟩ := of_recovering hJob
    exact absurd hTask (recover_not_mem_flushTasks _ _ _ _)
  | onActivityReport memberName working =>
    cases working with
    | true => exact hI
    | false =>
      refine h.runTasks hI fun job hJob => ?_
      obtain ⟨⟨endpointId, group, hTask, _⟩, _⟩ := of_recovering hJob
      exact absurd hTask (recover_not_mem_flushTasks _ _ _ _)
  | sweep => exact h.sweep (hQuiet rfl) hI hBuffered
  | recover => exact h.recover (hQuiet rfl) hI
  | disposition frame => exact hHeard frame rfl
  | put endpoint =>
    refine h.same ?_ hI
    change (desk.store.put endpoint).deliveries = _
    unfold Store.put
    split <;> rfl
  | delete endpointId => exact h.less List.filter_sublist.subset hI

end

end Buffers

end Stable

end CommandSuite.Notifications
