import CommandSuite.Core.Notifications.Flushes
import CommandSuite.Core.Notifications.Leaves

/-! # What a flush reaches

A flush goes on with its next group when the one before is written. A receipt that is gone by then ends it.
-/

namespace CommandSuite.Notifications

open Library Mark Store

def Process.recoveries (process : Process) : Groups := process.tasks.flatMap Task.recovery

def unreached (processes : List Process) : Groups := processes.flatMap Process.recoveries

def Mark.reached : Mark → Groups
  | .recovers endpointId group _ => [(endpointId, group)]
  | .enters _ _ | .closes _ _ _ | .boots _ => []

def Kept (store : Store) (group : List DeliveryRecord) : Prop := ∀ delivery ∈ group, store.getDeliveryRecord delivery.id ≠ none

/-- What finishes finds its receipts, or a recovery would read none of them and has nothing left. -/
def Whole (store : Store) (tasks : List Task) (job : Job) : Prop :=
  Kept store job.newest ∨ ((∀ id ∈ job.ids, ¬Stranded store id) ∧ tasks.flatMap Task.recovery = [])

def Segment.InFlight (id : String) (segment : Segment) : Prop := ∃ flight, segment.process = some (.pushing flight) ∧ id ∈ flight.job.ids

section Updates

variable {job : Job} {store : Store} {id : String} {group : List DeliveryRecord}

theorem Kept.patchDelivery (h : Kept store group) (id : String) (patch : DeliveryPatch) : Kept (store.patchDelivery id patch) group := by
  intro delivery hDelivery hNone
  rw [getDeliveryRecord, find_patchDelivery, Option.map_eq_none_iff] at hNone
  exact h delivery hDelivery hNone

theorem Kept.updateDelivery {delivery : DeliveryRecord} (h : Kept store (delivery :: group)) (patch : DeliveryPatch) :
    store.updateDelivery delivery.id patch = some (store.patchDelivery delivery.id patch) := by
  unfold Store.updateDelivery
  split
  · rename_i hNone
    exact absurd hNone (h delivery List.mem_cons_self)
  · rfl

theorem update_of_kept (h : Kept store group) (now : Int) (index : Nat) : (job.update now index group store).2 = true := by
  induction group generalizing index store with
  | nil => rfl
  | cons delivery group ih =>
    rw [Job.update, h.updateDelivery]
    exact ih (Kept.patchDelivery (fun other hOther => h other (List.mem_cons_of_mem _ hOther)) _ _) _

theorem not_stranded_update (hNoted : job.Noted) (h : Kept store group) (now : Int) (index : Nat)
    (hId : id ∈ group.map DeliveryRecord.id) : ¬Stranded (job.update now index group store).1 id := by
  induction group generalizing index store with
  | nil => cases hId
  | cons delivery group ih =>
    rw [Job.update, h.updateDelivery]
    dsimp only
    by_cases hSame : delivery.id = id
    · intro hStranded
      have hRest : Leaves True id _ (job.update now (index + 1) group (store.patchDelivery delivery.id (job.patch now index delivery))).1 :=
        leaves_update hNoted now (index + 1) (fun _ => trivial) _
      obtain ⟨record, hRecord, hDebouncing⟩ := hRest.stranded hStranded
      rw [find_patchDelivery] at hRecord
      obtain ⟨old, hOld, rfl⟩ := Option.map_eq_some_iff.mp hRecord
      have hKey : old.id = id := Table.key_of_find hOld
      rw [if_pos (hKey.trans hSame.symm)] at hDebouncing
      exact not_debouncing_patch hNoted now index delivery old hDebouncing
    · have hLater := (List.mem_cons.mp hId).resolve_left fun hFirst => hSame hFirst.symm
      exact ih (Kept.patchDelivery (fun other hOther => h other (List.mem_cons_of_mem _ hOther)) _ _) _ hLater

theorem Whole.tail {task : Task} {tasks : List Task} (h : Whole store (task :: tasks) job) : Whole store tasks job := by
  refine h.imp_right fun hNone => ⟨hNone.1, ?_⟩
  exact (List.append_eq_nil_iff.mp hNone.2).2

theorem Kept.of_read {ids : List String} (hGroup : group ⊆ store.deliveriesByIds ids) : Kept store group := by
  intro delivery hDelivery
  have hStored := (Stable.mem_deliveriesByIds (hGroup hDelivery)).1
  have hFind : store.deliveries.find delivery.id = some delivery := (Table.find_eq_some_iff _ _ _).mpr ⟨hStored, rfl⟩
  rw [getDeliveryRecord, hFind]
  exact Option.some_ne_none _

end Updates

/-! ## Dispatches -/

section Dispatches

variable {world : World} {store middle : Store} {job last : Job} {id : String} {group : List DeliveryRecord} {tasks : List Task}
  {targets : List NotificationTarget} {endpoint : NotificationEndpoint} {options : DispatchOptions}

theorem noted_pass (hNoted : job.Noted) (hPass : Job.pass world targets store job = some (middle, last)) : last.Noted := by
  induction targets generalizing store job with
  | nil =>
    cases hPass
    exact hNoted
  | cons target targets ih =>
    rw [Job.pass] at hPass
    split at hPass
    · cases hPass
    · rename_i next job' hTurn
      have hNext : Leaves True "" store next ∧ job'.Noted := leaves_turn hTurn hNoted fun _ => trivial
      exact ih hNext.2 hPass

theorem deliver_ends (tasks : List Task) (targets : List NotificationTarget) (store : Store) (job : Job) :
    (∃ middle last, Job.pass world targets store job = some (middle, last) ∧
      (deliver world tasks targets store job).store = (last.update world.now 0 last.newest middle).1 ∧
      (deliver world tasks targets store job).process =
        if (last.update world.now 0 last.newest middle).2 then goesOn tasks else none) ∨
    ∃ flight, (deliver world tasks targets store job).process = some (.pushing flight) ∧ flight.tasks = tasks ∧
      flight.job.newest = job.newest := by
  induction targets generalizing store job with
  | nil =>
    refine .inl ⟨store, job, rfl, ?_⟩
    rw [deliver]
    split <;> rename_i hUpdate <;> rw [hUpdate] <;> exact ⟨rfl, rfl⟩
  | cons target targets ih =>
    cases hTurn : job.turn world store target with
    | awaits push =>
      rw [deliver, hTurn]
      exact .inr ⟨_, rfl, rfl, rfl⟩
    | passes next job' =>
      rw [deliver, Job.pass, hTurn]
      rcases ih next job' with hFinishes | ⟨flight, hProcess, hTasks, hNewest⟩
      · exact .inl hFinishes
      · exact .inr ⟨flight, hProcess, hTasks, hNewest.trans (passed_turn hTurn).2.newest⟩

theorem inFlight_deliver (hNoted : job.Noted) (hId : id ∈ job.ids)
    (hWhole : ∀ middle last, Job.pass world targets store job = some (middle, last) → Whole store tasks last)
    (hStranded : Stranded (deliver world tasks targets store job).store id) : (deliver world tasks targets store job).InFlight id := by
  rcases deliver_ends tasks targets store job with ⟨middle, last, hPass, hStore, _⟩ | ⟨flight, hProcess, _, hNewest⟩
  · obtain ⟨hDeliveries, hPassed⟩ := passed_pass hPass
    have hLast : last.Noted := noted_pass hNoted hPass
    have hMem : id ∈ last.ids := by
      rw [Job.ids, hPassed.newest]
      exact hId
    rw [hStore] at hStranded
    rcases hWhole middle last hPass with hKept | ⟨hNone, _⟩
    · have hMiddle : Kept middle last.newest := by
        unfold Kept getDeliveryRecord
        rw [hDeliveries]
        exact hKept
      exact absurd hStranded (not_stranded_update hLast hMiddle world.now 0 hMem)
    · have hUpdate : Leaves True id middle (last.update world.now 0 last.newest middle).1 :=
        leaves_update hLast world.now 0 (fun _ => trivial) middle
      have hBefore := hUpdate.stranded hStranded
      unfold Stranded at hBefore
      rw [hDeliveries] at hBefore
      exact absurd hBefore (hNone id hMem)
  · refine ⟨flight, hProcess, ?_⟩
    rw [Job.ids, hNewest]
    exact hId

theorem unreached_goesOn (tasks : List Task) : unreached (goesOn tasks).toList = tasks.flatMap Task.recovery := by
  cases tasks with
  | nil => rfl
  | cons task tasks => exact List.append_nil _

theorem unreached_deliver
    (hWhole : ∀ middle last, Job.pass world targets store job = some (middle, last) → Whole store tasks last) :
    unreached (deliver world tasks targets store job).process.toList = tasks.flatMap Task.recovery := by
  rcases deliver_ends tasks targets store job with ⟨middle, last, hPass, _, hProcess⟩ | ⟨flight, hProcess, hTasks, _⟩
  · rw [hProcess]
    rcases hWhole middle last hPass with hKept | ⟨_, hNone⟩
    · have hMiddle : Kept middle last.newest := by
        unfold Kept getDeliveryRecord
        rw [(passed_pass hPass).1]
        exact hKept
      rw [update_of_kept hMiddle, if_pos rfl]
      exact unreached_goesOn tasks
    · split
      · exact unreached_goesOn tasks
      · exact hNone.symm
  · rw [hProcess, ← hTasks]
    exact List.append_nil _

theorem dispatchGroup_reaches (hWhole : ∀ primary older middle last, newestFirst group = primary :: older →
      Job.pass world (match options.forceMember with | some name => [⟨some name, none⟩] | none => endpoint.targets) store
        ⟨endpoint, primary, older, options, world.now, [], 0, [], 0⟩ = some (middle, last) → Whole store tasks last) :
    unreached (dispatchGroup world store endpoint group options tasks).process.toList = tasks.flatMap Task.recovery ∧
      (id ∈ group.map DeliveryRecord.id → Stranded (dispatchGroup world store endpoint group options tasks).store id →
        (dispatchGroup world store endpoint group options tasks).InFlight id) := by
  unfold dispatchGroup
  split
  · rename_i hNone
    refine ⟨unreached_goesOn tasks, fun hId => ?_⟩
    obtain ⟨delivery, hDelivery, _⟩ := List.mem_map.mp hId
    rw [← mem_newestFirst, hNone] at hDelivery
    cases hDelivery
  · rename_i primary older hNewest
    refine ⟨unreached_deliver fun middle last => hWhole primary older middle last hNewest, fun hId hStranded => ?_⟩
    refine inFlight_deliver (fun _ hNote => (nomatch hNote)) ?_ (fun middle last => hWhole primary older middle last hNewest) hStranded
    obtain ⟨delivery, hDelivery, hSame⟩ := List.mem_map.mp hId
    rw [← mem_newestFirst, hNewest] at hDelivery
    exact List.mem_map.mpr ⟨delivery, hDelivery, hSame⟩

theorem whole_of_kept (hKept : Kept store group) {primary : DeliveryRecord} {older : List DeliveryRecord} {composedAt : Int}
    (hNewest : newestFirst group = primary :: older)
    (hPass : Job.pass world targets store ⟨endpoint, primary, older, options, composedAt, [], 0, [], 0⟩ = some (middle, last)) :
    Whole store tasks last := by
  refine .inl fun delivery hDelivery => hKept delivery ?_
  rw [(passed_pass hPass).2.newest] at hDelivery
  rw [← mem_newestFirst, hNewest]
  exact hDelivery

section

variable (hWhole : ∀ primary older middle last, newestFirst group = primary :: older → Job.pass world (match options.forceMember with | some name => [⟨some name, none⟩] | none => endpoint.targets) store ⟨endpoint, primary, older, options, world.now, [], 0, [], 0⟩ = some (middle, last) → Whole store tasks last)
include hWhole

theorem inFlight_dispatchGroup
    (hId : id ∈ group.map DeliveryRecord.id) (hStranded : Stranded (dispatchGroup world store endpoint group options tasks).store id) :
    (dispatchGroup world store endpoint group options tasks).InFlight id :=
  (dispatchGroup_reaches hWhole).2 hId hStranded

theorem unreached_dispatchGroup :
    unreached (dispatchGroup world store endpoint group options tasks).process.toList = tasks.flatMap Task.recovery :=
  (@dispatchGroup_reaches world store "" group tasks endpoint options hWhole).1

end

theorem runTasks_reaches (hWhole : ∀ job, recovering world tasks store = some job → Whole store tasks job) :
    (taskMarks tasks store).flatMap reached ++ unreached (runTasks world tasks store).process.toList = tasks.flatMap Task.recovery ∧
      (id ∈ passed (taskMarks tasks store) → Stranded (runTasks world tasks store).store id → (runTasks world tasks store).InFlight id) := by
  induction tasks generalizing store with
  | nil => exact ⟨rfl, by rintro ⟨⟩⟩
  | cons task tasks ih =>
    cases task with
    | pause => exact ⟨unreached_goesOn tasks, by rintro ⟨⟩⟩
    | flush memberName endpointId rows =>
      rw [recovering] at hWhole
      rw [runTasks, taskMarks]
      dsimp only at hWhole ⊢
      cases hEndpoint : (store.deletePending (rows.map PendingRecord.id)).get endpointId with
      | none =>
        rw [hEndpoint] at hWhole
        exact ih fun job hJob => (hWhole job hJob).tail
      | some endpoint =>
        rw [hEndpoint] at hWhole
        cases hRead : (store.deletePending (rows.map PendingRecord.id)).deliveriesByIds
            (rows.flatMap PendingRecord.deliveryIds).eraseDups with
        | nil =>
          rw [hRead] at hWhole
          exact ih fun job hJob => (hWhole job hJob).tail
        | cons delivery deliveries =>
          have hKept : Kept (store.deletePending (rows.map PendingRecord.id)) (delivery :: deliveries) := by
            rw [← hRead]
            exact Kept.of_read (List.Subset.refl _)
          exact ⟨unreached_dispatchGroup fun primary older middle last => whole_of_kept hKept, by rintro ⟨⟩⟩
    | recover endpointId group =>
      rw [recovering] at hWhole
      rw [runTasks, taskMarks]
      cases hEndpoint : store.get endpointId with
      | none =>
        rw [hEndpoint] at hWhole
        obtain ⟨hReached, hFlight⟩ := ih fun job hJob => (hWhole job hJob).tail
        refine ⟨congrArg ((endpointId, group) :: ·) hReached, fun hId => hFlight ?_⟩
        rcases List.mem_append.mp hId with hFirst | hLater
        · change id ∈ (recovers endpointId group store).group.map DeliveryRecord.id at hFirst
          rw [group_recovers_of_none hEndpoint] at hFirst
          cases hFirst
        · exact hLater
      | some endpoint =>
        rw [hEndpoint] at hWhole
        have hFinished : ∀ primary older middle last, newestFirst group = primary :: older →
            Job.pass world endpoint.targets store ⟨endpoint, primary, older, .plain, world.now, [], 0, [], 0⟩ = some (middle, last) →
            Whole store tasks last := by
          intro primary older middle last hNewest hPass
          refine (hWhole last ?_).tail
          dsimp only
          rw [finished, hNewest]
          exact congrArg (Option.map Prod.snd) hPass
        obtain ⟨hReached, hFlight⟩ : unreached (dispatchGroup world store endpoint group .plain tasks).process.toList =
            tasks.flatMap Task.recovery ∧ (id ∈ group.map DeliveryRecord.id → _ → _) := dispatchGroup_reaches hFinished
        refine ⟨congrArg ((endpointId, group) :: ·) hReached, fun hId => hFlight ?_⟩
        rcases List.mem_append.mp hId with hFirst | hLater
        · change id ∈ (recovers endpointId group store).group.map DeliveryRecord.id at hFirst
          rw [group_recovers hEndpoint] at hFirst
          exact hFirst
        · cases hLater

theorem unreached_runTasks (hWhole : ∀ job, recovering world tasks store = some job → Whole store tasks job) :
    (taskMarks tasks store).flatMap reached ++ unreached (runTasks world tasks store).process.toList = tasks.flatMap Task.recovery :=
  (@runTasks_reaches world store "" tasks hWhole).1

end Dispatches

end CommandSuite.Notifications
