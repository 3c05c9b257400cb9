import CommandSuite.Core.Notifications.Windows

/-! # When a window closes

Its timer fires, a sweep finds it due, or it has as many deliveries as the policy allows.
-/

namespace CommandSuite.Notifications

open Library Mark Store Action

def Action.Due (desk : Desk) (buffer : DebounceBuffer) : Action → Prop
  | .call _ (.timer endpointId) => endpointId = buffer.endpointId
  | .call world .sweep =>
    world.now - buffer.firstAt ≥ ((desk.store.get buffer.endpointId).map fun endpoint => endpoint.policy.debounceMs).getD 0
  | _ => False

/-! ## Endpoints -/

section Endpoints

variable {world : World} {store after : Store} {job job' : Job} {tasks : List Task}

theorem endpoints_updateDelivery {id : String} {patch : DeliveryPatch} (hUpdate : store.updateDelivery id patch = some after) :
    after.endpoints = store.endpoints := by
  unfold updateDelivery at hUpdate
  split at hUpdate
  · cases hUpdate
  · cases hUpdate
    rfl

theorem endpoints_update (now : Int) (index : Nat) (group : List DeliveryRecord) (store : Store) :
    (job.update now index group store).1.endpoints = store.endpoints := by
  induction group generalizing index store with
  | nil => rfl
  | cons delivery group ih =>
    rw [Job.update]
    split
    · rfl
    · rename_i updated hUpdate
      exact (ih (index + 1) updated).trans (endpoints_updateDelivery hUpdate)

theorem endpoints_turn {target : NotificationTarget} (hTurn : job.turn world store target = .passes after job') :
    after.endpoints = store.endpoints := by
  unfold Job.turn at hTurn
  split at hTurn
  · cases hTurn
  · cases hTurn
    rfl
  · unfold Job.memberTurn at hTurn
    dsimp only at hTurn
    split at hTurn
    · cases hTurn
      rfl
    · split at hTurn
      · split at hTurn <;> cases hTurn <;> rfl
      · split at hTurn <;> cases hTurn
        rfl

theorem endpoints_deliver (targets : List NotificationTarget) (store : Store) (job : Job) :
    (deliver world tasks targets store job).store.endpoints = store.endpoints := by
  induction targets generalizing store job with
  | nil =>
    have hUpdate : (job.update world.now 0 job.newest store).1.endpoints = store.endpoints := endpoints_update world.now 0 _ store
    rw [deliver]
    split <;> rename_i after hSame <;> rw [hSame] at hUpdate <;> exact hUpdate
  | cons target targets ih =>
    rw [deliver]
    split
    · rfl
    · rename_i next job' hTurn
      exact (ih next job').trans (endpoints_turn hTurn)

theorem endpoints_flushDebounce (desk : Desk) (endpointId : String) :
    (flushDebounce world desk endpointId).1.store.endpoints = desk.store.endpoints := by
  unfold flushDebounce
  split
  · rfl
  · dsimp only
    split
    · rfl
    · unfold Desk.spawn dispatchGroup
      dsimp only
      split
      · rfl
      · exact endpoints_deliver _ _ _

end Endpoints

/-! ## Sweeps -/

section Sweeps

variable {world : World} {desk : Desk} {buffer : DebounceBuffer} {endpointId : String}

theorem flushMarks_of_find (hBuffer : desk.buffers.find endpointId = some buffer) :
    flushMarks desk endpointId = [.closes endpointId buffer.deliveryIds desk.store] := by
  rw [flushMarks, hBuffer]
  rfl

theorem find_flushDebounce {other : String} (hOther : endpointId ≠ other) :
    (flushDebounce world desk endpointId).1.buffers.find other = desk.buffers.find other := by
  have hDeleted : (desk.buffers.delete fun buffer => buffer.endpointId = endpointId).find other = desk.buffers.find other := by
    rw [Table.find_delete]
    cases hFind : desk.buffers.find other with
    | none => rfl
    | some buffer =>
      have hKey : buffer.endpointId = other := Table.key_of_find hFind
      simp [Option.filter, hKey, Ne.symm hOther]
  unfold flushDebounce
  split
  · rfl
  · dsimp only
    split <;> exact hDeleted

theorem closes_sweepMarks {buffers : List DebounceBuffer} (hFind : ∀ other ∈ buffers, desk.buffers.find other.endpointId = some other)
    (hKeys : (buffers.map DebounceBuffer.endpointId).Nodup) (hBuffer : buffer ∈ buffers)
    (hDue : (call world .sweep).Due desk buffer) :
    ∃ store, .closes buffer.endpointId buffer.deliveryIds store ∈ sweepMarks world buffers desk := by
  induction buffers generalizing desk with
  | nil => cases hBuffer
  | cons head buffers ih =>
    obtain ⟨hHead, hRest⟩ := List.forall_mem_cons.mp hFind
    obtain ⟨hNew, hOthers⟩ := List.nodup_cons.mp hKeys
    rw [sweepMarks]
    rcases List.mem_cons.mp hBuffer with rfl | hLater
    · split
      · rw [flushMarks_of_find hHead]
        exact ⟨desk.store, List.mem_cons_self⟩
      · rename_i hEarly
        exact absurd hDue hEarly
    · split
      · have hStill : ∀ other ∈ buffers, (flushDebounce world desk head.endpointId).1.buffers.find other.endpointId = some other := by
          intro other hOther
          have hNe : head.endpointId ≠ other.endpointId := fun hSame => hNew (hSame ▸ List.mem_map_of_mem hOther)
          rw [find_flushDebounce hNe]
          exact hRest other hOther
        have hSame : (call world .sweep).Due (flushDebounce world desk head.endpointId).1 buffer := by
          unfold Due Store.get
          rw [endpoints_flushDebounce]
          exact hDue
        obtain ⟨store, hMark⟩ := ih hStill hOthers hLater hSame
        exact ⟨store, List.mem_append_right _ hMark⟩
      · exact ih hRest hOthers hLater hDue

theorem closes_of_due (content : Content) {action : Action} (hBuffer : buffer ∈ desk.buffers.rows) (hDue : action.Due desk buffer) :
    ∃ store, .closes buffer.endpointId buffer.deliveryIds store ∈ (action.perform content desk).2 := by
  have hFind : ∀ other ∈ desk.buffers.rows, desk.buffers.find other.endpointId = some other := fun other hOther => Table.find_key hOther
  cases action with
  | boot world => cases hDue
  | call world event =>
    cases event with
    | timer endpointId =>
      cases hDue
      refine ⟨desk.store, ?_⟩
      change closes buffer.endpointId buffer.deliveryIds desk.store ∈ flushMarks desk buffer.endpointId
      rw [flushMarks_of_find (hFind buffer hBuffer)]
      exact List.mem_singleton_self _
    | sweep => exact closes_sweepMarks hFind desk.buffers.nodup hBuffer hDue
    | _ => cases hDue

end Sweeps

/-! ## Full windows -/

def Unfilled (buffers : Table DebounceBuffer.key) (endpoint : NotificationEndpoint) : Prop :=
  bufferedFor buffers endpoint.id = [] ∨ ((bufferedFor buffers endpoint.id).length : Int) < endpoint.policy.debounceMax

section Rooms

variable {content : Content} {world : World} {desk : Desk} {endpoint entered : NotificationEndpoint} {id newest : String}

theorem bufferedFor_flushDebounce (endpointId : String) : bufferedFor (flushDebounce world desk endpointId).1.buffers endpointId = [] := by
  have hDeleted : bufferedFor (desk.buffers.delete fun buffer => buffer.endpointId = endpointId) endpointId = [] := by
    rw [bufferedFor_delete, if_pos rfl]
  unfold flushDebounce
  split
  · rename_i hNone
    rw [bufferedFor, hNone]
    rfl
  · dsimp only
    split <;> exact hDeleted

theorem enters_not_mem_flushMarks (endpointId : String) : enters entered id ∉ flushMarks desk endpointId := by
  intro hMem
  obtain ⟨_, _, hSame⟩ := List.mem_map.mp hMem
  exact Mark.noConfusion hSame

theorem enters_not_mem_sweepMarks (buffers : List DebounceBuffer) : enters entered id ∉ sweepMarks world buffers desk := by
  induction buffers generalizing desk with
  | nil => exact List.not_mem_nil
  | cons buffer buffers ih =>
    rw [sweepMarks]
    split
    · exact fun hMem => (List.mem_append.mp hMem).elim (enters_not_mem_flushMarks _) ih
    · exact ih

theorem kept_of_updateDelivery {store : Store} {patch : DeliveryPatch} (hUpdate : desk.store.updateDelivery id patch = some store) :
    store.getDeliveryRecord id ≠ none := by
  unfold updateDelivery at hUpdate
  split at hUpdate
  · cases hUpdate
  · rename_i old hOld
    cases hUpdate
    intro hNone
    rw [getDeliveryRecord, find_patchDelivery, Option.map_eq_none_iff] at hNone
    rw [getDeliveryRecord, hNone] at hOld
    cases hOld

theorem hasRoom_debounce (hKept : desk.store.getDeliveryRecord newest ≠ none)
    (hEnters : .enters entered id ∈ debounceMarks world desk endpoint newest) :
    Unfilled (debounce world desk endpoint newest).1.buffers entered := by
  obtain ⟨record, hRecord⟩ := Option.ne_none_iff_exists'.mp hKept
  have hUpdate : desk.store.updateDelivery newest ⟨some .pending, some (some "debouncing"), [], none, none⟩ =
      some (desk.store.patchDelivery newest ⟨some .pending, some (some "debouncing"), [], none, none⟩) := by
    rw [updateDelivery, hRecord]
  unfold debounceMarks at hEnters
  unfold debounce
  rw [hUpdate] at hEnters ⊢
  dsimp only at hEnters ⊢
  have hSame : entered = endpoint := by
    rcases List.mem_cons.mp hEnters with hFirst | hRest
    · exact (enters.inj hFirst).1
    · split at hRest
      · exact absurd hRest (enters_not_mem_flushMarks _)
      · cases hRest
  subst hSame
  split
  · exact .inl (bufferedFor_flushDebounce _)
  · rename_i hSize
    refine .inr ?_
    rw [bufferedFor]
    cases hFind : (bufferDelivery world.now entered.id newest desk.buffers).find entered.id with
    | none =>
      rw [hFind] at hSize
      exact not_le.mp hSize
    | some buffer =>
      rw [hFind] at hSize
      exact not_le.mp hSize

theorem hasRoom_pipeline {record : DeliveryRecord} (hEnters : .enters entered id ∈ pipelineMarks content world desk endpoint record) :
    Unfilled (runPipeline content world desk endpoint record).1.buffers entered := by
  unfold pipelineMarks at hEnters
  unfold runPipeline
  cases hRefuses : content.refuses endpoint.filters record.body with
  | some reason =>
    rw [hRefuses] at hEnters
    cases hEnters
  | none =>
    rw [hRefuses] at hEnters
    dsimp only at hEnters ⊢
    cases hUpdate : desk.store.updateDelivery record.id
        ⟨none, none, [], some (content.rendered endpoint.template record.body), none⟩ with
    | none =>
      rw [hUpdate] at hEnters
      cases hEnters
    | some store =>
      rw [hUpdate] at hEnters
      dsimp only at hEnters ⊢
      split at hEnters
      · rename_i hDebounced
        rw [if_pos hDebounced]
        exact hasRoom_debounce (kept_of_updateDelivery hUpdate) hEnters
      · cases hEnters

theorem hasRoom_ingest {input : IngestInput} {newest : String} (hEnters : .enters entered id ∈ ingestMarks content world desk input newest) :
    Unfilled (ingest content world desk input newest).1.buffers entered := by
  unfold ingestMarks at hEnters
  unfold ingest
  cases hRefused : input.refused with
  | some reason =>
    rw [hRefused] at hEnters
    cases hEnters
  | none =>
    rw [hRefused] at hEnters
    dsimp only at hEnters ⊢
    split at hEnters
    · cases hEnters
    · rename_i hEnabled
      rw [if_neg hEnabled]
      cases hExisting : input.dedupeKey.bind (desk.store.findDeliveryByDedupe input.endpoint.id) with
      | some existing =>
        rw [hExisting] at hEnters
        cases hEnters
      | none =>
        rw [hExisting] at hEnters
        dsimp only at hEnters ⊢
        cases hInsert : desk.store.insertDelivery (input.record newest world.now .pending none input.dedupeKey input.body) with
        | none =>
          rw [hInsert] at hEnters
          cases hEnters
        | some store =>
          rw [hInsert] at hEnters
          exact hasRoom_pipeline hEnters

theorem hasRoom_replay {deliveryId newest : String} (hEnters : .enters entered id ∈ replayMarks content world desk deliveryId newest) :
    Unfilled (replay content world desk deliveryId newest).1.buffers entered := by
  unfold replayMarks at hEnters
  unfold replay
  cases hSource : desk.store.getDeliveryRecord deliveryId with
  | none =>
    rw [hSource] at hEnters
    cases hEnters
  | some source =>
    rw [hSource] at hEnters
    dsimp only at hEnters ⊢
    split at hEnters
    · cases hEnters
    · rename_i hRejected
      rw [if_neg hRejected]
      cases hEndpoint : desk.store.get source.endpointId with
      | none =>
        rw [hEndpoint] at hEnters
        cases hEnters
      | some endpoint =>
        rw [hEndpoint] at hEnters
        dsimp only at hEnters ⊢
        generalize desk.store.insertDelivery _ = inserted at hEnters ⊢
        cases inserted with
        | none => cases hEnters
        | some store => exact hasRoom_pipeline hEnters

theorem hasRoom_of_enters {action : Action} (hEnters : .enters entered id ∈ (action.perform content desk).2) :
    Unfilled (action.perform content desk).1.buffers entered := by
  have hTasks : ∀ tasks store, enters entered id ∉ taskMarks tasks store := fun tasks store hMem =>
    (taskMarks_neutral _ hMem).2 entered id rfl
  cases action with
  | boot world =>
    rcases List.mem_cons.mp hEnters with hFirst | hRest
    · exact Mark.noConfusion hFirst
    · exact absurd hRest (hTasks _ _)
  | call world event =>
    change enters entered id ∈ event.marks content world desk at hEnters
    cases event with
    | ingest input id => exact hasRoom_ingest hEnters
    | replay deliveryId id => exact hasRoom_replay hEnters
    | proceed index =>
      rw [Event.marks] at hEnters
      split at hEnters
      · exact absurd hEnters (hTasks _ _)
      · cases hEnters
    | timer endpointId => exact absurd hEnters (enters_not_mem_flushMarks _)
    | sweep => exact absurd hEnters (enters_not_mem_sweepMarks _)
    | recover => exact absurd hEnters (hTasks _ _)
    | _ => cases hEnters

end Rooms

end CommandSuite.Notifications
