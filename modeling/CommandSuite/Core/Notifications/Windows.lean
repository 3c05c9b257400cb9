import CommandSuite.Core.Notifications.Rewrites

/-! # Windows

The deliveries that enter a buffer, from one flush of it to the next. A broker that starts again has lost its buffers and
the calls that awaited, and recovers what they left stranded.
-/

namespace CommandSuite.Notifications

open Library Table

/-- What a call does with deliveries that are buffered or stranded. A flush and a recovery look up their endpoint in the store
of that moment. -/
inductive Mark where
  | enters (endpoint : NotificationEndpoint) (id : String)
  | closes (endpointId : String) (ids : List String) (store : Store)
  | boots (store : Store)
  | recovers (endpointId : String) (group : List DeliveryRecord) (store : Store)

abbrev Groups := List (String × List DeliveryRecord)

def Task.recovery : Task → Groups
  | .recover endpointId group => [(endpointId, group)]
  | .flush _ _ _ | .pause => []

structure Recovery where
  stranded : Groups
  reached : Groups

namespace Mark

/-- The group that is passed to `dispatchGroup`, if the endpoint is there. -/
def group : Mark → List DeliveryRecord
  | .closes endpointId ids store => if (store.get endpointId).isSome then store.deliveriesByIds ids else []
  | .recovers endpointId group store => if (store.get endpointId).isSome then group else []
  | .enters _ _ | .boots _ => []

/-- The delivery has its turn and is not passed on, since its endpoint is not there or its receipt is not kept. -/
def Misses (id : String) : Mark → Prop
  | .closes endpointId ids store => id ∈ ids ∧ (store.get endpointId = none ∨ store.getDeliveryRecord id = none)
  | .recovers endpointId group store => id ∈ group.map DeliveryRecord.id ∧ store.get endpointId = none
  | .boots store => store.getDeliveryRecord id = none
  | .enters _ _ => False

def window (endpointId : String) (ids : List String) : Mark → List String
  | .enters endpoint id => if endpoint.id = endpointId then ids ++ [id] else ids
  | .closes other _ _ => if other = endpointId then [] else ids
  | .boots _ => []
  | .recovers _ _ _ => ids

def recovery (recovery : Recovery) : Mark → Recovery
  | .boots store => ⟨(recoverTasks store.listStrandedDebounce).flatMap Task.recovery, []⟩
  | .recovers endpointId group _ => { recovery with reached := recovery.reached ++ [(endpointId, group)] }
  | .enters _ _ | .closes _ _ _ => recovery

end Mark

section Groups

variable {endpointId : String} {store : Store} {endpoint : NotificationEndpoint}

theorem Mark.group_closes (h : store.get endpointId = some endpoint) (ids : List String) :
    (Mark.closes endpointId ids store).group = store.deliveriesByIds ids := by
  rw [Mark.group, h]
  rfl

theorem Mark.group_closes_of_none (h : store.get endpointId = none) (ids : List String) :
    (Mark.closes endpointId ids store).group = [] := by
  rw [Mark.group, h]
  rfl

theorem Mark.group_recovers (h : store.get endpointId = some endpoint) (group : List DeliveryRecord) :
    (Mark.recovers endpointId group store).group = group := by
  rw [Mark.group, h]
  rfl

theorem Mark.group_recovers_of_none (h : store.get endpointId = none) (group : List DeliveryRecord) :
    (Mark.recovers endpointId group store).group = [] := by
  rw [Mark.group, h]
  rfl

end Groups

def passed (marks : List Mark) : List String := marks.flatMap fun mark => mark.group.map DeliveryRecord.id

def openWindow (endpointId : String) (marks : List Mark) : List String := marks.foldl (Mark.window endpointId) []

def recovery (marks : List Mark) : Recovery := marks.foldl Mark.recovery ⟨[], []⟩

/-! ## What the calls do -/

def flushMarks (desk : Desk) (endpointId : String) : List Mark :=
  (desk.buffers.find endpointId).toList.map fun buffer => .closes endpointId buffer.deliveryIds desk.store

def debounceMarks (world : World) (desk : Desk) (endpoint : NotificationEndpoint) (id : String) : List Mark :=
  let buffers := bufferDelivery world.now endpoint.id id desk.buffers
  .enters endpoint id ::
    match desk.store.updateDelivery id ⟨some .pending, some (some "debouncing"), [], none, none⟩ with
    | none => []
    | some store =>
      let size := ((buffers.find endpoint.id).map fun buffer => buffer.deliveryIds.length).getD 0
      if (size : Int) ≥ endpoint.policy.debounceMax then flushMarks { desk with store := store, buffers := buffers } endpoint.id
      else []

def pipelineMarks (content : Content) (world : World) (desk : Desk) (endpoint : NotificationEndpoint) (delivery : DeliveryRecord) :
    List Mark :=
  match content.refuses endpoint.filters delivery.body with
  | some _ => []
  | none =>
    let rendered := content.rendered endpoint.template delivery.body
    match desk.store.updateDelivery delivery.id ⟨none, none, [], some rendered, none⟩ with
    | none => []
    | some store =>
      let record := { delivery with rendered := rendered }
      if endpoint.policy.debounceMs > 0 && record.level ≠ .critical then
        debounceMarks world { desk with store := store } endpoint record.id
      else []

def ingestMarks (content : Content) (world : World) (desk : Desk) (input : IngestInput) (id : String) : List Mark :=
  match input.refused with
  | some _ => []
  | none =>
    if !input.endpoint.enabled then []
    else
      match input.dedupeKey.bind (desk.store.findDeliveryByDedupe input.endpoint.id) with
      | some _ => []
      | none =>
        let record := input.record id world.now .pending none input.dedupeKey input.body
        match desk.store.insertDelivery record with
        | none => []
        | some store => pipelineMarks content world { desk with store := store } input.endpoint record

def replayMarks (content : Content) (world : World) (desk : Desk) (deliveryId id : String) : List Mark :=
  match desk.store.getDeliveryRecord deliveryId with
  | none => []
  | some source =>
    if source.status = .rejected then []
    else
      match desk.store.get source.endpointId with
      | none => []
      | some endpoint =>
        let title := endpoint.title.getD (if endpoint.displayName = "" then endpoint.slug else endpoint.displayName)
        let fresh : DeliveryRecord := ⟨id, endpoint.id, endpoint.slug, world.now, .pending, none, none, [], source.body,
          source.contentType, "", endpoint.level, some title, none, none, some source.id⟩
        match desk.store.insertDelivery fresh with
        | none => []
        | some store => pipelineMarks content world { desk with store := store } endpoint fresh

def sweepMarks (world : World) : List DebounceBuffer → Desk → List Mark
  | [], _ => []
  | buffer :: buffers, desk =>
    let windowMs := ((desk.store.get buffer.endpointId).map fun endpoint => endpoint.policy.debounceMs).getD 0
    if world.now - buffer.firstAt ≥ windowMs then
      flushMarks desk buffer.endpointId ++ sweepMarks world buffers (flushDebounce world desk buffer.endpointId).1
    else sweepMarks world buffers desk

def taskMarks : List Task → Store → List Mark
  | [], _ => []
  | .pause :: _, _ => []
  | .flush _ endpointId rows :: tasks, store =>
    let store := store.deletePending (rows.map PendingRecord.id)
    match store.get endpointId, store.deliveriesByIds (rows.flatMap PendingRecord.deliveryIds).eraseDups with
    | none, _ | some _, [] => taskMarks tasks store
    | some _, _ :: _ => []
  | .recover endpointId group :: tasks, store =>
    .recovers endpointId group store ::
      match store.get endpointId with
      | none => taskMarks tasks store
      | some _ => []

def Event.marks (content : Content) (world : World) (desk : Desk) : Event → List Mark
  | .ingest input id => ingestMarks content world desk input id
  | .replay deliveryId id => replayMarks content world desk deliveryId id
  | .proceed index =>
    match desk.processes[index]? with
    | some (.ready tasks) => taskMarks tasks desk.store
    | _ => []
  | .timer endpointId => flushMarks desk endpointId
  | .sweep => sweepMarks world desk.buffers.rows desk
  | .recover => taskMarks (recoverTasks desk.store.listStrandedDebounce) desk.store
  | .pushed _ _ | .onWake _ | .onActivityReport _ _ | .disposition _ | .put _ | .delete _ => []

inductive Action where
  | call (world : World) (event : Event)
  | boot (world : World)

def Desk.restarted (desk : Desk) : Desk := ⟨desk.store, .empty, []⟩

def Action.perform (content : Content) (desk : Desk) : Action → Desk × List Mark
  | .call world event => ((event.perform content world desk).1, event.marks content world desk)
  | .boot world => ((Event.recover.perform content world desk.restarted).1, .boots desk.store :: Event.recover.marks content world desk.restarted)

def traced (content : Content) : Transcript.Machine Desk Action (List Mark) := Action.perform content

def Desk.new : Desk := ⟨.empty, .empty, []⟩

section Tasks

variable {tasks : List Task} {store : Store}

theorem taskMarks_recovers {mark : Mark} (hMark : mark ∈ taskMarks tasks store) :
    ∃ endpointId group store, mark = .recovers endpointId group store := by
  induction tasks generalizing store with
  | nil => cases hMark
  | cons task tasks ih =>
    cases task with
    | pause => cases hMark
    | flush memberName endpointId rows =>
      rw [taskMarks] at hMark
      split at hMark
      · exact ih hMark
      · exact ih hMark
      · cases hMark
    | recover endpointId group =>
      rw [taskMarks] at hMark
      rcases List.mem_cons.mp hMark with rfl | hRest
      · exact ⟨endpointId, group, store, rfl⟩
      · split at hRest
        · exact ih hRest
        · cases hRest

theorem taskMarks_neutral :
    ∀ mark ∈ taskMarks tasks store, (∀ store, mark ≠ .boots store) ∧ ∀ endpoint id, mark ≠ .enters endpoint id := by
  intro mark hMark
  obtain ⟨endpointId, group, store, rfl⟩ := taskMarks_recovers hMark
  exact ⟨fun _ hSame => Mark.noConfusion hSame, fun _ _ hSame => Mark.noConfusion hSame⟩

end Tasks

/-! ## Windows -/

section Windows

variable {marks : List Mark} {buffers : Table DebounceBuffer.key} {buffer : DebounceBuffer} {endpointId : String}

@[simp] theorem openWindow_concat (endpointId : String) (marks : List Mark) (mark : Mark) :
    openWindow endpointId (marks ++ [mark]) = mark.window endpointId (openWindow endpointId marks) := by
  rw [openWindow, List.foldl_append]
  rfl

def bufferedFor (buffers : Table DebounceBuffer.key) (endpointId : String) : List String :=
  ((buffers.find endpointId).map DebounceBuffer.deliveryIds).getD []

theorem bufferedFor_delete (buffers : Table DebounceBuffer.key) (endpointId other : String) :
    bufferedFor (buffers.delete fun buffer => buffer.endpointId = endpointId) other =
      if endpointId = other then [] else bufferedFor buffers other := by
  rw [bufferedFor, bufferedFor, find_delete]
  cases hFind : buffers.find other with
  | none => simp
  | some buffer =>
    have hKey : buffer.endpointId = other := key_of_find hFind
    by_cases hSame : endpointId = other
    · simp [Option.filter, hKey, hSame]
    · simp [Option.filter, hKey, hSame, Ne.symm hSame]

theorem bufferedFor_bufferDelivery (now : Int) (id : String) (buffers : Table DebounceBuffer.key) (endpointId other : String) :
    bufferedFor (bufferDelivery now endpointId id buffers) other =
      if endpointId = other then bufferedFor buffers other ++ [id] else bufferedFor buffers other := by
  rw [bufferedFor, bufferedFor, bufferDelivery]
  split
  · rename_i hNone
    rw [find_insertOrIgnore]
    by_cases hSame : endpointId = other
    · simp [← hSame, hNone]
    · simp [hSame]
  · rw [find_update]
    cases hFind : buffers.find other with
    | none =>
      rename_i hSome
      by_cases hSame : endpointId = other
      · rw [hSame, hFind] at hSome
        cases hSome
      · simp [hSame]
    | some buffer =>
      have hKey : buffer.endpointId = other := key_of_find hFind
      by_cases hSame : endpointId = other
      · simp [hKey, hSame]
      · simp [hKey, hSame, Ne.symm hSame]

structure Windows (buffers : Table DebounceBuffer.key) (marks : List Mark) : Prop where
  opened : ∀ endpointId, openWindow endpointId marks = bufferedFor buffers endpointId
  closed : ∀ before endpointId ids store, before ++ [.closes endpointId ids store] <+: marks → ids = openWindow endpointId before

section

variable (h : Windows buffers marks)
include h

theorem Windows.concat {mark : Mark}
    (hMark : ∀ endpointId ids store, mark = .closes endpointId ids store → ids = openWindow endpointId marks) :
    ∀ before endpointId ids store, before ++ [.closes endpointId ids store] <+: marks ++ [mark] → ids = openWindow endpointId before := by
  intro before endpointId ids store hPrefix
  rcases List.prefix_concat_iff.mp hPrefix with hAll | hEarlier
  · obtain ⟨rfl, hSame⟩ := List.append_inj' hAll rfl
    exact hMark endpointId ids store (List.singleton_inj.mp hSame).symm
  · exact h.closed before endpointId ids store hEarlier

theorem Windows.flush (hFind : buffers.find endpointId = some buffer) (store : Store) :
    Windows (buffers.delete fun other => other.endpointId = endpointId) (marks ++ [.closes endpointId buffer.deliveryIds store]) := by
  refine ⟨fun other => ?_, h.concat fun closedId ids closedStore hMark => ?_⟩
  · rw [openWindow_concat, bufferedFor_delete, Mark.window, h.opened other]
  · cases hMark
    rw [h.opened endpointId, bufferedFor, hFind]
    rfl

theorem Windows.enter (now : Int) (endpoint : NotificationEndpoint) (id : String) :
    Windows (bufferDelivery now endpoint.id id buffers) (marks ++ [.enters endpoint id]) := by
  refine ⟨fun other => ?_, h.concat fun _ _ _ hMark => nomatch hMark⟩
  rw [openWindow_concat, bufferedFor_bufferDelivery, Mark.window, h.opened other]

theorem Windows.recover (endpointId : String) (group : List DeliveryRecord) (store : Store) :
    Windows buffers (marks ++ [.recovers endpointId group store]) := by
  refine ⟨fun other => ?_, h.concat fun _ _ _ hMark => nomatch hMark⟩
  rw [openWindow_concat, Mark.window, h.opened other]

theorem Windows.boot (store : Store) : Windows .empty (marks ++ [.boots store]) := by
  refine ⟨fun other => ?_, h.concat fun _ _ _ hMark => nomatch hMark⟩
  rw [openWindow_concat, Mark.window]
  rfl

theorem Windows.runTasks (tasks : List Task) (store : Store) : Windows buffers (marks ++ taskMarks tasks store) := by
  induction tasks generalizing marks store with
  | nil =>
    rw [taskMarks, List.append_nil]
    exact h
  | cons task tasks ih =>
    cases task with
    | pause =>
      rw [taskMarks, List.append_nil]
      exact h
    | flush memberName endpointId rows =>
      rw [taskMarks]
      split
      · exact ih h _
      · exact ih h _
      · rw [List.append_nil]
        exact h
    | recover endpointId group =>
      have hReached := h.recover endpointId group store
      rw [taskMarks, List.append_cons]
      split
      · exact ih hReached store
      · rw [List.append_nil]
        exact hReached

end

end Windows

end CommandSuite.Notifications
