import CommandSuite.Core.Objectives

/-! # What calls change

The changes that a call can make of its row, and what a reader of one objective sees of a call.
-/

namespace CommandSuite.Objectives

open Library ObjectivesStore Text Table

section Changes

variable {current : Objective} {change : Change} {now : Int}

theorem createChange_eq_ok {id originator : String} {input : CreateObjectiveRequest}
    (h : createChange id input originator now = .ok change) :
    change.next.id = id ∧ change.next.status = .active ∧ change.next.assignee = input.assignee ∧
      change.next.originator = originator ∧
      change.next.watchers = collect (fun name => name ≠ input.assignee && name ≠ originator) [] (input.watchers.getD []) ∧
      change.next.blockReason = none ∧ change.next.result = none ∧
      change.events = [.assigned change.next.title change.next.outcome input.assignee change.next.watchers] := by
  simp only [createChange, bind, Except.bind, pure, Except.pure, throw, throwThe, MonadExceptOf.throw] at h
  split at h
  · cases h
  · split at h
    · cases h
    · cases h
      simp

theorem updateChange_eq_ok {input : UpdateObjectiveRequest} (h : updateChange input now current = .ok change) :
    change = ⟨current, []⟩ ∧
        (input.status = some .blocked → current.status = .blocked ∧ trimmed input.blockReason = current.blockReason) ∧
        (input.status = some .active → current.status = .active) ∨
      input.status = some .blocked ∧
          change.next = { current with status := .blocked, updatedAt := now, blockReason := trimmed input.blockReason } ∧
          (current.status = .active ∧ change.events = [.blocked (trimmed input.blockReason)] ∨
            current.status = .blocked ∧ trimmed input.blockReason ≠ current.blockReason ∧ change.events = []) ∨
      input.status = some .active ∧
          change.next = { current with status := .active, updatedAt := now, blockReason := none } ∧
          (current.status = .blocked ∧ change.events = [.unblocked] ∨
            current.status = .active ∧ current.blockReason ≠ none ∧ change.events = []) := by
  simp only [updateChange, bind, Except.bind, pure, Except.pure, throw, throwThe, MonadExceptOf.throw] at h
  split at h
  · cases h
  · rename_i hOpen
    have hStatus : current.status = .active ∨ current.status = .blocked := by
      cases hCurrent : current.status <;> simp_all [ObjectiveStatus.isTerminal]
    cases hInput : input.status with
    | none =>
      simp only [hInput, decide_true, Bool.and_self, if_true] at h
      cases h
      exact .inl ⟨rfl, nofun, nofun⟩
    | some status =>
      cases status with
      | done | cancelled =>
        simp only [hInput, decide_true, Bool.and_self, if_true] at h
        cases h
        exact .inl ⟨rfl, nofun, nofun⟩
      | blocked =>
        simp only [hInput, Bool.and_eq_true, decide_eq_true_eq] at h
        split at h
        · rename_i hSame
          cases h
          exact .inl ⟨rfl, fun _ => ⟨hSame.1.symm, hSame.2⟩, nofun⟩
        · rename_i hDiffers
          cases h
          rcases hStatus with hStatus | hStatus
          · simp [hStatus]
          · have hReason : trimmed input.blockReason ≠ current.blockReason := fun hSame => hDiffers ⟨hStatus.symm, hSame⟩
            simp [hStatus, hReason]
      | active =>
        simp only [hInput, Bool.and_eq_true, decide_eq_true_eq] at h
        split at h
        · rename_i hSame
          cases h
          exact .inl ⟨rfl, nofun, fun _ => hSame.1.symm⟩
        · rename_i hDiffers
          cases h
          rcases hStatus with hStatus | hStatus
          · have hReason : current.blockReason ≠ none := fun hSame => hDiffers ⟨hStatus.symm, hSame.symm⟩
            simp [hStatus, hReason]
          · simp [hStatus]

theorem updateChange_open (current : Objective) (input : UpdateObjectiveRequest) (now : Int) (h : current.status.isTerminal = false) :
    ∃ change, updateChange input now current = .ok change := by
  simp only [updateChange, h, bind, Except.bind, pure, Except.pure, Bool.false_eq_true, if_false]
  split <;> split <;> exact ⟨_, rfl⟩

variable {result : String}

theorem completeChange_eq_ok (h : completeChange result now current = .ok change) :
    current.status.isTerminal = false ∧ trim result ≠ "" ∧ change = ⟨{ current with
      status := .done, updatedAt := now, completedAt := some now, result := some (trim result), blockReason := none },
      [.completed (trim result)]⟩ := by
  simp only [completeChange, bind, Except.bind, pure, Except.pure, throw, throwThe, MonadExceptOf.throw] at h
  split at h
  · cases h
  · rename_i hOpen
    split at h
    · cases h
    · rename_i hResult
      cases h
      exact ⟨by simpa using hOpen, hResult, rfl⟩

theorem completeChange_open (now : Int) (hOpen : current.status.isTerminal = false)
    (hResult : trim result ≠ "") : ∃ change, completeChange result now current = .ok change := by
  simp only [completeChange, hOpen, hResult, bind, Except.bind, pure, Except.pure, Bool.false_eq_true, if_false]
  exact ⟨_, rfl⟩

theorem cancelChange_eq_ok {reason : Option String} (h : cancelChange reason now current = .ok change) :
    change = ⟨{ current with status := .cancelled, updatedAt := now }, [.cancelled (trimmed reason)]⟩ := by
  simp only [cancelChange, bind, Except.bind, pure, Except.pure, throw, throwThe, MonadExceptOf.throw] at h
  split at h
  · cases h
  · cases h
    rfl

theorem reassignChange_eq_ok {input : ReassignObjectiveRequest} (h : reassignChange input now current = .ok change) :
    current.status.isTerminal = false ∧ input.toName ≠ current.assignee ∧ ∃ promoted,
      (promoted = [] ∧ (current.assignee = current.originator ∨ current.assignee ∈ current.watchers) ∨
        promoted = [current.assignee] ∧ current.assignee ≠ current.originator ∧ current.assignee ∉ current.watchers) ∧
      change = ⟨{ current with assignee := input.toName, updatedAt := now, watchers := current.watchers ++ promoted },
        .reassigned current.assignee input.toName ((input.note.filter fun note => note ≠ "").map trim) ::
          promoted.map fun name => .watcherAdded name (some "reassigned-from")⟩ := by
  simp only [reassignChange, bind, Except.bind, pure, Except.pure, throw, throwThe, MonadExceptOf.throw] at h
  split at h
  · cases h
  · rename_i hOpen
    split at h
    · cases h
    · rename_i hTo
      cases h
      refine ⟨by simpa using hOpen, hTo, if current.assignee ≠ current.originator && current.assignee ∉ current.watchers
        then [current.assignee] else [], ?_, ?_⟩
      · split
        · rename_i hPromoted
          simp only [ne_eq, Bool.and_eq_true, decide_eq_true_eq] at hPromoted
          exact .inr ⟨rfl, hPromoted⟩
        · rename_i hKept
          simp only [ne_eq, Bool.and_eq_true, decide_eq_true_eq, not_and_or, not_not] at hKept
          exact .inl ⟨rfl, hKept⟩
      · split <;> simp

theorem reassignChange_open (input : ReassignObjectiveRequest) (now : Int) (hOpen : current.status.isTerminal = false)
    (hTo : input.toName ≠ current.assignee) : ∃ change, reassignChange input now current = .ok change := by
  simp only [reassignChange, hOpen, hTo, bind, Except.bind, pure, Except.pure, Bool.false_eq_true, if_false]
  exact ⟨_, rfl⟩

theorem updateWatchersChange_next (input : UpdateWatchersRequest) (now : Int) (current : Objective) : ∃ watchers updatedAt,
    (updateWatchersChange input now current).next = { current with watchers := watchers, updatedAt := updatedAt } := by
  unfold updateWatchersChange
  dsimp only
  split
  · exact ⟨current.watchers, current.updatedAt, rfl⟩
  · exact ⟨_, _, rfl⟩

theorem mem_updateWatchersChange {input : UpdateWatchersRequest} {payload : ObjectiveEventPayload}
    (h : payload ∈ (updateWatchersChange input now current).events) :
    (∃ name, payload = .watcherAdded name none) ∨ ∃ name, payload = .watcherRemoved name := by
  unfold updateWatchersChange at h
  dsimp only at h
  split at h
  · cases h
  · rcases List.mem_append.mp h with hAdded | hRemoved
    · obtain ⟨name, _, rfl⟩ := List.mem_map.mp hAdded
      exact .inl ⟨name, rfl⟩
    · obtain ⟨name, _, rfl⟩ := List.mem_map.mp hRemoved
      exact .inr ⟨name, rfl⟩

inductive Makes (row : Option Objective) : Call → Change → Prop where
  | create {id input originator now change} (hFresh : row = none)
      (h : createChange id input originator now = .ok change) : Makes row (.create id input originator now) change
  | update {id input actor now current change} (hRow : row = some current)
      (h : updateChange input now current = .ok change) : Makes row (.update id input actor now) change
  | complete {id result actor now current change} (hRow : row = some current)
      (h : completeChange result now current = .ok change) : Makes row (.complete id result actor now) change
  | cancel {id reason actor now current change} (hRow : row = some current)
      (h : cancelChange reason now current = .ok change) : Makes row (.cancel id reason actor now) change
  | reassign {id input actor now current change} (hRow : row = some current)
      (h : reassignChange input now current = .ok change) : Makes row (.reassign id input actor now) change
  | updateWatchers {id input actor now current} (hRow : row = some current) :
      Makes row (.updateWatchers id input actor now) (updateWatchersChange input now current)
  | setAttachments {id attachments now current} (hRow : row = some current) :
      Makes row (.setAttachments id attachments now) ⟨{ current with attachments := attachments, updatedAt := now }, []⟩

variable {call : Call} {row : Option Objective}

theorem makes_of_change (h : call.change row = .ok change) : Makes row call change := by
  cases call with
  | create id input originator now =>
    simp only [Call.change, bind, Except.bind, pure, Except.pure, throw, throwThe, MonadExceptOf.throw] at h
    split at h
    · cases h
    · rename_i created hCreated
      split at h
      · cases h
      · rename_i hFresh
        cases h
        exact .create (by simpa using hFresh) hCreated
  | update =>
    cases row with
    | none => cases h
    | some current => exact .update rfl h
  | complete =>
    cases row with
    | none => cases h
    | some current => exact .complete rfl h
  | cancel =>
    cases row with
    | none => cases h
    | some current => exact .cancel rfl h
  | reassign =>
    cases row with
    | none => cases h
    | some current => exact .reassign rfl h
  | updateWatchers =>
    cases row with
    | none => cases h
    | some current =>
      cases h
      exact .updateWatchers rfl
  | setAttachments =>
    cases row with
    | none => cases h
    | some current =>
      cases h
      exact .setAttachments rfl

theorem id_of_change (hRow : ∀ current, row = some current → current.id = call.id)
    (h : call.change row = .ok change) : change.next.id = call.id := by
  cases makes_of_change h with
  | create _ h => exact (createChange_eq_ok h).1
  | update hSome h =>
    rw [← hRow _ hSome]
    rcases updateChange_eq_ok h with ⟨rfl, _⟩ | ⟨_, hNext, _⟩ | ⟨_, hNext, _⟩
    · rfl
    · rw [hNext]
    · rw [hNext]
  | complete hSome h => rw [← hRow _ hSome, (completeChange_eq_ok h).2.2]
  | cancel hSome h => rw [← hRow _ hSome, cancelChange_eq_ok h]
  | reassign hSome h =>
    obtain ⟨_, _, promoted, _, rfl⟩ := reassignChange_eq_ok h
    rw [← hRow _ hSome]
  | updateWatchers hSome =>
    obtain ⟨watchers, updatedAt, hNext⟩ := updateWatchersChange_next _ _ _
    rw [← hRow _ hSome, hNext]
  | setAttachments hSome => rw [← hRow _ hSome]

theorem originator_of_change (h : call.change (some current) = .ok change) : change.next.originator = current.originator := by
  cases makes_of_change h with
  | create hFresh _ => cases hFresh
  | update hSome h =>
    cases hSome
    rcases updateChange_eq_ok h with ⟨rfl, _⟩ | ⟨_, hNext, _⟩ | ⟨_, hNext, _⟩
    · rfl
    · rw [hNext]
    · rw [hNext]
  | complete hSome h =>
    cases hSome
    rw [(completeChange_eq_ok h).2.2]
  | cancel hSome h =>
    cases hSome
    rw [cancelChange_eq_ok h]
  | reassign hSome h =>
    cases hSome
    obtain ⟨_, _, promoted, _, rfl⟩ := reassignChange_eq_ok h
    rfl
  | updateWatchers hSome =>
    cases hSome
    obtain ⟨watchers, updatedAt, hNext⟩ := updateWatchersChange_next _ _ _
    rw [hNext]
  | setAttachments hSome =>
    cases hSome
    rfl

end Changes

section Views

variable {store : ObjectivesStore} {row : Objective}

theorem ObjectivesStore.id_of_get {id : String} (h : store.get id = some row) : row.id = id := key_of_find h

@[simp] theorem ObjectivesStore.get_append (events : List ObjectiveEvent) (id : String) :
    (store.append events).get id = store.get id := rfl

@[simp] theorem ObjectivesStore.log_setRow (next : Objective) (id : String) : (store.setRow next).log id = store.log id := rfl

theorem ObjectivesStore.get_setRow (next : Objective) (id : String) :
    (store.setRow next).get id = (store.get id).map fun row => if id = next.id then next else row := by
  rw [get, setRow, find_update]
  cases hRow : store.objectives.find id with
  | none =>
    rw [get, hRow]
    rfl
  | some row =>
    have hId : row.id = id := key_of_find hRow
    rw [get, hRow]
    simp only [Option.map_some, hId, decide_eq_true_eq]
    split
    · rename_i hSame
      subst hSame
      rfl
    · rfl

theorem ObjectivesStore.log_append_stamp (id actor : String) (now : Int) (events : List ObjectiveEventPayload)
    (other : String) : (store.append (stamp id actor now events)).log other =
      store.log other ++ if other = id then stamp id actor now events else [] := by
  rw [log, append, List.filter_append, log]
  congr 1
  split
  · rename_i hSame
    subst hSame
    simp [stamp, List.filter_eq_self]
  · rename_i hOther
    simp only [stamp, List.filter_eq_nil_iff, List.mem_map, decide_eq_true_eq]
    rintro _ ⟨payload, _, rfl⟩ hSame
    exact hOther hSame.symm

def ObjectivesStore.stampOf (call : Call) (events : List ObjectiveEventPayload) : List ObjectiveEvent :=
  stamp call.id call.actor call.now events

structure Wrote (store : ObjectivesStore) (call : Call) (change : Change) (after : ObjectivesStore) : Prop where
  get : ∀ id, after.get id = if id = call.id then some change.next else store.get id
  log : ∀ id, after.log id = store.log id ++ if id = call.id then stampOf call change.events else []

theorem wrote_create {id originator : String} {input : CreateObjectiveRequest} {now : Int} {change : Change}
    (hChange : createChange id input originator now = .ok change) (hFresh : store.get id = none) :
    Wrote store (.create id input originator now) change
      (({ store with objectives := store.objectives.insertOrIgnore change.next } : ObjectivesStore).append
        (stamp id originator now change.events)) where
  get other := by
    have hId : change.next.id = id := (createChange_eq_ok hChange).1
    rw [ObjectivesStore.get_append, ObjectivesStore.get, find_insertOrIgnore, Objective.key, hId]
    split
    · rename_i hSame
      subst hSame
      rw [← ObjectivesStore.get, hFresh, Call.id, if_pos rfl]
      rfl
    · rename_i hOther
      rw [Option.or_none, Call.id, if_neg (Ne.symm hOther)]
      rfl
  log other := log_append_stamp id originator now change.events other

variable {call : Call}

theorem wrote_mutate {current : Objective} {change : Change} (hGet : store.get call.id = some current)
    (hId : change.next.id = call.id) :
    Wrote store call change ((store.setRow change.next).append (stampOf call change.events)) where
  get other := by
    rw [ObjectivesStore.get_append, get_setRow, hId]
    split
    · rename_i hSame
      rw [hSame, hGet]
      rfl
    · rw [Option.map_id']
  log other := by
    rw [stampOf, log_append_stamp]
    rfl

variable {change : Objective → Except Thrown Change}

theorem mutate_eq
    (hNone : call.change none = .error (.objectives ⟨.notFound, s!"objective {call.id} not found"⟩))
    (hSome : ∀ current, call.change (some current) = change current) :
    mutate call.id call.actor call.now change store = (call.change (store.get call.id)).map fun change =>
      (⟨change.next, stampOf call change.events⟩,
        (store.setRow change.next).append (stampOf call change.events)) := by
  unfold mutate
  cases hGet : store.get call.id with
  | none =>
    rw [hNone]
    rfl
  | some current =>
    rw [hSome]
    dsimp only
    cases change current <;> rfl

/-- A call throws and leaves the store, or writes the change it makes of the row of its objective. -/
inductive Serves (store : ObjectivesStore) (call : Call) : Prop where
  | threw (thrown : Thrown) (hChange : call.change (store.get call.id) = .error thrown)
      (hServe : serve store call = (store, .error thrown))
  | wrote (change : Change) (hChange : call.change (store.get call.id) = .ok change)
      (hAfter : Wrote store call change (serve store call).1)
      (hResult : (serve store call).2 = .ok ⟨change.next, stampOf call change.events⟩)

theorem serves_mutate
    (hApply : call.apply = mutate call.id call.actor call.now change)
    (hNone : call.change none = .error (.objectives ⟨.notFound, s!"objective {call.id} not found"⟩))
    (hSome : ∀ current, call.change (some current) = change current) (store : ObjectivesStore) : Serves store call := by
  have hApplied := congrFun hApply store
  rw [mutate_eq hNone hSome] at hApplied
  cases hChange : call.change (store.get call.id) with
  | error thrown =>
    rw [hChange] at hApplied
    refine .threw thrown hChange ?_
    rw [serve, hApplied]
    rfl
  | ok change =>
    rw [hChange] at hApplied
    cases hGet : store.get call.id with
    | none =>
      rw [hGet, hNone] at hChange
      cases hChange
    | some current =>
      have hId : change.next.id = call.id := id_of_change (fun row hRow => id_of_get hRow) hChange
      refine .wrote change hChange ?_ ?_
      · rw [serve, hApplied]
        exact wrote_mutate hGet hId
      · rw [serve, hApplied]
        rfl

theorem serves_create (id : String) (input : CreateObjectiveRequest) (originator : String) (now : Int)
    (store : ObjectivesStore) : Serves store (.create id input originator now) := by
  cases hCreate : createChange id input originator now with
  | error thrown =>
    refine .threw thrown ?_ ?_
    · simp [Call.change, hCreate, bind, Except.bind]
    · simp [serve, Call.apply, create, hCreate, bind, Except.bind]
  | ok change =>
    cases hGet : store.get id with
    | some row =>
      refine .threw .constraint ?_ ?_
      · simp [Call.change, Call.id, hCreate, hGet, bind, Except.bind, throw, throwThe, MonadExceptOf.throw]
      · simp [serve, Call.apply, create, hCreate, hGet, bind, Except.bind, throw, throwThe, MonadExceptOf.throw]
    | none =>
      have hServe : serve store (.create id input originator now) =
          (({ store with objectives := store.objectives.insertOrIgnore change.next } : ObjectivesStore).append
            (stamp id originator now change.events),
            .ok ⟨change.next, stamp id originator now change.events⟩) := by
        simp [serve, Call.apply, create, hCreate, hGet, bind, Except.bind, pure, Except.pure]
      refine .wrote change ?_ ?_ ?_
      · simp [Call.change, Call.id, hCreate, hGet, bind, Except.bind, pure, Except.pure]
      · rw [hServe]
        exact wrote_create hCreate hGet
      · rw [hServe]
        rfl

theorem serves (store : ObjectivesStore) (call : Call) : Serves store call := by
  cases call with
  | create id input originator now => exact serves_create id input originator now store
  | update | complete | cancel | reassign | updateWatchers | setAttachments =>
    exact serves_mutate rfl rfl (fun current => rfl) store

theorem serve_keeps {β : Type} {f : Objective → β}
    (hKeeps : ∀ row change, call.change (some row) = .ok change → f change.next = f row) {id : String}
    (hRow : store.get id = some row) : ∃ row', (serve store call).1.get id = some row' ∧ f row' = f row := by
  cases serves store call with
  | threw thrown _ hServe => exact ⟨row, by rw [hServe]; exact hRow, rfl⟩
  | wrote change hChange hAfter _ =>
    rw [hAfter.get]
    split
    · rename_i hId
      rw [← hId, hRow] at hChange
      exact ⟨_, rfl, hKeeps row change hChange⟩
    · exact ⟨row, hRow, rfl⟩

def ObjectivesStore.Holds (R : Objective → List ObjectiveEvent → Prop) (store : ObjectivesStore) : Prop :=
  ∀ id row, store.get id = some row → R row (store.log id)

theorem holds_empty (R : Objective → List ObjectiveEvent → Prop) : empty.Holds R := by
  rintro id row hRow
  cases hRow

theorem holds_serve_iff {R : Objective → List ObjectiveEvent → Prop} {store : ObjectivesStore} (h : store.Holds R)
    (call : Call) : (serve store call).1.Holds R ↔ ∀ change, call.change (store.get call.id) = .ok change →
      R change.next (store.log call.id ++ stampOf call change.events) := by
  cases serves store call with
  | threw thrown hChange hServe =>
    rw [hServe]
    refine iff_of_true h ?_
    rintro change hOk
    rw [hChange] at hOk
    cases hOk
  | wrote change hChange hAfter hResult =>
    constructor
    · rintro hHolds other hOk
      rw [hChange] at hOk
      cases hOk
      have hRow := hHolds call.id change.next (by rw [hAfter.get, if_pos rfl])
      rwa [hAfter.log, if_pos rfl] at hRow
    · intro hNext id row hRow
      rw [hAfter.get] at hRow
      rw [hAfter.log]
      split at hRow
      · rename_i hSame
        cases hRow
        rw [if_pos hSame, hSame]
        exact hNext change hChange
      · rename_i hOther
        rw [if_neg hOther, List.append_nil]
        exact h id row hRow

end Views

end CommandSuite.Objectives
