import CommandSuite.Core.Objectives.Requests

/-! # Authority over objectives

Whose events a request may append, and the requests whose member has lost that authority while it waited.
-/

namespace CommandSuite.Objectives

open Library Transcript ObjectivesStore Text

/-- Who may append an event to the log of an objective, by its row. -/
def Permits (member : Member) (row : Option Objective) : ObjectiveEventPayload → Prop
  | .assigned .. => True
  | .completed _ => row.map Objective.assignee = some member.name.text
  | .blocked _ | .unblocked =>
    row.map Objective.assignee = some member.name.text ∨ hasPermission member.permissions .objectivesCancel = true
  | .cancelled _ =>
    row.map Objective.originator = some member.name.text ∨ hasPermission member.permissions .objectivesCancel = true
  | .reassigned .. => hasPermission member.permissions .objectivesReassign = true
  | .watcherAdded _ reason => reason = some "reassigned-from" ∨
    row.map Objective.originator = some member.name.text ∨ hasPermission member.permissions .objectivesWatch = true
  | .watcherRemoved _ =>
    row.map Objective.originator = some member.name.text ∨ hasPermission member.permissions .objectivesWatch = true

def Desk.member (desk : Desk) : Event → Option Member
  | .create _ _ member .. => some member
  | .opened member .. => some member
  | .settled index .. => desk.pending[index]?.map Pending.member

/-- Every event of the step comes from the member of its request, who may append it as the row was before the step. -/
def HasAuthority (step : Step Desk Event Response) : Prop :=
  ∀ id, ∃ events, step.after.store.log id = step.before.store.log id ++ events ∧ ∀ event ∈ events,
    ∃ member, step.before.member step.input = some member ∧ event.actor = member.name.text ∧
      Permits member (step.before.store.get id) event.payload

def Flips (input : UpdateObjectiveRequest) (row : Objective) : Prop :=
  input.status = some .blocked ∧ row.status = .active ∨ input.status = some .active ∧ row.status = .blocked

/-- A request that was let in before its member lost the objective, and that still has an effect on its status. -/
def ActsLate (store : ObjectivesStore) (directory : Directory) (pending : Pending) : Prop :=
  ∃ row, store.get pending.id = some row ∧ row.status.isTerminal = false ∧ row.assignee ≠ pending.member.name.text ∧
    match pending.request with
    | .complete (some result) => trim result ≠ ""
    | .patch (some input) => hasPermission pending.member.permissions .objectivesCancel = false ∧
        patchGates directory pending.member pending.current input = .ok () ∧ Flips input.toUpdateObjectiveRequest row ∧
        ∀ name, input.assignee = some name → name ≠ pending.current.assignee → name ≠ row.assignee
    | _ => False

def IsLate (desk : Desk) : Event → Prop
  | .settled index directory _ => ∃ pending, desk.pending[index]? = some pending ∧ ActsLate desk.store directory pending
  | .create .. | .opened .. => False

/-! ## What calls append -/

section Calls

variable {store : ObjectivesStore} {member : Member} {row : Option Objective}

def Rightful (member : Member) (row : Option Objective) : Call → Prop
  | .create .. | .setAttachments .. => True
  | .complete .. => row.map Objective.assignee = some member.name.text
  | .update .. =>
    row.map Objective.assignee = some member.name.text ∨ hasPermission member.permissions .objectivesCancel = true
  | .cancel .. =>
    row.map Objective.originator = some member.name.text ∨ hasPermission member.permissions .objectivesCancel = true
  | .reassign .. => hasPermission member.permissions .objectivesReassign = true
  | .updateWatchers .. =>
    row.map Objective.originator = some member.name.text ∨ hasPermission member.permissions .objectivesWatch = true

theorem permits_of_rightful {call : Call} {current : Option Objective} {change : Change} (h : Rightful member row call)
    (hChange : call.change current = .ok change) : ∀ payload ∈ change.events, Permits member row payload := by
  intro payload hPayload
  cases makes_of_change hChange with
  | create _ hCreate =>
    obtain ⟨_, _, _, _, _, _, _, hEvents⟩ := createChange_eq_ok hCreate
    rw [hEvents, List.mem_singleton] at hPayload
    rw [hPayload]
    trivial
  | update _ hUpdate =>
    rcases updateChange_eq_ok hUpdate with ⟨rfl, _⟩ | ⟨_, _, ⟨_, hEvents⟩ | ⟨_, _, hEvents⟩⟩ |
      ⟨_, _, ⟨_, hEvents⟩ | ⟨_, _, hEvents⟩⟩
    · cases hPayload
    · rw [hEvents, List.mem_singleton] at hPayload
      rw [hPayload]
      exact h
    · rw [hEvents] at hPayload
      cases hPayload
    · rw [hEvents, List.mem_singleton] at hPayload
      rw [hPayload]
      exact h
    · rw [hEvents] at hPayload
      cases hPayload
  | complete _ hComplete =>
    rw [(completeChange_eq_ok hComplete).2.2, List.mem_singleton] at hPayload
    rw [hPayload]
    exact h
  | cancel _ hCancel =>
    rw [cancelChange_eq_ok hCancel, List.mem_singleton] at hPayload
    rw [hPayload]
    exact h
  | reassign _ hReassign =>
    obtain ⟨_, _, promoted, _, rfl⟩ := reassignChange_eq_ok hReassign
    rcases List.mem_cons.mp hPayload with rfl | hPromoted
    · exact h
    · obtain ⟨name, _, rfl⟩ := List.mem_map.mp hPromoted
      exact .inl rfl
  | updateWatchers _ =>
    rcases mem_updateWatchersChange hPayload with ⟨name, rfl⟩ | ⟨name, rfl⟩
    · exact .inr h
    · exact h
  | setAttachments _ => cases hPayload

theorem attempt_log (calls : List Call) (store : ObjectivesStore) (id : String) :
    ∃ events, (attempt calls store).2.log id = store.log id ++ events ∧ ∀ event ∈ events, ∃ call ∈ calls, call.id = id ∧
      event.actor = call.actor ∧ ∃ row change, call.change row = .ok change ∧ event.payload ∈ change.events := by
  induction calls generalizing store with
  | nil => exact ⟨[], by simp [attempt], by simp⟩
  | cons call calls ih =>
    cases serves store call with
    | threw thrown _ hServe => exact ⟨[], by simp [attempt, hServe], by simp⟩
    | wrote change hChange hAfter hResult =>
      obtain ⟨events, hLog, hEvents⟩ := ih (serve store call).1
      refine ⟨(if id = call.id then stampOf call change.events else []) ++ events, ?_, ?_⟩
      · rw [(attempt_cons_ok hResult calls).2, hLog, hAfter.log, List.append_assoc]
      · intro event hMem
        rcases List.mem_append.mp hMem with hOwn | hLater
        · split at hOwn
          · rename_i hId
            obtain ⟨payload, hPayload, rfl⟩ := List.mem_map.mp hOwn
            exact ⟨call, List.mem_cons_self, hId.symm, rfl, _, change, hChange, hPayload⟩
          · cases hOwn
        · obtain ⟨other, hOther, hMade⟩ := hEvents event hLater
          exact ⟨other, List.mem_cons_of_mem call hOther, hMade⟩

variable {calls : List Call}

theorem attempt_permits (hActor : ∀ call ∈ calls, call.actor = member.name.text)
    (hRightful : ∀ call ∈ calls, Rightful member (store.get call.id) call) (id : String) :
    ∃ events, (attempt calls store).2.log id = store.log id ++ events ∧ ∀ event ∈ events,
      event.actor = member.name.text ∧ Permits member (store.get id) event.payload := by
  obtain ⟨events, hLog, hEvents⟩ := attempt_log calls store id
  refine ⟨events, hLog, ?_⟩
  intro event hMem
  obtain ⟨call, hCall, rfl, hSame, current, change, hChange, hPayload⟩ := hEvents event hMem
  exact ⟨hSame.trans (hActor call hCall), permits_of_rightful (hRightful call hCall) hChange _ hPayload⟩

theorem attempt_keeps {β : Type} {f : Objective → β}
    (hKeeps : ∀ call ∈ calls, ∀ row change, call.change (some row) = .ok change → f change.next = f row) {id : String}
    {row : Objective} (hRow : store.get id = some row) :
    ∃ row', (attempt calls store).2.get id = some row' ∧ f row' = f row := by
  induction calls generalizing store row with
  | nil => exact ⟨row, hRow, rfl⟩
  | cons call calls ih =>
    cases hServe : (serve store call).2 with
    | error thrown =>
      obtain ⟨next, hNext, hSame⟩ := serve_keeps (hKeeps call List.mem_cons_self) hRow
      have hPair : serve store call = ((serve store call).1, .error thrown) := Prod.ext rfl hServe
      exact ⟨next, by rw [attempt, hPair]; exact hNext, hSame⟩
    | ok result =>
      obtain ⟨next, hNext, hSame⟩ := serve_keeps (hKeeps call List.mem_cons_self) hRow
      obtain ⟨last, hLast, hLater⟩ := ih (fun other hOther => hKeeps other (List.mem_cons_of_mem call hOther)) hNext
      exact ⟨last, by rw [(attempt_cons_ok hServe calls).2, hLast], hLater.trans hSame⟩

end Calls

/-! ## Single calls -/

section Single

variable {store : ObjectivesStore} {row : Objective}

theorem attempt_single (store : ObjectivesStore) (call : Call) :
    (∃ thrown, call.change (store.get call.id) = .error thrown ∧
        attempt [call] store = (.error (mapObjectivesError thrown), store)) ∨
      ∃ change, call.change (store.get call.id) = .ok change ∧ (∃ results, (attempt [call] store).1 = .ok results) ∧
        (attempt [call] store).2.log call.id = store.log call.id ++ stampOf call change.events ∧
        ∀ id, id ≠ call.id → (attempt [call] store).2.log id = store.log id := by
  cases serves store call with
  | threw thrown hChange hServe => exact .inl ⟨thrown, hChange, by simp [attempt, hServe]⟩
  | wrote change hChange hAfter hResult =>
    obtain ⟨hFirst, hStore⟩ := attempt_cons_ok hResult []
    refine .inr ⟨change, hChange, ⟨_, hFirst⟩, ?_, ?_⟩
    · rw [hStore, attempt, hAfter.log, if_pos rfl]
    · intro id hOther
      rw [hStore, attempt, hAfter.log, if_neg hOther, List.append_nil]

variable {id : String}

theorem attempt_watcherCalls (member : Member) (input : UpdateObjectiveBody) (now : Int)
    (hRow : store.get id = some row) : ∃ results, (attempt (watcherCalls member id input now) store).1 = .ok results := by
  unfold watcherCalls
  split
  · rcases attempt_single store (.updateWatchers id ⟨input.addWatchers, input.removeWatchers⟩ member.name.text now) with
      ⟨thrown, hChange, _⟩ | ⟨change, _, hOk, _⟩
    · rw [Call.id, hRow] at hChange
      cases hChange
    · exact hOk
  · exact ⟨[], rfl⟩

theorem attempt_before_status_iff (member : Member) (current : Objective) (input : UpdateObjectiveBody)
    (first second : Int) (hRow : store.get id = some row) (hOpen : row.status.isTerminal = false) :
    (∃ results, (attempt (handoverCalls member id current input first ++ watcherCalls member id input second) store).1 =
        .ok results) ↔
      ∀ name, input.assignee = some name → name ≠ current.assignee → name ≠ row.assignee := by
  unfold handoverCalls
  cases hTo : input.assignee.filter fun name => name ≠ current.assignee with
  | none =>
    refine iff_of_true (attempt_watcherCalls member input second hRow) ?_
    intro name hName hOther
    simp [hName, hOther] at hTo
  | some name =>
    obtain ⟨hName, hOther⟩ := Option.filter_eq_some_iff.mp hTo
    have hIff : (∀ other, input.assignee = some other → other ≠ current.assignee → other ≠ row.assignee) ↔ name ≠ row.assignee := by
      constructor
      · exact fun h => h name hName (by simpa using hOther)
      · rintro hNew other hSame _
        cases hName.symm.trans hSame
        exact hNew
    rw [hIff, Option.toList_some, List.map_singleton, List.singleton_append]
    cases serves store (.reassign id ⟨name, input.note⟩ member.name.text first) with
    | threw thrown hChange hServe =>
      rw [Call.id, hRow] at hChange
      rw [attempt, hServe]
      refine iff_of_false (by simp) ?_
      intro hNew
      obtain ⟨change, hOk⟩ := reassignChange_open ⟨name, input.note⟩ first hOpen hNew
      cases hChange.symm.trans hOk
    | wrote change hChange hAfter hResult =>
      rw [Call.id, hRow] at hChange
      have hNext : (serve store (.reassign id ⟨name, input.note⟩ member.name.text first)).1.get id = some change.next := by
        rw [hAfter.get, Call.id, if_pos rfl]
      obtain ⟨results, hRest⟩ := attempt_watcherCalls member input second hNext
      rw [(attempt_cons_ok hResult _).1, hRest]
      exact iff_of_true ⟨_, rfl⟩ (reassignChange_eq_ok hChange).2.1

theorem updateChange_flips {input : UpdateObjectiveRequest} {now : Int} {change : Change}
    (h : updateChange input now row = .ok change) :
    ¬Flips input row ∧ change.events = [] ∨ Flips input row ∧ ∃ payload, change.events = [payload] ∧
      ∀ member current, Permits member current payload →
        current.map Objective.assignee = some member.name.text ∨ hasPermission member.permissions .objectivesCancel = true := by
  unfold Flips
  rcases updateChange_eq_ok h with ⟨rfl, hBlocked, hActive⟩ | ⟨hInput, _, ⟨hStatus, hEvents⟩ | ⟨hStatus, _, hEvents⟩⟩ |
    ⟨hInput, _, ⟨hStatus, hEvents⟩ | ⟨hStatus, _, hEvents⟩⟩
  · refine .inl ⟨?_, rfl⟩
    rintro (⟨hInput, hStatus⟩ | ⟨hInput, hStatus⟩)
    · rw [(hBlocked hInput).1] at hStatus
      cases hStatus
    · rw [hActive hInput] at hStatus
      cases hStatus
  · exact .inr ⟨.inl ⟨hInput, hStatus⟩, _, hEvents, fun _ _ => id⟩
  · exact .inl ⟨by simp [hInput, hStatus], hEvents⟩
  · exact .inr ⟨.inr ⟨hInput, hStatus⟩, _, hEvents, fun _ _ => id⟩
  · exact .inl ⟨by simp [hInput, hStatus], hEvents⟩

theorem eq_of_mem_statusCalls {member : Member} {input : UpdateObjectiveBody} {now : Int} {call : Call}
    (h : call ∈ statusCalls member id input now) : call = .update id input.toUpdateObjectiveRequest member.name.text now := by
  unfold statusCalls at h
  split at h
  · exact List.mem_singleton.mp h
  · cases h

theorem attempt_statusCalls_iff (member : Member) (input : UpdateObjectiveBody) (now : Int)
    (hRow : store.get id = some row) :
    (∀ other, (attempt (statusCalls member id input now) store).2.log other = store.log other) ∧
        (row.status.isTerminal = false → ¬Flips input.toUpdateObjectiveRequest row) ∨
      Flips input.toUpdateObjectiveRequest row ∧ ∃ payload,
        (attempt (statusCalls member id input now) store).2.log id = store.log id ++ [⟨id, now, member.name.text, payload⟩] ∧
        ∀ member current, Permits member current payload → current.map Objective.assignee = some member.name.text ∨
          hasPermission member.permissions .objectivesCancel = true := by
  unfold statusCalls
  split
  · rcases attempt_single store (.update id input.toUpdateObjectiveRequest member.name.text now) with
      ⟨thrown, hChange, hAttempt⟩ | ⟨change, hChange, _, hLog, hOthers⟩
    · refine .inl ⟨fun _ => by rw [hAttempt], ?_⟩
      intro hOpen
      rw [Call.id, hRow] at hChange
      obtain ⟨change, hOk⟩ := updateChange_open _ input.toUpdateObjectiveRequest now hOpen
      cases hChange.symm.trans hOk
    · rw [Call.id, hRow] at hChange
      rcases updateChange_flips hChange with ⟨hKept, hEvents⟩ | ⟨hFlips, payload, hEvents, hPermits⟩
      · refine .inl ⟨?_, fun _ => hKept⟩
        intro other
        rcases eq_or_ne other id with rfl | hOther
        · rw [hEvents] at hLog
          simpa [Call.id, stampOf, stamp] using hLog
        · exact hOthers other hOther
      · refine .inr ⟨hFlips, payload, ?_, hPermits⟩
        rw [hEvents] at hLog
        exact hLog
  · rename_i hTouches
    refine .inl ⟨fun _ => rfl, fun _ hFlips => hTouches ?_⟩
    rcases hFlips with ⟨hInput, _⟩ | ⟨hInput, _⟩ <;> simp [UpdateObjectiveBody.touchesStatus, hInput]

end Single

/-! ## Settling a request -/

section Settle

variable {store : ObjectivesStore} {directory : Directory} {pending : Pending} {row : Objective} {clock : Nat → Int}

def AppendsWithAuthority (member : Member) (store after : ObjectivesStore) : Prop :=
  ∀ id, ∃ events, after.log id = store.log id ++ events ∧ ∀ event ∈ events,
    event.actor = member.name.text ∧ Permits member (store.get id) event.payload

theorem appends_nothing (member : Member) (store : ObjectivesStore) : AppendsWithAuthority member store store :=
  fun _ => ⟨[], by simp, by simp⟩

variable {member : Member} {id : String}

theorem permits_of_appends {after : ObjectivesStore} (h : AppendsWithAuthority member store after)
    {events : List ObjectiveEvent} (hLog : after.log id = store.log id ++ events) :
    ∀ event ∈ events, Permits member (store.get id) event.payload := by
  obtain ⟨others, hOthers, hPermits⟩ := h id
  cases List.append_cancel_left (hLog.symm.trans hOthers)
  exact fun event hMem => (hPermits event hMem).2

structure Waits (store : ObjectivesStore) (pending : Pending) : Prop where
  row : ∃ row, store.get pending.id = some row ∧ row.originator = pending.current.originator
  admitted : pending.request.admit pending.member pending.current = .ok ()

theorem settle_complete_iff {result : String} {now : Int} (hRow : store.get id = some row) :
    AppendsWithAuthority member store (attempt [.complete id result member.name.text now] store).2 ↔
      ¬(row.status.isTerminal = false ∧ row.assignee ≠ member.name.text ∧ trim result ≠ "") := by
  rcases attempt_single store (.complete id result member.name.text now) with
    ⟨thrown, hChange, hAttempt⟩ | ⟨change, hChange, _, hLog, hOthers⟩
  · rw [hAttempt]
    refine iff_of_true (appends_nothing member store) ?_
    rintro ⟨hOpen, _, hResult⟩
    rw [Call.id, hRow] at hChange
    obtain ⟨change, hOk⟩ := completeChange_open now hOpen hResult
    cases hChange.symm.trans hOk
  · rw [Call.id, hRow] at hChange
    obtain ⟨hOpen, hResult, rfl⟩ := completeChange_eq_ok hChange
    constructor
    · rintro hAppends ⟨_, hOther, _⟩
      have hPermits := permits_of_appends hAppends hLog ⟨id, now, member.name.text, .completed (trim result)⟩ (.head _)
      rw [Call.id, hRow] at hPermits
      exact hOther (Option.some.inj hPermits)
    · intro hIf
      have hAssignee : row.assignee = member.name.text := by
        by_contra hOther
        exact hIf ⟨hOpen, hOther, hResult⟩
      apply attempt_permits
      · simp [Call.actor]
      · simp [Rightful, Call.id, hRow, hAssignee]

theorem settle_cancel {reason : Option String} {now : Int} (hRow : store.get id = some row)
    (hMay : row.originator = member.name.text ∨ hasPermission member.permissions .objectivesCancel = true) :
    AppendsWithAuthority member store (attempt [.cancel id reason member.name.text now] store).2 := by
  apply attempt_permits
  · simp [Call.actor]
  · simpa [Rightful, Call.id, hRow] using hMay

variable {input : UpdateObjectiveBody}

theorem patchGates_eq_ok {current : Objective}
    (h : patchGates directory member current input = .ok ()) :
    (input.assignee.isSome = true → hasPermission member.permissions .objectivesReassign = true) ∧
      (input.touchesWatchers = true →
        current.originator = member.name.text ∨ hasPermission member.permissions .objectivesWatch = true) := by
  simp only [patchGates, bind, Except.bind, throw, throwThe, MonadExceptOf.throw] at h
  split at h
  · cases h
  · split at h
    · cases h
    · rename_i hReassign
      split at h
      · cases h
      · rename_i hWatch
        constructor
        · intro hTouches
          simpa [hTouches] using hReassign
        · intro hTouches
          by_contra hMayNot
          rw [not_or] at hMayNot
          exact hWatch (by simp [hTouches, hMayNot])

theorem rightful_before_status (first second : Int) (hRow : store.get pending.id = some row)
    (hOriginator : row.originator = pending.current.originator)
    (hGates : patchGates directory pending.member pending.current input = .ok ()) :
    ∀ call ∈ handoverCalls pending.member pending.id pending.current input first ++
        watcherCalls pending.member pending.id input second,
      call.actor = pending.member.name.text ∧ Rightful pending.member (store.get call.id) call ∧
        ∀ row change, call.change (some row) = .ok change → change.next.status = row.status := by
  obtain ⟨hReassign, hWatch⟩ := patchGates_eq_ok hGates
  intro call hCall
  rcases List.mem_append.mp hCall with hHandover | hWatchers
  · obtain ⟨name, hName, rfl⟩ := List.mem_map.mp hHandover
    rw [Option.mem_toList, Option.filter_eq_some_iff] at hName
    refine ⟨rfl, hReassign (by simp [hName.1]), ?_⟩
    intro row change hChange
    obtain ⟨_, _, promoted, _, rfl⟩ := reassignChange_eq_ok hChange
    rfl
  · unfold watcherCalls at hWatchers
    split at hWatchers
    · rename_i hTouches
      cases List.mem_singleton.mp hWatchers
      refine ⟨rfl, ?_, ?_⟩
      · simpa [Rightful, Call.id, hRow, hOriginator] using hWatch hTouches
      · intro row change hChange
        cases hChange
        obtain ⟨watchers, updatedAt, hNext⟩ := updateWatchersChange_next ⟨input.addWatchers, input.removeWatchers⟩ second row
        rw [hNext]
    · cases hWatchers

theorem settle_patch_iff (clock : Nat → Int) (hRow : store.get pending.id = some row)
    (hOriginator : row.originator = pending.current.originator)
    (hGates : patchGates directory pending.member pending.current input = .ok ()) :
    AppendsWithAuthority pending.member store
        (attempt (patchCalls pending.member pending.id pending.current input clock) store).2 ↔
      ¬(row.status.isTerminal = false ∧ row.assignee ≠ pending.member.name.text ∧
        hasPermission pending.member.permissions .objectivesCancel = false ∧ Flips input.toUpdateObjectiveRequest row ∧
        ∀ name, input.assignee = some name → name ≠ pending.current.assignee → name ≠ row.assignee) := by
  have hBefore := rightful_before_status (clock 0) (clock 1) hRow hOriginator hGates
  unfold patchCalls
  generalize hCalls : handoverCalls pending.member pending.id pending.current input (clock 0) ++
    watcherCalls pending.member pending.id input (clock 1) = calls at hBefore ⊢
  have hAppends : AppendsWithAuthority pending.member store (attempt calls store).2 :=
    attempt_permits (fun call hCall => (hBefore call hCall).1) fun call hCall => (hBefore call hCall).2.1
  have hGoesOn := attempt_before_status_iff pending.member pending.current input (clock 0) (clock 1) hRow
  rw [hCalls] at hGoesOn
  rcases Classical.em (row.assignee = pending.member.name.text ∨
    hasPermission pending.member.permissions .objectivesCancel = true) with hMay | hMayNot
  · refine iff_of_true ?_ ?_
    · apply attempt_permits
      · intro call hCall
        rcases List.mem_append.mp hCall with hFirst | hLast
        · exact (hBefore call hFirst).1
        · rw [eq_of_mem_statusCalls hLast]
          rfl
      · intro call hCall
        rcases List.mem_append.mp hCall with hFirst | hLast
        · exact (hBefore call hFirst).2.1
        · rw [eq_of_mem_statusCalls hLast]
          simpa [Rightful, Call.id, hRow] using hMay
    · rintro ⟨_, hOther, hCancel, _⟩
      rcases hMay with hAssignee | hPermission
      · exact hOther hAssignee
      · rw [hCancel] at hPermission
        cases hPermission
  rcases attempt_append calls (statusCalls pending.member pending.id input (clock 2)) store with
    ⟨refusal, hError, hStore⟩ | ⟨results, hOk, hStore⟩
  -- the update is not reached
  · rw [hStore]
    refine iff_of_true hAppends ?_
    rintro ⟨hOpen, _, _, _, hNew⟩
    obtain ⟨results, hOk⟩ := (hGoesOn hOpen).mpr hNew
    cases hError.symm.trans hOk
  · obtain ⟨next, hNext, hStatus⟩ := attempt_keeps (f := Objective.status) (fun call hCall => (hBefore call hCall).2.2) hRow
    rw [hStore]
    rcases attempt_statusCalls_iff pending.member input (clock 2) hNext with
      ⟨hSame, hQuiet⟩ | ⟨hFlips, payload, hLog, hPermits⟩
    · refine iff_of_true ?_ ?_
      · intro id
        rw [hSame]
        exact hAppends id
      · rintro ⟨hOpen, _, _, hFlips, _⟩
        rw [← hStatus] at hOpen
        unfold Flips at hFlips
        rw [← hStatus] at hFlips
        exact hQuiet hOpen hFlips
    · refine iff_of_false ?_ (not_not.mpr ?_)
      · intro hAll
        obtain ⟨events, hEvents, _⟩ := hAppends pending.id
        rw [hEvents, List.append_assoc] at hLog
        have hPermitted := permits_of_appends hAll hLog _ (List.mem_append_right events (.head _))
        have hAssignee := hPermits _ _ hPermitted
        rw [hRow] at hAssignee
        exact hMayNot (by simpa using hAssignee)
      · unfold Flips at hFlips ⊢
        rw [hStatus] at hFlips
        rw [not_or] at hMayNot
        have hOpen : row.status.isTerminal = false := by
          rcases hFlips with ⟨_, hActive⟩ | ⟨_, hBlocked⟩
          · rw [hActive]
            rfl
          · rw [hBlocked]
            rfl
        exact ⟨hOpen, hMayNot.1, by simpa using hMayNot.2, hFlips, (hGoesOn hOpen).mp ⟨results, hOk⟩⟩

theorem settle_iff (hWaits : Waits store pending) :
    AppendsWithAuthority pending.member store (settle pending directory clock store).2 ↔ ¬ActsLate store directory pending := by
  obtain ⟨row, hRow, hOriginator⟩ := hWaits.row
  have hLate : ∀ {P : Objective → Prop}, (∃ other, store.get pending.id = some other ∧ P other) ↔ P row := by
    intro P
    constructor
    · rintro ⟨other, hOther, h⟩
      cases hRow.symm.trans hOther
      exact h
    · exact fun h => ⟨row, hRow, h⟩
  unfold ActsLate
  rw [hLate, settle]
  cases hRequest : pending.request with
  | patch body =>
    cases body with
    | none => exact iff_of_true (appends_nothing _ _) (by simp)
    | some input =>
      cases hGates : patchGates directory pending.member pending.current input with
      | error refusal =>
        simp only [Request.calls, hGates, bind, Except.bind]
        exact iff_of_true (appends_nothing _ _) (by simp)
      | ok passed =>
        have hPatch := settle_patch_iff clock hRow hOriginator hGates
        simp only [Request.calls, hGates, bind, Except.bind, pure, Except.pure, true_and]
        exact hPatch
  | complete body =>
    cases body with
    | none => exact iff_of_true (appends_nothing _ _) (by simp)
    | some result => exact settle_complete_iff hRow
  | cancel body =>
    cases body with
    | none => exact iff_of_true (appends_nothing _ _) (by simp)
    | some reason =>
      have hAdmitted := hWaits.admitted
      rw [hRequest, Request.admit] at hAdmitted
      refine iff_of_true (settle_cancel hRow ?_) (by simp)
      rw [hOriginator]
      by_contra hMayNot
      rw [not_or] at hMayNot
      simp [hMayNot] at hAdmitted

end Settle

/-! ## Runs -/

section Runs

variable {store : ObjectivesStore}

theorem originator_attempt (calls : List Call) {id : String} {row : Objective}
    (hRow : store.get id = some row) :
    ∃ row', (attempt calls store).2.get id = some row' ∧ row'.originator = row.originator :=
  attempt_keeps (fun _ _ _ _ hChange => originator_of_change hChange) hRow

def KeepsOriginators (store after : ObjectivesStore) : Prop :=
  ∀ id row, store.get id = some row → ∃ row', after.get id = some row' ∧ row'.originator = row.originator

variable {pending : Pending}

theorem Waits.mono {store after : ObjectivesStore} (h : Waits store pending)
    (hKeeps : KeepsOriginators store after) : Waits after pending where
  row := by
    obtain ⟨row, hRow, hOriginator⟩ := h.row
    obtain ⟨next, hNext, hSame⟩ := hKeeps _ _ hRow
    exact ⟨next, hNext, hSame.trans hOriginator⟩
  admitted := h.admitted

theorem keepsOriginators_settle (pending : Pending) (directory : Directory) (clock : Nat → Int) (store : ObjectivesStore) :
    KeepsOriginators store (settle pending directory clock store).2 := by
  intro id row hRow
  unfold settle
  split
  · exact ⟨row, hRow, rfl⟩
  · exact originator_attempt _ hRow

theorem keepsOriginators_postObjective (directory : Directory) (files : AttachmentFiles) (member : Member)
    (body : Option CreateObjectiveRequest) (id : String) (clock : Nat → Int) (store : ObjectivesStore) :
    KeepsOriginators store (postObjective directory files member body id clock store).2 := by
  intro other row hRow
  rcases postObjective_cases directory files member body id clock store with hSame | ⟨input, calls, hAfter, _⟩
  · exact ⟨row, by rw [hSame, hRow], rfl⟩
  · have hCreate : ∀ row change, (Call.create id input member.name.text (clock 0)).change (some row) = .ok change →
        change.next.originator = row.originator := fun _ _ hChange => originator_of_change hChange
    obtain ⟨next, hNext, hSame⟩ := serve_keeps hCreate hRow
    obtain ⟨last, hLast, hLater⟩ := originator_attempt calls hNext
    exact ⟨last, by rw [hAfter, hLast], hLater.trans hSame⟩

theorem appends_postObjective (directory : Directory) (files : AttachmentFiles) (member : Member)
    (body : Option CreateObjectiveRequest) (id : String) (clock : Nat → Int) (store : ObjectivesStore) :
    AppendsWithAuthority member store (postObjective directory files member body id clock store).2 := by
  rcases postObjective_cases directory files member body id clock store with hSame | ⟨input, calls, hAfter, hCalls⟩
  · rw [hSame]
    exact appends_nothing member store
  · intro other
    obtain ⟨later, hLater, hNone⟩ := attempt_log calls (serve store (.create id input member.name.text (clock 0))).1 other
    have hEmpty : later = [] := by
      apply List.eq_nil_iff_forall_not_mem.mpr
      intro event hMem
      obtain ⟨call, hCall, _, _, row, change, hChange, hPayload⟩ := hNone event hMem
      obtain ⟨attachments, now, rfl⟩ := hCalls call hCall
      cases makes_of_change hChange
      cases hPayload
    rw [hAfter, hLater, hEmpty, List.append_nil]
    cases serves store (.create id input member.name.text (clock 0)) with
    | threw thrown _ hServe =>
      rw [hServe]
      exact appends_nothing member store other
    | wrote change hChange hWrote _ =>
      refine ⟨_, hWrote.log other, ?_⟩
      intro event hMem
      split at hMem
      · obtain ⟨payload, hPayload, rfl⟩ := List.mem_map.mp hMem
        have hRightful : Rightful member (store.get other) (.create id input member.name.text (clock 0)) := trivial
        exact ⟨rfl, permits_of_rightful hRightful hChange payload hPayload⟩
      · cases hMem

variable {member : Member}

theorem waits_of_admitted {id : String} {request : Request} (h : admitted member id request store = .ok pending) : Waits store pending := by
  unfold admitted at h
  cases hGet : store.get id with
  | none =>
    rw [hGet] at h
    cases h
  | some current =>
    rw [hGet] at h
    cases hAdmit : request.admit member current with
    | error refusal =>
      simp only [hAdmit, bind, Except.bind] at h
      cases h
    | ok passed =>
      simp only [hAdmit, bind, Except.bind] at h
      cases h
      exact ⟨⟨current, hGet, rfl⟩, hAdmit⟩

def AllWait (desk : Desk) : Prop := ∀ pending ∈ desk.pending, Waits desk.store pending

theorem allWait_handle (desk : Desk) (event : Event) (h : AllWait desk) : AllWait (handle desk event).1 := by
  cases event with
  | create directory files member body id clock =>
    have hKeeps := keepsOriginators_postObjective directory files member body id clock desk.store
    exact fun pending hMem => (h pending hMem).mono hKeeps
  | opened member id request =>
    unfold handle
    dsimp only
    cases hAdmitted : admitted member id request desk.store with
    | error refusal => exact h
    | ok admitted =>
      intro pending hMem
      rcases List.mem_append.mp hMem with hOld | hNew
      · exact h pending hOld
      · rw [List.mem_singleton.mp hNew]
        exact waits_of_admitted hAdmitted
  | settled index directory clock =>
    unfold handle
    dsimp only
    cases hPending : desk.pending[index]? with
    | none => exact h
    | some settled =>
      have hKeeps := keepsOriginators_settle settled directory clock desk.store
      exact fun pending hMem => (h pending (List.mem_of_mem_eraseIdx hMem)).mono hKeeps

theorem hasAuthority_iff_appends {desk : Desk} {event : Event} (hMember : desk.member event = some member) :
    HasAuthority (stepAt handle desk event) ↔ AppendsWithAuthority member desk.store (handle desk event).1.store := by
  unfold HasAuthority AppendsWithAuthority
  simp only [stepAt_before, stepAt_input, stepAt_after, hMember, Option.some.injEq, exists_eq_left']

theorem hasAuthority_iff {desk : Desk} (h : AllWait desk) (event : Event) :
    HasAuthority (stepAt handle desk event) ↔ ¬IsLate desk event := by
  cases event with
  | create directory files member body id clock =>
    rw [hasAuthority_iff_appends rfl]
    exact iff_of_true (appends_postObjective directory files member body id clock desk.store) not_false
  | opened member id request =>
    rw [hasAuthority_iff_appends rfl]
    refine iff_of_true ?_ not_false
    have hStore : (handle desk (.opened member id request)).1.store = desk.store := by
      unfold handle
      dsimp only
      split <;> rfl
    rw [hStore]
    exact appends_nothing member desk.store
  | settled index directory clock =>
    cases hPending : desk.pending[index]? with
    | none =>
      have hHandle : handle desk (.settled index directory clock) = (desk, .waiting) := by simp [handle, hPending]
      refine iff_of_true ?_ (by simp [IsLate, hPending])
      intro id
      exact ⟨[], by simp [hHandle], by simp⟩
    | some pending =>
      have hStore : (handle desk (.settled index directory clock)).1.store =
          (settle pending directory clock desk.store).2 := by simp [handle, hPending]
      have hMember : desk.member (.settled index directory clock) = some pending.member := by simp [Desk.member, hPending]
      rw [hasAuthority_iff_appends hMember, hStore, settle_iff (h pending (List.mem_of_getElem? hPending))]
      simp [IsLate, hPending]

/-- In any run of requests, a step has the authority for what it appends exactly when its request is not late. -/
theorem hasAuthority_iff_not_isLate (events : List Event) (event : Event) :
    HasAuthority (stepAt handle (final handle .empty events) event) ↔ ¬IsLate (final handle .empty events) event :=
  hasAuthority_iff (final_invariant allWait_handle (by rintro _ ⟨⟩) events) event

end Runs

/-! ## What stays of an objective that is finished -/

section Finished

variable {start store : ObjectivesStore}

/-- Only watchers and attachments change. -/
def Retains (row later : Objective) : Prop :=
  later = { row with watchers := later.watchers, attachments := later.attachments, updatedAt := later.updatedAt }

def IsOfWatchers (payload : ObjectiveEventPayload) : Prop :=
  (∃ name, payload = .watcherAdded name none) ∨ ∃ name, payload = .watcherRemoved name

def StaysFinished (start store : ObjectivesStore) : Prop :=
  ∀ id row, start.get id = some row → row.status.isTerminal = true → (∃ later, store.get id = some later ∧ Retains row later) ∧
    ∃ events, store.log id = start.log id ++ events ∧ ∀ event ∈ events, IsOfWatchers event.payload

theorem change_finished {call : Call} {current : Objective} {change : Change} (hTerminal : current.status.isTerminal = true)
    (h : call.change (some current) = .ok change) :
    Retains current change.next ∧ ∀ payload ∈ change.events, IsOfWatchers payload := by
  cases makes_of_change h with
  | create hFresh => cases hFresh
  | update hSome hOpen | complete hSome hOpen | cancel hSome hOpen | reassign hSome hOpen =>
    obtain rfl := Option.some.inj hSome
    simp [updateChange, completeChange, cancelChange, reassignChange, hTerminal, bind, Except.bind, throw, throwThe,
      MonadExceptOf.throw] at hOpen
  | updateWatchers hSome =>
    obtain rfl := Option.some.inj hSome
    refine ⟨?_, fun payload hPayload => mem_updateWatchersChange hPayload⟩
    obtain ⟨watchers, updatedAt, hNext⟩ := updateWatchersChange_next _ _ current
    rw [hNext]
    rfl
  | setAttachments hSome =>
    obtain rfl := Option.some.inj hSome
    exact ⟨rfl, by rintro _ ⟨⟩⟩

theorem staysFinished_serve (h : StaysFinished start store) (call : Call) : StaysFinished start (serve store call).1 := by
  intro id row hRow hTerminal
  obtain ⟨⟨later, hLater, hSame⟩, events, hLog, hEvents⟩ := h id row hRow hTerminal
  cases serves store call with
  | threw thrown _ hServe =>
    rw [hServe]
    exact ⟨⟨later, hLater, hSame⟩, events, hLog, hEvents⟩
  | wrote change hChange hAfter _ =>
    rw [hAfter.get, hAfter.log]
    split
    · rename_i hId
      rw [← hId, hLater] at hChange
      obtain ⟨hNext, hMade⟩ := change_finished (hSame ▸ hTerminal) hChange
      refine ⟨⟨_, rfl, hNext.trans (by rw [hSame])⟩, events ++ stampOf call change.events, ?_, fun event hEvent => ?_⟩
      · rw [hLog, List.append_assoc]
      · rcases List.mem_append.mp hEvent with hOld | hNew
        · exact hEvents event hOld
        · obtain ⟨payload, hPayload, rfl⟩ := List.mem_map.mp hNew
          exact hMade payload hPayload
    · exact ⟨⟨later, hLater, hSame⟩, events, by rw [hLog, List.append_nil], hEvents⟩

theorem staysFinished_attempt (calls : List Call) (h : StaysFinished start store) : StaysFinished start (attempt calls store).2 := by
  induction calls generalizing store with
  | nil => exact h
  | cons call calls ih =>
    have hFirst := staysFinished_serve h call
    unfold attempt
    split <;> rename_i hServe <;> rw [hServe] at hFirst
    · exact hFirst
    · exact ih hFirst

theorem staysFinished_handle {desk : Desk} (h : StaysFinished start desk.store) (event : Event) :
    StaysFinished start (handle desk event).1.store := by
  cases event with
  | create directory files member body id clock =>
    change StaysFinished start (postObjective directory files member body id clock desk.store).2
    rcases postObjective_cases directory files member body id clock desk.store with hSame | ⟨_, calls, hAfter, _⟩
    · rwa [hSame]
    · rw [hAfter]
      exact staysFinished_attempt calls (staysFinished_serve h _)
  | opened member id request =>
    dsimp only [handle]
    split <;> exact h
  | settled index directory clock =>
    dsimp only [handle, settle]
    split
    · exact h
    · split
      · exact h
      · exact staysFinished_attempt _ h

/-- No run of requests reopens, reassigns or completes again what is done or cancelled, whatever they saw when they came. -/
theorem finished_stays (desk : Desk) (events : List Event) : StaysFinished desk.store (final handle desk events).store :=
  final_invariant (P := fun later : Desk => StaysFinished desk.store later.store) (fun _ event h => staysFinished_handle h event)
    (fun _ row hRow _ => ⟨⟨row, hRow, rfl⟩, [], (List.append_nil _).symm, by rintro _ ⟨⟩⟩) events

end Finished

/-! Bob completes what Alice hands to Carol while his result is on its way. -/

def alice : Member := ⟨⟨"alice", .refl true⟩, [.objectivesCreate, .objectivesReassign]⟩

def bob : Member := ⟨⟨"bob", .refl true⟩, []⟩

def carol : Member := ⟨⟨"carol", .refl true⟩, []⟩

def team : Directory := ⟨⟨[alice, bob, carol], by decide⟩, none, fun _ _ => .ok []⟩

def handsOver : List Event :=
  [.create team ⟨fun _ => .ok [], none⟩ alice (some ⟨"Ship", "Shipped", none, "bob", none, none⟩) "obj-1" fun _ => 1,
    .opened bob "obj-1" (.complete (some "shipped")),
    .opened alice "obj-1" (.patch (some ⟨⟨none, none⟩, some "carol", none, none, none⟩)),
    .settled 1 team fun _ => 2]

theorem former_assignee_completes :
    ¬∀ (events : List Event) (event : Event),
      HasAuthority (stepAt handle (final handle .empty events) event) := by
  intro h
  have hWaits : AllWait (final handle .empty handsOver) := final_invariant allWait_handle (by rintro _ ⟨⟩) handsOver
  refine (hasAuthority_iff hWaits _).mp (h handsOver (.settled 0 team fun _ => 3)) ⟨⟨.complete (some "shipped"), bob, "obj-1",
    ⟨"obj-1", "Ship", "", "Shipped", .active, "bob", "alice", [], 1, 1, none, none, none, []⟩⟩, rfl, ?_⟩
  refine ⟨⟨"obj-1", "Ship", "", "Shipped", .active, "carol", "alice", ["bob"], 1, 2, none, none, none, []⟩, ?_, rfl, ?_, ?_⟩
  · decide
  · decide
  · change trim "shipped" ≠ ""
    decide

end CommandSuite.Objectives
