import CommandSuite.Core.Objectives.Changes

/-! # The audit log

Replaying the events of an objective gives its row, unless the reason of a block was changed in place.
-/

namespace CommandSuite.Objectives

open Library ObjectivesStore Transcript

structure Recorded where
  title : String
  outcome : String
  status : ObjectiveStatus
  assignee : String
  watchers : List String
  blockReason : Option String
  result : Option String

namespace Recorded

def record (recorded : Recorded) : ObjectiveEventPayload → Recorded
  | .assigned title outcome assignee watchers => ⟨title, outcome, .active, assignee, watchers, none, none⟩
  | .blocked reason => { recorded with status := .blocked, blockReason := reason }
  | .unblocked => { recorded with status := .active, blockReason := none }
  | .completed result => { recorded with status := .done, result := some result }
  | .cancelled _ => { recorded with status := .cancelled }
  | .reassigned _ toName _ => { recorded with assignee := toName }
  | .watcherAdded name _ => { recorded with watchers := recorded.watchers ++ [name] }
  | .watcherRemoved name => { recorded with watchers := recorded.watchers.filter fun watcher => watcher ≠ name }

def begin : Option Recorded → ObjectiveEventPayload → Option Recorded
  | some recorded, payload => some (recorded.record payload)
  | none, .assigned title outcome assignee watchers => some ⟨title, outcome, .active, assignee, watchers, none, none⟩
  | none, _ => none

end Recorded

def replay (events : List ObjectiveEvent) : Option Recorded := (events.map ObjectiveEvent.payload).foldl Recorded.begin none

/-- The log and the row agree. The reason of a block does not matter once the objective is closed. -/
structure Recorded.Matches (recorded : Recorded) (row : Objective) : Prop where
  title : recorded.title = row.title
  outcome : recorded.outcome = row.outcome
  status : recorded.status = row.status
  assignee : recorded.assignee = row.assignee
  watchers : recorded.watchers = row.watchers
  blockReason : row.status.isTerminal = false → recorded.blockReason = row.blockReason
  result : recorded.result = row.result

def Determines (row : Objective) (log : List ObjectiveEvent) : Prop :=
  ∃ recorded, replay log = some recorded ∧ recorded.Matches row

/-- A block of what is blocked already, for another reason, writes the row and appends nothing. -/
def BlocksAgain (store : ObjectivesStore) : Call → Prop
  | .update id input _ _ => ∃ current, store.get id = some current ∧ current.status = .blocked ∧
      input.status = some .blocked ∧ trimmed input.blockReason ≠ current.blockReason
  | _ => False

/-! ## Replaying -/

section Replay

variable {recorded : Recorded} {row : Objective} {log : List ObjectiveEvent}

theorem foldl_begin (payloads : List ObjectiveEventPayload) (recorded : Recorded) :
    payloads.foldl Recorded.begin (some recorded) = some (payloads.foldl Recorded.record recorded) := by
  induction payloads generalizing recorded with
  | nil => rfl
  | cons payload payloads ih => exact ih _

theorem replay_append_stamp (call : Call) (events : List ObjectiveEventPayload) :
    replay (log ++ stampOf call events) = events.foldl Recorded.begin (replay log) := by
  rw [replay, List.map_append, List.foldl_append, stampOf, stamp, List.map_map]
  change List.foldl _ _ (events.map id) = _
  rw [List.map_id]
  rfl

theorem determines_append_iff (hReplay : replay log = some recorded) (call : Call) (change : Change) :
    Determines change.next (log ++ stampOf call change.events) ↔
      (change.events.foldl Recorded.record recorded).Matches change.next := by
  rw [Determines, replay_append_stamp, hReplay, foldl_begin]
  constructor
  · rintro ⟨_, hSome, hMatches⟩
    cases hSome
    exact hMatches
  · intro hMatches
    exact ⟨_, rfl, hMatches⟩

theorem record_added (names : List String) (reason : Option String) :
    (names.map fun name => ObjectiveEventPayload.watcherAdded name reason).foldl Recorded.record recorded =
      { recorded with watchers := recorded.watchers ++ names } := by
  induction names generalizing recorded with
  | nil => simp
  | cons name names ih =>
    rw [List.map_cons, List.foldl_cons, ih]
    simp [Recorded.record]

theorem record_removed (names : List String) :
    (names.map ObjectiveEventPayload.watcherRemoved).foldl Recorded.record recorded =
      { recorded with watchers := recorded.watchers.filter fun watcher => watcher ∉ names } := by
  induction names generalizing recorded with
  | nil => simp
  | cons name names ih =>
    rw [List.map_cons, List.foldl_cons, ih]
    simp only [Recorded.record, List.filter_filter, Recorded.mk.injEq, true_and, and_true]
    apply List.filter_congr
    intro watcher _
    simp [not_or, Bool.and_comm]

end Replay

/-! ## What each call records -/

section Records

variable {recorded : Recorded} {current : Objective} {change : Change} {now : Int}

section

variable (h : recorded.Matches current)
include h

theorem matches_update_iff {input : UpdateObjectiveRequest}
    (hReason : current.status = .active → current.blockReason = none) (hChange : updateChange input now current = .ok change) :
    (change.events.foldl Recorded.record recorded).Matches change.next ↔
      ¬(current.status = .blocked ∧ input.status = some .blocked ∧ trimmed input.blockReason ≠ current.blockReason) := by
  rcases updateChange_eq_ok hChange with
    ⟨rfl, hSame, _⟩ | ⟨hInput, hNext, ⟨hStatus, hEvents⟩ | ⟨hStatus, hDiffers, hEvents⟩⟩ |
      ⟨hInput, hNext, ⟨hStatus, hEvents⟩ | ⟨hStatus, hBlocked, _⟩⟩
  · refine iff_of_true h ?_
    rintro ⟨hStatus, hInput, hDiffers⟩
    exact hDiffers (hSame hInput).2
  · rw [hNext, hEvents]
    refine iff_of_true { h with status := rfl, blockReason := fun _ => rfl } ?_
    rintro ⟨hBlocked, _⟩
    rw [hStatus] at hBlocked
    cases hBlocked
  -- the row has another reason than its log
  · rw [hNext, hEvents]
    refine iff_of_false ?_ (not_not.mpr ⟨hStatus, hInput, hDiffers⟩)
    intro hMatches
    have hLog := h.blockReason (by rw [hStatus]; rfl)
    exact hDiffers ((hMatches.blockReason rfl).symm.trans hLog)
  · rw [hNext, hEvents]
    refine iff_of_true { h with status := rfl, blockReason := fun _ => rfl } ?_
    rintro ⟨_, hBlocked, _⟩
    rw [hInput] at hBlocked
    cases hBlocked
  · exact absurd (hReason hStatus) hBlocked

theorem matches_complete {result : String}
    (hChange : completeChange result now current = .ok change) :
    (change.events.foldl Recorded.record recorded).Matches change.next := by
  rw [(completeChange_eq_ok hChange).2.2]
  exact { h with status := rfl, blockReason := nofun, result := rfl }

theorem matches_cancel {reason : Option String}
    (hChange : cancelChange reason now current = .ok change) :
    (change.events.foldl Recorded.record recorded).Matches change.next := by
  rw [cancelChange_eq_ok hChange]
  exact { h with status := rfl, blockReason := nofun }

theorem matches_reassign {input : ReassignObjectiveRequest}
    (hChange : reassignChange input now current = .ok change) :
    (change.events.foldl Recorded.record recorded).Matches change.next := by
  obtain ⟨_, _, promoted, _, rfl⟩ := reassignChange_eq_ok hChange
  rw [List.foldl_cons, record_added]
  exact { h with assignee := rfl, watchers := congrArg (· ++ promoted) h.watchers }

end

theorem matches_updateWatchers (input : UpdateWatchersRequest) (now : Int) (h : recorded.Matches current) :
    ((updateWatchersChange input now current).events.foldl Recorded.record recorded).Matches
      (updateWatchersChange input now current).next := by
  unfold updateWatchersChange
  dsimp only
  split
  · exact h
  · rw [List.foldl_append, record_added, record_removed]
    refine { h with watchers := ?_ }
    dsimp only
    rw [h.watchers, List.filter_append]
    congr 1
    rw [List.filter_eq_self]
    intro name hAdded
    have hNew := admits_of_mem_collect hAdded
    simp only [decide_eq_true_eq]
    intro hRemoved
    have hOld := admits_of_mem_collect hRemoved
    simp_all

def HasNoReason (row : Objective) (_ : List ObjectiveEvent) : Prop := row.status = .active → row.blockReason = none

theorem hasNoReason_change {call : Call} {row : Option Objective}
    (hRow : ∀ current, row = some current → current.status = .active → current.blockReason = none)
    (hChange : call.change row = .ok change) : change.next.status = .active → change.next.blockReason = none := by
  cases makes_of_change hChange with
  | create _ h =>
    obtain ⟨_, _, _, _, _, hReason, _⟩ := createChange_eq_ok h
    exact fun _ => hReason
  | update hSome h =>
    rcases updateChange_eq_ok h with ⟨rfl, _⟩ | ⟨_, hNext, _⟩ | ⟨_, hNext, _⟩
    · exact hRow _ hSome
    · rw [hNext]
      nofun
    · rw [hNext]
      exact fun _ => rfl
  | complete _ h =>
    rw [(completeChange_eq_ok h).2.2]
    nofun
  | cancel _ h =>
    rw [cancelChange_eq_ok h]
    nofun
  | reassign hSome h =>
    obtain ⟨_, _, promoted, _, rfl⟩ := reassignChange_eq_ok h
    have hReason := hRow _ hSome
    exact hReason
  | updateWatchers hSome =>
    obtain ⟨watchers, updatedAt, hNext⟩ := updateWatchersChange_next _ _ _
    have hReason := hRow _ hSome
    rw [hNext]
    exact hReason
  | setAttachments hSome =>
    have hReason := hRow _ hSome
    exact hReason

theorem determines_change_iff {store : ObjectivesStore} (hReasons : store.Holds HasNoReason)
    (hDetermines : store.Holds Determines) {call : Call} (hChange : call.change (store.get call.id) = .ok change) :
    Determines change.next (store.log call.id ++ stampOf call change.events) ↔ ¬BlocksAgain store call := by
  cases makes_of_change hChange with
  | create _ h =>
    refine iff_of_true ?_ id
    obtain ⟨_, hStatus, hAssignee, _, _, hReason, hResult, hEvents⟩ := createChange_eq_ok h
    rw [Determines, replay_append_stamp, hEvents]
    cases replay (store.log _) <;>
      exact ⟨_, rfl, ⟨rfl, rfl, hStatus.symm, hAssignee.symm, rfl, fun _ => hReason.symm, hResult.symm⟩⟩
  | update hSome h =>
    obtain ⟨recorded, hReplay, hMatches⟩ := hDetermines _ _ hSome
    rw [determines_append_iff hReplay, matches_update_iff hMatches (hReasons _ _ hSome) h]
    apply not_congr
    constructor
    · exact fun hAgain => ⟨_, hSome, hAgain⟩
    · rintro ⟨current, hGet, hAgain⟩
      cases hSome.symm.trans hGet
      exact hAgain
  | complete hSome h =>
    obtain ⟨recorded, hReplay, hMatches⟩ := hDetermines _ _ hSome
    exact iff_of_true ((determines_append_iff hReplay _ _).mpr (matches_complete hMatches h)) id
  | cancel hSome h =>
    obtain ⟨recorded, hReplay, hMatches⟩ := hDetermines _ _ hSome
    exact iff_of_true ((determines_append_iff hReplay _ _).mpr (matches_cancel hMatches h)) id
  | reassign hSome h =>
    obtain ⟨recorded, hReplay, hMatches⟩ := hDetermines _ _ hSome
    exact iff_of_true ((determines_append_iff hReplay _ _).mpr (matches_reassign hMatches h)) id
  | updateWatchers hSome =>
    obtain ⟨recorded, hReplay, hMatches⟩ := hDetermines _ _ hSome
    exact iff_of_true ((determines_append_iff hReplay _ _).mpr (matches_updateWatchers _ _ hMatches)) id
  | setAttachments hSome =>
    obtain ⟨recorded, hReplay, hMatches⟩ := hDetermines _ _ hSome
    exact iff_of_true ((determines_append_iff hReplay _ ⟨_, []⟩).mpr { hMatches with }) id

end Records

theorem hasNoReason_serve (store : ObjectivesStore) (call : Call) (h : store.Holds HasNoReason) :
    (serve store call).1.Holds HasNoReason :=
  (holds_serve_iff h call).mpr fun _ hChange => hasNoReason_change (h call.id) hChange

theorem ok_of_blocksAgain {store : ObjectivesStore} {call : Call} (h : BlocksAgain store call) :
    ∃ change, call.change (store.get call.id) = .ok change := by
  cases call with
  | update id input actor now =>
    obtain ⟨current, hGet, hStatus, _⟩ := h
    obtain ⟨change, hChange⟩ := updateChange_open current input now (by rw [hStatus]; rfl)
    exact ⟨change, by rw [Call.id, hGet]; exact hChange⟩
  | create | complete | cancel | reassign | updateWatchers | setAttachments => cases h

theorem determines_serve_iff (store : ObjectivesStore) (call : Call) (hReasons : store.Holds HasNoReason)
    (hDetermines : store.Holds Determines) : (serve store call).1.Holds Determines ↔ ¬BlocksAgain store call := by
  rw [holds_serve_iff hDetermines]
  constructor
  · intro hNext hAgain
    obtain ⟨change, hChange⟩ := ok_of_blocksAgain hAgain
    exact (determines_change_iff hReasons hDetermines hChange).mp (hNext change hChange) hAgain
  · exact fun hFirst change hChange => (determines_change_iff hReasons hDetermines hChange).mpr hFirst

/-- The log of every objective determines it in all states of a run exactly when no call blocks again. -/
theorem log_determines_iff_not_blocksAgain (calls : List Call) :
    (∀ step ∈ run serve .empty calls, step.after.Holds Determines) ↔
      ∀ step ∈ run serve .empty calls, ¬BlocksAgain step.before step.input :=
  forall_after_iff hasNoReason_serve determines_serve_iff (holds_empty _) (holds_empty _) calls

/-! Bob is blocked, and then blocked for another reason. -/

def blockedTwice : List Call :=
  [.create "obj-1" ⟨"Ship", "Shipped", none, "bob", none, none⟩ "alice" 1,
    .update "obj-1" ⟨some .blocked, some "waiting for a key"⟩ "bob" 2,
    .update "obj-1" ⟨some .blocked, some "waiting for a review"⟩ "bob" 3]

theorem second_reason_unrecorded : ¬∀ calls, ∀ step ∈ run serve .empty calls, step.after.Holds Determines := by
  intro h
  have hNever := (forall_after_iff hasNoReason_serve determines_serve_iff (holds_empty _) (holds_empty _)
    blockedTwice).mp (h blockedTwice)
  refine hNever _ (.tail _ (.tail _ (.head _))) ⟨⟨"obj-1", "Ship", "", "Shipped", .blocked, "bob", "alice", [], 1, 2, none,
    none, some "waiting for a key", []⟩, ?_, rfl, rfl, ?_⟩
  · decide
  · decide

end CommandSuite.Objectives
