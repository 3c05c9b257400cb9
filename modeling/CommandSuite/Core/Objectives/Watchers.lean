import CommandSuite.Core.Objectives.Changes

/-! # The watchers of an objective

The explicit list tracks nobody twice, and neither the assignee nor the originator, until an objective is
handed to one of its watchers.
-/

namespace CommandSuite.Objectives

open Library Transcript

/-- The assignee and the originator are members of the thread without being watchers. -/
structure Tracks (row : Objective) : Prop where
  nodup : row.watchers.Nodup
  assignee : row.assignee ∉ row.watchers
  originator : row.originator ∉ row.watchers

def HandsToWatcher (store : ObjectivesStore) : Call → Prop
  | .reassign id input _ _ => ∃ current, store.get id = some current ∧ current.status.isTerminal = false ∧
      input.toName ∈ current.watchers
  | _ => False

section Changes

variable {current : Objective} {change : Change} {now : Int}

theorem tracks_create {id originator : String} {input : CreateObjectiveRequest}
    (h : createChange id input originator now = .ok change) : Tracks change.next := by
  obtain ⟨_, _, hAssignee, hOriginator, hWatchers, _⟩ := createChange_eq_ok h
  constructor
  · rw [hWatchers]
    exact nodup_collect _ _
  · rw [hWatchers, hAssignee]
    intro hMem
    have hAdmits := admits_of_mem_collect hMem
    simp at hAdmits
  · rw [hWatchers, hOriginator]
    intro hMem
    have hAdmits := admits_of_mem_collect hMem
    simp at hAdmits

theorem tracks_reassign_iff {input : ReassignObjectiveRequest} (hTracks : Tracks current)
    (h : reassignChange input now current = .ok change) : Tracks change.next ↔ input.toName ∉ current.watchers := by
  obtain ⟨_, hOther, promoted, hPromoted, rfl⟩ := reassignChange_eq_ok h
  constructor
  · intro hNext hWatches
    exact hNext.assignee (List.mem_append_left promoted hWatches)
  · intro hNew
    rcases hPromoted with ⟨rfl, _⟩ | ⟨rfl, hOriginator, hAssignee⟩
    · constructor
      · simpa using hTracks.nodup
      · simpa using hNew
      · simpa using hTracks.originator
    · constructor
      · exact List.nodup_append'.mpr ⟨hTracks.nodup, List.nodup_singleton _, by simpa using hAssignee⟩
      · simpa [hOther] using hNew
      · simpa [Ne.symm hOriginator] using hTracks.originator

theorem tracks_updateWatchers (input : UpdateWatchersRequest) (now : Int) (hTracks : Tracks current) :
    Tracks (updateWatchersChange input now current).next := by
  unfold updateWatchersChange
  dsimp only
  split
  · exact hTracks
  · have hKept : ∀ removed : List String, ∀ name ∈ current.watchers.filter (fun watcher => watcher ∉ removed),
        name ∈ current.watchers := fun removed name hMem => (List.mem_filter.mp hMem).1
    constructor
    · refine List.nodup_append'.mpr ⟨hTracks.nodup.filter _, nodup_collect _ _, ?_⟩
      intro name hOld hNew
      have hAdmits := admits_of_mem_collect hNew
      simp [hKept _ name hOld] at hAdmits
    · intro hMem
      rcases List.mem_append.mp hMem with hOld | hNew
      · exact hTracks.assignee (hKept _ _ hOld)
      · have hAdmits := admits_of_mem_collect hNew
        simp at hAdmits
    · intro hMem
      rcases List.mem_append.mp hMem with hOld | hNew
      · exact hTracks.originator (hKept _ _ hOld)
      · have hAdmits := admits_of_mem_collect hNew
        simp at hAdmits

theorem tracks_change_iff {store : ObjectivesStore} {call : Call}
    (hTracks : ∀ current, store.get call.id = some current → Tracks current)
    (hChange : call.change (store.get call.id) = .ok change) : Tracks change.next ↔ ¬HandsToWatcher store call := by
  cases makes_of_change hChange with
  | create _ h => exact iff_of_true (tracks_create h) id
  | update hSome h =>
    have hRow := hTracks _ hSome
    refine iff_of_true ?_ id
    rcases updateChange_eq_ok h with ⟨rfl, _⟩ | ⟨_, hNext, _⟩ | ⟨_, hNext, _⟩
    · exact hRow
    · rw [hNext]
      exact { hRow with }
    · rw [hNext]
      exact { hRow with }
  | complete hSome h =>
    rw [(completeChange_eq_ok h).2.2]
    exact iff_of_true { hTracks _ hSome with } id
  | cancel hSome h =>
    rw [cancelChange_eq_ok h]
    exact iff_of_true { hTracks _ hSome with } id
  | reassign hSome h =>
    rw [tracks_reassign_iff (hTracks _ hSome) h]
    apply not_congr
    constructor
    · exact fun hWatches => ⟨_, hSome, (reassignChange_eq_ok h).1, hWatches⟩
    · rintro ⟨current, hGet, _, hWatches⟩
      cases hSome.symm.trans hGet
      exact hWatches
  | updateWatchers hSome => exact iff_of_true (tracks_updateWatchers _ _ (hTracks _ hSome)) id
  | setAttachments hSome => exact iff_of_true { hTracks _ hSome with } id

end Changes

theorem ok_of_handsToWatcher {store : ObjectivesStore} {call : Call}
    (hTracks : ∀ current, store.get call.id = some current → Tracks current) (h : HandsToWatcher store call) :
    ∃ change, call.change (store.get call.id) = .ok change := by
  cases call with
  | reassign id input actor now =>
    obtain ⟨current, hGet, hOpen, hWatches⟩ := h
    have hOther : input.toName ≠ current.assignee := by
      intro hSame
      rw [hSame] at hWatches
      exact (hTracks current hGet).assignee hWatches
    obtain ⟨change, hChange⟩ := reassignChange_open _ now hOpen hOther
    exact ⟨change, by rw [Call.id, hGet]; exact hChange⟩
  | create | update | complete | cancel | updateWatchers | setAttachments => cases h

theorem tracks_serve_iff (store : ObjectivesStore) (call : Call) (_ : True)
    (hTracks : store.Holds fun row _ => Tracks row) :
    ((serve store call).1.Holds fun row _ => Tracks row) ↔ ¬HandsToWatcher store call := by
  rw [holds_serve_iff hTracks]
  constructor
  · intro hNext hHands
    obtain ⟨change, hChange⟩ := ok_of_handsToWatcher (hTracks call.id) hHands
    exact (tracks_change_iff (hTracks call.id) hChange).mp (hNext change hChange) hHands
  · exact fun hOther change hChange => (tracks_change_iff (hTracks call.id) hChange).mpr hOther

/-- The watchers of every objective are tracked well in all states of a run exactly when nothing is handed to a watcher. -/
theorem tracks_iff_not_handsToWatcher (calls : List Call) :
    (∀ step ∈ run serve .empty calls, step.after.Holds fun row _ => Tracks row) ↔
      ∀ step ∈ run serve .empty calls, ¬HandsToWatcher step.before step.input :=
  forall_after_iff (fun _ _ _ => trivial) tracks_serve_iff trivial (holds_empty _) calls

/-! Carol watches what Bob does, and takes it over. -/

def handedOver : List Call :=
  [.create "obj-1" ⟨"Ship", "Shipped", none, "bob", some ["carol"], none⟩ "alice" 1, .reassign "obj-1" ⟨"carol", none⟩ "alice" 2]

theorem watcher_becomes_assignee : ¬∀ calls, ∀ step ∈ run serve .empty calls, step.after.Holds fun row _ => Tracks row := by
  intro h
  have hNever := (forall_after_iff (fun _ _ _ => trivial) tracks_serve_iff trivial (holds_empty _)
    handedOver).mp (h handedOver)
  refine hNever _ (.tail _ (.head _)) ⟨⟨"obj-1", "Ship", "", "Shipped", .active, "bob", "alice", ["carol"], 1, 1, none,
    none, none, []⟩, ?_, rfl, ?_⟩
  · decide
  · decide

end CommandSuite.Objectives
