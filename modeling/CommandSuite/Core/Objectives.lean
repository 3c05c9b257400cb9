import CommandSuite.Core.Message
import CommandSuite.Library.Table
import CommandSuite.Library.Text
import CommandSuite.Library.Transcript
import Mathlib.Data.List.Sort

/-! # The objectives store

`packages/core/src/objectives.ts`: a row for each objective and an append-only log of events. A call
reads the row, checks the transition, and writes the row and its events in one transaction.
-/

namespace CommandSuite.Objectives

open Library Text

inductive ObjectiveStatus where
  | active | blocked | done | cancelled
  deriving DecidableEq

namespace ObjectiveStatus

def text : ObjectiveStatus → String
  | .active => "active"
  | .blocked => "blocked"
  | .done => "done"
  | .cancelled => "cancelled"

def isTerminal (status : ObjectiveStatus) : Bool := status = .done || status = .cancelled

end ObjectiveStatus

structure Objective where
  id : String
  title : String
  body : String
  outcome : String
  status : ObjectiveStatus
  assignee : String
  originator : String
  watchers : List String
  createdAt : Int
  updatedAt : Int
  completedAt : Option Int
  result : Option String
  blockReason : Option String
  attachments : List Attachment
  deriving DecidableEq

abbrev Objective.key (objective : Objective) : String := objective.id

inductive ObjectiveEventPayload where
  | assigned (title outcome assignee : String) (watchers : List String)
  | blocked (reason : Option String)
  | unblocked
  | completed (result : String)
  | cancelled (reason : Option String)
  | reassigned (fromName toName : String) (note : Option String)
  | watcherAdded (name : String) (reason : Option String)
  | watcherRemoved (name : String)
  deriving DecidableEq

structure ObjectiveEvent where
  objectiveId : String
  ts : Int
  actor : String
  payload : ObjectiveEventPayload
  deriving DecidableEq

inductive ObjectivesErrorCode where
  | notFound | invalidTransition | invalidInput | terminal
  deriving DecidableEq

structure ObjectivesError where
  code : ObjectivesErrorCode
  message : String
  deriving DecidableEq

inductive Thrown where
  | objectives (error : ObjectivesError)
  | constraint
  deriving DecidableEq

structure ObjectivesStore where
  objectives : Table Objective.key
  objectiveEvents : List ObjectiveEvent

structure ObjectivesMutationResult where
  objective : Objective
  events : List ObjectiveEvent

namespace ObjectivesStore

def empty : ObjectivesStore := ⟨.empty, []⟩

def get (store : ObjectivesStore) (id : String) : Option Objective := store.objectives.find id

def log (store : ObjectivesStore) (id : String) : List ObjectiveEvent :=
  store.objectiveEvents.filter fun event => event.objectiveId = id

/-- `ORDER BY ts ASC, ROWID ASC`. -/
def events (store : ObjectivesStore) (id : String) : List ObjectiveEvent :=
  (store.log id).insertionSort fun first second => first.ts ≤ second.ts

/-- With a clock that does not go back, events are listed as they were appended. -/
theorem events_eq_log {store : ObjectivesStore} {id : String}
    (h : (store.log id).Pairwise fun first second => first.ts ≤ second.ts) : store.events id = store.log id :=
  List.Pairwise.insertionSort_eq h

end ObjectivesStore

/-! ## Requests -/

structure CreateObjectiveRequest where
  title : String
  outcome : String
  body : Option String
  assignee : String
  watchers : Option (List String)
  attachments : Option (List Attachment)

/-- The fields that `update` reads. -/
structure UpdateObjectiveRequest where
  status : Option ObjectiveStatus
  blockReason : Option String

/-- `toName` is the field `to`. -/
structure ReassignObjectiveRequest where
  toName : String
  note : Option String

structure UpdateWatchersRequest where
  add : Option (List String)
  remove : Option (List String)

/-! ## Changes -/

structure Change where
  next : Objective
  events : List ObjectiveEventPayload

def trimmed (text : Option String) : Option String := (text.map trim).filter fun text => text ≠ ""

def collect (admits : String → Bool) (taken : List String) : List String → List String
  | [] => taken
  | name :: names =>
    if name = "" || !admits name || name ∈ taken then collect admits taken names
    else collect admits (taken ++ [name]) names

theorem collect_spec {admits : String → Bool} {taken : List String} (names : List String) (hNodup : taken.Nodup)
    (hAdmits : ∀ name ∈ taken, admits name = true) :
    (collect admits taken names).Nodup ∧ ∀ name ∈ collect admits taken names, admits name = true := by
  induction names generalizing taken with
  | nil => exact ⟨hNodup, hAdmits⟩
  | cons name names ih =>
    unfold collect
    split
    · exact ih hNodup hAdmits
    · rename_i hTaken
      simp only [Bool.or_eq_true, Bool.not_eq_true', decide_eq_true_eq, not_or, Bool.not_eq_false] at hTaken
      apply ih
      · exact List.nodup_append'.mpr ⟨hNodup, List.nodup_singleton name, by simpa using hTaken.2⟩
      · intro other hOther
        rcases List.mem_append.mp hOther with hOther | hOther
        · exact hAdmits other hOther
        · rw [List.mem_singleton.mp hOther]
          exact hTaken.1.2

theorem nodup_collect (admits : String → Bool) (names : List String) : (collect admits [] names).Nodup :=
  (collect_spec names List.nodup_nil (by simp)).1

theorem admits_of_mem_collect {admits : String → Bool} {names : List String} {name : String}
    (h : name ∈ collect admits [] names) : admits name = true :=
  (collect_spec names List.nodup_nil (by simp)).2 name h

def createChange (id : String) (input : CreateObjectiveRequest) (originator : String) (now : Int) :
    Except Thrown Change := do
  let title := trim input.title
  let outcome := trim input.outcome
  if title = "" then throw (.objectives ⟨.invalidInput, "title is required"⟩)
  if outcome = "" then throw (.objectives ⟨.invalidInput, "outcome is required"⟩)
  let watchers := collect (fun name => name ≠ input.assignee && name ≠ originator) [] (input.watchers.getD [])
  return {
    next := ⟨id, title, trim (input.body.getD ""), outcome, .active, input.assignee, originator, watchers, now, now,
      none, none, none, input.attachments.getD []⟩
    events := [.assigned title outcome input.assignee watchers] }

def updateChange (input : UpdateObjectiveRequest) (now : Int) (current : Objective) : Except Thrown Change := do
  if current.status.isTerminal then
    throw (.objectives ⟨.terminal, s!"objective {current.id} is {current.status.text} and cannot be updated"⟩)
  let (nextStatus, nextBlockReason) :=
    match input.status with
    | some .blocked => (ObjectiveStatus.blocked, trimmed input.blockReason)
    | some .active => (.active, none)
    | _ => (current.status, current.blockReason)
  if nextStatus = current.status && nextBlockReason = current.blockReason then
    return ⟨current, []⟩
  return {
    next := { current with status := nextStatus, updatedAt := now, blockReason := nextBlockReason }
    events :=
      if input.status = some .blocked && current.status ≠ .blocked then [.blocked nextBlockReason]
      else if input.status = some .active && current.status = .blocked then [.unblocked]
      else [] }

def completeChange (result : String) (now : Int) (current : Objective) : Except Thrown Change := do
  if current.status.isTerminal then
    throw (.objectives ⟨.terminal, s!"objective {current.id} is already {current.status.text}"⟩)
  let result := trim result
  if result = "" then throw (.objectives ⟨.invalidInput, "result is required to complete an objective"⟩)
  return {
    next := { current with
      status := .done, updatedAt := now, completedAt := some now, result := some result, blockReason := none }
    events := [.completed result] }

def cancelChange (reason : Option String) (now : Int) (current : Objective) : Except Thrown Change := do
  if current.status.isTerminal then
    throw (.objectives ⟨.terminal, s!"objective {current.id} is already {current.status.text}"⟩)
  return ⟨{ current with status := .cancelled, updatedAt := now }, [.cancelled (trimmed reason)]⟩

def reassignChange (input : ReassignObjectiveRequest) (now : Int) (current : Objective) :
    Except Thrown Change := do
  if current.status.isTerminal then
    throw (.objectives ⟨.terminal, s!"objective {current.id} is {current.status.text} and cannot be reassigned"⟩)
  if input.toName = current.assignee then
    throw (.objectives ⟨.invalidInput, s!"objective {current.id} is already assigned to {input.toName}"⟩)
  let promoteToWatcher := current.assignee ≠ current.originator && current.assignee ∉ current.watchers
  let note := (input.note.filter fun note => note ≠ "").map trim
  return {
    next := { current with
      assignee := input.toName
      updatedAt := now
      watchers := if promoteToWatcher then current.watchers ++ [current.assignee] else current.watchers }
    events := .reassigned current.assignee input.toName note ::
      if promoteToWatcher then [.watcherAdded current.assignee (some "reassigned-from")] else [] }

def updateWatchersChange (input : UpdateWatchersRequest) (now : Int) (current : Objective) : Change :=
  let toAdd := collect
    (fun name => name ≠ current.assignee && name ≠ current.originator && name ∉ current.watchers) [] (input.add.getD [])
  let toRemove := collect (fun name => name ∈ current.watchers) [] (input.remove.getD [])
  if toAdd.isEmpty && toRemove.isEmpty then ⟨current, []⟩
  else {
    next := { current with
      watchers := (current.watchers.filter fun name => name ∉ toRemove) ++ toAdd
      updatedAt := now }
    events := (toAdd.map fun name => .watcherAdded name none) ++ toRemove.map .watcherRemoved }

/-! ## Calls -/

namespace ObjectivesStore

def stamp (id actor : String) (now : Int) (events : List ObjectiveEventPayload) : List ObjectiveEvent :=
  events.map fun payload => ⟨id, now, actor, payload⟩

def setRow (next : Objective) (store : ObjectivesStore) : ObjectivesStore :=
  { store with
    objectives := store.objectives.update (fun row => row.id = next.id) (fun row => { next with id := row.id }) fun _ => rfl }

def append (events : List ObjectiveEvent) (store : ObjectivesStore) : ObjectivesStore :=
  { store with objectiveEvents := store.objectiveEvents ++ events }

def create (id : String) (input : CreateObjectiveRequest) (originator : String) (now : Int) (store : ObjectivesStore) :
    Except Thrown (ObjectivesMutationResult × ObjectivesStore) := do
  let change ← createChange id input originator now
  if (store.get id).isSome then throw .constraint
  let inserted := { store with objectives := store.objectives.insertOrIgnore change.next }
  return (⟨change.next, stamp id originator now change.events⟩, inserted.append (stamp id originator now change.events))

def mutate (id actor : String) (now : Int) (change : Objective → Except Thrown Change) (store : ObjectivesStore) :
    Except Thrown (ObjectivesMutationResult × ObjectivesStore) := do
  match store.get id with
  | none => throw (.objectives ⟨.notFound, s!"objective {id} not found"⟩)
  | some current =>
    let change ← change current
    return (⟨change.next, stamp id actor now change.events⟩, (store.setRow change.next).append (stamp id actor now change.events))

def update (id : String) (input : UpdateObjectiveRequest) (actor : String) (now : Int) :=
  mutate id actor now (updateChange input now)

def complete (id result actor : String) (now : Int) := mutate id actor now (completeChange result now)

def cancel (id : String) (reason : Option String) (actor : String) (now : Int) := mutate id actor now (cancelChange reason now)

def reassign (id : String) (input : ReassignObjectiveRequest) (actor : String) (now : Int) :=
  mutate id actor now (reassignChange input now)

def updateWatchers (id : String) (input : UpdateWatchersRequest) (actor : String) (now : Int) :=
  mutate id actor now fun current => .ok (updateWatchersChange input now current)

def setAttachments (id : String) (attachments : List Attachment) (now : Int) :=
  mutate id "" now fun current => .ok ⟨{ current with attachments := attachments, updatedAt := now }, []⟩

end ObjectivesStore

inductive Call where
  | create (id : String) (input : CreateObjectiveRequest) (originator : String) (now : Int)
  | update (id : String) (input : UpdateObjectiveRequest) (actor : String) (now : Int)
  | complete (id result actor : String) (now : Int)
  | cancel (id : String) (reason : Option String) (actor : String) (now : Int)
  | reassign (id : String) (input : ReassignObjectiveRequest) (actor : String) (now : Int)
  | updateWatchers (id : String) (input : UpdateWatchersRequest) (actor : String) (now : Int)
  | setAttachments (id : String) (attachments : List Attachment) (now : Int)

def Call.apply : Call → ObjectivesStore → Except Thrown (ObjectivesMutationResult × ObjectivesStore)
  | .create id input originator now => ObjectivesStore.create id input originator now
  | .update id input actor now => ObjectivesStore.update id input actor now
  | .complete id result actor now => ObjectivesStore.complete id result actor now
  | .cancel id reason actor now => ObjectivesStore.cancel id reason actor now
  | .reassign id input actor now => ObjectivesStore.reassign id input actor now
  | .updateWatchers id input actor now => ObjectivesStore.updateWatchers id input actor now
  | .setAttachments id attachments now => ObjectivesStore.setAttachments id attachments now

def serve : Transcript.Machine ObjectivesStore Call (Except Thrown ObjectivesMutationResult) := fun store call =>
  match call.apply store with
  | .ok (result, store) => (store, .ok result)
  | .error thrown => (store, .error thrown)

/-! ## One objective -/

def Call.id : Call → String
  | .create id .. | .update id .. | .complete id .. | .cancel id .. | .reassign id .. | .updateWatchers id ..
  | .setAttachments id .. => id

def Call.actor : Call → String
  | .create _ _ actor _ | .update _ _ actor _ | .complete _ _ actor _ | .cancel _ _ actor _ | .reassign _ _ actor _
  | .updateWatchers _ _ actor _ => actor
  | .setAttachments .. => ""

def Call.now : Call → Int
  | .create _ _ _ now | .update _ _ _ now | .complete _ _ _ now | .cancel _ _ _ now | .reassign _ _ _ now
  | .updateWatchers _ _ _ now | .setAttachments _ _ now => now

def Call.change : Call → Option Objective → Except Thrown Change
  | .create id input originator now, row => do
    let change ← createChange id input originator now
    if row.isSome then throw .constraint
    return change
  | call, none => .error (.objectives ⟨.notFound, s!"objective {call.id} not found"⟩)
  | .update _ input _ now, some current => updateChange input now current
  | .complete _ result _ now, some current => completeChange result now current
  | .cancel _ reason _ now, some current => cancelChange reason now current
  | .reassign _ input _ now, some current => reassignChange input now current
  | .updateWatchers _ input _ now, some current => .ok (updateWatchersChange input now current)
  | .setAttachments _ attachments now, some current => .ok ⟨{ current with attachments := attachments, updatedAt := now }, []⟩

end CommandSuite.Objectives
