import CommandSuite.Core.App
import CommandSuite.Core.Objectives.Changes

/-! # The routes of objectives

`PATCH /objectives/:id`, `complete` and `cancel` read the objective, wait for the body of the request and
write after it. Other requests may be served in between. The member of a request keeps its permissions.
-/

namespace CommandSuite.Objectives

open Library

def findByName (directory : Directory) (name : String) : Option Member := (Name.parse name).bind directory.members.find

def mapObjectivesError : Thrown → Refusal
  | .objectives ⟨.notFound, message⟩ => ⟨404, message⟩
  | .objectives ⟨.terminal, message⟩ | .objectives ⟨.invalidTransition, message⟩ => ⟨409, message⟩
  | .objectives ⟨.invalidInput, message⟩ => ⟨400, message⟩
  | .constraint => ⟨500, "UNIQUE constraint failed: objectives.id"⟩

structure UpdateObjectiveBody extends UpdateObjectiveRequest where
  assignee : Option String
  note : Option String
  addWatchers : Option (List String)
  removeWatchers : Option (List String)

namespace UpdateObjectiveBody

def touchesStatus (input : UpdateObjectiveBody) : Bool := input.status.isSome || input.blockReason.isSome

def touchesWatchers (input : UpdateObjectiveBody) : Bool := input.addWatchers.isSome || input.removeWatchers.isSome

end UpdateObjectiveBody

/-- A request that waits for its body. The body has passed its schema, or it is `none`. -/
inductive Request where
  | patch (body : Option UpdateObjectiveBody)
  | complete (body : Option String)
  | cancel (body : Option (Option String))

def Request.admit (member : Member) (current : Objective) : Request → Except Refusal Unit
  | .patch _ => .ok ()
  | .complete _ =>
    if current.assignee ≠ member.name.text then .error ⟨403, "only the assignee may complete this objective"⟩
    else .ok ()
  | .cancel _ =>
    if !(current.originator = member.name.text || hasPermission member.permissions .objectivesCancel) then
      .error ⟨403, "cancel requires originator or objectives.cancel permission"⟩
    else .ok ()

/-- The gates of `PATCH`, on the objective as it was before the body came. -/
def patchGates (directory : Directory) (member : Member) (current : Objective) (input : UpdateObjectiveBody) :
    Except Refusal Unit := do
  if input.touchesStatus && current.assignee ≠ member.name.text && !hasPermission member.permissions .objectivesCancel then
    throw ⟨403, "only the assignee or a member with objectives.cancel may update status"⟩
  if input.assignee.isSome && !hasPermission member.permissions .objectivesReassign then
    throw ⟨403, "changing the assignee requires objectives.reassign"⟩
  if input.touchesWatchers && current.originator ≠ member.name.text &&
      !hasPermission member.permissions .objectivesWatch then
    throw ⟨403, "watcher changes require originator or objectives.watch"⟩
  match input.assignee.filter fun name => (findByName directory name).isNone with
  | some name => throw ⟨400, s!"unknown assignee: {name}"⟩
  | none =>
    match (input.addWatchers.getD [] ++ input.removeWatchers.getD []).find? fun name => (findByName directory name).isNone with
    | some name => throw ⟨400, s!"unknown watcher: {name}"⟩
    | none => return ()

section Patch

variable (member : Member) (id : String) (current : Objective) (input : UpdateObjectiveBody) (now : Int)

def handoverCalls : List Call :=
  (input.assignee.filter fun name => name ≠ current.assignee).toList.map fun name =>
    .reassign id ⟨name, input.note⟩ member.name.text now

def watcherCalls : List Call :=
  if input.touchesWatchers then [.updateWatchers id ⟨input.addWatchers, input.removeWatchers⟩ member.name.text now] else []

def statusCalls : List Call :=
  if input.touchesStatus then [.update id input.toUpdateObjectiveRequest member.name.text now] else []

/-- The store calls of `PATCH`, each with its own reading of the clock. -/
def patchCalls (clock : Nat → Int) : List Call :=
  handoverCalls member id current input (clock 0) ++ watcherCalls member id input (clock 1) ++
    statusCalls member id input (clock 2)

end Patch

def Request.calls (directory : Directory) (member : Member) (id : String) (current : Objective) (clock : Nat → Int) :
    Request → Except Refusal (List Call)
  | .patch none => .error ⟨400, "invalid update payload"⟩
  | .patch (some input) => do
    patchGates directory member current input
    return patchCalls member id current input clock
  | .complete none => .error ⟨400, "invalid complete payload"⟩
  | .complete (some result) => .ok [.complete id result member.name.text (clock 0)]
  | .cancel none => .error ⟨400, "invalid cancel payload"⟩
  | .cancel (some reason) => .ok [.cancel id reason member.name.text (clock 0)]

def attempt : List Call → ObjectivesStore → Except Refusal (List ObjectivesMutationResult) × ObjectivesStore
  | [], store => (.ok [], store)
  | call :: calls, store =>
    match serve store call with
    | (store, .error thrown) => (.error (mapObjectivesError thrown), store)
    | (store, .ok result) =>
      let (results, store) := attempt calls store
      (results.map (result :: ·), store)

theorem attempt_cons_ok {call : Call} {store : ObjectivesStore} {result : ObjectivesMutationResult}
    (h : (serve store call).2 = .ok result) (calls : List Call) :
    (attempt (call :: calls) store).1 = (attempt calls (serve store call).1).1.map (result :: ·) ∧
      (attempt (call :: calls) store).2 = (attempt calls (serve store call).1).2 := by
  rw [attempt]
  split
  · rename_i hServe
    rw [hServe] at h
    cases h
  · rename_i hServe
    rw [hServe] at h ⊢
    cases h
    exact ⟨rfl, rfl⟩

theorem attempt_append (first second : List Call) (store : ObjectivesStore) :
    (∃ refusal, (attempt first store).1 = .error refusal ∧
        (attempt (first ++ second) store).2 = (attempt first store).2) ∨
      ∃ results, (attempt first store).1 = .ok results ∧
        (attempt (first ++ second) store).2 = (attempt second (attempt first store).2).2 := by
  induction first generalizing store with
  | nil => exact .inr ⟨[], rfl, rfl⟩
  | cons call first ih =>
    cases hServe : (serve store call).2 with
    | error thrown =>
      have hPair : serve store call = ((serve store call).1, .error thrown) := Prod.ext rfl hServe
      refine .inl ⟨mapObjectivesError thrown, ?_, ?_⟩
      · rw [attempt, hPair]
      · rw [List.cons_append, attempt, attempt, hPair]
    | ok result =>
      obtain ⟨hFirst, hStore⟩ := attempt_cons_ok hServe first
      rw [hFirst, hStore, List.cons_append, (attempt_cons_ok hServe (first ++ second)).2]
      rcases ih (serve store call).1 with ⟨refusal, hError, hSame⟩ | ⟨results, hOk, hRest⟩
      · exact .inl ⟨refusal, by rw [hError]; rfl, hSame⟩
      · exact .inr ⟨result :: results, by rw [hOk]; rfl, hRest⟩

structure Reply where
  objective : Objective
  events : List ObjectiveEvent

def answer (current : Objective) (results : List ObjectivesMutationResult) : Reply :=
  ⟨(results.getLast?.map ObjectivesMutationResult.objective).getD current, results.flatMap ObjectivesMutationResult.events⟩

/-- What `POST /objectives` gives to the store, or why it refuses. -/
def createInput (directory : Directory) (canonicalize : Option (List Attachment) → Except Refusal (List Attachment))
    (member : Member) (body : Option CreateObjectiveRequest) : Except Refusal CreateObjectiveRequest := do
  if !hasPermission member.permissions .objectivesCreate then
    throw ⟨403, "creating objectives requires the objectives.create permission"⟩
  match body with
  | none => throw ⟨400, "invalid objective payload"⟩
  | some input =>
    if (findByName directory input.assignee).isNone then throw ⟨400, s!"unknown assignee: {input.assignee}"⟩
    match (input.watchers.getD []).find? fun name => (findByName directory name).isNone with
    | some name => throw ⟨400, s!"unknown watcher: {name}"⟩
    | none =>
      let canonical ← canonicalize input.attachments
      return if canonical.isEmpty then input else { input with attachments := some canonical }

def mirrorCalls (mirror : Option (List Attachment → Except String (List Attachment))) (id : String) (now : Int)
    (attachments : List Attachment) : Except Refusal (List Call) :=
  match mirror with
  | none => .ok []
  | some mirror =>
    if attachments.isEmpty then .ok []
    else
      match mirror attachments with
      | .ok mirrored => .ok [.setAttachments id mirrored now]
      | .error error => .error ⟨500, error⟩

/-! ## Serving requests -/

structure Pending where
  request : Request
  member : Member
  id : String
  current : Objective

structure Desk where
  store : ObjectivesStore
  pending : List Pending

def Desk.empty : Desk := ⟨.empty, []⟩

/-- What the file store answers to a creation: the attachments as they are stored, and their copies. -/
structure AttachmentFiles where
  canonicalize : Option (List Attachment) → Except Refusal (List Attachment)
  mirror : Option (List Attachment → Except String (List Attachment))

/-- `opened` runs a handler to where it waits, and `settled` goes on with it. -/
inductive Event where
  | create (directory : Directory) (files : AttachmentFiles) (member : Member) (body : Option CreateObjectiveRequest)
      (id : String) (clock : Nat → Int)
  | opened (member : Member) (id : String) (request : Request)
  | settled (index : Nat) (directory : Directory) (clock : Nat → Int)

inductive Response where
  | waiting
  | answered (reply : Except Refusal Reply)

def admitted (member : Member) (id : String) (request : Request) (store : ObjectivesStore) : Except Refusal Pending :=
  match store.get id with
  | none => .error ⟨404, s!"no such objective: {id}"⟩
  | some current => do
    request.admit member current
    return ⟨request, member, id, current⟩

def postObjective (directory : Directory) (files : AttachmentFiles) (member : Member)
    (body : Option CreateObjectiveRequest) (id : String) (clock : Nat → Int) (store : ObjectivesStore) :
    Except Refusal Reply × ObjectivesStore :=
  match createInput directory files.canonicalize member body with
  | .error refusal => (.error refusal, store)
  | .ok input =>
    match serve store (.create id input member.name.text (clock 0)) with
    | (store, .error thrown) => (.error (mapObjectivesError thrown), store)
    | (store, .ok created) =>
      match mirrorCalls files.mirror id (clock 1) created.objective.attachments with
      | .error refusal => (.error refusal, store)
      | .ok calls =>
        let (results, store) := attempt calls store
        (results.map fun results => ⟨(answer created.objective results).objective, created.events⟩, store)

def settle (pending : Pending) (directory : Directory) (clock : Nat → Int) (store : ObjectivesStore) :
    Except Refusal Reply × ObjectivesStore :=
  match pending.request.calls directory pending.member pending.id pending.current clock with
  | .error refusal => (.error refusal, store)
  | .ok calls =>
    let (results, store) := attempt calls store
    (results.map (answer pending.current), store)

def handle : Transcript.Machine Desk Event Response := fun desk event =>
  match event with
  | .create directory files member body id clock =>
    let (reply, store) := postObjective directory files member body id clock desk.store
    ({ desk with store := store }, .answered reply)
  | .opened member id request =>
    match admitted member id request desk.store with
    | .error refusal => (desk, .answered (.error refusal))
    | .ok pending => ({ desk with pending := desk.pending ++ [pending] }, .waiting)
  | .settled index directory clock =>
    match desk.pending[index]? with
    | none => (desk, .waiting)
    | some pending =>
      let (reply, store) := settle pending directory clock desk.store
      (⟨store, desk.pending.eraseIdx index⟩, .answered reply)

theorem postObjective_cases (directory : Directory) (files : AttachmentFiles) (member : Member)
    (body : Option CreateObjectiveRequest) (id : String) (clock : Nat → Int) (store : ObjectivesStore) :
    (postObjective directory files member body id clock store).2 = store ∨ ∃ input calls,
      (postObjective directory files member body id clock store).2 =
          (attempt calls (serve store (.create id input member.name.text (clock 0))).1).2 ∧
        ∀ call ∈ calls, ∃ attachments now, call = .setAttachments id attachments now := by
  unfold postObjective
  split
  · exact .inl rfl
  · rename_i input _
    refine .inr ⟨input, ?_⟩
    split
    · rename_i hServe
      exact ⟨[], by rw [hServe]; rfl, by simp⟩
    · rename_i hServe
      rw [hServe]
      split
      · exact ⟨[], rfl, by simp⟩
      · rename_i calls hMirror
        refine ⟨calls, rfl, ?_⟩
        intro call hCall
        unfold mirrorCalls at hMirror
        split at hMirror
        · cases hMirror
          cases hCall
        · split at hMirror
          · cases hMirror
            cases hCall
          · split at hMirror
            · cases hMirror
              exact ⟨_, _, List.mem_singleton.mp hCall⟩
            · cases hMirror

end CommandSuite.Objectives
