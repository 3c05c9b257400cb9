import CommandSuite.Core.Objectives.Attachments

/-! # Requests that fail

The routes of objectives over both stores. A handler makes one store call after the other, each in a transaction of
its own, and publishes the events when all of them are through.
-/

namespace CommandSuite.Objectives

open Library Fallible ObjectivesStore Files Text Transcript
open Files (FilesystemStore Filed IsSource toViewer)

namespace Routes

structure Stores where
  objectives : ObjectivesStore
  files : FilesystemStore
  filed : Filed files.db

def thrownMessage : Files.Thrown → String
  | .fs error => error.message
  | .constraint message | .blobStore message => message

abbrev Refiles : FilesystemStore → FilesystemStore → Prop := Footprint (fun _ => True) fun _ => True

section Refiles

variable {s : FilesystemStore} (acl : ObjectiveAcl) (viewer : ViewerContext) (id : ObjectiveId)

theorem keeps_mirrorAttachment (now : Int) (att : Attachment) (hFiled : Filed s.db) :
    Keeps Refiles (mirrorAttachment acl viewer id now att) s fun _ _ => True := by
  unfold mirrorAttachment
  refine keeps_valid_bind _ fun name _ => ?_
  generalize objectiveNamespacePath id.text [name] = named
  refine keeps_valid_bind _ fun dst _ => ?_
  have hCopy : Keeps Refiles (copyByBlobRef acl ⟨att.path, dst.render, some att.mimeType, some .suffix, viewer⟩ now) s
      fun _ _ => True :=
    (keeps_copyByBlobRef hFiled fun _ _ _ _ => trivial).mono (fun _ hChanges => hChanges.mono (fun _ _ => trivial) fun _ _ => trivial)
      fun _ _ _ _ => trivial
  exact hCopy.bind fun _ _ _ _ => keeps_pure trivial

theorem keeps_mirrorAttachments (clock : Nat → Int) (reading : Nat) (attachments : List Attachment) (hFiled : Filed s.db) :
    Keeps Refiles (mirrorAttachments acl viewer id clock reading attachments) s fun _ _ => True := by
  induction attachments generalizing s reading with
  | nil => exact keeps_pure trivial
  | cons att attachments ih =>
    unfold mirrorAttachments
    refine Keeps.bind (keeps_mirrorAttachment acl viewer id (clock reading) att hFiled) fun _ s' hChanges _ => ?_
    exact Keeps.bind (ih (reading + 1) (hChanges.filed hFiled)) fun _ _ _ _ => keeps_pure trivial

end Refiles

namespace Stores

def mirror (stores : Stores) (member : Member) (id : ObjectiveId) (clock : Nat → Int) (attachments : List Attachment) :
    Except Files.Thrown (List Attachment) × Stores :=
  let program := mirrorAttachments (objectiveAcl stores.objectives) (toViewer member) id clock 0 attachments
  ((run program stores.files).1, { stores with
    files := (run program stores.files).2
    filed := ((ends_iff_run program).mp (keeps_mirrorAttachments _ _ id clock 0 attachments stores.filed)).1.filed stores.filed })

def canonicalize (stores : Stores) (member : Member) (claims : Option (List Attachment)) : Except Refusal (List Attachment) :=
  canonicalizeAttachments (objectiveAcl stores.objectives) stores.files.db claims (toViewer member)

end Stores

/-- `POST /objectives`. The events in a reply are published by `queueMicrotask`, each once. -/
def post (directory : Directory) (member : Member) (body : Option CreateObjectiveRequest) (id : ObjectiveId)
    (clock fileClock : Nat → Int) (stores : Stores) : Except Refusal Reply × Stores :=
  match createInput directory (stores.canonicalize member) member body with
  | .error refusal => (.error refusal, stores)
  | .ok input =>
    match serve stores.objectives (.create id.text input member.name.text (clock 0)) with
    | (objectives, .error thrown) => (.error (mapObjectivesError thrown), { stores with objectives := objectives })
    | (objectives, .ok created) =>
      if created.objective.attachments.isEmpty then (.ok ⟨created.objective, created.events⟩, { stores with objectives := objectives })
      else
        match ({ stores with objectives := objectives } : Stores).mirror member id fileClock created.objective.attachments with
        | (.error thrown, stores) => (.error ⟨500, thrownMessage thrown⟩, stores)
        | (.ok namespacePaths, stores) =>
          match serve stores.objectives (.setAttachments id.text namespacePaths (clock 1)) with
          | (objectives, .error thrown) => (.error (mapObjectivesError thrown), { stores with objectives := objectives })
          | (objectives, .ok final) => (.ok ⟨final.objective, created.events⟩, { stores with objectives := objectives })

structure Desk where
  stores : Stores
  pending : List Pending

inductive Event where
  | create (directory : Directory) (member : Member) (body : Option CreateObjectiveRequest) (id : ObjectiveId)
      (clock fileClock : Nat → Int)
  | opened (member : Member) (id : String) (request : Request)
  | settled (index : Nat) (directory : Directory) (clock : Nat → Int)

def handle : Machine Desk Event Response := fun desk event =>
  match event with
  | .create directory member body id clock fileClock =>
    let (reply, stores) := post directory member body id clock fileClock desk.stores
    ({ desk with stores := stores }, .answered reply)
  | .opened member id request =>
    match admitted member id request desk.stores.objectives with
    | .error refusal => (desk, .answered (.error refusal))
    | .ok pending => ({ desk with pending := desk.pending ++ [pending] }, .waiting)
  | .settled index directory clock =>
    match desk.pending[index]? with
    | none => (desk, .waiting)
    | some pending =>
      let (reply, objectives) := settle pending directory clock desk.stores.objectives
      (⟨{ desk.stores with objectives := objectives }, desk.pending.eraseIdx index⟩, .answered reply)

/-! ## The objectives alone -/

def Desk.forget (desk : Desk) : Objectives.Desk := ⟨desk.stores.objectives, desk.pending⟩

def attachmentFiles (directory : Directory) (member : Member) (body : Option CreateObjectiveRequest) (id : ObjectiveId)
    (clock fileClock : Nat → Int) (stores : Stores) : AttachmentFiles where
  canonicalize := stores.canonicalize member
  mirror := some fun attachments =>
    let objectives :=
      match createInput directory (stores.canonicalize member) member body with
      | .error _ => stores.objectives
      | .ok input => (serve stores.objectives (.create id.text input member.name.text (clock 0))).1
    (({ stores with objectives := objectives } : Stores).mirror member id fileClock attachments).1.mapError thrownMessage

theorem post_objectives (directory : Directory) (member : Member) (body : Option CreateObjectiveRequest) (id : ObjectiveId)
    (clock fileClock : Nat → Int) (stores : Stores) :
    postObjective directory (attachmentFiles directory member body id clock fileClock stores) member body id.text clock stores.objectives =
      ((post directory member body id clock fileClock stores).1, (post directory member body id clock fileClock stores).2.objectives) := by
  unfold postObjective post
  rw [show (attachmentFiles directory member body id clock fileClock stores).canonicalize = stores.canonicalize member from rfl]
  cases hInput : createInput directory (stores.canonicalize member) member body with
  | error refusal => rfl
  | ok input =>
    dsimp only
    rcases hServe : serve stores.objectives (.create id.text input member.name.text (clock 0)) with ⟨objectives, thrown | created⟩
    · rfl
    · have hMirror : (attachmentFiles directory member body id clock fileClock stores).mirror = some fun attachments =>
          (({ stores with objectives := objectives } : Stores).mirror member id fileClock attachments).1.mapError thrownMessage := by
        rw [attachmentFiles, hInput]
        dsimp only
        rw [hServe]
      dsimp only
      rw [hMirror, mirrorCalls]
      by_cases hNone : created.objective.attachments.isEmpty = true
      · rw [if_pos hNone, if_pos hNone]
        rfl
      · rw [if_neg hNone, if_neg hNone]
        have hSame : (({ stores with objectives := objectives } : Stores).mirror member id fileClock created.objective.attachments).2.objectives =
            objectives := rfl
        generalize ({ stores with objectives := objectives } : Stores).mirror member id fileClock created.objective.attachments = mirrored
          at hSame
        obtain ⟨thrown | namespacePaths, copied⟩ := mirrored
        · exact Prod.ext rfl hSame.symm
        · dsimp only [Except.mapError] at hSame ⊢
          rw [hSame, attempt]
          rcases serve objectives (.setAttachments id.text namespacePaths (clock 1)) with ⟨last, thrown | final⟩
          · rfl
          · rfl

theorem handle_objectives (desk : Desk) (event : Event) :
    ∃ served, Objectives.handle desk.forget served = ((handle desk event).1.forget, (handle desk event).2) := by
  cases event with
  | create directory member body id clock fileClock =>
    refine ⟨.create directory (attachmentFiles directory member body id clock fileClock desk.stores) member body id.text clock, ?_⟩
    have hPost := post_objectives directory member body id clock fileClock desk.stores
    unfold Objectives.handle handle Desk.forget
    dsimp only
    rw [hPost]
  | opened member id request =>
    refine ⟨.opened member id request, ?_⟩
    unfold Objectives.handle handle Desk.forget
    dsimp only
    cases admitted member id request desk.stores.objectives <;> rfl
  | settled index directory clock =>
    refine ⟨.settled index directory clock, ?_⟩
    unfold Objectives.handle handle Desk.forget
    dsimp only
    cases desk.pending[index]? <;> rfl

/-- What requests make of the objectives, and answer, they do without the files. -/
theorem served_without_files (desk : Desk) (events : List Event) :
    ∃ served, final Objectives.handle desk.forget served = (final handle desk events).forget ∧
      (run Objectives.handle desk.forget served).map Step.output = (run handle desk events).map Step.output := by
  simp only [List.map_eq_flatMap]
  refine simulated Desk.forget ([·]) ([·]) (fun desk event => ?_) desk events
  obtain ⟨request, hRequest⟩ := handle_objectives desk event
  refine ⟨[request], congrArg Prod.fst hRequest, ?_⟩
  exact congrArg (fun done : _ × Response => [done.2]) hRequest

/-! ## What a request may leave -/

structure Kept (before after : ObjectivesStore) : Prop where
  rows : ∀ id, after.get id = before.get id
  events : after.objectiveEvents = before.objectiveEvents

theorem Kept.refl (store : ObjectivesStore) : Kept store store := ⟨fun _ => rfl, rfl⟩

structure Untouched (before after : Stores) : Prop where
  objectives : Kept before.objectives after.objectives
  files : after.files = before.files

/-- A request that is refused leaves nothing, and one that succeeds publishes what it has appended. -/
structure AllOrNothing (before : Stores) (reply : Except Refusal Reply) (after : Stores) : Prop where
  refused : ∀ refusal, reply = .error refusal → Untouched before after
  published : ∀ answer, reply = .ok answer → after.objectives.objectiveEvents = before.objectives.objectiveEvents ++ answer.events

/-- A name of the request is new to the row, or one of its watchers leaves. -/
def ChangesWatchers (row : Objective) (input : UpdateWatchersRequest) : Prop :=
  (∃ name ∈ input.add.getD [], name ≠ "" ∧ name ≠ row.assignee ∧ name ≠ row.originator ∧ name ∉ row.watchers) ∨
    ∃ name ∈ input.remove.getD [], name ≠ "" ∧ name ∈ row.watchers

/-- A `PATCH` that keeps the assignee, changes the watchers of a finished objective and then cannot change its status. -/
def TearsPatch (directory : Directory) (pending : Pending) (input : UpdateObjectiveBody) (store : ObjectivesStore) : Prop :=
  patchGates directory pending.member pending.current input = .ok () ∧
    (∀ name, input.assignee = some name → name = pending.current.assignee) ∧ input.touchesStatus = true ∧
    ∃ row, store.get pending.id = some row ∧ row.status.isTerminal = true ∧
      ChangesWatchers row ⟨input.addWatchers, input.removeWatchers⟩

/-- A `POST` whose objective is created and whose attachments cannot all be copied. -/
def TearsPost (directory : Directory) (member : Member) (body : Option CreateObjectiveRequest) (id : ObjectiveId) (stores : Stores) :
    Prop :=
  ∃ input, createInput directory (stores.canonicalize member) member body = .ok input ∧ trim input.title ≠ "" ∧
    trim input.outcome ≠ "" ∧ stores.objectives.get id.text = none ∧ ¬Mirrorable id stores.files.db (input.attachments.getD [])

def Tears (desk : Desk) : Event → Prop
  | .create directory member body id _ _ => TearsPost directory member body id desk.stores
  | .opened .. => False
  | .settled index directory _ => ∃ pending input, desk.pending[index]? = some pending ∧
      pending.request = .patch (some input) ∧ TearsPatch directory pending input desk.stores.objectives

/-! ## Store calls -/

section Calls

variable {store : ObjectivesStore}

theorem serve_appends {call : Call} {result : ObjectivesMutationResult} (h : (serve store call).2 = .ok result) :
    (serve store call).1.objectiveEvents = store.objectiveEvents ++ result.events := by
  have hMutate : ∀ {id actor : String} {now : Int} {change : Objective → Except Thrown Change} {after : ObjectivesStore},
      mutate id actor now change store = .ok (result, after) →
      after.objectiveEvents = store.objectiveEvents ++ result.events := by
    intro id actor now change after hOk
    unfold mutate at hOk
    split at hOk
    · cases hOk
    · obtain ⟨made, _, hMade⟩ := bind_eq_ok.mp hOk
      cases hMade
      rfl
  have hApply : ∀ after, call.apply store = .ok (result, after) → after.objectiveEvents = store.objectiveEvents ++ result.events := by
    intro after hOk
    cases call with
    | create id input originator now =>
      obtain ⟨made, _, hMade⟩ := bind_eq_ok.mp hOk
      split at hMade
      · cases hMade
      · cases hMade
        rfl
    | update | complete | cancel | reassign | updateWatchers | setAttachments => exact hMutate hOk
  unfold serve at h ⊢
  cases hCall : call.apply store with
  | error thrown =>
    rw [hCall] at h
    cases h
  | ok pair =>
    obtain ⟨served, after⟩ := pair
    rw [hCall] at h
    cases h
    exact hApply after hCall

theorem attempt_appends {calls : List Call} {results : List ObjectivesMutationResult} (h : (attempt calls store).1 = .ok results) :
    (attempt calls store).2.objectiveEvents = store.objectiveEvents ++ results.flatMap ObjectivesMutationResult.events := by
  induction calls generalizing store results with
  | nil =>
    cases h
    simp [attempt]
  | cons call calls ih =>
    cases hServe : (serve store call).2 with
    | error thrown =>
      have hPair : serve store call = ((serve store call).1, .error thrown) := Prod.ext rfl hServe
      rw [attempt, hPair] at h
      cases h
    | ok result =>
      obtain ⟨hResults, hStore⟩ := attempt_cons_ok hServe calls
      rw [hResults] at h
      obtain ⟨others, hOthers, rfl⟩ : ∃ others, (attempt calls (serve store call).1).1 = .ok others ∧ result :: others = results := by
        cases hRest : (attempt calls (serve store call).1).1 with
        | error refusal =>
          rw [hRest] at h
          cases h
        | ok others =>
          rw [hRest] at h
          exact ⟨others, rfl, Except.ok.inj h⟩
      rw [hStore, ih hOthers, serve_appends hServe, List.append_assoc]
      rfl

theorem attempt_cons_error {call : Call} {thrown : Thrown} (h : serve store call = (store, .error thrown)) (calls : List Call) :
    attempt (call :: calls) store = (.error (mapObjectivesError thrown), store) := by
  rw [attempt, h]

theorem updateChange_terminal {input : UpdateObjectiveRequest} {now : Int} {row : Objective} {change : Change}
    (h : updateChange input now row = .ok change) : row.status.isTerminal = false := by
  simp only [updateChange, bind, Except.bind, throw, throwThe, MonadExceptOf.throw] at h
  split at h
  · cases h
  · rename_i hOpen
    simpa using hOpen

theorem collect_eq_nil_iff {admits : String → Bool} {names : List String} :
    collect admits [] names = [] ↔ ∀ name ∈ names, name = "" ∨ admits name = false := by
  have hGrows : ∀ (names taken : List String), taken <+: collect admits taken names := by
    intro names
    induction names with
    | nil => exact fun taken => List.prefix_refl taken
    | cons name names ih =>
      intro taken
      unfold collect
      split
      · exact ih taken
      · exact (List.prefix_append taken [name]).trans (ih _)
  induction names with
  | nil => simp [collect]
  | cons name names ih =>
    unfold collect
    split
    · rename_i hSkipped
      have hHead : name = "" ∨ admits name = false := by simpa using hSkipped
      rw [List.forall_mem_cons, and_iff_right hHead]
      exact ih
    · rename_i hTaken
      have hHead : ¬(name = "" ∨ admits name = false) := by simpa using hTaken
      refine iff_of_false (fun hNil => ?_) fun hAll => hHead (hAll name List.mem_cons_self)
      have hPrefix := hGrows names ([] ++ [name])
      rw [hNil] at hPrefix
      cases List.prefix_nil.mp hPrefix

theorem updateWatchersChange_kept_iff {row : Objective} {input : UpdateWatchersRequest} {now : Int} :
    ((updateWatchersChange input now row).events = [] ↔ ¬ChangesWatchers row input) ∧
      ((updateWatchersChange input now row).events = [] → (updateWatchersChange input now row).next = row) := by
  unfold updateWatchersChange
  dsimp only
  split
  · rename_i hNothing
    simp only [Bool.and_eq_true, List.isEmpty_iff, collect_eq_nil_iff] at hNothing
    refine ⟨iff_of_true rfl ?_, fun _ => rfl⟩
    rintro (⟨name, hName, hSome, hAssignee, hOriginator, hNew⟩ | ⟨name, hName, hSome, hWatches⟩)
    · rcases hNothing.1 name hName with hEmpty | hSkipped
      · exact hSome hEmpty
      · simp [hAssignee, hOriginator, hNew] at hSkipped
    · rcases hNothing.2 name hName with hEmpty | hSkipped
      · exact hSome hEmpty
      · simp [hWatches] at hSkipped
  · rename_i hSomething
    simp only [Bool.and_eq_true, List.isEmpty_iff] at hSomething
    have hEvents : ∀ toAdd toRemove : List String, ¬(toAdd = [] ∧ toRemove = []) →
        (toAdd.map fun name => ObjectiveEventPayload.watcherAdded name none) ++ toRemove.map .watcherRemoved ≠ [] := by
      intro toAdd toRemove hSome hNil
      rw [List.append_eq_nil_iff, List.map_eq_nil_iff, List.map_eq_nil_iff] at hNil
      exact hSome hNil
    refine ⟨iff_of_false (hEvents _ _ hSomething) ?_, fun hNil => absurd hNil (hEvents _ _ hSomething)⟩
    rw [not_not]
    simp only [collect_eq_nil_iff, not_and_or, not_forall, not_or] at hSomething
    rcases hSomething with ⟨name, hName, hSome, hAdmits⟩ | ⟨name, hName, hSome, hAdmits⟩
    · simp only [Bool.not_eq_false, Bool.and_eq_true, decide_eq_true_eq] at hAdmits
      exact .inl ⟨name, hName, hSome, hAdmits.1.1, hAdmits.1.2, hAdmits.2⟩
    · exact .inr ⟨name, hName, hSome, by simpa using hAdmits⟩

end Calls

/-! ## Changes -/

section Patch

variable {store : ObjectivesStore} {row : Objective} (member : Member) {id : String} (input : UpdateObjectiveBody)

theorem attempt_statusCalls_ok (now : Int) (hRow : store.get id = some row) (hOpen : row.status.isTerminal = false) :
    ∃ results, (attempt (statusCalls member id input now) store).1 = .ok results := by
  unfold statusCalls
  split
  · obtain ⟨change, hChange⟩ := updateChange_open row input.toUpdateObjectiveRequest now hOpen
    cases serves store (.update id input.toUpdateObjectiveRequest member.name.text now) with
    | threw thrown hThrown _ =>
      rw [Call.id, hRow] at hThrown
      cases hThrown.symm.trans hChange
    | wrote _ _ _ hResult => exact ⟨_, (attempt_cons_ok hResult []).1⟩
  · exact ⟨[], rfl⟩

theorem attempt_open (first second : Int) (hRow : store.get id = some row) (hOpen : row.status.isTerminal = false) :
    ∃ results, (attempt (watcherCalls member id input first ++ statusCalls member id input second) store).1 = .ok results := by
  unfold watcherCalls
  split
  · cases serves store (.updateWatchers id ⟨input.addWatchers, input.removeWatchers⟩ member.name.text first) with
    | threw thrown hChange _ =>
      rw [Call.id, hRow] at hChange
      cases hChange
    | wrote change hChange hAfter hResult =>
      rw [Call.id, hRow] at hChange
      obtain rfl := Except.ok.inj hChange
      obtain ⟨watchers, updatedAt, hNext⟩ := updateWatchersChange_next ⟨input.addWatchers, input.removeWatchers⟩ first row
      have hGet : (serve store (.updateWatchers id ⟨input.addWatchers, input.removeWatchers⟩ member.name.text first)).1.get id =
          some { row with watchers := watchers, updatedAt := updatedAt } := by
        rw [hAfter.get, Call.id, if_pos rfl, hNext]
      obtain ⟨results, hRest⟩ := attempt_statusCalls_ok member input second hGet hOpen
      rw [List.singleton_append, (attempt_cons_ok hResult _).1, hRest]
      exact ⟨_, rfl⟩
  · exact attempt_statusCalls_ok member input second hRow hOpen

def FailsClean (calls : List Call) (store : ObjectivesStore) : Prop :=
  ∀ refusal, (attempt calls store).1 = .error refusal → Kept store (attempt calls store).2

theorem failsClean_of_ok {calls : List Call} (h : ∃ results, (attempt calls store).1 = .ok results) : FailsClean calls store := by
  intro refusal hError
  obtain ⟨results, hOk⟩ := h
  cases hError.symm.trans hOk

variable {thrown : Thrown}

theorem failsClean_of_first {call : Call} (h : serve store call = (store, .error thrown)) (calls : List Call) :
    FailsClean (call :: calls) store := by
  intro refusal _
  rw [attempt_cons_error h]
  exact Kept.refl store

theorem failsClean_single (call : Call) : FailsClean [call] store := by
  cases serves store call with
  | threw thrown _ hServe => exact failsClean_of_first hServe []
  | wrote change _ _ hResult => exact failsClean_of_ok ⟨_, (attempt_cons_ok hResult []).1⟩

theorem failsClean_pair_iff {first second : Call} {result : ObjectivesMutationResult}
    (hFirst : (serve store first).2 = .ok result)
    (hSecond : serve (serve store first).1 second = ((serve store first).1, .error thrown)) :
    FailsClean [first, second] store ↔ Kept store (serve store first).1 := by
  obtain ⟨hReply, hStore⟩ := attempt_cons_ok hFirst [second]
  rw [attempt_cons_error hSecond] at hReply hStore
  unfold FailsClean
  rw [hStore]
  exact ⟨fun h => h _ hReply, fun h _ _ => h⟩

variable {actor : String}

theorem kept_updateWatchers_iff {input : UpdateWatchersRequest} {now : Int} (hRow : store.get id = some row) :
    Kept store (serve store (.updateWatchers id input actor now)).1 ↔ ¬ChangesWatchers row input := by
  rw [← (@updateWatchersChange_kept_iff row input now).1]
  cases serves store (.updateWatchers id input actor now) with
  | threw thrown hChange _ =>
    rw [Call.id, hRow] at hChange
    cases hChange
  | wrote change hChange hAfter hResult =>
    rw [Call.id, hRow] at hChange
    obtain rfl := Except.ok.inj hChange
    have hAppended := serve_appends hResult
    constructor
    · intro hKept
      rw [hKept.events, List.self_eq_append_right] at hAppended
      exact List.map_eq_nil_iff.mp hAppended
    · intro hNil
      refine ⟨fun other => ?_, by rw [hAppended, hNil]; exact List.append_nil _⟩
      rw [hAfter.get, Call.id]
      split
      · rename_i hSame
        rw [hSame, hRow, updateWatchersChange_kept_iff.2 hNil]
      · rfl

theorem update_terminal {input : UpdateObjectiveRequest} {now : Int} (hRow : store.get id = some row)
    (hTerminal : row.status.isTerminal = true) : ∃ thrown, serve store (.update id input actor now) = (store, .error thrown) := by
  cases serves store (.update id input actor now) with
  | threw thrown _ hServe => exact ⟨thrown, hServe⟩
  | wrote change hChange _ _ =>
    rw [Call.id, hRow] at hChange
    have hOpen := updateChange_terminal hChange
    rw [hTerminal] at hOpen
    cases hOpen

theorem failsClean_watchers_status_iff (first second : Int) :
    FailsClean (watcherCalls member id input first ++ statusCalls member id input second) store ↔
      ¬(input.touchesStatus = true ∧ ∃ row, store.get id = some row ∧ row.status.isTerminal = true ∧
        ChangesWatchers row ⟨input.addWatchers, input.removeWatchers⟩) := by
  by_cases hWatchers : input.touchesWatchers = true
  · rw [watcherCalls, if_pos hWatchers, List.singleton_append]
    cases serves store (.updateWatchers id ⟨input.addWatchers, input.removeWatchers⟩ member.name.text first) with
    | threw thrown hChange hServe =>
      refine iff_of_true (failsClean_of_first hServe _) ?_
      rintro ⟨_, row, hRow, _⟩
      rw [Call.id, hRow] at hChange
      cases hChange
    | wrote change hChange hAfter hResult =>
      cases hRow : store.get id with
      | none =>
        rw [Call.id, hRow] at hChange
        cases hChange
      | some row =>
        rw [Call.id, hRow] at hChange
        obtain rfl := Except.ok.inj hChange
        cases hOpen : row.status.isTerminal with
        | false =>
          obtain ⟨results, hOk⟩ := attempt_open member input first second hRow hOpen
          rw [watcherCalls, if_pos hWatchers, List.singleton_append] at hOk
          refine iff_of_true (failsClean_of_ok ⟨results, hOk⟩) ?_
          rintro ⟨_, row', hRow', hTerminal, _⟩
          cases hRow'
          rw [hOpen] at hTerminal
          cases hTerminal
        | true =>
          have hOnly : (∃ row', some row = some row' ∧ row'.status.isTerminal = true ∧
              ChangesWatchers row' ⟨input.addWatchers, input.removeWatchers⟩) ↔
                ChangesWatchers row ⟨input.addWatchers, input.removeWatchers⟩ := by
            simp [hOpen]
          rw [hOnly]
          by_cases hStatus : input.touchesStatus = true
          · obtain ⟨watchers, updatedAt, hNext⟩ := updateWatchersChange_next ⟨input.addWatchers, input.removeWatchers⟩ first row
            have hGet := hAfter.get id
            rw [Call.id, if_pos rfl, hNext] at hGet
            obtain ⟨thrown, hThrown⟩ := update_terminal hGet hOpen
            rw [statusCalls, if_pos hStatus, failsClean_pair_iff hResult hThrown, kept_updateWatchers_iff hRow, and_iff_right hStatus]
          · rw [statusCalls, if_neg hStatus]
            exact iff_of_true (failsClean_single _) fun h => hStatus h.1
  · have hNone : input.addWatchers = none ∧ input.removeWatchers = none := by
      simpa [UpdateObjectiveBody.touchesWatchers] using hWatchers
    rw [watcherCalls, if_neg hWatchers, List.nil_append]
    refine iff_of_true ?_ ?_
    · unfold statusCalls
      split
      · exact failsClean_single _
      · exact failsClean_of_ok ⟨[], rfl⟩
    · rintro ⟨_, row, _, _, hChanges⟩
      simp [ChangesWatchers, hNone] at hChanges

theorem failsClean_patchCalls_iff (current : Objective) (clock : Nat → Int) :
    FailsClean (patchCalls member id current input clock) store ↔
      ¬((∀ name, input.assignee = some name → name = current.assignee) ∧ input.touchesStatus = true ∧
        ∃ row, store.get id = some row ∧ row.status.isTerminal = true ∧
          ChangesWatchers row ⟨input.addWatchers, input.removeWatchers⟩) := by
  unfold patchCalls handoverCalls
  cases hTo : input.assignee.filter fun name => name ≠ current.assignee with
  | none =>
    have hSame : ∀ name, input.assignee = some name → name = current.assignee := by
      intro name hName
      rw [hName] at hTo
      by_contra hOther
      simp [hOther] at hTo
    rw [and_iff_right hSame]
    exact failsClean_watchers_status_iff member input (clock 1) (clock 2)
  | some name =>
    obtain ⟨hName, hOther⟩ := Option.filter_eq_some_iff.mp hTo
    refine iff_of_true ?_ fun h => of_decide_eq_true hOther (h.1 name hName)
    rw [Option.toList_some, List.map_singleton, List.append_assoc, List.singleton_append]
    cases serves store (.reassign id ⟨name, input.note⟩ member.name.text (clock 0)) with
    | threw thrown _ hServe => exact failsClean_of_first hServe _
    | wrote change hChange hAfter hResult =>
      have hGet := hAfter.get id
      rw [Call.id, if_pos rfl] at hGet
      cases hRow : store.get id with
      | none =>
        rw [Call.id, hRow] at hChange
        cases hChange
      | some row =>
        rw [Call.id, hRow] at hChange
        obtain ⟨hOpen, _, promoted, _, hNext⟩ := reassignChange_eq_ok hChange
        rw [hNext] at hGet
        obtain ⟨results, hRest⟩ := attempt_open member input (clock 1) (clock 2) hGet hOpen
        refine failsClean_of_ok ?_
        rw [(attempt_cons_ok hResult _).1, hRest]
        exact ⟨_, rfl⟩

end Patch

variable {directory : Directory} {clock : Nat → Int}

theorem calls_patch_eq_ok {member : Member} {id : String} {current : Objective}
    {input : UpdateObjectiveBody} {calls : List Call}
    (h : (Request.patch (some input)).calls directory member id current clock = .ok calls) :
    patchGates directory member current input = .ok () ∧ calls = patchCalls member id current input clock := by
  obtain ⟨⟨⟩, hGates, hCalls⟩ := bind_eq_ok.mp h
  exact ⟨hGates, (Except.ok.inj hCalls).symm⟩

/-- A request that waited is torn only where it is a `PATCH` of a finished objective. -/
theorem settle_kept_iff (pending : Pending) (directory : Directory) (clock : Nat → Int) (store : ObjectivesStore) :
    (∀ refusal, (settle pending directory clock store).1 = .error refusal → Kept store (settle pending directory clock store).2) ↔
      ¬∃ input, pending.request = .patch (some input) ∧ TearsPatch directory pending input store := by
  unfold settle
  cases hCalls : pending.request.calls directory pending.member pending.id pending.current clock with
  | error refusal =>
    refine iff_of_true (fun _ _ => Kept.refl store) ?_
    rintro ⟨input, hPatch, hGates, _⟩
    rw [hPatch, Request.calls, hGates] at hCalls
    cases hCalls
  | ok calls =>
    have hReply : (∀ refusal, (attempt calls store).1.map (answer pending.current) = .error refusal → Kept store (attempt calls store).2) ↔
        FailsClean calls store := by
      refine forall_congr' fun refusal => ?_
      cases (attempt calls store).1 with
      | error thrown => exact imp_congr_left ⟨by rintro ⟨⟩; rfl, by rintro ⟨⟩; rfl⟩
      | ok results => exact ⟨fun _ hError => (nomatch hError), fun _ hError => (nomatch hError)⟩
    refine hReply.trans ?_
    cases hRequest : pending.request with
    | patch body =>
      cases body with
      | none =>
        rw [hRequest] at hCalls
        cases hCalls
      | some input =>
        rw [hRequest] at hCalls
        obtain ⟨hGates, rfl⟩ := calls_patch_eq_ok hCalls
        rw [failsClean_patchCalls_iff]
        refine not_congr ⟨fun h => ⟨input, rfl, hGates, h⟩, ?_⟩
        rintro ⟨other, hSame, _, h⟩
        cases hSame
        exact h
    | complete body | cancel body =>
      rw [hRequest] at hCalls
      refine iff_of_true ?_ fun ⟨_, hPatch, _⟩ => (nomatch hPatch)
      cases body with
      | none => cases hCalls
      | some _ =>
        cases hCalls
        exact failsClean_single _

theorem settle_appends {pending : Pending} {store : ObjectivesStore} {reply : Reply}
    (h : (settle pending directory clock store).1 = .ok reply) :
    (settle pending directory clock store).2.objectiveEvents = store.objectiveEvents ++ reply.events := by
  unfold settle at h ⊢
  cases hCalls : pending.request.calls directory pending.member pending.id pending.current clock with
  | error refusal =>
    rw [hCalls] at h
    cases h
  | ok calls =>
    rw [hCalls] at h
    dsimp only at h ⊢
    cases hResults : (attempt calls store).1 with
    | error refusal =>
      rw [hResults] at h
      cases h
    | ok results =>
      rw [hResults] at h
      cases h
      exact attempt_appends hResults

/-! ## Creations -/

section Post

variable {db : Database} {viewer : ViewerContext}

theorem source_of_canonicalize {acl : ObjectiveAcl} {claim att : Attachment}
    (h : canonicalizeAttachment acl db viewer claim = .ok att) : IsSource acl viewer db att.path := by
  unfold canonicalizeAttachment at h
  split at h
  · cases h
  · cases h
  · cases h
  · rename_i entry hStat
    obtain ⟨hRead, row, hRow, rfl⟩ := readable_of_stat hStat rfl
    split at h
    · cases h
    · rename_i hKind
      split at h
      · rename_i size mimeType hSize _
        cases h
        exact ⟨_, row, size, normalizePath_render _, hRead, hRow, by simpa [withCapability, rowToEntry] using hKind, hSize⟩
      · cases h

variable {directory : Directory} {body : Option CreateObjectiveRequest} {input : CreateObjectiveRequest} {member : Member}

theorem createInput_eq_ok {canonicalize : Option (List Attachment) → Except Refusal (List Attachment)}
        (h : createInput directory canonicalize member body = .ok input) : ∃ request canonical, body = some request ∧
      canonicalize request.attachments = .ok canonical ∧
        input = if canonical.isEmpty then request else { request with attachments := some canonical } := by
  simp only [createInput, bind, Except.bind, pure, Except.pure, throw, throwThe, MonadExceptOf.throw] at h
  split at h
  · cases h
  · cases body with
    | none => cases h
    | some request =>
      dsimp only at h
      split at h
      · cases h
      · split at h
        · cases h
        · cases hCanonical : canonicalize request.attachments with
          | error refusal =>
            rw [hCanonical] at h
            cases h
          | ok canonical =>
            rw [hCanonical] at h
            exact ⟨request, canonical, rfl, hCanonical, (Except.ok.inj h).symm⟩

theorem sources_of_createInput {stores : Stores}
    (h : createInput directory (stores.canonicalize member) member body = .ok input) :
    ∀ att ∈ input.attachments.getD [], IsSource (objectiveAcl stores.objectives) (toViewer member) stores.files.db att.path := by
  obtain ⟨request, canonical, _, hCanonical, rfl⟩ := createInput_eq_ok h
  have hSources : ∀ att ∈ canonical, IsSource (objectiveAcl stores.objectives) (toViewer member) stores.files.db att.path := by
    intro att hAtt
    obtain ⟨claim, _, hClaim⟩ := exists_mem_of_mapM_eq_ok hCanonical att hAtt
    exact source_of_canonicalize hClaim
  split
  · rename_i hNone
    have hLength := (mapM_eq_ok.mp hCanonical).length_eq
    rw [List.isEmpty_iff.mp hNone, List.length_nil, List.length_eq_zero_iff] at hLength
    rw [hLength]
    simp
  · exact hSources

theorem createChange_eq_ok_iff {id originator : String} {input : CreateObjectiveRequest} {now : Int} :
    (∃ change, createChange id input originator now = .ok change) ↔ trim input.title ≠ "" ∧ trim input.outcome ≠ "" := by
  simp only [createChange, bind, Except.bind, pure, Except.pure, throw, throwThe, MonadExceptOf.throw]
  by_cases hTitle : trim input.title = ""
  · simp [hTitle]
  · by_cases hOutcome : trim input.outcome = ""
    · simp [hTitle, hOutcome]
    · simp [hTitle, hOutcome]

variable {change : Change}

theorem attachments_of_createChange {id originator : String} {now : Int}
    (h : createChange id input originator now = .ok change) : change.next.attachments = input.attachments.getD [] := by
  simp only [createChange, bind, Except.bind, pure, Except.pure, throw, throwThe, MonadExceptOf.throw] at h
  split at h
  · cases h
  · split at h
    · cases h
    · cases h
      rfl

theorem isMember_mono {before after : ObjectivesStore} (hRows : ∀ id row, before.get id = some row → after.get id = some row)
    {id name : String} (h : isMember before id name = true) : isMember after id name = true := by
  unfold isMember at h ⊢
  cases hRow : before.get id with
  | none =>
    rw [hRow] at h
    cases h
  | some row =>
    rw [hRow] at h
    rw [hRows id row hRow]
    exact h

theorem source_mono {member member' : String → String → Bool} {raw : String}
    (hMembers : ∀ id name, member id name = true → member' id name = true) (h : IsSource (some member) viewer db raw) :
    IsSource (some member') viewer db raw := by
  obtain ⟨src, row, size, hSrc, hRead, hRow⟩ := h
  refine ⟨src, row, size, hSrc, ?_, hRow⟩
  simp only [canRead, Bool.or_eq_true] at hRead ⊢
  refine hRead.imp_left (Or.imp_right fun hMember => ?_)
  unfold isObjectiveMember at hMember ⊢
  cases hParsed : parseObjectiveNamespacePath src with
  | none =>
    rw [hParsed] at hMember
    cases hMember
  | some parsed =>
    rw [hParsed] at hMember
    exact hMembers parsed.id viewer.name.text hMember

variable {stores : Stores} {member : Member} {id : ObjectiveId}

theorem mirror_ok_iff (clock : Nat → Int) {objectives : ObjectivesStore} {created : Objective} {attachments : List Attachment}
    (hRows : ∀ id row, stores.objectives.get id = some row → objectives.get id = some row)
    (hCreated : objectives.get id.text = some created) (hOriginator : created.originator = member.name.text)
    (hSources : ∀ att ∈ attachments, IsSource (objectiveAcl stores.objectives) (toViewer member) stores.files.db att.path) :
    (∃ mirrored, (({ stores with objectives := objectives } : Stores).mirror member id clock attachments).1 = .ok mirrored) ↔
      Mirrorable id stores.files.db attachments := by
  have hMember : isMember objectives id.text (toViewer member).name.text = true := by
    simp [isMember, hCreated, hOriginator, toViewer]
  have hEnds : Ends (mirrorAttachments (objectiveAcl objectives) (toViewer member) id clock 0 attachments) stores.files _ :=
    mirrorAttachments_mirrorable stores.filed (fun att hAtt => source_mono (fun _ _ => isMember_mono hRows) (hSources att hAtt)) hMember
  rw [ends_iff_run] at hEnds
  exact hEnds

theorem post_created {clock fileClock : Nat → Int}
    (hInput : createInput directory (stores.canonicalize member) member body = .ok input)
    (hMade : createChange id.text input member.name.text (clock 0) = .ok change)
    (hFresh : stores.objectives.get id.text = none) :
    AllOrNothing stores (post directory member body id clock fileClock stores).1 (post directory member body id clock fileClock stores).2 ↔
      Mirrorable id stores.files.db (input.attachments.getD []) := by
  obtain ⟨_, _, _, hOriginator, _, _, _, hPayloads⟩ := createChange_eq_ok hMade
  have hAttachments := attachments_of_createChange hMade
  obtain ⟨objectives, hServe, hGet⟩ : ∃ objectives, serve stores.objectives (.create id.text input member.name.text (clock 0)) =
      (objectives, .ok ⟨change.next, stamp id.text member.name.text (clock 0) change.events⟩) ∧
      ∀ other, objectives.get other = if other = id.text then some change.next else stores.objectives.get other := by
    cases serves stores.objectives (.create id.text input member.name.text (clock 0)) with
    | threw thrown hChange _ =>
      rw [Call.id, hFresh, Call.change, hMade] at hChange
      cases hChange
    | wrote made hChange hAfter hResult =>
      rw [Call.id, hFresh, Call.change, hMade] at hChange
      obtain rfl : change = made := Except.ok.inj hChange
      exact ⟨_, Prod.ext rfl hResult, hAfter.get⟩
  generalize hCreated : stamp id.text member.name.text (clock 0) change.events = events at hServe
  have hSome : events ≠ [] := by
    rw [← hCreated, hPayloads]
    exact List.cons_ne_nil _ _
  have hAppended : objectives.objectiveEvents = stores.objectives.objectiveEvents ++ events := by
    have h := serve_appends (congrArg Prod.snd hServe)
    rwa [hServe] at h
  have hRows : ∀ other row, stores.objectives.get other = some row → objectives.get other = some row := by
    intro other row hRow
    rw [hGet, if_neg, hRow]
    rintro rfl
    cases hFresh.symm.trans hRow
  have hMirror := mirror_ok_iff fileClock hRows ((hGet id.text).trans (if_pos rfl)) hOriginator (sources_of_createInput hInput)
  unfold post
  rw [hInput]
  dsimp only
  rw [hServe]
  dsimp only
  rw [hAttachments]
  by_cases hNone : (input.attachments.getD []).isEmpty = true
  · rw [if_pos hNone]
    refine iff_of_true ⟨by rintro _ ⟨⟩, ?_⟩ ?_
    · rintro _ ⟨⟩
      exact hAppended
    · rw [List.isEmpty_iff.mp hNone]
      exact ⟨by simp, fun h => absurd rfl h, .nil⟩
  · rw [if_neg hNone, ← hMirror]
    have hSame : (({ stores with objectives := objectives } : Stores).mirror member id fileClock (input.attachments.getD [])).2.objectives =
        objectives := rfl
    generalize ({ stores with objectives := objectives } : Stores).mirror member id fileClock (input.attachments.getD []) = mirrored
      at hSame
    obtain ⟨thrown | namespacePaths, copied⟩ := mirrored
    · refine iff_of_false (fun h => ?_) (by rintro ⟨_, ⟨⟩⟩)
      have hEvents := (h.refused _ rfl).objectives.events
      rw [show copied.objectives = objectives from hSame, hAppended, List.append_right_eq_self] at hEvents
      exact hSome hEvents
    · refine iff_of_true ?_ ⟨_, rfl⟩
      dsimp only
      rw [show copied.objectives = objectives from hSame]
      cases serves objectives (.setAttachments id.text namespacePaths (clock 1)) with
      | threw thrown hChange _ =>
        rw [Call.id, hGet, if_pos rfl] at hChange
        cases hChange
      | wrote final hChange hAfter hResult =>
        rw [Call.id, hGet, if_pos rfl] at hChange
        obtain rfl := Except.ok.inj hChange
        have hFinal := serve_appends hResult
        generalize serve objectives (.setAttachments id.text namespacePaths (clock 1)) = served at hFinal hResult
        obtain ⟨last, outcome⟩ := served
        obtain rfl : outcome = _ := hResult
        refine ⟨by rintro _ ⟨⟩, ?_⟩
        rintro _ ⟨⟩
        rw [hFinal, hAppended]
        exact List.append_nil _

theorem post_iff (directory : Directory) (body : Option CreateObjectiveRequest) (clock fileClock : Nat → Int) :
    AllOrNothing stores (post directory member body id clock fileClock stores).1 (post directory member body id clock fileClock stores).2 ↔
      ¬TearsPost directory member body id stores := by
  cases hInput : createInput directory (stores.canonicalize member) member body with
  | error refusal =>
    have hPost : post directory member body id clock fileClock stores = (.error refusal, stores) := by
      rw [post, hInput]
    rw [hPost]
    refine iff_of_true ⟨fun _ _ => ⟨Kept.refl _, rfl⟩, fun _ hOk => (nomatch hOk)⟩ ?_
    rintro ⟨input, hOk, _⟩
    cases hInput.symm.trans hOk
  | ok input =>
    have hTears : TearsPost directory member body id stores ↔ trim input.title ≠ "" ∧ trim input.outcome ≠ "" ∧
        stores.objectives.get id.text = none ∧ ¬Mirrorable id stores.files.db (input.attachments.getD []) := by
      refine ⟨fun ⟨other, hOther, h⟩ => ?_, fun h => ⟨input, hInput, h⟩⟩
      cases hInput.symm.trans hOther
      exact h
    rw [hTears]
    cases serves stores.objectives (.create id.text input member.name.text (clock 0)) with
    | threw thrown hChange hServe =>
      have hPost : post directory member body id clock fileClock stores = (.error (mapObjectivesError thrown), stores) := by
        rw [post, hInput]
        dsimp only
        rw [hServe]
      rw [hPost]
      refine iff_of_true ⟨fun _ _ => ⟨Kept.refl _, rfl⟩, fun _ hOk => (nomatch hOk)⟩ ?_
      rintro ⟨hTitle, hOutcome, hFresh, _⟩
      obtain ⟨change, hMade⟩ := (@createChange_eq_ok_iff id.text member.name.text input (clock 0)).mpr ⟨hTitle, hOutcome⟩
      rw [Call.id, hFresh, Call.change, hMade] at hChange
      cases hChange
    | wrote change hChange hAfter hResult =>
      cases makes_of_change hChange with
      | create hFresh hMade =>
        obtain ⟨hTitle, hOutcome⟩ := createChange_eq_ok_iff.mp ⟨change, hMade⟩
        rw [post_created hInput hMade hFresh]
        simp [hTitle, hOutcome, show stores.objectives.get id.text = none from hFresh]

end Post

/-- Every request is all or nothing, but for the changes and the creations that are torn. -/
theorem all_or_nothing_iff_not_tears (desk : Desk) (event : Event) :
    (∀ reply, (handle desk event).2 = .answered reply → AllOrNothing desk.stores reply (handle desk event).1.stores) ↔
      ¬Tears desk event := by
  cases event with
  | create directory member body id clock fileClock =>
    refine Iff.trans ?_ (post_iff directory body clock fileClock)
    exact ⟨fun h => h _ rfl, by rintro h _ ⟨⟩; exact h⟩
  | opened member id request =>
    refine iff_of_true ?_ not_false
    unfold handle
    dsimp only
    split
    · rintro _ ⟨⟩
      exact ⟨fun _ _ => ⟨Kept.refl _, rfl⟩, fun _ hOk => (nomatch hOk)⟩
    · rintro _ ⟨⟩
  | settled index directory clock =>
    cases hPending : desk.pending[index]? with
    | none =>
      have hHandle : handle desk (.settled index directory clock) = (desk, .waiting) := by
        unfold handle
        dsimp only
        rw [hPending]
      rw [hHandle]
      refine iff_of_true (by rintro _ ⟨⟩) ?_
      rintro ⟨pending, input, hSome, _⟩
      cases hPending.symm.trans hSome
    | some pending =>
      have hHandle : handle desk (.settled index directory clock) =
          (⟨{ desk.stores with objectives := (settle pending directory clock desk.stores.objectives).2 }, desk.pending.eraseIdx index⟩,
            .answered (settle pending directory clock desk.stores.objectives).1) := by
        unfold handle
        dsimp only
        rw [hPending]
      rw [hHandle]
      have hTears : Tears desk (.settled index directory clock) ↔ ∃ input, pending.request = .patch (some input) ∧
          TearsPatch directory pending input desk.stores.objectives := by
        refine ⟨fun ⟨other, input, hOther, h⟩ => ?_, fun ⟨input, h⟩ => ⟨pending, input, hPending, h⟩⟩
        cases hPending.symm.trans hOther
        exact ⟨input, h⟩
      rw [hTears, ← settle_kept_iff pending directory clock]
      constructor
      · exact fun h refusal hError => ((h _ rfl).refused refusal hError).objectives
      · rintro h _ ⟨⟩
        exact ⟨fun refusal hError => ⟨h refusal hError, rfl⟩, fun answer hOk => settle_appends hOk⟩

theorem filed_empty : Filed FilesystemStore.empty.db := by
  rintro path row ⟨⟩

def Desk.empty : Desk := ⟨⟨.empty, .empty, filed_empty⟩, []⟩

def alice : Member := ⟨⟨"alice", .refl true⟩, [.objectivesCreate, .objectivesCancel]⟩

def bob : Member := ⟨⟨"bob", .refl true⟩, []⟩

def carol : Member := ⟨⟨"carol", .refl true⟩, []⟩

def team : Directory := ⟨⟨[alice, bob, carol], by decide⟩, none, fun _ _ => .ok []⟩

def blocksAndAdds : UpdateObjectiveBody := ⟨⟨some .blocked, none⟩, none, none, some ["carol"], none⟩

def finished : List Event :=
  [.create team alice (some ⟨"Ship", "Shipped", none, "bob", none, none⟩) ⟨"obj-1", by decide⟩ (fun _ => 1) fun _ => 1,
    .opened bob "obj-1" (.complete (some "shipped")), .settled 0 team fun _ => 2, .opened alice "obj-1" (.patch (some blocksAndAdds))]

theorem finished_objective_gains_watcher :
    ¬∀ (desk : Desk) (event : Event) (reply : Except Refusal Reply), (handle desk event).2 = .answered reply →
      AllOrNothing desk.stores reply (handle desk event).1.stores := by
  intro h
  let row : Objective := ⟨"obj-1", "Ship", "", "Shipped", .done, "bob", "alice", [], 1, 2, some 2, some "shipped", none, []⟩
  have hClean : ∀ refusal, (settle ⟨.patch (some blocksAndAdds), alice, "obj-1", row⟩ team (fun _ => 3)
      (final handle .empty finished).stores.objectives).1 = .error refusal → _ := fun refusal hError =>
    ((h (final handle .empty finished) (.settled 0 team fun _ => 3) _ rfl).refused refusal hError).objectives
  refine (settle_kept_iff _ team _ _).mp hClean ⟨blocksAndAdds, rfl, ?_, ?_, rfl, row, rfl, rfl, ?_⟩
  · decide
  · rintro name ⟨⟩
  · exact .inl ⟨"carol", by decide, by decide, by decide, by decide, by decide⟩

end Routes

end CommandSuite.Objectives
