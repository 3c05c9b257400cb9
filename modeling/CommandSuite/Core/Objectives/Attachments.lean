import CommandSuite.Core.Files.Copying
import CommandSuite.Core.Files.Sharing
import CommandSuite.Core.Objectives.Requests

/-! # The attachments of an objective

A created objective gets copies of its attachments in its own namespace, one after the other. The members of
its thread may write there.
-/

namespace CommandSuite.Objectives

open Library Fallible Function Files Text
open Files (Database FsError FsM FilesystemStore EntryKind ViewerContext IsSource HasContent HasRoom Opens Filled Filed held)

/-- What `generateObjectiveId` returns is one segment of a path. -/
structure ObjectiveId where
  text : String
  segment : segmentFault text = none

/-- `isMember`, as the server gives it to the filesystem store. -/
def isMember (store : ObjectivesStore) (objectiveId viewerName : String) : Bool :=
  match store.get objectiveId with
  | none => false
  | some obj => obj.originator = viewerName || obj.assignee = viewerName || viewerName ∈ obj.watchers

def objectiveAcl (store : ObjectivesStore) : ObjectiveAcl := some (isMember store)

def objectiveNamespacePath (id : String) (subpath : List String) : Except FsError Files.Path :=
  joinPath (("/" ++ Files.OBJECTIVE_NAMESPACE_SEGMENT) :: id :: subpath)

def basenameOf (path : String) : Except FsError String := (Files.normalizePath path).map Files.basenameOf

section Mirror

variable (acl : ObjectiveAcl) (viewer : ViewerContext) (id : ObjectiveId)

def mirrorAttachment (now : Int) (att : Attachment) : FsM Attachment := do
  let name ← valid (basenameOf att.path)
  let dst ← valid (objectiveNamespacePath id.text [name])
  let copied ← copyByBlobRef acl ⟨att.path, dst.render, some att.mimeType, some .suffix, viewer⟩ now
  return ⟨copied.path.render, copied.name, copied.size.getD att.size, copied.mimeType.getD att.mimeType⟩

def mirrorAttachments (clock : Nat → Int) : Nat → List Attachment → FsM (List Attachment)
  | _, [] => return []
  | reading, att :: attachments => do
    let mirrored ← mirrorAttachment acl viewer id (clock reading) att
    let others ← mirrorAttachments clock (reading + 1) attachments
    return mirrored :: others

end Mirror

/-! ## The namespace -/

theorem units_of_no_fault {seg : String} (h : segmentFault seg = none) : units seg ≤ MAX_SEGMENT_LENGTH := by
  unfold segmentFault at h
  split at h
  · cases h
  · split at h
    · cases h
    · rename_i hFits
      exact Nat.le_of_not_lt hFits

def namespaceOf (id : ObjectiveId) : Files.Path where
  segments := [Files.OBJECTIVE_NAMESPACE_SEGMENT, id.text]
  valid := by
    rintro seg (_ | ⟨_, _ | ⟨_, ⟨⟩⟩⟩)
    · decide
    · exact id.segment
  fits := by
    have hId := units_of_no_fault id.segment
    have hRoot : units "/" = 1 := by decide
    have hSlash : units (String.singleton '/') = 1 := by decide
    have hFirst : units Files.OBJECTIVE_NAMESPACE_SEGMENT = 10 := by decide
    rw [renderSegments, units_append, units_join]
    simp only [List.map_cons, List.map_nil, List.sum_cons, List.sum_nil, List.length_cons, List.length_nil, hRoot, hSlash, hFirst,
      MAX_PATH_LENGTH]
    rw [MAX_SEGMENT_LENGTH] at hId
    omega

inductive Fits (id : String) : (Files.Path → Option EntryKind) → List Attachment → Prop
  | nil {held : Files.Path → Option EntryKind} : Fits id held []
  | cons {held : Files.Path → Option EntryKind} {att : Attachment} {attachments : List Attachment} {name : String} {dst target : Files.Path}
      (base : basenameOf att.path = .ok name) (named : objectiveNamespacePath id [name] = .ok dst) (room : HasRoom held dst target)
      (rest : Fits id (update held target (some .file)) attachments) : Fits id held (att :: attachments)

structure Mirrorable (id : ObjectiveId) (db : Database) (attachments : List Attachment) : Prop where
  content : ∀ att ∈ attachments, HasContent db att.path
  opens : attachments ≠ [] → Opens db (namespaceOf id)
  fits : Fits id.text (held db) attachments

section Namespace

variable {acl : ObjectiveAcl} {viewer : ViewerContext} {id : ObjectiveId} {db : Database} {att : Attachment} {name : String} {dst : Files.Path}

theorem basename_of_source (hFiled : Filed db) (hSource : IsSource acl viewer db att.path) :
    ∃ src : Files.Path, src ≠ Files.ROOT_PATH ∧ basenameOf att.path = .ok (Files.basenameOf src) := by
  obtain ⟨src, row, _, hSrc, _, hRow, _⟩ := hSource
  refine ⟨src, ?_, by rw [basenameOf, hSrc]; rfl⟩
  rw [← path_of_getEntry hRow]
  exact (hFiled src row hRow).belowRoot

theorem segments_of_named (hFiled : Filed db) (hSource : IsSource acl viewer db att.path) (hBase : basenameOf att.path = .ok name)
    (hDst : objectiveNamespacePath id.text [name] = .ok dst) :
    dst.segments = [Files.OBJECTIVE_NAMESPACE_SEGMENT, id.text, name] := by
  obtain ⟨src, hRoot, hSrc⟩ := basename_of_source hFiled hSource
  rw [hBase] at hSrc
  cases hSrc
  have hFirst : segmentsOf ("/" ++ Files.OBJECTIVE_NAMESPACE_SEGMENT) = [Files.OBJECTIVE_NAMESPACE_SEGMENT] := by decide
  rw [segments_of_joinPath hDst]
  simp [hFirst, segmentsOf_of_no_fault id.segment, segmentsOf_basenameOf hRoot]

theorem parentOf_named (hFiled : Filed db) (hSource : IsSource acl viewer db att.path) (hBase : basenameOf att.path = .ok name)
    (hDst : objectiveNamespacePath id.text [name] = .ok dst) : dst ≠ Files.ROOT_PATH ∧ parentOf dst = namespaceOf id := by
  have hSegments := segments_of_named hFiled hSource hBase hDst
  have hParent : (parentOf dst).segments = (namespaceOf id).segments := congrArg List.dropLast hSegments
  refine ⟨?_, Files.Path.ext hParent⟩
  rintro rfl
  cases hSegments

theorem canWrite_named {member : String → String → Bool} (hMember : member id.text viewer.name.text = true)
    (hSegments : dst.segments = [Files.OBJECTIVE_NAMESPACE_SEGMENT, id.text, name]) : canWrite (some member) dst viewer = true := by
  have hParse : parseObjectiveNamespacePath dst = some ⟨id.text, join '/' [name]⟩ := by
    rw [parseObjectiveNamespacePath, hSegments]
    rfl
  simp [canWrite, isObjectiveMember, hParse, hMember]

theorem Fits.congr {held other : Files.Path → Option EntryKind} {attachments : List Attachment} (hFiled : Filed db)
    (hSources : ∀ att ∈ attachments, IsSource acl viewer db att.path)
    (hSame : ∀ path : Files.Path, ¬path.segments <+: (namespaceOf id).segments → held path = other path)
    (h : Fits id.text held attachments) : Fits id.text other attachments := by
  induction h generalizing other with
  | nil => exact .nil
  | @cons held att attachments name dst target hBase hDst hRoom hRest ih =>
    obtain ⟨hSource, hOthers⟩ := List.forall_mem_cons.mp hSources
    obtain ⟨hRoot, hParent⟩ := parentOf_named hFiled hSource hBase hDst
    refine .cons hBase hDst (hRoom.congr hRoot ?_) (ih hOthers fun path hBelow => ?_)
    · rw [hParent]
      exact hSame
    · by_cases hTarget : path = target
      · rw [hTarget, update_self, update_self]
      · rw [update_of_ne hTarget, update_of_ne hTarget, hSame path hBelow]

end Namespace

/-! ## The copies -/

section Copies

variable {s : FilesystemStore} {member : String → String → Bool} {viewer : ViewerContext} {id : ObjectiveId} {att : Attachment}

theorem mirrorAttachment_room {now : Int} (hFiled : Filed s.db)
    (hSource : IsSource (some member) viewer s.db att.path) (hMember : member id.text viewer.name.text = true) :
    Ends (mirrorAttachment (some member) viewer id now att) s fun outcome s' =>
      match outcome with
      | .ok _ => HasContent s.db att.path ∧ Opens s.db (namespaceOf id) ∧ ∃ name dst target, basenameOf att.path = .ok name ∧
          objectiveNamespacePath id.text [name] = .ok dst ∧ HasRoom (held s.db) dst target ∧ Filled s dst target s'
      | .error _ => ¬(HasContent s.db att.path ∧ Opens s.db (namespaceOf id) ∧ ∃ name dst target, basenameOf att.path = .ok name ∧
          objectiveNamespacePath id.text [name] = .ok dst ∧ HasRoom (held s.db) dst target) := by
  obtain ⟨src, _, hBase⟩ := basename_of_source hFiled hSource
  refine ends_valid_ok hBase ?_
  cases hDst : objectiveNamespacePath id.text [Files.basenameOf src] with
  | error e =>
    rintro ⟨_, _, name, dst, target, hName, hNamed, _⟩
    rw [hBase] at hName
    cases hName
    rw [hDst] at hNamed
    cases hNamed
  | ok dst =>
    obtain ⟨hRoot, hParent⟩ := parentOf_named hFiled hSource hBase hDst
    have hWrite := canWrite_named hMember (segments_of_named hFiled hSource hBase hDst)
    refine ends_valid_ok rfl ?_
    rw [ends_bind]
    refine Ends.imp (copyByBlobRef_room hFiled rfl hSource (normalizePath_render dst) hRoot hWrite) ?_
    rw [hParent]
    rintro (error | copied) s' hCopy
    · rintro ⟨hContent, hOpens, name, dst', target, hName, hNamed, hRoom⟩
      rw [hBase] at hName
      cases hName
      rw [hDst] at hNamed
      cases hNamed
      exact hCopy ⟨hContent, hOpens, target, hRoom⟩
    · obtain ⟨hContent, hOpens, target, hRoom, hFilled⟩ := hCopy
      exact ⟨hContent, hOpens, _, dst, target, hBase, hDst, hRoom, hFilled⟩

variable {attachments : List Attachment}

theorem mirrorable_cons {s' : FilesystemStore} {name : String} {dst target : Files.Path}
    (hFiled : Filed s.db) (hSources : ∀ other ∈ att :: attachments, IsSource (some member) viewer s.db other.path)
    (hContent : HasContent s.db att.path) (hOpens : Opens s.db (namespaceOf id)) (hBase : basenameOf att.path = .ok name)
    (hDst : objectiveNamespacePath id.text [name] = .ok dst) (hRoom : HasRoom (held s.db) dst target) (hFilled : Filled s dst target s') :
    Mirrorable id s.db (att :: attachments) ↔ Mirrorable id s'.db attachments := by
  obtain ⟨hSource, hOthers⟩ := List.forall_mem_cons.mp hSources
  obtain ⟨hRoot, hParent⟩ := parentOf_named hFiled hSource hBase hDst
  have hHeld : ∀ path : Files.Path, ¬path.segments <+: (namespaceOf id).segments →
      held s'.db path = update (held s.db) target (some .file) path := by
    intro path hBelow
    rw [hFilled.placed path (by rwa [hParent]), update_apply]
  have hKept : ∀ other ∈ attachments, HasContent s'.db other.path ↔ HasContent s.db other.path := fun other hOther =>
    hasContent_of_kept hFilled.kept (hOthers other hOther)
  constructor
  · rintro ⟨hContents, _, hFits⟩
    refine ⟨fun other hOther => (hKept other hOther).mpr (hContents other (List.mem_cons_of_mem att hOther)), fun _ => ?_, ?_⟩
    · rw [← hParent]
      exact opens_of_isDirectory hFilled.housed
    · cases hFits with
      | cons hBase' hDst' hRoom' hRest =>
        rw [hBase] at hBase'
        cases hBase'
        rw [hDst] at hDst'
        cases hDst'
        rw [hRoom'.unique hRoom] at hRest
        exact hRest.congr hFiled hOthers fun path hBelow => (hHeld path hBelow).symm
  · rintro ⟨hContents, _, hFits⟩
    refine ⟨List.forall_mem_cons.mpr ⟨hContent, fun other hOther => (hKept other hOther).mp (hContents other hOther)⟩, fun _ => hOpens, ?_⟩
    exact .cons hBase hDst hRoom (hFits.congr hFiled hOthers hHeld)

theorem mirrorAttachments_mirrorable {clock : Nat → Int} {reading : Nat} (hFiled : Filed s.db)
    (hSources : ∀ att ∈ attachments, IsSource (some member) viewer s.db att.path) (hMember : member id.text viewer.name.text = true) :
    Ends (mirrorAttachments (some member) viewer id clock reading attachments) s fun outcome _ =>
      (∃ mirrored, outcome = .ok mirrored) ↔ Mirrorable id s.db attachments := by
  induction attachments generalizing s reading with
  | nil => exact ⟨fun _ => ⟨by simp, fun h => absurd rfl h, .nil⟩, fun _ => ⟨[], rfl⟩⟩
  | cons att attachments ih =>
    unfold mirrorAttachments
    rw [ends_bind]
    refine Ends.imp (mirrorAttachment_room hFiled (hSources att List.mem_cons_self) hMember) ?_
    rintro (error | mirrored) s' hFirst
    · refine ⟨fun ⟨_, hOk⟩ => (nomatch hOk), fun h => absurd ?_ hFirst⟩
      cases h.fits with
      | cons hBase hDst hRoom _ =>
        exact ⟨h.content att List.mem_cons_self, h.opens (List.cons_ne_nil _ _), _, _, _, hBase, hDst, hRoom⟩
    · obtain ⟨hContent, hOpens, name, dst, target, hBase, hDst, hRoom, hFilled⟩ := hFirst
      rw [mirrorable_cons hFiled hSources hContent hOpens hBase hDst hRoom hFilled]
      have hOthers : ∀ other ∈ attachments, IsSource (some member) viewer s'.db other.path := fun other hOther =>
        (hSources other (List.mem_cons_of_mem att hOther)).of_kept hFilled.grants hFilled.kept
      dsimp only
      rw [ends_bind]
      refine Ends.imp (ih hFilled.filed hOthers) ?_
      rintro (error | others) s'' hRest
      · exact ⟨fun ⟨_, hOk⟩ => (nomatch hOk), fun h => (nomatch (hRest.mpr h).choose_spec)⟩
      · exact ⟨fun _ => hRest.mp ⟨others, rfl⟩, fun _ => ⟨_, rfl⟩⟩

end Copies

end CommandSuite.Objectives
