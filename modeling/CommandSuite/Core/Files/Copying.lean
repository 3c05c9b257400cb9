import CommandSuite.Core.Files.Effects

/-! # When a copy goes through

A copy that asks for a suffix needs a directory for its destination, and a name that is free in it.
It keeps the entries that are there.
-/

namespace CommandSuite.Files

open Library Fallible Database

/-! ## The directory -/

/-- On the way up from a path, the first entry that is there is a directory. -/
def OpensFrom (db : Database) : Nat → Path → Prop
  | 0, _ => True
  | depth + 1, path =>
    match db.getEntry path with
    | some row => row.kind = .directory
    | none => OpensFrom db depth (parentOf path)

def Opens (db : Database) (path : Path) : Prop := OpensFrom db path.segments.length path

theorem opens_of_isDirectory {db : Database} {path : Path} (h : IsDirectory db path) : Opens db path := by
  unfold Opens
  rcases h with rfl | ⟨row, hRow, hKind⟩
  · trivial
  · cases path.segments.length with
    | zero => trivial
    | succ depth =>
      rw [OpensFrom, hRow]
      exact hKind

section Programs

variable {s : FilesystemStore} {path : Path} {writer : ViewerContext} {now : Int}

theorem createDirectoryRow_free (hRoot : path ≠ ROOT_PATH) (hFree : s.db.getEntry path = none) :
    Ends (createDirectoryRow path writer now) s fun outcome _ => ∃ entry, outcome = .ok entry := by
  obtain ⟨owner, hOwner⟩ := exists_ownerOf hRoot
  refine ends_require (by simpa using hRoot) _ (ends_fromDb ?_)
  rw [hFree]
  refine ends_present hOwner _ ?_
  rw [ends_bind]
  refine Ends.imp (insertEntry_free (directoryRow path owner writer.name.text now) hFree) ?_
  rintro _ s' ⟨rfl, _⟩
  exact ⟨_, rfl⟩

theorem ensureDirectoryTreeFrom_opens {depth : Nat} (hDepth : path.segments.length = depth) :
    Ends (ensureDirectoryTreeFrom writer now depth path) s fun outcome _ =>
      (∃ entry, outcome = .ok entry) ↔ OpensFrom s.db depth path := by
  induction depth generalizing path s with
  | zero => exact ⟨fun _ => trivial, fun _ => ⟨_, rfl⟩⟩
  | succ depth ih =>
    have hRoot : path ≠ ROOT_PATH := by
      rintro rfl
      cases hDepth
    unfold ensureDirectoryTreeFrom OpensFrom
    refine ends_fromDb ?_
    cases hEntry : s.db.getEntry path with
    | some existing =>
      by_cases hKind : existing.kind = .directory
      · exact ends_require (by simpa using hKind) _ ⟨fun _ => hKind, fun _ => ⟨_, rfl⟩⟩
      · have hNot : decide (existing.kind = .directory) = false := by simpa using hKind
        dsimp only
        rw [hNot]
        exact ⟨by rintro ⟨_, ⟨⟩⟩, fun hOpens => absurd hOpens hKind⟩
    | none =>
      have hParent : (parentOf path).segments.length = depth := by simp [parentOf, hDepth]
      have hKept : Keeps (Footprint (fun _ => False) (IsAncestor (parentOf path)))
          (ensureDirectoryTreeFrom writer now depth (parentOf path)) s _ :=
        keeps_ensureDirectoryTreeFrom hParent fun _ hOther hBelow => ⟨hOther, hBelow⟩
      dsimp only
      rw [ends_bind]
      refine Ends.imp ((ih hParent).and hKept) ?_
      rintro (error | entry) s' ⟨hOpens, hChanges, _⟩
      · exact ⟨by rintro ⟨_, ⟨⟩⟩, fun h => by cases (hOpens.mpr h).choose_spec⟩
      · have hFree : s'.db.getEntry path = none := by
          rcases hChanges.changed path with hSame | hFalse | ⟨⟨hPrefix, _⟩, _⟩
          · rw [hSame, hEntry]
          · exact hFalse.elim
          · exact absurd hPrefix (not_prefix_parentOf hRoot)
        refine Ends.imp (createDirectoryRow_free hRoot hFree) ?_
        rintro _ _ ⟨made, rfl⟩
        exact ⟨fun _ => hOpens.mp ⟨entry, rfl⟩, fun _ => ⟨made, rfl⟩⟩

/-! ## The name -/

def held (db : Database) (path : Path) : Option EntryKind := (db.getEntry path).map FsEntryRow.kind

/-- Where a file finds room: at its path, or under the first numbered name when a file is there. -/
def HasRoom (held : Path → Option EntryKind) (path target : Path) : Prop :=
  held path = none ∧ target = path ∨
    held path = some .file ∧ ∃ i, 1 ≤ i ∧ i < 10000 ∧ siblingPath (parentOf path) (candidate (basenameOf path) i) = .ok target ∧
      held target = none ∧ ∀ j, 1 ≤ j → j < i → ∃ other kind,
        siblingPath (parentOf path) (candidate (basenameOf path) j) = .ok other ∧ held other = some kind

theorem held_eq_none_iff (db : Database) (path : Path) : held db path = none ↔ db.getEntry path = none := Option.map_eq_none_iff

theorem held_eq_some_iff (db : Database) (path : Path) (kind : EntryKind) :
    held db path = some kind ↔ ∃ row, db.getEntry path = some row ∧ row.kind = kind :=
  Option.map_eq_some_iff

theorem hasRoom_held_iff (db : Database) (path target : Path) :
    HasRoom (held db) path target ↔ db.getEntry path = none ∧ target = path ∨
      (∃ existing, db.getEntry path = some existing ∧ existing.kind = .file) ∧ IsFirstFree db path target := by
  simp only [HasRoom, IsFirstFree, held_eq_none_iff, held_eq_some_iff]
  have hTaken : ∀ other, (∃ kind row, db.getEntry other = some row ∧ row.kind = kind) ↔ ∃ row, db.getEntry other = some row :=
    fun other => ⟨fun ⟨_, row, hRow, _⟩ => ⟨row, hRow⟩, fun ⟨row, hRow⟩ => ⟨_, row, hRow, rfl⟩⟩
  simp only [← exists_and_left, exists_comm (α := EntryKind)] at hTaken ⊢
  simp

theorem not_prefix_of_hasRoom {path target : Path} {held : Path → Option EntryKind} (hRoot : path ≠ ROOT_PATH)
    (h : HasRoom held path target) : ¬target.segments <+: (parentOf path).segments := by
  rcases h with ⟨_, rfl⟩ | ⟨_, i, _, _, hSibling, _⟩
  · exact not_prefix_parentOf hRoot
  · exact not_prefix_of_candidate hSibling

theorem HasRoom.unique {path target other : Path} {held : Path → Option EntryKind} (h : HasRoom held path target)
    (h' : HasRoom held path other) : target = other := by
  rcases h with ⟨hFree, rfl⟩ | ⟨hFile, i, hLow, _, hTarget, hFree, hBefore⟩
  · rcases h' with ⟨_, rfl⟩ | ⟨hFile, _⟩
    · rfl
    · rw [hFree] at hFile
      cases hFile
  · rcases h' with ⟨hNone, _⟩ | ⟨_, k, hLow', _, hOther, hFree', hBefore'⟩
    · rw [hFile] at hNone
      cases hNone
    · have hTaken : ∀ {n : Nat} {free : Path}, held free = none →
          siblingPath (parentOf path) (candidate (basenameOf path) n) = .ok free →
          ¬∃ sibling kind, siblingPath (parentOf path) (candidate (basenameOf path) n) = .ok sibling ∧ held sibling = some kind := by
        rintro n free hNone hNamed ⟨sibling, kind, hSibling, hKind⟩
        rw [hNamed] at hSibling
        cases hSibling
        rw [hNone] at hKind
        cases hKind
      have hSame : i = k := by
        rcases Nat.lt_trichotomy i k with hLess | hSame | hMore
        · exact absurd (hBefore' i hLow hLess) (hTaken hFree hTarget)
        · exact hSame
        · exact absurd (hBefore k hLow' hMore) (hTaken hFree' hOther)
      rw [hSame, hOther] at hTarget
      exact (Except.ok.inj hTarget).symm

theorem HasRoom.congr {path target : Path} {held other : Path → Option EntryKind} (hRoot : path ≠ ROOT_PATH)
    (hSame : ∀ path', ¬path'.segments <+: (parentOf path).segments → held path' = other path') (h : HasRoom held path target) :
    HasRoom other path target := by
  rcases h with ⟨hFree, rfl⟩ | ⟨hFile, i, hLow, hHigh, hSibling, hFree, hBefore⟩
  · exact .inl ⟨by rw [← hSame _ (not_prefix_parentOf hRoot), hFree], rfl⟩
  · refine .inr ⟨by rw [← hSame _ (not_prefix_parentOf hRoot), hFile], i, hLow, hHigh, hSibling, ?_, fun j hFrom hTo => ?_⟩
    · rw [← hSame _ (not_prefix_of_candidate hSibling), hFree]
    · obtain ⟨sibling, kind, hOther, hKind⟩ := hBefore j hFrom hTo
      exact ⟨sibling, kind, hOther, by rw [← hSame _ (not_prefix_of_candidate hOther), hKind]⟩

theorem resolveCollision_room (hFiled : Filed s.db) (hRoot : path ≠ ROOT_PATH) :
    Ends (resolveCollision .suffix path) s fun outcome s' => s' = s ∧
      match outcome with
      | .ok placement => placement.existing = none ∧ HasRoom (held s.db) path placement.path
      | .error _ => ∀ target, ¬HasRoom (held s.db) path target := by
  have hPlaced : Ends (resolveCollision .suffix path) s _ := ends_resolveCollision hFiled hRoot
  rw [ends_iff_run] at hPlaced ⊢
  obtain ⟨hSame, hPlaced⟩ := hPlaced
  refine ⟨hSame, ?_⟩
  cases hRun : (run (resolveCollision .suffix path) s).1 with
  | ok placement =>
    obtain ⟨hOver, hFresh⟩ := hPlaced placement hRun
    have hNone : placement.existing = none := by
      cases hExisting : placement.existing with
      | none => rfl
      | some existing => cases (hOver existing hExisting).1
    obtain ⟨hFree, hGoes⟩ := hFresh hNone
    refine ⟨hNone, (hasRoom_held_iff _ _ _).mpr ?_⟩
    rcases hGoes with hHere | ⟨_, hFile, hFirst⟩
    · rw [hHere] at hFree ⊢
      exact .inl ⟨hFree, rfl⟩
    · exact .inr ⟨hFile, hFirst⟩
  | error thrown =>
    intro target hRoom
    rcases (hasRoom_held_iff _ _ _).mp hRoom with ⟨hFree, _⟩ | ⟨⟨existing, hEntry, hKind⟩, hFirst⟩
    · have hGoes : Ends (resolveCollision .suffix path) s fun outcome _ => ∃ placement, outcome = .ok placement := by
        refine ends_fromDb ?_
        rw [hFree]
        exact ⟨_, rfl⟩
      rw [ends_iff_run, hRun] at hGoes
      obtain ⟨_, hOk⟩ := hGoes
      cases hOk
    · have hGoes := resolveCollision_suffix hFiled hEntry hKind hFirst
      rw [ends_iff_run, hRun] at hGoes
      obtain ⟨_, _, hOk⟩ := hGoes
      cases hOk

theorem HasRoom.free {db : Database} {path target : Path} (h : HasRoom (held db) path target) : db.getEntry target = none := by
  rcases (hasRoom_held_iff _ _ _).mp h with ⟨hFree, rfl⟩ | ⟨_, i, _, _, _, hFree, _⟩
  · exact hFree
  · exact hFree

theorem writeContent_free {content : Content} {creator owner : String} {renamed : Bool} (hFree : s.db.getEntry path = none)
    (hOwner : ownerOf path = some owner) :
    Ends (writeContent ⟨none, path, renamed⟩ content creator now) s fun outcome s' =>
      outcome = .ok () ∧ s' = placeFile (fileRow path owner content creator now) content.hash s := by
  have hInsert : decide (s.db.getEntry (fileRow path owner content creator now).path).isNone = true := by
    rw [show (fileRow path owner content creator now).path = path from rfl, hFree]
    rfl
  refine ends_present hOwner _ ?_
  unfold insertEntry
  rw [bind_assoc]
  refine ends_fromDb ?_
  rw [bind_assoc]
  exact ends_require (by simpa using hInsert) _ ⟨rfl, rfl⟩

theorem placeTx_room {content : Content} {creator : String} (hFiled : Filed s.db) (hRoot : path ≠ ROOT_PATH) :
    Ends (withTx (placeTx id .suffix path content creator now)) s fun outcome s' =>
      match outcome with
      | .ok placement => HasRoom (held s.db) path placement.path ∧ ∃ owner, ownerOf placement.path = some owner ∧
          s' = placeFile (fileRow placement.path owner content creator now) content.hash s
      | .error _ => ∀ target, ¬HasRoom (held s.db) path target := by
  refine ends_withTx ?_
  unfold placeTx
  rw [ends_bind]
  refine Ends.imp (resolveCollision_room hFiled hRoot) ?_
  rintro (error | ⟨existing, target, renamed⟩) s' ⟨rfl, hRoom⟩
  · exact hRoom
  · obtain ⟨rfl, hRoom⟩ := hRoom
    have hBelow : target ≠ ROOT_PATH := by
      rintro rfl
      exact not_prefix_of_hasRoom hRoot hRoom List.nil_prefix
    obtain ⟨owner, hOwner⟩ := exists_ownerOf hBelow
    dsimp only
    rw [onDb, ends_update_bind, ends_bind]
    refine Ends.imp (writeContent_free hRoom.free hOwner) ?_
    rintro _ _ ⟨rfl, rfl⟩
    exact ⟨hRoom, owner, hOwner, rfl⟩

/-! ## The copy -/

def IsSource (acl : ObjectiveAcl) (viewer : ViewerContext) (db : Database) (raw : String) : Prop :=
  ∃ src row size, normalizePath raw = .ok src ∧ canRead acl src viewer db = true ∧ db.getEntry src = some row ∧
    row.kind = .file ∧ row.size = some size

def HasContent (db : Database) (raw : String) : Prop :=
  ∀ src row, normalizePath raw = .ok src → db.getEntry src = some row → truthy row.contentHash ≠ none

theorem hasContent_iff {db : Database} {raw : String} {src : Path} {row : FsEntryRow} (hSrc : normalizePath raw = .ok src)
    (hRow : db.getEntry src = some row) : HasContent db raw ↔ truthy row.contentHash ≠ none := by
  refine ⟨fun h => h src row hSrc hRow, fun h src' row' hSrc' hRow' => ?_⟩
  rw [hSrc] at hSrc'
  cases hSrc'
  rw [hRow] at hRow'
  cases hRow'
  exact h

theorem IsSource.of_kept {acl : ObjectiveAcl} {viewer : ViewerContext} {before after : Database} {raw : String}
    (hGrants : after.grants = before.grants) (hKept : ∀ path row, before.getEntry path = some row → after.getEntry path = some row)
    (h : IsSource acl viewer before raw) : IsSource acl viewer after raw := by
  obtain ⟨src, row, size, hSrc, hRead, hRow, hKind, hSize⟩ := h
  refine ⟨src, row, size, hSrc, ?_, hKept src row hRow, hKind, hSize⟩
  rw [canRead, Database.hasGrant, hGrants]
  exact hRead

theorem hasContent_of_kept {acl : ObjectiveAcl} {viewer : ViewerContext} {before after : Database} {raw : String}
    (hKept : ∀ path row, before.getEntry path = some row → after.getEntry path = some row)
    (hSource : IsSource acl viewer before raw) : HasContent after raw ↔ HasContent before raw := by
  obtain ⟨src, row, _, hSrc, _, hRow, _⟩ := hSource
  rw [hasContent_iff hSrc (hKept src row hRow), hasContent_iff hSrc hRow]

structure Filled (before : FilesystemStore) (dst target : Path) (after : FilesystemStore) : Prop where
  filed : Filed after.db
  grants : after.db.grants = before.db.grants
  kept : ∀ path row, before.db.getEntry path = some row → after.db.getEntry path = some row
  housed : IsDirectory after.db (parentOf dst)
  placed : ∀ path, ¬path.segments <+: (parentOf dst).segments →
    held after.db path = if path = target then some .file else held before.db path

section Copy

variable {acl : ObjectiveAcl} {input : CopyByBlobRefInput} {dst : Path}

theorem prepareCopy_opens (hSource : IsSource acl input.viewer s.db input.src) (hDst : normalizePath input.dst = .ok dst)
    (hRoot : dst ≠ ROOT_PATH) (hWrite : canWrite acl dst input.viewer = true) :
    Ends (prepareCopy acl input now) s fun outcome s' =>
      match outcome with
      | .ok plan => plan.dst = dst ∧ HasContent s.db input.src ∧ Opens s.db (parentOf dst) ∧ AgreesBelow (parentOf dst) s.db s'.db
      | .error _ => ¬(HasContent s.db input.src ∧ Opens s.db (parentOf dst)) := by
  obtain ⟨src, row, size, hSrc, hRead, hRow, hKind, hSize⟩ := hSource
  refine ends_valid_ok hSrc (ends_valid_ok hDst (ends_require (by simpa using hRoot) _ (ends_fromDb ?_)))
  refine ends_require hRead _ (ends_require hWrite _ (ends_fromDb (ends_present hRow _ (ends_require (by simpa using hKind) _ ?_))))
  cases hHash : truthy row.contentHash with
  | none => exact fun h => (hasContent_iff hSrc hRow).mp h.1 hHash
  | some hash =>
    refine ends_present rfl _ (ends_present hSize _ ?_)
    have hContent : HasContent s.db input.src := (hasContent_iff hSrc hRow).mpr (by simp [hHash])
    have hKept : Keeps (Footprint (fun _ => False) (IsAncestor dst)) (ensureDirectoryTree (parentOf dst) input.viewer now) s _ :=
      keeps_ensureParent
    rw [ends_bind]
    refine Ends.imp ((ensureDirectoryTreeFrom_opens rfl).and hKept) ?_
    rintro (error | entry) s' ⟨hOpens, _, hAgrees⟩
    · exact fun h => (nomatch (hOpens.mpr h.2).choose_spec)
    · exact ⟨rfl, hContent, hOpens.mp ⟨entry, rfl⟩, (hAgrees entry rfl).1⟩

theorem copyByBlobRef_room (hFiled : Filed s.db) (hCollision : input.collision = some .suffix)
    (hSource : IsSource acl input.viewer s.db input.src) (hDst : normalizePath input.dst = .ok dst) (hRoot : dst ≠ ROOT_PATH)
    (hWrite : canWrite acl dst input.viewer = true) :
    Ends (copyByBlobRef acl input now) s fun outcome s' =>
      match outcome with
      | .ok _ => HasContent s.db input.src ∧ Opens s.db (parentOf dst) ∧ ∃ target, HasRoom (held s.db) dst target ∧ Filled s dst target s'
      | .error _ => ¬(HasContent s.db input.src ∧ Opens s.db (parentOf dst) ∧ ∃ target, HasRoom (held s.db) dst target) := by
  rw [copyByBlobRef_eq, ends_bind]
  have hBuilds : Keeps Builds (prepareCopy acl input now) s _ := builds_prepareCopy
  refine Ends.imp ((prepareCopy_opens hSource hDst hRoot hWrite).and hBuilds) ?_
  rintro (error | plan) built ⟨hPlan, hBuilt, hMade⟩
  · exact fun ⟨hContent, hOpens, _⟩ => hPlan ⟨hContent, hOpens⟩
  · obtain ⟨hPlanned, hContent, hOpens, hAgrees⟩ := hPlan
    obtain ⟨hHoused, _⟩ := hMade plan rfl
    have hHeld : ∀ path, ¬path.segments <+: (parentOf dst).segments → held built.db path = held s.db path :=
      fun path hBelow => congrArg (Option.map FsEntryRow.kind) (hAgrees path hBelow)
    rw [hPlanned] at hHoused
    dsimp only
    rw [hPlanned, hCollision, ends_bind]
    refine Ends.imp (placeTx_room (hBuilt.1.filed hFiled) hRoot) ?_
    rintro (error | placement) s' hPlaced
    · rintro ⟨_, _, target, hRoom⟩
      exact hPlaced target (hRoom.congr hRoot fun path hBelow => (hHeld path hBelow).symm)
    · obtain ⟨hRoom, owner, hOwner, rfl⟩ := hPlaced
      have hFree := hRoom.free
      have hGet : ∀ path, (placeFile (fileRow placement.path owner plan.content input.viewer.name.text now) plan.content.hash built).db.getEntry path =
          if path = placement.path then some (fileRow placement.path owner plan.content input.viewer.name.text now)
          else built.db.getEntry path := fun path => getEntry_withRow hFree path
      refine ends_fromDb (ends_present ((hGet _).trans (if_pos rfl)) _ ?_)
      refine ⟨hContent, hOpens, placement.path, hRoom.congr hRoot hHeld, ?_, ?_, fun path row hRow => ?_, ?_, fun path hBelow => ?_⟩
      · intro path row hRow
        rw [hGet] at hRow
        split at hRow
        · cases hRow
          exact filed_fileRow hOwner
        · exact hBuilt.1.filed hFiled path row hRow
      · exact hBuilt.1.grants
      · have hStill := hBuilt.1.getEntry hRow
        rw [hGet, if_neg, hStill]
        rintro rfl
        rw [hFree] at hStill
        cases hStill
      · refine hHoused.imp_right fun ⟨row, hRow, hKind⟩ => ⟨row, ?_, hKind⟩
        rw [hGet, if_neg, hRow]
        intro hSame
        rw [hSame, hFree] at hRow
        cases hRow
      · rw [← hHeld path hBelow, held, hGet]
        split
        · rfl
        · rfl

end Copy

end Programs

end CommandSuite.Files
