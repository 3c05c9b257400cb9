import CommandSuite.Core.Files.Access
import CommandSuite.Core.Files.Lineage

/-! # What a step does

Every event adds directories, puts a file, moves one, removes rows or adds a grant.
-/

namespace CommandSuite.Files

open Library Fallible Database

/-! ## Directories -/

def IsDirectory (db : Database) (path : Path) : Prop :=
  path = ROOT_PATH ∨ ∃ row, db.getEntry path = some row ∧ row.kind = .directory

def withRow (row : FsEntryRow) (db : Database) : Database := { db with entries := db.entries.insertOrIgnore row }

inductive MakesDirectory : Database → Database → Prop
  | made {db : Database} {path : Path} {owner creator : String} {now : Int} (free : db.getEntry path = none)
      (owned : ownerOf path = some owner) (housed : IsDirectory db (parentOf path)) :
      MakesDirectory db (withRow (directoryRow path owner creator now) db)

abbrev Built : Database → Database → Prop := Relation.ReflTransGen MakesDirectory

theorem getEntry_withRow {db : Database} {row : FsEntryRow} (h : db.getEntry row.path = none) (path : Path) :
    (withRow row db).getEntry path = if path = row.path then some row else db.getEntry path :=
  getEntry_insert h path

namespace Built

variable {before after : Database}

section

variable (h : Built before after) {path : Path} {row : FsEntryRow}

include h

theorem getEntry (hRow : before.getEntry path = some row) : after.getEntry path = some row := by
  induction h with
  | refl => exact hRow
  | tail _ hMade ih =>
    cases hMade with
    | made hFree _ _ =>
      rw [getEntry_withRow hFree]
      split
      · rename_i hPath
        rw [hPath] at ih
        cases ih.symm.trans hFree
      · exact ih

theorem file_before (hRow : after.getEntry path = some row)
    (hKind : row.kind = .file) : before.getEntry path = some row := by
  induction h with
  | refl => exact hRow
  | tail _ hMade ih =>
    cases hMade with
    | made hFree _ _ =>
      rw [getEntry_withRow hFree] at hRow
      split at hRow
      · cases hRow
        cases hKind
      · exact ih hRow

theorem blobs : after.blobs = before.blobs := by
  induction h with
  | refl => rfl
  | tail _ hMade ih =>
    cases hMade with
    | made => exact ih

theorem grants : after.grants = before.grants := by
  induction h with
  | refl => rfl
  | tail _ hMade ih =>
    cases hMade with
    | made => exact ih

theorem filed (hFiled : Filed before) : Filed after := by
  induction h with
  | refl => exact hFiled
  | tail _ hMade ih =>
    cases hMade with
    | made hFree hOwner _ =>
      intro path row hRow
      rw [getEntry_withRow hFree] at hRow
      split at hRow
      · cases hRow
        exact filed_directoryRow hOwner
      · exact ih path row hRow

end

end Built

def Builds (before after : FilesystemStore) : Prop := Built before.db after.db ∧ after.deletes = before.deletes

instance : Std.Refl Builds := ⟨fun _ => ⟨.refl, rfl⟩⟩

instance : IsTrans FilesystemStore Builds := ⟨fun _ _ _ h h' => ⟨h.1.trans h'.1, h'.2.trans h.2⟩⟩

section Directories

variable {s : FilesystemStore} {path : Path} {writer : ViewerContext} {now : Int}

theorem builds_row {owner creator : String} (hFree : s.db.getEntry path = none) (hOwner : ownerOf path = some owner)
    (hHoused : IsDirectory s.db (parentOf path)) :
    Keeps Builds (insertEntry (directoryRow path owner creator now)) s fun _ s' => IsDirectory s'.db path := by
  unfold insertEntry
  rw [fromDb, keeps_reads_bind]
  have hBuilds : Builds s { s with db := withRow (directoryRow path owner creator now) s.db } :=
    ⟨.single (.made hFree hOwner hHoused), rfl⟩
  refine keeps_require_bind _ fun _ => keeps_update hBuilds (.inr ⟨directoryRow path owner creator now, ?_, rfl⟩)
  exact (getEntry_withRow hFree path).trans (if_pos rfl)

theorem builds_createDirectoryRow (hHoused : IsDirectory s.db (parentOf path)) :
    Keeps Builds (createDirectoryRow path writer now) s fun _ s' => IsDirectory s'.db path := by
  unfold createDirectoryRow
  refine keeps_require_bind _ fun _ => ?_
  rw [fromDb, keeps_reads_bind]
  cases hEntry : s.db.getEntry path with
  | some existing => exact keeps_require_bind _ fun hKind => keeps_pure (.inr ⟨existing, hEntry, by simpa using hKind⟩)
  | none =>
    refine keeps_present_bind _ fun owner hOwner => ?_
    exact (builds_row hEntry hOwner hHoused).bind fun _ s' _ hMade => keeps_pure hMade

theorem builds_ensureDirectoryTreeFrom {depth : Nat} (hDepth : path.segments.length = depth) :
    Keeps Builds (ensureDirectoryTreeFrom writer now depth path) s fun _ s' => IsDirectory s'.db path := by
  induction depth generalizing path s with
  | zero => exact keeps_pure (.inl (Path.ext (List.length_eq_zero_iff.mp hDepth)))
  | succ depth ih =>
    unfold ensureDirectoryTreeFrom
    rw [fromDb, keeps_reads_bind]
    cases hEntry : s.db.getEntry path with
    | some existing => exact keeps_require_bind _ fun hKind => keeps_pure (.inr ⟨existing, hEntry, by simpa using hKind⟩)
    | none =>
      have hParent : (parentOf path).segments.length = depth := by simp [parentOf, hDepth]
      exact (ih hParent).bind fun _ _ _ hHoused => builds_createDirectoryRow hHoused

theorem builds_ensureDirectoryTree :
    Keeps Builds (ensureDirectoryTree path writer now) s fun _ s' => IsDirectory s'.db path :=
  builds_ensureDirectoryTreeFrom rfl

theorem builds_ensureHome (memberName : Name) : Keeps Builds (ensureHome memberName now) s fun _ _ => True := by
  unfold ensureHome
  refine keeps_fromExcept_bind _ fun home hHome => ?_
  rw [mapError_eq_ok] at hHome
  have hSegments := home_of_name hHome
  have hParent : parentOf home = ROOT_PATH := Path.ext (by simp [parentOf, hSegments, ROOT_PATH])
  have hOwner : ownerOf home = some memberName.text := by
    simp only [ownerOf, hSegments]
    split
    · rename_i hObjectives
      rw [hObjectives]
    · rfl
  have hRow : directoryRow home memberName.text memberName.text now =
      ⟨home, ROOT_PATH, memberName.text, .directory, memberName.text, none, none, none, now, memberName.text, now⟩ := by
    simp [directoryRow, hParent, basenameOf, hSegments]
  rw [fromDb, keeps_reads_bind]
  cases hEntry : s.db.getEntry home with
  | some _ => exact keeps_pure trivial
  | none =>
    dsimp only
    rw [← hRow]
    exact (builds_row hEntry hOwner (.inl hParent)).mono (fun _ => id) fun _ _ _ _ => trivial

end Directories

/-! ## Files -/

/-- `decrementAndMaybeDropBlob` as a change of the store. -/
def dropRef (hash : String) (store : FilesystemStore) : FilesystemStore :=
  let db := decRef hash store.db
  if db.blobRefcount hash ≤ 0 then ⟨deleteZeroBlob hash db, store.deletes ++ [hash]⟩ else { store with db }

theorem ends_decrementAndMaybeDropBlob {hash : String} {s : FilesystemStore} {Q : Except Thrown Unit → FilesystemStore → Prop} :
    Ends (decrementAndMaybeDropBlob hash) s Q ↔ Q (.ok ()) (dropRef hash s) := by
  unfold decrementAndMaybeDropBlob dropRef
  rw [onDb, ends_update_bind, fromDb, ends_reads_bind]
  dsimp only
  split
  · exact Iff.rfl
  · exact Iff.rfl

def overwrite (path : Path) (content : Content) (now : Int) (prior : Option String) (store : FilesystemStore) : FilesystemStore :=
  let written := { store with
    db := incRef content.hash (updateEntryContent content.hash content.size content.mimeType now path store.db) }
  match prior with
  | none => written
  | some priorHash => if priorHash ≠ content.hash then dropRef priorHash written else written

theorem entries_overwrite (path : Path) (content : Content) (now : Int) (prior : Option String) (store : FilesystemStore) :
    (overwrite path content now prior store).db.entries =
      (updateEntryContent content.hash content.size content.mimeType now path store.db).entries := by
  unfold overwrite dropRef
  dsimp only
  split
  · rfl
  · split
    · split <;> rfl
    · rfl

def placeFile (row : FsEntryRow) (hash : String) (store : FilesystemStore) : FilesystemStore :=
  { store with db := incRef hash (withRow row store.db) }

structure Placed (collision : WriteCollisionStrategy) (db : Database) (path : Path) (placement : Placement) : Prop where
  replaces : ∀ existing, placement.existing = some existing → collision = .overwrite ∧ placement.path = path ∧
    db.getEntry path = some existing ∧ existing.kind = .file
  fresh : placement.existing = none → db.getEntry placement.path = none ∧ Goes collision db path placement.path

inductive Wrote (collision : WriteCollisionStrategy) (path : Path) (content : Content) (creator : String) (now : Int)
    (before : FilesystemStore) : FilesystemStore → Prop
  | overwritten {existing : FsEntryRow} (asked : collision = .overwrite) (found : before.db.getEntry path = some existing)
      (isFile : existing.kind = .file) :
      Wrote collision path content creator now before (overwrite path content now (truthy existing.contentHash) before)
  | created {target : Path} {owner : String} (goes : Goes collision before.db path target)
      (free : before.db.getEntry target = none) (owned : ownerOf target = some owner) :
      Wrote collision path content creator now before (placeFile (fileRow target owner content creator now) content.hash before)

section Files

variable {s : FilesystemStore} {path : Path} {now : Int} {content : Content} {creator : String} {collision : WriteCollisionStrategy}

theorem ends_resolveCollision (hFiled : Filed s.db) (hRoot : path ≠ ROOT_PATH) :
    Ends (resolveCollision collision path) s fun outcome s' =>
      s' = s ∧ ∀ placement, outcome = .ok placement → Placed collision s.db path placement := by
  have hError : ∀ e : Thrown, s = s ∧ ∀ placement, Except.error e = Except.ok placement → Placed collision s.db path placement :=
    fun _ => ⟨rfl, by rintro _ ⟨⟩⟩
  unfold resolveCollision
  rw [fromDb, ends_reads_bind]
  cases hEntry : s.db.getEntry path with
  | none =>
    refine ⟨rfl, ?_⟩
    rintro _ ⟨⟩
    exact ⟨by rintro _ ⟨⟩, fun _ => ⟨hEntry, .inl rfl⟩⟩
  | some existing =>
    refine ends_require_bind _ hError fun hKind => ?_
    have hFile : existing.kind = .file := by simpa using hKind
    cases collision with
    | error => exact hError _
    | overwrite =>
      refine ⟨rfl, ?_⟩
      rintro _ ⟨⟩
      refine ⟨fun _ hSame => ?_, by rintro ⟨⟩⟩
      cases hSame
      exact ⟨rfl, rfl, hEntry, hFile⟩
    | suffix =>
      dsimp only
      rw [fromDb, ends_reads_bind]
      refine ends_fromExcept_bind _ hError fun newName hName => ends_fromExcept_bind _ hError fun newPath hPath => ?_
      rw [mapError_eq_ok] at hName hPath
      have hParent : existing.parentPath = parentOf path := by
        rw [(hFiled path existing hEntry).parent, path_of_getEntry hEntry]
      rw [hParent] at hName hPath
      have hFree := (isFirstFree_iff hEntry hRoot newPath).mpr ⟨newName, hName, hPath⟩
      refine ⟨rfl, ?_⟩
      rintro _ ⟨⟩
      refine ⟨by rintro _ ⟨⟩, fun _ => ?_⟩
      obtain ⟨_, _, _, _, hNone, _⟩ := id hFree
      exact ⟨hNone, .inr ⟨rfl, ⟨existing, hEntry, hFile⟩, hFree⟩⟩

theorem ends_writeContent {placement : Placement} (hPlaced : Placed collision s.db path placement) :
    Ends (writeContent placement content creator now) s fun outcome s' =>
      match outcome with
      | .error _ => s' = s
      | .ok _ => Wrote collision path content creator now s s' := by
  obtain ⟨existing, target, renamed⟩ := placement
  unfold writeContent
  cases existing with
  | some existing =>
    obtain ⟨hAsked, rfl, hFound, hFile⟩ := hPlaced.replaces existing rfl
    have hWrote : Wrote collision target content creator now s _ := .overwritten hAsked hFound hFile
    unfold overwrite at hWrote
    dsimp only at hWrote ⊢
    rw [onDb, ends_update_bind, onDb, ends_update_bind]
    cases hPrior : truthy existing.contentHash with
    | none =>
      rw [hPrior] at hWrote
      exact hWrote
    | some priorHash =>
      rw [hPrior] at hWrote
      dsimp only at hWrote ⊢
      split
      · rename_i hNe
        rw [if_pos hNe] at hWrote
        exact ends_decrementAndMaybeDropBlob.mpr hWrote
      · rename_i hSame
        rw [if_neg hSame] at hWrote
        exact hWrote
  | none =>
    obtain ⟨hFree, hGoes⟩ := hPlaced.fresh rfl
    refine ends_present_bind _ (fun _ => rfl) fun owner hOwner => ?_
    unfold insertEntry
    rw [bind_assoc, fromDb, ends_reads_bind, bind_assoc]
    refine ends_require_bind _ (fun _ => rfl) fun _ => ?_
    exact .created hGoes hFree hOwner

theorem ends_withTx {α : Type} {program : FsM α} {Q : Except Thrown α → FilesystemStore → Prop}
    (h : Ends program s fun outcome s' =>
      match outcome with
      | .ok a => Q (.ok a) s'
      | .error e => Q (.error e) { s' with db := s.db }) : Ends (withTx program) s Q :=
  (ends_transaction _ _).mpr h

def placeTx (blobs : Database → Database) (collision : WriteCollisionStrategy) (path : Path) (content : Content) (creator : String)
    (now : Int) : FsM Placement := do
  let placement ← resolveCollision collision path
  onDb blobs
  writeContent placement content creator now
  return placement

variable {f : Database → Database}

theorem ends_placeTx (hEntries : ∀ db, (f db).entries = db.entries) (hFiled : Filed s.db)
    (hRoot : path ≠ ROOT_PATH) :
    Ends (placeTx f collision path content creator now) s fun outcome s' =>
      match outcome with
      | .error _ => s'.deletes = s.deletes
      | .ok _ => Wrote collision path content creator now { s with db := f s.db } s' := by
  unfold placeTx
  rw [ends_bind]
  refine Ends.imp (ends_resolveCollision hFiled hRoot) ?_
  rintro outcome after ⟨hSame, hPlaced⟩
  rw [hSame]
  cases outcome with
  | error e => rfl
  | ok placement =>
    dsimp only
    rw [onDb, ends_update_bind, ends_bind]
    have hGet : ∀ other, (f s.db).getEntry other = s.db.getEntry other := fun other => by rw [getEntry, hEntries]; rfl
    have hSame : Placed collision (f s.db) path placement := by
      obtain ⟨hOver, hFresh⟩ := hPlaced placement rfl
      refine ⟨fun existing hExisting => ?_, fun hNone => ?_⟩
      · rw [hGet]
        exact hOver existing hExisting
      · obtain ⟨hFree, hGoes⟩ := hFresh hNone
        refine ⟨(hGet _).trans hFree, hGoes.imp_right ?_⟩
        rintro ⟨hAsked, ⟨existing, hFound, hFile⟩, hFirst⟩
        refine ⟨hAsked, ⟨existing, (hGet _).trans hFound, hFile⟩, ?_⟩
        exact (AgreesBelow.isFirstFree fun other _ => hGet other).mpr hFirst
    refine Ends.imp (ends_writeContent hSame) ?_
    rintro (_ | _) s' hWritten
    · rw [hWritten]
    · exact hWritten

theorem ends_place (hEntries : ∀ db, (f db).entries = db.entries) (hFiled : Filed s.db)
    (hRoot : path ≠ ROOT_PATH) :
    Ends (withTx (placeTx f collision path content creator now)) s fun outcome s' =>
      match outcome with
      | .error _ => s' = s
      | .ok _ => Wrote collision path content creator now { s with db := f s.db } s' := by
  refine ends_withTx (Ends.imp (ends_placeTx hEntries hFiled hRoot) ?_)
  rintro (_ | _) s' hOutcome
  · exact congrArg (FilesystemStore.mk s.db) hOutcome
  · exact hOutcome

theorem ends_finishWriteFile {input : WriteFileInput} {put : PutResult} (hFiled : Filed s.db) (hRoot : path ≠ ROOT_PATH) :
    Ends (finishWriteFile input path now put) s fun _ s' =>
      s' = s ∨ Wrote (input.collision.getD .error) path ⟨put.hash, put.size, input.mimeType⟩ input.writer.name.text now
        { s with db := upsertBlob put.hash put.size now s.db } s' := by
  unfold finishWriteFile
  change Ends (withTx (placeTx (upsertBlob put.hash put.size now) _ path _ _ now) >>= _) s _
  rw [ends_bind]
  refine Ends.imp (ends_place (fun _ => rfl) hFiled hRoot) ?_
  rintro (_ | placement) s' hPlaced
  · exact .inl hPlaced
  · dsimp only
    rw [fromDb, ends_reads_bind]
    exact ends_present_bind _ (fun _ => .inr hPlaced) fun _ _ => .inr hPlaced

structure CopySource (acl : ObjectiveAcl) (input : CopyByBlobRefInput) (db : Database) (dst : Path) (content : Content) : Prop where
  normalized : normalizePath input.dst = .ok dst
  belowRoot : dst ≠ ROOT_PATH
  writable : canWrite acl dst input.viewer = true
  found : ∃ src row, normalizePath input.src = .ok src ∧ canRead acl src input.viewer db = true ∧ db.getEntry src = some row ∧
    row.kind = .file ∧ truthy row.contentHash = some content.hash

/-- A copy that goes through: the directory of its destination is there by then. -/
def Copied (acl : ObjectiveAcl) (input : CopyByBlobRefInput) (now : Int) (before after : FilesystemStore) : Prop :=
  ∃ built dst content, Builds before built ∧ IsDirectory built.db (parentOf dst) ∧ CopySource acl input before.db dst content ∧
    Wrote (input.collision.getD .error) dst content input.viewer.name.text now built after

structure CopyPlan where
  dst : Path
  content : Content

/-- `copyByBlobRef` up to its transaction. -/
def prepareCopy (acl : ObjectiveAcl) (input : CopyByBlobRefInput) (now : Int) : FsM CopyPlan := do
  let src ← valid (normalizePath input.src)
  let dst ← valid (normalizePath input.dst)
  require (dst ≠ ROOT_PATH) (failure .invalidInput "cannot copy to root")
  require (← fromDb (canRead acl src input.viewer)) (failure .forbidden s!"cannot read source: {src.render}")
  require (canWrite acl dst input.viewer) (failure .forbidden s!"cannot write to destination: {dst.render}")
  let srcRow ← present (← fromDb (getEntry · src)) (failure .notFound s!"no such source: {src.render}")
  require (srcRow.kind = .file) (failure .isADirectory s!"source is a directory: {src.render}")
  let hash ← present (truthy srcRow.contentHash) (failure .corrupt s!"source has no content: {src.render}")
  let size ← present srcRow.size (failure .corrupt s!"source has no content: {src.render}")
  let mimeType := (input.mimeType.or srcRow.mimeType).getD "application/octet-stream"
  let _ ← ensureDirectoryTree (parentOf dst) input.viewer now
  return ⟨dst, hash, size, mimeType⟩

theorem copyByBlobRef_eq (acl : ObjectiveAcl) (input : CopyByBlobRefInput) (now : Int) :
    copyByBlobRef acl input now = (do
      let plan ← prepareCopy acl input now
      let placement ← withTx (placeTx id (input.collision.getD .error) plan.dst plan.content input.viewer.name.text now)
      let row ← present (← fromDb (getEntry · placement.path))
        (failure .corrupt s!"entry vanished after copy: {placement.path.render}")
      return rowToEntry row) := by
  unfold copyByBlobRef prepareCopy
  simp only [bind_assoc, pure_bind]
  rfl

variable {acl : ObjectiveAcl} {input : CopyByBlobRefInput}

theorem builds_prepareCopy :
    Keeps Builds (prepareCopy acl input now) s fun plan built =>
      IsDirectory built.db (parentOf plan.dst) ∧ CopySource acl input s.db plan.dst plan.content := by
  unfold prepareCopy
  refine keeps_fromExcept_bind _ fun src hSrc => keeps_fromExcept_bind _ fun dst hDst => ?_
  rw [mapError_eq_ok] at hSrc hDst
  refine keeps_require_bind _ fun hRoot => ?_
  rw [fromDb, keeps_reads_bind]
  refine keeps_require_bind _ fun hRead => keeps_require_bind _ fun hWrite => ?_
  rw [fromDb, keeps_reads_bind]
  refine keeps_present_bind _ fun row hRow => keeps_require_bind _ fun hKind => ?_
  refine keeps_present_bind _ fun hash hHash => keeps_present_bind _ fun size _ => ?_
  have hBelow : dst ≠ ROOT_PATH := by simpa using hRoot
  refine builds_ensureDirectoryTree.bind fun _ built _ hHoused => keeps_pure ⟨hHoused, hDst, hBelow, hWrite, src, row, hSrc, hRead, hRow, ?_, hHash⟩
  simpa using hKind

theorem ends_copyByBlobRef (hFiled : Filed s.db) :
    Ends (copyByBlobRef acl input now) s fun _ s' => Builds s s' ∨ Copied acl input now s s' := by
  rw [copyByBlobRef_eq]
  refine builds_prepareCopy.ends_bind (fun plan built hBuilds hPlan => ?_) fun _ _ hBuilds => .inl hBuilds
  obtain ⟨hHoused, hSource⟩ := hPlan
  rw [ends_bind]
  refine Ends.imp (ends_place (fun _ => rfl) (hBuilds.1.filed hFiled) hSource.belowRoot) ?_
  rintro (_ | placement) s' hPlaced
  · refine .inl ?_
    rw [hPlaced]
    exact hBuilds
  · have hCopied : Copied acl input now s s' := ⟨built, plan.dst, plan.content, hBuilds, hHoused, hSource, hPlaced⟩
    dsimp only
    rw [fromDb, ends_reads_bind]
    exact ends_present_bind _ (fun _ => .inr hCopied) fun _ _ => .inr hCopied

end Files

/-! ## Calls -/

def removedRows (db : Database) (path : Path) (target : FsEntryRow) : List FsEntryRow :=
  match target.kind with
  | .file => [target]
  | .directory => listDescendants db path

def dropped (rows : List FsEntryRow) (store : FilesystemStore) : FilesystemStore :=
  let state := rows.foldl dropRow (store.db, [])
  ⟨state.1, store.deletes ++ state.2⟩

structure Removing (acl : ObjectiveAcl) (writer : ViewerContext) (raw : String) (db : Database) (path : Path) (target : FsEntryRow) :
    Prop where
  normalized : normalizePath raw = .ok path
  belowRoot : path ≠ ROOT_PATH
  writable : canWrite acl path writer = true
  found : db.getEntry path = some target

def relocate (src dst : Path) (now : Int) (row : FsEntryRow) (store : FilesystemStore) : FilesystemStore :=
  { store with db := deleteGrantsForPath src (carryGrants src dst (placeRow src (renamedRow dst now row) store.db)) }

structure Moving (acl : ObjectiveAcl) (writer : ViewerContext) (source destination : String) (src dst : Path) (row : FsEntryRow)
    (before built : FilesystemStore) : Prop where
  fromPath : normalizePath source = .ok src
  toPath : normalizePath destination = .ok dst
  writable : canWrite acl src writer = true ∧ canWrite acl dst writer = true
  builds : Builds before built
  found : before.db.getEntry src = some row
  isFile : row.kind = .file
  belowRoot : dst ≠ ROOT_PATH
  free : built.db.getEntry dst = none
  housed : IsDirectory built.db (parentOf dst)

section Calls

variable {acl : ObjectiveAcl} {viewer : ViewerContext} {now : Int} {s : FilesystemStore}

theorem builds_writeFile {input : WriteFileInput} : Keeps Builds (writeFile acl input now) s fun _ _ => True := by
  unfold writeFile
  refine keeps_fromExcept_bind _ fun path _ => keeps_require_bind _ fun _ => keeps_require_bind _ fun _ => ?_
  exact builds_ensureDirectoryTree.bind fun _ _ _ _ => keeps_pure trivial

variable {recursive : Bool}

theorem builds_mkdir {path : String} : Keeps Builds (mkdir acl path viewer recursive now) s fun _ _ => True := by
  unfold mkdir
  refine keeps_fromExcept_bind _ fun path _ => keeps_require_bind _ fun _ => keeps_require_bind _ fun _ => ?_
  split
  · exact builds_ensureDirectoryTree.mono (fun _ => id) fun _ _ _ _ => trivial
  · split
    · rename_i hParent
      exact (builds_createDirectoryRow (.inl hParent)).mono (fun _ => id) fun _ _ _ _ => trivial
    · dsimp only
      rw [fromDb, keeps_reads_bind]
      refine keeps_present_bind _ fun row hRow => keeps_require_bind _ fun hKind => ?_
      have hHoused : IsDirectory s.db (parentOf path) := .inr ⟨row, hRow, by simpa using hKind⟩
      exact (builds_createDirectoryRow hHoused).mono (fun _ => id) fun _ _ _ _ => trivial

theorem ends_remove {raw : String} :
    Ends (remove acl raw viewer recursive) s fun outcome s' =>
      match outcome with
      | .error _ => s' = s
      | .ok _ => ∃ path target, Removing acl viewer raw s.db path target ∧ s' = dropped (removedRows s.db path target) s := by
  have hError : ∀ _ : Thrown, s = s := fun _ => rfl
  unfold remove
  refine ends_fromExcept_bind _ hError fun path hPath => ends_require_bind _ hError fun hRoot => ?_
  rw [mapError_eq_ok] at hPath
  refine ends_require_bind _ hError fun hWrite => ?_
  rw [fromDb, ends_reads_bind]
  refine ends_present_bind _ hError fun target hTarget => ?_
  rw [ends_bind]
  have hRemoving : Removing acl viewer raw s.db path target := ⟨hPath, by simpa using hRoot, hWrite, hTarget⟩
  have hRows : ∀ rows, removedRows s.db path target = rows →
      ∃ path target, Removing acl viewer raw s.db path target ∧ dropped rows s = dropped (removedRows s.db path target) s := by
    rintro _ rfl
    exact ⟨path, target, hRemoving, rfl⟩
  refine ends_withTx ?_
  cases hKind : target.kind with
  | file => exact hRows [target] (by rw [removedRows, hKind])
  | directory =>
    dsimp only
    rw [fromDb, ends_reads_bind]
    refine ends_require_bind _ hError fun _ => ?_
    rw [fromDb, ends_reads_bind]
    exact hRows (listDescendants s.db path) (by rw [removedRows, hKind])

theorem ends_moveRow {src dst : Path} {row : FsEntryRow} (hRow : s.db.getEntry src = some row) :
    Ends (withTx (moveRow src dst now)) s fun outcome s' =>
      match outcome with
      | .error _ => s' = s
      | .ok _ => s.db.getEntry dst = none ∧ s' = relocate src dst now row s := by
  refine ends_withTx ?_
  unfold moveRow
  rw [fromDb, ends_reads_bind]
  refine ends_require_bind _ (fun _ => rfl) fun hFree => ?_
  rw [Option.isNone_iff_eq_none] at hFree
  unfold movePath
  rw [fromDb, bind_assoc, ends_reads_bind, hRow]
  dsimp only
  rw [bind_assoc, fromDb, ends_reads_bind, bind_assoc]
  refine ends_require_bind _ (fun _ => rfl) fun _ => ?_
  unfold copyGrants
  rw [onDb, ends_update_bind, bind_assoc, fromDb, ends_reads_bind, bind_assoc, fromDb, ends_reads_bind, bind_assoc]
  refine ends_require_bind _ (fun _ => rfl) fun _ => ?_
  exact ⟨hFree, rfl⟩

theorem ends_relocate {source destination : String} :
    Ends (move acl source destination viewer now) s fun _ s' =>
      Builds s s' ∨ ∃ src dst row built, Moving acl viewer source destination src dst row s built ∧
        s' = relocate src dst now row built := by
  have hError : ∀ _ : Thrown, Builds s s ∨
      ∃ src dst row built, Moving acl viewer source destination src dst row s built ∧ s = relocate src dst now row built :=
    fun _ => .inl (Std.Refl.refl s)
  unfold move
  refine ends_fromExcept_bind _ hError fun src hSrc => ends_fromExcept_bind _ hError fun dst hDst => ?_
  rw [mapError_eq_ok] at hSrc hDst
  split
  · rw [fromDb, ends_reads_bind]
    exact ends_present_bind _ hError fun _ _ => .inl (Std.Refl.refl s)
  · refine ends_require_bind _ hError fun hRoot => ends_require_bind _ hError fun hWrite => ?_
    refine ends_require_bind _ hError fun _ => ?_
    simp only [ne_eq, decide_not, Bool.and_eq_true, Bool.not_eq_true', decide_eq_false_iff_not] at hRoot hWrite
    rw [fromDb, ends_reads_bind]
    refine ends_present_bind _ hError fun row hRow => ends_require_bind _ hError fun hKind => ?_
    have hTree : Keeps Builds (ensureDirectoryTree (parentOf dst) viewer now) s _ := builds_ensureDirectoryTree
    refine hTree.ends_bind (fun _ built hBuilds hHoused => ?_) fun _ _ hBuilds => .inl hBuilds
    change Ends (withTx (moveRow src dst now) >>= _) built _
    rw [ends_bind]
    refine Ends.imp (ends_moveRow (hBuilds.1.getEntry hRow)) ?_
    rintro (_ | _) s' hOutcome
    · refine .inl ?_
      rw [hOutcome]
      exact hBuilds
    · have hMoving : Moving acl viewer source destination src dst row s built :=
        ⟨hSrc, hDst, hWrite, hBuilds, hRow, by simpa using hKind, hRoot.2, hOutcome.1, hHoused⟩
      have hMoved : ∃ src dst row built, Moving acl viewer source destination src dst row s built ∧
          s' = relocate src dst now row built := ⟨src, dst, row, built, hMoving, hOutcome.2⟩
      dsimp only
      rw [fromDb, ends_reads_bind]
      exact ends_present_bind _ (fun _ => .inr hMoved) fun _ _ => .inr hMoved

end Calls

/-! ## Steps -/

inductive Transition (desk : Desk) : Event → FilesystemStore → Prop
  | built {event : Event} {after : FilesystemStore} (builds : Builds desk.store after) : Transition desk event after
  | settled {index : Nat} {put : PutResult} {write : PendingWrite} {after : FilesystemStore}
      (waiting : desk.pending[index]? = some write)
      (wrote : Wrote (write.input.collision.getD .error) write.path ⟨put.hash, put.size, write.input.mimeType⟩
        write.input.writer.name.text write.now { desk.store with db := upsertBlob put.hash put.size write.now desk.store.db } after) :
      Transition desk (.putSettled index (.ok put)) after
  | copied {acl : ObjectiveAcl} {viewer : ViewerContext} {now : Int} {src dst : String} {mimeType : Option String}
      {collision : Option WriteCollisionStrategy} {after : FilesystemStore}
      (copied : Copied acl ⟨src, dst, mimeType, collision, viewer⟩ now desk.store after) :
      Transition desk (.call acl viewer now (.copyByBlobRef src dst mimeType collision)) after
  | removed {acl : ObjectiveAcl} {viewer : ViewerContext} {now : Int} {raw : String} {recursive : Bool} {path : Path}
      {target : FsEntryRow} (removing : Removing acl viewer raw desk.store.db path target) :
      Transition desk (.call acl viewer now (.remove raw recursive)) (dropped (removedRows desk.store.db path target) desk.store)
  | moved {acl : ObjectiveAcl} {viewer : ViewerContext} {now : Int} {source destination : String} {src dst : Path}
      {row : FsEntryRow} {built : FilesystemStore} (moving : Moving acl viewer source destination src dst row desk.store built) :
      Transition desk (.call acl viewer now (.move source destination)) (relocate src dst now row built)
  | granted {path viewer grantedVia : String} {now : Int} {grant : FsGrantRow} :
      Transition desk (.grant path viewer grantedVia now) { desk.store with db := insertGrant grant desk.store.db }

section Steps

variable {desk : Desk} {event : Event}

theorem transition_of_ends (h : Ends (event.program desk.pending) desk.store fun _ s' => Transition desk event s') :
    Transition desk event (serve desk event).1.store := by
  rw [serve_store]
  exact (ends_iff_run _).mp h

theorem transition_of_keeps (h : Keeps Builds (event.program desk.pending) desk.store fun _ _ => True) :
    Transition desk event (serve desk event).1.store :=
  transition_of_ends (Ends.imp h fun _ _ ⟨hBuilds, _⟩ => .built hBuilds)

theorem ends_reply {α : Type} {program : FsM α} {f : α → Reply} {s : FilesystemStore} {Q : FilesystemStore → Prop}
    (h : Ends program s fun _ s' => Q s') : Ends (program >>= fun a => pure (f a)) s fun _ s' => Q s' := by
  rw [ends_bind]
  refine Ends.imp h ?_
  rintro (_ | _) s' hQ
  · exact hQ
  · exact hQ

theorem transition_call (hServed : WellServed desk) (acl : ObjectiveAcl) (viewer : ViewerContext) (now : Int) (request : Call) :
    Transition desk (.call acl viewer now request) (serve desk (.call acl viewer now request)).1.store := by
  have hAsk : ∀ {α : Type} (query : Database → Except FsError α) (f : α → Reply),
      Keeps Builds (ask query >>= fun a => pure (f a)) desk.store fun _ _ => True := by
    intro α query f
    unfold ask
    rw [bind_assoc, fromDb, keeps_reads_bind]
    exact keeps_fromExcept_bind _ fun _ _ => keeps_pure trivial
  cases request with
  | stat => exact transition_of_keeps (hAsk _ _)
  | list => exact transition_of_keeps (hAsk _ _)
  | listShared => exact transition_of_keeps (hAsk _ _)
  | listAllFiles => exact transition_of_keeps (hAsk _ _)
  | openReadStream => exact transition_of_keeps (hAsk _ _)
  | copyByBlobRef src dst mimeType collision =>
    refine transition_of_ends (ends_reply (Ends.imp (ends_copyByBlobRef hServed.filed) ?_))
    rintro _ s' (hBuilds | hCopied)
    · exact .built hBuilds
    · exact .copied hCopied
  | writeFile path mimeType collision => exact transition_of_keeps (builds_writeFile.bind fun _ _ _ _ => keeps_pure trivial)
  | mkdir path recursive => exact transition_of_keeps (builds_mkdir.bind fun _ _ _ _ => keeps_pure trivial)
  | remove path recursive =>
    refine transition_of_ends (ends_reply (Ends.imp ends_remove ?_))
    rintro (_ | _) s' hOutcome
    · rw [hOutcome]
      exact .built (Std.Refl.refl desk.store)
    · obtain ⟨normalized, target, hRemoving, rfl⟩ := hOutcome
      exact .removed hRemoving
  | move source destination =>
    refine transition_of_ends (ends_reply (Ends.imp ends_relocate ?_))
    rintro _ s' (hBuilds | ⟨src, dst, row, built, hMoving, rfl⟩)
    · exact .built hBuilds
    · exact .moved hMoving

theorem transition_serve (hServed : WellServed desk) (event : Event) : Transition desk event (serve desk event).1.store := by
  cases event with
  | call acl viewer now request => exact transition_call hServed acl viewer now request
  | putSettled index put =>
    cases hWrite : desk.pending[index]? with
    | none =>
      refine transition_of_keeps ?_
      unfold Event.program
      dsimp only
      rw [hWrite]
      exact keeps_pure trivial
    | some write =>
      refine transition_of_ends ?_
      unfold Event.program
      dsimp only
      rw [hWrite]
      dsimp only
      unfold settle
      cases put with
      | error e => exact .built (Std.Refl.refl desk.store)
      | ok put =>
        have hRoot := (hServed.pending write (List.mem_of_getElem? hWrite)).1
        refine ends_reply (f := fun written : FsEntry × Bool => Reply.written written.1 written.2) ?_
        refine Ends.imp (ends_finishWriteFile hServed.filed hRoot) ?_
        rintro _ s' (hSame | hWrote)
        · rw [hSame]
          exact .built (Std.Refl.refl desk.store)
        · exact .settled hWrite hWrote
  | grant path viewer grantedVia now =>
    refine transition_of_ends (ends_reply (f := fun _ => Reply.done) ?_)
    unfold Files.grant
    refine ends_fromExcept_bind _ (fun _ => .built (Std.Refl.refl desk.store)) fun normalized _ => ?_
    refine ends_require_bind _ (fun _ => .built (Std.Refl.refl desk.store)) fun _ => ?_
    split
    · exact .built (Std.Refl.refl desk.store)
    · exact .granted
  | ensureHome memberName now => exact transition_of_keeps ((builds_ensureHome memberName).bind fun _ _ _ _ => keeps_pure trivial)

end Steps

end CommandSuite.Files
