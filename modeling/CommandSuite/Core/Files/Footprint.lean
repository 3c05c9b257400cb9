import CommandSuite.Core.Files.FilesystemStore

/-! # What the operations change

For each operation of the store: which entries may differ after it, whether it returned or failed.
Along the way every row stays filed under the parent, the name and the scope of its path.
-/

namespace CommandSuite.Files

open Library Fallible Database Table

/-- The columns that a row derives from its path. A moved file keeps the owner it had. -/
structure FiledRow (row : FsEntryRow) : Prop where
  belowRoot : row.path ≠ ROOT_PATH
  parent : row.parentPath = parentOf row.path
  name : row.name = basenameOf row.path
  owner : row.kind = .directory → ownerOf row.path = some row.owner

def Filed (db : Database) : Prop := ∀ path row, db.getEntry path = some row → FiledRow row

variable {db : Database} {row : FsEntryRow}

theorem path_of_getEntry {path : Path} (h : db.getEntry path = some row) :
    row.path = path :=
  key_of_find h

/-- `W` holds of what may change in any way, `A` of what may become a directory where nothing was. -/
structure Changes (W A : Path → Prop) (before after : Database) : Prop where
  filed : Filed before → Filed after
  changed : ∀ path, after.getEntry path = before.getEntry path ∨ W path ∨
    A path ∧ before.getEntry path = none ∧ ∃ row, after.getEntry path = some row ∧ row.kind = .directory

namespace Changes

variable {W A W' A' : Path → Prop} {before middle after : Database}

theorem refl (db : Database) : Changes W A db db := ⟨id, fun _ => .inl rfl⟩

theorem of_entries (h : after.entries = before.entries) : Changes W A before after := by
  have hEntry : ∀ path, after.getEntry path = before.getEntry path := by
    intro path
    rw [getEntry, h]
    rfl
  refine ⟨fun hFiled path row hRow => hFiled path row ?_, fun path => .inl (hEntry path)⟩
  rw [← hEntry path, hRow]

theorem trans (h : Changes W A before middle) (h' : Changes W A middle after) : Changes W A before after := by
  refine ⟨fun hFiled => h'.filed (h.filed hFiled), fun path => ?_⟩
  rcases h'.changed path with hSame | hWritten | ⟨hBuilt, hNone, hDirectory⟩
  · rw [hSame]
    exact h.changed path
  · exact .inr (.inl hWritten)
  · rcases h.changed path with hSame | hWritten | ⟨_, _, row, hRow, _⟩
    · exact .inr (.inr ⟨hBuilt, by rw [← hSame, hNone], hDirectory⟩)
    · exact .inr (.inl hWritten)
    · rw [hNone] at hRow
      cases hRow

theorem mono (h : Changes W A before after) (hW : ∀ path, W path → W' path) (hA : ∀ path, A path → A' path) :
    Changes W' A' before after :=
  ⟨h.filed, fun path => (h.changed path).imp_right (Or.imp (hW path) (And.imp_left (hA path)))⟩

end Changes

@[simp] theorem getEntry_deleteEntry (db : Database) (path other : Path) :
    (deleteEntry path db).getEntry other = if other = path then none else db.getEntry other := by
  have hFind := find_delete db.entries (fun row => row.path = path) other
  rw [getEntry, deleteEntry, hFind, ← getEntry]
  cases hEntry : db.getEntry other with
  | none => simp
  | some row =>
    have hPath := path_of_getEntry hEntry
    by_cases h : other = path <;> simp [Option.filter, hPath, h]

theorem getEntry_insert (h : db.getEntry row.path = none) (path : Path) :
    ({ db with entries := db.entries.insertOrIgnore row } : Database).getEntry path =
      if path = row.path then some row else db.getEntry path := by
  have hFind := find_insertOrIgnore db.entries row path
  rw [getEntry, hFind, ← getEntry]
  by_cases hPath : path = row.path
  · subst hPath
    simp [h]
  · simp [hPath, Ne.symm hPath]

section Statements

variable {W A : Path → Prop}

theorem Changes.of_insert {db : Database} {row : FsEntryRow} (h : db.getEntry row.path = none) (hRow : FiledRow row)
    (hAllowed : W row.path ∨ A row.path ∧ row.kind = .directory) :
    Changes W A db { db with entries := db.entries.insertOrIgnore row } := by
  refine ⟨fun hFiled path other hOther => ?_, fun path => ?_⟩
  · rw [getEntry_insert h] at hOther
    split at hOther
    · cases hOther
      exact hRow
    · exact hFiled path other hOther
  · rw [getEntry_insert h]
    split
    · rename_i hPath
      subst hPath
      exact .inr (hAllowed.imp_right fun ⟨hBuilt, hKind⟩ => ⟨hBuilt, h, row, rfl, hKind⟩)
    · exact .inl rfl

theorem Changes.of_deleteEntry {path : Path} (h : W path) (db : Database) : Changes W A db (deleteEntry path db) := by
  refine ⟨fun hFiled other row hRow => ?_, fun other => ?_⟩
  · rw [getEntry_deleteEntry] at hRow
    split at hRow
    · cases hRow
    · exact hFiled other row hRow
  · rw [getEntry_deleteEntry]
    split
    · rename_i hPath
      exact .inr (.inl (hPath ▸ h))
    · exact .inl rfl

theorem getEntry_updateEntryContent (hash : String) (size : Nat) (mimeType : String) (now : Int) (path : Path)
    (db : Database) (other : Path) :
    (updateEntryContent hash size mimeType now path db).getEntry other = (db.getEntry other).map fun row =>
      if row.path = path then
        { row with contentHash := some hash, size := some size, mimeType := some mimeType, updatedAt := now }
      else row := by
  have hFind := find_update db.entries (fun row => row.path = path)
    (fun row => { row with contentHash := some hash, size := some size, mimeType := some mimeType, updatedAt := now })
    (fun _ => rfl) other
  rw [getEntry, updateEntryContent, hFind]
  simp [getEntry]

theorem Changes.of_updateEntryContent {path : Path} (h : W path) (hash : String) (size : Nat) (mimeType : String) (now : Int)
    (db : Database) : Changes W A db (updateEntryContent hash size mimeType now path db) := by
  refine ⟨fun hFiled other row hRow => ?_, fun other => ?_⟩
  · rw [getEntry_updateEntryContent, Option.map_eq_some_iff] at hRow
    obtain ⟨prior, hPrior, rfl⟩ := hRow
    obtain ⟨hBelow, hParent, hName, hOwner⟩ := hFiled other prior hPrior
    split <;> exact ⟨hBelow, hParent, hName, hOwner⟩
  · rw [getEntry_updateEntryContent]
    by_cases hPath : other = path
    · exact .inr (.inl (hPath ▸ h))
    · refine .inl ?_
      cases hPrior : db.getEntry other with
      | none => rfl
      | some prior => rw [Option.map_some, if_neg (by rw [path_of_getEntry hPrior]; exact hPath)]

end Statements

def Footprint (W A : Path → Prop) (before after : FilesystemStore) : Prop := Changes W A before.db after.db

instance (W A : Path → Prop) : Std.Refl (Footprint W A) := ⟨fun store => .refl store.db⟩

instance (W A : Path → Prop) : IsTrans FilesystemStore (Footprint W A) := ⟨fun _ _ _ => Changes.trans⟩

section Programs

variable {W A : Path → Prop} {α : Type} {s : FilesystemStore} {P : α → FilesystemStore → Prop}

theorem keeps_fromDb_bind {β : Type} (f : Database → β) {next : β → FsM α}
    (h : Keeps (Footprint W A) (next (f s.db)) s P) : Keeps (Footprint W A) (fromDb f >>= next) s P := h

theorem keeps_valid_bind {β : Type} (value : Except FsError β) {next : β → FsM α}
    (h : ∀ b, value = .ok b → Keeps (Footprint W A) (next b) s P) : Keeps (Footprint W A) (valid value >>= next) s P := by
  refine keeps_fromExcept_bind _ fun b hOk => ?_
  cases value with
  | ok a =>
    cases hOk
    exact h b rfl
  | error e => cases hOk

theorem keeps_withTx {program : FsM α} (h : Keeps (Footprint W A) program s P) :
    Keeps (Footprint W A) (withTx program) s P :=
  h.transaction fun _ => .refl s.db

theorem keeps_onDb {P : Unit → FilesystemStore → Prop} {f : Database → Database} (h : Changes W A s.db (f s.db))
    (hP : P () { s with db := f s.db }) : Keeps (Footprint W A) (onDb f) s P :=
  keeps_update h hP

theorem keeps_insertEntry {row : FsEntryRow} (hRow : FiledRow row)
    (hAllowed : W row.path ∨ A row.path ∧ row.kind = .directory) :
    Keeps (Footprint W A) (insertEntry row) s fun _ s' => s'.db.getEntry row.path = some row := by
  refine keeps_fromDb_bind _ (keeps_require_bind _ fun hFree => ?_)
  rw [Option.isNone_iff_eq_none] at hFree
  refine keeps_onDb (.of_insert hFree hRow hAllowed) ?_
  rw [getEntry_insert hFree, if_pos rfl]

variable {path : Path} {now : Int} {owner creator : String}

theorem filed_directoryRow (h : ownerOf path = some owner) :
    FiledRow (directoryRow path owner creator now) where
  belowRoot := by
    rintro hRoot
    dsimp only [directoryRow] at hRoot
    rw [hRoot] at h
    cases h
  parent := rfl
  name := rfl
  owner _ := h

variable {writer : ViewerContext}

theorem keeps_createDirectoryRow (hBuilt : A path) :
    Keeps (Footprint W A) (createDirectoryRow path writer now) s fun entry _ => entry.path = path := by
  refine keeps_require_bind _ fun _ => keeps_fromDb_bind _ ?_
  cases hEntry : s.db.getEntry path with
  | some existing => exact keeps_require_bind _ fun _ => keeps_pure (path_of_getEntry hEntry)
  | none =>
    refine keeps_present_bind _ fun owner hOwner => ?_
    refine (keeps_insertEntry (filed_directoryRow hOwner) (.inr ⟨hBuilt, rfl⟩)).bind fun _ s' _ _ => ?_
    exact keeps_pure rfl

theorem keeps_ensureDirectoryTreeFrom {depth : Nat}
    (hDepth : path.segments.length = depth) (hBuilt : ∀ other, other.segments <+: path.segments → other ≠ ROOT_PATH → A other) :
    Keeps (Footprint W A) (ensureDirectoryTreeFrom writer now depth path) s fun entry _ =>
      entry.path = path ∧ (path ≠ ROOT_PATH → ∀ row, s.db.getEntry path = some row → row.kind = .directory) := by
  induction depth generalizing path s with
  | zero =>
    have hRoot : path = ROOT_PATH := Path.ext (List.length_eq_zero_iff.mp hDepth)
    exact keeps_pure ⟨hRoot.symm, fun hBelow => absurd hRoot hBelow⟩
  | succ depth ih =>
    have hRoot : path ≠ ROOT_PATH := by
      rintro rfl
      cases hDepth
    refine keeps_fromDb_bind _ ?_
    cases hEntry : s.db.getEntry path with
    | some existing =>
      refine keeps_require_bind _ fun hKind => keeps_pure ⟨path_of_getEntry hEntry, fun _ row hRow => ?_⟩
      cases hRow
      simpa using hKind
    | none =>
      have hParent : (parentOf path).segments.length = depth := by simp [parentOf, hDepth]
      refine (ih hParent fun other hOther hBelow => ?_).bind fun _ s' _ _ => ?_
      · exact hBuilt other (hOther.trans (List.dropLast_prefix _)) hBelow
      · refine (keeps_createDirectoryRow (hBuilt path (List.prefix_refl _) hRoot)).mono (fun _ => id) fun _ _ _ hPath => ?_
        refine ⟨hPath, fun _ row hRow => ?_⟩
        cases hRow

theorem keeps_ensureDirectoryTree (hBuilt : ∀ other, other.segments <+: path.segments → other ≠ ROOT_PATH → A other) :
    Keeps (Footprint W A) (ensureDirectoryTree path writer now) s fun entry _ =>
      entry.path = path ∧ (path ≠ ROOT_PATH → ∀ row, s.db.getEntry path = some row → row.kind = .directory) :=
  keeps_ensureDirectoryTreeFrom rfl hBuilt

/-- The sibling a collision moves to: the first of the numbered names that no entry has. -/
def IsFirstFree (db : Database) (path sibling : Path) : Prop :=
  ∃ i, 1 ≤ i ∧ i < 10000 ∧ siblingPath (parentOf path) (candidate (basenameOf path) i) = .ok sibling ∧
    db.getEntry sibling = none ∧
    ∀ j, 1 ≤ j → j < i → ∃ other row, siblingPath (parentOf path) (candidate (basenameOf path) j) = .ok other ∧
      db.getEntry other = some row

/-- `taken`, as `resolveCollision` asks it. -/
def isTaken (db : Database) (parent : Path) (name : String) : Except FsError Bool := do
  return (db.getEntry (← siblingPath parent name)).isSome

theorem isTaken_eq_ok_iff (db : Database) (parent : Path) (name : String) (answer : Bool) :
    isTaken db parent name = .ok answer ↔ ∃ path, siblingPath parent name = .ok path ∧ (db.getEntry path).isSome = answer := by
  unfold isTaken
  cases siblingPath parent name with
  | ok path =>
    constructor
    · intro h
      exact ⟨path, rfl, Except.ok.inj h⟩
    · rintro ⟨_, hPath, hAnswer⟩
      cases hPath
      exact congrArg Except.ok hAnswer
  | error e =>
    refine iff_of_false (by rintro ⟨⟩) ?_
    rintro ⟨_, hPath, _⟩
    cases hPath

theorem isFirstFree_iff {db : Database} {existing : FsEntryRow} (hEntry : db.getEntry path = some existing)
    (hRoot : path ≠ ROOT_PATH) (sibling : Path) :
    IsFirstFree db path sibling ↔ ∃ newName, dedupeBasename (basenameOf path) (isTaken db (parentOf path)) = .ok newName ∧
      siblingPath (parentOf path) newName = .ok sibling := by
  have hTaken : isTaken db (parentOf path) (basenameOf path) = .ok true := by
    rw [isTaken_eq_ok_iff]
    exact ⟨path, siblingPath_basenameOf hRoot, by rw [hEntry]; rfl⟩
  rw [dedupeBasename_of_taken hTaken]
  simp only [firstCandidate_eq_ok_iff, isTaken_eq_ok_iff]
  constructor
  · rintro ⟨i, hLow, hHigh, hSibling, hFree, hBefore⟩
    refine ⟨_, ⟨i, hLow, by omega, rfl, ⟨sibling, hSibling, by rw [hFree]; rfl⟩, fun j hFrom hTo => ?_⟩, hSibling⟩
    obtain ⟨other, row, hOther, hRow⟩ := hBefore j hFrom hTo
    exact ⟨other, hOther, by rw [hRow]; rfl⟩
  · rintro ⟨_, ⟨i, hLow, hHigh, rfl, ⟨other, hOther, hFree⟩, hBefore⟩, hSibling⟩
    rw [hSibling] at hOther
    cases hOther
    refine ⟨i, hLow, by omega, hSibling, by simpa using hFree, fun j hFrom hTo => ?_⟩
    obtain ⟨other, hOther, hSome⟩ := hBefore j hFrom hTo
    obtain ⟨row, hRow⟩ := Option.isSome_iff_exists.mp hSome
    exact ⟨other, row, hOther, hRow⟩

/-- Where a write may go: to its path, or on a collision that asks for a suffix to the first free sibling. -/
def Goes (collision : WriteCollisionStrategy) (db : Database) (path target : Path) : Prop :=
  target = path ∨
    collision = .suffix ∧ (∃ existing, db.getEntry path = some existing ∧ existing.kind = .file) ∧ IsFirstFree db path target

variable {collision : WriteCollisionStrategy}

theorem keeps_resolveCollision (hFiled : Filed s.db) (hRoot : path ≠ ROOT_PATH) :
    Keeps (Footprint W A) (resolveCollision collision path) s fun placement s' =>
      s' = s ∧ Goes collision s.db path placement.path := by
  refine keeps_fromDb_bind _ ?_
  cases hEntry : s.db.getEntry path with
  | none => exact keeps_pure ⟨rfl, .inl rfl⟩
  | some existing =>
    refine keeps_require_bind _ fun hKind => ?_
    cases collision with
    | error => exact keeps_throw _
    | overwrite => exact keeps_pure ⟨rfl, .inl rfl⟩
    | suffix =>
      refine keeps_fromDb_bind _ (keeps_valid_bind _ fun newName hName => keeps_valid_bind _ fun newPath hPath => ?_)
      have hParent : existing.parentPath = parentOf path := by
        rw [(hFiled path existing hEntry).parent, path_of_getEntry hEntry]
      rw [hParent] at hName hPath
      refine keeps_pure ⟨rfl, .inr ⟨rfl, ⟨existing, hEntry, by simpa using hKind⟩, ?_⟩⟩
      exact (isFirstFree_iff hEntry hRoot newPath).mpr ⟨newName, hName, hPath⟩

theorem keeps_entries {P : Unit → FilesystemStore → Prop} {f : FilesystemStore → FilesystemStore}
    (h : (f s).db.entries = s.db.entries) (hP : P () (f s)) : Keeps (Footprint W A) (update f : FsM Unit) s P := by
  have hState : Footprint W A s (f s) := Changes.of_entries h
  exact keeps_update hState hP

theorem keeps_decrementAndMaybeDropBlob (hash : String) :
    Keeps (Footprint W A) (decrementAndMaybeDropBlob hash) s fun _ s' => s'.db.entries = s.db.entries := by
  refine Keeps.bind (M := fun _ s' => s'.db.entries = s.db.entries) (keeps_entries rfl rfl) fun _ s₁ _ hFirst => ?_
  refine keeps_fromDb_bind _ ?_
  split
  · refine Keeps.bind (M := fun _ s' => s'.db.entries = s.db.entries) (keeps_entries rfl hFirst) fun _ s₂ _ hSecond => ?_
    exact keeps_entries rfl hSecond
  · exact keeps_pure hFirst

variable {content : Content}

theorem filed_fileRow (h : ownerOf path = some owner) :
    FiledRow (fileRow path owner content creator now) where
  belowRoot := by
    rintro hRoot
    dsimp only [fileRow] at hRoot
    rw [hRoot] at h
    cases h
  parent := rfl
  name := rfl
  owner := by
    rintro ⟨⟩

theorem keeps_writeContent {placement : Placement} {creator : String}
    (h : W placement.path) : Keeps (Footprint W A) (writeContent placement content creator now) s fun _ _ => True := by
  unfold writeContent
  cases placement.existing with
  | some existing =>
    refine Keeps.bind (M := fun _ _ => True) (keeps_onDb (.of_updateEntryContent h _ _ _ _ _) trivial) fun _ s₁ _ _ => ?_
    refine Keeps.bind (M := fun _ _ => True) (keeps_entries rfl trivial) fun _ s₂ _ _ => ?_
    cases truthy existing.contentHash with
    | none => exact keeps_pure trivial
    | some priorHash =>
      dsimp only
      split
      · exact (keeps_decrementAndMaybeDropBlob priorHash).mono (fun _ => id) fun _ _ _ _ => trivial
      · exact keeps_pure trivial
  | none =>
    refine keeps_present_bind _ fun owner hOwner => ?_
    refine (keeps_insertEntry (filed_fileRow hOwner) (.inl h)).bind fun _ s₁ _ _ => ?_
    exact keeps_entries rfl trivial

theorem keeps_finishWriteFile {input : WriteFileInput} {normalized : Path} {put : PutResult}
    (hFiled : Filed s.db) (hRoot : normalized ≠ ROOT_PATH)
    (hGoes : ∀ target, Goes (input.collision.getD .error) s.db normalized target → W target) :
    Keeps (Footprint W A) (finishWriteFile input normalized now put) s fun result _ => W result.1.path := by
  refine Keeps.bind (M := fun placement _ => W placement.path) (keeps_withTx ?_) fun placement s₁ _ hPlaced => ?_
  · refine (keeps_resolveCollision hFiled hRoot).bind ?_
    rintro placement _ _ ⟨rfl, hPlaced⟩
    refine Keeps.bind (M := fun _ _ => True) (keeps_entries rfl trivial) fun _ s₂ _ _ => ?_
    refine (keeps_writeContent (hGoes _ hPlaced)).bind fun _ s₃ _ _ => ?_
    exact keeps_pure (hGoes _ hPlaced)
  · refine keeps_fromDb_bind _ (keeps_present_bind _ fun row hRow => keeps_pure ?_)
    rw [path_rowToEntry, path_of_getEntry hRow]
    exact hPlaced

def IsAncestor (target path : Path) : Prop := path.segments <+: target.segments ∧ path ≠ ROOT_PATH

def AgreesBelow (parent : Path) (before after : Database) : Prop :=
  ∀ path, ¬path.segments <+: parent.segments → after.getEntry path = before.getEntry path

theorem keeps_ensureParent {target : Path} :
    Keeps (Footprint W (IsAncestor target)) (ensureDirectoryTree (parentOf target) writer now) s fun _ s' =>
      AgreesBelow (parentOf target) s.db s'.db ∧
        (parentOf target ≠ ROOT_PATH → ∀ row, s.db.getEntry (parentOf target) = some row → row.kind = .directory) := by
  have hTree : Keeps (Footprint (fun _ => False) (IsAncestor (parentOf target)))
      (ensureDirectoryTree (parentOf target) writer now) s _ :=
    keeps_ensureDirectoryTree fun _ hOther hBelow => ⟨hOther, hBelow⟩
  refine hTree.mono (fun _ hChanges => ?_) fun _ s' hChanges hTree => ⟨fun path hBelow => ?_, hTree.2⟩
  · exact hChanges.mono (fun _ => False.elim) fun _ ⟨hPrefix, hRoot⟩ => ⟨hPrefix.trans (List.dropLast_prefix _), hRoot⟩
  · rcases hChanges.changed path with hSame | hFalse | ⟨⟨hPrefix, _⟩, _⟩
    · exact hSame
    · exact hFalse.elim
    · exact absurd hPrefix hBelow

theorem not_prefix_parentOf (h : path ≠ ROOT_PATH) : ¬path.segments <+: (parentOf path).segments := by
  intro hPrefix
  have hLength := hPrefix.length_le
  have hSome : path.segments ≠ [] := fun hNil => h (Path.ext hNil)
  have hPos := List.length_pos_of_ne_nil hSome
  simp only [parentOf, List.length_dropLast] at hLength
  omega

theorem not_prefix_of_candidate {parent sibling : Path} {name : String} {i : Nat}
    (h : siblingPath parent (candidate name i) = .ok sibling) : ¬sibling.segments <+: parent.segments := by
  intro hPrefix
  have hLength := hPrefix.length_le
  have hPos := List.length_pos_of_ne_nil (segmentsOf_candidate_ne_nil name i)
  rw [segments_of_siblingPath h, List.length_append] at hLength
  omega

variable {before after : Database}

theorem AgreesBelow.isFirstFree {path sibling : Path} (h : AgreesBelow (parentOf path) before after) :
    IsFirstFree after path sibling ↔ IsFirstFree before path sibling := by
  refine exists_congr fun i => and_congr_right fun _ => and_congr_right fun _ => and_congr_right fun hSibling => ?_
  rw [h sibling (not_prefix_of_candidate hSibling)]
  refine and_congr_right fun _ => forall_congr' fun j => imp_congr_right fun _ => imp_congr_right fun _ => ?_
  refine exists_congr fun other => exists_congr fun row => and_congr_right fun hOther => ?_
  rw [h other (not_prefix_of_candidate hOther)]

theorem AgreesBelow.goes {path target : Path}
    (h : AgreesBelow (parentOf path) before after) (hRoot : path ≠ ROOT_PATH) :
    Goes collision after path target ↔ Goes collision before path target := by
  rw [Goes, Goes, h.isFirstFree, h path (not_prefix_parentOf hRoot)]

theorem entries_dropRow (state : Database × List String) (row : FsEntryRow) :
    (dropRow state row).1.entries = (deleteEntry row.path state.1).entries := by
  unfold dropRow
  dsimp only
  split
  · split <;> rfl
  · rfl

theorem getEntry_dropRows (rows : List FsEntryRow) (state : Database × List String) (path : Path) :
    (rows.foldl dropRow state).1.getEntry path = if path ∈ rows.map FsEntryRow.path then none else state.1.getEntry path := by
  induction rows generalizing state with
  | nil => rfl
  | cons row rows ih =>
    have hEntry : (dropRow state row).1.getEntry path = (deleteEntry row.path state.1).getEntry path := by
      rw [getEntry, entries_dropRow]
      rfl
    rw [List.foldl_cons, ih, hEntry, getEntry_deleteEntry]
    by_cases hHead : path = row.path <;> simp [hHead]

variable {rows : List FsEntryRow}

theorem Changes.of_dropRows (h : ∀ row ∈ rows, W row.path) (state : Database × List String) :
    Changes W A state.1 (rows.foldl dropRow state).1 := by
  refine ⟨fun hFiled path row hRow => ?_, fun path => ?_⟩
  · rw [getEntry_dropRows] at hRow
    split at hRow
    · cases hRow
    · exact hFiled path row hRow
  · rw [getEntry_dropRows]
    split
    · rename_i hMem
      obtain ⟨row, hRow, rfl⟩ := List.mem_map.mp hMem
      exact .inr (.inl (h row hRow))
    · exact .inl rfl

theorem keeps_dropRows (h : ∀ row ∈ rows, W row.path) :
    Keeps (Footprint W A) (dropRows rows) s fun _ _ => True :=
  ⟨Changes.of_dropRows h (s.db, []), fun _ _ => trivial⟩

theorem mem_listDescendants (db : Database) (path : Path) (row : FsEntryRow) :
    row ∈ listDescendants db path ↔ db.getEntry row.path = some row ∧ isListedBelow path row = true := by
  rw [listDescendants, List.mem_insertionSort, mem_select_iff_find]
  rfl

variable {dst src : Path}

theorem keeps_movePath (hDst : W dst) (hSrc : W src) (hRoot : dst ≠ ROOT_PATH)
    (hFile : ∀ row, s.db.getEntry src = some row → row.kind = .file) :
    Keeps (Footprint W A) (movePath dst (parentOf dst) (basenameOf dst) now src) s fun _ _ => True := by
  refine keeps_fromDb_bind _ ?_
  cases hEntry : s.db.getEntry src with
  | none => exact keeps_pure trivial
  | some row =>
    refine keeps_fromDb_bind _ (keeps_require_bind _ fun hFree => keeps_onDb ?_ trivial)
    have hDeleted : (deleteEntry src s.db).getEntry dst = none := by
      rw [getEntry_deleteEntry]
      split
      · rfl
      · rename_i hOther
        simpa [hOther] using hFree
    have hKind := hFile row hEntry
    refine (Changes.of_deleteEntry hSrc s.db).trans (Changes.of_insert hDeleted ⟨hRoot, rfl, rfl, ?_⟩ (.inl hDst))
    intro hDirectory
    rw [hKind] at hDirectory
    cases hDirectory

theorem entries_foldl_insertGrant (grants : List FsGrantRow) (db : Database) :
    (grants.foldl (fun db grant => insertGrant grant db) db).entries = db.entries := by
  induction grants generalizing db with
  | nil => rfl
  | cons grant grants ih => exact ih _

theorem blobs_foldl_insertGrant (grants : List FsGrantRow) (db : Database) :
    (grants.foldl (fun db grant => insertGrant grant db) db).blobs = db.blobs := by
  induction grants generalizing db with
  | nil => rfl
  | cons grant grants ih => exact ih _

theorem keeps_copyGrants : Keeps (Footprint W A) (copyGrants dst src) s fun _ _ => True := by
  refine keeps_fromDb_bind _ (keeps_fromDb_bind _ (keeps_require_bind _ fun _ => ?_))
  exact keeps_entries (entries_foldl_insertGrant _ _) trivial

end Programs

section Operations

variable {acl : ObjectiveAcl} {viewer : ViewerContext} {now : Int} {s : FilesystemStore}

/-- The missing ancestors of a call's target where the target may be written. -/
def MayBuild (acl : ObjectiveAcl) (viewer : ViewerContext) (target : Option Path) (path : Path) : Prop :=
  ∃ other, target = some other ∧ canWrite acl other viewer = true ∧ IsAncestor other path

/-- The footprint of a call to this target: what `W` allows, and ancestors. -/
abbrev Allowed (W : Path → Prop) (acl : ObjectiveAcl) (viewer : ViewerContext) (target : Option Path) :
    FilesystemStore → FilesystemStore → Prop :=
  Footprint W (MayBuild acl viewer target)

abbrev MayWrite (acl : ObjectiveAcl) (viewer : ViewerContext) (path : Path) : Prop := canWrite acl path viewer = true

variable {W : Path → Prop}

theorem allowed_of_footprint {target : Path} (h : canWrite acl target viewer = true) {s' : FilesystemStore}
    (hFootprint : Footprint W (IsAncestor target) s s') : Allowed W acl viewer (some target) s s' :=
  hFootprint.mono (fun _ => id) fun _ hAncestor => ⟨target, rfl, h, hAncestor⟩

theorem keeps_writeFile {input : WriteFileInput} :
    Keeps (Allowed W acl input.writer (normalizePath input.path).toOption) (writeFile acl input now) s fun path _ =>
      path ≠ ROOT_PATH ∧ canWrite acl path input.writer = true := by
  refine keeps_valid_bind _ fun path hPath => keeps_require_bind _ fun hRoot => keeps_require_bind _ fun hWrite => ?_
  rw [hPath]
  refine Keeps.bind (M := fun _ _ => True) (keeps_ensureParent.mono (fun _ => allowed_of_footprint hWrite)
    fun _ _ _ _ => trivial) fun _ s₁ _ _ => ?_
  exact keeps_pure ⟨by simpa using hRoot, hWrite⟩

variable {recursive : Bool}

theorem keeps_mkdir {path : String} :
    Keeps (Allowed W acl viewer (normalizePath path).toOption) (mkdir acl path viewer recursive now) s fun entry _ =>
      canWrite acl entry.path viewer = true := by
  refine keeps_valid_bind _ fun path hPath => keeps_require_bind _ fun hRoot => keeps_require_bind _ fun hWrite => ?_
  rw [hPath]
  have hSelf : IsAncestor path path := ⟨List.prefix_refl _, by simpa using hRoot⟩
  have hWritten : ∀ (entry : FsEntry) (s' : FilesystemStore), Footprint W (IsAncestor path) s s' → entry.path = path → canWrite acl entry.path viewer = true := by
    rintro entry _ _ rfl
    exact hWrite
  split
  · exact (keeps_ensureDirectoryTree fun _ hOther hBelow => ⟨hOther, hBelow⟩).mono (fun _ => allowed_of_footprint hWrite)
      fun entry s' hState hTree => hWritten entry s' hState hTree.1
  · split
    · exact (keeps_createDirectoryRow hSelf).mono (fun _ => allowed_of_footprint hWrite) hWritten
    · refine keeps_fromDb_bind _ (keeps_present_bind _ fun _ _ => keeps_require_bind _ fun _ => ?_)
      exact (keeps_createDirectoryRow hSelf).mono (fun _ => allowed_of_footprint hWrite) hWritten

/-- The checks of `copyByBlobRef`, with no file where the destination's directory should be. -/
structure Copies (acl : ObjectiveAcl) (input : CopyByBlobRefInput) (db : Database) (dst : Path) : Prop where
  normalized : normalizePath input.dst = .ok dst
  belowRoot : dst ≠ ROOT_PATH
  writable : canWrite acl dst input.viewer = true
  source : ∃ src row hash size, normalizePath input.src = .ok src ∧ canRead acl src input.viewer db = true ∧
    db.getEntry src = some row ∧ row.kind = .file ∧ truthy row.contentHash = some hash ∧ row.size = some size
  parent : ∀ row, db.getEntry (parentOf dst) = some row → row.kind = .directory

theorem keeps_copyByBlobRef {input : CopyByBlobRefInput} (hFiled : Filed s.db)
    (hGoes : ∀ dst target, Copies acl input s.db dst → Goes (input.collision.getD .error) s.db dst target → W target) :
    Keeps (Allowed W acl input.viewer (normalizePath input.dst).toOption) (copyByBlobRef acl input now) s fun entry _ =>
      W entry.path := by
  refine keeps_valid_bind _ fun src hSrc => keeps_valid_bind _ fun dst hDst => keeps_require_bind _ fun hRoot => ?_
  refine keeps_fromDb_bind _ (keeps_require_bind _ fun hRead => keeps_require_bind _ fun hWrite => ?_)
  refine keeps_fromDb_bind _ (keeps_present_bind _ fun row hRow => keeps_require_bind _ fun hKind => ?_)
  refine keeps_present_bind _ fun hash hHash => keeps_present_bind _ fun size hSize => ?_
  have hBelow : dst ≠ ROOT_PATH := by simpa using hRoot
  rw [hDst]
  refine Keeps.bind (keeps_ensureParent.mono (fun _ => allowed_of_footprint hWrite) fun _ _ _ => id)
    fun _ s₁ hState ⟨hAgrees, hDirectory⟩ => ?_
  have hCopies : Copies acl input s.db dst := by
    refine ⟨hDst, hBelow, hWrite, ⟨src, row, hash, size, hSrc, hRead, hRow, by simpa using hKind, hHash, hSize⟩, ?_⟩
    intro parent hParent
    refine hDirectory ?_ parent hParent
    rw [← path_of_getEntry hParent]
    exact (hFiled _ _ hParent).belowRoot
  refine Keeps.bind (M := fun placement _ => W placement.path) (keeps_withTx ?_)
    fun placement s₂ _ hPlaced => ?_
  · refine (keeps_resolveCollision (hState.filed hFiled) hBelow).bind ?_
    rintro placement _ _ ⟨rfl, hPlaced⟩
    have hTarget := hGoes dst _ hCopies ((hAgrees.goes hBelow).mp hPlaced)
    exact (keeps_writeContent hTarget).bind fun _ s₃ _ _ => keeps_pure hTarget
  · refine keeps_fromDb_bind _ (keeps_present_bind _ fun copied hCopied => keeps_pure ?_)
    rw [path_rowToEntry, path_of_getEntry hCopied]
    exact hPlaced

/-- The directory a `remove` walks, when its checks pass. -/
structure Removes (acl : ObjectiveAcl) (viewer : ViewerContext) (raw : String) (recursive : Bool) (db : Database) (path : Path) :
    Prop where
  normalized : normalizePath raw = .ok path
  belowRoot : path ≠ ROOT_PATH
  writable : canWrite acl path viewer = true
  directory : ∃ row, db.getEntry path = some row ∧ row.kind = .directory
  empty : recursive = true ∨ ∀ other row, db.getEntry other = some row → row.parentPath ≠ path

theorem listChildren_isEmpty_iff (db : Database) (path : Path) :
    (listChildren db path).isEmpty = true ↔ ∀ other row, db.getEntry other = some row → row.parentPath ≠ path := by
  rw [List.isEmpty_iff, List.eq_nil_iff_forall_not_mem]
  simp only [listChildren, List.mem_insertionSort, mem_select_iff_find, decide_eq_true_eq]
  constructor
  · rintro h other row hRow rfl
    refine h row ⟨?_, rfl⟩
    rw [path_of_getEntry hRow]
    exact hRow
  · rintro h row ⟨hRow, hParent⟩
    exact h _ row hRow hParent

theorem keeps_remove {raw : String} {target : Option Path}
    (hBelow : ∀ path row, Removes acl viewer raw recursive s.db path → s.db.getEntry row.path = some row →
      isListedBelow path row = true → W row.path)
    (hSelf : ∀ path, normalizePath raw = .ok path → canWrite acl path viewer = true → W path) :
    Keeps (Allowed W acl viewer target) (remove acl raw viewer recursive) s fun _ _ => True := by
  refine keeps_valid_bind _ fun path hPath => keeps_require_bind _ fun hRoot => keeps_require_bind _ fun hWrite => ?_
  refine keeps_fromDb_bind _ (keeps_present_bind _ fun row hRow => ?_)
  refine Keeps.bind (M := fun _ _ => True) (keeps_withTx ?_) fun dropped s₁ _ _ => keeps_entries rfl trivial
  cases hKind : row.kind with
  | file =>
    refine keeps_dropRows fun other hOther => ?_
    rw [List.mem_singleton.mp hOther, path_of_getEntry hRow]
    exact hSelf path hPath hWrite
  | directory =>
    refine keeps_fromDb_bind _ (keeps_require_bind _ fun hEmpty => keeps_fromDb_bind _ (keeps_dropRows fun other hOther => ?_))
    rw [Bool.or_eq_true, listChildren_isEmpty_iff] at hEmpty
    obtain ⟨hOther, hListed⟩ := (mem_listDescendants _ _ _).mp hOther
    exact hBelow path other ⟨hPath, by simpa using hRoot, hWrite, ⟨row, hRow, hKind⟩, hEmpty.symm⟩ hOther hListed

theorem keeps_move {source destination : String} :
    Keeps (Allowed (MayWrite acl viewer) acl viewer (normalizePath destination).toOption) (move acl source destination viewer now) s fun entry _ =>
      (normalizePath source = .ok entry.path ∧ normalizePath destination = .ok entry.path ∧ (s.db.getEntry entry.path).isSome) ∨
        canWrite acl entry.path viewer = true := by
  refine keeps_valid_bind _ fun src hSrc => keeps_valid_bind _ fun dst hDst => ?_
  rw [hSrc, hDst]
  split
  · rename_i hSame
    refine keeps_fromDb_bind _ (keeps_present_bind _ fun row hRow => keeps_pure (.inl ?_))
    rw [path_rowToEntry, path_of_getEntry hRow, hSame]
    refine ⟨rfl, rfl, ?_⟩
    rw [← hSame, hRow]
    rfl
  · refine keeps_require_bind _ fun hRoot => keeps_require_bind _ fun hWrite => keeps_require_bind _ fun hOutside => ?_
    simp only [ne_eq, decide_not, Bool.and_eq_true, Bool.not_eq_true', decide_eq_false_iff_not] at hRoot hWrite hOutside
    refine keeps_fromDb_bind _ (keeps_present_bind _ fun row hRow => keeps_require_bind _ fun hKind => ?_)
    refine Keeps.bind (keeps_ensureParent.mono (fun _ => allowed_of_footprint hWrite.2) fun _ _ _ => id)
      fun _ s₁ _ ⟨hAgrees, _⟩ => ?_
    have hSrcRow : s₁.db.getEntry src = some row := by
      rw [hAgrees src ?_, hRow]
      intro hPrefix
      rw [(isAncestorPath_iff src dst).mpr (hPrefix.trans (List.dropLast_prefix _))] at hOutside
      cases hOutside
    refine Keeps.bind (M := fun _ _ => True) (keeps_withTx ?_) fun _ s₂ _ _ => ?_
    · refine keeps_fromDb_bind _ (keeps_require_bind _ fun _ => ?_)
      refine (keeps_movePath hWrite.2 hWrite.1 hRoot.2 fun other hOther => ?_).bind fun _ s₃ _ _ => ?_
      · rw [hSrcRow] at hOther
        cases hOther
        simpa using hKind
      · exact keeps_copyGrants.bind fun _ s₄ _ _ => keeps_entries rfl trivial
    · refine keeps_fromDb_bind _ (keeps_present_bind _ fun moved hMoved => keeps_pure (.inr ?_))
      rw [path_rowToEntry, path_of_getEntry hMoved]
      exact hWrite.2

theorem keeps_grant {W A : Path → Prop} {path grantee grantedVia : String} :
    Keeps (Footprint W A) (grant path grantee grantedVia now) s fun _ _ => True := by
  refine keeps_valid_bind _ fun _ _ => keeps_require_bind _ fun _ => ?_
  split
  · exact keeps_pure trivial
  · exact keeps_entries rfl trivial

variable {memberName : Name}

theorem home_of_name {home : Path} (h : joinPath ["/", memberName.text] = .ok home) : home.segments = [memberName.text] := by
  have hName : segmentsOf memberName.text = [memberName.text] := by
    rw [segmentsOf, Text.split_of_not_mem '/' (memberName.not_mem_of_not_nameCharacter (by decide)),
      List.filter_cons_of_pos (by simpa using memberName.text_ne_empty)]
    rfl
  rw [segments_of_joinPath h, List.flatMap_cons, List.flatMap_singleton, hName]
  rfl

theorem keeps_ensureHome : Keeps (Footprint (fun _ => True) fun _ => False) (ensureHome memberName now) s fun _ _ => True := by
  refine keeps_valid_bind _ fun home hHome => keeps_fromDb_bind _ ?_
  have hSegments := home_of_name hHome
  cases s.db.getEntry home with
  | some _ => exact keeps_pure trivial
  | none =>
    refine (keeps_insertEntry ⟨?_, ?_, ?_, fun _ => ?_⟩ (.inl trivial)).mono (fun _ => id) fun _ _ _ _ => trivial
    · rintro rfl
      cases hSegments
    · exact Path.ext (by simp [parentOf, hSegments, ROOT_PATH])
    · simp [basenameOf, hSegments]
    · simp only [ownerOf, hSegments]
      split
      · rename_i hObjectives
        rw [hObjectives]
      · rfl

end Operations

end CommandSuite.Files
