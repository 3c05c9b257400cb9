import CommandSuite.Core.Files.Calls
import CommandSuite.Core.Files.Footprint

/-! # Where entries and grants come from

Most operations only add entries. A removal takes the grants of what it removes, and a move takes them along.
-/

namespace CommandSuite.Files

open Library Fallible Database

/-! ## Growing -/

structure Grows (before after : Database) : Prop where
  entries : ∀ path row, before.getEntry path = some row → ∃ row', after.getEntry path = some row' ∧ row'.kind = row.kind
  grants : after.grants = before.grants

namespace Grows

variable {before middle after : Database}

theorem refl (db : Database) : Grows db db := ⟨fun _ row hRow => ⟨row, hRow, rfl⟩, rfl⟩

theorem trans (h : Grows before middle) (h' : Grows middle after) : Grows before after := by
  refine ⟨fun path row hRow => ?_, h'.grants.trans h.grants⟩
  obtain ⟨next, hNext, hKind⟩ := h.entries path row hRow
  obtain ⟨last, hLast, hSame⟩ := h'.entries path next hNext
  exact ⟨last, hLast, hSame.trans hKind⟩

theorem of_entries (h : after.entries = before.entries) (hGrants : after.grants = before.grants) : Grows before after := by
  refine ⟨fun path row hRow => ⟨row, ?_, rfl⟩, hGrants⟩
  rw [getEntry, h]
  exact hRow

theorem of_insert {db : Database} {row : FsEntryRow} (h : db.getEntry row.path = none) :
    Grows db { db with entries := db.entries.insertOrIgnore row } := by
  refine ⟨fun path other hOther => ?_, rfl⟩
  rw [getEntry_insert h]
  split
  · rename_i hPath
    rw [hPath, h] at hOther
    cases hOther
  · exact ⟨other, hOther, rfl⟩

theorem of_updateEntryContent (hash : String) (size : Nat) (mimeType : String) (now : Int) (path : Path) (db : Database) :
    Grows db (updateEntryContent hash size mimeType now path db) := by
  refine ⟨fun other row hRow => ?_, rfl⟩
  rw [getEntry_updateEntryContent, hRow, Option.map_some]
  split
  · exact ⟨_, rfl, rfl⟩
  · exact ⟨row, rfl, rfl⟩

end Grows

def GrowsStore (before after : FilesystemStore) : Prop := Grows before.db after.db

instance : Std.Refl GrowsStore := ⟨fun store => .refl store.db⟩

instance : IsTrans FilesystemStore GrowsStore := ⟨fun _ _ _ => Grows.trans⟩

section Programs

variable {α β : Type} {s : FilesystemStore} {P : α → FilesystemStore → Prop}

theorem grows_fromDb_bind (f : Database → β) {next : β → FsM α} (h : Keeps GrowsStore (next (f s.db)) s P) :
    Keeps GrowsStore (fromDb f >>= next) s P := h

theorem grows_valid_bind (value : Except FsError β) {next : β → FsM α}
    (h : ∀ b, value = .ok b → Keeps GrowsStore (next b) s P) : Keeps GrowsStore (valid value >>= next) s P := by
  refine keeps_fromExcept_bind _ fun b hOk => ?_
  cases value with
  | ok a =>
    cases hOk
    exact h b rfl
  | error e => cases hOk

theorem grows_withTx {program : FsM α} (h : Keeps GrowsStore program s P) : Keeps GrowsStore (withTx program) s P :=
  h.transaction fun _ => .refl s.db

theorem grows_blobs {f : FilesystemStore → FilesystemStore} (hEntries : (f s).db.entries = s.db.entries)
    (hGrants : (f s).db.grants = s.db.grants) : Keeps GrowsStore (update f : FsM Unit) s fun _ _ => True :=
  keeps_update (.of_entries hEntries hGrants) trivial

theorem grows_insertEntry (row : FsEntryRow) : Keeps GrowsStore (insertEntry row) s fun _ _ => True := by
  refine grows_fromDb_bind _ (keeps_require_bind _ fun hFree => ?_)
  rw [Option.isNone_iff_eq_none] at hFree
  exact keeps_update (.of_insert hFree) trivial

theorem grows_createDirectoryRow (path : Path) (writer : ViewerContext) (now : Int) :
    Keeps GrowsStore (createDirectoryRow path writer now) s fun _ _ => True := by
  refine keeps_require_bind _ fun _ => grows_fromDb_bind _ ?_
  cases s.db.getEntry path with
  | some existing => exact keeps_require_bind _ fun _ => keeps_pure trivial
  | none =>
    refine keeps_present_bind _ fun owner _ => ?_
    exact (grows_insertEntry _).bind fun _ _ _ _ => keeps_pure trivial

theorem grows_ensureDirectoryTreeFrom (writer : ViewerContext) (now : Int) (depth : Nat) (path : Path) :
    Keeps GrowsStore (ensureDirectoryTreeFrom writer now depth path) s fun _ _ => True := by
  induction depth generalizing path s with
  | zero => exact keeps_pure trivial
  | succ depth ih =>
    refine grows_fromDb_bind _ ?_
    cases s.db.getEntry path with
    | some existing => exact keeps_require_bind _ fun _ => keeps_pure trivial
    | none => exact (ih (parentOf path)).bind fun _ _ _ _ => grows_createDirectoryRow path writer now

theorem grows_ensureDirectoryTree (path : Path) (writer : ViewerContext) (now : Int) :
    Keeps GrowsStore (ensureDirectoryTree path writer now) s fun _ _ => True :=
  grows_ensureDirectoryTreeFrom writer now path.segments.length path

theorem grows_resolveCollision (collision : WriteCollisionStrategy) (path : Path) :
    Keeps GrowsStore (resolveCollision collision path) s fun _ _ => True := by
  refine grows_fromDb_bind _ ?_
  cases s.db.getEntry path with
  | none => exact keeps_pure trivial
  | some existing =>
    refine keeps_require_bind _ fun _ => ?_
    cases collision with
    | error => exact keeps_throw _
    | overwrite => exact keeps_pure trivial
    | suffix => exact grows_fromDb_bind _ (grows_valid_bind _ fun _ _ => grows_valid_bind _ fun _ _ => keeps_pure trivial)

theorem grows_decrementAndMaybeDropBlob (hash : String) :
    Keeps GrowsStore (decrementAndMaybeDropBlob hash) s fun _ _ => True := by
  refine (grows_blobs rfl rfl).bind fun _ s₁ _ _ => grows_fromDb_bind _ ?_
  split
  · exact (grows_blobs rfl rfl).bind fun _ s₂ _ _ => grows_blobs rfl rfl
  · exact keeps_pure trivial

theorem grows_writeContent (placement : Placement) (content : Content) (creator : String) (now : Int) :
    Keeps GrowsStore (writeContent placement content creator now) s fun _ _ => True := by
  unfold writeContent
  cases placement.existing with
  | some existing =>
    have hContent : GrowsStore s { s with
        db := updateEntryContent content.hash content.size content.mimeType now placement.path s.db } :=
      .of_updateEntryContent ..
    refine Keeps.bind (M := fun _ _ => True) (keeps_update hContent trivial) fun _ s₁ _ _ => ?_
    refine (grows_blobs rfl rfl).bind fun _ s₂ _ _ => ?_
    cases truthy existing.contentHash with
    | none => exact keeps_pure trivial
    | some priorHash =>
      dsimp only
      split
      · exact grows_decrementAndMaybeDropBlob priorHash
      · exact keeps_pure trivial
  | none =>
    refine keeps_present_bind _ fun owner _ => ?_
    exact (grows_insertEntry _).bind fun _ s₁ _ _ => grows_blobs rfl rfl

theorem grows_writeFile (acl : ObjectiveAcl) (input : WriteFileInput) (now : Int) :
    Keeps GrowsStore (writeFile acl input now) s fun _ _ => True := by
  refine grows_valid_bind _ fun path _ => keeps_require_bind _ fun _ => keeps_require_bind _ fun _ => ?_
  exact (grows_ensureDirectoryTree (parentOf path) input.writer now).bind fun _ _ _ _ => keeps_pure trivial

theorem grows_finishWriteFile (input : WriteFileInput) (normalized : Path) (now : Int) (put : PutResult) :
    Keeps GrowsStore (finishWriteFile input normalized now put) s fun _ _ => True := by
  refine Keeps.bind (M := fun _ _ => True) (grows_withTx ?_) fun _ s₁ _ _ => ?_
  · refine (grows_resolveCollision _ _).bind fun placement s₂ _ _ => ?_
    refine (grows_blobs rfl rfl).bind fun _ s₃ _ _ => ?_
    exact (grows_writeContent placement _ _ now).bind fun _ _ _ _ => keeps_pure trivial
  · exact grows_fromDb_bind _ (keeps_present_bind _ fun _ _ => keeps_pure trivial)

theorem grows_copyByBlobRef (acl : ObjectiveAcl) (input : CopyByBlobRefInput) (now : Int) :
    Keeps GrowsStore (copyByBlobRef acl input now) s fun _ _ => True := by
  refine grows_valid_bind _ fun src _ => grows_valid_bind _ fun dst _ => keeps_require_bind _ fun _ => ?_
  refine grows_fromDb_bind _ (keeps_require_bind _ fun _ => keeps_require_bind _ fun _ => ?_)
  refine grows_fromDb_bind _ (keeps_present_bind _ fun row _ => keeps_require_bind _ fun _ => ?_)
  refine keeps_present_bind _ fun hash _ => keeps_present_bind _ fun size _ => ?_
  refine (grows_ensureDirectoryTree (parentOf dst) input.viewer now).bind fun _ s₁ _ _ => ?_
  refine Keeps.bind (M := fun _ _ => True) (grows_withTx ?_) fun _ s₂ _ _ => ?_
  · refine (grows_resolveCollision _ _).bind fun placement s₃ _ _ => ?_
    exact (grows_writeContent placement _ _ now).bind fun _ _ _ _ => keeps_pure trivial
  · exact grows_fromDb_bind _ (keeps_present_bind _ fun _ _ => keeps_pure trivial)

theorem grows_mkdir (acl : ObjectiveAcl) (path : String) (writer : ViewerContext) (recursive : Bool) (now : Int) :
    Keeps GrowsStore (mkdir acl path writer recursive now) s fun _ _ => True := by
  refine grows_valid_bind _ fun path _ => keeps_require_bind _ fun _ => keeps_require_bind _ fun _ => ?_
  split
  · exact grows_ensureDirectoryTree path writer now
  · split
    · exact grows_createDirectoryRow path writer now
    · refine grows_fromDb_bind _ (keeps_present_bind _ fun _ _ => keeps_require_bind _ fun _ => ?_)
      exact grows_createDirectoryRow path writer now

theorem grows_ensureHome (memberName : Name) (now : Int) : Keeps GrowsStore (ensureHome memberName now) s fun _ _ => True := by
  refine grows_valid_bind _ fun home _ => grows_fromDb_bind _ ?_
  cases s.db.getEntry home with
  | some existing => exact keeps_pure trivial
  | none => exact grows_insertEntry _

end Programs

/-! ## Dropping -/

structure Drops (before after : Database) : Prop where
  entries : ∀ path, after.getEntry path = before.getEntry path ∨ after.getEntry path = none
  grants : ∀ grant ∈ after.grants.rows, grant ∈ before.grants.rows ∧ after.getEntry grant.path = before.getEntry grant.path

theorem Drops.refl (db : Database) : Drops db db := ⟨fun _ => .inl rfl, fun _ hGrant => ⟨hGrant, rfl⟩⟩

theorem Drops.trans {before middle after : Database} (h : Drops before middle) (h' : Drops middle after) :
    Drops before after := by
  constructor
  · intro path
    rcases h'.entries path with hSame | hNone
    · rw [hSame]
      exact h.entries path
    · exact .inr hNone
  · intro grant hGrant
    obtain ⟨hMiddle, hLast⟩ := h'.grants grant hGrant
    obtain ⟨hBefore, hFirst⟩ := h.grants grant hMiddle
    exact ⟨hBefore, hLast.trans hFirst⟩

theorem grants_dropRow (state : Database × List String) (row : FsEntryRow) :
    (dropRow state row).1.grants = (deleteGrantsForPath row.path state.1).grants := by
  unfold dropRow
  dsimp only
  split
  · split <;> rfl
  · rfl

theorem drops_dropRow (state : Database × List String) (row : FsEntryRow) : Drops state.1 (dropRow state row).1 := by
  have hEntry : ∀ path, (dropRow state row).1.getEntry path = if path = row.path then none else state.1.getEntry path := by
    intro path
    rw [← getEntry_deleteEntry, getEntry, entries_dropRow]
    rfl
  constructor
  · intro path
    rw [hEntry]
    split
    · exact .inr rfl
    · exact .inl rfl
  · intro grant hGrant
    rw [grants_dropRow] at hGrant
    obtain ⟨hBefore, hOther⟩ := List.mem_filter.mp hGrant
    simp only [Bool.not_eq_true', decide_eq_false_iff_not] at hOther
    exact ⟨hBefore, by rw [hEntry, if_neg hOther]⟩

theorem drops_dropRows (rows : List FsEntryRow) (state : Database × List String) :
    Drops state.1 (rows.foldl dropRow state).1 := by
  induction rows generalizing state with
  | nil => exact .refl state.1
  | cons row rows ih => exact (drops_dropRow state row).trans (ih _)

def DropsStore (before after : FilesystemStore) : Prop := Drops before.db after.db

instance : Std.Refl DropsStore := ⟨fun store => .refl store.db⟩

instance : IsTrans FilesystemStore DropsStore := ⟨fun _ _ _ => Drops.trans⟩

section Remove

variable {s : FilesystemStore}

theorem drops_remove (acl : ObjectiveAcl) (raw : String) (viewer : ViewerContext) (recursive : Bool) :
    Keeps DropsStore (remove acl raw viewer recursive) s fun _ _ => True := by
  have hValid : ∀ {β : Type} (value : Except FsError β) (next : β → FsM Unit),
      (∀ b, Keeps DropsStore (next b) s fun _ _ => True) → Keeps DropsStore (valid value >>= next) s fun _ _ => True :=
    fun value next h => keeps_fromExcept_bind _ fun b _ => h b
  have hRows : ∀ rows, Keeps DropsStore (dropRows rows) s fun _ _ => True := by
    intro rows
    have hDrops : DropsStore s { s with db := (rows.foldl dropRow (s.db, [])).1 } := drops_dropRows rows (s.db, [])
    exact ⟨hDrops, fun _ _ => trivial⟩
  refine hValid _ _ fun path => keeps_require_bind _ fun _ => keeps_require_bind _ fun _ => ?_
  rw [fromDb, keeps_reads_bind]
  refine keeps_present_bind _ fun row _ => ?_
  refine Keeps.bind (M := fun _ _ => True) (Keeps.transaction ?_ fun _ => .refl s.db) fun dropped s₁ _ _ => ?_
  · cases row.kind with
    | file => exact hRows [row]
    | directory =>
      dsimp only
      rw [fromDb, keeps_reads_bind]
      refine keeps_require_bind _ fun _ => ?_
      rw [fromDb, keeps_reads_bind]
      exact hRows _
  · exact keeps_update (.refl s₁.db) trivial

end Remove

/-! ## Moving -/

structure Moved (src dst : Path) (before after : Database) : Prop where
  entry : ∃ row row', before.getEntry src = some row ∧ after.getEntry dst = some row' ∧ row'.kind = row.kind
  free : before.getEntry dst = none
  gone : after.getEntry src = none
  others : ∀ path, path ≠ dst → after.getEntry path = before.getEntry path ∨ after.getEntry path = none
  kept : ∀ path, path ≠ src → path ≠ dst → after.getEntry path = before.getEntry path
  grants : ∀ grant ∈ after.grants.rows, grant ∈ before.grants.rows ∧ grant.path ≠ src ∨
    ∃ old ∈ before.grants.rows, old.path = src ∧ grant = { old with path := dst }

theorem mem_foldl_insertGrant {grants : List FsGrantRow} {db : Database} {grant : FsGrantRow}
    (h : grant ∈ (grants.foldl (fun db grant => insertGrant grant db) db).grants.rows) :
    grant ∈ db.grants.rows ∨ grant ∈ grants := by
  induction grants generalizing db with
  | nil => exact .inl h
  | cons first grants ih =>
    rcases ih h with hInserted | hLater
    · have hInserted : grant ∈ (db.grants.insertOrIgnore first).rows := hInserted
      rw [Table.rows_insertOrIgnore] at hInserted
      split at hInserted
      · rcases List.mem_append.mp hInserted with hOld | hNew
        · exact .inl hOld
        · rw [List.mem_singleton.mp hNew]
          exact .inr List.mem_cons_self
      · exact .inl hInserted
    · exact .inr (List.mem_cons_of_mem first hLater)

section Move

variable {s : FilesystemStore}

def moveRow (src dst : Path) (now : Int) : FsM Unit := do
  require (← fromDb fun db => (db.getEntry dst).isNone) (failure .exists s!"destination exists: {dst.render}")
  movePath dst (parentOf dst) (basenameOf dst) now src
  copyGrants dst src
  onDb (deleteGrantsForPath src)

def renamedRow (dst : Path) (now : Int) (row : FsEntryRow) : FsEntryRow :=
  { row with path := dst, parentPath := parentOf dst, name := basenameOf dst, updatedAt := now }

def placeRow (src : Path) (renamed : FsEntryRow) (db : Database) : Database :=
  { deleteEntry src db with entries := (deleteEntry src db).entries.insertOrIgnore renamed }

def carryGrants (src dst : Path) (db : Database) : Database :=
  ((db.grants.select fun grant => grant.path = src).map fun grant => { grant with path := dst }).foldl
    (fun db grant => insertGrant grant db) db

variable {src dst : Path} {row : FsEntryRow}

theorem moved_statements {db : Database} (now : Int) (hRow : db.getEntry src = some row)
    (hFree : db.getEntry dst = none) :
    Moved src dst db (deleteGrantsForPath src (carryGrants src dst (placeRow src (renamedRow dst now row) db))) := by
  have hDeleted : (deleteEntry src db).getEntry (renamedRow dst now row).path = none := by
    rw [getEntry_deleteEntry]
    split
    · rfl
    · exact hFree
  have hEntry : ∀ path,
      (deleteGrantsForPath src (carryGrants src dst (placeRow src (renamedRow dst now row) db))).getEntry path =
        if path = dst then some (renamedRow dst now row) else if path = src then none else db.getEntry path := by
    intro path
    have hEntries : (carryGrants src dst (placeRow src (renamedRow dst now row) db)).entries =
        (placeRow src (renamedRow dst now row) db).entries := entries_foldl_insertGrant _ _
    rw [← getEntry_deleteEntry, getEntry, deleteGrantsForPath, hEntries]
    exact getEntry_insert hDeleted path
  have hOther : src ≠ dst := by
    rintro rfl
    rw [hFree] at hRow
    cases hRow
  refine ⟨⟨row, renamedRow dst now row, hRow, by rw [hEntry, if_pos rfl], rfl⟩, hFree, ?_, ?_, ?_, ?_⟩
  · rw [hEntry, if_neg hOther, if_pos rfl]
  · intro path hPath
    rw [hEntry, if_neg hPath]
    split
    · exact .inr rfl
    · exact .inl rfl
  · intro path hSrc hDst
    rw [hEntry, if_neg hDst, if_neg hSrc]
  · intro grant hGrant
    obtain ⟨hMem, hPath⟩ := List.mem_filter.mp hGrant
    simp only [Bool.not_eq_true', decide_eq_false_iff_not] at hPath
    rcases mem_foldl_insertGrant hMem with hOld | hCopied
    · exact .inl ⟨hOld, hPath⟩
    · obtain ⟨old, hOld, rfl⟩ := List.mem_map.mp hCopied
      obtain ⟨hMem, hSrc⟩ := List.mem_filter.mp hOld
      exact .inr ⟨old, hMem, by simpa using hSrc, rfl⟩

theorem keeps_moveRow {now : Int} (hRow : s.db.getEntry src = some row) :
    Keeps Anywhere (moveRow src dst now) s fun _ s' => Moved src dst s.db s'.db := by
  unfold moveRow
  rw [fromDb, keeps_reads_bind]
  refine keeps_require_bind _ fun hFree => ?_
  rw [Option.isNone_iff_eq_none] at hFree
  refine Keeps.bind (M := fun _ (s₁ : FilesystemStore) => s₁.db = placeRow src (renamedRow dst now row) s.db) ?_
    fun _ s₁ _ hPlaced => ?_
  · unfold movePath
    rw [fromDb, keeps_reads_bind, hRow]
    dsimp only
    rw [fromDb, keeps_reads_bind]
    exact keeps_require_bind _ fun _ => keeps_update trivial rfl
  · refine Keeps.bind (M := fun _ (s₂ : FilesystemStore) => s₂.db = carryGrants src dst s₁.db) ?_ fun _ s₂ _ hCopied => ?_
    · unfold copyGrants
      rw [fromDb, keeps_reads_bind, fromDb, keeps_reads_bind]
      exact keeps_require_bind _ fun _ => keeps_update trivial rfl
    · refine keeps_update trivial ?_
      dsimp only
      rw [hCopied, hPlaced]
      exact moved_statements now hRow hFree

theorem ends_withTx_moveRow {now : Int} (hRow : s.db.getEntry src = some row) :
    Ends (withTx (moveRow src dst now)) s fun outcome s' =>
      match outcome with
      | .ok _ => Moved src dst s.db s'.db
      | .error _ => s'.db = s.db := by
  rw [withTx, ends_transaction]
  refine Ends.imp (keeps_moveRow hRow) ?_
  rintro outcome s' ⟨_, hMoved⟩
  cases outcome with
  | ok done => exact hMoved done rfl
  | error e => rfl

theorem ends_move (acl : ObjectiveAcl) (source destination : String) (viewer : ViewerContext) (now : Int) :
    Ends (move acl source destination viewer now) s fun outcome s' =>
      match outcome with
      | .error _ => Grows s.db s'.db
      | .ok _ => ∃ src dst, normalizePath source = .ok src ∧ normalizePath destination = .ok dst ∧
          (src = dst ∧ s'.db = s.db ∨ src ≠ dst ∧ ∃ built, Grows s.db built ∧ Moved src dst built s'.db) := by
  have hError : ∀ e : Thrown, Grows s.db s.db := fun _ => .refl s.db
  refine ends_fromExcept_bind _ hError fun src hSrc => ends_fromExcept_bind _ hError fun dst hDst => ?_
  rw [mapError_eq_ok] at hSrc hDst
  split
  · rename_i hSame
    rw [fromDb, ends_reads_bind]
    exact ends_present_bind _ hError fun row _ => ⟨src, dst, hSrc, hDst, .inl ⟨hSame, rfl⟩⟩
  · rename_i hOther
    refine ends_require_bind _ hError fun _ => ends_require_bind _ hError fun _ => ends_require_bind _ hError fun _ => ?_
    rw [fromDb, ends_reads_bind]
    refine ends_present_bind _ hError fun row hRow => ends_require_bind _ hError fun _ => ?_
    refine (grows_ensureDirectoryTree (parentOf dst) viewer now).ends_bind (fun _ s₁ hBuilt _ => ?_) fun _ _ hBuilt => hBuilt
    obtain ⟨built, hEntry, _⟩ := hBuilt.entries src row hRow
    change Ends (withTx (moveRow src dst now) >>= _) s₁ _
    rw [Fallible.ends_bind]
    refine Ends.imp (ends_withTx_moveRow hEntry) ?_
    rintro outcome s₂ hOutcome
    cases outcome with
    | error e =>
      change Grows s.db s₂.db
      rw [hOutcome]
      exact hBuilt
    | ok done =>
      obtain ⟨_, moved, _, hMoved, _⟩ := hOutcome.entry
      rw [fromDb, ends_reads_bind, hMoved]
      exact ⟨src, dst, hSrc, hDst, .inr ⟨hOther, s₁.db, hBuilt, hOutcome⟩⟩

end Move

/-! ## One step -/

structure Descends (origin : Path → Path) (before after : Database) : Prop where
  entries : ∀ path row', after.getEntry path = some row' → ∀ row, before.getEntry (origin path) = some row → row'.kind = row.kind
  single : ∀ path other, (after.getEntry path).isSome → (after.getEntry other).isSome → origin path = origin other → path = other

theorem Descends.of_entries {before after : Database} (h : after.entries = before.entries) : Descends id before after := by
  refine ⟨fun path row' hAfter row hBefore => ?_, fun _ _ _ _ hSame => hSame⟩
  rw [getEntry, h] at hAfter
  cases hAfter.symm.trans hBefore
  rfl

structure Evolves (origin : Path → Path) (before after : Database) : Prop extends Descends origin before after where
  grants : ∀ grant ∈ after.grants.rows, (after.getEntry grant.path).isSome ∧ ∃ old ∈ before.grants.rows,
    old.path = origin grant.path ∧ old.viewer = grant.viewer ∧ old.grantedVia = grant.grantedVia

def GrantsBound (db : Database) : Prop := ∀ grant ∈ db.grants.rows, (db.getEntry grant.path).isSome

section Evolves

variable {before built after : Database}

theorem Grows.evolves (h : Grows before after) (hBound : GrantsBound before) : Evolves id before after := by
  refine ⟨⟨?_, fun _ _ _ _ hSame => hSame⟩, ?_⟩
  · intro path row' hAfter row hBefore
    obtain ⟨next, hNext, hKind⟩ := h.entries path row hBefore
    cases hAfter.symm.trans hNext
    exact hKind
  · intro grant hGrant
    rw [h.grants] at hGrant
    obtain ⟨row, hRow⟩ := Option.isSome_iff_exists.mp (hBound grant hGrant)
    obtain ⟨next, hNext, _⟩ := h.entries _ row hRow
    exact ⟨by rw [hNext]; rfl, grant, hGrant, rfl, rfl, rfl⟩

theorem Drops.evolves (h : Drops before after) (hBound : GrantsBound before) : Evolves id before after := by
  refine ⟨⟨?_, fun _ _ _ _ hSame => hSame⟩, ?_⟩
  · intro path row' hAfter row hBefore
    rcases h.entries path with hSame | hNone
    · have hBefore : before.getEntry path = some row := hBefore
      rw [hSame, hBefore] at hAfter
      cases hAfter
      rfl
    · rw [hNone] at hAfter
      cases hAfter
  · intro grant hGrant
    obtain ⟨hOld, hSame⟩ := h.grants grant hGrant
    exact ⟨by rw [hSame]; exact hBound grant hOld, grant, hOld, rfl, rfl, rfl⟩

theorem Moved.evolves {src dst : Path} (hGrows : Grows before built) (h : Moved src dst built after)
    (hBound : GrantsBound before) : Evolves (fun path => if path = dst then src else path) before after := by
  obtain ⟨row, moved, hRow, hMoved, hKind⟩ := h.entry
  have hStays : ∀ path, (after.getEntry path).isSome → path ≠ src := by
    rintro path hPath rfl
    rw [h.gone] at hPath
    cases hPath
  refine ⟨⟨?_, ?_⟩, ?_⟩
  · intro path row' hAfter prior hPrior
    obtain ⟨next, hNext, hSame⟩ := hGrows.entries _ prior hPrior
    split at hNext
    · rename_i hPath
      rw [hPath, hMoved] at hAfter
      rw [hRow] at hNext
      cases hAfter
      cases hNext
      exact hKind.trans hSame
    · rename_i hPath
      rcases h.others path hPath with hStays | hNone
      · rw [hStays, hNext] at hAfter
        cases hAfter
        exact hSame
      · rw [hNone] at hAfter
        cases hAfter
  · intro path other hPath hOther hOrigin
    have hFirst := hStays path hPath
    have hSecond := hStays other hOther
    grind
  · intro grant hGrant
    rcases h.grants grant hGrant with ⟨hOld, hSrc⟩ | ⟨old, hOld, hSrc, rfl⟩
    · rw [hGrows.grants] at hOld
      obtain ⟨prior, hPrior⟩ := Option.isSome_iff_exists.mp (hBound grant hOld)
      obtain ⟨next, hNext, _⟩ := hGrows.entries _ prior hPrior
      have hDst : grant.path ≠ dst := by
        intro hPath
        rw [hPath, h.free] at hNext
        cases hNext
      refine ⟨by rw [h.kept _ hSrc hDst, hNext]; rfl, grant, hOld, by rw [if_neg hDst], rfl, rfl⟩
    · rw [hGrows.grants] at hOld
      exact ⟨by rw [hMoved]; rfl, old, hOld, by rw [if_pos rfl, hSrc], rfl, rfl⟩

end Evolves

def originOf (event : Event) (outcome : Except Thrown Reply) : Path → Path :=
  match event, outcome with
  | .call _ _ _ (.move source destination), .ok _ =>
    match normalizePath source, normalizePath destination with
    | .ok src, .ok dst => fun path => if path = dst then src else path
    | _, _ => id
  | _, _ => id

section Events

variable {s : FilesystemStore}

theorem grows_call (acl : ObjectiveAcl) (viewer : ViewerContext) (now : Int) {request : Call}
    (hRemove : ∀ path recursive, request ≠ .remove path recursive)
    (hMove : ∀ source destination, request ≠ .move source destination) :
    Keeps GrowsStore (request.program acl viewer now) s fun _ _ => True := by
  have hAsk : ∀ {α : Type} (query : Database → Except FsError α) (next : α → FsM Reply),
      (∀ a, Keeps GrowsStore (next a) s fun _ _ => True) → Keeps GrowsStore (ask query >>= next) s fun _ _ => True := by
    intro α query next h
    unfold ask
    rw [bind_assoc]
    exact grows_fromDb_bind _ (grows_valid_bind _ fun a _ => h a)
  cases request with
  | stat => exact hAsk _ _ fun _ => keeps_pure trivial
  | list => exact hAsk _ _ fun _ => keeps_pure trivial
  | listShared => exact hAsk _ _ fun _ => keeps_pure trivial
  | listAllFiles => exact hAsk _ _ fun _ => keeps_pure trivial
  | openReadStream => exact hAsk _ _ fun _ => keeps_pure trivial
  | copyByBlobRef => exact (grows_copyByBlobRef acl _ now).bind fun _ _ _ _ => keeps_pure trivial
  | writeFile => exact (grows_writeFile acl _ now).bind fun _ _ _ _ => keeps_pure trivial
  | mkdir => exact (grows_mkdir acl _ viewer _ now).bind fun _ _ _ _ => keeps_pure trivial
  | remove path recursive => exact absurd rfl (hRemove path recursive)
  | move source destination => exact absurd rfl (hMove source destination)

theorem serve_store (desk : Desk) (event : Event) :
    (serve desk event).1.store = (run (event.program desk.pending) desk.store).2 := rfl

theorem serve_outcome (desk : Desk) (event : Event) :
    (serve desk event).2 = (run (event.program desk.pending) desk.store).1 := rfl

theorem Ends.evolves {desk : Desk} {event : Event}
    (h : Ends (event.program desk.pending) desk.store fun outcome s' =>
      Evolves (originOf event outcome) desk.store.db s'.db) :
    Evolves (originOf event (serve desk event).2) desk.store.db (serve desk event).1.store.db := by
  rw [serve_store, serve_outcome]
  exact (ends_iff_run _).mp h

theorem evolves_call (desk : Desk) (acl : ObjectiveAcl) (viewer : ViewerContext) (now : Int) (request : Call)
    (hBound : GrantsBound desk.store.db) :
    Evolves (originOf (.call acl viewer now request) (serve desk (.call acl viewer now request)).2) desk.store.db
      (serve desk (.call acl viewer now request)).1.store.db := by
  apply Ends.evolves
  have hOther : (∀ path recursive, request ≠ .remove path recursive) →
      (∀ source destination, request ≠ .move source destination) →
      Ends (request.program acl viewer now) desk.store fun _ s' => Evolves id desk.store.db s'.db :=
    fun hRemove hMove => Ends.imp (grows_call acl viewer now hRemove hMove) fun _ _ ⟨hState, _⟩ =>
      Grows.evolves hState hBound
  cases request with
  | remove path recursive =>
    have hDrops : Keeps DropsStore (Call.program acl viewer now (.remove path recursive)) desk.store fun _ _ => True :=
      (drops_remove acl path viewer recursive).bind fun _ _ _ _ => keeps_pure trivial
    exact Ends.imp hDrops fun _ _ ⟨hState, _⟩ => hState.evolves hBound
  | move source destination =>
    refine (ends_bind _ _).mpr (Ends.imp (ends_move acl source destination viewer now) ?_)
    rintro outcome s' hOutcome
    cases outcome with
    | error e => exact Grows.evolves hOutcome hBound
    | ok entry =>
      obtain ⟨src, dst, hSrc, hDst, hMoved⟩ := hOutcome
      change Evolves (originOf (.call acl viewer now (.move source destination)) (.ok _)) desk.store.db s'.db
      simp only [originOf, hSrc, hDst]
      rcases hMoved with ⟨rfl, hSame⟩ | ⟨_, built, hBuilt, hMoved⟩
      · rw [hSame]
        have hSelf : (fun path => if path = src then src else path) = id := by
          funext path
          split
          · rename_i hPath
            exact hPath.symm
          · rfl
        rw [hSelf]
        exact (Grows.refl desk.store.db).evolves hBound
      · exact hMoved.evolves hBuilt hBound
  | stat | list | listShared | listAllFiles | openReadStream | copyByBlobRef | writeFile | mkdir =>
    refine hOther ?_ ?_
    · rintro _ _ ⟨⟩
    · rintro _ _ ⟨⟩

theorem evolves_serve (desk : Desk) (event : Event) (hBound : GrantsBound desk.store.db)
    (hGrant : ∀ path viewer grantedVia now, event ≠ .grant path viewer grantedVia now) :
    Evolves (originOf event (serve desk event).2) desk.store.db (serve desk event).1.store.db := by
  cases event with
  | call acl viewer now request => exact evolves_call desk acl viewer now request hBound
  | putSettled index put =>
    apply Ends.evolves
    unfold Event.program
    dsimp only
    cases desk.pending[index]? with
    | none => exact (ends_pure _).mpr ((Grows.refl desk.store.db).evolves hBound)
    | some write =>
      have hGrows : Keeps GrowsStore (settle write put) desk.store fun _ _ => True := by
        refine keeps_fromExcept_bind _ fun put _ => ?_
        exact (grows_finishWriteFile write.input write.path write.now put).bind fun _ _ _ _ => keeps_pure trivial
      exact Ends.imp hGrows fun _ _ hState => Grows.evolves hState.1 hBound
  | grant path viewer grantedVia now => exact absurd rfl (hGrant path viewer grantedVia now)
  | ensureHome memberName now =>
    apply Ends.evolves
    have hGrows : Keeps GrowsStore (Event.program desk.pending (.ensureHome memberName now)) desk.store fun _ _ => True :=
      (grows_ensureHome memberName now).bind fun _ _ _ _ => keeps_pure trivial
    exact Ends.imp hGrows fun _ _ hState => Grows.evolves hState.1 hBound

end Events

end CommandSuite.Files
