import CommandSuite.Core.Files.Removal

/-! # Reference counts

The count of a blob is kept next to the rows that refer to it. In the middle of a transaction the two
differ by what is still owed for each hash; at its end nothing is owed.
-/

namespace CommandSuite.Files

open Library Fallible Database Transcript Table

def refersTo (hash : String) (row : FsEntryRow) : Bool := row.kind = .file && row.contentHash = some hash

/-- The file rows with this `content_hash`. -/
def references (db : Database) (hash : String) : Nat := db.entries.rows.countP (refersTo hash)

structure Counted (db : Database) : Prop where
  exact : ∀ blob ∈ db.blobs.rows, blob.refcount = references db blob.hash
  stored : ∀ hash, 0 < references db hash → (db.blobs.find hash).isSome = true

def only (hash other : String) : Int := if other = hash then 1 else 0

def owes (row : FsEntryRow) (hash : String) : Int := if refersTo hash row then 1 else 0

/-- The counts with what is owed for each hash. No row has the empty hash, which the code takes for none. -/
structure Balanced (owed : String → Int) (db : Database) : Prop where
  exact : ∀ hash blob, db.blobs.find hash = some blob → blob.refcount + owed hash = references db hash
  stored : ∀ hash, db.blobs.find hash = none → references db hash = 0 ∧ owed hash = 0
  named : references db "" = 0

/-- The file at the path has the hash, and it is to be overwritten. -/
def RepeatsAt (collision : WriteCollisionStrategy) (db : Database) (path : Path) (hash : String) : Prop :=
  collision = .overwrite ∧ ∃ existing, db.getEntry path = some existing ∧ existing.kind = .file ∧ existing.contentHash = some hash

section References

variable {db : Database} {path : Path} {row : FsEntryRow} {hash : String} {owner creator : String} {content : Content} {now : Int}

theorem owes_fileRow (other : String) : owes (fileRow path owner content creator now) other = only content.hash other := by
  simp only [owes, refersTo, fileRow, only, decide_true, Bool.true_and, decide_eq_true_eq, Option.some.injEq]
  exact if_congr eq_comm rfl rfl

theorem references_withRow (row : FsEntryRow) (h : db.getEntry row.path = none) (hash : String) :
    (references (withRow row db) hash : Int) = references db hash + owes row hash := by
  have hRows : (withRow row db).entries.rows = db.entries.rows ++ [row] := by
    exact (rows_insertOrIgnore db.entries row).trans (if_pos h)
  rw [references, hRows, List.countP_append, List.countP_singleton, references, owes]
  split <;> simp

theorem references_directory (h : db.getEntry path = none) (hash : String) :
    references (withRow (directoryRow path owner creator now) db) hash = references db hash := by
  have hCount := references_withRow (directoryRow path owner creator now) h hash
  have hNone : owes (directoryRow path owner creator now) hash = 0 := rfl
  rw [hNone] at hCount
  omega

theorem references_deleteEntry (h : db.getEntry path = some row) (hash : String) :
    (references (deleteEntry path db) hash : Int) = references db hash - owes row hash := by
  have hCount := (perm_delete h).countP_eq (refersTo hash)
  rw [List.countP_cons] at hCount
  unfold references owes
  rw [hCount]
  change ((deleteEntry path db).entries.rows.countP (refersTo hash) : Int) =
    (((deleteEntry path db).entries.rows.countP (refersTo hash) + if refersTo hash row = true then 1 else 0 : Nat) : Int) - _
  split <;> simp

theorem references_updateEntryContent (h : db.getEntry path = some row) (hKind : row.kind = .file) (content : Content)
    (now : Int) (hash : String) :
    (references (updateEntryContent content.hash content.size content.mimeType now path db) hash : Int) =
      references db hash - owes row hash + only content.hash hash := by
  have hCount := (perm_update h (fun row => { row with
    contentHash := some content.hash, size := some content.size, mimeType := some content.mimeType, updatedAt := now })
    fun _ => rfl).countP_eq (refersTo hash)
  have hOwed : (references (deleteEntry path db) hash : Int) = references db hash - owes row hash := references_deleteEntry h hash
  rw [← hOwed, references, references, updateEntryContent, hCount, List.countP_cons, deleteEntry, only]
  simp only [refersTo, hKind, decide_true, Bool.true_and, decide_eq_true_eq, Option.some.injEq, eq_comm (a := content.hash)]
  split <;> simp

theorem references_relocate {store : FilesystemStore} {src dst : Path} (hRow : store.db.getEntry src = some row)
    (hFree : store.db.getEntry dst = none) (hash : String) :
    references (relocate src dst now row store).db hash = references store.db hash := by
  have hDeleted : (deleteEntry src store.db).getEntry (renamedRow dst now row).path = none := by
    rw [getEntry_deleteEntry]
    split
    · rfl
    · exact hFree
  have hEntries : (relocate src dst now row store).db.entries = (withRow (renamedRow dst now row) (deleteEntry src store.db)).entries :=
    entries_foldl_insertGrant _ _
  have hInserted := references_withRow _ hDeleted hash
  rw [references_deleteEntry hRow] at hInserted
  have hSame : owes (renamedRow dst now row) hash = owes row hash := rfl
  rw [references, hEntries, ← references]
  omega

theorem owes_le (hRow : db.getEntry path = some row) (hash : String) : owes row hash ≤ references db hash := by
  have hRest := references_deleteEntry hRow hash
  omega

theorem owes_of_truthy {prior : String} (hKind : row.kind = .file) (hHash : truthy row.contentHash = some prior) (hash : String) :
    owes row hash = only prior hash := by
  have hSome : row.contentHash = some prior := (Option.filter_eq_some_iff.mp hHash).1
  simp only [owes, refersTo, hKind, hSome, decide_true, Bool.true_and, decide_eq_true_eq, Option.some.injEq, only]
  exact if_congr eq_comm rfl rfl

theorem owes_nonneg (row : FsEntryRow) (hash : String) : 0 ≤ owes row hash := by
  unfold owes
  split <;> omega

theorem references_wrote {collision : WriteCollisionStrategy} {creator : String}
    {before after : FilesystemStore} (h : Wrote collision path content creator now before after) (hash : String) :
    (references after.db hash : Int) ≤ references before.db hash + only content.hash hash := by
  cases h with
  | overwritten hAsked hFound hFile =>
    rename_i existing
    have hCount := references_updateEntryContent hFound hFile content now hash
    have hOwed := owes_nonneg existing hash
    rw [references, entries_overwrite, ← references, hCount]
    omega
  | created _ hFree _ =>
    refine (references_withRow _ hFree hash).le.trans ?_
    rw [owes_fileRow]

theorem references_dropRows_le (rows : List FsEntryRow) (state : Database × List String) (hash : String) :
    references (rows.foldl dropRow state).1 hash ≤ references state.1 hash := by
  induction rows generalizing state with
  | nil => exact Nat.le_refl _
  | cons row rows ih =>
    refine (ih (dropRow state row)).trans ?_
    rw [references, entries_dropRow]
    exact List.filter_sublist.countP_le

theorem references_built {after : Database} (h : Built db after) (hash : String) : references after hash = references db hash := by
  induction h with
  | refl => rfl
  | tail _ hMade ih =>
    cases hMade with
    | made hFree _ _ => exact (references_directory hFree hash).trans ih

theorem references_transition {desk : Desk} {event : Event} {after : FilesystemStore} (h : Transition desk event after)
    (hReferred : 0 < references after.db hash) :
    0 < references desk.store.db hash ∨ ∃ index put, event = .putSettled index (.ok put) ∧ put.hash = hash := by
  cases h with
  | built hBuilds =>
    rw [references_built hBuilds.1] at hReferred
    exact .inl hReferred
  | settled hWaiting hWrote =>
    rename_i index put write
    by_cases hSame : put.hash = hash
    · exact .inr ⟨index, put, rfl, hSame⟩
    · refine .inl ?_
      have hCount := references_wrote hWrote hash
      have hOther : only put.hash hash = 0 := if_neg (Ne.symm hSame)
      change (references after.db hash : Int) ≤ references desk.store.db hash + only put.hash hash at hCount
      omega
  | copied hCopied =>
    obtain ⟨built, dst, content, hBuilds, _, hSource, hWrote⟩ := hCopied
    obtain ⟨src, row, _, _, hRow, hKind, hHash⟩ := hSource.found
    refine .inl ?_
    have hCount := references_wrote hWrote hash
    rw [references_built hBuilds.1] at hCount
    by_cases hSame : hash = content.hash
    · -- the source refers to it
      have hLe := owes_le hRow hash
      rw [owes_of_truthy hKind hHash, only, if_pos hSame] at hLe
      omega
    · have hOther : only content.hash hash = 0 := if_neg hSame
      omega
  | removed => exact .inl (hReferred.trans_le (references_dropRows_le _ _ hash))
  | moved hMoving =>
    rw [references_relocate (hMoving.builds.1.getEntry hMoving.found) hMoving.free, references_built hMoving.builds.1] at hReferred
    exact .inl hReferred
  | granted => exact .inl hReferred

end References

theorem find_addRef (change : Int) (hash : String) (db : Database) (other : String) :
    (addRef change hash db).blobs.find other = (db.blobs.find other).map fun blob =>
      if decide (blob.hash = hash) = true then { blob with refcount := blob.refcount + change } else blob :=
  find_update db.blobs _ (fun blob => { blob with refcount := blob.refcount + change }) (fun _ => rfl) other

namespace Balanced

variable {owed : String → Int} {db : Database} {hash : String}

theorem counted (h : Balanced (fun _ => 0) db) : Counted db := by
  refine ⟨fun blob hBlob => ?_, fun hash hReferred => ?_⟩
  · rw [← h.exact blob.hash blob (find_key hBlob), Int.add_zero]
  · by_contra hNone
    rw [Bool.not_eq_true, Option.isSome_eq_false_iff, Option.isNone_iff_eq_none] at hNone
    rw [(h.stored hash hNone).1] at hReferred
    exact Nat.lt_irrefl 0 hReferred

section

variable (h : Balanced owed db)
include h

theorem recount (after : Database) {change : String → Int} (hBlobs : after.blobs = db.blobs)
    (hChange : ∀ hash, (references after hash : Int) = references db hash + change hash)
    (hStored : ∀ hash, db.blobs.find hash = none → change hash = 0) (hNamed : change "" = 0) :
    Balanced (fun hash => owed hash + change hash) after := by
  refine ⟨fun hash blob hBlob => ?_, fun hash hNone => ?_, ?_⟩
  · rw [hBlobs] at hBlob
    rw [hChange, ← h.exact hash blob hBlob]
    omega
  · rw [hBlobs] at hNone
    obtain ⟨hZero, hOwed⟩ := h.stored hash hNone
    have hSame := hChange hash
    rw [hStored hash hNone, hZero] at hSame
    refine ⟨by omega, ?_⟩
    rw [hOwed, hStored hash hNone, Int.add_zero]
  · have hSame := hChange ""
    rw [hNamed, h.named] at hSame
    omega

theorem same {after : Database} (hBlobs : after.blobs = db.blobs) (hSame : ∀ hash, references after hash = references db hash) :
    Balanced owed after := by
  refine ⟨fun hash blob hBlob => ?_, fun hash hNone => ?_, ?_⟩
  · rw [hBlobs] at hBlob
    rw [hSame, h.exact hash blob hBlob]
  · rw [hBlobs] at hNone
    rw [hSame]
    exact h.stored hash hNone
  · rw [hSame, h.named]

theorem congr {owes : String → Int} (hOwed : ∀ hash, owes hash = owed hash) : Balanced owes db := by
  obtain rfl : owes = owed := funext hOwed
  exact h

theorem upsertBlob (hash : String) (size : Nat) (now : Int) : Balanced owed (upsertBlob hash size now db) := by
  have hFind : ∀ other, (Database.upsertBlob hash size now db).blobs.find other =
      (db.blobs.find other).or (if hash = other then some ⟨hash, size, 0, now⟩ else none) := fun other =>
    find_insertOrIgnore db.blobs _ other
  refine ⟨fun other blob hBlob => ?_, fun other hNone => ?_, h.named⟩
  · rw [hFind] at hBlob
    cases hOld : db.blobs.find other with
    | some old =>
      rw [hOld] at hBlob
      cases hBlob
      exact h.exact other blob hOld
    | none =>
      -- a new count starts at zero, and nothing refers to the hash
      obtain ⟨hZero, hOwed⟩ := h.stored other hOld
      rw [hOld, Option.none_or] at hBlob
      split at hBlob
      · cases hBlob
        rw [hOwed, Int.add_zero]
        exact congrArg Int.ofNat hZero.symm
      · cases hBlob
  · rw [hFind, Option.or_eq_none_iff] at hNone
    exact h.stored other hNone.1

theorem addRef (change : Int) (hStored : db.blobs.find hash ≠ none) :
    Balanced (fun other => owed other - change * only hash other) (addRef change hash db) := by
  have hFind := find_addRef change hash db
  refine ⟨fun other blob hBlob => ?_, fun other hNone => ?_, h.named⟩
  · rw [hFind] at hBlob
    obtain ⟨old, hOld, rfl⟩ := Option.map_eq_some_iff.mp hBlob
    have hExact := h.exact other old hOld
    obtain rfl : old.hash = other := key_of_find hOld
    simp only [only, decide_eq_true_eq]
    change _ = (references db old.hash : Int)
    split <;> simp <;> omega
  · rw [hFind, Option.map_eq_none_iff] at hNone
    have hOther : only hash other = 0 := if_neg fun hSame : other = hash => hStored (hSame ▸ hNone)
    obtain ⟨hZero, hOwed⟩ := h.stored other hNone
    exact ⟨hZero, by rw [hOwed, hOther]; omega⟩

theorem deleteZeroBlob (hOwed : owed hash ≤ 0) : Balanced owed (deleteZeroBlob hash db) := by
  have hFind : ∀ other, (Database.deleteZeroBlob hash db).blobs.find other =
      (db.blobs.find other).filter fun blob => !(decide (blob.hash = hash) && decide (blob.refcount ≤ 0)) := fun other =>
    find_delete db.blobs _ other
  refine ⟨fun other blob hBlob => ?_, fun other hNone => ?_, h.named⟩
  · rw [hFind] at hBlob
    exact h.exact other blob (Option.filter_eq_some_iff.mp hBlob).1
  · cases hOld : db.blobs.find other with
    | none => exact h.stored other hOld
    | some old =>
      have hExact := h.exact other old hOld
      obtain rfl : old.hash = other := key_of_find hOld
      rw [hFind, hOld, Option.filter_some] at hNone
      simp only [Bool.not_eq_true', Bool.and_eq_false_iff, decide_eq_false_iff_not, ite_eq_right_iff, reduceCtorEq] at hNone
      change references db old.hash = 0 ∧ _
      by_cases hHash : old.hash = hash
      · have hZero : old.refcount ≤ 0 := by
          by_contra hPositive
          exact hNone (.inr hPositive)
        rw [hHash] at hExact ⊢
        omega
      · exact absurd (.inl hHash) hNone

end

theorem dropRef {store : FilesystemStore} (h : Balanced (fun other => owed other - only hash other) store.db)
    (hLeak : ∀ hash, owed hash ≤ 0) (hStored : store.db.blobs.find hash ≠ none) : Balanced owed (dropRef hash store).db := by
  have hPaid : Balanced owed (decRef hash store.db) := (h.addRef (-1) hStored).congr fun other => by omega
  unfold Files.dropRef
  dsimp only
  split
  · exact hPaid.deleteZeroBlob (hLeak hash)
  · exact hPaid

/-! ### Files -/

section Files

variable {store : FilesystemStore} {path : Path} {row existing : FsEntryRow} {content : Content} {now : Int}

theorem stored_of_row (h : Balanced owed db) (hRow : db.getEntry path = some row) {prior : String} (hKind : row.kind = .file)
    (hHash : truthy row.contentHash = some prior) : db.blobs.find prior ≠ none := by
  intro hNone
  have hLe := owes_le hRow prior
  rw [owes_of_truthy hKind hHash, only, if_pos rfl, (h.stored prior hNone).1] at hLe
  omega

theorem owes_of_unreferred (hRow : db.getEntry path = some row) (hNone : references db hash = 0) : owes row hash = 0 := by
  have hLe := owes_le hRow hash
  unfold owes at hLe ⊢
  split at hLe
  · omega
  · rename_i hRefers
    rw [if_neg hRefers]

theorem owes_of_falsy (h : Balanced owed db) (hRow : db.getEntry path = some row)
    (hNone : row.kind = .file → truthy row.contentHash = none) (hash : String) : owes row hash = 0 := by
  unfold owes
  split
  · rename_i hRefers
    simp only [refersTo, Bool.and_eq_true, decide_eq_true_eq] at hRefers
    have hEmpty : hash = "" := by
      have hFalsy := hNone hRefers.1
      rw [hRefers.2, truthy, Option.filter_some] at hFalsy
      simpa using hFalsy
    have hZero := owes_of_unreferred hRow h.named
    rw [owes, if_pos (by simp [refersTo, hRefers.1, hRefers.2, hEmpty])] at hZero
    cases hZero
  · rfl

section

variable (h : Balanced owed store.db)
include h

theorem placeFile {target : Path} {owner creator : String}
    (hFree : store.db.getEntry target = none) (hStored : store.db.blobs.find content.hash ≠ none) (hHash : content.hash ≠ "") :
    Balanced owed (placeFile (fileRow target owner content creator now) content.hash store).db := by
  have hChange : ∀ hash, (references (withRow (fileRow target owner content creator now) store.db) hash : Int) =
      references store.db hash + only content.hash hash := by
    intro hash
    rw [references_withRow _ hFree, owes_fileRow]
  have hWritten := h.recount (withRow (fileRow target owner content creator now) store.db) rfl hChange
    (fun hash hNone => if_neg fun hSame : hash = content.hash => hStored (hSame ▸ hNone)) (if_neg hHash.symm)
  exact (hWritten.addRef 1 hStored).congr fun hash => by omega

theorem repointed (hFound : store.db.getEntry path = some existing)
    (hKind : existing.kind = .file) (hStored : store.db.blobs.find content.hash ≠ none) (hHash : content.hash ≠ "") :
    Balanced (fun hash => owed hash - owes existing hash)
      (incRef content.hash (updateEntryContent content.hash content.size content.mimeType now path store.db)) := by
  have hChange : ∀ hash, (references (updateEntryContent content.hash content.size content.mimeType now path store.db) hash : Int) =
      references store.db hash + (only content.hash hash - owes existing hash) := by
    intro hash
    rw [references_updateEntryContent hFound hKind]
    omega
  refine ((h.recount (updateEntryContent content.hash content.size content.mimeType now path store.db) rfl hChange
    (fun hash hNone => ?_) ?_).addRef 1 hStored).congr fun hash => by omega
  · rw [owes_of_unreferred hFound (h.stored hash hNone).1, only, if_neg fun hSame : hash = content.hash => hStored (hSame ▸ hNone)]
    omega
  · rw [owes_of_unreferred hFound h.named, only, if_neg hHash.symm]
    omega

theorem overwrite (hLeak : ∀ hash, owed hash ≤ 0) (hFound : store.db.getEntry path = some existing)
    (hKind : existing.kind = .file) (hStored : store.db.blobs.find content.hash ≠ none) (hHash : content.hash ≠ "")
    (hOther : existing.contentHash ≠ some content.hash) :
    Balanced owed (overwrite path content now (truthy existing.contentHash) store).db := by
  have hWritten : Balanced _ (incRef _ (updateEntryContent _ _ _ now path store.db)) := h.repointed hFound hKind hStored hHash
  unfold Files.overwrite
  dsimp only
  cases hPrior : truthy existing.contentHash with
  | none =>
    refine hWritten.congr fun hash => ?_
    rw [h.owes_of_falsy hFound (fun _ => hPrior) hash, Int.sub_zero]
  | some prior =>
    have hNe : prior ≠ content.hash := by
      rintro rfl
      exact hOther (Option.filter_eq_some_iff.mp hPrior).1
    dsimp only
    rw [if_pos hNe]
    refine dropRef (hWritten.congr fun hash => by rw [owes_of_truthy hKind hPrior hash]) hLeak ?_
    have hFind := find_addRef 1 content.hash (updateEntryContent content.hash content.size content.mimeType now path store.db) prior
    have hRow := h.stored_of_row hFound hKind hPrior
    change (incRef content.hash (updateEntryContent _ _ _ now path store.db)).blobs.find prior ≠ none
    rw [incRef, hFind, ne_eq, Option.map_eq_none_iff]
    exact hRow

theorem overwrite_same (hFound : store.db.getEntry path = some existing)
    (hKind : existing.kind = .file) (hStored : store.db.blobs.find content.hash ≠ none) (hHash : content.hash ≠ "")
    (hSame : existing.contentHash = some content.hash) :
    Balanced (fun hash => owed hash - only content.hash hash)
      (Files.overwrite path content now (truthy existing.contentHash) store).db := by
  have hPrior : truthy existing.contentHash = some content.hash := Option.filter_eq_some_iff.mpr ⟨hSame, by simpa using hHash⟩
  have hWritten : Balanced _ (incRef _ (updateEntryContent _ _ _ now path store.db)) := h.repointed hFound hKind hStored hHash
  unfold Files.overwrite
  dsimp only
  rw [hPrior]
  dsimp only
  rw [if_neg (not_not_intro rfl)]
  exact hWritten.congr fun hash => by rw [owes_of_truthy hKind hPrior hash]

theorem wrote {collision : WriteCollisionStrategy} {creator : String} {after : FilesystemStore}
    (hLeak : ∀ hash, owed hash ≤ 0) (hWrote : Wrote collision path content creator now store after)
    (hStored : store.db.blobs.find content.hash ≠ none) (hHash : content.hash ≠ "") :
    ∃ left, (∀ hash, left hash ≤ owed hash) ∧ (¬RepeatsAt collision store.db path content.hash → left = owed) ∧ Balanced left after.db := by
  cases hWrote with
  | overwritten hAsked hFound hFile =>
    rename_i existing
    by_cases hSame : existing.contentHash = some content.hash
    · have hRepeats : RepeatsAt collision store.db path content.hash := ⟨hAsked, existing, hFound, hFile, hSame⟩
      refine ⟨_, fun hash => ?_, fun hNew => absurd hRepeats hNew, h.overwrite_same hFound hFile hStored hHash hSame⟩
      unfold only
      split <;> omega
    · exact ⟨owed, fun _ => Int.le_refl _, fun _ => rfl, h.overwrite hLeak hFound hFile hStored hHash hSame⟩
  | created _ hFree _ => exact ⟨owed, fun _ => Int.le_refl _, fun _ => rfl, h.placeFile hFree hStored hHash⟩

end

variable {state : Database × List String}

theorem dropRow (h : Balanced owed state.1) (hLeak : ∀ hash, owed hash ≤ 0)
    (hRow : state.1.getEntry row.path = some row) : Balanced owed (dropRow state row).1 := by
  have hZero : ∀ hash, references state.1 hash = 0 → -owes row hash = 0 := fun hash hNone => by
    rw [owes_of_unreferred hRow hNone]
    rfl
  have hDeleted := h.recount (deleteGrantsForPath row.path (deleteEntry row.path state.1)) rfl
    (fun hash => (references_deleteEntry hRow hash).trans (Int.sub_eq_add_neg ..))
    (fun hash hNone => hZero hash (h.stored hash hNone).1) (hZero "" h.named)
  unfold Files.dropRow
  dsimp only
  split
  · rename_i hash hKind hHash
    have hPaid : Balanced owed (decRef hash (deleteGrantsForPath row.path (deleteEntry row.path state.1))) :=
      (hDeleted.addRef (-1) (h.stored_of_row hRow hKind hHash)).congr fun other => by
        rw [owes_of_truthy hKind hHash other]
        omega
    split
    · exact hPaid.deleteZeroBlob (hLeak hash)
    · exact hPaid
  · rename_i hOther
    refine hDeleted.congr fun hash => ?_
    have hNone : row.kind = .file → truthy row.contentHash = none := by
      intro hKind
      cases hHash : truthy row.contentHash with
      | none => rfl
      | some hash => exact absurd hHash (hOther hash hKind)
    rw [h.owes_of_falsy hRow hNone hash]
    omega

theorem dropRows {rows : List FsEntryRow} (h : Balanced owed state.1) (hLeak : ∀ hash, owed hash ≤ 0)
    (hRows : ∀ row ∈ rows, state.1.getEntry row.path = some row) (hNodup : (rows.map FsEntryRow.path).Nodup) :
    Balanced owed (rows.foldl Files.dropRow state).1 := by
  induction rows generalizing state with
  | nil => exact h
  | cons row rows ih =>
    obtain ⟨hFirst, hRest⟩ := List.forall_mem_cons.mp hRows
    rw [List.map_cons, List.nodup_cons] at hNodup
    refine ih (h.dropRow hLeak hFirst) (fun other hOther => ?_) hNodup.2
    have hNe : other.path ≠ row.path := fun hSame => hNodup.1 (hSame ▸ List.mem_map_of_mem hOther)
    have hEntry := getEntry_dropRows [row] state other.path
    rw [List.foldl_cons, List.foldl_nil, List.map_singleton, if_neg (by simpa using hNe)] at hEntry
    rw [hEntry]
    exact hRest other hOther

theorem relocate {src dst : Path} (h : Balanced owed store.db) (hRow : store.db.getEntry src = some row)
    (hFree : store.db.getEntry dst = none) : Balanced owed (relocate src dst now row store).db :=
  h.same (blobs_foldl_insertGrant _ _) (references_relocate hRow hFree)

end Files

theorem built (h : Balanced owed db) {after : Database} (hBuilt : Built db after) : Balanced owed after :=
  h.same hBuilt.blobs (references_built hBuilt)

end Balanced

/-! ## Runs -/

/-- An overwrite with the content that is there already. Its count goes up and nothing takes it down. -/
def Repeats (desk : Desk) : Event → Prop
  | .putSettled index (.ok put) => ∃ write, desk.pending[index]? = some write ∧
      RepeatsAt (write.input.collision.getD .error) desk.store.db write.path put.hash
  | .call acl viewer _ (.copyByBlobRef src dst mimeType collision) => ∃ path content,
      CopySource acl ⟨src, dst, mimeType, collision, viewer⟩ desk.store.db path content ∧
      RepeatsAt (collision.getD .error) desk.store.db path content.hash
  | _ => False

def Addressed : Event → Prop
  | .putSettled _ (.ok put) => put.hash ≠ ""
  | _ => True

theorem balanced_transition {desk : Desk} {event : Event} {after : FilesystemStore} {owed : String → Int}
    (h : Balanced owed desk.store.db) (hLeak : ∀ hash, owed hash ≤ 0) (hTransition : Transition desk event after)
    (hAddressed : Addressed event) :
    ∃ left, (∀ hash, left hash ≤ owed hash) ∧ (¬Repeats desk event → left = owed) ∧ Balanced left after.db := by
  have hKept : Balanced owed after.db →
      ∃ left, (∀ hash, left hash ≤ owed hash) ∧ (¬Repeats desk event → left = owed) ∧ Balanced left after.db :=
    fun hAfter => ⟨owed, fun _ => Int.le_refl _, fun _ => rfl, hAfter⟩
  cases hTransition with
  | built hBuilds => exact hKept (h.built hBuilds.1)
  | settled hWaiting hWrote =>
    rename_i index put write
    have hStored : (upsertBlob put.hash put.size write.now desk.store.db).blobs.find put.hash ≠ none := by
      have hFind := find_insertOrIgnore desk.store.db.blobs ⟨put.hash, put.size, 0, write.now⟩ put.hash
      change (desk.store.db.blobs.insertOrIgnore ⟨put.hash, put.size, 0, write.now⟩).find put.hash ≠ none
      rw [hFind, if_pos rfl]
      cases desk.store.db.blobs.find put.hash <;> simp
    obtain ⟨left, hLeft, hSame, hAfter⟩ := (h.upsertBlob put.hash put.size write.now).wrote hLeak hWrote hStored hAddressed
    exact ⟨left, hLeft, fun hNew => hSame fun hRepeats => hNew ⟨write, hWaiting, hRepeats⟩, hAfter⟩
  | copied hCopied =>
    obtain ⟨built, dst, content, hBuilds, hHoused, hSource, hWrote⟩ := hCopied
    obtain ⟨src, row, hSrc, _, hRow, hKind, hHash⟩ := hSource.found
    obtain ⟨hSome, hNonempty⟩ := Option.filter_eq_some_iff.mp hHash
    have hBuilt := h.built hBuilds.1
    have hStored := hBuilt.stored_of_row (hBuilds.1.getEntry hRow) hKind hHash
    obtain ⟨left, hLeft, hSame, hAfter⟩ := hBuilt.wrote hLeak hWrote hStored (of_decide_eq_true hNonempty)
    refine ⟨left, hLeft, fun hNew => hSame fun ⟨hAsked, existing, hFound, hFile, hContent⟩ => ?_, hAfter⟩
    have hBefore := hBuilds.1.file_before hFound hFile
    exact hNew ⟨dst, content, hSource, hAsked, existing, hBefore, hFile, hContent⟩
  | removed hRemoving =>
    rename_i path target
    exact hKept (h.dropRows hLeak (fun row hRow => ((mem_removedRows hRemoving.found).mp hRow).1)
      (nodup_removedRows desk.store.db path target))
  | moved hMoving =>
    exact hKept ((h.built hMoving.builds.1).relocate (hMoving.builds.1.getEntry hMoving.found) hMoving.free)
  | granted => exact hKept (h.same rfl fun _ => rfl)

/-- The counts are exact after every step of a run that repeats no content. -/
theorem counts_exact (events : List Event) (hAddressed : ∀ event ∈ events, Addressed event)
    (hRepeats : ∀ step ∈ run serve Desk.empty events, ¬Repeats step.before step.input) :
    ∀ step ∈ run serve Desk.empty events, Counted step.after.store.db := by
  have hKept : ∀ desk event, WellServed desk ∧ Balanced (fun _ => 0) desk.store.db → ¬Repeats desk event ∧ Addressed event →
      WellServed (serve desk event).1 ∧ Balanced (fun _ => 0) (serve desk event).1.store.db := by
    rintro desk event ⟨hServed, hBalanced⟩ ⟨hNew, hNamed⟩
    obtain ⟨left, _, hSame, hAfter⟩ :=
      balanced_transition hBalanced (fun _ => Int.le_refl 0) (transition_serve hServed event) hNamed
    rw [hSame hNew] at hAfter
    exact ⟨wellServed_serve desk event hServed, hAfter⟩
  have hEmpty : Balanced (fun _ => 0) Desk.empty.store.db := ⟨fun _ _ hBlob => (nomatch hBlob), fun _ _ => ⟨rfl, rfl⟩, rfl⟩
  have hMeets : ∀ step ∈ run serve Desk.empty events, ¬Repeats step.before step.input ∧ Addressed step.input := by
    intro step hStep
    have hEvent := List.mem_map_of_mem (f := Step.input) hStep
    rw [map_input_run] at hEvent
    exact ⟨hRepeats step hStep, hAddressed step.input hEvent⟩
  intro step hStep
  obtain ⟨hBefore, hAt⟩ := run_invariant_of hKept ⟨wellServed_empty, hEmpty⟩ hMeets step hStep
  obtain ⟨_, hAfter⟩ := hKept step.before step.input hBefore (hMeets step hStep)
  rw [hAt]
  exact hAfter.counted

def notesWrites (second : String) : List Event :=
  [.call none lookalike 1 (.writeFile "/axb/notes.txt" "text/plain" none), .putSettled 0 (.ok ⟨"c0de", 5⟩),
    .call none lookalike 2 (.writeFile "/axb/notes.txt" "text/plain" (some .overwrite)), .putSettled 0 (.ok ⟨second, 5⟩)]

theorem counts_exact_notes : Counted (final serve Desk.empty (notesWrites "beef")).store.db := by
  refine counts_exact (notesWrites "beef") ?_ ?_ _ (List.getLast_mem (List.cons_ne_nil _ _))
  · simp [notesWrites, Addressed]
  · simp only [notesWrites, run_cons, run_nil, List.forall_mem_cons]
    refine ⟨id, ?_, id, ?_, fun _ hNone => (nomatch hNone)⟩
    · rintro ⟨write, hWrite, _, existing, hFound, _, _⟩
      cases hWrite
      cases hFound
    · rintro ⟨write, hWrite, _, existing, hFound, _, hSame⟩
      cases hWrite
      cases hFound
      revert hSame
      decide

theorem repeated_content_counts_twice :
    ¬∀ events : List Event, (∀ event ∈ events, Addressed event) →
      ∀ step ∈ run serve Desk.empty events, Counted step.after.store.db := by
  intro h
  have hCounted := h (notesWrites "c0de") (by simp [notesWrites, Addressed]) _ (List.getLast_mem (List.cons_ne_nil _ _))
  have hExact := hCounted.exact ⟨"c0de", 5, 2, 1⟩ (by decide)
  revert hExact
  decide

end CommandSuite.Files
