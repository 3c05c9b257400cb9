import CommandSuite.Core.Files.Removal

/-! # The tree

Every entry is in a directory, and its owner is that of its path.
-/

namespace CommandSuite.Files

open Library Fallible Database Transcript Table

structure WellFormed (db : Database) : Prop where
  housed : ∀ row ∈ db.entries.rows, row.parentPath = ROOT_PATH ∨
    ∃ parent ∈ db.entries.rows, parent.path = row.parentPath ∧ parent.kind = .directory
  leaf : ∀ file ∈ db.entries.rows, file.kind = .file → ∀ row ∈ db.entries.rows, row.parentPath ≠ file.path
  owned : ∀ row ∈ db.entries.rows, ownerOf row.path = some row.owner

structure Tree (db : Database) : Prop where
  filed : Filed db
  housed : ∀ path row, db.getEntry path = some row → IsDirectory db (parentOf path)
  owned : ∀ path row, db.getEntry path = some row → ownerOf path = some row.owner

theorem not_isDirectory {db : Database} {path : Path} {row : FsEntryRow} (hFiled : Filed db) (hRow : db.getEntry path = some row)
    (hKind : row.kind = .file) : ¬IsDirectory db path := by
  rintro (hRoot | ⟨other, hOther, hDirectory⟩)
  · exact (hFiled path row hRow).belowRoot ((path_of_getEntry hRow).trans hRoot)
  · cases hRow.symm.trans hOther
    cases hKind.symm.trans hDirectory

theorem parentOf_sibling {path sibling : Path} {i : Nat}
    (h : siblingPath (parentOf path) (candidate (basenameOf path) i) = .ok sibling) : parentOf sibling = parentOf path := by
  have hSegments := segments_of_siblingPath h
  rw [segmentsOf_candidate (not_slash_basenameOf path)] at hSegments
  exact Path.ext (by simp only [parentOf, hSegments, List.dropLast_concat])

theorem parentOf_goes {collision : WriteCollisionStrategy} {db : Database} {path target : Path} (h : Goes collision db path target) :
    parentOf target = parentOf path := by
  rcases h with rfl | ⟨_, _, _, _, _, hSibling, _⟩
  · rfl
  · exact parentOf_sibling hSibling

theorem isListedBelow_below {path : Path} {parent row : FsEntryRow} (hRoot : path ≠ ROOT_PATH) (hBelow : parent.path ≠ ROOT_PATH)
    (hAncestor : isAncestorPath parent.path row.path = true) (h : isListedBelow path parent = true) : isListedBelow path row = true := by
  by_cases hSame : parent.path = path
  · rw [hSame] at hAncestor
    exact isListedBelow_of_isAncestorPath hAncestor hRoot
  · simp only [isListedBelow, hSame, decide_false, Bool.false_or] at h
    simp only [isListedBelow, Bool.or_eq_true, decide_eq_true_eq]
    refine .inr ?_
    simp only [isAncestorPath, Bool.or_eq_true, decide_eq_true_eq] at hAncestor
    rcases hAncestor with (hEqual | hTop) | hStarts
    · rwa [← hEqual]
    · exact absurd hTop hBelow
    · obtain ⟨rest, hRest⟩ := (Text.startsWith_iff _ _).mp hStarts
      have hText : row.path.render.toList = parent.path.render.toList ++ ('/' :: rest) := by
        rw [← hRest, String.toList_append, List.append_assoc]
        rfl
      have hPattern : path.render.toList ++ ['/', '%'] = (path.render.toList ++ ['/']) ++ ['%'] := by
        rw [List.append_assoc]
        rfl
      rw [hPattern] at h ⊢
      rw [hText]
      exact Sql.matchLike_extend h ('/' :: rest)

theorem isAncestorPath_parentOf (path : Path) : isAncestorPath (parentOf path) path = true :=
  (isAncestorPath_iff _ _).mpr (List.dropLast_prefix _)

namespace Tree

variable {db after : Database}

theorem empty : Tree Desk.empty.store.db :=
  ⟨wellServed_empty.filed, fun _ _ hRow => (nomatch hRow), fun _ _ hRow => (nomatch hRow)⟩

section

variable (h : Tree db)
include h

theorem wellFormed : WellFormed db := by
  have hHoused : ∀ row ∈ db.entries.rows, row.parentPath = ROOT_PATH ∨
      ∃ parent, db.getEntry row.parentPath = some parent ∧ parent.kind = .directory := by
    intro row hRow
    have hEntry : db.getEntry row.path = some row := find_key hRow
    rw [(h.filed row.path row hEntry).parent]
    exact h.housed row.path row hEntry
  refine ⟨fun row hRow => ?_, fun file hFile hKind row hRow hParent => ?_, fun row hRow => h.owned row.path row (find_key hRow)⟩
  · refine (hHoused row hRow).imp_right fun ⟨parent, hParent, hKind⟩ => ?_
    exact ⟨parent, mem_of_find hParent, path_of_getEntry hParent, hKind⟩
  · have hDirectory : IsDirectory db file.path := hParent ▸ hHoused row hRow
    exact not_isDirectory h.filed (find_key hFile) hKind hDirectory

theorem of_entries (hEntries : after.entries = db.entries) : Tree after := by
  cases db
  cases after
  cases hEntries
  exact ⟨h.filed, h.housed, h.owned⟩

theorem withRow {row : FsEntryRow} (hFree : db.getEntry row.path = none) (hRow : FiledRow row)
    (hHoused : IsDirectory db (parentOf row.path)) (hOwned : ownerOf row.path = some row.owner) : Tree (withRow row db) := by
  have hEntry := getEntry_withRow hFree
  have hKept : ∀ path, IsDirectory db path → IsDirectory (Files.withRow row db) path := by
    refine fun path hPath => hPath.imp_right fun ⟨other, hOther, hKind⟩ => ⟨other, ?_, hKind⟩
    rw [hEntry, if_neg]
    · exact hOther
    · rintro rfl
      cases hFree.symm.trans hOther
  refine ⟨fun path other hOther => ?_, fun path other hOther => ?_, fun path other hOther => ?_⟩
  all_goals
    rw [hEntry] at hOther
    split at hOther
  · cases hOther
    exact hRow
  · exact h.filed path other hOther
  · rename_i hPath
    rw [hPath]
    exact hKept _ hHoused
  · exact hKept _ (h.housed path other hOther)
  · rename_i hPath
    cases hOther
    rw [hPath]
    exact hOwned
  · exact h.owned path other hOther

theorem without (gone : Path → Prop) [DecidablePred gone]
    (hEntry : ∀ path, after.getEntry path = if gone path then none else db.getEntry path)
    (hClosed : ∀ path row, db.getEntry path = some row → gone (parentOf path) → gone path) : Tree after := by
  have hKept : ∀ path row, after.getEntry path = some row → ¬gone path ∧ db.getEntry path = some row := by
    intro path row hRow
    rw [hEntry] at hRow
    split at hRow
    · cases hRow
    · rename_i hStays
      exact ⟨hStays, hRow⟩
  refine ⟨fun path row hRow => h.filed path row (hKept path row hRow).2, fun path row hRow => ?_,
    fun path row hRow => h.owned path row (hKept path row hRow).2⟩
  obtain ⟨hStays, hBefore⟩ := hKept path row hRow
  refine (h.housed path row hBefore).imp_right fun ⟨parent, hParent, hKind⟩ => ⟨parent, ?_, hKind⟩
  rw [hEntry, if_neg fun hGone => hStays (hClosed path row hBefore hGone)]
  exact hParent

theorem built (hBuilt : Built db after) : Tree after := by
  induction hBuilt with
  | refl => exact h
  | tail _ hMade ih =>
    cases hMade with
    | made hFree hOwner hHoused => exact ih.withRow hFree (filed_directoryRow hOwner) hHoused hOwner

theorem updateEntryContent (hash : String) (size : Nat) (mimeType : String) (now : Int) (path : Path) :
    Tree (updateEntryContent hash size mimeType now path db) := by
  have hUpdate := getEntry_updateEntryContent hash size mimeType now path db
  have hChanges : Changes (fun _ => True) (fun _ => True) db (Database.updateEntryContent hash size mimeType now path db) :=
    Changes.of_updateEntryContent trivial hash size mimeType now db
  have hBefore : ∀ other row, (Database.updateEntryContent hash size mimeType now path db).getEntry other = some row →
      ∃ old, db.getEntry other = some old ∧ row.owner = old.owner := by
    intro other row hRow
    rw [hUpdate] at hRow
    obtain ⟨old, hOld, rfl⟩ := Option.map_eq_some_iff.mp hRow
    refine ⟨old, hOld, ?_⟩
    split <;> rfl
  refine ⟨hChanges.filed h.filed, fun other row hRow => ?_, fun other row hRow => ?_⟩
  · obtain ⟨old, hOld, _⟩ := hBefore other row hRow
    refine (h.housed other old hOld).imp_right fun ⟨parent, hParent, hKind⟩ => ?_
    rw [hUpdate, hParent, Option.map_some]
    split
    · exact ⟨_, rfl, hKind⟩
    · exact ⟨parent, rfl, hKind⟩
  · obtain ⟨old, hOld, hOwner⟩ := hBefore other row hRow
    rw [hOwner]
    exact h.owned other old hOld

end

variable {store : FilesystemStore}

theorem overwrite (h : Tree store.db) (path : Path) (content : Content) (now : Int) (prior : Option String) :
    Tree (overwrite path content now prior store).db :=
  (h.updateEntryContent content.hash content.size content.mimeType now path).of_entries (entries_overwrite path content now prior store)

theorem wrote {collision : WriteCollisionStrategy} {path : Path} {content : Content} {creator : String} {now : Int}
    {before after : FilesystemStore} (h : Tree before.db) (hWrote : Wrote collision path content creator now before after)
    (hHoused : before.db.getEntry path = none → IsDirectory before.db (parentOf path)) : Tree after.db := by
  cases hWrote with
  | overwritten => exact h.overwrite path content now _
  | created hGoes hFree hOwned =>
    rename_i target owner
    have hParent : IsDirectory before.db (parentOf target) := by
      rw [parentOf_goes hGoes]
      cases hEntry : before.db.getEntry path with
      | none => exact hHoused hEntry
      | some row => exact h.housed path row hEntry
    have hRow : Tree (Files.withRow (fileRow target owner content creator now) before.db) :=
      h.withRow hFree (filed_fileRow hOwned) hParent hOwned
    exact hRow.of_entries rfl

theorem removed {path : Path} {target : FsEntryRow} (h : Tree store.db)
    (hTarget : store.db.getEntry path = some target) (hRoot : path ≠ ROOT_PATH) :
    Tree (dropped (removedRows store.db path target) store).db := by
  refine h.without (fun other => other ∈ (removedRows store.db path target).map FsEntryRow.path)
    (fun other => getEntry_dropRows _ (store.db, []) other) fun other row hRow hParent => ?_
  obtain rfl := path_of_getEntry hRow
  obtain ⟨parent, hGone, hPath⟩ := List.mem_map.mp hParent
  obtain ⟨hEntry, hListed⟩ := (mem_removedRows hTarget).mp hGone
  refine List.mem_map_of_mem ((mem_removedRows hTarget).mpr ⟨hRow, ?_⟩)
  cases hKind : target.kind with
  | file =>
    -- nothing is in a file
    rw [hKind] at hListed
    dsimp only at hListed
    rw [hListed] at hPath
    have hDirectory := h.housed row.path row hRow
    rw [← hPath] at hDirectory
    exact absurd hDirectory (not_isDirectory h.filed hTarget hKind)
  | directory =>
    rw [hKind] at hListed
    refine isListedBelow_below hRoot (h.filed parent.path parent hEntry).belowRoot ?_ hListed
    rw [hPath]
    exact isAncestorPath_parentOf row.path

theorem relocated {src dst : Path} {row : FsEntryRow} {now : Int} (h : Tree store.db)
    (hRow : store.db.getEntry src = some row) (hFile : row.kind = .file) (hFree : store.db.getEntry dst = none)
    (hRoot : dst ≠ ROOT_PATH) (hHoused : IsDirectory store.db (parentOf dst)) (hScope : ownerOf src = ownerOf dst) :
    Tree (relocate src dst now row store).db := by
  have hLeaf := not_isDirectory h.filed hRow hFile
  have hDeleted : Tree (deleteEntry src store.db) := by
    refine h.without (fun path => path = src) (getEntry_deleteEntry store.db src) fun path child hChild hParent => ?_
    have hDirectory := h.housed path child hChild
    rw [hParent] at hDirectory
    exact absurd hDirectory hLeaf
  have hStill : IsDirectory (deleteEntry src store.db) (parentOf dst) := by
    have hOther : parentOf dst ≠ src := fun hSame => hLeaf (hSame ▸ hHoused)
    refine hHoused.imp_right fun ⟨parent, hParent, hKind⟩ => ⟨parent, ?_, hKind⟩
    rw [getEntry_deleteEntry, if_neg hOther]
    exact hParent
  have hGone : (deleteEntry src store.db).getEntry (renamedRow dst now row).path = none := by
    rw [getEntry_deleteEntry]
    split
    · rfl
    · exact hFree
  have hFiled : FiledRow (renamedRow dst now row) := ⟨hRoot, rfl, rfl, fun hDirectory => nomatch hFile.symm.trans hDirectory⟩
  have hOwned : ownerOf dst = some row.owner := hScope ▸ h.owned src row hRow
  exact (hDeleted.withRow hGone hFiled hStill hOwned).of_entries (entries_foldl_insertGrant _ _)

end Tree

/-! ## Runs -/

/-- A write that inserts finds the directory of its path still there, and a file moves within a scope. -/
def Orderly (desk : Desk) : Event → Prop
  | .putSettled index (.ok _) => ∀ write, desk.pending[index]? = some write → desk.store.db.getEntry write.path = none →
      IsDirectory desk.store.db (parentOf write.path)
  | .call acl viewer _ (.move source destination) => ∀ src dst row, normalizePath source = .ok src →
      normalizePath destination = .ok dst → canWrite acl src viewer = true ∧ canWrite acl dst viewer = true →
      desk.store.db.getEntry src = some row → row.kind = .file → dst ≠ ROOT_PATH → desk.store.db.getEntry dst = none →
      ownerOf src = ownerOf dst
  | _ => True

theorem tree_transition {desk : Desk} {event : Event} {after : FilesystemStore} (h : Tree desk.store.db)
    (hTransition : Transition desk event after) (hOrderly : Orderly desk event) : Tree after.db := by
  cases hTransition with
  | built hBuilds => exact h.built hBuilds.1
  | settled hWaiting hWrote =>
    rename_i index put write
    have hUpsert : Tree (upsertBlob put.hash put.size write.now desk.store.db) := h.of_entries rfl
    exact hUpsert.wrote hWrote (hOrderly _ hWaiting)
  | copied hCopied =>
    obtain ⟨built, dst, content, hBuilds, hHoused, _, hWrote⟩ := hCopied
    exact (h.built hBuilds.1).wrote hWrote fun _ => hHoused
  | removed hRemoving => exact h.removed hRemoving.found hRemoving.belowRoot
  | moved hMoving =>
    rename_i src dst row built
    have hFree : desk.store.db.getEntry dst = none := by
      cases hEntry : desk.store.db.getEntry dst with
      | none => rfl
      | some other => cases hMoving.free.symm.trans (hMoving.builds.1.getEntry hEntry)
    have hScope := hOrderly src dst row hMoving.fromPath hMoving.toPath hMoving.writable hMoving.found hMoving.isFile
      hMoving.belowRoot hFree
    exact (h.built hMoving.builds.1).relocated (hMoving.builds.1.getEntry hMoving.found) hMoving.isFile hMoving.free
      hMoving.belowRoot hMoving.housed hScope
  | granted => exact h.of_entries rfl

/-- The tree is well formed after every step of an orderly run. -/
theorem wellFormed_run (events : List Event)
    (hOrderly : ∀ step ∈ run serve Desk.empty events, Orderly step.before step.input) :
    ∀ step ∈ run serve Desk.empty events, WellFormed step.after.store.db := by
  have hKept : ∀ desk event, WellServed desk ∧ Tree desk.store.db → Orderly desk event →
      WellServed (serve desk event).1 ∧ Tree (serve desk event).1.store.db := by
    rintro desk event ⟨hServed, hTree⟩ hMeets
    exact ⟨wellServed_serve desk event hServed, tree_transition hTree (transition_serve hServed event) hMeets⟩
  intro step hStep
  obtain ⟨hBefore, hAt⟩ := run_invariant_of hKept ⟨wellServed_empty, Tree.empty⟩ hOrderly step hStep
  obtain ⟨_, hAfter⟩ := hKept step.before step.input hBefore (hOrderly step hStep)
  rw [hAt]
  exact hAfter.wellFormed

/-! A file that moves within a home, and one whose directory goes while its bytes are put. -/

def notesMove : List Event :=
  [.call none lookalike 1 (.writeFile "/axb/drafts/notes.txt" "text/plain" none), .putSettled 0 (.ok ⟨"c0de", 5⟩),
    .call none lookalike 2 (.move "/axb/drafts/notes.txt" "/axb/old/notes.txt")]

theorem wellFormed_notesMove : WellFormed (final serve Desk.empty notesMove).store.db := by
  refine wellFormed_run notesMove ?_ _ (List.getLast_mem (List.cons_ne_nil _ _))
  simp only [notesMove, run_cons, run_nil, List.forall_mem_cons]
  refine ⟨trivial, fun write hWrite _ => ?_, fun src dst row hSrc hDst _ _ _ _ _ => ?_, fun _ hNone => (nomatch hNone)⟩
  · cases hWrite
    refine .inr ⟨directoryRow ⟨["axb", "drafts"], by decide, by decide⟩ "axb" "axb" 1, ?_, rfl⟩
    decide
  · have hFrom := segments_of_normalizePath hSrc
    have hTo := segments_of_normalizePath hDst
    rw [ownerOf, ownerOf, hFrom, hTo]
    decide

def vanishingDrafts : List Event :=
  [.call none lookalike 1 (.writeFile "/axb/drafts/notes.txt" "text/plain" none), .call none lookalike 2 (.remove "/axb/drafts" true),
    .putSettled 0 (.ok ⟨"c0de", 5⟩)]

theorem entry_without_directory :
    ¬∀ events : List Event, ∀ step ∈ run serve Desk.empty events, WellFormed step.after.store.db := by
  intro h
  have hHoused := (h vanishingDrafts _ (List.getLast_mem (List.cons_ne_nil _ _))).housed
  revert hHoused
  decide

end CommandSuite.Files
