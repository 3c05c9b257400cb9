import CommandSuite.Core.Files.Effects

/-! # What a removal takes away

The descendants of a directory are found by a pattern. It matches all of them, and it may match rows
that are elsewhere.
-/

namespace CommandSuite.Files

open Library Fallible Database Transcript

/-- The subtree of the path is gone, everything else is as it was, and the writer could write what is gone. -/
structure RemovesSubtree (acl : ObjectiveAcl) (writer : ViewerContext) (path : Path) (before after : Database) : Prop where
  entries : ∀ other, after.getEntry other = if isAncestorPath path other = true then none else before.getEntry other
  grants : ∀ grant, grant ∈ after.grants.rows ↔
    grant ∈ before.grants.rows ∧ ((before.getEntry grant.path).isSome = true → isAncestorPath path grant.path = false)
  entitled : ∀ other, (before.getEntry other).isSome = true → after.getEntry other = none → canWrite acl other writer = true

/-- The pattern of a directory matches nothing outside it, nothing is below a file, and where scopes begin the writer may
write what is there. -/
structure Contained (acl : ObjectiveAcl) (writer : ViewerContext) (path : Path) (target : FsEntryRow) (db : Database) : Prop where
  aimed : target.kind = .directory → ∀ row, db.getEntry row.path = some row → isListedBelow path row = true →
    isAncestorPath path row.path = true
  leaf : target.kind = .file → ∀ other, isAncestorPath path other = true → other ≠ path → db.getEntry other = none
  entitled : HoldsScopes path → ∀ other, isAncestorPath path other = true → (db.getEntry other).isSome = true →
    canWrite acl other writer = true

section Removal

variable {acl : ObjectiveAcl} {writer : ViewerContext} {raw : String} {path : Path} {target : FsEntryRow} {db : Database}

theorem isListedBelow_of_isAncestorPath {row : FsEntryRow} (h : isAncestorPath path row.path = true) (hRoot : path ≠ ROOT_PATH) :
    isListedBelow path row = true := by
  simp only [isAncestorPath, Bool.or_eq_true, decide_eq_true_eq] at h
  simp only [isListedBelow, Bool.or_eq_true, decide_eq_true_eq]
  rcases h with (hSame | hTop) | hBelow
  · exact .inl hSame.symm
  · exact absurd hTop hRoot
  · obtain ⟨rest, hRest⟩ := (Text.startsWith_iff _ _).mp hBelow
    refine .inr ?_
    have hText : row.path.render.toList = path.render.toList ++ ('/' :: rest) := by
      rw [← hRest, String.toList_append, List.append_assoc]
      rfl
    rw [hText]
    refine Sql.matchLike_append_self path.not_percent ?_
    rw [Sql.matchLike_literal (by decide), beq_self_eq_true, Bool.true_and]
    exact Sql.matchLike_any rest

theorem mem_removedRows {row : FsEntryRow} (hTarget : db.getEntry path = some target) :
    row ∈ removedRows db path target ↔ db.getEntry row.path = some row ∧
      match target.kind with
      | .file => row.path = path
      | .directory => isListedBelow path row = true := by
  unfold removedRows
  cases target.kind with
  | file =>
    rw [List.mem_singleton]
    constructor
    · rintro rfl
      rw [path_of_getEntry hTarget]
      exact ⟨hTarget, rfl⟩
    · rintro ⟨hRow, hPath⟩
      rw [hPath, hTarget] at hRow
      exact (Option.some.inj hRow).symm
  | directory => exact mem_listDescendants db path row

theorem nodup_removedRows (db : Database) (path : Path) (target : FsEntryRow) :
    ((removedRows db path target).map FsEntryRow.path).Nodup := by
  unfold removedRows
  cases target.kind with
  | file => exact List.nodup_singleton _
  | directory =>
    have hSorted := List.perm_insertionSort (fun a b : FsEntryRow => b.path.render.length ≤ a.path.render.length)
      (db.entries.select (isListedBelow path))
    exact (hSorted.map FsEntryRow.path).nodup_iff.mpr (db.entries.nodup.sublist (List.filter_sublist.map FsEntryRow.path))

theorem mem_grants_dropRows (rows : List FsEntryRow) (state : Database × List String) (grant : FsGrantRow) :
    grant ∈ (rows.foldl dropRow state).1.grants.rows ↔ grant ∈ state.1.grants.rows ∧ grant.path ∉ rows.map FsEntryRow.path := by
  induction rows generalizing state with
  | nil => simp
  | cons row rows ih =>
    have hFirst : grant ∈ (dropRow state row).1.grants.rows ↔ grant ∈ state.1.grants.rows ∧ grant.path ≠ row.path := by
      rw [grants_dropRow, deleteGrantsForPath, Table.delete, List.mem_filter]
      simp
    rw [List.foldl_cons, ih, hFirst, List.map_cons, List.mem_cons, not_or, and_assoc]

def TakesSubtree (path : Path) (target : FsEntryRow) (db : Database) : Prop :=
  ∀ other, (db.getEntry other).isSome = true →
    (other ∈ (removedRows db path target).map FsEntryRow.path ↔ isAncestorPath path other = true)

theorem takesSubtree_iff (hTarget : db.getEntry path = some target) (hRoot : path ≠ ROOT_PATH) :
    TakesSubtree path target db ↔
      (target.kind = .directory → ∀ row, db.getEntry row.path = some row → isListedBelow path row = true →
        isAncestorPath path row.path = true) ∧
      (target.kind = .file → ∀ other, isAncestorPath path other = true → other ≠ path → db.getEntry other = none) := by
  have hSelf : isAncestorPath path path = true := (isAncestorPath_iff path path).mpr (List.prefix_refl _)
  have hMem : ∀ row, db.getEntry row.path = some row →
      (row.path ∈ (removedRows db path target).map FsEntryRow.path ↔ row ∈ removedRows db path target) := by
    intro row hRow
    constructor
    · intro hPath
      obtain ⟨other, hOther, hSame⟩ := List.mem_map.mp hPath
      have hEntry := ((mem_removedRows hTarget).mp hOther).1
      rw [hSame, hRow] at hEntry
      rwa [Option.some.inj hEntry]
    · exact List.mem_map_of_mem
  constructor
  · intro hTakes
    refine ⟨fun hKind row hRow hListed => ?_, fun hKind other hBelow hOther => ?_⟩
    · refine (hTakes row.path (by rw [hRow]; rfl)).mp ((hMem row hRow).mpr ((mem_removedRows hTarget).mpr ⟨hRow, ?_⟩))
      rwa [hKind]
    · by_contra hSome
      obtain ⟨row, hRow⟩ := Option.ne_none_iff_exists'.mp hSome
      obtain rfl := path_of_getEntry hRow
      have hRemoved := ((mem_removedRows hTarget).mp ((hMem row hRow).mp ((hTakes row.path (by rw [hRow]; rfl)).mpr hBelow))).2
      rw [hKind] at hRemoved
      exact hOther hRemoved
  · rintro ⟨hAimed, hLeaf⟩ other hSome
    obtain ⟨row, hRow⟩ := Option.isSome_iff_exists.mp hSome
    obtain rfl := path_of_getEntry hRow
    rw [hMem row hRow, mem_removedRows hTarget]
    cases hKind : target.kind with
    | file =>
      constructor
      · rintro ⟨_, hPath⟩
        dsimp only at hPath
        rw [hPath]
        exact hSelf
      · intro hBelow
        refine ⟨hRow, ?_⟩
        by_contra hOther
        rw [hLeaf hKind row.path hBelow hOther] at hRow
        cases hRow
    | directory => exact ⟨fun hListed => hAimed hKind row hRow hListed.2, fun hBelow => ⟨hRow, isListedBelow_of_isAncestorPath hBelow hRoot⟩⟩

theorem removesSubtree_iff {store : FilesystemStore} (h : Removing acl writer raw store.db path target) :
    RemovesSubtree acl writer path store.db (dropped (removedRows store.db path target) store).db ↔
      Contained acl writer path target store.db := by
  have hTakes := takesSubtree_iff h.found h.belowRoot
  let gone := (removedRows store.db path target).map FsEntryRow.path
  have hEntry : ∀ other, (dropped (removedRows store.db path target) store).db.getEntry other =
      if other ∈ gone then none else store.db.getEntry other := fun other => getEntry_dropRows _ (store.db, []) other
  have hGrant : ∀ grant, grant ∈ (dropped (removedRows store.db path target) store).db.grants.rows ↔
      grant ∈ store.db.grants.rows ∧ grant.path ∉ gone := fun grant => mem_grants_dropRows _ (store.db, []) grant
  have hGone : ∀ other ∈ gone, (store.db.getEntry other).isSome = true := by
    intro other hOther
    obtain ⟨row, hRow, rfl⟩ := List.mem_map.mp hOther
    rw [((mem_removedRows h.found).mp hRow).1]
    rfl
  constructor
  · rintro ⟨hEntries, _, hEntitled⟩
    have hSubtree : TakesSubtree path target store.db := by
      intro other hSome
      have hAfter := (hEntry other).symm.trans (hEntries other)
      obtain ⟨row, hRow⟩ := Option.isSome_iff_exists.mp hSome
      rw [hRow] at hAfter
      constructor
      · intro hOther
        rw [if_pos hOther] at hAfter
        by_contra hOutside
        rw [if_neg hOutside] at hAfter
        cases hAfter
      · intro hBelow
        rw [if_pos hBelow] at hAfter
        by_contra hKept
        rw [if_neg hKept] at hAfter
        cases hAfter
    obtain ⟨hAimed, hLeaf⟩ := hTakes.mp hSubtree
    refine ⟨hAimed, hLeaf, fun _ other hBelow hSome => hEntitled other hSome ?_⟩
    rw [hEntries, if_pos hBelow]
  · rintro ⟨hAimed, hLeaf, hEntitled⟩
    have hSubtree := hTakes.mpr ⟨hAimed, hLeaf⟩
    refine ⟨fun other => ?_, fun grant => ?_, fun other hSome hNone => ?_⟩
    · rw [hEntry]
      cases hOther : store.db.getEntry other with
      | none => simp
      | some row => simp only [gone, hSubtree other (by rw [hOther]; rfl)]
    · rw [hGrant]
      refine and_congr_right fun _ => ?_
      constructor
      · intro hKept hSome
        exact Bool.eq_false_iff.mpr fun hBelow => hKept ((hSubtree grant.path hSome).mpr hBelow)
      · intro hOutside hTaken
        have hBelow := (hSubtree grant.path (hGone _ hTaken)).mp hTaken
        rw [hOutside (hGone _ hTaken)] at hBelow
        cases hBelow
    · have hBelow : isAncestorPath path other = true := by
        refine (hSubtree other hSome).mp ?_
        by_contra hKept
        rw [hEntry, if_neg hKept] at hNone
        rw [hNone] at hSome
        cases hSome
      by_cases hScopes : HoldsScopes path
      · exact hEntitled hScopes other hBelow hSome
      · rw [canWrite_below ((isAncestorPath_iff path other).mp hBelow) hScopes]
        exact h.writable

/-- What a successful remove takes is the subtree of its path, all of it writable, exactly when the removal is contained. -/
theorem removes_subtree_iff_contained {store after : FilesystemStore} {recursive : Bool}
    (hPath : normalizePath raw = .ok path) (hTarget : store.db.getEntry path = some target)
    (hRun : run (remove acl raw writer recursive) store = (.ok (), after)) :
    RemovesSubtree acl writer path store.db after.db ↔ Contained acl writer path target store.db := by
  have hEnds : Ends (remove acl raw writer recursive) store _ := ends_remove
  rw [ends_iff_run, hRun] at hEnds
  obtain ⟨normalized, found, hRemoving, rfl⟩ := hEnds
  cases hPath.symm.trans hRemoving.normalized
  cases hTarget.symm.trans hRemoving.found
  exact removesSubtree_iff hRemoving

end Removal

/-! Two members whose names differ in one character, and one of them removes their own home. -/

def underscored : ViewerContext := ⟨⟨"a_b", by decide⟩, []⟩

def lookalike : ViewerContext := ⟨⟨"axb", by decide⟩, []⟩

def lookalikeFile : Path := ⟨["axb", "notes.txt"], by decide, by decide⟩

def underscoredHome : Path := ⟨["a_b"], by decide, by decide⟩

def lookalikeWrites : List Event :=
  [.ensureHome underscored.name 1, .call none lookalike 2 (.writeFile "/axb/notes.txt" "text/plain" none),
    .putSettled 0 (.ok ⟨"c0de", 5⟩)]

def homes : FilesystemStore := (final serve Desk.empty lookalikeWrites).store

def lookalikeHome : Path := ⟨["axb"], by decide, by decide⟩

def lookalikeRow : FsEntryRow := directoryRow lookalikeHome "axb" "axb" 2

theorem lookalike_removes_home :
    RemovesSubtree none lookalike lookalikeHome homes.db (run (remove none "/axb" lookalike true) homes).2.db := by
  have hRows : ∀ row ∈ homes.db.entries.rows, isListedBelow lookalikeHome row = true → isAncestorPath lookalikeHome row.path = true := by
    decide
  have hPath : normalizePath "/axb" = .ok lookalikeHome := normalizePath_render lookalikeHome
  have hTarget : homes.db.getEntry lookalikeHome = some lookalikeRow := by decide
  have hRun : run (remove none "/axb" lookalike true) homes = (.ok (), (run (remove none "/axb" lookalike true) homes).2) := rfl
  refine (removes_subtree_iff_contained hPath hTarget hRun).mpr ⟨?_, ?_, ?_⟩
  · exact fun _ row hRow => hRows row (Table.mem_of_find hRow)
  · rintro ⟨⟩
  · intro hScopes
    have hNone : ¬HoldsScopes lookalikeHome := by
      unfold HoldsScopes
      decide
    exact absurd hScopes hNone

theorem removal_takes_lookalike :
    ¬∀ (events : List Event) (acl : ObjectiveAcl) (writer : ViewerContext) (raw : String) (recursive : Bool) (path : Path)
      (after : FilesystemStore), normalizePath raw = .ok path →
      run (remove acl raw writer recursive) (final serve Desk.empty events).store = (.ok (), after) →
      RemovesSubtree acl writer path (final serve Desk.empty events).store.db after.db := by
  intro h
  have hRemoved := h lookalikeWrites none underscored "/a_b" false underscoredHome _ (normalizePath_render underscoredHome) rfl
  have hKept := hRemoved.entries lookalikeFile
  revert hKept
  decide

end CommandSuite.Files
