import CommandSuite.Core.Files.Calls
import CommandSuite.Core.Files.Footprint
import CommandSuite.Core.Files.Scopes

/-! # File access

What a call may return and change, and the calls that get out of these bounds.
-/

namespace CommandSuite.Files

open Library Fallible Database Transcript

/-! ## Bounds -/

structure Bounded (actor : Actor) (before : Database) (outcome : Except Thrown Reply) (after : Database) : Prop where
  returned : ∀ reply, outcome = .ok reply → ∀ entry ∈ reply.entries,
    canRead actor.acl entry.path actor.viewer before = true ∨ canWrite actor.acl entry.path actor.viewer = true
  streamed : ∀ entry hash, outcome = .ok (.stream entry hash) → ∃ row, before.getEntry entry.path = some row ∧
    row.kind = .file ∧ row.contentHash = some hash ∧ canRead actor.acl entry.path actor.viewer before = true
  changed : ∀ path, after.getEntry path ≠ before.getEntry path → canWrite actor.acl path actor.viewer = true ∨
    MayBuild actor.acl actor.viewer actor.target path ∧ before.getEntry path = none ∧
      ∃ row, after.getEntry path = some row ∧ row.kind = .directory
  confined : manages actor.viewer = false →
    (∀ reply, outcome = .ok reply → ∀ entry ∈ reply.entries, Foreign actor.acl actor.viewer entry.path →
      before.hasGrant entry.path actor.viewer.name.text = true) ∧
    ∀ path, after.getEntry path ≠ before.getEntry path → ¬Foreign actor.acl actor.viewer path

def StaysInBounds (step : Step Desk Event (Except Thrown Reply)) : Prop :=
  ∀ actor, step.before.actor step.input = some actor → Bounded actor step.before.store.db step.output step.after.store.db

/-- A suffix leaves the scope: the file stands where a namespace begins, and its sibling is another's. -/
def LeavesScope (acl : ObjectiveAcl) (viewer : ViewerContext) (db : Database) (path : Path) : Prop :=
  HoldsScopes (parentOf path) ∧ ∃ existing sibling, db.getEntry path = some existing ∧ existing.kind = .file ∧
    IsFirstFree db path sibling ∧ canWrite acl sibling viewer = false

def Call.Oversteps (acl : ObjectiveAcl) (viewer : ViewerContext) (db : Database) : Call → Prop
  -- onto itself, the entry is returned before any check
  | .move source destination => ∃ path, normalizePath source = .ok path ∧ normalizePath destination = .ok path ∧
      (db.getEntry path).isSome = true ∧ canRead acl path viewer db = false
  -- the pattern of the descendants matches a row elsewhere, or the directory is that of all the objectives
  | .remove raw recursive => ∃ path row, Removes acl viewer raw recursive db path ∧ db.getEntry row.path = some row ∧
      isListedBelow path row = true ∧ (isAncestorPath path row.path = false ∨ HoldsScopes path) ∧
      canWrite acl row.path viewer = false
  -- the directory is opened by a grant alone, or it is that of all the objectives
  | .list raw => ∃ path target row, normalizePath raw = .ok path ∧ path ≠ ROOT_PATH ∧ canRead acl path viewer db = true ∧
      db.getEntry path = some target ∧ target.kind = .directory ∧ (canWrite acl path viewer = false ∨ HoldsScopes path) ∧
      db.getEntry row.path = some row ∧ row.parentPath = path ∧ canRead acl row.path viewer db = false
  | .copyByBlobRef src dst mimeType collision => ∃ path, Copies acl ⟨src, dst, mimeType, collision, viewer⟩ db path ∧
      collision = some .suffix ∧ LeavesScope acl viewer db path
  | _ => False

def Oversteps (desk : Desk) : Event → Prop
  | .call acl viewer _ request => request.Oversteps acl viewer desk.store.db
  | .putSettled index put => ∃ write result, desk.pending[index]? = some write ∧ put = .ok result ∧
      write.input.collision = some .suffix ∧ LeavesScope write.acl write.input.writer desk.store.db write.path
  | .grant .. | .ensureHome .. => False

/-! ## Reads -/

section Reads

variable {acl : ObjectiveAcl} {viewer : ViewerContext} {db : Database} {raw : String} {answer : Option FsEntry}

theorem stat_eq_ok (h : stat acl db raw viewer = .ok answer) :
    ∃ path, canRead acl path viewer db = true ∧
      answer = (db.getEntry path).map fun row => withCapability acl viewer (rowToEntry row) := by
  unfold stat at h
  cases hPath : normalizePath raw with
  | error e =>
    rw [hPath] at h
    cases h
  | ok path =>
    rw [hPath] at h
    simp only [bind, Except.bind] at h
    split at h
    · cases h
    · split at h
      · cases h
      · rename_i hRead
        cases h
        exact ⟨path, by simpa using hRead, rfl⟩

variable {entry : FsEntry}

theorem readable_of_stat (h : stat acl db raw viewer = .ok answer)
    (hEntry : answer = some entry) : canRead acl entry.path viewer db = true ∧
      ∃ row, db.getEntry entry.path = some row ∧ entry = withCapability acl viewer (rowToEntry row) := by
  obtain ⟨path, hRead, rfl⟩ := stat_eq_ok h
  obtain ⟨row, hRow, rfl⟩ := Option.map_eq_some_iff.mp hEntry
  have hPath : (withCapability acl viewer (rowToEntry row)).path = path := path_of_getEntry hRow
  rw [hPath]
  exact ⟨hRead, row, hRow, rfl⟩

theorem openReadStream_eq_ok {hash : String}
    (h : openReadStream acl db raw viewer = .ok (entry, hash)) : canRead acl entry.path viewer db = true ∧
      ∃ row, db.getEntry entry.path = some row ∧ row.kind = .file ∧ row.contentHash = some hash := by
  unfold openReadStream at h
  cases hStat : stat acl db raw viewer with
  | error e =>
    rw [hStat] at h
    cases h
  | ok answer =>
    rw [hStat] at h
    simp only [bind, Except.bind] at h
    cases answer with
    | none => cases h
    | some opened =>
      dsimp only at h
      split at h
      · cases h
      · rename_i hKind
        split at h
        · cases h
        · rename_i hHash
          cases h
          obtain ⟨hRead, row, hRow, rfl⟩ := readable_of_stat hStat rfl
          refine ⟨hRead, row, hRow, by simpa [withCapability, rowToEntry] using hKind, ?_⟩
          obtain ⟨hContent, _⟩ := Option.filter_eq_some_iff.mp hHash
          exact hContent

def shown (acl : ObjectiveAcl) (viewer : ViewerContext) (rows : List FsEntryRow) : List FsEntry :=
  rows.map fun row => withCapability acl viewer (rowToEntry row)

theorem path_of_mem_shown {rows : List FsEntryRow} (h : entry ∈ shown acl viewer rows) : ∃ row ∈ rows, entry.path = row.path := by
  obtain ⟨row, hRow, rfl⟩ := List.mem_map.mp h
  exact ⟨row, hRow, rfl⟩

variable {entries : List FsEntry}

theorem list_eq_ok (h : list acl db raw viewer = .ok entries) :
    ∃ path, normalizePath raw = .ok path ∧
      (path = ROOT_PATH ∧
          entries = shown acl viewer (if manages viewer then db.listHomes
            else db.listHomes.filter fun row => row.owner = viewer.name.text) ∨
        path ≠ ROOT_PATH ∧ canRead acl path viewer db = true ∧
          (entries = [] ∨ ∃ target, db.getEntry path = some target ∧ target.kind = .directory ∧
            entries = shown acl viewer (listChildren db path))) := by
  unfold list at h
  cases hPath : normalizePath raw with
  | error e =>
    rw [hPath] at h
    cases h
  | ok path =>
    rw [hPath] at h
    simp only [bind, Except.bind] at h
    refine ⟨path, rfl, ?_⟩
    split at h
    · rename_i hRoot
      refine .inl ⟨hRoot, ?_⟩
      split at h <;> rename_i hManages <;> cases h
      · rw [if_pos hManages]
        rfl
      · rw [if_neg hManages]
        rfl
    · rename_i hRoot
      split at h
      · cases h
      · rename_i hRead
        refine .inr ⟨hRoot, by simpa using hRead, ?_⟩
        cases hTarget : db.getEntry path with
        | none =>
          rw [hTarget] at h
          cases h
          exact .inl rfl
        | some target =>
          rw [hTarget] at h
          dsimp only at h
          split at h
          · cases h
          · rename_i hKind
            cases h
            exact .inr ⟨target, rfl, by simpa using hKind, rfl⟩

theorem list_directory {path : Path} {target : FsEntryRow} (hPath : normalizePath raw = .ok path)
    (hRoot : path ≠ ROOT_PATH) (hRead : canRead acl path viewer db = true) (hTarget : db.getEntry path = some target)
    (hKind : target.kind = .directory) : list acl db raw viewer = .ok (shown acl viewer (listChildren db path)) := by
  unfold list
  rw [hPath]
  simp only [bind, Except.bind, if_neg hRoot, hRead, hTarget, hKind]
  rfl

theorem mem_listChildren (path : Path) (row : FsEntryRow) :
    row ∈ listChildren db path ↔ db.getEntry row.path = some row ∧ row.parentPath = path := by
  rw [listChildren, List.mem_insertionSort, Table.mem_select_iff_find]
  simp [getEntry]

theorem readable_of_list (hFiled : Filed db)
    (hOversteps : ¬(Call.list raw).Oversteps acl viewer db) (h : list acl db raw viewer = .ok entries)
    (hEntry : entry ∈ entries) : canRead acl entry.path viewer db = true := by
  obtain ⟨path, hPath, ⟨rfl, rfl⟩ | ⟨hRoot, hRead, rfl | ⟨target, hTarget, hKind, rfl⟩⟩⟩ := list_eq_ok h
  · obtain ⟨row, hRow, hSame⟩ := path_of_mem_shown hEntry
    rw [hSame]
    split at hRow
    · rename_i hManages
      simp [canRead, hManages]
    · obtain ⟨hHome, hOwner⟩ := List.mem_filter.mp hRow
      rw [listHomes, List.mem_insertionSort, Table.mem_select_iff_find] at hHome
      simp only [Bool.and_eq_true, decide_eq_true_eq] at hHome hOwner
      obtain ⟨hEntry, _, hDirectory⟩ := hHome
      have hRowFiled := hFiled row.path row hEntry
      have hOwns : ownsPath row.path viewer = true := by
        simp [ownsPath, hRowFiled.belowRoot, hRowFiled.owner hDirectory, hOwner]
      simp [canRead, hOwns]
  · cases hEntry
  · obtain ⟨row, hRow, hSame⟩ := path_of_mem_shown hEntry
    rw [hSame]
    obtain ⟨hEntry, hParent⟩ := (mem_listChildren path row).mp hRow
    by_contra hUnread
    rw [Bool.not_eq_true] at hUnread
    refine hOversteps ⟨path, target, row, hPath, hRoot, hRead, hTarget, hKind, ?_, hEntry, hParent, hUnread⟩
    by_contra hInside
    simp only [not_or, Bool.not_eq_false] at hInside
    have hRowFiled := hFiled row.path row hEntry
    have hPrefix : path.segments <+: row.path.segments := by
      rw [← hParent, hRowFiled.parent]
      exact List.dropLast_prefix _
    rw [canRead_eq, canWrite_below hPrefix hInside.2, hInside.1] at hUnread
    cases hUnread

end Reads

/-! ## Calls in bounds -/

section Bounds

variable {s : FilesystemStore} {actor : Actor}

/-- What is returned and what changes decides what a viewer without `members.manage` gets of others. -/
theorem bounded {before after : Database} {outcome : Except Thrown Reply}
    (hReturned : ∀ reply, outcome = .ok reply → ∀ entry ∈ reply.entries,
      canRead actor.acl entry.path actor.viewer before = true ∨ canWrite actor.acl entry.path actor.viewer = true)
    (hStreamed : ∀ entry hash, outcome = .ok (.stream entry hash) → ∃ row, before.getEntry entry.path = some row ∧
      row.kind = .file ∧ row.contentHash = some hash ∧ canRead actor.acl entry.path actor.viewer before = true)
    (hChanges : Changes (MayWrite actor.acl actor.viewer) (MayBuild actor.acl actor.viewer actor.target) before after) :
    Bounded actor before outcome after where
  returned := hReturned
  streamed := hStreamed
  changed path hChanged := by
    rcases hChanges.changed path with hSame | hWritten | hBuilt
    · exact absurd hSame hChanged
    · exact .inl hWritten
    · exact .inr hBuilt
  confined hManages := by
    constructor
    · intro reply hReply entry hEntry hForeign
      rcases hReturned reply hReply entry hEntry with hRead | hWrite
      · rw [canRead_eq, Bool.or_eq_true] at hRead
        exact hRead.resolve_left fun hWrite => not_foreign_of_canWrite hManages hWrite hForeign
      · exact absurd hForeign (not_foreign_of_canWrite hManages hWrite)
    · intro path hChanged hForeign
      rcases hChanges.changed path with hSame | hWritten | ⟨⟨target, _, hWritten, hPrefix, _⟩, _⟩
      · exact hChanged hSame
      · exact not_foreign_of_canWrite hManages hWritten hForeign
      · exact not_foreign_above hPrefix (not_foreign_of_canWrite hManages hWritten) hForeign

/-- What a program must return to be bounded, when it keeps to what its actor may change. -/
def Returns (actor : Actor) (before : Database) (reply : Reply) : Prop :=
  (∀ entry ∈ reply.entries,
    canRead actor.acl entry.path actor.viewer before = true ∨ canWrite actor.acl entry.path actor.viewer = true) ∧
  ∀ entry hash, reply = .stream entry hash → ∃ row, before.getEntry entry.path = some row ∧
    row.kind = .file ∧ row.contentHash = some hash ∧ canRead actor.acl entry.path actor.viewer before = true

abbrev Actor.Allowed (actor : Actor) : FilesystemStore → FilesystemStore → Prop :=
  Files.Allowed (MayWrite actor.acl actor.viewer) actor.acl actor.viewer actor.target

theorem bounded_of_keeps {program : FsM Reply}
    (h : Keeps actor.Allowed program s fun reply _ => Returns actor s.db reply) :
    Ends program s fun outcome s' => Bounded actor s.db outcome s'.db := by
  refine Ends.imp h ?_
  rintro outcome s' ⟨hChanges, hReply⟩
  exact bounded (fun reply hOk => (hReply reply hOk).1) (fun entry hash hOk => (hReply _ hOk).2 entry hash rfl) hChanges

theorem keeps_ask_bind {W A : Path → Prop} {α β : Type} {P : β → FilesystemStore → Prop} {query : Database → Except FsError α}
    {next : α → FsM β} (h : ∀ a, query s.db = .ok a → Keeps (Footprint W A) (next a) s P) :
    Keeps (Footprint W A) (ask query >>= next) s P := by
  unfold ask
  rw [bind_assoc]
  exact keeps_fromDb_bind _ (keeps_valid_bind _ h)

variable {db : Database}

theorem returns_entry {entry : FsEntry}
    (h : canRead actor.acl entry.path actor.viewer db = true ∨ canWrite actor.acl entry.path actor.viewer = true) :
    Returns actor db (.entry entry) := by
  constructor
  · intro other hOther
    rw [List.mem_singleton.mp hOther]
    exact h
  · rintro _ _ ⟨⟩

theorem returns_nothing {reply : Reply} (hEntries : reply.entries = []) : Returns actor db reply := by
  constructor
  · intro other hOther
    rw [hEntries] at hOther
    cases hOther
  · rintro entry hash rfl
    cases hEntries

theorem returns_listed {entries : List FsEntry}
    (h : ∀ entry ∈ entries, canRead actor.acl entry.path actor.viewer db = true) : Returns actor db (.listed entries) := by
  constructor
  · exact fun entry hEntry => .inl (h entry hEntry)
  · rintro _ _ ⟨⟩

variable {acl : ObjectiveAcl} {viewer : ViewerContext}

theorem canWrite_of_goes {path target : Path}
    {collision : Option WriteCollisionStrategy} (hWrite : canWrite acl path viewer = true)
    (hScope : collision = some .suffix → ¬LeavesScope acl viewer db path)
    (hGoes : Goes (collision.getD .error) db path target) : canWrite acl target viewer = true := by
  rcases hGoes with rfl | ⟨hSuffix, ⟨existing, hEntry, hKind⟩, hFree⟩
  · exact hWrite
  · have hAsked : collision = some .suffix := by
      rcases collision with _ | strategy
      · cases hSuffix
      · exact congrArg some hSuffix
    by_contra hUnwritable
    rw [Bool.not_eq_true] at hUnwritable
    refine hScope hAsked ⟨?_, existing, target, hEntry, hKind, hFree, hUnwritable⟩
    by_contra hInside
    obtain ⟨i, _, _, hSibling, _⟩ := hFree
    have hParent : (parentOf path).segments <+: target.segments := by
      rw [segments_of_siblingPath hSibling]
      exact List.prefix_append _ _
    have hSelf : (parentOf path).segments <+: path.segments := List.dropLast_prefix _
    rw [canWrite_below hParent hInside, ← canWrite_below hSelf hInside, hWrite] at hUnwritable
    cases hUnwritable

theorem canWrite_of_listed {raw : String} {recursive : Bool}
    (hOversteps : ¬(Call.remove raw recursive).Oversteps acl viewer db) {path : Path} {row : FsEntryRow}
    (hRemoves : Removes acl viewer raw recursive db path) (hEntry : db.getEntry row.path = some row)
    (hListed : isListedBelow path row = true) : canWrite acl row.path viewer = true := by
  by_contra hUnwritable
  rw [Bool.not_eq_true] at hUnwritable
  refine hOversteps ⟨path, row, hRemoves, hEntry, hListed, ?_, hUnwritable⟩
  by_contra hInside
  simp only [not_or, Bool.not_eq_false] at hInside
  rw [canWrite_below ((isAncestorPath_iff path row.path).mp hInside.1) hInside.2, hRemoves.writable] at hUnwritable
  cases hUnwritable

theorem call_bounded {now : Int} (hFiled : Filed s.db) (call : Call)
    (h : ¬call.Oversteps acl viewer s.db) :
    Ends (call.program acl viewer now) s fun outcome s' => Bounded ⟨acl, viewer, call.target⟩ s.db outcome s'.db := by
  apply bounded_of_keeps
  cases call with
  | stat path =>
    refine keeps_ask_bind fun answer hAnswer => keeps_pure ⟨fun entry hEntry => .inl ?_, by rintro _ _ ⟨⟩⟩
    exact (readable_of_stat hAnswer (by simpa [Reply.entries] using hEntry)).1
  | list path =>
    exact keeps_ask_bind fun entries hEntries => keeps_pure (returns_listed fun entry => readable_of_list hFiled h hEntries)
  | listShared =>
    refine keeps_ask_bind fun entries hEntries => keeps_pure (returns_listed fun entry hEntry => ?_)
    cases hEntries
    obtain ⟨row, hRow, hSame⟩ := path_of_mem_shown hEntry
    rw [Database.listShared, List.mem_insertionSort, Table.mem_select] at hRow
    obtain ⟨grant, hGrant, hMatch⟩ := List.any_eq_true.mp hRow.2
    rw [canRead_eq, hSame, hasGrant, Bool.or_eq_true]
    exact .inr (List.any_eq_true.mpr ⟨grant, hGrant, hMatch⟩)
  | listAllFiles =>
    refine keeps_ask_bind fun entries hEntries => keeps_pure (returns_listed fun entry _ => ?_)
    have hManages : manages viewer = true := by
      unfold Files.listAllFiles at hEntries
      split at hEntries
      · assumption
      · cases hEntries
    simp [canRead, hManages]
  | openReadStream path =>
    refine keeps_ask_bind ?_
    rintro ⟨entry, hash⟩ hOpened
    obtain ⟨hRead, row, hRow, hKind, hHash⟩ := openReadStream_eq_ok hOpened
    refine keeps_pure ⟨fun other hOther => ?_, fun other otherHash hSame => ?_⟩
    · rw [List.mem_singleton.mp hOther]
      exact .inl hRead
    · cases hSame
      exact ⟨row, hRow, hKind, hHash, hRead⟩
  | copyByBlobRef src dst mimeType collision =>
    refine Keeps.bind (M := fun entry _ => MayWrite acl viewer entry.path) (keeps_copyByBlobRef hFiled ?_)
      fun entry s' _ hWrite => keeps_pure (returns_entry (.inr hWrite))
    intro path target hCopies hGoes
    exact canWrite_of_goes hCopies.writable (fun hSuffix hLeaves => h ⟨path, hCopies, hSuffix, hLeaves⟩) hGoes
  | writeFile path mimeType collision =>
    exact Keeps.bind keeps_writeFile fun normalized s' _ _ => keeps_pure (returns_nothing rfl)
  | mkdir path recursive =>
    exact Keeps.bind keeps_mkdir fun entry s' _ hWrite => keeps_pure (returns_entry (.inr hWrite))
  | remove path recursive =>
    refine Keeps.bind (keeps_remove (fun normalized row hRemoves hEntry hListed => canWrite_of_listed h hRemoves hEntry hListed)
      fun _ _ => id) fun _ s' _ _ => keeps_pure (returns_nothing rfl)
  | move source destination =>
    refine Keeps.bind keeps_move fun entry s' _ hMoved => keeps_pure (returns_entry ?_)
    rcases hMoved with ⟨hSource, hDestination, hEntry⟩ | hWrite
    · refine .inl ?_
      by_contra hUnread
      exact h ⟨entry.path, hSource, hDestination, hEntry, by simpa using hUnread⟩
    · exact .inr hWrite

theorem settle_bounded {write : PendingWrite} {put : Except Thrown PutResult} (hFiled : Filed s.db)
    (hRoot : write.path ≠ ROOT_PATH) (hWrite : canWrite write.acl write.path write.input.writer = true)
    (h : ¬∃ result, put = .ok result ∧ write.input.collision = some .suffix ∧
      LeavesScope write.acl write.input.writer s.db write.path) :
    Ends (settle write put) s fun outcome s' =>
      Bounded ⟨write.acl, write.input.writer, some write.path⟩ s.db outcome s'.db := by
  apply bounded_of_keeps
  refine keeps_fromExcept_bind _ fun result hPut => ?_
  refine Keeps.bind (M := fun written _ => MayWrite write.acl write.input.writer written.1.path)
    (keeps_finishWriteFile hFiled hRoot fun target hGoes => ?_) fun written s' _ hPlaced => keeps_pure ?_
  · exact canWrite_of_goes hWrite (fun hSuffix hLeaves => h ⟨result, hPut, hSuffix, hLeaves⟩) hGoes
  · constructor
    · intro entry hEntry
      rw [List.mem_singleton.mp hEntry]
      exact .inr hPlaced
    · rintro _ _ ⟨⟩

end Bounds

/-! ## Calls out of bounds -/

section Oversteps

variable {s : FilesystemStore} {acl : ObjectiveAcl} {viewer : ViewerContext}

theorem ends_valid_ok {α β : Type} {Q : Except Thrown β → FilesystemStore → Prop} {value : Except FsError α} {a : α}
    (h : value = .ok a) {next : α → FsM β} (hNext : Ends (next a) s Q) : Ends (valid value >>= next) s Q := by
  rw [h]
  exact hNext

theorem ends_require {β : Type} {Q : Except Thrown β → FilesystemStore → Prop} {condition : Bool} (h : condition = true)
    (error : Thrown) {next : Unit → FsM β} (hNext : Ends (next ()) s Q) : Ends (require condition error >>= next) s Q := by
  rw [h]
  exact hNext

theorem ends_present {α β : Type} {Q : Except Thrown β → FilesystemStore → Prop} {value : Option α} {a : α}
    (h : value = some a) (error : Thrown) {next : α → FsM β} (hNext : Ends (next a) s Q) :
    Ends (present value error >>= next) s Q := by
  rw [h]
  exact hNext

theorem ends_fromDb {α β : Type} {Q : Except Thrown β → FilesystemStore → Prop} {f : Database → α} {next : α → FsM β}
    (hNext : Ends (next (f s.db)) s Q) : Ends (fromDb f >>= next) s Q := hNext

variable {existing : FsEntryRow}

theorem resolveCollision_suffix {path sibling : Path} (hFiled : Filed s.db)
    (hEntry : s.db.getEntry path = some existing) (hKind : existing.kind = .file) (hFree : IsFirstFree s.db path sibling) :
    Ends (resolveCollision .suffix path) s fun outcome s' =>
      s' = s ∧ ∃ renamed, outcome = .ok ⟨none, sibling, renamed⟩ := by
  have hRowFiled := hFiled path existing hEntry
  have hPath := path_of_getEntry hEntry
  have hRoot : path ≠ ROOT_PATH := hPath ▸ hRowFiled.belowRoot
  have hParent : existing.parentPath = parentOf path := by rw [hRowFiled.parent, hPath]
  obtain ⟨newName, hName, hSibling⟩ := (isFirstFree_iff hEntry hRoot sibling).mp hFree
  refine ends_fromDb ?_
  rw [hEntry]
  refine ends_require (by simpa using hKind) _ (ends_fromDb ?_)
  rw [hParent]
  exact ends_valid_ok hName (ends_valid_ok hSibling ⟨rfl, _, rfl⟩)

theorem insertEntry_free (row : FsEntryRow) (h : s.db.getEntry row.path = none) :
    Ends (insertEntry row) s fun outcome s' => outcome = .ok () ∧ s'.db.getEntry row.path = some row := by
  refine ends_fromDb (ends_require (by rw [h]; rfl) _ ⟨rfl, ?_⟩)
  exact (getEntry_insert h row.path).trans (if_pos rfl)

variable {path : Path}

theorem exists_ownerOf (hRoot : path ≠ ROOT_PATH) : ∃ owner, ownerOf path = some owner := by
  rcases segments_cases path with hNone | hBare | ⟨id, rest, hObjective⟩ | ⟨first, rest, hHome, hFirst⟩
  · exact absurd (Path.ext hNone) hRoot
  · exact ⟨_, by simp only [ownerOf, hBare, if_true]; rfl⟩
  · exact ⟨_, by simp only [ownerOf, hObjective, if_true]; rfl⟩
  · exact ⟨_, by simp only [ownerOf, hFirst, if_neg hHome]; rfl⟩

variable {now : Int}

theorem writeContent_new {renamed : Bool} {content : Content} {creator : String}
    (hRoot : path ≠ ROOT_PATH) (hFree : s.db.getEntry path = none) :
    Ends (writeContent ⟨none, path, renamed⟩ content creator now) s fun outcome s' =>
      outcome = .ok () ∧ ∃ row, s'.db.getEntry path = some row ∧ row.kind = .file := by
  obtain ⟨owner, hOwner⟩ := exists_ownerOf hRoot
  refine ends_present hOwner _ ?_
  rw [ends_bind]
  refine Ends.imp (insertEntry_free (fileRow path owner content creator now) hFree) ?_
  rintro _ s₁ ⟨rfl, hRow⟩
  exact ⟨rfl, _, hRow, rfl⟩

theorem leaves_bounds {actor : Actor} (h : LeavesScope actor.acl actor.viewer s.db path) {program : FsM Reply}
    (hPlaced : ∀ existing sibling, s.db.getEntry path = some existing → existing.kind = .file →
      IsFirstFree s.db path sibling → sibling ≠ ROOT_PATH →
        Ends program s fun _ s' => ∃ row, s'.db.getEntry sibling = some row ∧ row.kind = .file) :
    ¬Ends program s fun outcome s' => Bounded actor s.db outcome s'.db := by
  intro hBounded
  obtain ⟨_, existing, sibling, hEntry, hKind, hFree, hUnwritable⟩ := h
  have hSibling : sibling ≠ ROOT_PATH := by
    rintro rfl
    obtain ⟨i, _, _, hCandidate, _⟩ := hFree
    exact not_prefix_of_candidate hCandidate List.nil_prefix
  have hFile := hPlaced existing sibling hEntry hKind hFree hSibling
  rw [ends_iff_run] at hBounded hFile
  obtain ⟨row, hRow, hKind⟩ := hFile
  obtain ⟨i, _, _, _, hNone, _⟩ := hFree
  rcases hBounded.changed sibling (by rw [hRow, hNone]; simp) with hWritten | ⟨_, _, built, hBuilt, hDirectory⟩
  · rw [hUnwritable] at hWritten
    cases hWritten
  · rw [hRow] at hBuilt
    cases hBuilt
    rw [hKind] at hDirectory
    cases hDirectory

theorem placed_after_present {α : Type} {error : Thrown} {f : FsEntryRow → α}
    (h : ∃ row, s.db.getEntry path = some row ∧ row.kind = .file) :
    Ends (present (s.db.getEntry path) error >>= fun row => pure (f row)) s fun _ s' =>
      ∃ row, s'.db.getEntry path = some row ∧ row.kind = .file := by
  obtain ⟨row, hRow, hKind⟩ := h
  exact ends_present hRow _ ((ends_pure _).mpr ⟨row, hRow, hKind⟩)

theorem finishWriteFile_suffix {input : WriteFileInput} {path sibling : Path} {put : PutResult}
    (hFiled : Filed s.db) (hEntry : s.db.getEntry path = some existing) (hKind : existing.kind = .file)
    (hCollision : input.collision = some .suffix) (hFree : IsFirstFree s.db path sibling) (hRoot : sibling ≠ ROOT_PATH) :
    Ends (finishWriteFile input path now put) s fun _ s' => ∃ row, s'.db.getEntry sibling = some row ∧ row.kind = .file := by
  unfold finishWriteFile
  rw [hCollision, ends_bind, withTx, ends_transaction, ends_bind]
  refine Ends.imp (resolveCollision_suffix hFiled hEntry hKind hFree) ?_
  rintro _ s₁ ⟨rfl, renamed, rfl⟩
  dsimp only
  obtain ⟨i, _, _, _, hNone, _⟩ := hFree
  rw [ends_bind]
  refine (ends_update _ _).mpr ?_
  dsimp only
  rw [ends_bind]
  refine Ends.imp (writeContent_new hRoot hNone) ?_
  rintro _ s₂ ⟨rfl, hRow⟩
  refine (ends_pure _).mpr (ends_fromDb ?_)
  exact placed_after_present hRow

theorem ensureDirectoryTree_holdsScopes {writer : ViewerContext} (h : HoldsScopes path)
    (hKind : ∀ row, s.db.getEntry path = some row → row.kind = .directory) :
    Ends (ensureDirectoryTree path writer now) s fun outcome _ => ∃ entry, outcome = .ok entry := by
  unfold ensureDirectoryTree
  rcases h with hRoot | hBare
  · rw [hRoot]
    exact ⟨rootEntry, rfl⟩
  · rw [hBare]
    refine ends_fromDb ?_
    cases hEntry : s.db.getEntry path with
    | some row => exact ends_require (by simpa using hKind row hEntry) _ ⟨_, rfl⟩
    | none =>
      have hRoot : path ≠ ROOT_PATH := by
        rintro rfl
        cases hBare
      have hOwner : ownerOf path = some OBJECTIVE_NAMESPACE_SEGMENT := by simp [ownerOf, hBare]
      rw [ends_bind]
      refine (ends_pure _).mpr (ends_require (by simpa using hRoot) _ (ends_fromDb ?_))
      rw [hEntry]
      refine ends_present hOwner _ ?_
      rw [ends_bind]
      refine Ends.imp (insertEntry_free (directoryRow path OBJECTIVE_NAMESPACE_SEGMENT writer.name.text now) hEntry) ?_
      rintro _ s' ⟨rfl, _⟩
      exact ⟨_, rfl⟩

theorem copyByBlobRef_suffix {input : CopyByBlobRefInput} {path sibling : Path} (hFiled : Filed s.db) (hCopies : Copies acl input s.db path) (hScopes : HoldsScopes (parentOf path))
    (hEntry : s.db.getEntry path = some existing) (hKind : existing.kind = .file)
    (hCollision : input.collision = some .suffix) (hFree : IsFirstFree s.db path sibling) (hRoot : sibling ≠ ROOT_PATH) :
    Ends (copyByBlobRef acl input now) s fun _ s' => ∃ row, s'.db.getEntry sibling = some row ∧ row.kind = .file := by
  obtain ⟨hNormalized, hBelow, hWrite, ⟨src, row, hash, size, hSrc, hRead, hRow, hSrcKind, hHash, hSize⟩, hParent⟩ := hCopies
  refine ends_valid_ok hSrc (ends_valid_ok hNormalized (ends_require (by simpa using hBelow) _ ?_))
  refine ends_fromDb (ends_require hRead _ (ends_require hWrite _ (ends_fromDb (ends_present hRow _ ?_))))
  refine ends_require (by simpa using hSrcKind) _ (ends_present hHash _ (ends_present hSize _ ?_))
  have hMade : Ends (ensureDirectoryTree (parentOf path) input.viewer now) s _ := ensureDirectoryTree_holdsScopes hScopes hParent
  have hKept : Keeps (Footprint (fun _ => False) (IsAncestor path)) (ensureDirectoryTree (parentOf path) input.viewer now) s _ :=
    keeps_ensureParent
  rw [ends_bind]
  refine Ends.imp (hMade.and hKept) ?_
  rintro _ s₁ ⟨⟨entry, rfl⟩, hState, hAgrees⟩
  obtain ⟨hAgrees, _⟩ := hAgrees entry rfl
  dsimp only
  rw [hCollision, ends_bind, withTx, ends_transaction, ends_bind]
  have hEntry' : s₁.db.getEntry path = some existing := by rw [hAgrees path (not_prefix_parentOf hBelow), hEntry]
  have hFree' := hAgrees.isFirstFree.mpr hFree
  refine Ends.imp (resolveCollision_suffix (hState.filed hFiled) hEntry' hKind hFree') ?_
  rintro _ s₂ ⟨rfl, renamed, rfl⟩
  dsimp only
  obtain ⟨i, _, _, _, hNone, _⟩ := hFree'
  rw [ends_bind]
  refine Ends.imp (writeContent_new hRoot hNone) ?_
  rintro _ s₃ ⟨rfl, hPlaced⟩
  refine (ends_pure _).mpr (ends_fromDb ?_)
  exact placed_after_present hPlaced

theorem remove_listed {raw : String} {recursive : Bool} {row : FsEntryRow}
    (h : Removes acl viewer raw recursive s.db path) (hEntry : s.db.getEntry row.path = some row)
    (hListed : isListedBelow path row = true) :
    Ends (remove acl raw viewer recursive) s fun _ s' => s'.db.getEntry row.path = none := by
  obtain ⟨hNormalized, hBelow, hWrite, ⟨target, hTarget, hKind⟩, hEmpty⟩ := h
  refine ends_valid_ok hNormalized (ends_require (by simpa using hBelow) _ (ends_require hWrite _ ?_))
  refine ends_fromDb (ends_present hTarget _ ?_)
  rw [ends_bind, withTx, ends_transaction, hKind]
  refine ends_fromDb (ends_require ?_ _ (ends_fromDb ?_))
  · rw [Bool.or_eq_true, listChildren_isEmpty_iff]
    exact hEmpty.symm
  · have hMem : row ∈ listDescendants s.db path := (mem_listDescendants s.db path row).mpr ⟨hEntry, hListed⟩
    show ((listDescendants s.db path).foldl dropRow (s.db, [])).1.getEntry row.path = none
    rw [getEntry_dropRows, if_pos (List.mem_map_of_mem hMem)]

theorem call_unbounded (hFiled : Filed s.db) (call : Call) (h : call.Oversteps acl viewer s.db) :
    ¬Ends (call.program acl viewer now) s fun outcome s' => Bounded ⟨acl, viewer, call.target⟩ s.db outcome s'.db := by
  cases call with
  | move source destination =>
    obtain ⟨path, hSource, hDestination, hEntry, hUnread⟩ := h
    obtain ⟨row, hRow⟩ := Option.isSome_iff_exists.mp hEntry
    intro hBounded
    have hReply : Ends ((Call.move source destination).program acl viewer now) s fun outcome _ =>
        outcome = .ok (.entry (rowToEntry row)) := by
      rw [Call.program, ends_bind, Files.move]
      refine ends_valid_ok hSource (ends_valid_ok hDestination ?_)
      rw [if_pos rfl]
      exact ends_fromDb (ends_present hRow _ rfl)
    rw [ends_iff_run] at hBounded hReply
    have hPath : (rowToEntry row).path = path := path_of_getEntry hRow
    rcases hBounded.returned _ hReply (rowToEntry row) (List.mem_singleton.mpr rfl) with hRead | hWrite
    · rw [hPath, hUnread] at hRead
      cases hRead
    · rw [canRead_eq, Bool.or_eq_false_iff] at hUnread
      rw [hPath, hUnread.1] at hWrite
      cases hWrite
  | remove raw recursive =>
    obtain ⟨path, row, hRemoves, hEntry, hListed, _, hUnwritable⟩ := h
    intro hBounded
    have hGone : Ends ((Call.remove raw recursive).program acl viewer now) s fun _ s' => s'.db.getEntry row.path = none := by
      rw [Call.program, ends_bind]
      refine Ends.imp (remove_listed hRemoves hEntry hListed) ?_
      rintro (_ | _) s' hNone <;> exact hNone
    rw [ends_iff_run] at hBounded hGone
    rcases hBounded.changed row.path (by rw [hGone, hEntry]; simp) with hWritten | ⟨_, hNone, _⟩
    · rw [hUnwritable] at hWritten
      cases hWritten
    · rw [hEntry] at hNone
      cases hNone
  | list raw =>
    obtain ⟨path, target, row, hPath, hRoot, hRead, hTarget, hKind, _, hEntry, hParent, hUnread⟩ := h
    intro hBounded
    have hReply : Ends ((Call.list raw).program acl viewer now) s fun outcome _ =>
        outcome = .ok (.listed (shown acl viewer (listChildren s.db path))) := by
      rw [Call.program, ask, bind_assoc]
      exact ends_fromDb (ends_valid_ok (list_directory hPath hRoot hRead hTarget hKind) rfl)
    rw [ends_iff_run] at hBounded hReply
    have hMem : row ∈ listChildren s.db path := (mem_listChildren path row).mpr ⟨hEntry, hParent⟩
    rcases hBounded.returned _ hReply _ (List.mem_map_of_mem hMem) with hShown | hWrite
    · exact absurd (hUnread.symm.trans hShown) Bool.false_ne_true
    · rw [canRead_eq, Bool.or_eq_false_iff] at hUnread
      exact absurd (hUnread.1.symm.trans hWrite) Bool.false_ne_true
  | copyByBlobRef src dst mimeType collision =>
    obtain ⟨path, hCopies, hSuffix, hLeaves⟩ := h
    refine leaves_bounds hLeaves fun existing sibling hEntry hKind hFree hRoot => ?_
    rw [Call.program, ends_bind]
    refine Ends.imp (copyByBlobRef_suffix hFiled hCopies hLeaves.1 hEntry hKind hSuffix hFree hRoot) ?_
    rintro (_ | _) s' hPlaced <;> exact hPlaced
  | stat | listShared | listAllFiles | openReadStream | writeFile | mkdir => exact h.elim

theorem settle_unbounded {write : PendingWrite} {result : PutResult} (hFiled : Filed s.db)
    (hSuffix : write.input.collision = some .suffix) (h : LeavesScope write.acl write.input.writer s.db write.path) :
    ¬Ends (settle write (.ok result)) s fun outcome s' =>
      Bounded ⟨write.acl, write.input.writer, some write.path⟩ s.db outcome s'.db := by
  refine leaves_bounds h fun existing sibling hEntry hKind hFree hRoot => ?_
  show Ends (finishWriteFile write.input write.path write.now result >>= _) s _
  rw [ends_bind]
  refine Ends.imp (finishWriteFile_suffix hFiled hEntry hKind hSuffix hFree hRoot) ?_
  rintro (_ | _) s' hPlaced <;> exact hPlaced

end Oversteps

/-! ## Runs -/

/-- The invariant of the desk: rows are filed, and pending writes have passed their checks. -/
structure WellServed (desk : Desk) : Prop where
  filed : Filed desk.store.db
  pending : ∀ write ∈ desk.pending, write.path ≠ ROOT_PATH ∧ canWrite write.acl write.path write.input.writer = true

theorem wellServed_empty : WellServed Desk.empty := by
  constructor
  · intro path row hRow
    cases hRow
  · intro write hWrite
    cases hWrite

/-- A program that starts from filed rows leaves filed rows, and what it starts to write it has checked. -/
def Serves (program : FsM Reply) (s : FilesystemStore) : Prop :=
  Ends program s fun outcome s' => Filed s'.db ∧
    ∀ write, outcome = .ok (.waiting write) → write.path ≠ ROOT_PATH ∧ canWrite write.acl write.path write.input.writer = true

variable {s : FilesystemStore}

theorem serves_of_keeps {W A : Path → Prop} {program : FsM Reply} (hFiled : Filed s.db)
    (h : Keeps (Footprint W A) program s fun reply _ => ∀ write, reply ≠ .waiting write) : Serves program s := by
  refine Ends.imp h ?_
  rintro outcome s' ⟨hChanges, hReply⟩
  exact ⟨hChanges.filed hFiled, fun write hOk => absurd rfl (hReply _ hOk write)⟩

theorem serves_call (hFiled : Filed s.db) (acl : ObjectiveAcl) (viewer : ViewerContext) (now : Int)
    (call : Call) : Serves (call.program acl viewer now) s := by
  cases call with
  | writeFile path mimeType collision =>
    have hWrite : Keeps (Allowed (fun _ => True) acl viewer (normalizePath path).toOption)
        ((Call.writeFile path mimeType collision).program acl viewer now) s fun reply _ =>
          ∀ write, reply = .waiting write → write.path ≠ ROOT_PATH ∧ canWrite write.acl write.path write.input.writer = true := by
      refine Keeps.bind keeps_writeFile fun normalized s' _ hChecked => keeps_pure ?_
      rintro write hSame
      cases hSame
      exact hChecked
    refine Ends.imp hWrite ?_
    rintro outcome s' ⟨hChanges, hReply⟩
    exact ⟨hChanges.filed hFiled, fun write hOk => hReply _ hOk write rfl⟩
  | stat | list | listShared | listAllFiles | openReadStream =>
    refine serves_of_keeps (W := fun _ => True) (A := fun _ => True) hFiled (keeps_ask_bind fun _ _ => keeps_pure ?_)
    rintro write ⟨⟩
  | copyByBlobRef src dst mimeType collision =>
    refine serves_of_keeps hFiled (Keeps.bind (keeps_copyByBlobRef (W := fun _ => True) hFiled fun _ _ _ _ => trivial)
      fun entry s' _ _ => keeps_pure ?_)
    rintro write ⟨⟩
  | mkdir path recursive =>
    refine serves_of_keeps hFiled (Keeps.bind (keeps_mkdir (W := fun _ => True)) fun entry s' _ _ => keeps_pure ?_)
    rintro write ⟨⟩
  | remove path recursive =>
    refine serves_of_keeps (A := MayBuild acl viewer none) hFiled (Keeps.bind
      (keeps_remove (W := fun _ => True) (fun _ _ _ _ _ => trivial) fun _ _ _ => trivial) fun _ s' _ _ => keeps_pure ?_)
    rintro write ⟨⟩
  | move source destination =>
    refine serves_of_keeps hFiled (Keeps.bind keeps_move fun entry s' _ _ => keeps_pure ?_)
    rintro write ⟨⟩

theorem serves_event {desk : Desk} (h : WellServed desk) (event : Event) : Serves (event.program desk.pending) desk.store := by
  cases event with
  | call acl viewer now request => exact serves_call h.filed acl viewer now request
  | putSettled index put =>
    rw [Event.program]
    cases hWrite : desk.pending[index]? with
    | none =>
      refine serves_of_keeps (W := fun _ => True) (A := fun _ => True) h.filed (keeps_pure ?_)
      rintro write ⟨⟩
    | some write =>
      have hRoot := (h.pending write (List.mem_of_getElem? hWrite)).1
      refine serves_of_keeps (W := fun _ => True) (A := fun _ => True) h.filed (keeps_fromExcept_bind _ fun result _ => ?_)
      refine Keeps.bind (keeps_finishWriteFile h.filed hRoot fun _ _ => trivial) fun written s' _ _ => keeps_pure ?_
      rintro other ⟨⟩
  | grant path viewer grantedVia now =>
    refine serves_of_keeps (W := fun _ => True) (A := fun _ => True) h.filed (Keeps.bind keeps_grant fun _ s' _ _ => keeps_pure ?_)
    rintro write ⟨⟩
  | ensureHome memberName now =>
    refine serves_of_keeps h.filed (Keeps.bind keeps_ensureHome fun _ s' _ _ => keeps_pure ?_)
    rintro write ⟨⟩

theorem wellServed_serve (desk : Desk) (event : Event) (h : WellServed desk) : WellServed (serve desk event).1 := by
  have hServes := serves_event h event
  rw [Serves, ends_iff_run] at hServes
  obtain ⟨hFiled, hWaiting⟩ := hServes
  refine ⟨hFiled, fun write hWrite => ?_⟩
  simp only [serve] at hWrite
  split at hWrite
  · exact h.pending write (List.mem_of_mem_eraseIdx hWrite)
  · rename_i hOutcome
    rcases List.mem_append.mp hWrite with hOld | hNew
    · exact h.pending write hOld
    · rw [List.mem_singleton.mp hNew]
      exact hWaiting _ hOutcome
  · exact h.pending write hWrite

theorem staysInBounds_iff {desk : Desk} (h : WellServed desk) (event : Event) :
    StaysInBounds (stepAt serve desk event) ↔ ¬Oversteps desk event := by
  unfold StaysInBounds
  cases event with
  | call acl viewer now request =>
    constructor
    · intro hStays hOversteps
      exact call_unbounded h.filed request hOversteps ((ends_iff_run (request.program acl viewer now)).mpr (hStays _ rfl))
    · rintro hInside actor ⟨⟩
      exact (ends_iff_run (request.program acl viewer now)).mp (call_bounded h.filed request hInside)
  | putSettled index put =>
    cases hWrite : desk.pending[index]? with
    | none =>
      refine iff_of_true (fun actor hActor => ?_) ?_
      · simp [Desk.actor, hWrite] at hActor
      · rintro ⟨write, _, hSome, _⟩
        rw [hWrite] at hSome
        cases hSome
    | some write =>
      obtain ⟨hRoot, hMayWrite⟩ := h.pending write (List.mem_of_getElem? hWrite)
      have hProgram : (Event.putSettled index put).program desk.pending = settle write put := by
        rw [Event.program, hWrite]
      have hActor : desk.actor (.putSettled index put) = some ⟨write.acl, write.input.writer, some write.path⟩ := by
        simp [Desk.actor, hWrite]
      have hAfter : (stepAt serve desk (.putSettled index put)).output = (run (settle write put) desk.store).1 ∧
          (stepAt serve desk (.putSettled index put)).after.store = (run (settle write put) desk.store).2 := by
        simp [serve, hProgram]
      constructor
      · rintro hStays ⟨other, result, hSome, rfl, hSuffix, hLeaves⟩
        rw [hWrite] at hSome
        cases hSome
        have hBounded := hStays _ hActor
        rw [hAfter.1, hAfter.2] at hBounded
        exact settle_unbounded h.filed hSuffix hLeaves ((ends_iff_run (settle write (.ok result))).mpr hBounded)
      · intro hInside actor hSome
        rw [stepAt_before, stepAt_input, hActor] at hSome
        cases hSome
        rw [hAfter.1, hAfter.2]
        refine (ends_iff_run _).mp (settle_bounded h.filed hRoot hMayWrite ?_)
        rintro ⟨result, rfl, hSuffix, hLeaves⟩
        exact hInside ⟨write, result, hWrite, rfl, hSuffix, hLeaves⟩
  | grant | ensureHome =>
    refine iff_of_true (fun actor hActor => ?_) id
    cases hActor

/-- In any run of calls, a step stays in bounds exactly when it does not overstep. -/
theorem stays_in_bounds_iff_not_oversteps (events : List Event) (event : Event) :
    StaysInBounds (stepAt serve (final serve Desk.empty events) event) ↔ ¬Oversteps (final serve Desk.empty events) event :=
  staysInBounds_iff (final_invariant wellServed_serve wellServed_empty events) event

/-! Alice keeps a file, and Bob moves it onto itself. -/

def alice : ViewerContext := ⟨⟨"alice", by decide⟩, []⟩

def bob : ViewerContext := ⟨⟨"bob", by decide⟩, []⟩

def secret : Path := ⟨["alice", "secret.txt"], by decide, by decide⟩

def aliceWrites : List Event :=
  [.call none alice 1 (.writeFile "/alice/secret.txt" "text/plain" none), .putSettled 0 (.ok ⟨"a3f1", 12⟩)]

theorem unchecked_move_reveals :
    ¬∀ (events : List Event) (event : Event),
      StaysInBounds (stepAt serve (final serve Desk.empty events) event) := by
  intro h
  have hServed := final_invariant wellServed_serve wellServed_empty aliceWrites
  have hMove := h aliceWrites (.call none bob 2 (.move "/alice/secret.txt" "/alice/secret.txt"))
  have hPath : normalizePath "/alice/secret.txt" = .ok secret := normalizePath_render secret
  exact (staysInBounds_iff hServed _).mp hMove ⟨secret, hPath, hPath, by decide, by decide⟩

end CommandSuite.Files
