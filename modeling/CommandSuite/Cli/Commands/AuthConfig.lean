import CommandSuite.Library.Text
import CommandSuite.Library.Transcript
import Mathlib.Data.List.Induction
import Mathlib.Data.List.Sort

/-! # The auth store

`packages/cli/src/commands/auth-config.ts`: entries of a URL, a workspace and a token. A directory resolves to the entry of the
closest workspace around it. Paths are POSIX ones; `realpathSync` and `resolve` are a parameter.
-/

namespace CommandSuite.AuthConfig

open Library Transcript Function

/-- The segments of an absolute path, from the root on. -/
abbrev Path := List JsString

def Path.text : Path → JsString
  | [] => [47]
  | path => path.flatMap (47 :: ·)

structure Canonical where
  canonical : JsString → Path
  idempotent : ∀ path, canonical (canonical path).text = canonical path
  segments : ∀ path, ∀ segment ∈ canonical path, segment ≠ [] ∧ 47 ∉ segment

def dots : JsString := [46, 46]

/-- The segments of `relative(parent, child)`: up from the parent to where the paths part, and down to the child. -/
def relative : Path → Path → Path
  | first :: parent, next :: child =>
    if first = next then relative parent child else (first :: parent).map (fun _ => dots) ++ next :: child
  | parent, child => parent.map (fun _ => dots) ++ child

def containsPath (parent child : Path) : Bool :=
  let rel := [47].intercalate (relative parent child)
  rel = [] || !dots.isPrefixOf rel && rel.head? ≠ some 47

/-- `savedAt` is a number, as far as numbers are compared. -/
structure AuthConfigEntry (τ : Type) where
  url : JsString
  workspace : Option JsString
  token : JsString
  savedAt : τ
  deriving DecidableEq

variable {τ : Type} [LinearOrder τ] (paths : Canonical)

def place (entry : AuthConfigEntry τ) : Option Path := entry.workspace.map paths.canonical

def isScoped (cwd : Path) (entry : AuthConfigEntry τ) : Bool := (place paths entry).any fun workspace => containsPath workspace cwd

def depth (entry : AuthConfigEntry τ) : Nat := ((place paths entry).getD []).text.length

/-- The order of the sort: the longer workspace first, and the newer entry on a tie. -/
abbrev closer (a b : AuthConfigEntry τ) : Prop :=
  depth paths b < depth paths a ∨ depth paths b = depth paths a ∧ b.savedAt ≤ a.savedAt

def scopedEntries (entries : List (AuthConfigEntry τ)) (url : JsString) (cwd : Path) : List (AuthConfigEntry τ) :=
  (entries.filter fun entry => entry.url = url).filter (isScoped paths cwd)

def unscopedEntries (entries : List (AuthConfigEntry τ)) (url : JsString) : List (AuthConfigEntry τ) :=
  (entries.filter fun entry => entry.url = url).filter fun entry => entry.workspace = none

/-- The search of the global store, without the one for a legacy file. -/
def findAuthEntry (entries : List (AuthConfigEntry τ)) (url cwd : JsString) : Option (AuthConfigEntry τ) :=
  ((scopedEntries paths entries url (paths.canonical cwd)).insertionSort (closer paths)).head?.or
    ((unscopedEntries entries url).insertionSort fun a b => b.savedAt ≤ a.savedAt).head?

def normalizeWorkspace (workspace : Option JsString) : Option JsString := workspace.map fun path => (paths.canonical path).text

def entryPairKey (url : JsString) (workspace : Option JsString) : JsString := url ++ 0 :: (normalizeWorkspace paths workspace).getD []

def AuthConfigEntry.key (entry : AuthConfigEntry τ) : JsString := entryPairKey paths entry.url entry.workspace

def saveAuthEntry (entry : AuthConfigEntry τ) (entries : List (AuthConfigEntry τ)) : List (AuthConfigEntry τ) :=
  let workspace := normalizeWorkspace paths entry.workspace
  entries.filter (fun other => other.key paths ≠ entryPairKey paths entry.url workspace) ++ [{ entry with workspace := workspace }]

/-- A save, with the store that it finds. -/
structure Save (τ : Type) where
  found : List (AuthConfigEntry τ)
  entry : AuthConfigEntry τ

/-- The loop over the entries of the legacy file. `existing` is the map of the times that are known. -/
def migrateEntries : (JsString → Option τ) → List (AuthConfigEntry τ) → List (AuthConfigEntry τ) →
    List (AuthConfigEntry τ) × List (Save τ)
  | _, entries, [] => (entries, [])
  | existing, entries, entry :: rest =>
    if (existing (entry.key paths)).any (entry.savedAt ≤ ·) then migrateEntries existing entries rest
    else
      let (after, saves) := migrateEntries (update existing (entry.key paths) (some entry.savedAt))
        (saveAuthEntry paths entry entries) rest
      (after, ⟨entries, entry⟩ :: saves)

/-- The time that the map has for a key: that of the last entry with it. -/
def existing (entries : List (AuthConfigEntry τ)) : JsString → Option τ :=
  entries.foldl (fun existing entry => update existing (entry.key paths) (some entry.savedAt)) fun _ => none

/-- `legacy` are the entries of the legacy file that is found, with its directory as their workspace. -/
inductive Call (τ : Type) where
  | saveAuthEntry (entry : AuthConfigEntry τ)
  | migrateLegacyStore (legacy : List (AuthConfigEntry τ))

def apply : List (AuthConfigEntry τ) → Call τ → List (AuthConfigEntry τ) × List (Save τ)
  | entries, .saveAuthEntry entry => (saveAuthEntry paths entry entries, [⟨entries, entry⟩])
  | entries, .migrateLegacyStore legacy => migrateEntries paths (existing paths entries) entries legacy

/-! ## What is asked of the store -/

/-- The entry has the URL, and its workspace is the directory or one above it. -/
def Applies (entries : List (AuthConfigEntry τ)) (url : JsString) (cwd : Path) (entry : AuthConfigEntry τ) (workspace : Path) : Prop :=
  entry ∈ entries ∧ entry.url = url ∧ place paths entry = some workspace ∧ workspace <+: cwd

/-- The deepest workspace, of one workspace the latest entry, and without any of them the latest unscoped one. -/
def Right (entries : List (AuthConfigEntry τ)) (url : JsString) (cwd : Path) : Option (AuthConfigEntry τ) → Prop
  | some entry =>
    (∃ workspace, Applies paths entries url cwd entry workspace ∧ ∀ other place, Applies paths entries url cwd other place →
      place.length ≤ workspace.length ∧ (place = workspace → other.savedAt ≤ entry.savedAt)) ∨
    (entry ∈ entries ∧ entry.url = url ∧ entry.workspace = none ∧ (∀ other place, ¬Applies paths entries url cwd other place) ∧
      ∀ other ∈ entries, other.url = url → other.workspace = none → other.savedAt ≤ entry.savedAt)
  | none => (∀ other place, ¬Applies paths entries url cwd other place) ∧ ∀ other ∈ entries, other.url = url → other.workspace ≠ none

/-- Below the workspace, the directory goes on with a segment that begins with two dots. -/
def Hidden (workspace cwd : Path) : Prop := ∃ segment rest, cwd = workspace ++ segment :: rest ∧ dots <+: segment

/-- Whatever is hidden has a deeper workspace below it that is not. -/
def Unhidden (entries : List (AuthConfigEntry τ)) (url : JsString) (cwd : Path) : Prop :=
  ∀ entry workspace, Applies paths entries url cwd entry workspace → Hidden workspace cwd →
    ∃ other place, Applies paths entries url cwd other place ∧ ¬Hidden place cwd ∧ workspace.length < place.length

/-- What a save replaces is older. -/
def Newer (save : Save τ) : Prop := ∀ entry ∈ save.found, entry.key paths = save.entry.key paths → entry.savedAt < save.entry.savedAt

/-! ## The lookup -/

theorem relative_append (parent rest : Path) : relative parent (parent ++ rest) = rest := by
  induction parent with
  | nil => simp [relative]
  | cons first parent ih => rw [List.cons_append, relative, if_pos rfl, ih]

theorem relative_of_not_prefix {parent child : Path} (h : ¬parent <+: child) : ∃ rest, relative parent child = dots :: rest := by
  induction parent generalizing child with
  | nil => exact absurd (List.nil_prefix) h
  | cons first parent ih =>
    cases child with
    | nil => exact ⟨_, rfl⟩
    | cons next child =>
      rw [relative]
      split
      · rename_i hSame
        exact ih fun hPrefix => h (hSame ▸ List.cons_prefix_cons.mpr ⟨rfl, hPrefix⟩)
      · exact ⟨_, rfl⟩

theorem intercalate_cons {segment : JsString} (rest : Path) (h : segment ≠ []) :
    [47].intercalate (segment :: rest) ≠ [] ∧ ([47].intercalate (segment :: rest)).head? = segment.head? ∧
      (dots <+: [47].intercalate (segment :: rest) ↔ dots <+: segment) := by
  cases rest with
  | nil => simp [h]
  | cons next rest =>
    rw [List.intercalate_cons_cons]
    rcases segment with _ | ⟨first, _ | ⟨second, segment⟩⟩
    · exact absurd rfl h
    · simp [dots, List.cons_prefix_cons]
    · simp [dots, List.cons_prefix_cons]

theorem containsPath_iff {parent child : Path} (h : ∀ segment ∈ child, segment ≠ [] ∧ 47 ∉ segment) :
    containsPath parent child = true ↔ parent <+: child ∧ ¬Hidden parent child := by
  unfold containsPath
  by_cases hPrefix : parent <+: child
  · obtain ⟨rest, rfl⟩ := hPrefix
    rw [relative_append]
    cases rest with
    | nil => simp [Hidden]
    | cons segment rest =>
      obtain ⟨hSome, hSlash⟩ := h segment (by simp)
      obtain ⟨hText, hHead, hDots⟩ := intercalate_cons rest hSome
      have hAbsolute : segment.head? ≠ some 47 := fun hFirst => hSlash (List.mem_of_head? hFirst)
      have hHidden : Hidden parent (parent ++ segment :: rest) ↔ dots <+: segment := by
        refine ⟨fun ⟨other, others, hSame, hStarts⟩ => ?_, fun hStarts => ⟨segment, rest, rfl, hStarts⟩⟩
        rw [(List.cons.inj (List.append_cancel_left hSame)).1]
        exact hStarts
      simp [hText, hHead, hAbsolute, hHidden, ← hDots, Bool.eq_false_iff]
  · obtain ⟨rest, hRelative⟩ := relative_of_not_prefix hPrefix
    have hSome : dots ≠ [] := by decide
    obtain ⟨hText, -, hDots⟩ := intercalate_cons rest hSome
    rw [hRelative]
    simp [hText, hPrefix, hDots]

theorem head_insertionSort {α : Type} {r : α → α → Prop} [DecidableRel r] (hTotal : ∀ a b, r a b ∨ r b a)
    (hTrans : ∀ a b c, r a b → r b c → r a c) {xs : List α} {x : α} (h : (xs.insertionSort r).head? = some x) :
    x ∈ xs ∧ ∀ y ∈ xs, r x y := by
  have : Std.Total r := ⟨hTotal⟩
  have : IsTrans α r := ⟨hTrans⟩
  obtain ⟨rest, hSorted⟩ := List.head?_eq_some_iff.mp h
  have hPairwise := List.pairwise_insertionSort r xs
  rw [hSorted] at hPairwise
  refine ⟨(List.mem_insertionSort r).mp (hSorted ▸ List.mem_cons_self), fun y hy => ?_⟩
  rcases List.mem_cons.mp (hSorted ▸ (List.mem_insertionSort r).mpr hy) with rfl | hRest
  · exact or_self_iff.mp (hTotal y y)
  · exact List.rel_of_pairwise_cons hPairwise hRest

theorem text_length_lt {first rest : Path} (hRest : rest ≠ []) (h : ∀ segment ∈ rest, segment ≠ []) :
    first.text.length < (first ++ rest).text.length := by
  obtain ⟨segment, rest, rfl⟩ := List.exists_cons_of_ne_nil hRest
  have hSegment := List.length_pos_of_ne_nil (h segment List.mem_cons_self)
  cases first with
  | nil =>
    simp only [Path.text, List.nil_append, List.flatMap_cons, List.length_append, List.length_cons, List.length_nil]
    omega
  | cons head tail =>
    simp only [Path.text, List.cons_append, List.flatMap_cons, List.flatMap_append, List.length_append, List.length_cons]
    omega

theorem text_length_lt_iff {first second cwd : Path} (h : ∀ segment ∈ cwd, segment ≠ []) (hFirst : first <+: cwd) (hSecond : second <+: cwd) :
    first.text.length < second.text.length ↔ first.length < second.length := by
  have hShorter : ∀ {p q : Path}, q <+: cwd → p <+: q → p.length < q.length → p.text.length < q.text.length := by
    rintro p q hq ⟨rest, rfl⟩ hLength
    refine text_length_lt (fun hNil => ?_) fun segment hSegment => h segment (hq.subset (List.mem_append_right _ hSegment))
    rw [hNil, List.append_nil] at hLength
    exact hLength.false
  refine ⟨fun hText => ?_, fun hLength => hShorter hSecond (List.prefix_of_prefix_length_le hFirst hSecond hLength.le) hLength⟩
  by_contra hLength
  rcases (Nat.le_of_not_lt hLength).lt_or_eq with hOther | hSame
  · exact hText.asymm (hShorter hFirst (List.prefix_of_prefix_length_le hSecond hFirst hOther.le) hOther)
  · rw [(List.prefix_of_prefix_length_le hFirst hSecond hSame.ge).eq_of_length hSame.symm] at hText
    exact hText.false

section Lookup

variable {paths : Canonical} {entries : List (AuthConfigEntry τ)} {url : JsString} {cwd : Path}

omit [LinearOrder τ] in
theorem mem_scopedEntries_iff (hCwd : ∀ segment ∈ cwd, segment ≠ [] ∧ 47 ∉ segment) (entry : AuthConfigEntry τ) :
    entry ∈ scopedEntries paths entries url cwd ↔ ∃ workspace, Applies paths entries url cwd entry workspace ∧ ¬Hidden workspace cwd := by
  unfold scopedEntries
  simp only [List.mem_filter, decide_eq_true_iff, isScoped, Option.any_eq_true, containsPath_iff hCwd, Applies]
  constructor
  · rintro ⟨⟨hEntry, hUrl⟩, workspace, hPlace, hPrefix, hHidden⟩
    exact ⟨workspace, ⟨hEntry, hUrl, hPlace, hPrefix⟩, hHidden⟩
  · rintro ⟨workspace, ⟨hEntry, hUrl, hPlace, hPrefix⟩, hHidden⟩
    exact ⟨⟨hEntry, hUrl⟩, workspace, hPlace, hPrefix, hHidden⟩

omit [LinearOrder τ] in
theorem mem_unscopedEntries_iff (entry : AuthConfigEntry τ) :
    entry ∈ unscopedEntries entries url ↔ entry ∈ entries ∧ entry.url = url ∧ entry.workspace = none := by
  unfold unscopedEntries
  rw [List.mem_filter, List.mem_filter, decide_eq_true_iff, decide_eq_true_iff, and_assoc]

theorem right_iff_of_first {entry : AuthConfigEntry τ} {workspace : Path} (hApplies : Applies paths entries url cwd entry workspace)
    (hHidden : ¬Hidden workspace cwd) (hFirst : ∀ other place, Applies paths entries url cwd other place → ¬Hidden place cwd →
      place.length < workspace.length ∨ place = workspace ∧ other.savedAt ≤ entry.savedAt) :
    Right paths entries url cwd (some entry) ↔ Unhidden paths entries url cwd := by
  constructor
  · rintro (⟨workspace, hOther, hBest⟩ | ⟨-, -, hNone, -⟩) hidden place hPlace hBehind
    · obtain rfl := Option.some.inj (hApplies.2.2.1.symm.trans hOther.2.2.1)
      refine ⟨entry, _, hApplies, hHidden, (hBest hidden place hPlace).1.lt_of_ne fun hSame => hHidden ?_⟩
      rw [← (List.prefix_of_prefix_length_le hPlace.2.2.2 hApplies.2.2.2 hSame.le).eq_of_length hSame]
      exact hBehind
    · have hPlace := hApplies.2.2.1
      simp [AuthConfig.place, hNone] at hPlace
  · intro hUnhidden
    refine .inl ⟨workspace, hApplies, fun other place hOther => ?_⟩
    by_cases hBehind : Hidden place cwd
    · obtain ⟨seen, deeper, hSeen, hOpen, hDeeper⟩ := hUnhidden other place hOther hBehind
      have hLt : place.length < workspace.length := by
        rcases hFirst seen deeper hSeen hOpen with hLength | ⟨rfl, -⟩
        · exact hDeeper.trans hLength
        · exact hDeeper
      exact ⟨hLt.le, fun hSame => absurd (congrArg List.length hSame) hLt.ne⟩
    · rcases hFirst other place hOther hBehind with hLength | ⟨rfl, hSaved⟩
      · exact ⟨hLength.le, fun hSame => absurd (congrArg List.length hSame) hLength.ne⟩
      · exact ⟨le_rfl, fun _ => hSaved⟩

theorem right_iff_of_none (hCwd : ∀ segment ∈ cwd, segment ≠ [] ∧ 47 ∉ segment) (hNone : scopedEntries paths entries url cwd = []) :
    Right paths entries url cwd ((unscopedEntries entries url).insertionSort fun a b => b.savedAt ≤ a.savedAt).head? ↔
      Unhidden paths entries url cwd := by
  have hUnhidden : Unhidden paths entries url cwd ↔ ∀ entry workspace, ¬Applies paths entries url cwd entry workspace := by
    have hAll : ∀ {entry workspace}, Applies paths entries url cwd entry workspace → Hidden workspace cwd := by
      intro entry workspace hApplies
      by_contra hOpen
      have hEntry := (mem_scopedEntries_iff hCwd entry).mpr ⟨workspace, hApplies, hOpen⟩
      rw [hNone] at hEntry
      cases hEntry
    refine ⟨fun h entry workspace hApplies => ?_, fun h entry workspace hApplies => absurd hApplies (h entry workspace)⟩
    obtain ⟨other, place, hOther, hOpen, -⟩ := h entry workspace hApplies (hAll hApplies)
    exact hOpen (hAll hOther)
  rw [hUnhidden]
  cases hLatest : ((unscopedEntries entries url).insertionSort fun a b => b.savedAt ≤ a.savedAt).head? with
  | some entry =>
    obtain ⟨hEntry, hFirst⟩ := head_insertionSort (fun a b => le_total b.savedAt a.savedAt) (fun a b c hab hbc => hbc.trans hab) hLatest
    obtain ⟨hMem, hUrl, hFree⟩ := (mem_unscopedEntries_iff entry).mp hEntry
    constructor
    · rintro (⟨workspace, hApplies, -⟩ | ⟨-, -, -, hOut, -⟩)
      · have hPlace := hApplies.2.2.1
        simp [place, hFree] at hPlace
      · exact hOut
    · exact fun hOut => .inr ⟨hMem, hUrl, hFree, hOut, fun other hOther hSame hFree =>
        hFirst other ((mem_unscopedEntries_iff other).mpr ⟨hOther, hSame, hFree⟩)⟩
  | none =>
    refine ⟨And.left, fun hOut => ⟨hOut, fun other hOther hSame hFree => ?_⟩⟩
    have hEntry := (List.mem_insertionSort fun a b : AuthConfigEntry τ => b.savedAt ≤ a.savedAt).mpr
      ((mem_unscopedEntries_iff other).mpr ⟨hOther, hSame, hFree⟩)
    rw [List.head?_eq_none_iff.mp hLatest] at hEntry
    cases hEntry

theorem findAuthEntry_right_iff (path : JsString) :
    Right paths entries url (paths.canonical path) (findAuthEntry paths entries url path) ↔ Unhidden paths entries url (paths.canonical path) := by
  have hCwd := paths.segments path
  unfold findAuthEntry
  generalize paths.canonical path = cwd at *
  cases hNear : ((scopedEntries paths entries url cwd).insertionSort (closer paths)).head? with
  | none =>
    rw [List.head?_eq_none_iff, ← List.length_eq_zero_iff, List.length_insertionSort, List.length_eq_zero_iff] at hNear
    exact right_iff_of_none hCwd hNear
  | some entry =>
    obtain ⟨hEntry, hFirst⟩ := head_insertionSort (fun a b => by unfold closer; grind) (fun a b c => by unfold closer; grind) hNear
    obtain ⟨workspace, hApplies, hHidden⟩ := (mem_scopedEntries_iff hCwd entry).mp hEntry
    refine right_iff_of_first hApplies hHidden fun other place hOther hOpen => ?_
    have hOrder := hFirst other ((mem_scopedEntries_iff hCwd other).mpr ⟨place, hOther, hOpen⟩)
    unfold closer depth at hOrder
    rw [hApplies.2.2.1, hOther.2.2.1, Option.getD_some, Option.getD_some] at hOrder
    have hLonger := text_length_lt_iff (fun segment hSegment => (hCwd segment hSegment).1) hOther.2.2.2 hApplies.2.2.2
    have hShorter := text_length_lt_iff (fun segment hSegment => (hCwd segment hSegment).1) hApplies.2.2.2 hOther.2.2.2
    rcases hOrder with hLength | ⟨hSame, hSaved⟩
    · exact .inl (hLonger.mp hLength)
    · have hLength : place.length = workspace.length := by omega
      exact .inr ⟨(List.prefix_of_prefix_length_le hOther.2.2.2 hApplies.2.2.2 hLength.le).eq_of_length hLength, hSaved⟩

end Lookup

/-! ## The saves -/

section Saves

variable {paths : Canonical}

def withKey (paths : Canonical) (key : JsString) (entries : List (AuthConfigEntry τ)) : List (AuthConfigEntry τ) :=
  entries.filter fun entry => entry.key paths = key

omit [LinearOrder τ] in
theorem entryPairKey_normalizeWorkspace (url : JsString) (workspace : Option JsString) :
    entryPairKey paths url (normalizeWorkspace paths workspace) = entryPairKey paths url workspace := by
  cases workspace with
  | none => rfl
  | some workspace => simp [entryPairKey, normalizeWorkspace, paths.idempotent]

omit [LinearOrder τ] in
theorem withKey_saveAuthEntry (entry : AuthConfigEntry τ) (entries : List (AuthConfigEntry τ)) (key : JsString) :
    withKey paths key (saveAuthEntry paths entry entries) =
      if entry.key paths = key then [{ entry with workspace := normalizeWorkspace paths entry.workspace }] else withKey paths key entries := by
  have hKey : entryPairKey paths entry.url (normalizeWorkspace paths entry.workspace) = entry.key paths := entryPairKey_normalizeWorkspace ..
  have hSaved : AuthConfigEntry.key paths { entry with workspace := normalizeWorkspace paths entry.workspace } = entry.key paths := hKey
  unfold withKey saveAuthEntry
  dsimp only
  rw [hKey, List.filter_append, List.filter_filter]
  simp only [List.filter_cons, List.filter_nil, hSaved, decide_eq_true_eq]
  by_cases hSame : entry.key paths = key
  · subst hSame
    rw [if_pos rfl, if_pos rfl]
    exact congrArg (· ++ _) (List.filter_eq_nil_iff.mpr fun other _ hBoth => by
      obtain ⟨hKept, hOther⟩ := Bool.and_eq_true_iff.mp hBoth
      exact absurd (of_decide_eq_true hKept) (of_decide_eq_true hOther))
  · rw [if_neg hSame, if_neg hSame, List.append_nil]
    refine List.filter_congr fun other _ => ?_
    by_cases hOther : other.key paths = key
    · have hNe : other.key paths ≠ entry.key paths := fun h => hSame (h.symm.trans hOther)
      change (_ && decide (other.key paths ≠ entry.key paths)) = _
      rw [decide_eq_true hNe, Bool.and_true]
    · simp [hOther]

omit [LinearOrder τ] in
theorem existing_eq (entries : List (AuthConfigEntry τ)) (key : JsString) :
    existing paths entries key = (withKey paths key entries).getLast?.map AuthConfigEntry.savedAt := by
  induction entries using List.reverseRecOn with
  | nil => rfl
  | append_singleton entries entry ih =>
    unfold existing withKey at *
    rw [List.foldl_append, List.foldl_cons, List.foldl_nil, List.filter_append]
    by_cases hSame : entry.key paths = key
    · subst hSame
      simp
    · rw [update_of_ne (Ne.symm hSame), ih]
      simp [hSame]

omit [LinearOrder τ] in
theorem existing_saveAuthEntry (entry : AuthConfigEntry τ) (entries : List (AuthConfigEntry τ)) :
    existing paths (saveAuthEntry paths entry entries) = update (existing paths entries) (entry.key paths) (some entry.savedAt) := by
  funext key
  rw [existing_eq, withKey_saveAuthEntry]
  by_cases hSame : entry.key paths = key
  · subst hSame
    simp
  · rw [if_neg hSame, update_of_ne (Ne.symm hSame), existing_eq]

/-- Where no earlier entry of the legacy file is saved under the key, and the last entry of the store with the key is older than
the entry, every entry of the store with the key is. -/
def LastIsNewestFor (paths : Canonical) (entries before : List (AuthConfigEntry τ)) (entry : AuthConfigEntry τ) : Prop :=
  (∀ other ∈ before, other.key paths = entry.key paths → ∀ time ∈ existing paths entries (entry.key paths), other.savedAt ≤ time) →
    (∀ time ∈ existing paths entries (entry.key paths), time < entry.savedAt) →
    ∀ found ∈ withKey paths (entry.key paths) entries, found.savedAt < entry.savedAt

def LastIsNewest (paths : Canonical) (entries legacy : List (AuthConfigEntry τ)) : Prop :=
  ∀ before entry after, legacy = before ++ entry :: after → LastIsNewestFor paths entries before entry

theorem lastIsNewest_cons (entries : List (AuthConfigEntry τ)) (first : AuthConfigEntry τ) (rest : List (AuthConfigEntry τ)) :
    LastIsNewest paths entries (first :: rest) ↔ LastIsNewestFor paths entries [] first ∧
      ∀ before entry after, rest = before ++ entry :: after → LastIsNewestFor paths entries (first :: before) entry := by
  constructor
  · exact fun h => ⟨h [] first rest rfl, fun before entry after hRest => h (first :: before) entry after (hRest ▸ rfl)⟩
  · rintro ⟨hFirst, hRest⟩ before entry after hLegacy
    cases before with
    | nil =>
      obtain ⟨rfl, rfl⟩ := List.cons.inj hLegacy
      exact hFirst
    | cons head before =>
      obtain ⟨rfl, rfl⟩ := List.cons.inj hLegacy
      exact hRest before entry after rfl

theorem migrateEntries_newer_iff (legacy entries : List (AuthConfigEntry τ)) :
    (∀ save ∈ (migrateEntries paths (existing paths entries) entries legacy).2, Newer paths save) ↔ LastIsNewest paths entries legacy := by
  induction legacy generalizing entries with
  | nil => exact iff_of_true (fun _ h => nomatch h) fun before entry after h => by simp at h
  | cons first rest ih =>
    rw [migrateEntries, lastIsNewest_cons]
    split
    · rename_i hKept
      obtain ⟨kept, hKnown, hNewer⟩ := Option.any_eq_true .. |>.mp hKept
      have hNewer := of_decide_eq_true hNewer
      have hFirst : LastIsNewestFor paths entries [] first := fun _ hOlder => absurd (hOlder kept hKnown) hNewer.not_gt
      rw [ih, and_iff_right hFirst]
      refine forall₄_congr fun before entry after _ => imp_congr_left ?_
      rw [List.forall_mem_cons, iff_and_self]
      intro _ hSame time hTime
      rw [← hSame, hKnown] at hTime
      exact Option.some.inj hTime ▸ hNewer
    · rename_i hKept
      have hOlder : ∀ time ∈ existing paths entries (first.key paths), time < first.savedAt := by
        intro time hTime
        by_contra hNot
        exact hKept (Option.any_eq_true .. |>.mpr ⟨time, hTime, decide_eq_true (not_lt.mp hNot)⟩)
      dsimp only
      rw [List.forall_mem_cons, ← existing_saveAuthEntry, ih]
      refine and_congr ⟨fun h _ _ found hFound => ?_, fun h found hFound hKey => ?_⟩ (forall₄_congr fun before entry after _ => ?_)
      · exact h found (List.mem_filter.mp hFound).1 (of_decide_eq_true (List.mem_filter.mp hFound).2)
      · exact h nofun hOlder found (List.mem_filter.mpr ⟨hFound, decide_eq_true hKey⟩)
      · unfold LastIsNewestFor
        rw [existing_saveAuthEntry, withKey_saveAuthEntry]
        by_cases hSame : first.key paths = entry.key paths
        · rw [if_pos hSame, ← hSame]
          refine iff_of_true (fun _ hNewer found hFound => ?_) fun hBefore _ found hFound => ?_
          · rw [List.mem_singleton.mp hFound]
            exact hNewer _ (update_self ..)
          · have hLast : existing paths entries (first.key paths) = _ := existing_eq ..
            rw [List.getLast?_eq_some_getLast (List.ne_nil_of_mem hFound), Option.map_some] at hLast
            exact absurd (hBefore first List.mem_cons_self rfl _ hLast) (hOlder _ hLast).not_ge
        · rw [if_neg hSame, update_of_ne (Ne.symm hSame)]
          refine imp_congr_left ?_
          rw [List.forall_mem_cons, iff_and_self]
          exact fun _ hOther => absurd hOther hSame

omit [LinearOrder τ] in
theorem single_saveAuthEntry (entry : AuthConfigEntry τ) (entries : List (AuthConfigEntry τ)) (key : JsString)
    (h : (withKey paths key entries).length ≤ 1 ∨ entry.key paths = key) : (withKey paths key (saveAuthEntry paths entry entries)).length ≤ 1 := by
  rw [withKey_saveAuthEntry]
  split
  · exact le_rfl
  · rename_i hOther
    exact h.resolve_right hOther

theorem single_migrateEntries (legacy : List (AuthConfigEntry τ)) (known : JsString → Option τ) (entries : List (AuthConfigEntry τ)) :
    (∀ key, (withKey paths key entries).length ≤ 1 → (withKey paths key (migrateEntries paths known entries legacy).1).length ≤ 1) ∧
      ∀ save ∈ (migrateEntries paths known entries legacy).2,
        (withKey paths (save.entry.key paths) (migrateEntries paths known entries legacy).1).length ≤ 1 := by
  induction legacy generalizing known entries with
  | nil => exact ⟨fun _ => id, fun _ h => nomatch h⟩
  | cons first rest ih =>
    rw [migrateEntries]
    split
    · exact ih _ _
    · obtain ⟨hKeeps, hSaves⟩ := ih (update known (first.key paths) (some first.savedAt)) (saveAuthEntry paths first entries)
      refine ⟨fun key hKey => hKeeps key (single_saveAuthEntry _ _ key (.inl hKey)), fun save hSave => ?_⟩
      rcases List.mem_cons.mp hSave with rfl | hRest
      · exact hKeeps _ (single_saveAuthEntry _ _ _ (.inr rfl))
      · exact hSaves save hRest

theorem single_apply (entries : List (AuthConfigEntry τ)) (past : List (Save τ)) (call : Call τ)
    (h : ∀ save ∈ past, (withKey paths (save.entry.key paths) entries).length ≤ 1) :
    ∀ save ∈ past ++ (apply paths entries call).2, (withKey paths (save.entry.key paths) (apply paths entries call).1).length ≤ 1 := by
  intro save hSave
  cases call with
  | saveAuthEntry entry =>
    refine single_saveAuthEntry entry entries _ ((List.mem_append.mp hSave).imp (h save) fun hNew => ?_)
    rw [List.mem_singleton.mp hNew]
  | migrateLegacyStore legacy =>
    rcases List.mem_append.mp hSave with hOld | hNew
    · exact (single_migrateEntries legacy _ entries).1 _ (h save hOld)
    · exact (single_migrateEntries legacy _ entries).2 save hNew

end Saves

/-! ## Runs -/

section Runs

variable (start : List (AuthConfigEntry τ)) (calls : List (Call τ)) (url cwd : JsString)

/-- What is asked of the store that some calls leave, and of the calls. -/
structure Lawful : Prop where
  right : Right paths (final (apply paths) start calls) url (paths.canonical cwd)
    (findAuthEntry paths (final (apply paths) start calls) url cwd)
  single : ∀ save ∈ (run (apply paths) start calls).flatMap Step.output, (final (apply paths) start calls).countP
    (fun entry => entry.url = save.entry.url ∧ place paths entry = place paths save.entry) ≤ 1
  newer : ∀ step ∈ run (apply paths) start calls, ∀ legacy, step.input = .migrateLegacyStore legacy → ∀ save ∈ step.output, Newer paths save

/-- The store is lawful exactly if no workspace that applies is hidden without a deeper one that is not, and a migration finds the
newest entry of a key last, as far as that matters. -/
theorem auth_lawful_iff : Lawful paths start calls url cwd ↔
    Unhidden paths (final (apply paths) start calls) url (paths.canonical cwd) ∧
      ∀ step ∈ run (apply paths) start calls, ∀ legacy, step.input = .migrateLegacyStore legacy →
        LastIsNewest paths step.before legacy := by
  have hNewer : (∀ step ∈ run (apply paths) start calls, ∀ legacy, step.input = .migrateLegacyStore legacy →
      ∀ save ∈ step.output, Newer paths save) ↔ ∀ step ∈ run (apply paths) start calls, ∀ legacy,
        step.input = .migrateLegacyStore legacy → LastIsNewest paths step.before legacy := by
    refine forall₂_congr fun step hStep => forall₂_congr fun legacy hInput => ?_
    have hAt := (run_invariant (P := fun _ => True) (fun _ _ _ => trivial) trivial hStep).2
    rw [hAt, stepAt_output, hInput]
    exact migrateEntries_newer_iff legacy step.before
  constructor
  · exact fun h => ⟨(findAuthEntry_right_iff cwd).mp h.right, hNewer.mp h.newer⟩
  · refine fun ⟨hUnhidden, hLast⟩ => ⟨(findAuthEntry_right_iff cwd).mpr hUnhidden, fun save hSave => ?_, hNewer.mpr hLast⟩
    have hSingle : ∀ save ∈ [] ++ (run (apply paths) start calls).flatMap Step.output,
        (withKey paths (save.entry.key paths) (final (apply paths) start calls)).length ≤ 1 :=
      final_history (J := fun entries (past : List (Save τ)) => ∀ save ∈ past, (withKey paths (save.entry.key paths) entries).length ≤ 1)
        single_apply (by simp) calls
    rw [List.countP_eq_length_filter]
    refine (List.Sublist.length_le (List.monotone_filter_right _ fun entry hEntry => ?_)).trans (hSingle save hSave)
    obtain ⟨hUrl, hPlace⟩ := of_decide_eq_true hEntry
    refine decide_eq_true ?_
    have hText : normalizeWorkspace paths entry.workspace = normalizeWorkspace paths save.entry.workspace := by
      have hBoth := congrArg (Option.map Path.text) hPlace
      simpa [place, normalizeWorkspace, comp_def] using hBoth
    unfold AuthConfigEntry.key entryPairKey
    rw [hUrl, hText]

end Runs

/-- A directory that is the workspace of one entry resolves to it. -/
theorem found_of_only {entries : List (AuthConfigEntry τ)} {url path : JsString} {saved : AuthConfigEntry τ}
    (hSaved : Applies paths entries url (paths.canonical path) saved (paths.canonical path))
    (hOnly : ∀ other, Applies paths entries url (paths.canonical path) other (paths.canonical path) → other = saved) :
    findAuthEntry paths entries url path = some saved := by
  have hUnhidden : Unhidden paths entries url (paths.canonical path) := by
    rintro other workspace hOther ⟨segment, rest, hCwd, -⟩
    refine ⟨saved, _, hSaved, ?_, by simp [hCwd]⟩
    rintro ⟨next, more, hSame, -⟩
    exact absurd (congrArg List.length hSame) (by simp)
  have hRight := (findAuthEntry_right_iff path).mpr hUnhidden
  cases hFound : findAuthEntry paths entries url path with
  | none =>
    rw [hFound] at hRight
    exact absurd hSaved (hRight.1 _ _)
  | some found =>
    rw [hFound] at hRight
    rcases hRight with ⟨workspace, hApplies, hBest⟩ | ⟨-, -, -, hNone, -⟩
    · have hWhole : workspace = paths.canonical path := hApplies.2.2.2.eq_of_length_le (hBest _ _ hSaved).1
      rw [hOnly found (hWhole ▸ hApplies)]
    · exact absurd hSaved (hNone _ _)

/-- Whatever the store holds, what is saved for a directory is found from it. -/
theorem found_after_save (entries : List (AuthConfigEntry τ)) (entry : AuthConfigEntry τ) (path : JsString) :
    findAuthEntry paths (saveAuthEntry paths { entry with workspace := some path } entries) entry.url path =
      some { entry with workspace := some (paths.canonical path).text } := by
  refine found_of_only paths ⟨List.mem_append_right _ (List.mem_singleton_self _), rfl, congrArg some (paths.idempotent path), List.prefix_rfl⟩ ?_
  rintro other ⟨hOther, hUrl, hPlace, -⟩
  rcases List.mem_append.mp hOther with hOld | hNew
  · refine absurd ?_ (of_decide_eq_true (List.mem_filter.mp hOld).2)
    have hText : normalizeWorkspace paths other.workspace = some (paths.canonical path).text := by
      simpa [place, normalizeWorkspace, comp_def] using congrArg (Option.map Path.text) hPlace
    unfold AuthConfigEntry.key entryPairKey
    rw [hUrl, hText]
    simp [normalizeWorkspace, paths.idempotent]
  · exact List.mem_singleton.mp hNew

/-- `/a` and `/a/..b` are directories; any other path stands for the root. -/
def twoDirectories : Canonical where
  canonical path := if path = [47, 97] then [[97]] else if path = [47, 97, 47, 46, 46, 98] then [[97], [46, 46, 98]] else []
  idempotent path := by split_ifs <;> simp_all [Path.text]
  segments path := by split_ifs <;> simp

theorem dotted_directory_unresolved : ¬Lawful twoDirectories [⟨[117], some [47, 97], [116], 1⟩] [] [117] [47, 97, 47, 46, 46, 98] := by
  intro h
  exact h.right.1 ⟨[117], some [47, 97], [116], 1⟩ [[97]] ⟨by simp, rfl, rfl, ⟨[[46, 46, 98]], rfl⟩⟩

end CommandSuite.AuthConfig
