import CommandSuite.Library.Text

/-! # Paths

`packages/core/src/files/paths.ts`. A path is a list of segments that carries what `normalizePath`
checks, so that the columns and the permission checks of the store never see another one.
-/

namespace CommandSuite.Files

open Library Text

inductive FsErrorCode where
  | notFound | exists | notADirectory | isADirectory | notEmpty | forbidden | invalidInput | tooLarge | corrupt
  deriving DecidableEq

structure FsError where
  code : FsErrorCode
  message : String
  deriving DecidableEq

def MAX_PATH_LENGTH : Nat := 1024

def MAX_SEGMENT_LENGTH : Nat := 255

def OBJECTIVE_NAMESPACE_SEGMENT : String := "objectives"

def OBJECTIVE_OWNER_PREFIX : String := "obj:"

/-- The characters of `SEGMENT_RE`. -/
def segmentCharacter (c : Char) : Bool := c.isAlphanum || c == '.' || c == '_' || c == '-' || c == ' '

/-- What `normalizePath` has against a segment. -/
def segmentFault (seg : String) : Option FsError :=
  if seg = "." ∨ seg = ".." then
    some ⟨.invalidInput, s!"path traversal segment \"{seg}\" is not allowed"⟩
  else if MAX_SEGMENT_LENGTH < units seg then
    -- `slice` may cut a pair of code units in two; the half is left out here
    let start := String.ofList (takeUnits 32 seg.toList)
    some ⟨.invalidInput, s!"segment \"{start}…\" exceeds max length {MAX_SEGMENT_LENGTH}"⟩
  else if trim seg ≠ seg then
    some ⟨.invalidInput, "segments may not have leading/trailing whitespace"⟩
  else if seg = "" ∨ seg.toList.all segmentCharacter = false then
    some ⟨.invalidInput, s!"invalid characters in segment \"{seg}\""⟩
  else none

variable {seg : String}

theorem characters_of_no_fault (h : segmentFault seg = none) : seg ≠ "" ∧ ∀ c ∈ seg.toList, segmentCharacter c = true := by
  have hCharacters : ¬(seg = "" ∨ seg.toList.all segmentCharacter = false) := by
    intro hBad
    unfold segmentFault at h
    rw [if_pos hBad] at h
    split at h
    · cases h
    · split at h
      · cases h
      · split at h <;> cases h
  simpa only [not_or, Bool.not_eq_false, List.all_eq_true] using hCharacters

theorem segment_of_no_fault (h : segmentFault seg = none) : seg ≠ "" ∧ '/' ∉ seg.toList := by
  obtain ⟨hSome, hCharacters⟩ := characters_of_no_fault h
  refine ⟨hSome, fun hSlash => ?_⟩
  have hCharacter := hCharacters '/' hSlash
  revert hCharacter
  decide

def renderSegments (segments : List String) : String := "/" ++ join '/' segments

structure Path where
  segments : List String
  valid : ∀ seg ∈ segments, segmentFault seg = none
  fits : units (renderSegments segments) ≤ MAX_PATH_LENGTH
  deriving DecidableEq

def ROOT_PATH : Path := ⟨[], by simp, by decide⟩

def segmentsOf (text : String) : List String := (split '/' text).filter (· ≠ "")

theorem renderSegments_segmentsOf_le {raw : String} (h : startsWith raw "/" = true) :
    units (renderSegments (segmentsOf raw)) ≤ units raw := by
  obtain ⟨rest, hRest⟩ := startsWith_iff _ _ |>.mp h
  have hRaw : raw = "/" ++ String.ofList rest := by
    rw [← String.toList_inj, ← hRest]
    simp
  have hSegments : segmentsOf raw = (split '/' (String.ofList rest)).filter (· ≠ "") := by
    have hSplit := split_append '/' "" (String.ofList rest)
    rw [String.empty_append] at hSplit
    rw [segmentsOf, hRaw, show ("/" : String) = String.singleton '/' from rfl, hSplit,
      split_of_not_mem '/' (by simp), List.filter_append]
    rfl
  have hJoin := units_join_le '/' (List.filter_sublist (l := split '/' (String.ofList rest)) (p := (· ≠ "")))
  rw [join_split] at hJoin
  rw [renderSegments, hSegments, units_append]
  conv_rhs => rw [hRaw, units_append]
  omega

theorem segmentsOf_renderSegments {segments : List String} (h : ∀ seg ∈ segments, '/' ∉ seg.toList ∧ seg ≠ "") :
    segmentsOf (renderSegments segments) = segments := by
  have hSplit := split_append '/' "" (join '/' segments)
  rw [String.empty_append] at hSplit
  rw [segmentsOf, renderSegments, show ("/" : String) = String.singleton '/' from rfl, hSplit,
    split_of_not_mem '/' (by simp), List.singleton_append, List.filter_cons_of_neg (by simp)]
  by_cases hRoot : segments = []
  · rw [hRoot]
    rfl
  · rw [split_join '/' (fun seg hSeg => (h seg hSeg).1) hRoot, List.filter_eq_self]
    intro seg hSeg
    simpa using (h seg hSeg).2

theorem segment_of_mem_segmentsOf {text seg : String} (h : seg ∈ segmentsOf text) : '/' ∉ seg.toList ∧ seg ≠ "" := by
  obtain ⟨hSplit, hSome⟩ := List.mem_filter.mp h
  exact ⟨not_mem_of_mem_split '/' hSplit, by simpa using hSome⟩

def normalizePath (raw : String) : Except FsError Path :=
  if raw = "" then .error ⟨.invalidInput, "path must not be empty"⟩
  else if hLong : MAX_PATH_LENGTH < units raw then
    .error ⟨.invalidInput, s!"path exceeds max length {MAX_PATH_LENGTH}"⟩
  else if hAbsolute : startsWith raw "/" = true then
    match hFault : (segmentsOf raw).findSome? segmentFault with
    | some error => .error error
    | none => .ok
      { segments := segmentsOf raw
        valid := List.findSome?_eq_none_iff.mp hFault
        fits := (renderSegments_segmentsOf_le hAbsolute).trans (Nat.le_of_not_lt hLong) }
  else .error ⟨.invalidInput, "path must be absolute (start with /)"⟩

namespace Path

theorem ext {left right : Path} (h : left.segments = right.segments) : left = right := by
  cases left
  cases right
  cases h
  rfl

def render (path : Path) : String := renderSegments path.segments

theorem not_slash (path : Path) {seg : String} (h : seg ∈ path.segments) : '/' ∉ seg.toList :=
  (segment_of_no_fault (path.valid seg h)).2

theorem not_percent (path : Path) : '%' ∉ path.render.toList := by
  intro hPercent
  rw [render, renderSegments, String.toList_append] at hPercent
  rcases List.mem_append.mp hPercent with hSlash | hJoined
  · revert hSlash
    decide
  · rcases mem_join '/' hJoined with hSlash | ⟨seg, hSeg, hChar⟩
    · revert hSlash
      decide
    · have hCharacter := (characters_of_no_fault (path.valid seg hSeg)).2 '%' hChar
      revert hCharacter
      decide

theorem segmentsOf_render (path : Path) : segmentsOf path.render = path.segments :=
  segmentsOf_renderSegments fun seg hSeg => (segment_of_no_fault (path.valid seg hSeg)).symm

end Path

variable {path : Path}

theorem segments_of_normalizePath {raw : String} (h : normalizePath raw = .ok path) : path.segments = segmentsOf raw := by
  unfold normalizePath at h
  split at h
  · cases h
  · split at h
    · cases h
    · split at h
      · split at h
        · cases h
        · cases h
          rfl
      · cases h

/-- Normalizing is idempotent: `splitPath` may normalize again what is normalized. -/
theorem normalizePath_render (path : Path) : normalizePath path.render = .ok path := by
  have hSegments := path.segmentsOf_render
  have hFault : (segmentsOf path.render).findSome? segmentFault = none := by
    rw [hSegments, List.findSome?_eq_none_iff]
    exact path.valid
  have hAbsolute : startsWith path.render "/" = true := startsWith_append "/" _
  have hSome : path.render ≠ "" := by
    intro h
    rw [h] at hAbsolute
    revert hAbsolute
    decide
  unfold normalizePath
  rw [if_neg hSome, dif_neg (show ¬MAX_PATH_LENGTH < units path.render from Nat.not_lt.mpr path.fits), dif_pos hAbsolute]
  split
  · rename_i hError
    rw [hFault] at hError
    cases hError
  · exact congrArg Except.ok (Path.ext hSegments)

def parentOf (path : Path) : Path where
  segments := path.segments.dropLast
  valid seg h := path.valid seg (List.dropLast_subset _ h)
  fits := by
    refine Nat.le_trans ?_ path.fits
    rw [renderSegments, renderSegments, units_append, units_append]
    exact Nat.add_le_add_left (units_join_le '/' (List.dropLast_sublist _)) _

def basenameOf (path : Path) : String := path.segments.getLast?.getD ""

/-- The `owner` column of the row at a path. The root has no row. -/
def ownerOf (path : Path) : Option String :=
  match path.segments with
  | [] => none
  | first :: rest =>
    if first = OBJECTIVE_NAMESPACE_SEGMENT then
      match rest with
      | [] => some OBJECTIVE_NAMESPACE_SEGMENT
      | id :: _ => some (OBJECTIVE_OWNER_PREFIX ++ id)
    else some first

structure ObjectivePath where
  id : String
  subpath : String

def parseObjectiveNamespacePath (path : Path) : Option ObjectivePath :=
  match path.segments with
  | first :: id :: rest =>
    if first = OBJECTIVE_NAMESPACE_SEGMENT then some ⟨id, join '/' rest⟩ else none
  | _ => none

def joinPath (parts : List String) : Except FsError Path :=
  let collected := parts.flatMap segmentsOf
  if collected = [] then .ok ROOT_PATH else normalizePath (renderSegments collected)

def isAncestorPath (ancestor descendant : Path) : Bool :=
  ancestor = descendant || ancestor = ROOT_PATH || startsWith descendant.render (ancestor.render ++ "/")

theorem segmentsOf_append (first second : String) :
    segmentsOf (first ++ ("/" ++ second)) = segmentsOf first ++ segmentsOf second := by
  rw [segmentsOf, show ("/" : String) = String.singleton '/' from rfl, split_append, List.filter_append]
  rfl

theorem isAncestorPath_iff (ancestor descendant : Path) :
    isAncestorPath ancestor descendant = true ↔ ancestor.segments <+: descendant.segments := by
  simp only [isAncestorPath, Bool.or_eq_true, decide_eq_true_eq]
  constructor
  · rintro ((rfl | rfl) | h)
    · exact List.prefix_refl _
    · exact List.nil_prefix
    · obtain ⟨rest, hRest⟩ := (startsWith_iff _ _).mp h
      have hRender : descendant.render = ancestor.render ++ ("/" ++ String.ofList rest) := by
        rw [← String.toList_inj, ← hRest]
        simp
      rw [← descendant.segmentsOf_render, hRender, segmentsOf_append, ancestor.segmentsOf_render]
      exact List.prefix_append _ _
  · rintro ⟨rest, hRest⟩
    by_cases hRoot : ancestor.segments = []
    · exact .inl (.inr (Path.ext hRoot))
    · by_cases hSame : rest = []
      · rw [hSame, List.append_nil] at hRest
        exact .inl (.inl (Path.ext hRest))
      · refine .inr ?_
        have hRender : descendant.render = ancestor.render ++ "/" ++ join '/' rest := by
          rw [Path.render, Path.render, renderSegments, renderSegments, ← hRest, join_append '/' hRoot hSame]
          simp only [String.append_assoc]
          rfl
        rw [hRender]
        exact startsWith_append _ _

theorem segments_of_joinPath {parts : List String} (h : joinPath parts = .ok path) :
    path.segments = parts.flatMap segmentsOf := by
  unfold joinPath at h
  dsimp only at h
  split at h
  · rename_i hNone
    cases h
    exact hNone.symm
  · rw [segments_of_normalizePath h]
    refine segmentsOf_renderSegments fun seg hSeg => ?_
    obtain ⟨part, _, hPart⟩ := List.mem_flatMap.mp hSeg
    exact segment_of_mem_segmentsOf hPart

def siblingPath (parent : Path) (name : String) : Except FsError Path := joinPath [parent.render, name]

variable {name : String}

theorem segments_of_siblingPath {parent : Path} (h : siblingPath parent name = .ok path) :
    path.segments = parent.segments ++ segmentsOf name := by
  rw [segments_of_joinPath h]
  simp [parent.segmentsOf_render]

theorem segmentsOf_of_no_fault (h : segmentFault seg = none) : segmentsOf seg = [seg] := by
  obtain ⟨hEmpty, hSlash⟩ := segment_of_no_fault h
  rw [segmentsOf, split_of_not_mem '/' hSlash, List.filter_cons_of_pos (by simpa using hEmpty)]
  rfl

theorem basenameOf_eq_getLast (h : path.segments ≠ []) : basenameOf path = path.segments.getLast h := by
  rw [basenameOf, List.getLast?_eq_some_getLast h, Option.getD_some]

theorem segmentsOf_basenameOf (h : path ≠ ROOT_PATH) : segmentsOf (basenameOf path) = [basenameOf path] := by
  have hSome : path.segments ≠ [] := fun hNil => h (Path.ext hNil)
  rw [basenameOf_eq_getLast hSome]
  exact segmentsOf_of_no_fault (path.valid _ (List.getLast_mem hSome))

theorem siblingPath_basenameOf (h : path ≠ ROOT_PATH) : siblingPath (parentOf path) (basenameOf path) = .ok path := by
  have hSome : path.segments ≠ [] := fun hNil => h (Path.ext hNil)
  have hCollected : [(parentOf path).render, basenameOf path].flatMap segmentsOf = path.segments := by
    rw [List.flatMap_cons, List.flatMap_singleton, (parentOf path).segmentsOf_render, segmentsOf_basenameOf h,
      basenameOf_eq_getLast hSome]
    exact List.dropLast_append_getLast hSome
  unfold siblingPath joinPath
  rw [hCollected, if_neg hSome]
  exact normalizePath_render path

def lastIndexOf (c : Char) (text : List Char) : Option Nat := (text.reverse.idxOf? c).map fun i => text.length - 1 - i

/-- `-1`, `-2`, … goes before the extension, which a leading dot does not start. -/
def stemAndExtension (name : String) : String × String :=
  match lastIndexOf '.' name.toList with
  | some (dot + 1) => (String.ofList (name.toList.take (dot + 1)), String.ofList (name.toList.drop (dot + 1)))
  | _ => (name, "")

def candidate (name : String) (i : Nat) : String :=
  let (stem, ext) := stemAndExtension name
  stem ++ "-" ++ toString i ++ ext

/-- The first candidate from `i` on that is not taken, out of the next `attempts`. -/
def firstCandidate (name : String) (taken : String → Except FsError Bool) : Nat → Nat → Except FsError String
  | 0, _ => .error ⟨.exists, s!"unable to find non-colliding name for \"{name}\""⟩
  | attempts + 1, i => do
    if ← taken (candidate name i) then firstCandidate name taken attempts (i + 1) else return candidate name i

variable {taken : String → Except FsError Bool}

theorem firstCandidate_eq_ok_iff {attempts i : Nat} {newName : String} :
    firstCandidate name taken attempts i = .ok newName ↔
      ∃ k, i ≤ k ∧ k < i + attempts ∧ newName = candidate name k ∧ taken (candidate name k) = .ok false ∧
        ∀ j, i ≤ j → j < k → taken (candidate name j) = .ok true := by
  induction attempts generalizing i with
  | zero =>
    refine iff_of_false (by simp [firstCandidate]) ?_
    rintro ⟨k, hLow, hHigh, _⟩
    omega
  | succ attempts ih =>
    have hUnfold : firstCandidate name taken (attempts + 1) i = match taken (candidate name i) with
        | .ok true => firstCandidate name taken attempts (i + 1)
        | .ok false => .ok (candidate name i)
        | .error error => .error error := by
      rw [firstCandidate]
      rcases taken (candidate name i) with _ | _ | _ <;> rfl
    rw [hUnfold]
    cases hTaken : taken (candidate name i) with
    | error error =>
      refine iff_of_false (by simp) ?_
      rintro ⟨k, hLow, _, _, hFree, hBefore⟩
      rcases Nat.eq_or_lt_of_le hLow with rfl | hLess
      · rw [hTaken] at hFree
        cases hFree
      · rw [hBefore i (Nat.le_refl i) hLess] at hTaken
        cases hTaken
    | ok isTaken =>
      cases isTaken with
      | true =>
        dsimp only
        rw [ih]
        constructor
        · rintro ⟨k, hLow, hHigh, hName, hFree, hBefore⟩
          refine ⟨k, by omega, by omega, hName, hFree, fun j hFrom hTo => ?_⟩
          rcases Nat.eq_or_lt_of_le hFrom with rfl | hLess
          · exact hTaken
          · exact hBefore j hLess hTo
        · rintro ⟨k, hLow, hHigh, hName, hFree, hBefore⟩
          rcases Nat.eq_or_lt_of_le hLow with rfl | hLess
          · rw [hTaken] at hFree
            cases hFree
          · exact ⟨k, hLess, by omega, hName, hFree, fun j hFrom hTo => hBefore j (by omega) hTo⟩
      | false =>
        constructor
        · intro h
          exact ⟨i, Nat.le_refl i, by omega, (Except.ok.inj h).symm, hTaken, fun j hFrom hTo => by omega⟩
        · rintro ⟨k, hLow, _, rfl, _, hBefore⟩
          rcases Nat.eq_or_lt_of_le hLow with rfl | hLess
          · rfl
          · rw [hBefore i (Nat.le_refl i) hLess] at hTaken
            cases hTaken

def dedupeBasename (name : String) (taken : String → Except FsError Bool) : Except FsError String := do
  if ← taken name then firstCandidate name taken 9999 1 else return name

theorem dedupeBasename_of_taken (h : taken name = .ok true) : dedupeBasename name taken = firstCandidate name taken 9999 1 := by
  rw [dedupeBasename, h]
  rfl

theorem segmentsOf_candidate_ne_nil (name : String) (i : Nat) : segmentsOf (candidate name i) ≠ [] := by
  intro hNil
  have hMem : '-' ∈ (candidate name i).toList := by simp [candidate]
  rw [← join_split '/' (candidate name i)] at hMem
  rcases mem_join '/' hMem with hSlash | ⟨part, hPart, hChar⟩
  · revert hSlash
    decide
  · have hEmpty := List.filter_eq_nil_iff.mp hNil part hPart
    simp only [ne_eq, decide_not, Bool.not_eq_true', decide_eq_false_iff_not, Decidable.not_not] at hEmpty
    rw [hEmpty] at hChar
    cases hChar

theorem not_slash_candidate (h : '/' ∉ name.toList) (i : Nat) : '/' ∉ (candidate name i).toList := by
  have hParts : ∀ c, c ∈ (stemAndExtension name).1.toList ∨ c ∈ (stemAndExtension name).2.toList → c ∈ name.toList := by
    unfold stemAndExtension
    split
    · intro c hPart
      rw [String.toList_ofList, String.toList_ofList] at hPart
      exact hPart.elim List.mem_of_mem_take List.mem_of_mem_drop
    · rintro c (hName | hNone)
      · exact hName
      · cases hNone
  unfold candidate
  simp only [String.toList_append, List.mem_append, not_or]
  refine ⟨⟨⟨fun hStem => h (hParts _ (.inl hStem)), by decide⟩, fun hDigit => ?_⟩, fun hExt => h (hParts _ (.inr hExt))⟩
  rw [Nat.toString_eq_ofList_toDigits, String.toList_ofList] at hDigit
  have hIsDigit := Nat.isDigit_of_mem_toDigits (by decide) (by decide) hDigit
  revert hIsDigit
  decide

theorem segmentsOf_candidate (h : '/' ∉ name.toList) (i : Nat) : segmentsOf (candidate name i) = [candidate name i] := by
  have hSplit : split '/' (candidate name i) = [candidate name i] := split_of_not_mem '/' (not_slash_candidate h i)
  have hSome := segmentsOf_candidate_ne_nil name i
  rw [segmentsOf, hSplit] at hSome ⊢
  exact List.filter_eq_self.mpr (by simpa using hSome)

theorem not_slash_basenameOf (path : Path) : '/' ∉ (basenameOf path).toList := by
  unfold basenameOf
  cases hLast : path.segments.getLast? with
  | none => simp
  | some seg => exact path.not_slash (List.mem_of_getLast? hLast)

end CommandSuite.Files
