import Mathlib.Data.List.Infix
import Mathlib.Data.List.Nodup

/-! # Replacing what is found in a text

A finder says how long the match is with which a text starts, and zero when there is none. A scan goes from left to right;
what is found is taken as a whole, and not looked into again.
-/

namespace CommandSuite.Library.Rewriting

universe u v

variable {α : Type u} {β : Type v}

inductive Piece (α : Type u) where
  | kept (x : α)
  | taken (xs : List α)

namespace Piece

def source : Piece α → List α
  | kept x => [x]
  | taken xs => xs

def render (marker : List α) : Piece α → List α
  | kept x => [x]
  | taken _ => marker

def map (f : α → β) : Piece α → Piece β
  | kept x => kept (f x)
  | taken xs => taken (xs.map f)

def takenPart : Piece α → Option (List α)
  | kept _ => none
  | taken xs => some xs

end Piece

variable (find : List α → Nat)

def scanFrom : Nat → List α → List (Piece α)
  | _, [] => []
  | inside + 1, _ :: rest => scanFrom inside rest
  | 0, x :: rest =>
    if find (x :: rest) = 0 then .kept x :: scanFrom 0 rest
    else .taken ((x :: rest).take (find (x :: rest))) :: scanFrom (find (x :: rest) - 1) rest

def scan (text : List α) : List (Piece α) := scanFrom find 0 text

def found (text : List α) : List (List α) := (scan find text).filterMap Piece.takenPart

def replaceAll (marker text : List α) : List α := (scan find text).flatMap (Piece.render marker)

def parts : List (Piece α) → List (List α)
  | [] => [[]]
  | .kept x :: pieces => (parts pieces).modifyHead (x :: ·)
  | .taken _ :: pieces => [] :: parts pieces

def split (text : List α) : List (List α) := parts (scan find text)

/-! ## One piece after the other -/

theorem scanFrom_eq (inside : Nat) (text : List α) : scanFrom find inside text = scan find (text.drop inside) := by
  induction text generalizing inside with
  | nil => cases inside <;> rfl
  | cons x rest ih =>
    cases inside with
    | zero => rfl
    | succ inside => exact ih inside

variable {x : α} {rest : List α}

@[simp] theorem scan_nil : scan find [] = [] := rfl

theorem scan_kept (h : find (x :: rest) = 0) : scan find (x :: rest) = .kept x :: scan find rest := by
  rw [scan, scanFrom, if_pos h, scan]

variable {text : List α}

theorem scan_taken (hText : text ≠ []) (h : find text ≠ 0) :
    scan find text = .taken (text.take (find text)) :: scan find (text.drop (find text)) := by
  cases text with
  | nil => exact absurd rfl hText
  | cons x rest =>
    rw [scan, scanFrom, if_neg h, scanFrom_eq]
    obtain ⟨length, hLength⟩ := Nat.exists_eq_succ_of_ne_zero h
    rw [hLength]
    rfl

theorem scan_induction {motive : List α → Prop} (text : List α) (nil : motive [])
    (kept : ∀ x rest, find (x :: rest) = 0 → motive rest → motive (x :: rest))
    (taken : ∀ text, text ≠ [] → find text ≠ 0 → motive (text.drop (find text)) → motive text) : motive text := by
  induction hLength : text.length using Nat.strongRecOn generalizing text with
  | ind length ih =>
    subst hLength
    cases text with
    | nil => exact nil
    | cons x rest =>
      by_cases hFind : find (x :: rest) = 0
      · exact kept x rest hFind (ih rest.length (Nat.lt_succ_self _) rest rfl)
      · refine taken (x :: rest) (List.cons_ne_nil _ _) hFind (ih _ ?_ _ rfl)
        rw [List.length_drop, List.length_cons]
        omega

theorem scan_map (f : β → α) (text : List β) :
    scan find (text.map f) = (scan (fun rest => find (rest.map f)) text).map (Piece.map f) := by
  induction text using scan_induction (fun rest => find (rest.map f)) with
  | nil => rfl
  | kept x rest hFind ih =>
    have hKept : scan find (f x :: rest.map f) = .kept (f x) :: scan find (rest.map f) := scan_kept find hFind
    rw [List.map_cons, hKept, scan_kept (fun rest => find (rest.map f)) hFind, ih]
    rfl
  | taken text hText hFind ih =>
    have hMapped : text.map f ≠ [] := by simpa using hText
    rw [scan_taken (fun rest => find (rest.map f)) hText hFind, scan_taken find hMapped hFind, List.map_cons, ← ih, ← List.map_drop,
      ← List.map_take]
    rfl

theorem replaceAll_map (f : β → α) (marker text : List β) :
    (replaceAll (fun rest => find (rest.map f)) marker text).map f = replaceAll find (marker.map f) (text.map f) := by
  rw [replaceAll, replaceAll, scan_map, List.map_flatMap, List.flatMap_map]
  congr 1
  funext piece
  cases piece <;> rfl

theorem mem_take (before : List α) (x : α) (after : List α) {n : Nat} (h : before.length < n) : x ∈ (before ++ x :: after).take n := by
  rw [List.take_append, List.mem_append, List.take_cons (by omega)]
  exact .inr List.mem_cons_self

theorem exists_found (before : List α) {after : List α} (h : find (x :: after) ≠ 0) :
    ∃ xs ∈ found find (before ++ x :: after), x ∈ xs := by
  generalize hText : before ++ x :: after = text
  induction text using scan_induction find generalizing before with
  | nil => exact absurd hText (by simp)
  | kept y rest hFind ih =>
    cases before with
    | nil =>
      rw [List.nil_append] at hText
      rw [hText] at h
      exact absurd hFind h
    | cons z before =>
      obtain ⟨-, hRest⟩ := List.cons.inj hText
      obtain ⟨xs, hMem, hX⟩ := ih before hRest
      refine ⟨xs, ?_, hX⟩
      rw [found, scan_kept find hFind]
      exact hMem
  | taken text hNonempty hFind ih =>
    have hFound : found find text = text.take (find text) :: found find (text.drop (find text)) := by
      rw [found, scan_taken find hNonempty hFind]
      rfl
    rw [hFound]
    by_cases hInside : before.length < find text
    · refine ⟨_, List.mem_cons_self, ?_⟩
      have hTaken := mem_take before x after hInside
      rwa [hText] at hTaken
    · obtain ⟨xs, hMem, hX⟩ := ih (before.drop (find text)) (by rw [← hText, List.drop_append_of_le_length (by rw [hText]; omega)])
      exact ⟨xs, List.mem_cons_of_mem _ hMem, hX⟩

theorem found_kept (h : find (x :: rest) = 0) : found find (x :: rest) = found find rest := by
  rw [found, scan_kept find h]
  rfl

theorem found_taken (hText : text ≠ []) (h : find text ≠ 0) :
    found find text = text.take (find text) :: found find (text.drop (find text)) := by
  rw [found, scan_taken find hText h]
  rfl

theorem replaceAll_kept (marker : List α) (h : find (x :: rest) = 0) :
    replaceAll find marker (x :: rest) = x :: replaceAll find marker rest := by
  rw [replaceAll, scan_kept find h]
  rfl

theorem replaceAll_taken (marker : List α) (hText : text ≠ []) (h : find text ≠ 0) :
    replaceAll find marker text = marker ++ replaceAll find marker (text.drop (find text)) := by
  rw [replaceAll, scan_taken find hText h]
  rfl

theorem intercalate_parts (marker : List α) (pieces : List (Piece α)) :
    marker.intercalate (parts pieces) = pieces.flatMap (Piece.render marker) := by
  have hParts : ∀ pieces : List (Piece α), ∃ part more, parts pieces = part :: more := by
    intro pieces
    induction pieces with
    | nil => exact ⟨[], [], rfl⟩
    | cons piece pieces ih =>
      obtain ⟨part, more, hSame⟩ := ih
      cases piece with
      | kept x => exact ⟨x :: part, more, by rw [parts, hSame]; rfl⟩
      | taken xs => exact ⟨[], parts pieces, rfl⟩
  induction pieces with
  | nil => rfl
  | cons piece pieces ih =>
    obtain ⟨part, more, hSame⟩ := hParts pieces
    cases piece with
    | kept x =>
      rw [List.flatMap_cons, ← ih, parts, hSame, List.modifyHead_cons, List.intercalate_cons_cons_left]
      rfl
    | taken xs =>
      rw [List.flatMap_cons, ← ih, parts, List.intercalate_cons_of_ne_nil (by simp [hSame])]
      rfl

theorem intercalate_split (marker text : List α) : marker.intercalate (split find text) = replaceAll find marker text :=
  intercalate_parts marker _

theorem replaceAll_of_nowhere (marker : List α) (h : ∀ rest, rest <:+ text → find rest = 0) :
    replaceAll find marker text = text := by
  induction text with
  | nil => rfl
  | cons x rest ih =>
    rw [replaceAll_kept find marker (h _ (List.suffix_refl _)), ih fun rest' hRest => h rest' (hRest.trans (List.suffix_cons x rest))]

/-! ## What stays -/

variable {find} {marker part : List α}

theorem prefix_replaceAll (hText : part <+: text) (hMissed : ∀ xs ∈ found find text, xs.Disjoint part) :
    part <+: replaceAll find marker text := by
  induction text using scan_induction find generalizing part with
  | nil => exact hText
  | kept x rest hFind ih =>
    rw [found_kept find hFind] at hMissed
    rw [replaceAll_kept find marker hFind]
    cases part with
    | nil => exact List.nil_prefix
    | cons y part =>
      obtain ⟨rfl, hRest⟩ := List.cons_prefix_cons.mp hText
      exact List.cons_prefix_cons.mpr ⟨rfl, ih hRest fun xs hXs => (List.disjoint_cons_right.mp (hMissed xs hXs)).2⟩
  | taken text hNonempty hFind ih =>
    cases part with
    | nil => exact List.nil_prefix
    | cons y part =>
      obtain ⟨rest, rfl⟩ := hText
      have hMet := hMissed _ (found_taken find hNonempty hFind ▸ List.mem_cons_self)
      exact absurd List.mem_cons_self (hMet (mem_take [] y (part ++ rest) (Nat.pos_of_ne_zero hFind)))

theorem infix_replaceAll (hText : part <:+: text) (hMissed : ∀ xs ∈ found find text, xs.Disjoint part) :
    part <:+: replaceAll find marker text := by
  induction text using scan_induction find with
  | nil => exact hText
  | kept x rest hFind ih =>
    obtain hPrefix | hInfix := List.infix_cons_iff.mp hText
    · exact (prefix_replaceAll hPrefix hMissed).isInfix
    · rw [found_kept find hFind] at hMissed
      rw [replaceAll_kept find marker hFind]
      exact List.infix_cons_iff.mpr (.inr (ih hInfix hMissed))
  | taken text hNonempty hFind ih =>
    rw [found_taken find hNonempty hFind] at hMissed
    rw [replaceAll_taken find marker hNonempty hFind]
    obtain ⟨hFirst, hRest⟩ := List.forall_mem_cons.mp hMissed
    have hBehind : part <:+: text.drop (find text) := by
      generalize find text = length at hFirst
      obtain ⟨before, after, rfl⟩ := hText
      rw [List.append_assoc] at hFirst ⊢
      cases part with
      | nil => exact List.nil_infix
      | cons y part =>
        by_cases hInside : before.length < length
        · exact absurd List.mem_cons_self (hFirst (mem_take before y (part ++ after) hInside))
        · rw [List.drop_append_of_le_length (Nat.le_of_not_lt hInside), ← List.append_assoc]
          exact ⟨_, after, rfl⟩
    exact (ih hBehind hRest).trans (List.suffix_append marker _).isInfix

variable [DecidableEq α]

theorem count_replaceAll (find : List α → Nat) (hMarker : x ∉ marker) (text : List α) :
    (replaceAll find marker text).count x + (found find text).flatten.count x = text.count x := by
  induction text using scan_induction find with
  | nil => rfl
  | kept y rest hFind ih =>
    rw [replaceAll_kept find marker hFind, found_kept find hFind, List.count_cons, List.count_cons, ← ih]
    omega
  | taken text hNonempty hFind ih =>
    rw [replaceAll_taken find marker hNonempty hFind, found_taken find hNonempty hFind, List.flatten_cons, List.count_append,
      List.count_append, List.count_eq_zero_of_not_mem hMarker]
    have hSplit := congrArg (List.count x) (List.take_append_drop (find text) text)
    rw [List.count_append] at hSplit
    omega

theorem mem_of_mem_replaceAll (hMarker : x ∉ marker) (h : x ∈ replaceAll find marker text) : x ∈ text := by
  have hCount := count_replaceAll find hMarker text
  have hPositive := List.count_pos_iff.mpr h
  exact List.count_pos_iff.mp (by omega)

theorem count_le_one (h : text.Nodup) (x : α) : text.count x ≤ 1 := List.nodup_iff_count_le_one.mp h x

theorem eq_of_mem_of_count_flatten_le {parts : List (List α)} (h : parts.flatten.count x ≤ 1) {xs ys : List α}
    (hFirst : xs ∈ parts) (hX : x ∈ xs) (hSecond : ys ∈ parts) (hY : x ∈ ys) : xs = ys := by
  induction parts with
  | nil => cases hFirst
  | cons zs parts ih =>
    rw [List.flatten_cons, List.count_append] at h
    have hElsewhere : ∀ {other : List α}, x ∈ zs → other ∈ parts → x ∉ other := by
      intro other hHere hOther hThere
      have hFirstCount := List.count_pos_iff.mpr hHere
      have hOtherCount := List.count_pos_iff.mpr (List.mem_flatten.mpr ⟨other, hOther, hThere⟩)
      omega
    obtain hHere | hFirst := List.mem_cons.mp hFirst
    · obtain hThere | hSecond := List.mem_cons.mp hSecond
      · rw [hHere, hThere]
      · exact absurd hY (hElsewhere (hHere ▸ hX) hSecond)
    · obtain hThere | hSecond := List.mem_cons.mp hSecond
      · exact absurd hX (hElsewhere (hThere ▸ hY) hFirst)
      · exact ih (by omega) hFirst hSecond

omit [DecidableEq α]

/-! ## One pass after the other -/

def replaceEach (marker : List α) (finders : List (List α → Nat)) (text : List α) : List α :=
  finders.foldl (fun text find => replaceAll find marker text) text

theorem replaceEach_map (f : β → α) (marker : List β) (finders : List (List α → Nat)) (text : List β) :
    (replaceEach marker (finders.map fun find rest => find (rest.map f)) text).map f =
      replaceEach (marker.map f) finders (text.map f) := by
  induction finders generalizing text with
  | nil => rfl
  | cons find finders ih => exact (ih _).trans (congrArg (replaceEach _ finders) (replaceAll_map find f marker text))

variable (marker part)

/-- In one of the passes the part is still there, and inside of what is replaced. -/
def TakenWhole : List (List α → Nat) → List α → Prop
  | [], _ => False
  | find :: finders, text => (∃ xs ∈ found find text, part <:+: xs) ∨ TakenWhole finders (replaceAll find marker text)

/-- As long as the part is there, what is replaced misses it or holds all of it. -/
def NeverCut : List (List α → Nat) → List α → Prop
  | [], _ => True
  | find :: finders, text =>
    part <:+: text → (∀ xs ∈ found find text, xs.Disjoint part ∨ part <:+: xs) ∧ NeverCut finders (replaceAll find marker text)

variable {marker part} {finders : List (List α → Nat)}

theorem neverCut_of_missing (hPart : x ∈ part) (hMissing : x ∉ text) : NeverCut marker part finders text := by
  cases finders with
  | nil => exact trivial
  | cons find finders => exact fun hText => absurd (hText.subset hPart) hMissing

variable [DecidableEq α]

theorem TakenWhole.subset (hMarker : marker.Disjoint part) (h : TakenWhole marker part finders text) : part ⊆ text := by
  induction finders generalizing text with
  | nil => exact h.elim
  | cons find finders ih =>
    intro x hX
    have hCount := count_replaceAll find (fun hMarked => hMarker hMarked hX) text
    refine List.count_pos_iff.mp ?_
    obtain ⟨xs, hFound, hInside⟩ | hLater := h
    · have hTaken := List.count_pos_iff.mpr (List.mem_flatten.mpr ⟨xs, hFound, hInside.subset hX⟩)
      omega
    · have hLeft := List.count_pos_iff.mpr (ih hLater hX)
      omega

theorem TakenWhole.gone (hMarker : marker.Disjoint part) (hOnce : ∀ x ∈ part, text.count x ≤ 1)
    (h : TakenWhole marker part finders text) : (replaceEach marker finders text).Disjoint part := by
  have hMissing : ∀ {x : α}, x ∈ part → ∀ (finders : List (List α → Nat)) {text : List α}, x ∉ text →
      x ∉ replaceEach marker finders text := by
    intro x hX finders
    induction finders with
    | nil => exact fun hText => hText
    | cons find finders ih => exact fun hText => ih fun hLeft => hText (mem_of_mem_replaceAll (fun hMarked => hMarker hMarked hX) hLeft)
  induction finders generalizing text with
  | nil => exact h.elim
  | cons find finders ih =>
    have hCount : ∀ x ∈ part, (replaceAll find marker text).count x + (found find text).flatten.count x ≤ 1 := by
      intro x hX
      rw [count_replaceAll find fun hMarked => hMarker hMarked hX]
      exact hOnce x hX
    obtain ⟨xs, hFound, hInside⟩ | hLater := h
    · intro x hLeft hX
      have hTaken := List.count_pos_iff.mpr (List.mem_flatten.mpr ⟨xs, hFound, hInside.subset hX⟩)
      refine hMissing hX finders (fun hStill => ?_) hLeft
      have hStillCount := List.count_pos_iff.mpr hStill
      have hBoth := hCount x hX
      dsimp only at hStillCount
      omega
    · refine ih (fun x hX => ?_) hLater
      have hBoth := hCount x hX
      dsimp only
      omega

theorem takenWhole_iff_neverCut (hPart : part ≠ []) (hMarker : marker.Disjoint part)
    (hOnce : ∀ x ∈ part, text.count x ≤ 1) (hText : part <:+: text)
    (hFinder : ∃ find ∈ finders, ∀ after, find (part ++ after) ≠ 0) :
    TakenWhole marker part finders text ↔ NeverCut marker part finders text := by
  induction finders generalizing text with
  | nil => exact absurd hFinder (by simp)
  | cons find finders ih =>
    have hCount : ∀ x ∈ part, (replaceAll find marker text).count x + (found find text).flatten.count x = text.count x :=
      fun x hX => count_replaceAll find (fun hMarked => hMarker hMarked hX) text
    have hLess : ∀ x ∈ part, (found find text).flatten.count x ≤ 1 := by
      intro x hX
      have hHere := hCount x hX
      have hAll := hOnce x hX
      omega
    have hGone : ∀ xs ∈ found find text, ∀ x ∈ part, x ∈ xs → x ∉ replaceAll find marker text := by
      intro xs hFound x hX hTaken hStill
      have hTakenCount := List.count_pos_iff.mpr (List.mem_flatten.mpr ⟨xs, hFound, hTaken⟩)
      have hStillCount := List.count_pos_iff.mpr hStill
      have hHere := hCount x hX
      have hAll := hOnce x hX
      omega
    have hOnce' : ∀ x ∈ part, (replaceAll find marker text).count x ≤ 1 := by
      intro x hX
      have hHere := hCount x hX
      have hAll := hOnce x hX
      omega
    -- When this pass misses the part, a later one still finds it.
    have hNextFinder : (∀ xs ∈ found find text, xs.Disjoint part) → ∃ find ∈ finders, ∀ after, find (part ++ after) ≠ 0 := by
      intro hMissed
      obtain ⟨finder, hFinder, hFinds⟩ := hFinder
      obtain rfl | hFinder := List.mem_cons.mp hFinder
      · obtain ⟨x, rest, rfl⟩ := List.exists_cons_of_ne_nil hPart
        obtain ⟨before, after, rfl⟩ := hText
        obtain ⟨xs, hFound, hX⟩ := exists_found finder before (hFinds after)
        rw [List.append_assoc] at hMissed
        exact absurd List.mem_cons_self (hMissed xs hFound hX)
      · exact ⟨finder, hFinder, hFinds⟩
    constructor
    · rintro (⟨xs, hFound, hInside⟩ | hLater) -
      · obtain ⟨x, hX⟩ := List.exists_mem_of_ne_nil part hPart
        refine ⟨fun ys hOther => ?_, neverCut_of_missing hX (hGone xs hFound x hX (hInside.subset hX))⟩
        by_cases hMet : ys.Disjoint part
        · exact .inl hMet
        · obtain ⟨y, hTaken, hY⟩ : ∃ y, y ∈ ys ∧ y ∈ part := by simpa [List.Disjoint] using hMet
          rw [← eq_of_mem_of_count_flatten_le (hLess y hY) hFound (hInside.subset hY) hOther hTaken]
          exact .inr hInside
      · have hStill := hLater.subset hMarker
        have hMissed : ∀ xs ∈ found find text, xs.Disjoint part := fun xs hFound y hTaken hY => hGone xs hFound y hY hTaken (hStill hY)
        exact ⟨fun xs hFound => .inl (hMissed xs hFound),
          (ih hOnce' (infix_replaceAll hText hMissed) (hNextFinder hMissed)).mp hLater⟩
    · intro hKept
      obtain ⟨hHere, hNext⟩ := hKept hText
      by_cases hMissed : ∀ xs ∈ found find text, xs.Disjoint part
      · exact .inr ((ih hOnce' (infix_replaceAll hText hMissed) (hNextFinder hMissed)).mpr hNext)
      · obtain ⟨xs, hFound, hMet⟩ : ∃ xs ∈ found find text, ¬xs.Disjoint part := by simpa using hMissed
        exact .inl ⟨xs, hFound, (hHere xs hFound).resolve_left hMet⟩

end CommandSuite.Library.Rewriting
