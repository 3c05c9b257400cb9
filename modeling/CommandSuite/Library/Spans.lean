import Mathlib.Data.List.Sort
import Mathlib.Data.List.SplitBy

/-! # Spans of a text

Sorted spans are merged where they overlap or touch. A text is then covered by turns: what lies in a span, and what lies
between two of them.
-/

namespace CommandSuite.Library.Spans

universe u

variable {α : Type u}

abbrev Span := Nat × Nat

def covered (spans : List Span) (place : Nat) : Bool := spans.any fun span => span.1 ≤ place && place < span.2

def sort (spans : List Span) : List Span := spans.insertionSort fun a b => a.1 < b.1 ∨ a.1 = b.1 ∧ b.2 ≤ a.2

def mergeInto : Span → List Span → List Span
  | last, [] => [last]
  | last, span :: spans => if span.1 ≤ last.2 then mergeInto (last.1, max last.2 span.2) spans else last :: mergeInto span spans

def merge : List Span → List Span
  | [] => []
  | span :: spans => mergeInto span spans

def slice (text : List α) (start stop : Nat) : List α := (text.drop start).take (stop - start)

def spare (change : List α → List α) (text : List α) : Nat → List Span → List α
  | cursor, [] => change (text.drop cursor)
  | cursor, (start, stop) :: spans => change (slice text cursor start) ++ slice text start stop ++ spare change text stop spans

def runs (covers : Nat → Bool) (text : List α) : List (Bool × List α) :=
  (text.zipIdx.splitBy fun a b => covers a.2 = covers b.2).map fun run => (run.head?.any fun x => covers x.2, run.map Prod.fst)

/-! ## Merging -/

theorem sort_perm (spans : List Span) : (sort spans).Perm spans := List.perm_insertionSort _ spans

theorem sort_starts (spans : List Span) : (sort spans).Pairwise fun a b => a.1 ≤ b.1 := by
  let before : Span → Span → Prop := fun a b => a.1 < b.1 ∨ a.1 = b.1 ∧ b.2 ≤ a.2
  have hTotal : Std.Total before := ⟨fun a b => by simp only [before]; omega⟩
  have hTrans : IsTrans Span before := ⟨fun a b c => by simp only [before]; omega⟩
  exact (List.pairwise_insertionSort before spans).imp fun {a b} h => h.elim Nat.le_of_lt fun hSame => Nat.le_of_eq hSame.1

theorem covered_cons (span : Span) (spans : List Span) (place : Nat) :
    covered (span :: spans) place = ((span.1 ≤ place && place < span.2) || covered spans place) := rfl

variable {spans : List Span}

theorem covered_iff {place : Nat} : covered spans place = true ↔ ∃ span ∈ spans, span.1 ≤ place ∧ place < span.2 := by
  simp [covered, List.any_eq_true]

structure Merged (spans merged : List Span) : Prop where
  separate : merged.Pairwise fun a b => a.2 < b.1
  holds : ∀ span ∈ spans, ∃ whole ∈ merged, whole.1 ≤ span.1 ∧ span.2 ≤ whole.2
  union : ∀ place, covered merged place = covered spans place

theorem mergeInto_starts (last : Span) (spans : List Span) (hSorted : (last :: spans).Pairwise fun a b => a.1 ≤ b.1) :
    ∀ whole ∈ mergeInto last spans, last.1 ≤ whole.1 := by
  induction spans generalizing last with
  | nil =>
    intro whole hWhole
    rw [List.mem_singleton.mp hWhole]
  | cons span spans ih =>
    obtain ⟨hFirst, hRest⟩ := List.pairwise_cons.mp hSorted
    have hSpan : last.1 ≤ span.1 := hFirst span List.mem_cons_self
    rw [mergeInto]
    split
    · refine ih _ (List.pairwise_cons.mpr ⟨fun other hOther => ?_, (List.pairwise_cons.mp hRest).2⟩)
      exact hFirst other (List.mem_cons_of_mem _ hOther)
    · refine List.forall_mem_cons.mpr ⟨le_refl _, fun whole hWhole => ?_⟩
      exact hSpan.trans (ih span hRest whole hWhole)

theorem mergeInto_merged (last : Span) (spans : List Span) (hSorted : (last :: spans).Pairwise fun a b => a.1 ≤ b.1) :
    Merged (last :: spans) (mergeInto last spans) := by
  induction spans generalizing last with
  | nil => exact ⟨List.pairwise_singleton _ _, fun span hSpan => ⟨span, hSpan, le_refl _, le_refl _⟩, fun _ => rfl⟩
  | cons span spans ih =>
    obtain ⟨hFirst, hRest⟩ := List.pairwise_cons.mp hSorted
    have hSpan : last.1 ≤ span.1 := hFirst span List.mem_cons_self
    rw [mergeInto]
    split
    · rename_i hTouch
      have hJoined := ih (last.1, max last.2 span.2) (List.pairwise_cons.mpr
        ⟨fun other hOther => hFirst other (List.mem_cons_of_mem _ hOther), (List.pairwise_cons.mp hRest).2⟩)
      obtain ⟨hJoin, hOthers⟩ := List.forall_mem_cons.mp hJoined.holds
      obtain ⟨whole, hWhole, hStart, hStop⟩ := hJoin
      refine ⟨hJoined.separate, ?_, fun place => ?_⟩
      · refine List.forall_mem_cons.mpr ⟨⟨whole, hWhole, hStart, (le_max_left _ _).trans hStop⟩, ?_⟩
        exact List.forall_mem_cons.mpr ⟨⟨whole, hWhole, hStart.trans hSpan, (le_max_right _ _).trans hStop⟩, hOthers⟩
      · rw [hJoined.union, covered_cons, covered_cons, covered_cons, ← Bool.or_assoc]
        congr 1
        rw [Bool.eq_iff_iff]
        simp only [Bool.or_eq_true, Bool.and_eq_true, decide_eq_true_eq]
        omega
    · rename_i hApart
      obtain ⟨hSeparate, hHolds, hUnion⟩ := ih span hRest
      refine ⟨List.pairwise_cons.mpr ⟨fun whole hWhole => ?_, hSeparate⟩, ?_, fun place => ?_⟩
      · exact (Nat.lt_of_not_le hApart).trans_le (mergeInto_starts span spans hRest whole hWhole)
      · refine List.forall_mem_cons.mpr ⟨⟨last, List.mem_cons_self, le_refl _, le_refl _⟩, fun other hOther => ?_⟩
        obtain ⟨whole, hWhole, hInside⟩ := hHolds other hOther
        exact ⟨whole, List.mem_cons_of_mem _ hWhole, hInside⟩
      · rw [covered_cons, covered_cons last, hUnion]

theorem merge_sort_merged (spans : List Span) : Merged spans (merge (sort spans)) := by
  have hSorted := sort_starts spans
  have hPerm := sort_perm spans
  have hMerged : Merged (sort spans) (merge (sort spans)) := by
    cases hSort : sort spans with
    | nil => exact ⟨.nil, fun _ hNone => (List.not_mem_nil hNone).elim, fun _ => rfl⟩
    | cons span rest => exact mergeInto_merged span rest (hSort ▸ hSorted)
  refine ⟨hMerged.separate, fun span hSpan => hMerged.holds span (hPerm.mem_iff.mpr hSpan), fun place => ?_⟩
  rw [hMerged.union, Bool.eq_iff_iff, covered_iff, covered_iff]
  simp only [hPerm.mem_iff]

theorem mem_mergeInto {length : Nat} {last : Span}
    (h : ∀ span ∈ last :: spans, span.1 < span.2 ∧ span.2 ≤ length) :
    ∀ whole ∈ mergeInto last spans, whole.1 < whole.2 ∧ whole.2 ≤ length := by
  induction spans generalizing last with
  | nil => exact h
  | cons span spans ih =>
    obtain ⟨hLast, hRest⟩ := List.forall_mem_cons.mp h
    obtain ⟨hSpan, hOthers⟩ := List.forall_mem_cons.mp hRest
    rw [mergeInto]
    split
    · refine ih (List.forall_mem_cons.mpr ⟨⟨?_, ?_⟩, hOthers⟩)
      · exact hLast.1.trans_le (le_max_left _ _)
      · exact max_le hLast.2 hSpan.2
    · exact List.forall_mem_cons.mpr ⟨hLast, ih hRest⟩

theorem mem_merge_sort {length : Nat} (h : ∀ span ∈ spans, span.1 < span.2 ∧ span.2 ≤ length) :
    ∀ whole ∈ merge (sort spans), whole.1 < whole.2 ∧ whole.2 ≤ length := by
  have hSorted : ∀ span ∈ sort spans, span.1 < span.2 ∧ span.2 ≤ length :=
    fun span hSpan => h span ((sort_perm spans).mem_iff.mp hSpan)
  cases hSort : sort spans with
  | nil => exact nofun
  | cons span rest => exact mem_mergeInto (hSort ▸ hSorted)

/-! ## By turns -/

theorem drop_eq_slice_append (text : List α) {start stop : Nat} (h : start ≤ stop) :
    text.drop start = slice text start stop ++ text.drop stop := by
  have hSplit := (List.take_append_drop (stop - start) (text.drop start)).symm
  rwa [List.drop_drop, Nat.add_sub_cancel' h] at hSplit

theorem map_slice {β : Type u} (f : α → β) (text : List α) (start stop : Nat) :
    (slice text start stop).map f = slice (text.map f) start stop := by
  rw [slice, slice, List.map_take, List.map_drop]

variable {text : List α} {x : α × Nat}

theorem place_of_mem_drop {start : Nat} (h : x ∈ text.zipIdx.drop start) : start ≤ x.2 := by
  obtain ⟨i, hBound, rfl⟩ := List.mem_iff_getElem.mp h
  simp

theorem place_of_mem_slice {start stop : Nat} (h : x ∈ slice text.zipIdx start stop) : start ≤ x.2 ∧ x.2 < stop := by
  obtain ⟨i, hBound, rfl⟩ := List.mem_iff_getElem.mp h
  rw [slice, List.length_take] at hBound
  simp only [slice, List.getElem_take, List.getElem_drop, List.getElem_zipIdx]
  omega

theorem place_of_head {start : Nat} (h : x ∈ (text.zipIdx.drop start).head?) : x.2 = start := by
  rw [List.head?_drop] at h
  obtain ⟨_, rfl⟩ := List.getElem?_eq_some_iff.mp h
  simp

section Runs

variable (covers : Nat → Bool) (change : List α → List α)

def alike (a b : α × Nat) : Bool := covers a.2 = covers b.2

def renderRun (run : List (α × Nat)) : List α :=
  if run.head?.any fun x => covers x.2 then run.map Prod.fst else change (run.map Prod.fst)

variable {covers change}

theorem renderRun_append (hNothing : change [] = []) {run : List (α × Nat)} (rest : List (α × Nat)) {kind : Bool}
    (hRun : ∀ x ∈ run, covers x.2 = kind) (hRest : ∀ x ∈ rest.head?, covers x.2 ≠ kind) :
    ((run ++ rest).splitBy (alike covers)).flatMap (renderRun covers change) =
      (if kind then run.map Prod.fst else change (run.map Prod.fst)) ++
        (rest.splitBy (alike covers)).flatMap (renderRun covers change) := by
  have hBorder : ∀ x ∈ run.getLast?, ∀ y ∈ rest.head?, alike covers x y = false := by
    intro x hLast y hHead
    rw [alike, hRun x (List.mem_of_getLast? hLast)]
    exact decide_eq_false fun hSame => hRest y hHead hSame.symm
  rw [List.splitBy_append hBorder, List.flatMap_append]
  congr 1
  cases run with
  | nil => cases kind <;> simp [hNothing]
  | cons x run =>
    have hChain : (x :: run).IsChain fun a b => alike covers a b = true := by
      refine (List.pairwise_of_forall_mem_list fun a hA b hB => ?_).isChain
      rw [alike, hRun a hA, hRun b hB]
      exact decide_eq_true rfl
    have hKind : covers x.2 = kind := hRun x List.mem_cons_self
    rw [List.splitBy_of_isChain (List.cons_ne_nil _ _) hChain, List.flatMap_singleton, renderRun, List.head?_cons, Option.any_some,
      hKind]

theorem spare_from (hNothing : change [] = []) {text : List α} {cursor : Nat} {spans : List Span}
    (hSeparate : spans.Pairwise fun a b => a.2 < b.1) (hProper : ∀ span ∈ spans, span.1 < span.2)
    (hCursor : ∀ span ∈ spans, cursor ≤ span.1) (hCovers : ∀ place, cursor ≤ place → covers place = covered spans place) :
    spare change text cursor spans = ((text.zipIdx.drop cursor).splitBy (alike covers)).flatMap (renderRun covers change) := by
  induction spans generalizing cursor with
  | nil =>
    have hNone : ∀ x ∈ text.zipIdx.drop cursor, covers x.2 = false := fun x hX => hCovers x.2 (place_of_mem_drop hX)
    have hRun := renderRun_append hNothing [] hNone nofun
    rw [List.append_nil, List.splitBy_nil, List.flatMap_nil, List.append_nil, List.map_drop, List.zipIdx_map_fst] at hRun
    exact hRun.symm
  | cons span spans ih =>
    obtain ⟨start, stop⟩ := span
    obtain ⟨hHere, hLater⟩ := List.pairwise_cons.mp hSeparate
    obtain ⟨hSpan, hSpans⟩ := List.forall_mem_cons.mp hProper
    have hStart : cursor ≤ start := hCursor _ List.mem_cons_self
    have hApart : ∀ place, place ≤ stop → covered spans place = false := by
      intro place hPlace
      rw [Bool.eq_false_iff]
      intro hCovered
      obtain ⟨other, hOther, hBelow, -⟩ := covered_iff.mp hCovered
      have hAbove := hHere other hOther
      dsimp only at hAbove
      omega
    have hAt : ∀ place, cursor ≤ place → covers place = ((start ≤ place && place < stop) || covered spans place) := hCovers
    have hGap : ∀ x ∈ slice text.zipIdx cursor start, covers x.2 = false := by
      intro x hX
      obtain ⟨hLow, hHigh⟩ := place_of_mem_slice hX
      rw [hAt x.2 hLow, hApart x.2 (by omega)]
      simp only [Bool.or_false, Bool.and_eq_false_iff, decide_eq_false_iff_not]
      omega
    have hInside : ∀ x ∈ slice text.zipIdx start stop, covers x.2 = true := by
      intro x hX
      obtain ⟨hLow, hHigh⟩ := place_of_mem_slice hX
      rw [hAt x.2 (by omega), decide_eq_true hLow, decide_eq_true hHigh]
      rfl
    have hFirst : ∀ x ∈ (text.zipIdx.drop start).head?, covers x.2 ≠ false := by
      intro x hX
      rw [place_of_head hX, hAt start hStart, decide_eq_true (le_refl start), decide_eq_true hSpan]
      exact Bool.noConfusion
    have hNext : ∀ x ∈ (text.zipIdx.drop stop).head?, covers x.2 ≠ true := by
      intro x hX
      rw [place_of_head hX, hAt stop (by omega), hApart stop (le_refl stop), decide_eq_false (Nat.lt_irrefl stop), Bool.and_false]
      exact Bool.noConfusion
    have hBehind : ∀ place, stop ≤ place → covers place = covered spans place := by
      intro place hPlace
      rw [hAt place (by omega), decide_eq_false (Nat.not_lt.mpr hPlace), Bool.and_false, Bool.false_or]
    rw [drop_eq_slice_append _ hStart, renderRun_append hNothing _ hGap hFirst, drop_eq_slice_append _ (Nat.le_of_lt hSpan),
      renderRun_append hNothing _ hInside hNext, ← ih hLater hSpans (fun other hOther => (hHere other hOther).le) hBehind,
      map_slice, map_slice, List.zipIdx_map_fst, spare, List.append_assoc]
    rfl

theorem spare_merge_sort (hNothing : change [] = []) {text : List α} {spans : List Span}
    (hProper : ∀ span ∈ spans, span.1 < span.2 ∧ span.2 ≤ text.length) :
    spare change text 0 (merge (sort spans)) =
      (runs (covered spans) text).flatMap fun run => if run.1 then run.2 else change run.2 := by
  obtain ⟨hSeparate, -, hUnion⟩ := merge_sort_merged spans
  have hSpared : spare change text 0 (merge (sort spans)) =
      (text.zipIdx.splitBy (alike (covered spans))).flatMap (renderRun (covered spans) change) := spare_from hNothing hSeparate
    (fun whole hWhole => (mem_merge_sort hProper whole hWhole).1) (fun _ _ => Nat.zero_le _) fun place _ => (hUnion place).symm
  rw [hSpared, runs, List.flatMap_map]
  rfl

end Runs

end CommandSuite.Library.Spans
