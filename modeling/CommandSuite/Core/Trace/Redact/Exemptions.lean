import CommandSuite.Core.Trace.Redact

/-! # Secrets that are removed whole

Each pass works on the text that the passes before it left. An occurrence of a registered value is removed whole unless one
of them replaces a part of it only.
-/

namespace CommandSuite.Redact

open Library

def passes (registered : RegisteredValues) : List (JsString → Nat) :=
  SECRET_PATTERNS.map SecretPattern.find ++ registered.values.map findValue

/-- A unit with its place in the input. The units of a marker have none. -/
abbrev Traced := Nat × Option Nat

def traced (input : JsString) : List Traced := input.zipIdx.map fun unit => (unit.1, some unit.2)

def tracedMarker : List Traced := REDACTED.map fun unit => (unit, none)

def onUnits (find : JsString → Nat) (text : List Traced) : Nat := find (text.map Prod.fst)

def tracedPasses (registered : RegisteredValues) : List (List Traced → Nat) := (passes registered).map onUnits

def tracedOutput (registered : RegisteredValues) (input : JsString) : List Traced :=
  Rewriting.replaceEach tracedMarker (tracedPasses registered) (traced input)

def occurrence (input value : JsString) (start : Nat) : List Traced := ((traced input).drop start).take value.length

/-- A replaced part of the text holds the whole occurrence, and nothing of it is in the output. -/
structure RemovedWhole (registered : RegisteredValues) (input value : JsString) (start : Nat) : Prop where
  replaced : Rewriting.TakenWhole tracedMarker (occurrence input value start) (tracedPasses registered) (traced input)
  gone : (tracedOutput registered input).Disjoint (occurrence input value start)

/-- No pass replaces a part of the occurrence without the rest of it. -/
def Uncut (registered : RegisteredValues) (input value : JsString) (start : Nat) : Prop :=
  Rewriting.NeverCut tracedMarker (occurrence input value start) (tracedPasses registered) (traced input)

/-! ## The passes -/

theorem findValue_of_nowhere {out value : JsString} (h : includes out value = false) (rest : JsString) (hRest : rest <:+ out) :
    findValue value rest = 0 := by
  have hNot := List.any_eq_false.mp h rest ((List.mem_tails _ _).mpr hRest)
  rw [findValue, if_neg hNot]

theorem redactPlain_eq (registered : RegisteredValues) (input : JsString) :
    redactPlain registered input = Rewriting.replaceEach REDACTED (passes registered) input := by
  rw [redactPlain, passes, Rewriting.replaceEach, List.foldl_append, List.foldl_map, List.foldl_map]
  congr 1
  funext out value
  cases hIncluded : includes out value with
  | true => exact Rewriting.intercalate_split _ REDACTED out
  | false => exact (Rewriting.replaceAll_of_nowhere _ REDACTED (findValue_of_nowhere hIncluded)).symm

theorem units_traced (input : JsString) : (traced input).map Prod.fst = input := by
  rw [traced, List.map_map]
  exact List.zipIdx_map_fst 0 input

theorem units_tracedOutput (registered : RegisteredValues) (input : JsString) :
    (tracedOutput registered input).map Prod.fst = redactSecrets registered input [] := by
  have hMarker : tracedMarker.map Prod.fst = REDACTED := rfl
  have hPlain : redactSecrets registered input [] = redactPlain registered input := rfl
  rw [hPlain, redactPlain_eq, tracedOutput, tracedPasses]
  refine (Rewriting.replaceEach_map Prod.fst tracedMarker (passes registered) (traced input)).trans ?_
  rw [hMarker, units_traced]

/-! ## Occurrences -/

theorem nodup_traced (input : JsString) : (traced input).Nodup := by
  have hPlaces : ((traced input).map Prod.snd).Nodup := by
    have hSame : (traced input).map Prod.snd = (List.range' 0 input.length).map some := by
      rw [traced, List.map_map, ← List.zipIdx_map_snd 0 input, List.map_map]
      rfl
    rw [hSame]
    exact List.Nodup.map (Option.some_injective _) (List.nodup_range' 1)
  exact hPlaces.of_map

theorem tracedMarker_disjoint (input value : JsString) (start : Nat) : tracedMarker.Disjoint (occurrence input value start) := by
  intro unit hMarker hInput
  obtain ⟨_, -, rfl⟩ := List.mem_map.mp hMarker
  obtain ⟨_, -, hSame⟩ := List.mem_map.mp (List.mem_of_mem_drop (List.mem_of_mem_take hInput))
  cases hSame

variable {input value : JsString}

theorem units_occurrence {start : Nat} (h : value <+: input.drop start) :
    (occurrence input value start).map Prod.fst = value := by
  rw [occurrence, List.map_take, List.map_drop, units_traced]
  exact (List.prefix_iff_eq_take.mp h).symm

theorem takenWhole_iff_uncut {registered : RegisteredValues} {start : Nat}
    (hValue : value ∈ registered.values) (h : value <+: input.drop start) :
    Rewriting.TakenWhole tracedMarker (occurrence input value start) (tracedPasses registered) (traced input) ↔
      Uncut registered input value start := by
  have hLong : 6 ≤ value.length := registered.long value hValue
  have hUnits := units_occurrence h
  refine Rewriting.takenWhole_iff_neverCut ?_ (tracedMarker_disjoint input value start)
    (fun unit _ => Rewriting.count_le_one (nodup_traced input) unit)
    ((List.take_prefix _ _).isInfix.trans (List.drop_suffix _ _).isInfix) ⟨onUnits (findValue value), ?_, fun after => ?_⟩
  · intro hNone
    rw [hNone] at hUnits
    rw [← hUnits] at hLong
    exact absurd hLong (by decide)
  · exact List.mem_map_of_mem (List.mem_append_right _ (List.mem_map_of_mem hValue))
  · have hFound : value.isPrefixOf (((occurrence input value start) ++ after).map Prod.fst) = true := by
      rw [List.map_append, hUnits, List.isPrefixOf_iff_prefix]
      exact List.prefix_append _ _
    rw [onUnits, findValue, if_pos hFound]
    omega

/-- All occurrences of registered values are removed whole just when no pass cuts one of them. -/
theorem occurrences_removed_whole_iff (registered : RegisteredValues) (input : JsString) :
    (tracedOutput registered input).map Prod.fst = redactSecrets registered input [] ∧
      ((∀ value ∈ registered.values, ∀ start, value <+: input.drop start → RemovedWhole registered input value start) ↔
        ∀ value ∈ registered.values, ∀ start, value <+: input.drop start → Uncut registered input value start) := by
  refine ⟨units_tracedOutput registered input, ?_⟩
  constructor
  · intro hRemoved value hValue start h
    exact (takenWhole_iff_uncut hValue h).mp (hRemoved value hValue start h).replaced
  · intro hUncut value hValue start h
    have hReplaced := (takenWhole_iff_uncut hValue h).mpr (hUncut value hValue start h)
    exact ⟨hReplaced, hReplaced.gone (tracedMarker_disjoint input value start)
      fun unit _ => Rewriting.count_le_one (nodup_traced input) unit⟩

def keyLike : JsString := Text.utf16 "sk-abcdefghijklmnopqrstuv.rest"

theorem end_of_secret_stays :
    ¬∀ (registered : RegisteredValues) (input : JsString),
      ∀ value ∈ registered.values, ∀ start, value <+: input.drop start → RemovedWhole registered input value start := by
  intro hAll
  have hRemoved := (hAll ⟨[keyLike], by decide, by decide, by decide⟩ keyLike keyLike List.mem_cons_self 0 (List.prefix_refl _)).gone
  have hStays : (114, some 26) ∈ tracedOutput ⟨[keyLike], by decide, by decide, by decide⟩ keyLike := by decide
  exact hRemoved hStays (by decide)

end CommandSuite.Redact

/-! ## Exemptions

The occurrences that are found for each exemption stay as they are, and everything between them is redacted on its own.
-/

namespace CommandSuite.Redact

open Library

variable {input exemption : JsString}

/-- From left to right: the spans are occurrences, none overlaps another one, and every occurrence starts in one of them. -/
structure Leftmost (input exemption : JsString) (spans : List Spans.Span) : Prop where
  occurrence : ∀ span ∈ spans, span.2 = span.1 + exemption.length ∧ exemption <+: input.drop span.1
  apart : spans.Pairwise fun a b => a.2 ≤ b.1
  every : ∀ place, exemption <+: input.drop place → ∃ span ∈ spans, span.1 ≤ place ∧ place < span.2

def mergedSpans (input : JsString) (exemptions : List JsString) : List Spans.Span := Spans.merge (Spans.sort (foundSpans input exemptions))

structure ExemptedExactly (registered : RegisteredValues) (input : JsString) (exemptions : List JsString) : Prop where
  found : ∀ exemption ∈ exemptions, exemption ≠ [] →
    Leftmost input exemption (findSpans input exemption (input.length + 1) 0) ∧
      findSpans input exemption (input.length + 1) 0 ⊆ foundSpans input exemptions
  separate : (mergedSpans input exemptions).Pairwise fun a b => a.2 < b.1
  proper : ∀ span ∈ mergedSpans input exemptions, span.1 < span.2 ∧ span.2 ≤ input.length
  holds : ∀ span ∈ foundSpans input exemptions, ∃ whole ∈ mergedSpans input exemptions, whole.1 ≤ span.1 ∧ span.2 ≤ whole.2
  union : ∀ place, Spans.covered (mergedSpans input exemptions) place = Spans.covered (foundSpans input exemptions) place
  output : redactSecrets registered input exemptions =
    (Spans.runs (Spans.covered (foundSpans input exemptions)) input).flatMap fun run =>
      if run.1 then run.2 else redactSecrets registered run.2 []

/-! ## Finding -/

theorem indexOf_eq_some {start found : Nat} (h : indexOf input exemption start = some found) :
    start ≤ found ∧ exemption <+: input.drop found ∧ ∀ place, start ≤ place → place < found → ¬exemption <+: input.drop place := by
  obtain ⟨offset, hOffset, rfl⟩ := Option.map_eq_some_iff.mp h
  obtain ⟨hBound, hHere, hBefore⟩ := List.findIdx?_eq_some_iff_getElem.mp hOffset
  rw [List.getElem_tails, List.drop_drop, List.isPrefixOf_iff_prefix] at hHere
  refine ⟨Nat.le_add_right _ _, hHere, fun place hStart hPlace hOccurs => ?_⟩
  have hNot := hBefore (place - start) (by omega)
  rw [List.getElem_tails, List.drop_drop, Nat.add_sub_cancel' hStart] at hNot
  exact hNot (List.isPrefixOf_iff_prefix.mpr hOccurs)

theorem indexOf_eq_none {start : Nat} (h : indexOf input exemption start = none) {place : Nat}
    (hStart : start ≤ place) : ¬exemption <+: input.drop place := by
  intro hOccurs
  have hNone := List.findIdx?_eq_none_iff.mp (Option.map_eq_none_iff.mp h) (input.drop place) ?_
  · rw [List.isPrefixOf_iff_prefix.mpr hOccurs] at hNone
    cases hNone
  · rw [List.mem_tails, ← Nat.add_sub_cancel' hStart, ← List.drop_drop]
    exact List.drop_suffix _ _

theorem occurrence_fits {place : Nat} (hNonempty : exemption ≠ [])
    (h : exemption <+: input.drop place) : place + exemption.length ≤ input.length := by
  have hLength := h.length_le
  have hPositive := List.length_pos_iff.mpr hNonempty
  rw [List.length_drop] at hLength
  omega

theorem findSpans_from (hNonempty : exemption ≠ []) {rounds start : Nat}
    (hRounds : input.length < start + rounds) :
    (∀ span ∈ findSpans input exemption rounds start, start ≤ span.1) ∧
      (∀ span ∈ findSpans input exemption rounds start, span.2 = span.1 + exemption.length ∧ exemption <+: input.drop span.1) ∧
      (findSpans input exemption rounds start).Pairwise (fun a b => a.2 ≤ b.1) ∧
      ∀ place, start ≤ place → exemption <+: input.drop place →
        ∃ span ∈ findSpans input exemption rounds start, span.1 ≤ place ∧ place < span.2 := by
  have hPositive := List.length_pos_iff.mpr hNonempty
  induction rounds generalizing start with
  | zero =>
    refine ⟨nofun, nofun, .nil, fun place hStart hOccurs => ?_⟩
    have hFits := occurrence_fits hNonempty hOccurs
    omega
  | succ rounds ih =>
    rw [findSpans]
    split
    · split
      · rename_i hNone
        exact ⟨nofun, nofun, .nil, fun place hStart hOccurs => absurd hOccurs (indexOf_eq_none hNone hStart)⟩
      · rename_i found hFound
        obtain ⟨hStart, hOccurs, hBefore⟩ := indexOf_eq_some hFound
        obtain ⟨hBehind, hOccurrence, hApart, hEvery⟩ := @ih (found + exemption.length) (by omega)
        refine ⟨?_, ?_, ?_, fun place hPlace hOccursThere => ?_⟩
        · exact List.forall_mem_cons.mpr ⟨hStart, fun span hSpan => by have hFar := hBehind span hSpan; omega⟩
        · exact List.forall_mem_cons.mpr ⟨⟨rfl, hOccurs⟩, hOccurrence⟩
        · exact List.pairwise_cons.mpr ⟨hBehind, hApart⟩
        · by_cases hNear : place < found + exemption.length
          · have hNotBefore : found ≤ place := Nat.le_of_not_lt fun hEarly => hBefore place hPlace hEarly hOccursThere
            exact ⟨_, List.mem_cons_self, hNotBefore, hNear⟩
          · obtain ⟨span, hSpan, hInside⟩ := hEvery place (Nat.le_of_not_lt hNear) hOccursThere
            exact ⟨span, List.mem_cons_of_mem _ hSpan, hInside⟩
    · rename_i hFull
      refine ⟨nofun, nofun, .nil, fun place hStart hOccurs => ?_⟩
      have hFits := occurrence_fits hNonempty hOccurs
      omega

theorem findSpans_leftmost (hNonempty : exemption ≠ []) :
    Leftmost input exemption (findSpans input exemption (input.length + 1) 0) := by
  have hRounds : input.length < 0 + (input.length + 1) := by omega
  obtain ⟨-, hOccurrence, hApart, hEvery⟩ := findSpans_from hNonempty hRounds
  exact ⟨hOccurrence, hApart, fun place => hEvery place (Nat.zero_le _)⟩

variable {exemptions : List JsString}

theorem findSpans_subset (hMem : exemption ∈ exemptions)
    (hNonempty : exemption ≠ []) : findSpans input exemption (input.length + 1) 0 ⊆ foundSpans input exemptions := by
  intro span hSpan
  exact List.mem_flatMap.mpr ⟨exemption, List.mem_filter.mpr ⟨hMem, decide_eq_true hNonempty⟩, hSpan⟩

theorem foundSpans_proper {input : JsString} {span : Spans.Span}
    (h : span ∈ foundSpans input exemptions) : span.1 < span.2 ∧ span.2 ≤ input.length := by
  obtain ⟨exemption, hExemption, hSpan⟩ := List.mem_flatMap.mp h
  have hNonempty : exemption ≠ [] := of_decide_eq_true (List.mem_filter.mp hExemption).2
  obtain ⟨hEnd, hOccurs⟩ := (findSpans_leftmost hNonempty).occurrence span hSpan
  have hFits := occurrence_fits hNonempty hOccurs
  have hPositive := List.length_pos_iff.mpr hNonempty
  omega

theorem redactPlain_nil (registered : RegisteredValues) : redactPlain registered [] = [] := by
  rw [redactPlain_eq, Rewriting.replaceEach]
  generalize passes registered = finders
  induction finders with
  | nil => rfl
  | cons find finders ih => exact ih

theorem redactSecrets_eq_spare (registered : RegisteredValues) (input : JsString) (exemptions : List JsString) :
    redactSecrets registered input exemptions = Spans.spare (redactPlain registered) input 0 (mergedSpans input exemptions) := by
  rw [redactSecrets, mergedSpans]
  split
  · rename_i hNone
    rw [hNone]
    rfl
  · rfl

theorem exempted_exactly (registered : RegisteredValues) (input : JsString) (exemptions : List JsString) :
    ExemptedExactly registered input exemptions where
  found exemption hMem hNonempty := ⟨findSpans_leftmost hNonempty, findSpans_subset hMem hNonempty⟩
  separate := (Spans.merge_sort_merged _).separate
  proper := Spans.mem_merge_sort fun _ hSpan => foundSpans_proper hSpan
  holds := (Spans.merge_sort_merged _).holds
  union := (Spans.merge_sort_merged _).union
  output := by
    rw [redactSecrets_eq_spare]
    exact Spans.spare_merge_sort (redactPlain_nil registered) fun _ hSpan => foundSpans_proper hSpan

end CommandSuite.Redact
