import Mathlib.Data.List.Infix

/-! # Cutting a text at a mark

What stands before the first occurrence of a mark, and what behind it.
-/

namespace CommandSuite.Library

universe u

variable {α : Type u}

def cut [DecidableEq α] (mark : List α) : List α → Option (List α × List α)
  | [] => none
  | unit :: rest =>
    if mark <+: unit :: rest then some ([], (unit :: rest).drop mark.length)
    else (cut mark rest).map fun parts => (unit :: parts.1, parts.2)

namespace Cut

variable {mark before rest : List α} {stop : α}

theorem prefix_append_cons_iff (hStop : stop ∉ mark) : mark <+: before ++ stop :: rest ↔ mark <+: before := by
  constructor
  · rintro ⟨behind, hText⟩
    obtain ⟨inside, hBefore, -⟩ | ⟨inside, hMark, hInside⟩ := List.append_eq_append_iff.mp hText
    · exact ⟨inside, hBefore.symm⟩
    · cases inside with
      | nil => exact ⟨[], by simpa using hMark⟩
      | cons unit inside =>
        obtain ⟨rfl, -⟩ := List.cons.inj hInside
        exact absurd (by simp [hMark]) hStop
  · exact fun hBefore => hBefore.trans (List.prefix_append before _)

theorem infix_append_cons_iff (hStop : stop ∉ mark) : mark <:+: before ++ stop :: rest ↔ mark <:+: before ∨ mark <:+: stop :: rest := by
  induction before with
  | nil =>
    rw [List.nil_append, List.infix_nil]
    constructor
    · exact .inr
    · rintro (rfl | hRest)
      · exact List.nil_infix
      · exact hRest
  | cons unit before ih =>
    rw [List.cons_append, List.infix_cons_iff, ih, ← List.cons_append, prefix_append_cons_iff hStop, ← or_assoc, ← List.infix_cons_iff]

theorem infix_cons_of_ne {unit : α} (h : mark.head? ≠ some unit) : mark <:+: unit :: rest ↔ mark <:+: rest := by
  rw [List.infix_cons_iff]
  refine or_iff_right_of_imp ?_
  cases mark with
  | nil => exact fun _ => List.nil_infix
  | cons first mark =>
    intro hHere
    exact absurd (congrArg some (List.cons_prefix_cons.mp hHere).1) h

theorem infix_append_of_not_mem {first : α} (hFirst : mark.head? = some first) (h : first ∉ before) :
    mark <:+: before ++ rest ↔ mark <:+: rest := by
  induction before with
  | nil => rfl
  | cons unit before ih =>
    rw [List.mem_cons, not_or] at h
    rw [List.cons_append, infix_cons_of_ne (by simpa [hFirst] using h.1), ih h.2]

section Cut

variable [DecidableEq α]

theorem cut_eq_none_iff (hMark : mark ≠ []) (text : List α) : cut mark text = none ↔ ¬ mark <:+: text := by
  induction text with
  | nil => simp [cut, hMark]
  | cons unit rest ih =>
    rw [cut, List.infix_cons_iff]
    split
    · rename_i hHere
      simp [hHere]
    · rename_i hNotHere
      simp [hNotHere, ih]

theorem cut_mark (hMark : mark ≠ []) (rest : List α) : cut mark (mark ++ rest) = some ([], rest) := by
  cases mark with
  | nil => exact absurd rfl hMark
  | cons first mark =>
    rw [List.cons_append, cut, if_pos, ← List.cons_append, List.drop_left]
    exact List.prefix_append (first :: mark) rest

theorem cut_singleton (h : stop ∉ before) (rest : List α) : cut [stop] (before ++ stop :: rest) = some (before, rest) := by
  induction before with
  | nil => exact cut_mark (List.cons_ne_nil stop []) rest
  | cons unit before ih =>
    rw [List.mem_cons, not_or] at h
    rw [List.cons_append, cut, if_neg (by simpa using h.1), ih h.2]
    rfl

theorem cut_of_unmarked (hMark : mark ≠ []) (hStop : stop ∉ mark) (h : ¬ mark <:+: before) (rest : List α) :
    cut mark (before ++ stop :: (mark ++ rest)) = some (before ++ [stop], rest) := by
  induction before with
  | nil =>
    have hNotHere : ¬ mark <+: stop :: (mark ++ rest) := by
      cases mark with
      | nil => exact absurd rfl hMark
      | cons first mark =>
        intro hHere
        exact hStop (by simp [(List.cons_prefix_cons.mp hHere).1])
    rw [List.nil_append, cut, if_neg hNotHere, cut_mark hMark]
    rfl
  | cons unit before ih =>
    rw [List.infix_cons_iff, not_or] at h
    have hNotHere : ¬ mark <+: unit :: (before ++ stop :: (mark ++ rest)) := by
      rw [← List.cons_append, prefix_append_cons_iff hStop]
      exact h.1
    rw [List.cons_append, cut, if_neg hNotHere, ih h.2]
    rfl

theorem cut_of_marked (h : mark <:+: before) (hMark : mark ≠ []) (rest : List α) :
    ∃ parts, cut mark (before ++ rest) = some parts ∧ parts.1.length + mark.length ≤ before.length := by
  induction before with
  | nil => exact absurd (List.infix_nil.mp h) hMark
  | cons unit before ih =>
    rw [List.cons_append, cut]
    split
    · exact ⟨_, rfl, by simpa using h.length_le⟩
    · rename_i hNotHere
      obtain hHere | hBehind := List.infix_cons_iff.mp h
      · exact absurd (hHere.trans (List.prefix_append (unit :: before) rest)) hNotHere
      · obtain ⟨parts, hCut, hLength⟩ := ih hBehind
        refine ⟨(unit :: parts.1, parts.2), by rw [hCut]; rfl, ?_⟩
        rw [List.length_cons, List.length_cons]
        omega

end Cut

end Cut

end CommandSuite.Library
