import Mathlib.Data.List.Basic

/-! # Lines

The lines of a content that grows: what stands before each line end. What comes behind the last line end is no line yet.
-/

namespace CommandSuite.Library

universe u

variable {α : Type u} [DecidableEq α]

def lines (stop : α) (content : List α) : List (List α) := (content.splitOn stop).dropLast

def lastIndexOf (stop : α) : List α → Option Nat
  | [] => none
  | unit :: rest =>
    match lastIndexOf stop rest with
    | some place => some (place + 1)
    | none => if unit = stop then some 0 else none

/-- The content is empty or ends with a line. -/
def Whole (stop : α) (content : List α) : Prop := content = [] ∨ ∃ body, content = body ++ [stop]

variable {stop : α} {content first : List α}

@[simp] theorem lines_nil (stop : α) : lines stop [] = [] := rfl

theorem lines_of_not_mem (h : stop ∉ content) : lines stop content = [] := by
  rw [lines, List.splitOn_eq_singleton h]
  rfl

theorem lines_append_cons (stop : α) (first second : List α) :
    lines stop (first ++ stop :: second) = first.splitOn stop ++ lines stop second := by
  rw [lines, List.splitOn_append_cons_self, List.dropLast_append_of_ne_nil (List.splitOn_ne_nil stop second), lines]

theorem lines_append_stop (stop : α) (first : List α) : lines stop (first ++ [stop]) = first.splitOn stop := by
  rw [lines_append_cons, lines_nil, List.append_nil]

theorem Whole.lines_append (h : Whole stop first) (second : List α) :
    lines stop (first ++ second) = lines stop first ++ lines stop second := by
  obtain rfl | ⟨body, rfl⟩ := h
  · rfl
  · rw [List.append_assoc, List.singleton_append, lines_append_cons, lines_append_stop]

theorem not_mem_of_lastIndexOf (h : lastIndexOf stop content = none) : stop ∉ content := by
  induction content with
  | nil => exact List.not_mem_nil
  | cons unit rest ih =>
    rw [lastIndexOf] at h
    split at h
    · cases h
    · rename_i hRest
      split at h
      · cases h
      · rename_i hOther
        rw [List.mem_cons, not_or]
        exact ⟨fun hSame => hOther hSame.symm, ih hRest⟩

theorem lastIndexOf_eq_some {place : Nat} (h : lastIndexOf stop content = some place) :
    content = content.take place ++ stop :: content.drop (place + 1) ∧ stop ∉ content.drop (place + 1) := by
  induction content generalizing place with
  | nil => cases h
  | cons unit rest ih =>
    rw [lastIndexOf] at h
    cases hRest : lastIndexOf stop rest with
    | some behind =>
      rw [hRest] at h
      cases h
      obtain ⟨hContent, hNot⟩ := ih hRest
      exact ⟨congrArg (unit :: ·) hContent, hNot⟩
    | none =>
      have hNot : stop ∉ rest := not_mem_of_lastIndexOf hRest
      rw [hRest] at h
      dsimp only at h
      split at h
      · rename_i hSame
        cases h
        exact ⟨by rw [hSame]; rfl, hNot⟩
      · cases h

theorem exists_whole_append (stop : α) (content : List α) : ∃ ended rest, content = ended ++ rest ∧ Whole stop ended ∧ stop ∉ rest := by
  cases hLast : lastIndexOf stop content with
  | none => exact ⟨[], content, rfl, .inl rfl, not_mem_of_lastIndexOf hLast⟩
  | some place =>
    obtain ⟨hContent, hNot⟩ := lastIndexOf_eq_some hLast
    refine ⟨content.take place ++ [stop], content.drop (place + 1), ?_, .inr ⟨_, rfl⟩, hNot⟩
    rw [List.append_assoc]
    exact hContent

theorem lines_prefix_append (stop : α) (content more : List α) : lines stop content <+: lines stop (content ++ more) := by
  obtain ⟨ended, rest, rfl, hWhole, hRest⟩ := exists_whole_append stop content
  rw [hWhole.lines_append, lines_of_not_mem hRest, List.append_nil, List.append_assoc, hWhole.lines_append]
  exact List.prefix_append _ _

end CommandSuite.Library
