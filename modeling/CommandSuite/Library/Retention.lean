import Mathlib.Data.List.Sort

/-! # Keeping the first of a sorted list

A list is sorted and what is beyond a number of elements is let go. An element is let go exactly when enough elements
come before it.
-/

namespace CommandSuite.Library.Retention

universe u

variable {α : Type u}

section Strict

/-- No two different elements come before each other. -/
def Strict (r : α → α → Prop) (xs : List α) : Prop := xs.Nodup ∧ ∀ a ∈ xs, ∀ b ∈ xs, r a b → r b a → a = b

variable {r : α → α → Prop} {xs ys : List α}

theorem Strict.of_cons {x : α} (h : Strict r (x :: xs)) : Strict r xs :=
  ⟨h.1.of_cons, fun a ha b hb => h.2 a (List.mem_cons_of_mem x ha) b (List.mem_cons_of_mem x hb)⟩

theorem Strict.perm (h : Strict r xs) (hPerm : ys.Perm xs) : Strict r ys :=
  ⟨hPerm.nodup_iff.mpr h.1, fun a ha b hb => h.2 a (hPerm.mem_iff.mp ha) b (hPerm.mem_iff.mp hb)⟩

theorem Strict.sublist (h : Strict r xs) (hSub : ys.Sublist xs) : Strict r ys :=
  ⟨h.1.sublist hSub, fun a ha b hb => h.2 a (hSub.mem ha) b (hSub.mem hb)⟩

end Strict

variable (r : α → α → Prop) [DecidableRel r]

def beyond (n : Nat) (xs : List α) : List α := (xs.insertionSort r).drop n

def rank (xs : List α) (a : α) : Nat := xs.countP fun b => ¬r a b

theorem rank_cons (x : α) (xs : List α) (a : α) : rank r (x :: xs) a = rank r xs a + if r a x then 0 else 1 := by
  rw [rank, List.countP_cons, rank]
  by_cases h : r a x <;> simp [h]

theorem rank_perm {xs ys : List α} (h : xs.Perm ys) (a : α) : rank r xs a = rank r ys a := h.countP_eq _

theorem mem_of_mem_beyond {n : Nat} {xs : List α} {a : α} (h : a ∈ beyond r n xs) : a ∈ xs :=
  (List.mem_insertionSort r).mp (List.mem_of_mem_drop h)

theorem beyond_of_length_le {n : Nat} {xs : List α} (h : xs.length ≤ n) : beyond r n xs = [] := by
  apply List.drop_eq_nil_of_le
  rw [List.length_insertionSort]
  exact h

section Sorted

variable {r}

theorem mem_drop_iff [Std.Total r] {xs : List α} (hStrict : Strict r xs) (hSorted : xs.Pairwise r) (n : Nat) (a : α) :
    a ∈ xs.drop n ↔ a ∈ xs ∧ n ≤ rank r xs a := by
  induction xs generalizing n with
  | nil => simp
  | cons x xs ih =>
    obtain ⟨hFirst, hRest⟩ := List.pairwise_cons.mp hSorted
    obtain ⟨hNew, _⟩ := List.nodup_cons.mp hStrict.1
    cases n with
    | zero => simp
    | succ n =>
      rw [List.drop_succ_cons, ih hStrict.of_cons hRest, rank_cons, List.mem_cons]
      constructor
      · rintro ⟨hMem, hRank⟩
        have hNot : ¬r a x := by
          intro hBack
          have hSame := hStrict.2 x List.mem_cons_self a (List.mem_cons_of_mem x hMem) (hFirst a hMem) hBack
          exact hNew (hSame ▸ hMem)
        rw [if_neg hNot]
        exact ⟨.inr hMem, Nat.succ_le_succ hRank⟩
      · rintro ⟨rfl | hMem, hRank⟩
        · have hSelf : r a a := (Std.Total.total a a).elim id id
          have hNone : rank r xs a = 0 := by
            rw [rank, List.countP_eq_zero]
            intro b hb
            simpa using hFirst b hb
          rw [hNone, if_pos hSelf] at hRank
          cases hRank
        · refine ⟨hMem, ?_⟩
          split at hRank <;> omega

theorem mem_beyond_iff [Std.Total r] [IsTrans α r] {xs : List α} (hStrict : Strict r xs) (n : Nat) (a : α) :
    a ∈ beyond r n xs ↔ a ∈ xs ∧ n ≤ rank r xs a := by
  have hPerm := List.perm_insertionSort r xs
  rw [beyond, mem_drop_iff (hStrict.perm hPerm) (List.pairwise_insertionSort r xs), hPerm.mem_iff, rank_perm r hPerm]

end Sorted

end CommandSuite.Library.Retention
