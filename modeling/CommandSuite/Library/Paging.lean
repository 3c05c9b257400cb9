import CommandSuite.Library.Retention

/-! # Pages in another order

Taking the first of a list before it is sorted gives what taking them after gives exactly when they
are in order and nothing behind them comes first.
-/

namespace CommandSuite.Library.Paging

open Retention

universe u

variable {α : Type u} (r : α → α → Prop) [DecidableRel r]

/-- The first `n` of the list are in order and come before all the others. -/
def Leads (n : Nat) (xs : List α) : Prop := (xs.take n).Pairwise r ∧ ∀ a ∈ xs.take n, ∀ b ∈ xs.drop n, r a b

instance (n : Nat) (xs : List α) : Decidable (Leads r n xs) := inferInstanceAs (Decidable (_ ∧ _))

variable {r}

omit [DecidableRel r] in
theorem eq_of_sorted {xs ys : List α} (hStrict : Strict r xs) (hPerm : ys.Perm xs) (hxs : xs.Pairwise r)
    (hys : ys.Pairwise r) : ys = xs :=
  List.Perm.eq_of_pairwise (fun a b ha hb hab hba => hStrict.2 a (hPerm.mem_iff.mp ha) b hb hab hba) hys hxs hPerm

theorem insertionSort_perm [Std.Total r] [IsTrans α r] {xs ys : List α} (hStrict : Strict r xs) (hPerm : ys.Perm xs) :
    ys.insertionSort r = xs.insertionSort r := by
  have hSort := List.perm_insertionSort r xs
  exact eq_of_sorted (hStrict.perm hSort) (((List.perm_insertionSort r ys).trans hPerm).trans hSort.symm)
    (List.pairwise_insertionSort r xs) (List.pairwise_insertionSort r ys)

theorem take_insertionSort_eq_iff [Std.Total r] [IsTrans α r] {xs : List α} (hStrict : Strict r xs) (n : Nat) :
    (xs.insertionSort r).take n = xs.take n ↔ Leads r n xs := by
  have hSort := List.perm_insertionSort r xs
  have hSorted := List.pairwise_insertionSort r xs
  constructor
  · intro hTake
    -- What is left of the sorted list is what is left of the list, in some order.
    have hDrop : ((xs.insertionSort r).drop n).Perm (xs.drop n) := by
      have hSplit : (xs.take n ++ (xs.insertionSort r).drop n).Perm (xs.take n ++ xs.drop n) := by
        rw [← hTake, List.take_append_drop, hTake, List.take_append_drop]
        exact hSort
      exact (List.perm_append_left_iff _).mp hSplit
    have hWhole : ((xs.insertionSort r).take n ++ (xs.insertionSort r).drop n).Pairwise r := by
      rw [List.take_append_drop]
      exact hSorted
    obtain ⟨hFirst, _, hCross⟩ := List.pairwise_append.mp hWhole
    rw [hTake] at hFirst hCross
    exact ⟨hFirst, fun a ha b hb => hCross a ha b (hDrop.mem_iff.mpr hb)⟩
  · rintro ⟨hFirst, hCross⟩
    have hRest := List.perm_insertionSort r (xs.drop n)
    have hPerm : (xs.take n ++ (xs.drop n).insertionSort r).Perm xs := by
      calc
        (xs.take n ++ (xs.drop n).insertionSort r).Perm (xs.take n ++ xs.drop n) := hRest.append_left _
        _ = xs := List.take_append_drop n xs
    have hParts : xs.insertionSort r = xs.take n ++ (xs.drop n).insertionSort r := by
      refine eq_of_sorted (hStrict.perm hPerm) (hSort.trans hPerm.symm) ?_ hSorted
      refine List.pairwise_append.mpr ⟨hFirst, List.pairwise_insertionSort r _, ?_⟩
      exact fun a ha b hb => hCross a ha b (hRest.mem_iff.mp hb)
    rw [hParts]
    rcases Nat.le_total n xs.length with hLong | hShort
    · exact List.take_left' (List.length_take_of_le hLong)
    · rw [List.take_of_length_le hShort, List.drop_eq_nil_of_le hShort, List.insertionSort_nil, List.append_nil,
        List.take_of_length_le hShort]

theorem take_filter_of_forall {p : α → Bool} {n : Nat} {xs : List α} (h : ∀ a ∈ xs.take n, p a = true) :
    (xs.filter p).take n = xs.take n := by
  induction xs generalizing n with
  | nil => rfl
  | cons x xs ih =>
    cases n with
    | zero => rfl
    | succ n =>
      obtain ⟨hFirst, hRest⟩ := List.forall_mem_cons.mp h
      rw [List.filter_cons_of_pos hFirst, List.take_succ_cons, List.take_succ_cons, ih hRest]

end CommandSuite.Library.Paging
