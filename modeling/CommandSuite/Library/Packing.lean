import Mathlib.Algebra.BigOperators.Group.List.Basic
import Mathlib.Algebra.Order.Ring.Int

/-! # Packing into a budget

Each element is taken if its cost still fits, and passed by if not. The taken ones are the first of the list exactly if
behind some point nothing fits anymore.
-/

namespace CommandSuite.Library.Packing

universe u

variable {α : Type u} (cost : α → Nat)

def total (xs : List α) : Nat := (xs.map cost).sum

def pack : Int → List α → List α
  | _, [] => []
  | budget, x :: xs => if budget < cost x then pack budget xs else x :: pack (budget - cost x) xs

/-- The first `n` fit together, and behind them nothing fits. -/
def Stops (budget : Int) (xs : List α) (n : Nat) : Prop :=
  total cost (xs.take n) ≤ budget ∧ ∀ x ∈ xs.drop n, budget < total cost (xs.take n) + cost x

variable {cost} {budget : Int} {xs : List α}

@[simp] theorem total_nil : total cost [] = 0 := rfl

@[simp] theorem total_cons (x : α) (xs : List α) : total cost (x :: xs) = cost x + total cost xs := rfl

theorem total_pack_le (hBudget : 0 ≤ budget) (xs : List α) : total cost (pack cost budget xs) ≤ budget := by
  induction xs generalizing budget with
  | nil => exact hBudget
  | cons x xs ih =>
    rw [pack]
    split
    · exact ih hBudget
    · rename_i hFits
      have hRest := ih (Int.sub_nonneg_of_le (Int.not_lt.mp hFits))
      rw [total_cons]
      omega

theorem cost_le_of_mem_pack {x : α} (hMem : x ∈ pack cost budget xs) : (cost x : Int) ≤ budget := by
  induction xs generalizing budget with
  | nil => exact absurd hMem List.not_mem_nil
  | cons first xs ih =>
    rw [pack] at hMem
    split at hMem
    · exact ih hMem
    · rename_i hFits
      obtain rfl | hLater := List.mem_cons.mp hMem
      · exact Int.not_lt.mp hFits
      · have hRest := ih hLater
        omega

theorem pack_eq_nil_iff : pack cost budget xs = [] ↔ ∀ x ∈ xs, budget < cost x := by
  induction xs generalizing budget with
  | nil => exact iff_of_true rfl fun x hMem => absurd hMem List.not_mem_nil
  | cons x xs ih =>
    rw [pack, List.forall_mem_cons]
    split
    · rename_i hOver
      exact ih.trans (and_iff_right hOver).symm
    · rename_i hFits
      exact iff_of_false (List.cons_ne_nil _ _) fun h => hFits h.1

theorem Stops.cons {x : α} {n : Nat} : Stops cost budget (x :: xs) (n + 1) ↔ Stops cost (budget - cost x) xs n := by
  rw [Stops, Stops, List.take_succ_cons, List.drop_succ_cons, total_cons]
  constructor
  · rintro ⟨hFit, hBehind⟩
    refine ⟨by omega, fun y hMem => ?_⟩
    have hOver := hBehind y hMem
    omega
  · rintro ⟨hFit, hBehind⟩
    refine ⟨by omega, fun y hMem => ?_⟩
    have hOver := hBehind y hMem
    omega

theorem pack_of_stops {n : Nat} (h : Stops cost budget xs n) : pack cost budget xs = xs.take n := by
  induction xs generalizing budget n with
  | nil => rw [pack, List.take_nil]
  | cons x xs ih =>
    cases n with
    | zero =>
      obtain ⟨-, hBehind⟩ := h
      refine pack_eq_nil_iff.mpr fun y hMem => ?_
      simpa using hBehind y hMem
    | succ n =>
      have hRest := Stops.cons.mp h
      obtain ⟨hFit, -⟩ := hRest
      rw [pack, if_neg (by omega), List.take_succ_cons, ih (Stops.cons.mp h)]

theorem pack_prefix_iff (hBudget : 0 ≤ budget) : pack cost budget xs <+: xs ↔ ∃ n, n ≤ xs.length ∧ Stops cost budget xs n := by
  constructor
  · intro hFirst
    induction xs generalizing budget with
    | nil => exact ⟨0, Nat.le_refl 0, hBudget, fun x hMem => absurd hMem List.not_mem_nil⟩
    | cons x xs ih =>
      rw [pack] at hFirst
      split at hFirst
      · rename_i hOver
        have hNone : pack cost budget xs = [] := by
          cases hPack : pack cost budget xs with
          | nil => rfl
          | cons y ys =>
            -- The first that is taken behind `x` would be `x`, which does not fit.
            rw [hPack] at hFirst
            obtain ⟨rfl, -⟩ := List.cons_prefix_cons.mp hFirst
            have hFits := cost_le_of_mem_pack (hPack ▸ List.mem_cons_self)
            omega
        refine ⟨0, Nat.zero_le _, hBudget, List.forall_mem_cons.mpr ⟨?_, fun y hMem => ?_⟩⟩
        · simpa using hOver
        · simpa using pack_eq_nil_iff.mp hNone y hMem
      · rename_i hFits
        obtain ⟨n, hLength, hStops⟩ := ih (Int.sub_nonneg_of_le (Int.not_lt.mp hFits)) (List.cons_prefix_cons.mp hFirst).2
        exact ⟨n + 1, Nat.succ_le_succ hLength, Stops.cons.mpr hStops⟩
  · rintro ⟨n, -, hStops⟩
    rw [pack_of_stops hStops]
    exact List.take_prefix n xs

end CommandSuite.Library.Packing
