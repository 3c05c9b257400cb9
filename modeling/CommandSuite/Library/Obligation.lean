import CommandSuite.Library.Transcript

/-! # What a machine still owes

A state owes a list of actions. A step either owes on what it has not done, or does everything that was owed.
-/

namespace CommandSuite.Library.Obligation

open Transcript

universe u v w x

variable {σ : Type u} {ι : Type v} {ο : Type w} {κ : Type x} {next : Machine σ ι ο}
  {P : σ → Prop} {C : σ → ι → Prop} {owed : σ → List κ} {done : ο → List κ}

def doneIn (done : ο → List κ) (steps : List (Step σ ι ο)) : List κ := steps.flatMap fun step => done step.output

section Rules

variable (preserved : ∀ s i, P s → C s i → P (next s i).1) {s : σ} {is : List ι}

include preserved

theorem owed_sublist (step : ∀ s i, P s → C s i → List.Sublist (owed s) (done (next s i).2 ++ owed (next s i).1))
    (h : P s) (hMeets : ∀ step ∈ run next s is, C step.before step.input) :
    List.Sublist (owed s) (doneIn done (run next s is) ++ owed (final next s is)) := by
  induction is generalizing s with
  | nil => exact List.Sublist.refl _
  | cons i is ih =>
    obtain ⟨hFirst, hRest⟩ := List.forall_mem_cons.mp hMeets
    have hStep := step s i h hFirst
    have hRun := ih (preserved s i h hFirst) hRest
    rw [doneIn, run_cons, List.flatMap_cons, List.append_assoc]
    exact hStep.trans (hRun.append_left _)

variable {own : ι → Bool}

theorem owed_sublist_of_own {distance : σ → Nat}
    (step : ∀ s i, P s → C s i → owed s ≠ [] → List.Sublist (owed s) (done (next s i).2) ∨
      (List.Sublist (owed s) (done (next s i).2 ++ owed (next s i).1) ∧
        distance (next s i).1 + (if own i then 1 else 0) ≤ distance s))
    (hDistance : ∀ s, owed s ≠ [] → 0 < distance s)
    (h : P s) (hMeets : ∀ step ∈ run next s is, C step.before step.input)
    (hOwn : distance s ≤ (is.filter own).length) : List.Sublist (owed s) (doneIn done (run next s is)) := by
  induction is generalizing s with
  | nil =>
    by_cases hOwed : owed s = []
    · rw [hOwed]
      exact List.nil_sublist _
    · exact absurd hOwn (Nat.not_le.mpr (hDistance s hOwed))
  | cons i is ih =>
    obtain ⟨hFirst, hRest⟩ := List.forall_mem_cons.mp hMeets
    rw [doneIn, run_cons, List.flatMap_cons]
    by_cases hOwed : owed s = []
    · rw [hOwed]
      exact List.nil_sublist _
    · obtain hPaid | ⟨hStep, hCloser⟩ := step s i h hFirst hOwed
      · exact hPaid.trans (List.sublist_append_left _ _)
      · have hLeft : distance (next s i).1 ≤ (is.filter own).length := by
          rw [List.filter_cons] at hOwn
          split at hOwn
          · rename_i hIsOwn
            rw [if_pos hIsOwn] at hCloser
            rw [List.length_cons] at hOwn
            omega
          · exact (Nat.le_of_add_right_le hCloser).trans hOwn
        exact hStep.trans ((ih (preserved s i h hFirst) hRest hLeft).append_left _)

theorem rank_final_le {rank : σ → Nat}
    (step : ∀ s i, P s → C s i → rank (next s i).1 ≤ rank s - if own i then 1 else 0)
    (h : P s) (hMeets : ∀ step ∈ run next s is, C step.before step.input) :
    rank (final next s is) ≤ rank s - (is.filter own).length := by
  induction is generalizing s with
  | nil => exact Nat.le_refl _
  | cons i is ih =>
    obtain ⟨hFirst, hRest⟩ := List.forall_mem_cons.mp hMeets
    have hStep := step s i h hFirst
    have hRun := ih (preserved s i h hFirst) hRest
    rw [final_cons, List.filter_cons]
    split
    · rename_i hOwn
      rw [if_pos hOwn] at hStep
      rw [List.length_cons]
      omega
    · rename_i hOther
      rw [if_neg hOther] at hStep
      omega

end Rules

end CommandSuite.Library.Obligation
