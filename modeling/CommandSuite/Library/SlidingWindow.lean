import CommandSuite.Library.Transcript
import Mathlib.Data.List.Induction

/-! # Sliding windows

A limiter keeps the times of the calls that it admitted, and forgets those that are a width old.
-/

namespace CommandSuite.Library.SlidingWindow

open Transcript

universe u

variable {T : Type u} [AddCommGroup T] [LinearOrder T]

def fresh (width now : T) (times : List T) : List T := times.filter fun t => now - t < width

def check (max : Nat) (width : T) : Machine (List T) T Bool := fun kept now =>
  if max ≤ (fresh width now kept).length then (fresh width now kept, true) else (fresh width now kept ++ [now], false)

def admitted (log : List (Step (List T) T Bool)) : List T := (log.filter fun step => !step.output).map Step.input

omit [AddCommGroup T] [LinearOrder T] in
@[simp] theorem admitted_append (first second : List (Step (List T) T Bool)) :
    admitted (first ++ second) = admitted first ++ admitted second := by
  simp only [admitted, List.filter_append, List.map_append]

section

variable {max : Nat} {width : T} {kept : List T} {now : T}

theorem fresh_append (first second : List T) :
    fresh width now (first ++ second) = fresh width now first ++ fresh width now second :=
  List.filter_append ..

theorem check_refused_iff : (check max width kept now).2 = true ↔ max ≤ (fresh width now kept).length := by
  unfold check
  split <;> simp_all

theorem check_kept : (check max width kept now).1 = fresh width now kept ++ admitted [stepAt (check max width) kept now] := by
  unfold admitted stepAt check
  split <;> simp

theorem mem_of_mem_admitted {calls : List T} {t : T} (h : t ∈ admitted (run (check max width) kept calls)) : t ∈ calls := by
  obtain ⟨step, hStep, rfl⟩ := List.mem_map.mp h
  rw [← map_input_run (check max width) kept calls]
  exact List.mem_map_of_mem (List.mem_filter.mp hStep).1

end

variable [IsOrderedAddMonoid T]

theorem fresh_fresh {width now later : T} (h : now ≤ later) (times : List T) :
    fresh width later (fresh width now times) = fresh width later times := by
  unfold fresh
  rw [List.filter_filter]
  refine List.filter_congr fun t _ => ?_
  rw [Bool.and_eq_left_iff_imp, decide_eq_true_eq, decide_eq_true_eq]
  exact (sub_le_sub_right h t).trans_lt

section Runs

variable (max : Nat) (width : T) {calls : List T}

theorem fresh_final (hSorted : calls.Pairwise (· ≤ ·)) {now : T} (hNow : ∀ t ∈ calls, t ≤ now) :
    fresh width now (final (check max width) [] calls) = fresh width now (admitted (run (check max width) [] calls)) := by
  induction calls using List.reverseRecOn generalizing now with
  | nil => rfl
  | append_singleton calls last ih =>
    obtain ⟨hCalls, _, hLast⟩ := List.pairwise_append.mp hSorted
    have hBefore : ∀ t ∈ calls, t ≤ last := fun t ht => hLast t ht last List.mem_cons_self
    have hLater : last ≤ now := hNow last (List.mem_append_right _ List.mem_cons_self)
    rw [final_append, run_append, admitted_append, fresh_append]
    change fresh width now (check max width _ last).1 = _ ++ fresh width now (admitted [stepAt _ _ last])
    rw [check_kept, fresh_append, fresh_fresh hLater, ih hCalls fun t ht => (hBefore t ht).trans hLater]

theorem refused_iff {before : List T} {now : T} {after : List T} (hSorted : (before ++ now :: after).Pairwise (· ≤ ·)) :
    (check max width (final (check max width) [] before) now).2 = true ↔
      max ≤ (fresh width now (admitted (run (check max width) [] before))).length := by
  obtain ⟨hBefore, _, hNow⟩ := List.pairwise_append.mp hSorted
  rw [check_refused_iff, fresh_final max width hBefore fun t ht => hNow t ht now List.mem_cons_self]

theorem length_admitted_le (hSorted : calls.Pairwise (· ≤ ·)) (start : T) :
    ((admitted (run (check max width) [] calls)).filter fun t => start ≤ t ∧ t < start + width).length ≤ max := by
  induction calls using List.reverseRecOn with
  | nil => exact Nat.zero_le _
  | append_singleton calls last ih =>
    obtain ⟨hCalls, _, hLast⟩ := List.pairwise_append.mp hSorted
    have hBefore : ∀ t ∈ calls, t ≤ last := fun t ht => hLast t ht last List.mem_cons_self
    have hShort := ih hCalls
    rw [run_append, admitted_append, List.filter_append, List.length_append]
    change _ + ((admitted [stepAt _ _ last]).filter _).length ≤ max
    cases hRefused : (check max width (final (check max width) [] calls) last).2 with
    | true =>
      have hNone : admitted [stepAt (check max width) (final (check max width) [] calls) last] = [] := by
        simp [admitted, hRefused]
      rw [hNone]
      exact hShort
    | false =>
      have hOne : admitted [stepAt (check max width) (final (check max width) [] calls) last] = [last] := by
        simp [admitted, hRefused]
      rw [hOne]
      by_cases hInside : start ≤ last ∧ last < start + width
      · -- Everything in the interval is fresh at its last call.
        have hRoom := mt (refused_iff max width hSorted).mpr (by rw [hRefused]; exact Bool.false_ne_true)
        have hFresh : ((admitted (run (check max width) [] calls)).filter
            fun t => start ≤ t ∧ t < start + width).length ≤
              (fresh width last (admitted (run (check max width) [] calls))).length := by
          refine (List.monotone_filter_right _ fun t hInterval => ?_).length_le
          rw [decide_eq_true_eq] at hInterval ⊢
          exact sub_lt_iff_lt_add.mpr (hInside.2.trans_le (by rw [add_comm]; exact add_le_add_right hInterval.1 width))
        rw [List.filter_cons_of_pos (by exact decide_eq_true hInside), List.filter_nil, List.length_singleton]
        omega
      · rw [List.filter_cons_of_neg (by rw [decide_eq_true_eq]; exact hInside), List.filter_nil]
        exact hShort

end Runs

end CommandSuite.Library.SlidingWindow
