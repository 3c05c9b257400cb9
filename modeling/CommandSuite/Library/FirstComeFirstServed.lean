import Mathlib.Data.List.Infix
import Mathlib.Data.List.Nodup

/-! # First come, first served

Customers of several lines wait in one queue.
-/

namespace CommandSuite.Library.FirstComeFirstServed

universe u v

variable {α : Type u} {κ : Type v} [DecidableEq α] [DecidableEq κ]

def waiting (joined left : List α) : List α := joined.filter fun a => a ∉ left

theorem waiting_append_left (joined left : List α) (a : α) : waiting joined (left ++ [a]) = (waiting joined left).filter fun b => b ≠ a := by
  rw [waiting, waiting, List.filter_filter]
  refine List.filter_congr fun b _ => ?_
  simp [and_comm]

theorem waiting_append_joined {joined left : List α} {a : α} (h : a ∉ left) : waiting (joined ++ [a]) left = waiting joined left ++ [a] := by
  simp [waiting, h]

theorem head_waiting {all joined left : List α} {a : α} (hNodup : all.Nodup) (hJoined : joined <+: all) (hLeft : left ++ [a] <+: all)
    (ha : a ∈ joined) : (waiting joined left).head? = some a := by
  have hLeftNodup : (left ++ [a]).Nodup := hNodup.sublist hLeft.sublist
  have hBoth : left ++ [a] <+: joined := by
    obtain hShort | hLong := List.prefix_or_prefix_of_prefix hLeft hJoined
    · exact hShort
    · obtain ⟨more, hMore⟩ := hLong
      obtain rfl | ⟨init, last, rfl⟩ := more.eq_nil_or_concat
      · rw [List.append_nil] at hMore
        exact hMore ▸ List.prefix_refl _
      · rw [List.concat_eq_append, ← List.append_assoc] at hMore
        obtain ⟨hInit, hLast⟩ := List.append_inj' hMore rfl
        have hAgain : a ∈ left := hInit ▸ List.mem_append_left _ ha
        exact absurd hAgain fun hMem => (List.nodup_append.mp hLeftNodup).2.2 a hMem a (List.mem_singleton_self a) rfl
  obtain ⟨more, rfl⟩ := hBoth
  have hGone : left.filter (fun b => b ∉ left) = [] := List.filter_eq_nil_iff.mpr fun b hb => by simpa using hb
  have hStays : a ∉ left := fun hMem => (List.nodup_append.mp hLeftNodup).2.2 a hMem a (List.mem_singleton_self a) rfl
  rw [waiting, List.filter_append, List.filter_append, hGone, List.nil_append, List.filter_cons_of_pos (by simpa using hStays)]
  rfl

variable (line : α → κ)

theorem filter_waiting (joined left : List α) (k : κ) :
    (waiting joined left).filter (fun b => line b = k) = waiting (joined.filter fun b => line b = k) (left.filter fun b => line b = k) := by
  rw [waiting, waiting, List.filter_filter, List.filter_filter]
  refine List.filter_congr fun b _ => ?_
  by_cases hLine : line b = k <;> simp [hLine]

theorem eraseP_eq_filter {queue : List α} {p : α → Bool} {a : α} (hNodup : queue.Nodup) (h : queue.find? p = some a) :
    queue.eraseP p = queue.filter fun b => b ≠ a := by
  induction queue with
  | nil => rfl
  | cons head queue ih =>
    obtain ⟨hHead, hNodup⟩ := List.nodup_cons.mp hNodup
    by_cases hFirst : p head = true
    · rw [List.find?_cons_of_pos hFirst] at h
      obtain rfl := Option.some.inj h
      rw [List.eraseP_cons_of_pos hFirst, List.filter_cons_of_neg (by simp)]
      refine (List.filter_eq_self.mpr fun b hb => ?_).symm
      exact decide_eq_true fun hSame => hHead (hSame ▸ hb)
    · rw [List.find?_cons_of_neg hFirst] at h
      have hOther : head ≠ a := fun hSame => hHead (hSame ▸ List.mem_of_find?_eq_some h)
      rw [List.eraseP_cons_of_neg hFirst, List.filter_cons_of_pos (by simpa using hOther), ih hNodup h]

theorem serve {joined left all : List α} {a : α} (hNodup : joined.Nodup) (hAll : all.Nodup)
    (hJoined : (joined.filter fun b => line b = line a) <+: all) (hLeft : ((left ++ [a]).filter fun b => line b = line a) <+: all)
    (ha : a ∈ joined) :
    (waiting joined left).find? (fun b => line b = line a) = some a ∧
      (waiting joined left).eraseP (fun b => line b = line a) = waiting joined (left ++ [a]) := by
  have hFind : (waiting joined left).find? (fun b => line b = line a) = some a := by
    rw [← List.head?_filter, filter_waiting]
    rw [List.filter_append, List.filter_cons_of_pos (by simp), List.filter_nil] at hLeft
    exact head_waiting hAll hJoined hLeft (List.mem_filter.mpr ⟨ha, by simp⟩)
  refine ⟨hFind, ?_⟩
  rw [waiting_append_left]
  exact eraseP_eq_filter (hNodup.filter _) hFind

end CommandSuite.Library.FirstComeFirstServed
