import CommandSuite.Library.Table
import Mathlib.Algebra.BigOperators.Group.List.Basic
import Mathlib.Algebra.GroupWithZero.Nat

/-! # Tallies

A table with a column that counts, and a list whose elements are placed under the keys of the table: the table counts
the list when every row says how many elements are placed under its key, and no element is placed under a missing key.
-/

namespace CommandSuite.Library.Table

universe u v w

variable {ρ : Type u} {κ : Type v} {α : Type w} {key : ρ → κ} [DecidableEq κ]

def tally (weight : ρ → Nat) (t : Table key) (k : κ) : Nat :=
  match t.find k with
  | some r => weight r
  | none => 0

def Counts (weight : ρ → Nat) (t : Table key) (place : α → Option κ) (xs : List α) : Prop :=
  ∀ k, t.tally weight k = xs.countP fun x => place x = some k

variable {weight : ρ → Nat} {t : Table key} {place : α → Option κ} {xs : List α}

theorem tally_of_mem {r : ρ} (h : r ∈ t.rows) : t.tally weight (key r) = weight r := by
  rw [tally, find_key h]

theorem tally_delete (p : κ → Bool) (k : κ) :
    (t.delete fun r => p (key r)).tally weight k = if p k then 0 else t.tally weight k := by
  unfold tally
  rw [find_delete]
  cases hFind : t.find k with
  | none => simp
  | some r =>
    rw [Option.filter_some, key_of_find hFind]
    cases p k <;> rfl

/-- `INSERT ... ON CONFLICT DO UPDATE`. -/
def upsert (t : Table key) (r : ρ) (merge : ρ → ρ → ρ) (keeps : ∀ old new, key (merge old new) = key old) : Table key :=
  match t.find (key r) with
  | none => t.insertOrIgnore r
  | some _ => t.update (fun other => key other = key r) (fun other => merge other r) fun other => keeps other r

section Upsert

variable {merge : ρ → ρ → ρ} {keeps : ∀ old new, key (merge old new) = key old}

section

variable (hMerge : ∀ old new, weight (merge old new) = weight old + weight new)
include hMerge

theorem tally_upsert (r : ρ) (k : κ) :
    (t.upsert r merge keeps).tally weight k = t.tally weight k + if key r = k then weight r else 0 := by
  unfold upsert
  cases hFind : t.find (key r) with
  | none =>
    unfold tally
    rw [find_insertOrIgnore]
    by_cases hKey : key r = k
    · rw [← hKey, hFind]
      simp
    · simp [hKey]
  | some old =>
    unfold tally
    rw [find_update]
    cases hOther : t.find k with
    | none =>
      have hKey : key r ≠ k := by
        rintro rfl
        rw [hFind] at hOther
        cases hOther
      simp [hKey]
    | some other =>
      have hKey := key_of_find hOther
      simp only [Option.map_some, decide_eq_true_eq, hKey, @eq_comm _ k]
      split
      · exact hMerge other r
      · rfl

theorem tally_foldl_upsert {β : Type w} (row : β → ρ)
    (bs : List β) (k : κ) : (bs.foldl (fun t b => t.upsert (row b) merge keeps) t).tally weight k =
      t.tally weight k + ((bs.filter fun b => key (row b) = k).map fun b => weight (row b)).sum := by
  induction bs generalizing t with
  | nil => simp
  | cons b bs ih =>
    rw [List.foldl_cons, ih, tally_upsert hMerge, List.filter_cons]
    by_cases hKey : key (row b) = k
    · simp only [hKey, if_true, decide_true, List.map_cons, List.sum_cons]
      omega
    · simp [hKey]

end

theorem forall_upsert {P : ρ → Prop} (h : ∀ r ∈ t.rows, P r) {r : ρ} (hRow : P r) (hMerge : ∀ old, P old → P (merge old r)) :
    ∀ other ∈ (t.upsert r merge keeps).rows, P other := by
  unfold upsert
  cases hFind : t.find (key r) with
  | none =>
    dsimp only
    rw [rows_insertOrIgnore, if_pos hFind]
    exact List.forall_mem_append.mpr ⟨h, List.forall_mem_singleton.mpr hRow⟩
  | some _ =>
    intro other hOther
    obtain ⟨old, hOld, rfl⟩ := List.mem_map.mp hOther
    split
    · exact hMerge old (h old hOld)
    · exact h old hOld

theorem forall_foldl_upsert {P : ρ → Prop} {β : Type w} {row : β → ρ} {bs : List β} (h : ∀ r ∈ t.rows, P r)
    (hRows : ∀ b ∈ bs, P (row b)) (hMerge : ∀ old new, P old → P new → P (merge old new)) :
    ∀ other ∈ (bs.foldl (fun t b => t.upsert (row b) merge keeps) t).rows, P other := by
  induction bs generalizing t with
  | nil => exact h
  | cons b bs ih =>
    obtain ⟨hFirst, hRest⟩ := List.forall_mem_cons.mp hRows
    exact ih (forall_upsert h hFirst fun old hOld => hMerge old (row b) hOld hFirst) hRest

end Upsert

theorem Counts.exists_row (h : Counts weight t place xs) {x : α} (hx : x ∈ xs) {k : κ} (hPlace : place x = some k) :
    ∃ r ∈ t.rows, key r = k := by
  have hPos : 0 < xs.countP fun x => place x = some k := List.countP_pos_iff.mpr ⟨x, hx, by simpa using hPlace⟩
  rw [← h k, tally] at hPos
  cases hFind : t.find k with
  | none =>
    rw [hFind] at hPos
    exact absurd hPos (Nat.lt_irrefl 0)
  | some r => exact ⟨r, mem_of_find hFind, key_of_find hFind⟩

theorem countP_eq_add {p q r : α → Bool}
    (h : ∀ x ∈ xs, (if p x then 1 else 0) = (if q x then 1 else 0) + if r x then 1 else 0) :
    xs.countP p = xs.countP q + xs.countP r := by
  induction xs with
  | nil => rfl
  | cons x xs ih =>
    obtain ⟨hFirst, hRest⟩ := List.forall_mem_cons.mp h
    have hTail := ih hRest
    rw [List.countP_cons, List.countP_cons, List.countP_cons]
    omega

theorem countP_eq_countP_iff {p q : α → Bool} (h : ∀ x ∈ xs, p x = true → q x = true) :
    xs.countP p = xs.countP q ↔ ∀ x ∈ xs, q x = true → p x = true := by
  induction xs with
  | nil => simp
  | cons x xs ih =>
    obtain ⟨hFirst, hRest⟩ := List.forall_mem_cons.mp h
    have hMono := List.countP_mono_left hRest
    have hTail := ih hRest
    rw [List.countP_cons, List.countP_cons, List.forall_mem_cons, ← hTail]
    cases hP : p x with
    | true => simp [hFirst hP]
    | false =>
      cases q x
      · simp
      · simp only [Bool.false_eq_true, if_false, if_true, forall_const, false_and, iff_false]
        omega

theorem sum_map_eq_count (ks : List κ) (k : κ) : (ks.map fun other => if some k = some other then 1 else 0).sum = ks.count k := by
  induction ks with
  | nil => rfl
  | cons other ks ih =>
    rw [List.map_cons, List.sum_cons, ih, List.count_cons, Nat.add_comm]
    simp only [Option.some.injEq, beq_iff_eq, @eq_comm _ other k]

theorem sum_countP_of_nodup {ks : List κ} (h : ks.Nodup) (place : α → Option κ) (xs : List α) :
    (ks.map fun k => xs.countP fun x => place x = some k).sum = xs.countP fun x => (place x).any fun k => k ∈ ks := by
  induction xs with
  | nil => simp
  | cons x xs ih =>
    have hFirst : (ks.map fun k => if place x = some k then 1 else 0).sum = if (place x).any (fun k => k ∈ ks) then 1 else 0 := by
      cases place x with
      | none => simp
      | some k =>
        rw [sum_map_eq_count, h.count]
        simp
    simp only [List.countP_cons, decide_eq_true_eq, List.sum_map_add, ih, hFirst]

theorem Counts.sum_select (h : Counts weight t place xs) (p : κ → Bool) :
    ((t.select fun r => p (key r)).map weight).sum = xs.countP fun x => (place x).any p := by
  have hKeys : ((t.select fun r => p (key r)).map weight) =
      ((t.select fun r => p (key r)).map key).map fun k => xs.countP fun x => place x = some k := by
    rw [List.map_map]
    refine List.map_congr_left fun r hr => ?_
    obtain ⟨hMem, _⟩ := (mem_select t _ r).mp hr
    rw [Function.comp_apply, ← h (key r), tally_of_mem hMem]
  have hNodup : ((t.select fun r => p (key r)).map key).Nodup := t.nodup.sublist (List.filter_sublist.map key)
  rw [hKeys, sum_countP_of_nodup hNodup]
  refine List.countP_congr fun x hx => ?_
  cases hPlace : place x with
  | none => simp
  | some k =>
    obtain ⟨r, hRow, rfl⟩ := h.exists_row hx hPlace
    simp only [Option.any_some, decide_eq_true_eq, List.mem_map, mem_select]
    constructor
    · rintro ⟨other, ⟨_, hOther⟩, hSame⟩
      rw [← hSame]
      exact hOther
    · intro hKey
      exact ⟨r, ⟨hRow, hKey⟩, rfl⟩

end CommandSuite.Library.Table
