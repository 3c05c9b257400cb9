import CommandSuite.Library.Tally
import Mathlib.Data.List.Dedup

/-! # How many rows a table has

A table has as many rows as it has keys.
-/

namespace CommandSuite.Library.Table

universe u v w

variable {ρ : Type u} {κ : Type v} {key : ρ → κ} [DecidableEq κ] {t : Table key}

theorem mem_keys_iff {k : κ} : k ∈ t.rows.map key ↔ t.find k ≠ none := by
  rw [Ne, find_eq_none_iff, List.mem_map]
  simp

theorem length_eq_of_keys {ks : List κ} (h : ∀ k, k ∈ t.rows.map key ↔ k ∈ ks) : t.rows.length = ks.dedup.length := by
  have hPerm := (List.perm_ext_iff_of_nodup t.nodup (List.nodup_dedup ks)).mpr fun k => (h k).trans List.mem_dedup.symm
  rw [← hPerm.length_eq, List.length_map]

section Insert

theorem length_insertOrIgnore (r : ρ) :
    (t.insertOrIgnore r).rows.length = t.rows.length + if t.find (key r) = none then 1 else 0 := by
  rw [rows_insertOrIgnore]
  split <;> simp

theorem mem_keys_insertOrIgnore {r : ρ} {k : κ} : k ∈ (t.insertOrIgnore r).rows.map key ↔ k ∈ t.rows.map key ∨ k = key r := by
  rw [mem_keys_iff, mem_keys_iff, find_insertOrIgnore]
  by_cases hKey : key r = k
  · simp [hKey]
  · simp [hKey, Ne.symm hKey]

end Insert

section Upsert

variable {merge : ρ → ρ → ρ} {keeps : ∀ old new, key (merge old new) = key old}

omit [DecidableEq κ] in
theorem keys_update (p : ρ → Bool) (f : ρ → ρ) (hKeeps : ∀ r, key (f r) = key r) :
    (t.update p f hKeeps).rows.map key = t.rows.map key := by
  simp only [update, List.map_map]
  refine List.map_congr_left fun r _ => ?_
  rw [Function.comp_apply]
  split
  · exact hKeeps r
  · rfl

theorem length_upsert (r : ρ) :
    (t.upsert r merge keeps).rows.length = t.rows.length + if t.find (key r) = none then 1 else 0 := by
  unfold upsert
  cases hFind : t.find (key r) with
  | none => simp [length_insertOrIgnore, hFind]
  | some old => simp [update]

theorem mem_keys_upsert {r : ρ} {k : κ} : k ∈ (t.upsert r merge keeps).rows.map key ↔ k ∈ t.rows.map key ∨ k = key r := by
  unfold upsert
  cases hFind : t.find (key r) with
  | none => exact mem_keys_insertOrIgnore
  | some old =>
    dsimp only
    rw [keys_update, or_iff_left_of_imp]
    rintro rfl
    exact mem_keys_iff.mpr (hFind ▸ Option.some_ne_none old)

theorem mem_keys_foldl_upsert {β : Type w} (row : β → ρ) (bs : List β) {k : κ} :
    k ∈ (bs.foldl (fun t b => t.upsert (row b) merge keeps) t).rows.map key ↔ k ∈ t.rows.map key ∨ k ∈ bs.map fun b => key (row b) := by
  induction bs generalizing t with
  | nil => simp
  | cons b bs ih => rw [List.foldl_cons, ih, mem_keys_upsert, List.map_cons, List.mem_cons, or_assoc]

end Upsert

section Delete

theorem mem_keys_delete (p : κ → Bool) {k : κ} :
    k ∈ (t.delete fun r => p (key r)).rows.map key ↔ k ∈ t.rows.map key ∧ p k = false := by
  rw [mem_keys_iff, mem_keys_iff, find_delete]
  cases hFind : t.find k with
  | none => simp
  | some r =>
    rw [Option.filter_some, key_of_find hFind]
    cases p k <;> simp

omit [DecidableEq κ] in
theorem length_delete_le (p : ρ → Bool) : (t.delete p).rows.length ≤ t.rows.length := List.length_filter_le _ _

omit [DecidableEq κ] in
theorem length_delete_take {rs : List ρ} (h : rs.Perm t.rows) (n : Nat) {p : ρ → Bool}
    (hTaken : ∀ r, p r = true ↔ key r ∈ (rs.take n).map key) : (t.delete p).rows.length = t.rows.length - n := by
  have hNodup : ((rs.take n ++ rs.drop n).map key).Nodup := by
    rw [List.take_append_drop]
    exact (h.map key).nodup_iff.mpr t.nodup
  rw [List.map_append] at hNodup
  have hDisjoint := (List.nodup_append'.mp hNodup).2.2
  have hNone : (rs.take n).filter (fun r => !p r) = [] := by
    refine List.filter_eq_nil_iff.mpr fun r hMem => ?_
    rw [(hTaken r).mpr (List.mem_map_of_mem hMem)]
    exact Bool.false_ne_true
  have hAll : (rs.drop n).filter (fun r => !p r) = rs.drop n := by
    refine List.filter_eq_self.mpr fun r hMem => ?_
    have hNot : ¬p r = true := fun hTake => hDisjoint ((hTaken r).mp hTake) (List.mem_map_of_mem hMem)
    rw [(Bool.not_eq_true _).mp hNot]
    rfl
  have hSplit : rs.filter (fun r => !p r) = rs.drop n := by
    rw [← List.take_append_drop n rs, List.filter_append, hNone, hAll, List.nil_append, List.take_append_drop]
  change (t.rows.filter fun r => !p r).length = _
  rw [← (h.filter fun r => !p r).length_eq, hSplit, List.length_drop, h.length_eq]

end Delete

end CommandSuite.Library.Table
