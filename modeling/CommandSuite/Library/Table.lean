import Mathlib.Data.List.Nodup
import Mathlib.Data.List.Perm.Basic

/-! # Tables with a primary key

A table is a list of rows in insertion order whose keys are pairwise distinct. The statements are those of a key-value
store or of a small SQL dialect: insert or ignore, update where, delete where and select where.
-/

namespace CommandSuite.Library

universe u v w

structure Table {ρ : Type u} {κ : Type v} (key : ρ → κ) where
  rows : List ρ
  nodup : (rows.map key).Nodup

namespace Table

variable {ρ : Type u} {κ : Type v} {key : ρ → κ}

def empty : Table key := ⟨[], List.nodup_nil⟩

instance : Inhabited (Table key) := ⟨empty⟩

def select (t : Table key) (p : ρ → Bool) : List ρ := t.rows.filter p

def changes (t : Table key) (p : ρ → Bool) : Nat := (t.select p).length

def update (t : Table key) (p : ρ → Bool) (f : ρ → ρ) (keeps : ∀ r, key (f r) = key r) :
    Table key where
  rows := t.rows.map fun r => if p r then f r else r
  nodup := by
    rw [List.map_map]
    have hKeys : (key ∘ fun r => if p r then f r else r) = key := by
      funext r
      simp only [Function.comp_apply]
      split <;> simp [keeps]
    rw [hKeys]
    exact t.nodup

def delete (t : Table key) (p : ρ → Bool) : Table key where
  rows := t.rows.filter fun r => !p r
  nodup := t.nodup.sublist (List.filter_sublist.map key)

theorem mem_select (t : Table key) (p : ρ → Bool) (r : ρ) : r ∈ t.select p ↔ r ∈ t.rows ∧ p r = true := List.mem_filter

theorem delete_of_none {t : Table key} {p : ρ → Bool} (h : ∀ r ∈ t.rows, p r = false) : t.delete p = t := by
  have hRows : t.rows.filter (fun r => !p r) = t.rows := List.filter_eq_self.mpr fun r hr => by rw [h r hr]; rfl
  cases t
  simp only [delete, hRows]

section Keyed

variable [DecidableEq κ]

def find (t : Table key) (k : κ) : Option ρ := t.rows.find? fun r => key r = k

theorem find_eq_some_iff (t : Table key) (k : κ) (r : ρ) : t.find k = some r ↔ r ∈ t.rows ∧ key r = k := by
  constructor
  · intro h
    exact ⟨List.mem_of_find?_eq_some h, by simpa using List.find?_some h⟩
  · rintro ⟨hMem, hKey⟩
    cases hFind : t.find k with
    | none => simpa [hKey] using List.find?_eq_none.mp hFind r hMem
    | some other =>
      have hOther : key other = k := by simpa using List.find?_some hFind
      rw [List.inj_on_of_nodup_map t.nodup (List.mem_of_find?_eq_some hFind) hMem (hOther.trans hKey.symm)]

theorem find_eq_none_iff (t : Table key) (k : κ) : t.find k = none ↔ ∀ r ∈ t.rows, key r ≠ k := by
  simp [find, List.find?_eq_none]

variable {t : Table key} {k : κ} {r : ρ}

theorem key_of_find (h : t.find k = some r) : key r = k := ((find_eq_some_iff t k r).mp h).2

theorem mem_of_find (h : t.find k = some r) : r ∈ t.rows := ((find_eq_some_iff t k r).mp h).1

theorem find_key (h : r ∈ t.rows) : t.find (key r) = some r := (find_eq_some_iff t (key r) r).mpr ⟨h, rfl⟩

@[simp] theorem find_empty (k : κ) : (empty : Table key).find k = none := rfl

def insertOrIgnore (t : Table key) (r : ρ) : Table key :=
  if h : t.find (key r) = none then
    { rows := t.rows ++ [r]
      nodup := by
        have hFresh := (find_eq_none_iff t (key r)).mp h
        rw [List.map_append, List.map_singleton]
        refine List.nodup_append'.mpr ⟨t.nodup, List.nodup_singleton _, ?_⟩
        simpa using hFresh }
  else t

theorem rows_insertOrIgnore (t : Table key) (r : ρ) :
    (t.insertOrIgnore r).rows = if t.find (key r) = none then t.rows ++ [r] else t.rows := by
  unfold insertOrIgnore
  split <;> rfl

theorem find_insertOrIgnore (t : Table key) (r : ρ) (k : κ) :
    (t.insertOrIgnore r).find k = (t.find k).or (if key r = k then some r else none) := by
  by_cases hFresh : t.find (key r) = none
  · have hRows : (t.insertOrIgnore r).rows = t.rows ++ [r] := by rw [rows_insertOrIgnore, if_pos hFresh]
    rw [find, hRows, List.find?_append, find]
    by_cases h : key r = k <;> simp [h]
  · have hRows : (t.insertOrIgnore r).rows = t.rows := by rw [rows_insertOrIgnore, if_neg hFresh]
    rw [find, hRows, ← find]
    by_cases h : key r = k
    · subst h
      obtain ⟨other, hOther⟩ := Option.ne_none_iff_exists'.mp hFresh
      simp [hOther]
    · simp [h]

theorem find_update (t : Table key) (p : ρ → Bool) (f : ρ → ρ) (keeps : ∀ r, key (f r) = key r) (k : κ) :
    (t.update p f keeps).find k = (t.find k).map fun r => if p r then f r else r := by
  simp only [find, update, List.find?_map]
  congr 2
  funext r
  simp only [Function.comp_apply]
  split <;> simp [keeps]

theorem exists_update_of_find (h : t.find k = some r) (f : ρ → ρ) (keeps : ∀ r, key (f r) = key r) :
    ∃ before after, t.rows = before ++ r :: after ∧ r ∉ before ++ after ∧ (∀ other ∈ before, key other ≠ k) ∧
      (t.update (fun r => key r = k) f keeps).rows = before ++ f r :: after := by
  obtain ⟨hMem, hKey⟩ := (find_eq_some_iff t k r).mp h
  obtain ⟨before, after, hRows⟩ := List.append_of_mem hMem
  have hNodup := t.nodup
  rw [hRows, List.map_append, List.map_cons, List.nodup_middle, ← List.map_append] at hNodup
  have hOthers : ∀ other ∈ before ++ after, key other ≠ k := fun other hOther hSame =>
    (List.nodup_cons.mp hNodup).1 (List.mem_map.mpr ⟨other, hOther, hSame.trans hKey.symm⟩)
  have hSame : ∀ others : List ρ, others ⊆ before ++ after →
      others.map (fun r => if decide (key r = k) = true then f r else r) = others := by
    intro others hSubset
    have hKept : ∀ other ∈ others, (if decide (key other = k) = true then f other else other) = other := fun other hOther =>
      if_neg (by simpa using hOthers other (hSubset hOther))
    exact (List.map_congr_left hKept).trans (List.map_id' others)
  refine ⟨before, after, hRows, fun hAgain => hOthers r hAgain hKey, fun other hOther => hOthers other (List.mem_append_left _ hOther), ?_⟩
  have hReplaced : (if decide (key r = k) = true then f r else r) = f r := if_pos (by simpa using hKey)
  simp only [update, hRows, List.map_append, List.map_cons]
  rw [hSame before (List.subset_append_left _ _), hSame after (List.subset_append_right _ _), hReplaced]

theorem find_delete (t : Table key) (p : ρ → Bool) (k : κ) : (t.delete p).find k = (t.find k).filter fun r => !p r := by
  apply Option.ext
  intro r
  rw [find_eq_some_iff, Option.filter_eq_some_iff, find_eq_some_iff]
  simp only [delete, List.mem_filter]
  tauto

theorem mem_select_iff_find (t : Table key) (p : ρ → Bool) (r : ρ) : r ∈ t.select p ↔ t.find (key r) = some r ∧ p r = true := by
  rw [mem_select, find_eq_some_iff]
  simp

theorem changes_pos_iff (t : Table key) (k : κ) (p : ρ → Bool) :
    0 < t.changes (fun r => decide (key r = k) && p r) ↔ ∃ r, t.find k = some r ∧ p r = true := by
  simp only [changes, List.length_pos_iff_exists_mem, mem_select, find_eq_some_iff, Bool.and_eq_true, decide_eq_true_eq]
  tauto

/-! A statement that names one key splits off the row of that key. -/

theorem select_key (h : t.find k = some r) : (t.select fun r => key r = k) = [r] := by
  obtain ⟨hMem, hKey⟩ := (find_eq_some_iff t k r).mp h
  have hNodup : (t.select fun r => key r = k).Nodup := (List.Nodup.of_map key t.nodup).filter _
  have hOnly : ∀ other, other ∈ t.select (fun r => key r = k) ↔ other = r := by
    intro other
    rw [mem_select, decide_eq_true_eq]
    constructor
    · rintro ⟨hOther, hSame⟩
      exact List.inj_on_of_nodup_map t.nodup hOther hMem (hSame.trans hKey.symm)
    · rintro rfl
      exact ⟨hMem, hKey⟩
  exact List.perm_singleton.mp ((List.perm_ext_iff_of_nodup hNodup (List.nodup_singleton r)).mpr fun other => by
    rw [hOnly, List.mem_singleton])

theorem perm_delete (h : t.find k = some r) : t.rows.Perm (r :: (t.delete fun r => key r = k).rows) := by
  have hSplit := (List.filter_append_perm (fun r => decide (key r = k)) t.rows).symm
  have hOne : t.rows.filter (fun r => decide (key r = k)) = [r] := select_key h
  rw [hOne] at hSplit
  exact hSplit

theorem perm_update (h : t.find k = some r) (f : ρ → ρ) (keeps : ∀ r, key (f r) = key r) :
    (t.update (fun r => key r = k) f keeps).rows.Perm (f r :: (t.delete fun r => key r = k).rows) := by
  have hOthers : (t.delete fun r => key r = k).rows.map (fun r => if decide (key r = k) = true then f r else r) =
      (t.delete fun r => key r = k).rows := by
    refine (List.map_congr_left fun other hOther => ?_).trans (List.map_id _)
    have hNe := (List.mem_filter.mp hOther).2
    rw [if_neg (by simpa using hNe)]
    rfl
  have hMapped := (perm_delete h).map fun r => if decide (key r = k) = true then f r else r
  rw [List.map_cons, hOthers, if_pos (decide_eq_true (key_of_find h))] at hMapped
  exact hMapped

/-! ## Groups -/

theorem nodup_eraseDups (ks : List κ) : ks.eraseDups.Nodup := by
  induction hLength : ks.length using Nat.strongRecOn generalizing ks with
  | ind n ih =>
    cases ks with
    | nil => exact List.nodup_nil
    | cons k ks =>
      rw [List.eraseDups_cons, List.nodup_cons]
      have hShorter : (ks.filter fun other => !other == k).length < n := by
        rw [← hLength, List.length_cons]
        exact Nat.lt_succ_of_le (List.length_filter_le _ _)
      refine ⟨fun hMem => ?_, ih _ hShorter _ rfl⟩
      have hOther := (List.mem_filter.mp (List.mem_eraseDups.mp hMem)).2
      simp at hOther

end Keyed

theorem nodup_groups {γ : Type w} (group : ρ → γ) {rows : List ρ} (hRows : (rows.map key).Nodup) {groups : List γ}
    (hGroups : groups.Nodup) {keys : γ → List κ} (hKeys : ∀ g, (keys g).Nodup)
    (hMem : ∀ g, ∀ k ∈ keys g, ∃ r ∈ rows, group r = g ∧ key r = k) : (groups.flatMap keys).Nodup := by
  refine List.nodup_flatMap.mpr ⟨fun g _ => hKeys g, hGroups.imp fun {first second} hNe => ?_⟩
  intro k hFirst hSecond
  obtain ⟨r, hr, rfl, hKey⟩ := hMem first k hFirst
  obtain ⟨other, hOther, rfl, hOtherKey⟩ := hMem second k hSecond
  exact hNe (congrArg group (List.inj_on_of_nodup_map hRows hr hOther (hKey.trans hOtherKey.symm)))

end Table

end CommandSuite.Library
