import CommandSuite.Library.Tally
import Mathlib.Data.List.Induction

/-! # Maps in insertion order

A map holds one value for a key. Setting a key that is there keeps its place.
-/

namespace CommandSuite.Library

open Table

universe u v w

abbrev KeyedMap (κ : Type u) (ν : Type v) := Table (Prod.fst : κ × ν → κ)

namespace KeyedMap

variable {κ : Type u} {ν : Type v} {ω : Type w} [DecidableEq κ]

def get (m : KeyedMap κ ν) (k : κ) : Option ν := (m.find k).map Prod.snd

def set (m : KeyedMap κ ν) (k : κ) (v : ν) : KeyedMap κ ν := m.upsert (k, v) (fun old new => (old.1, new.2)) fun _ _ => rfl

def remove (m : KeyedMap κ ν) (k : κ) : KeyedMap κ ν := m.delete fun entry => entry.1 = k

omit [DecidableEq κ] in
def values (m : KeyedMap κ ν) : List ν := m.rows.map Prod.snd

@[simp] theorem get_empty (k : κ) : get (empty : KeyedMap κ ν) k = none := rfl

theorem get_eq_some_iff {m : KeyedMap κ ν} {k : κ} {v : ν} : get m k = some v ↔ (k, v) ∈ m.rows := by
  unfold get
  rw [Option.map_eq_some_iff]
  constructor
  · rintro ⟨⟨k', v'⟩, hFind, rfl⟩
    obtain ⟨hMem, rfl⟩ := (find_eq_some_iff m k _).mp hFind
    exact hMem
  · exact fun hMem => ⟨(k, v), (find_eq_some_iff m k _).mpr ⟨hMem, rfl⟩, rfl⟩

theorem get_set (m : KeyedMap κ ν) (k k' : κ) (v : ν) : get (set m k v) k' = if k = k' then some v else get m k' := by
  unfold get set upsert
  cases hFind : m.find k with
  | none =>
    dsimp only
    rw [find_insertOrIgnore]
    by_cases hKey : k = k'
    · subst hKey
      rw [hFind, if_pos rfl, if_pos rfl]
      rfl
    · rw [if_neg hKey, if_neg hKey, Option.or_none]
  | some entry =>
    dsimp only
    rw [find_update]
    by_cases hKey : k = k'
    · subst hKey
      rw [hFind, if_pos rfl, Option.map_some, Option.map_some, if_pos (decide_eq_true (key_of_find hFind))]
    · rw [if_neg hKey]
      cases hOther : m.find k' with
      | none => rfl
      | some other =>
        have hApart : other.1 ≠ k := fun hSame => hKey (hSame.symm.trans (key_of_find hOther))
        rw [Option.map_some, if_neg (by simpa using hApart)]

theorem get_remove (m : KeyedMap κ ν) (k k' : κ) : get (remove m k) k' = if k = k' then none else get m k' := by
  unfold get remove
  rw [find_delete]
  cases hFind : m.find k' with
  | none => simp
  | some entry =>
    have hKey : entry.1 = k' := key_of_find hFind
    rw [Option.filter_some, hKey]
    by_cases hSame : k = k'
    · simp [hSame]
    · simp [hSame, Ne.symm hSame]

/-- A step that changes what is held for one key. -/
def SetsOne (step : KeyedMap κ ω → κ × ν → KeyedMap κ ω) (value : Option ω → ν → Option ω) : Prop :=
  ∀ m entry k, get (step m entry) k = if entry.1 = k then value (get m k) entry.2 else get m k

variable {step : KeyedMap κ ω → κ × ν → KeyedMap κ ω} {value : Option ω → ν → Option ω}

theorem get_foldl_of_not_mem (hStep : SetsOne step value)
    {entries : List (κ × ν)} {k : κ} (h : k ∉ entries.map Prod.fst) (m : KeyedMap κ ω) : get (entries.foldl step m) k = get m k := by
  induction entries generalizing m with
  | nil => rfl
  | cons entry entries ih =>
    rw [List.map_cons, List.mem_cons, not_or] at h
    rw [List.foldl_cons, ih h.2, hStep, if_neg (Ne.symm h.1)]

theorem get_foldl_rows (hStep : SetsOne step value) (entries : KeyedMap κ ν) (m : KeyedMap κ ω) (k : κ) :
    get (entries.rows.foldl step m) k = match get entries k with | none => get m k | some v => value (get m k) v := by
  cases hGet : get entries k with
  | none =>
    refine get_foldl_of_not_mem hStep (fun hMem => ?_) m
    obtain ⟨⟨_, v⟩, hEntry, rfl⟩ := List.mem_map.mp hMem
    rw [get_eq_some_iff.mpr hEntry] at hGet
    cases hGet
  | some v =>
    obtain ⟨before, after, hRows⟩ := List.append_of_mem (get_eq_some_iff.mp hGet)
    have hNodup := entries.nodup
    rw [hRows, List.map_append, List.map_cons, List.nodup_middle, List.nodup_cons, List.mem_append, not_or] at hNodup
    rw [hRows, List.foldl_append, List.foldl_cons, get_foldl_of_not_mem hStep hNodup.1.2, hStep, if_pos rfl,
      get_foldl_of_not_mem hStep hNodup.1.1]

def group {α : Type w} (key : α → κ) (xs : List α) : KeyedMap κ (List α) :=
  xs.foldl (fun m x => set m (key x) ((get m (key x)).getD [] ++ [x])) empty

theorem get_group {α : Type w} (key : α → κ) (xs : List α) (k : κ) :
    get (group key xs) k = if (xs.filter fun x => key x = k) = [] then none else some (xs.filter fun x => key x = k) := by
  induction xs using List.reverseRecOn generalizing k with
  | nil => rfl
  | append_singleton xs x ih =>
    have hLast : group key (xs ++ [x]) = set (group key xs) (key x) ((get (group key xs) (key x)).getD [] ++ [x]) :=
      List.foldl_append
    rw [hLast, get_set, List.filter_append]
    by_cases hKey : key x = k
    · subst hKey
      have hHeld : (get (group key xs) (key x)).getD [] = xs.filter fun other => key other = key x := by
        rw [ih]
        split
        · rename_i hNone
          rw [hNone]
          rfl
        · rfl
      rw [if_pos rfl, hHeld]
      simp
    · rw [if_neg hKey, ih]
      simp [hKey]

end KeyedMap

end CommandSuite.Library
