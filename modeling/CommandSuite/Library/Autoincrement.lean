import Mathlib.Data.List.Nodup

/-! # Tables with an automatic key

The key of a new row is the next number of a sequence.
-/

namespace CommandSuite.Library

universe u

structure Autoincrement {ρ : Type u} (key : ρ → Nat) where
  rows : List ρ
  /-- The largest number that was given out. -/
  sequence : Nat
  ascending : rows.Pairwise fun a b => key a < key b
  given : ∀ row ∈ rows, key row ≤ sequence

namespace Autoincrement

variable {ρ : Type u} {key : ρ → Nat}

def empty : Autoincrement key := ⟨[], 0, .nil, by simp⟩

def insert (table : Autoincrement key) (make : Nat → ρ) (keyed : ∀ n, key (make n) = n) : Autoincrement key where
  rows := table.rows ++ [make (table.sequence + 1)]
  sequence := table.sequence + 1
  ascending := by
    refine List.pairwise_append.mpr ⟨table.ascending, List.pairwise_singleton _ _, ?_⟩
    intro row hRow other hOther
    rw [List.mem_singleton.mp hOther, keyed]
    exact Nat.lt_succ_of_le (table.given row hRow)
  given := by
    intro row hRow
    rcases List.mem_append.mp hRow with hOld | hNew
    · exact Nat.le_succ_of_le (table.given row hOld)
    · exact Nat.le_of_eq ((congrArg key (List.mem_singleton.mp hNew)).trans (keyed _))

def pass (table : Autoincrement key) : Autoincrement key :=
  { table with
    sequence := table.sequence + 1
    given := fun row hRow => Nat.le_succ_of_le (table.given row hRow) }

def delete (table : Autoincrement key) (p : ρ → Bool) : Autoincrement key where
  rows := table.rows.filter fun row => !p row
  sequence := table.sequence
  ascending := table.ascending.filter _
  given row hRow := table.given row (List.mem_filter.mp hRow).1

def update (table : Autoincrement key) (p : ρ → Bool) (f : ρ → ρ) (keeps : ∀ row, key (f row) = key row) : Autoincrement key where
  rows := table.rows.map fun row => if p row then f row else row
  sequence := table.sequence
  ascending := by
    refine List.pairwise_map.mpr (table.ascending.imp fun {a b} h => ?_)
    have hKey (row : ρ) : key (if p row then f row else row) = key row := by split <;> simp [keeps]
    rwa [hKey, hKey]
  given := by
    intro row hRow
    obtain ⟨old, hOld, rfl⟩ := List.mem_map.mp hRow
    have hGiven := table.given old hOld
    split
    · rwa [keeps]
    · exact hGiven

def select (table : Autoincrement key) (p : ρ → Bool) : List ρ := table.rows.filter p

def changes (table : Autoincrement key) (p : ρ → Bool) : Nat := (table.select p).length

variable (table : Autoincrement key)

@[simp] theorem rows_insert (make : Nat → ρ) (keyed : ∀ n, key (make n) = n) :
    (table.insert make keyed).rows = table.rows ++ [make (table.sequence + 1)] := rfl

@[simp] theorem sequence_insert (make : Nat → ρ) (keyed : ∀ n, key (make n) = n) :
    (table.insert make keyed).sequence = table.sequence + 1 := rfl

@[simp] theorem rows_pass : table.pass.rows = table.rows := rfl

@[simp] theorem sequence_pass : table.pass.sequence = table.sequence + 1 := rfl

theorem mem_of_mem_select {p : ρ → Bool} {row : ρ} (h : row ∈ table.select p) : row ∈ table.rows := (List.mem_filter.mp h).1

theorem keys_nodup : (table.rows.map key).Nodup := List.pairwise_map.mpr (table.ascending.imp Nat.ne_of_lt)

theorem eq_of_key_eq {a b : ρ} (ha : a ∈ table.rows) (hb : b ∈ table.rows) (h : key a = key b) : a = b :=
  List.inj_on_of_nodup_map table.keys_nodup ha hb h

/-! ## Later tables -/

/-- A later table: beside rows with new keys, it has rows that were there, with what `column` says of them. -/
structure Follows {α : Type u} (column : ρ → α) (before after : Autoincrement key) : Prop where
  sequence : before.sequence ≤ after.sequence
  rows : ∀ row ∈ after.rows, before.sequence < key row ∨ ∃ old ∈ before.rows, key old = key row ∧ column old = column row

namespace Follows

variable {α : Type u} {column : ρ → α} {before middle after : Autoincrement key}

theorem refl (table : Autoincrement key) : table.Follows column table := ⟨Nat.le_refl _, fun row hRow => .inr ⟨row, hRow, rfl, rfl⟩⟩

theorem trans (hFirst : before.Follows column middle) (hSecond : middle.Follows column after) : before.Follows column after := by
  constructor
  · exact Nat.le_trans hFirst.sequence hSecond.sequence
  · intro row hRow
    obtain hNew | ⟨old, hOld, hKey, hColumn⟩ := hSecond.rows row hRow
    · exact .inl (Nat.lt_of_le_of_lt hFirst.sequence hNew)
    · rw [← hKey, ← hColumn]
      exact hFirst.rows old hOld

theorem insert (table : Autoincrement key) (make : Nat → ρ) (keyed : ∀ n, key (make n) = n) : table.Follows column (table.insert make keyed) := by
  constructor
  · exact Nat.le_succ _
  · intro row hRow
    obtain hOld | hNew := List.mem_append.mp hRow
    · exact .inr ⟨row, hOld, rfl, rfl⟩
    · rw [List.mem_singleton.mp hNew, keyed]
      exact .inl (Nat.lt_succ_self _)

theorem delete (table : Autoincrement key) (p : ρ → Bool) : table.Follows column (table.delete p) := by
  constructor
  · exact Nat.le_refl _
  · intro row hRow
    exact .inr ⟨row, (List.mem_filter.mp hRow).1, rfl, rfl⟩

theorem update (table : Autoincrement key) (p : ρ → Bool) {f : ρ → ρ} (keeps : ∀ row, key (f row) = key row)
    (hColumn : ∀ row, column (f row) = column row) : table.Follows column (table.update p f keeps) := by
  constructor
  · exact Nat.le_refl _
  · intro row hRow
    obtain ⟨old, hOld, rfl⟩ := List.mem_map.mp hRow
    refine .inr ⟨old, hOld, ?_⟩
    split
    · exact ⟨(keeps old).symm, (hColumn old).symm⟩
    · exact ⟨rfl, rfl⟩

end Follows

end Autoincrement

end CommandSuite.Library
