import Mathlib.Data.List.Basic

/-! # The first row of a name

Rows in order, each with a name, some of them live.
-/

namespace CommandSuite.Library.FirstOfName

universe u v

variable {ρ : Type u} {ν : Type v} (name : ρ → ν) (live : ρ → Bool)

def lookup [DecidableEq ν] (rows : List ρ) (n : ν) : Option ρ := rows.find? fun row => name row = n

/-- Every live row is what its name finds. -/
def Resolves [DecidableEq ν] (rows : List ρ) : Prop := ∀ row ∈ rows, live row = true → lookup name rows (name row) = some row

/-- No two live rows have the same name. -/
def Distinct (rows : List ρ) : Prop := ∀ a ∈ rows, ∀ b ∈ rows, live a = true → live b = true → name a = name b → a = b

variable {name live} {before after : List ρ} {row : ρ}

theorem Distinct.mono {rows rows' : List ρ} (h : Distinct name live rows) (hSubset : rows' ⊆ rows) : Distinct name live rows' :=
  fun a ha b hb => h a (hSubset ha) b (hSubset hb)

theorem Distinct.insert (h : Distinct name live (before ++ after))
    (hOthers : live row = true → ∀ other ∈ before ++ after, live other = true → name other ≠ name row) :
    Distinct name live (before ++ row :: after) := by
  have hCases : ∀ other ∈ before ++ row :: after, other = row ∨ other ∈ before ++ after := by
    intro other hOther
    simp only [List.mem_append, List.mem_cons] at hOther ⊢
    tauto
  intro a ha b hb hLiveA hLiveB hName
  obtain rfl | hOldA := hCases a ha
  · obtain rfl | hOldB := hCases b hb
    · rfl
    · exact absurd hName.symm (hOthers hLiveA b hOldB hLiveB)
  · obtain rfl | hOldB := hCases b hb
    · exact absurd hName (hOthers hLiveB a hOldA hLiveA)
    · exact h a hOldA b hOldB hLiveA hLiveB hName

variable [DecidableEq ν]

theorem lookup_append (first second : List ρ) (n : ν) :
    lookup name (first ++ second) n = (lookup name first n).or (lookup name second n) := List.find?_append

theorem lookup_eq_none_iff {rows : List ρ} {n : ν} : lookup name rows n = none ↔ ∀ row ∈ rows, name row ≠ n := by
  simp [lookup, List.find?_eq_none]

theorem lookup_cons (row : ρ) (rows : List ρ) (n : ν) :
    lookup name (row :: rows) n = if name row = n then some row else lookup name rows n := by
  by_cases h : name row = n <;> simp [lookup, h]

theorem name_of_lookup {rows : List ρ} {n : ν} {row : ρ} (h : lookup name rows n = some row) : name row = n := by
  simpa [lookup] using List.find?_some h

theorem Resolves.distinct {rows : List ρ} (h : Resolves name live rows) : Distinct name live rows := by
  intro a ha b hb hLiveA hLiveB hName
  have hFirst := h a ha hLiveA
  rw [hName, h b hb hLiveB] at hFirst
  exact (Option.some.inj hFirst).symm

theorem Resolves.erase (h : Resolves name live (before ++ row :: after)) (hOnce : row ∉ before ++ after) :
    Resolves name live (before ++ after) := by
  intro other hOther hLive
  have hFound := h other (by simp only [List.mem_append, List.mem_cons] at hOther ⊢; tauto) hLive
  rw [lookup_append, lookup_cons] at hFound
  rw [lookup_append]
  by_cases hName : name row = name other
  · rw [if_pos hName] at hFound
    cases hBefore : lookup name before (name other) with
    | some found => simpa [hBefore] using hFound
    | none =>
      rw [hBefore, Option.none_or] at hFound
      exact absurd (Option.some.inj hFound ▸ hOther) hOnce
  · rwa [if_neg hName] at hFound

theorem Resolves.insert_dead (h : Resolves name live (before ++ after)) (row : ρ) (hDead : live row = false)
    (hOthers : ∀ other ∈ before ++ after, live other = true → name other ≠ name row) :
    Resolves name live (before ++ row :: after) := by
  intro other hOther hLive
  have hOld : other ∈ before ++ after := by
    obtain hBefore | hAfter := List.mem_append.mp hOther
    · exact List.mem_append_left _ hBefore
    · obtain rfl | hAfter := List.mem_cons.mp hAfter
      · rw [hDead] at hLive
        cases hLive
      · exact List.mem_append_right _ hAfter
  have hFound := h other hOld hLive
  rw [lookup_append] at hFound
  rw [lookup_append, lookup_cons, if_neg fun hName => hOthers other hOld hLive hName.symm, hFound]

theorem Resolves.insert_live_iff (h : Resolves name live (before ++ after)) (row : ρ) (hLive : live row = true)
    (hOthers : ∀ other ∈ before ++ after, live other = true → name other ≠ name row) :
    Resolves name live (before ++ row :: after) ↔ ∀ other ∈ before, name other ≠ name row := by
  rw [← lookup_eq_none_iff]
  constructor
  · intro hResolves
    have hFound := hResolves row (by simp) hLive
    rw [lookup_append, lookup_cons, if_pos rfl] at hFound
    cases hBefore : lookup name before (name row) with
    | none => rfl
    | some other =>
      rw [hBefore, Option.some_or] at hFound
      obtain rfl := Option.some.inj hFound
      have hMem : other ∈ before := List.mem_of_find?_eq_some hBefore
      exact absurd rfl (hOthers other (List.mem_append_left _ hMem) hLive)
  · intro hFree other hOther hOtherLive
    obtain hBefore | hAfter := List.mem_append.mp hOther
    · have hFound := h other (List.mem_append_left _ hBefore) hOtherLive
      rw [lookup_append] at hFound
      rw [lookup_append, lookup_cons,
        if_neg fun hName => hOthers other (List.mem_append_left _ hBefore) hOtherLive hName.symm, hFound]
    · obtain rfl | hAfter := List.mem_cons.mp hAfter
      · rw [lookup_append, hFree, Option.none_or, lookup_cons, if_pos rfl]
      · have hFound := h other (List.mem_append_right _ hAfter) hOtherLive
        rw [lookup_append] at hFound
        rw [lookup_append, lookup_cons,
          if_neg fun hName => hOthers other (List.mem_append_right _ hAfter) hOtherLive hName.symm, hFound]

end CommandSuite.Library.FirstOfName
