import Mathlib.Data.List.Nodup

/-! # The first of each key

A scan that keeps an element when it has no key, or a key that is neither known nor among those of
the elements before it.
-/

namespace CommandSuite.Library.FirstSeen

universe u v w

variable {α : Type u} {β : Type v} {κ : Type w} [DecidableEq κ] (key : α → Option κ)

def firsts : (κ → Bool) → List α → List α
  | _, [] => []
  | known, a :: as =>
    match key a with
    | none => a :: firsts known as
    | some k => if known k then firsts known as else a :: firsts (fun other => known other || other = k) as

variable {a : α}

theorem firsts_cons_none (h : key a = none) (known : κ → Bool) (as : List α) :
    firsts key known (a :: as) = a :: firsts key known as := by
  rw [firsts, h]

variable {k : κ} {known : κ → Bool}

theorem firsts_cons_known (h : key a = some k) (hKnown : known k = true) (as : List α) :
    firsts key known (a :: as) = firsts key known as := by
  rw [firsts, h]
  exact if_pos hKnown

theorem firsts_cons_new (h : key a = some k) (hNew : known k = false) (as : List α) :
    firsts key known (a :: as) = a :: firsts key (fun other => known other || other = k) as := by
  rw [firsts, h]
  exact if_neg (by simp [hNew])

theorem firsts_cases (known : κ → Bool) (a : α) :
    (key a = none ∧ ∀ as, firsts key known (a :: as) = a :: firsts key known as) ∨
      (∃ k, key a = some k ∧ known k = true ∧ ∀ as, firsts key known (a :: as) = firsts key known as) ∨
        ∃ k, key a = some k ∧ known k = false ∧
          ∀ as, firsts key known (a :: as) = a :: firsts key (fun other => known other || other = k) as := by
  cases hKey : key a with
  | none => exact .inl ⟨rfl, firsts_cons_none _ hKey known⟩
  | some k =>
    cases hKnown : known k with
    | true => exact .inr (.inl ⟨k, rfl, hKnown, firsts_cons_known _ hKey hKnown⟩)
    | false => exact .inr (.inr ⟨k, rfl, hKnown, firsts_cons_new _ hKey hKnown⟩)

theorem firsts_sublist (known : κ → Bool) (as : List α) : (firsts key known as).Sublist as := by
  induction as generalizing known with
  | nil => exact List.Sublist.refl _
  | cons a as ih =>
    rcases firsts_cases key known a with ⟨_, h⟩ | ⟨k, _, _, h⟩ | ⟨k, _, _, h⟩
    · rw [h]
      exact (ih known).cons_cons a
    · rw [h]
      exact (ih known).cons a
    · rw [h]
      exact (ih _).cons_cons a

theorem firsts_map (f : β → α) (known : κ → Bool) (bs : List β) :
    (firsts (fun b => key (f b)) known bs).map f = firsts key known (bs.map f) := by
  induction bs generalizing known with
  | nil => rfl
  | cons b bs ih =>
    rcases firsts_cases key known (f b) with ⟨hKey, h⟩ | ⟨k, hKey, hKnown, h⟩ | ⟨k, hKey, hKnown, h⟩
    · rw [List.map_cons, h, firsts_cons_none (fun b => key (f b)) hKey, List.map_cons, ih]
    · rw [List.map_cons, h, firsts_cons_known (fun b => key (f b)) hKey hKnown, ih]
    · rw [List.map_cons, h, firsts_cons_new (fun b => key (f b)) hKey hKnown, List.map_cons, ih]

theorem filter_none_firsts (known : κ → Bool) (as : List α) :
    (firsts key known as).filter (fun a => key a = none) = as.filter fun a => key a = none := by
  induction as generalizing known with
  | nil => rfl
  | cons a as ih =>
    rcases firsts_cases key known a with ⟨hKey, h⟩ | ⟨k, hKey, _, h⟩ | ⟨k, hKey, _, h⟩
    · rw [h, List.filter_cons, List.filter_cons, ih]
    · rw [h, List.filter_cons, ih, if_neg (by simp [hKey])]
    · rw [h, List.filter_cons, List.filter_cons, ih]

theorem keys_firsts (known : κ → Bool) (as : List α) :
    ((firsts key known as).filterMap key).Nodup ∧ ∀ k ∈ (firsts key known as).filterMap key, known k = false := by
  induction as generalizing known with
  | nil => simp [firsts]
  | cons a as ih =>
    rcases firsts_cases key known a with ⟨hKey, h⟩ | ⟨k, hKey, _, h⟩ | ⟨k, hKey, hNew, h⟩
    · rw [h, List.filterMap_cons_none hKey]
      exact ih known
    · rw [h]
      exact ih known
    · rw [h, List.filterMap_cons_some hKey]
      obtain ⟨hNodup, hFresh⟩ := ih fun other => known other || other = k
      have hBoth : ∀ other ∈ (firsts key (fun other => known other || other = k) as).filterMap key,
          known other = false ∧ other ≠ k := by
        intro other hOther
        simpa using hFresh other hOther
      refine ⟨List.nodup_cons.mpr ⟨fun hMem => (hBoth k hMem).2 rfl, hNodup⟩, ?_⟩
      exact List.forall_mem_cons.mpr ⟨hNew, fun other hOther => (hBoth other hOther).1⟩

theorem known_or_kept (known : κ → Bool) {as : List α} (hMem : a ∈ as) (hKey : key a = some k) :
    known k = true ∨ k ∈ (firsts key known as).filterMap key := by
  induction as generalizing known with
  | nil => cases hMem
  | cons b as ih =>
    rcases firsts_cases key known b with ⟨hNone, h⟩ | ⟨k', hSome, hKnown, h⟩ | ⟨k', hSome, hNew, h⟩
    · rw [h, List.filterMap_cons_none hNone]
      rcases List.mem_cons.mp hMem with rfl | hLater
      · rw [hKey] at hNone
        cases hNone
      · exact ih known hLater
    · rw [h]
      rcases List.mem_cons.mp hMem with rfl | hLater
      · rw [hKey] at hSome
        cases hSome
        exact .inl hKnown
      · exact ih known hLater
    · rw [h, List.filterMap_cons_some hSome]
      rcases List.mem_cons.mp hMem with rfl | hLater
      · rw [hKey] at hSome
        cases hSome
        exact .inr List.mem_cons_self
      · rcases ih (fun other => known other || other = k') hLater with hKnown | hKept
        · rcases Bool.or_eq_true _ _ ▸ hKnown with hOld | hSame
          · exact .inl hOld
          · exact .inr (of_decide_eq_true hSame ▸ List.mem_cons_self)
        · exact .inr (List.mem_cons_of_mem k' hKept)

end CommandSuite.Library.FirstSeen
