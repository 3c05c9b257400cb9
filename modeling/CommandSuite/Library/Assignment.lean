import Mathlib.Data.List.Perm.Basic

/-! # Assigning elements to places

An element goes to a place than which no other is nearer. The elements of all places together are the elements again.
-/

namespace CommandSuite.Library.Assignment

universe u v w

section Nearest

variable {α : Type u} {β : Type v} (measure : α → Option β) (nearer : β → β → Bool)

def challenge (best : Option (α × β)) (place : α) : Option (α × β) :=
  match measure place, best with
  | none, best => best
  | some distance, none => some (place, distance)
  | some distance, some held => if nearer distance held.2 then some (place, distance) else some held

def nearest (places : List α) : Option (α × β) := places.foldl (challenge measure nearer) none

structure Best (seen : List α) (best : α × β) : Prop where
  mem : best.1 ∈ seen
  measured : measure best.1 = some best.2
  least : ∀ place ∈ seen, ∀ distance, measure place = some distance → nearer distance best.2 = false

variable {measure nearer}

section Seen

variable {seen : List α} {place : α}

theorem Best.keeps {held : α × β} (h : Best measure nearer seen held)
    (hPlace : ∀ distance, measure place = some distance → nearer distance held.2 = false) :
    Best measure nearer (seen ++ [place]) held := by
  refine ⟨List.mem_append_left _ h.mem, h.measured, fun other hOther => ?_⟩
  obtain hSeen | hSeen := List.mem_append.mp hOther
  · exact h.least other hSeen
  · rwa [List.mem_singleton.mp hSeen]

theorem best_of_last (hIrrefl : ∀ a, nearer a a = false) {distance : β} (hMeasure : measure place = some distance)
    (hSeen : ∀ other ∈ seen, ∀ otherDistance, measure other = some otherDistance → nearer otherDistance distance = false) :
    Best measure nearer (seen ++ [place]) (place, distance) := by
  refine ⟨List.mem_append_right _ List.mem_cons_self, hMeasure, fun other hOther otherDistance hOtherDistance => ?_⟩
  obtain hOld | hLast := List.mem_append.mp hOther
  · exact hSeen other hOld otherDistance hOtherDistance
  · rw [List.mem_singleton.mp hLast, hMeasure] at hOtherDistance
    rw [← Option.some.inj hOtherDistance]
    exact hIrrefl distance

structure Leads (measure : α → Option β) (nearer : β → β → Bool) (seen : List α) (best : Option (α × β)) : Prop where
  isBest : ∀ held, best = some held → Best measure nearer seen held
  unmeasured : best = none → ∀ place ∈ seen, measure place = none

theorem leads_some {held : α × β} (h : Best measure nearer seen held) : Leads measure nearer seen (some held) :=
  ⟨fun _ hHeld => Option.some.inj hHeld ▸ h, nofun⟩

theorem Leads.challenge (hTrans : ∀ a b c, nearer a b = true → nearer b c = true → nearer a c = true)
    (hIrrefl : ∀ a, nearer a a = false) {best : Option (α × β)} (h : Leads measure nearer seen best) (place : α) :
    Leads measure nearer (seen ++ [place]) (challenge measure nearer best place) := by
  cases hMeasure : measure place with
  | none =>
    have hSame : Assignment.challenge measure nearer best place = best := by simp only [Assignment.challenge, hMeasure]
    rw [hSame]
    refine ⟨fun held hHeld => (h.isBest held hHeld).keeps fun distance hDistance => ?_, fun hBest other hOther => ?_⟩
    · rw [hMeasure] at hDistance
      cases hDistance
    · obtain hSeen | hSeen := List.mem_append.mp hOther
      · exact h.unmeasured hBest other hSeen
      · rw [List.mem_singleton.mp hSeen, hMeasure]
  | some distance =>
    cases best with
    | none =>
      have hTakes : Assignment.challenge measure nearer none place = some (place, distance) := by
        simp only [Assignment.challenge, hMeasure]
      rw [hTakes]
      refine leads_some (best_of_last hIrrefl hMeasure fun other hOther otherDistance hDistance => ?_)
      rw [h.unmeasured rfl other hOther] at hDistance
      cases hDistance
    | some old =>
      have hOld := h.isBest old rfl
      have hChallenge : Assignment.challenge measure nearer (some old) place =
          if nearer distance old.2 then some (place, distance) else some old := by
        simp only [Assignment.challenge, hMeasure]
      rw [hChallenge]
      split
      · rename_i hNearer
        refine leads_some (best_of_last hIrrefl hMeasure fun other hOther otherDistance hDistance => ?_)
        refine Bool.eq_false_iff.mpr fun hCloser => ?_
        have hOldCloser := hTrans _ _ _ hCloser hNearer
        rw [hOld.least other hOther otherDistance hDistance] at hOldCloser
        cases hOldCloser
      · rename_i hNearer
        refine leads_some (hOld.keeps fun other hOther => ?_)
        rw [hMeasure] at hOther
        rw [← Option.some.inj hOther]
        exact Bool.eq_false_iff.mpr hNearer

end Seen

theorem best_of_nearest (hTrans : ∀ a b c, nearer a b = true → nearer b c = true → nearer a c = true)
    (hIrrefl : ∀ a, nearer a a = false) {places : List α} {held : α × β} (h : nearest measure nearer places = some held) :
    Best measure nearer places held := by
  have hFold : ∀ (rest seen : List α) (best : Option (α × β)), Leads measure nearer seen best →
      Leads measure nearer (seen ++ rest) (rest.foldl (challenge measure nearer) best) := by
    intro rest
    induction rest with
    | nil =>
      intro seen best hBest
      rw [List.append_nil]
      exact hBest
    | cons place rest ih =>
      intro seen best hBest
      rw [List.append_cons]
      exact ih (seen ++ [place]) _ (hBest.challenge hTrans hIrrefl place)
  exact (hFold places [] none ⟨nofun, nofun⟩).isBest held h

end Nearest

section Fibers

variable {α : Type u} {κ : Type w} [DecidableEq κ]

theorem flatMap_filter_perm (place : α → κ) {keys : List κ} (hKeys : keys.Nodup) {xs : List α} (hCovers : ∀ x ∈ xs, place x ∈ keys) :
    (keys.flatMap fun key => xs.filter fun x => place x = key).Perm xs := by
  induction keys generalizing xs with
  | nil =>
    cases xs with
    | nil => exact .nil
    | cons x xs => exact absurd (hCovers x List.mem_cons_self) List.not_mem_nil
  | cons key keys ih =>
    obtain ⟨hKey, hRest⟩ := List.nodup_cons.mp hKeys
    have hOthers : ∀ x ∈ xs.filter (fun x => !decide (place x = key)), place x ∈ keys := by
      intro x hX
      obtain ⟨hMem, hOther⟩ := List.mem_filter.mp hX
      rw [Bool.not_eq_true', decide_eq_false_iff_not] at hOther
      exact (List.mem_cons.mp (hCovers x hMem)).resolve_left hOther
    have hParts : (keys.flatMap fun other => xs.filter fun x => place x = other) =
        keys.flatMap fun other => (xs.filter fun x => !decide (place x = key)).filter fun x => place x = other := by
      refine List.flatMap_congr fun other hOther => ?_
      rw [List.filter_filter]
      refine List.filter_congr fun x _ => ?_
      rw [eq_comm, Bool.and_eq_left_iff_imp, decide_eq_true_eq, Bool.not_eq_true', decide_eq_false_iff_not]
      rintro rfl rfl
      exact hKey hOther
    rw [List.flatMap_cons, hParts]
    exact ((ih hRest hOthers).append_left _).trans (List.filter_append_perm _ xs)

end Fibers

end CommandSuite.Library.Assignment
