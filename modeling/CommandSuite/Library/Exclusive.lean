import Mathlib.Data.Set.Pairwise.Lattice
import Mathlib.Order.CompletePartialOrder
import Mathlib.Data.List.Nodup

/-! # Names held by one holder at a time

Every holder targets names and has an audience. Two holders of one name have no audience in common,
so nobody meets the name twice.
-/

namespace CommandSuite.Library

universe u v w

variable {ι : Type u} {ν : Type v} {μ : Type w}

/-- The holders of a name have disjoint audiences. -/
def Exclusive (holders : ν → Set ι) (audience : ι → Set μ) : Prop := ∀ name, (holders name).PairwiseDisjoint audience

namespace Exclusive

variable {holders after : ν → Set ι} {audience reach : ι → Set μ}

/-- One holder may change its name or its audience as long as its new rivals do not share the audience. -/
theorem change (h : Exclusive holders audience) (holder : ι)
    (hOthers : ∀ name, ∀ other ∈ after name, other ≠ holder → other ∈ holders name ∧ reach other ⊆ audience other)
    (hRivals : ∀ name, holder ∈ after name → ∀ other ∈ holders name, other ≠ holder → Disjoint (reach holder) (audience other)) :
    Exclusive after reach := by
  intro name first hFirst second hSecond hNe
  change Disjoint (reach first) (reach second)
  by_cases hHolder : first = holder
  · subst hHolder
    obtain ⟨hHeld, hReach⟩ := hOthers name second hSecond hNe.symm
    exact (hRivals name hFirst second hHeld hNe.symm).mono_right hReach
  · obtain ⟨hHeld, hReach⟩ := hOthers name first hFirst hHolder
    by_cases hOther : second = holder
    · subst hOther
      exact ((hRivals name hSecond first hHeld hHolder).mono_right hReach).symm
    · obtain ⟨hHeldToo, hReachToo⟩ := hOthers name second hSecond hOther
      exact (h name hHeld hHeldToo hNe).mono hReach hReachToo

theorem replace (h : Exclusive holders audience) (old new : ι)
    (hOthers : ∀ name, ∀ other ∈ after name, other ≠ new → other ∈ holders name ∧ other ≠ old ∧ reach other ⊆ audience other)
    (hNew : ∀ name, new ∈ after name → old ∈ holders name ∧ reach new ⊆ audience old) : Exclusive after reach := by
  intro name first hFirst second hSecond hNe
  change Disjoint (reach first) (reach second)
  have hMoved : ∀ other ∈ after name, other ≠ new → new ∈ after name → Disjoint (reach new) (reach other) := by
    intro other hOther hDifferent hTaken
    obtain ⟨hHeld, hNotOld, hReach⟩ := hOthers name other hOther hDifferent
    obtain ⟨hOld, hReachNew⟩ := hNew name hTaken
    exact (h name hOld hHeld hNotOld.symm).mono hReachNew hReach
  by_cases hFirstNew : first = new
  · subst hFirstNew
    exact hMoved second hSecond hNe.symm hFirst
  · by_cases hSecondNew : second = new
    · subst hSecondNew
      exact (hMoved first hFirst hFirstNew hSecond).symm
    · obtain ⟨hHeld, _, hReach⟩ := hOthers name first hFirst hFirstNew
      obtain ⟨hHeldToo, _, hReachToo⟩ := hOthers name second hSecond hSecondNew
      exact (h name hHeld hHeldToo hNe).mono hReach hReachToo

theorem length_le_one (h : Exclusive holders audience) (name : ν) (member : μ) {found : List ι} (hFound : found.Nodup)
    (hHolders : ∀ holder ∈ found, holder ∈ holders name) (hMember : ∀ holder ∈ found, member ∈ audience holder) :
    found.length ≤ 1 := by
  match found, hFound, hHolders, hMember with
  | [], _, _, _ => exact Nat.zero_le 1
  | [_], _, _, _ => exact Nat.le_refl 1
  | first :: second :: _, hFound, hHolders, hMember =>
    have hNe : first ≠ second := by
      rintro rfl
      exact (List.nodup_cons.mp hFound).1 List.mem_cons_self
    have hDisjoint := h name (hHolders first List.mem_cons_self) (hHolders second (by simp)) hNe
    exact absurd (hMember second (by simp)) (Set.disjoint_left.mp hDisjoint (hMember first List.mem_cons_self))

end Exclusive

end CommandSuite.Library
