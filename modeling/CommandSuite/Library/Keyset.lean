import Mathlib.Data.List.Sort

/-! # Pages behind a key

A page holds the rows with the greatest keys below a bound, up to a limit; the next bound is the key of its last row.
-/

namespace CommandSuite.Library.Keyset

universe u v

variable {α : Type u} {κ : Type v} [LinearOrder κ] (key : α → κ) (rows : List α) (limit : Nat)

def below (bound : κ) : List α := rows.filter fun row => key row < bound

/-- The first rows of the answer, in an order that the keys allow. -/
def IsPage (bound : κ) (page : List α) : Prop :=
  ∃ sorted : List α, sorted.Perm (below key rows bound) ∧ sorted.Pairwise (fun row next => key next ≤ key row) ∧
    page = sorted.take limit

def walk (page : κ → List α) : Nat → κ → List α
  | 0, _ => []
  | steps + 1, bound =>
    match (page bound).getLast? with
    | none => []
    | some last => page bound ++ walk page steps (key last)

/-- No page ends between two rows of one key. -/
def Unsplit (keys : List κ) : Prop :=
  ∀ pages, ∀ newer ∈ keys.take (pages * limit), ∀ older ∈ keys.drop (pages * limit), older < newer

variable {key rows limit}

theorem below_below {bound earlier : κ} (h : earlier ≤ bound) : below key (below key rows bound) earlier = below key rows earlier := by
  rw [below, below, below, List.filter_filter]
  refine List.filter_congr fun row _ => ?_
  rw [Bool.eq_iff_iff, Bool.and_eq_true, decide_eq_true_eq, decide_eq_true_eq]
  exact and_iff_left_of_imp fun hRow => hRow.trans_le h

theorem unsplit_iff (keys : List κ) : Unsplit limit keys ↔
    (∀ newer ∈ keys.take limit, ∀ older ∈ keys.drop limit, older < newer) ∧ Unsplit limit (keys.drop limit) := by
  have hTake : ∀ pages, keys.take ((pages + 1) * limit) = keys.take limit ++ (keys.drop limit).take (pages * limit) := fun pages => by
    rw [Nat.succ_mul, Nat.add_comm, List.take_add]
  have hDrop : ∀ pages, keys.drop ((pages + 1) * limit) = (keys.drop limit).drop (pages * limit) := fun pages => by
    rw [Nat.succ_mul, Nat.add_comm, List.drop_drop]
  constructor
  · intro h
    refine ⟨fun newer hNewer older hOlder => ?_, fun pages newer hNewer older hOlder => ?_⟩
    · have hFirst := h 1 newer
      rw [Nat.one_mul] at hFirst
      exact hFirst hNewer older hOlder
    · refine h (pages + 1) newer ?_ older ?_
      · rw [hTake pages]
        exact List.mem_append_right _ hNewer
      · rwa [hDrop pages]
  · rintro ⟨hCross, hRest⟩ pages newer hNewer older hOlder
    cases pages with
    | zero => simp at hNewer
    | succ pages =>
      rw [hTake pages, List.mem_append] at hNewer
      rw [hDrop pages] at hOlder
      obtain hNewer | hNewer := hNewer
      · exact hCross newer hNewer older (List.mem_of_mem_drop hOlder)
      · exact hRest pages newer hNewer older hOlder

theorem insertionSort_keys {sorted answer : List α} (hPerm : sorted.Perm answer)
    (hSorted : sorted.Pairwise fun row next => key next ≤ key row) : (answer.map key).insertionSort (· ≥ ·) = sorted.map key := by
  have hKeys : ((answer.map key).insertionSort (· ≥ ·)).Perm (sorted.map key) :=
    (List.perm_insertionSort _ _).trans (hPerm.symm.map key)
  refine List.Perm.eq_of_pairwise (fun newer older _ _ hNewer hOlder => le_antisymm hOlder hNewer)
    (List.pairwise_insertionSort _ _) ?_ hKeys
  exact List.pairwise_map.mpr hSorted

/-! ## Rows of different keys -/

theorem below_last (hRows : rows.Pairwise fun newer older => key older < key newer) {n : Nat} {last : α}
    (hLast : (rows.take n).getLast? = some last) : below key rows (key last) = rows.drop n := by
  have hSplit : rows.take n ++ rows.drop n = rows := List.take_append_drop n rows
  have hParts := hRows
  rw [← hSplit] at hParts
  obtain ⟨hFirst, -, hCross⟩ := List.pairwise_append.mp hParts
  have hMem := List.mem_of_getLast? hLast
  have hNone : below key (rows.take n) (key last) = [] := by
    refine List.filter_eq_nil_iff.mpr fun row hRow => ?_
    obtain ⟨others, hOthers⟩ := List.getLast?_eq_some_iff.mp hLast
    rw [hOthers] at hFirst hRow
    rw [decide_eq_true_eq, not_lt]
    obtain hOther | hSame := List.mem_append.mp hRow
    · exact ((List.pairwise_append.mp hFirst).2.2 row hOther last (List.mem_singleton.mpr rfl)).le
    · rw [List.mem_singleton.mp hSame]
  have hAll : below key (rows.drop n) (key last) = rows.drop n :=
    List.filter_eq_self.mpr fun row hRow => decide_eq_true (hCross last hMem row hRow)
  calc
    below key rows (key last) = below key (rows.take n ++ rows.drop n) (key last) := by rw [hSplit]
    _ = below key (rows.take n) (key last) ++ below key (rows.drop n) (key last) := List.filter_append _ _
    _ = rows.drop n := by rw [hNone, hAll, List.nil_append]

variable {bound : κ}

theorem below_last_below (hRows : rows.Pairwise fun newer older => key older < key newer) {n : Nat} {last : α}
    (hLast : ((below key rows bound).take n).getLast? = some last) :
    below key rows (key last) = (below key rows bound).drop n := by
  have hBound : key last < bound := by
    simpa using (List.mem_filter.mp (List.mem_of_mem_take (List.mem_of_getLast? hLast))).2
  rw [← below_below hBound.le]
  exact below_last (hRows.filter _) hLast

variable {steps : Nat}

theorem walk_eq_below (hRows : rows.Pairwise fun newer older => key older < key newer) {page : κ → List α}
    (hPage : ∀ bound, page bound = (below key rows bound).take limit) (hLimit : 0 < limit) (hSteps : (below key rows bound).length ≤ steps) : walk key page steps bound = below key rows bound := by
  induction steps generalizing bound with
  | zero => exact (List.eq_nil_of_length_eq_zero (Nat.le_zero.mp hSteps)).symm
  | succ steps ih =>
    rw [walk, hPage]
    cases hLast : ((below key rows bound).take limit).getLast? with
    | none =>
      obtain hNoLimit | hNone := List.take_eq_nil_iff.mp (List.getLast?_eq_none_iff.mp hLast)
      · exact absurd hNoLimit (Nat.pos_iff_ne_zero.mp hLimit)
      · exact hNone.symm
    | some last =>
      have hRest := below_last_below hRows hLast
      have hLength := List.length_pos_of_mem (List.mem_of_mem_take (List.mem_of_getLast? hLast))
      have hShorter : (below key rows (key last)).length ≤ steps := by
        rw [hRest, List.length_drop]
        omega
      dsimp only
      rw [ih hShorter, hRest, List.take_append_drop]

/-! ## Rows that may tie -/

variable {page : κ → List α} (hPage : ∀ bound, IsPage key rows limit bound (page bound))

include hPage

theorem key_lt_of_mem_page {row : α} (h : row ∈ page bound) : key row < bound := by
  obtain ⟨sorted, hPerm, -, hTake⟩ := hPage bound
  rw [hTake] at h
  simpa using (List.mem_filter.mp (hPerm.mem_iff.mp (List.mem_of_mem_take h))).2

theorem key_lt_of_mem_walk {row : α} (h : row ∈ walk key page steps bound) : key row < bound := by
  induction steps generalizing bound with
  | zero => exact absurd h List.not_mem_nil
  | succ steps ih =>
    rw [walk] at h
    split at h
    · exact absurd h List.not_mem_nil
    · rename_i last hLast
      obtain hHere | hLater := List.mem_append.mp h
      · exact key_lt_of_mem_page hPage hHere
      · exact (ih hLater).trans (key_lt_of_mem_page hPage (List.mem_of_getLast? hLast))

theorem length_below_lt {last : α} (h : last ∈ page bound) :
    (below key rows (key last)).length < (below key rows bound).length := by
  have hBound := key_lt_of_mem_page hPage h
  obtain ⟨sorted, hPerm, -, hTake⟩ := hPage bound
  have hMem : last ∈ below key rows bound := hPerm.mem_iff.mp (List.mem_of_mem_take (hTake ▸ h))
  rw [← below_below hBound.le]
  exact List.length_filter_lt_length_iff_exists.mpr ⟨last, hMem, by simp⟩

/-- A walk finds each row once exactly if no page ends between two rows of one key. -/
theorem walk_perm_iff (hLimit : 0 < limit) (hSteps : (below key rows bound).length ≤ steps) :
    (walk key page steps bound).Perm (below key rows bound) ↔
      Unsplit limit (((below key rows bound).map key).insertionSort (· ≥ ·)) := by
  induction steps generalizing bound with
  | zero =>
    rw [List.eq_nil_of_length_eq_zero (Nat.le_zero.mp hSteps)]
    exact iff_of_true (List.Perm.refl []) fun pages newer hNewer => absurd hNewer (by simp)
  | succ steps ih =>
    obtain ⟨sorted, hPerm, hSorted, hTake⟩ := hPage bound
    rw [insertionSort_keys hPerm hSorted, walk, hTake]
    cases hLast : (sorted.take limit).getLast? with
    | none =>
      obtain hNoLimit | rfl := List.take_eq_nil_iff.mp (List.getLast?_eq_none_iff.mp hLast)
      · exact absurd hNoLimit (Nat.pos_iff_ne_zero.mp hLimit)
      · rw [List.nil_perm.mp hPerm]
        exact iff_of_true (List.Perm.refl []) fun pages newer hNewer => absurd hNewer (by simp)
    | some last =>
      have hMem := List.mem_of_getLast? hLast
      have hBound : key last < bound := key_lt_of_mem_page hPage (hTake ▸ hMem)
      have hSplit : sorted.take limit ++ sorted.drop limit = sorted := List.take_append_drop limit sorted
      have hLeast : ∀ row ∈ sorted.take limit, key last ≤ key row := by
        obtain ⟨others, hOthers⟩ := List.getLast?_eq_some_iff.mp hLast
        have hFirst := hSorted.sublist (List.take_sublist limit sorted)
        rw [hOthers] at hFirst ⊢
        intro row hRow
        obtain hOther | hSame := List.mem_append.mp hRow
        · exact (List.pairwise_append.mp hFirst).2.2 row hOther last (List.mem_singleton.mpr rfl)
        · rw [List.mem_singleton.mp hSame]
      have hWalk : (sorted.take limit ++ walk key page steps (key last)).Perm (below key rows bound) ↔
          (walk key page steps (key last)).Perm (sorted.drop limit) := by
        have hSame : (sorted.take limit ++ walk key page steps (key last)).Perm (sorted.take limit ++ sorted.drop limit) ↔
            (walk key page steps (key last)).Perm (sorted.drop limit) := List.perm_append_left_iff _
        rw [hSplit] at hSame
        exact (hPerm.congr_right _).symm.trans hSame
      have hCross : (∀ newer ∈ (sorted.map key).take limit, ∀ older ∈ (sorted.map key).drop limit, older < newer) ↔
          ∀ older ∈ sorted.drop limit, key older < key last := by
        rw [← List.map_take, ← List.map_drop]
        simp only [List.forall_mem_map]
        exact ⟨fun h => h last hMem, fun h newer hNewer older hOlder => (h older hOlder).trans_le (hLeast newer hNewer)⟩
      rw [unsplit_iff, hCross]
      refine hWalk.trans ?_
      by_cases hBehind : ∀ older ∈ sorted.drop limit, key older < key last
      · have hBelow : (sorted.drop limit).Perm (below key rows (key last)) := by
          have hNone : (sorted.take limit).filter (fun row => key row < key last) = [] :=
            List.filter_eq_nil_iff.mpr fun row hRow => by simpa using hLeast row hRow
          have hAll : (sorted.drop limit).filter (fun row => key row < key last) = sorted.drop limit :=
            List.filter_eq_self.mpr fun row hRow => by simpa using hBehind row hRow
          have hRest : below key sorted (key last) = sorted.drop limit := by
            rw [below, ← hSplit, List.filter_append, hNone, hSplit, hAll, List.nil_append]
          rw [← below_below hBound.le, ← hRest]
          exact hPerm.filter _
        have hShorter := length_below_lt hPage (hTake ▸ hMem)
        rw [hBelow.congr_right, ih (Nat.le_of_lt_succ (hShorter.trans_le hSteps)), insertionSort_keys hBelow (hSorted.sublist (List.drop_sublist limit sorted)),
          and_iff_right hBehind, List.map_drop]
      · refine iff_of_false (fun hSame => hBehind fun older hOlder => ?_) fun hBoth => hBehind hBoth.1
        exact key_lt_of_mem_walk hPage (hSame.mem_iff.mpr hOlder)

end CommandSuite.Library.Keyset
