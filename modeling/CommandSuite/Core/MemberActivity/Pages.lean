import CommandSuite.Core.ActivityStore.Agreement
import CommandSuite.Library.Keyset
import Mathlib.Data.Prod.Lex

/-! # Pages past corrupt rows

The refill loop of `list` reads on behind the last raw row, whether that was valid or not.
-/

namespace CommandSuite

open Library Library.Keyset ActivityStore Autoincrement

namespace SqliteActivityStore

variable {P : Type} {schema : ActivityEvent P → Option (ActivityEvent P)}

structure Reads (read : ActivityCursor → Nat → List (MemberActivityRow P)) (behind : ActivityCursor → List (MemberActivityRow P)) :
    Prop where
  page : ∀ cursor want, read cursor want = (behind cursor).take want
  advance : ∀ cursor want last, ((behind cursor).take want).getLast? = some last →
    behind ⟨last.ts, last.id⟩ = (behind cursor).drop want

theorem refill_behind {read : ActivityCursor → Nat → List (MemberActivityRow P)}
    {behind : ActivityCursor → List (MemberActivityRow P)} (hReads : Reads read behind) (limit : Nat) {rounds : Nat}
    {cursor : ActivityCursor} (hRounds : (behind cursor).length < rounds) (out : List (ActivityRow P)) :
    refill schema read limit rounds cursor out =
      out ++ ((behind cursor).filterMap (rowToActivity schema)).take (limit - out.length) := by
  induction rounds generalizing cursor out with
  | zero => exact absurd hRounds (Nat.not_lt_zero _)
  | succ rounds ih =>
    unfold refill
    split
    · rename_i hOpen
      generalize hWant : limit - out.length = want
      dsimp only
      rw [hReads.page]
      have hSplit : (behind cursor).filterMap (rowToActivity schema) =
          ((behind cursor).take want).filterMap (rowToActivity schema) ++
            ((behind cursor).drop want).filterMap (rowToActivity schema) := by
        rw [← List.filterMap_append, List.take_append_drop]
      have hDecoded : (((behind cursor).take want).filterMap (rowToActivity schema)).length ≤ want :=
        (List.length_filterMap_le _ _).trans (List.length_take_le _ _)
      cases hLast : ((behind cursor).take want).getLast? with
      | none =>
        obtain hNoLimit | hNone := List.take_eq_nil_iff.mp (List.getLast?_eq_none_iff.mp hLast)
        · omega
        · dsimp only
          rw [hNone, List.filterMap_nil, List.take_nil, List.append_nil]
      | some last =>
        dsimp only
        split
        · rename_i hShort
          have hAll : (behind cursor).length ≤ want := by
            rw [List.length_take] at hShort
            omega
          have hValid := (List.length_filterMap_le (rowToActivity schema) (behind cursor)).trans hAll
          rw [List.take_of_length_le hAll, List.take_of_length_le hValid]
        · have hRow := List.length_pos_of_mem (List.mem_of_mem_take (List.mem_of_getLast? hLast))
          have hNext := hReads.advance cursor want last hLast
          have hFewer : (behind ⟨last.ts, last.id⟩).length < rounds := by
            rw [hNext, List.length_drop]
            omega
          rw [ih hFewer, hNext, hSplit, List.take_append, List.take_of_length_le hDecoded, List.append_assoc,
            List.length_append, ← Nat.sub_sub, hWant]
    · rename_i hFull
      rw [Nat.sub_eq_zero_of_le (Nat.not_lt.mp hFull), List.take_zero, List.append_nil]

/-! ## The rows of a filter -/

instance : Std.Total (descending (P := P)) := ⟨fun a b => by unfold descending; omega⟩

instance : IsTrans (MemberActivityRow P) descending := ⟨fun a b c => by unfold descending; omega⟩

/-- The place of a row in the order of `list`. -/
def place (row : MemberActivityRow P) : Rat ×ₗ Rat := toLex ((row.ts : Rat), (row.id : Rat))

def bound (cursor : ActivityCursor) : Rat ×ₗ Rat := toLex (cursor.ts, cursor.id)

theorem before_iff (cursor : ActivityCursor) (row : MemberActivityRow P) : before cursor row = true ↔ place row < bound cursor := by
  rw [place, bound, Prod.Lex.toLex_lt_toLex]
  simp [before]

/-- The rows that the conditions select, in the order of `list`. -/
def matching (filter : ListActivityFilter) (store : SqliteActivityStore P) : List (MemberActivityRow P) :=
  (store.memberActivity.select (selects filter)).insertionSort descending

variable (filter : ListActivityFilter) (store : SqliteActivityStore P)

theorem mem_matching {row : MemberActivityRow P} : row ∈ matching filter store ↔ row ∈ store.rows ∧ selects filter row = true :=
  (List.mem_insertionSort _).trans List.mem_filter

theorem matching_strict : (matching filter store).Pairwise fun newer older => place older < place newer := by
  have hIds : (matching filter store).Pairwise fun newer older => newer.id ≠ older.id := by
    have hRows : (store.memberActivity.select (selects filter)).Pairwise fun newer older => newer.id ≠ older.id :=
      (store.memberActivity.ascending.imp fun h => h.ne).filter _
    exact (List.perm_insertionSort descending _).symm.pairwise hRows fun h => h.symm
  refine (List.pairwise_insertionSort descending _).imp₂ (fun newer older hOrder hId => ?_) hIds
  rw [place, place, Prod.Lex.toLex_lt_toLex]
  obtain hLess | ⟨hSame, hLe⟩ := hOrder
  · exact .inl (Nat.cast_lt.mpr hLess)
  · exact .inr ⟨congrArg Nat.cast hSame, Nat.cast_lt.mpr (lt_of_le_of_ne hLe hId.symm)⟩

theorem page_eq (cursor : ActivityCursor) (want : Nat) :
    page filter store cursor want = (Keyset.below place (matching filter store) (bound cursor)).take want := by
  have hStrict : Retention.Strict descending (store.memberActivity.select fun row => selects filter row && before cursor row) := by
    refine ⟨(List.Nodup.of_map _ store.memberActivity.keys_nodup).filter _, fun a ha b hb hab hba => ?_⟩
    refine store.memberActivity.eq_of_key_eq (List.mem_filter.mp ha).1 (List.mem_filter.mp hb).1 ?_
    unfold descending at hab hba
    omega
  have hPerm : (Keyset.below place (matching filter store) (bound cursor)).Perm
      (store.memberActivity.select fun row => selects filter row && before cursor row) := by
    refine ((List.perm_insertionSort descending _).filter _).trans (.of_eq ?_)
    rw [select, select, List.filter_filter]
    refine List.filter_congr fun row _ => ?_
    rw [Bool.and_comm, Bool.eq_iff_iff, Bool.and_eq_true, Bool.and_eq_true, decide_eq_true_eq, before_iff]
  have hSorted : (Keyset.below place (matching filter store) (bound cursor)).Pairwise descending :=
    (List.pairwise_insertionSort descending _).filter _
  rw [page, ← Paging.insertionSort_perm hStrict hPerm, hSorted.insertionSort_eq]

theorem reads_page : Reads (page filter store) fun cursor => Keyset.below place (matching filter store) (bound cursor) where
  page := page_eq filter store
  advance _ _ _ hLast := below_last_below (matching_strict filter store) hLast

/-! ## The rows that are returned -/

def rowPlace (row : ActivityRow P) : Rat ×ₗ Rat := toLex ((row.event.ts : Rat), (row.id : Rat))

theorem below_iff (cursor : ActivityCursor) (row : ActivityRow P) : below cursor row = true ↔ rowPlace row < bound cursor := by
  rw [rowPlace, bound, Prod.Lex.toLex_lt_toLex]
  simp [ActivityStore.below]

variable (schema)

/-- A payload that still validates has the time of its column, and that is a safe integer. -/
structure Written (row : MemberActivityRow P) : Prop where
  ts : ∀ event, schema row.eventJson = some event → event.ts = row.ts
  safe : (schema row.eventJson).isSome = true → (row.ts : Rat) ≤ MAX_SAFE_INTEGER
  /-- Only in the last millisecond that there is does the sentinel ask for the id. -/
  last : (row.ts : Rat) = MAX_SAFE_INTEGER → (row.id : Rat) < MAX_SAFE_INTEGER

def valid : List (ActivityRow P) := ((store.rows.filter (selects filter)).filterMap (rowToActivity schema)).insertionSort newestFirst

def remaining : List (ActivityRow P) := (valid schema filter store).filter fun row => filter.before.all fun cursor => below cursor row

def pageLimit : Nat := clampListLimit filter.limit MAX_LIMIT (some DEFAULT_LIMIT)

def pages : Nat → Option ActivityCursor → List (ActivityRow P)
  | 0, _ => []
  | steps + 1, before =>
    let page := list schema { filter with before } store
    match page.getLast? with
    | none => []
    | some last => page ++ pages steps (some ⟨last.event.ts, last.id⟩)

/-- What `list` promises its callers about the rows of a table. -/
structure Complete : Prop where
  ends : ∀ rounds, store.rows.length < rounds →
    refill schema (page filter store) (pageLimit filter) rounds (filter.before.getD openCursor) [] = list schema filter store
  first : list schema filter store = (remaining schema filter store).take (pageLimit filter)
  short : (list schema filter store).length < pageLimit filter → list schema filter store = remaining schema filter store
  paged : ∀ steps, store.rows.length ≤ steps → pages schema filter store steps filter.before = remaining schema filter store

variable {schema filter store}

section Written

variable (hWritten : ∀ row ∈ store.rows, Written schema row)

include hWritten

theorem rowPlace_of_mem {raw : MemberActivityRow P} (hRaw : raw ∈ store.rows) {row : ActivityRow P}
    (hRow : rowToActivity schema raw = some row) : rowPlace row = place raw := by
  obtain ⟨event, hEvent, rfl⟩ := Option.map_eq_some_iff.mp hRow
  rw [rowPlace, place, (hWritten raw hRaw).ts event hEvent]

theorem decoded_strict : ((matching filter store).filterMap (rowToActivity schema)).Pairwise
    fun newer older => rowPlace older < rowPlace newer := by
  refine List.pairwise_filterMap.mpr ((matching_strict filter store).imp_of_mem ?_)
  intro newer older hNewer hOlder hLess row hRow next hNext
  rw [rowPlace_of_mem hWritten ((mem_matching filter store).mp hNewer).1 hRow,
    rowPlace_of_mem hWritten ((mem_matching filter store).mp hOlder).1 hNext]
  exact hLess

theorem valid_eq : valid schema filter store = (matching filter store).filterMap (rowToActivity schema) := by
  have hStrict : ((matching filter store).filterMap (rowToActivity schema)).Pairwise fun newer older => rowPlace older < rowPlace newer :=
    decoded_strict hWritten
  have hPlaces : (((matching filter store).filterMap (rowToActivity schema)).map rowPlace).Nodup :=
    List.pairwise_map.mpr (hStrict.imp fun hLess => hLess.ne')
  have hNewestFirst : ((matching filter store).filterMap (rowToActivity schema)).Pairwise newestFirst := by
    refine hStrict.imp fun {newer older} hLess => ?_
    rw [rowPlace, rowPlace, Prod.Lex.toLex_lt_toLex] at hLess
    exact hLess.imp Nat.cast_lt.mp fun hSame => ⟨Nat.cast_injective hSame.1, (Nat.cast_lt.mp hSame.2).le⟩
  refine (Paging.insertionSort_perm ⟨.of_map _ hPlaces, fun a ha b hb hab hba => ?_⟩ ?_).trans hNewestFirst.insertionSort_eq
  · refine List.inj_on_of_nodup_map hPlaces ha hb ?_
    have hSame : a.event.ts = b.event.ts ∧ a.id = b.id := by
      unfold newestFirst at hab hba
      omega
    rw [rowPlace, rowPlace, hSame.1, hSame.2]
  · exact (List.perm_insertionSort descending _).symm.filterMap _

theorem decoded_below (cursor : ActivityCursor) :
    (Keyset.below place (matching filter store) (bound cursor)).filterMap (rowToActivity schema) =
      Keyset.below rowPlace (valid schema filter store) (bound cursor) := by
  rw [valid_eq hWritten, Keyset.below, Keyset.below, List.filterMap_filter, List.filter_filterMap]
  refine List.filterMap_congr fun raw hRaw => ?_
  cases hRow : rowToActivity schema raw with
  | none => simp
  | some row =>
    rw [← rowPlace_of_mem hWritten ((mem_matching filter store).mp hRaw).1 hRow]
    rfl

theorem rounds_eq {rounds : Nat} (hRounds : store.rows.length < rounds) :
    refill schema (page filter store) (pageLimit filter) rounds (filter.before.getD openCursor) [] =
      (Keyset.below rowPlace (valid schema filter store) (bound (filter.before.getD openCursor))).take (pageLimit filter) := by
  have hFewer : (Keyset.below place (matching filter store) (bound (filter.before.getD openCursor))).length < rounds := by
    refine ((List.length_filter_le _ _).trans ?_).trans_lt hRounds
    rw [matching, List.length_insertionSort]
    exact List.length_filter_le _ _
  rw [refill_behind (reads_page filter store) _ hFewer, decoded_below hWritten]
  rfl

theorem remaining_eq : remaining schema filter store =
    Keyset.below rowPlace (valid schema filter store) (bound (filter.before.getD openCursor)) := by
  refine List.filter_congr fun row hRow => ?_
  rw [Bool.eq_iff_iff, decide_eq_true_eq]
  cases filter.before with
  | some cursor => exact below_iff cursor row
  | none =>
    rw [valid_eq hWritten] at hRow
    obtain ⟨raw, hRaw, hDecoded⟩ := List.mem_filterMap.mp hRow
    have hRaw := ((mem_matching filter store).mp hRaw).1
    have hSome : (schema raw.eventJson).isSome = true := by
      obtain ⟨event, hEvent, -⟩ := Option.map_eq_some_iff.mp hDecoded
      rw [hEvent]
      rfl
    refine iff_of_true rfl ?_
    rw [rowPlace_of_mem hWritten hRaw hDecoded, place, bound, Prod.Lex.toLex_lt_toLex]
    exact ((hWritten raw hRaw).safe hSome).lt_or_eq.imp_right fun hSame => ⟨hSame, (hWritten raw hRaw).last hSame⟩

theorem list_eq_remaining : list schema filter store = (remaining schema filter store).take (pageLimit filter) := by
  rw [remaining_eq hWritten]
  exact rounds_eq hWritten (Nat.lt_succ_self _)

theorem list_before (cursor : ActivityCursor) : list schema { filter with before := some cursor } store =
    (Keyset.below rowPlace (valid schema filter store) (bound cursor)).take (pageLimit filter) := by
  rw [list]
  exact rounds_eq hWritten (Nat.lt_succ_self _)

theorem pages_below (hLimit : 0 < pageLimit filter) {steps : Nat} (hSteps : store.rows.length ≤ steps) (cursor : ActivityCursor) :
    pages schema filter store steps (some cursor) = Keyset.below rowPlace (valid schema filter store) (bound cursor) := by
  let page : Rat ×ₗ Rat → List (ActivityRow P) := fun place =>
    (Keyset.below rowPlace (valid schema filter store) place).take (pageLimit filter)
  have hWalk : pages schema filter store steps (some cursor) = Keyset.walk rowPlace page steps (bound cursor) := by
    clear hSteps
    induction steps generalizing cursor with
    | zero => rfl
    | succ steps ih =>
      rw [pages, Keyset.walk, list_before hWritten]
      cases hLast : (page (bound cursor)).getLast? with
      | none => rfl
      | some last =>
        dsimp only
        rw [ih]
        rfl
  have hStrict : (valid schema filter store).Pairwise fun newer older => rowPlace older < rowPlace newer := by
    rw [valid_eq hWritten]
    exact decoded_strict hWritten
  have hFewer : (Keyset.below rowPlace (valid schema filter store) (bound cursor)).length ≤ steps := by
    refine (List.length_filter_le _ _).trans (le_trans ?_ hSteps)
    rw [valid, List.length_insertionSort]
    exact (List.length_filterMap_le _ _).trans (List.length_filter_le _ _)
  rw [hWalk]
  exact Keyset.walk_eq_below hStrict (fun _ => rfl) hLimit hFewer

theorem pages_eq_remaining (hLimit : 0 < pageLimit filter) {steps : Nat} (hSteps : store.rows.length ≤ steps) :
    pages schema filter store steps filter.before = remaining schema filter store := by
  rw [remaining_eq hWritten]
  cases hBefore : filter.before with
  | some cursor => exact pages_below hWritten hLimit hSteps cursor
  | none =>
    -- The first page is read from the sentinel.
    have hOpen : pages schema filter store steps none = pages schema filter store steps (some openCursor) := by
      cases steps with
      | zero => rfl
      | succ steps => rfl
    rw [hOpen]
    exact pages_below hWritten hLimit hSteps openCursor

end Written

theorem pageLimit_pos (hLimit : ∀ raw, filter.limit = some (.finite raw) → 1 ≤ raw) : 0 < pageLimit filter := by
  unfold pageLimit clampListLimit
  cases hRaw : filter.limit with
  | none => decide
  | some number =>
    cases number with
    | nonFinite => decide
    | finite raw =>
      have hOne := hLimit raw hRaw
      have hFloor : 1 ≤ ⌊raw⌋ := Int.le_floor.mpr (by exact_mod_cast hOne)
      have hPositive : ¬raw ≤ 0 := not_le.mpr (lt_of_lt_of_le one_pos hOne)
      dsimp only
      rw [if_neg hPositive, lt_min_iff]
      exact ⟨by omega, by decide⟩

/-- Whatever rows have gone bad, `list` gives the first valid ones behind its cursor, and paging gives every one of them once. -/
theorem activity_pages_complete (schema : ActivityEvent P → Option (ActivityEvent P)) (filter : ListActivityFilter)
    (store : SqliteActivityStore P) (hLimit : ∀ raw, filter.limit = some (.finite raw) → 1 ≤ raw)
    (hWritten : ∀ row ∈ store.rows, Written schema row) : Complete schema filter store where
  ends rounds hRounds := (rounds_eq hWritten hRounds).trans (rounds_eq hWritten (Nat.lt_succ_self _)).symm
  first := list_eq_remaining hWritten
  short hShort := by
    have hFirst : list schema filter store = (remaining schema filter store).take (pageLimit filter) := list_eq_remaining hWritten
    rw [hFirst, List.length_take] at hShort
    rw [hFirst]
    exact List.take_of_length_le (by omega)
  paged steps hSteps := pages_eq_remaining hWritten (pageLimit_pos hLimit) hSteps

def damaged : SqliteActivityStore Bool :=
  (append "ada" [⟨.toolAction, 5, none, true⟩, ⟨.toolAction, 5, none, false⟩, ⟨.toolAction, 5, none, true⟩] 0 .empty).2

def intact (event : ActivityEvent Bool) : Option (ActivityEvent Bool) := if event.payload then some event else none

theorem damaged_pages_complete : Complete intact ⟨"ada", none, none, none, none, some (.finite 2)⟩ damaged := by
  refine activity_pages_complete intact _ damaged (fun raw hRaw => ?_) fun row hRow => ?_
  · cases hRaw
    norm_num
  · have hColumns : ∀ row ∈ damaged.rows, row.eventJson.ts = row.ts ∧ row.ts = 5 ∧ row.id ≤ 3 := by decide
    obtain ⟨hTs, hFive, hId⟩ := hColumns row hRow
    refine ⟨fun event hEvent => ?_, fun _ => ?_, fun _ => ?_⟩
    · obtain ⟨-, hSame⟩ := Option.ite_none_right_eq_some.mp hEvent
      rw [← Option.some.inj hSame, hTs]
    · rw [hFive, MAX_SAFE_INTEGER]
      norm_num
    · have hIdRat : (row.id : Rat) ≤ 3 := by exact_mod_cast hId
      rw [MAX_SAFE_INTEGER]
      linarith

end SqliteActivityStore

end CommandSuite
