import CommandSuite.Core.Diagnostics.Ledger

/-! # Honest answers

An answer is compared with everything that was ever recorded. An exact answer counts the window, and what is destroyed
makes an answer indeterminate.
-/

namespace CommandSuite.Diagnostics

open Library Transcript

def asked (query : Query) (entry : Entry) : Bool := query.matches entry.1.cause entry.1.memberName

def Ledger.recorded (ledger : Ledger) (query : Query) (lo hi : Int) : Nat :=
  ledger.entries.countP fun entry => asked query entry && (decide (lo ≤ entry.1.ts) && decide (entry.1.ts ≤ hi))

structure Honest (ledger : Ledger) (query : Query) : Prop where
  exact : (query.run ledger.store).coverage = .exact →
    (query.run ledger.store).count = ledger.recorded query query.fromTs query.toTs
  bucket : (query.run ledger.store).coverage = .bucket →
    (query.run ledger.store).count = ledger.recorded query (query.run ledger.store).fromTs (query.run ledger.store).toTs
  destroyed : ∀ entry ∈ ledger.entries, asked query entry = true → query.covers entry.1.ts = true → entry.2 = .destroyed →
    (query.run ledger.store).coverage = .indeterminate

/-- Outside the window, and not beyond the buckets that overlap the window. -/
def InMargin (query : Query) (store : Store) (ts : Int) : Prop :=
  (ts < query.fromTs ∧ ∃ row ∈ query.buckets store, row.bucketStart ≤ ts) ∨
    (query.toTs < ts ∧ ∃ row ∈ query.buckets store, ts ≤ row.bucketEnd)

/-- What matches in the margin of the window is in a bucket that overlaps the window. -/
def MarginClear (ledger : Ledger) (query : Query) : Prop :=
  ∀ entry ∈ ledger.entries, asked query entry = true → InMargin query ledger.store entry.1.ts →
    ∃ row ∈ query.buckets ledger.store, entry.2 = .bucket row.key

/-! ## What an answer counts -/

def Query.overlapsKey (query : Query) (key : BucketKey) : Bool :=
  decide (key.bucketStart ≤ query.toTs) && decide (query.fromTs < key.bucketStart + key.resolution.width)

def counted (query : Query) (entry : Entry) : Bool :=
  asked query entry &&
    match entry.2 with
    | .detail _ => query.covers entry.1.ts
    | .bucket key => query.overlapsKey key
    | .destroyed => false

section Counts

variable {store : Store} {entries : List Entry}

theorem overlaps_eq {row : BucketRow} (h : Sound row) (query : Query) : query.overlaps row = query.overlapsKey row.key := by
  rw [Query.overlaps, h.ends]
  rfl

variable {key : BucketKey} {entry : Entry}

theorem asked_of_holds (h : Holds key entry.1) (query : Query) : query.matches key.cause key.memberName = asked query entry := by
  rw [h.cause, h.memberName]
  rfl

theorem Accounts.events_length (h : Accounts store entries) (query : Query) : (query.events store).length =
    entries.countP fun entry => query.covers entry.1.ts && asked query entry && entry.2.isDetail := by
  have hEntries := h.details.countP_eq fun entry => query.covers entry.1.ts && asked query entry
  rw [List.countP_map, List.countP_filter] at hEntries
  exact List.countP_eq_length_filter.symm.trans hEntries

theorem Accounts.buckets_sum (h : Accounts store entries) (query : Query) : ((query.buckets store).map BucketRow.n).sum =
    entries.countP fun entry => entry.2.bucketKey.any fun key => query.overlapsKey key && asked query entry := by
  have hRows : query.buckets store =
      store.buckets.select fun row => query.overlapsKey row.key && query.matches row.key.cause row.key.memberName := by
    refine List.filter_congr fun row hRow => ?_
    rw [overlaps_eq (h.sound row hRow)]
  rw [hRows, h.counts.sum_select fun key => query.overlapsKey key && query.matches key.cause key.memberName]
  refine List.countP_congr fun entry hEntry => ?_
  cases hKey : entry.2.bucketKey with
  | none => rfl
  | some key => rw [Option.any_some, Option.any_some, asked_of_holds (h.holds entry hEntry key hKey)]

theorem Accounts.counted_eq (h : Accounts store entries) (query : Query) :
    (query.events store).length + ((query.buckets store).map BucketRow.n).sum = entries.countP (counted query) := by
  rw [h.events_length, h.buckets_sum]
  refine (Table.countP_eq_add fun entry _ => ?_).symm
  obtain ⟨evidence, place⟩ := entry
  cases place with
  | detail id => simp [counted, Place.isDetail, Place.bucketKey, and_comm]
  | bucket key => simp [counted, Place.isDetail, Place.bucketKey, and_comm]
  | destroyed => simp [counted, Place.isDetail, Place.bucketKey]

variable {query : Query}

section

variable (h : Accounts store entries)
include h

theorem Accounts.overlaps_of_covers (hEntry : entry ∈ entries)
    (hPlace : entry.2 = .bucket key) (hCovers : query.covers entry.1.ts = true) :
    query.overlapsKey key = true := by
  have hKey : entry.2.bucketKey = some key := by rw [hPlace]; rfl
  have hHolds := h.holds entry hEntry key hKey
  have hLower := hHolds.lower
  have hUpper := hHolds.upper
  simp only [Query.covers, Query.overlapsKey, Bool.and_eq_true, decide_eq_true_eq] at hCovers ⊢
  omega

theorem Accounts.counted_of_covers (hFloor : store.floor ≤ query.fromTs)
    (hEntry : entry ∈ entries) (hAsked : asked query entry = true) (hCovers : query.covers entry.1.ts = true) :
    counted query entry = true := by
  rw [counted, hAsked, Bool.true_and]
  split
  · exact hCovers
  · rename_i key hPlace
    exact h.overlaps_of_covers hEntry hPlace hCovers
  · rename_i hPlace
    have hBelow := h.destroyed entry hEntry hPlace
    simp only [Query.covers, Bool.and_eq_true, decide_eq_true_eq] at hCovers
    omega

theorem Accounts.exists_bucket (hEntry : entry ∈ entries)
    (hAsked : asked query entry = true) (hPlace : entry.2 = .bucket key) :
    query.overlapsKey key = true ↔ ∃ row ∈ query.buckets store, row.key = key := by
  have hKey : entry.2.bucketKey = some key := by rw [hPlace]; rfl
  have hHolds := h.holds entry hEntry key hKey
  constructor
  · intro hOverlaps
    obtain ⟨row, hRow, rfl⟩ := h.counts.exists_row hEntry hKey
    refine ⟨row, List.mem_filter.mpr ⟨hRow, ?_⟩, rfl⟩
    rw [overlaps_eq (h.sound row hRow), hOverlaps, Bool.true_and]
    exact (asked_of_holds hHolds query).trans hAsked
  · rintro ⟨row, hRow, rfl⟩
    obtain ⟨hMem, hMatches⟩ := List.mem_filter.mp hRow
    rw [← overlaps_eq (h.sound row hMem)]
    exact (Bool.and_eq_true _ _ ▸ hMatches).1

theorem Accounts.counted_iff (hEntry : entry ∈ entries) :
    counted query entry = true ↔ asked query entry = true ∧
      (entry.2.isDetail = true ∧ query.covers entry.1.ts = true ∨ ∃ row ∈ query.buckets store, entry.2 = .bucket row.key) := by
  rw [counted, Bool.and_eq_true]
  refine and_congr_right fun hAsked => ?_
  split
  · rename_i id hPlace
    simp [hPlace, Place.isDetail]
  · rename_i key hPlace
    rw [h.exists_bucket hEntry hAsked hPlace, hPlace]
    simp only [Place.isDetail, Bool.false_eq_true, false_and, false_or, Place.bucket.injEq, eq_comm (a := key)]
  · rename_i hPlace
    simp [hPlace, Place.isDetail]

end

end Counts

/-! ## The interval that is answered -/

section Interval

variable {store : Store} {query : Query}

theorem overlap_of_mem {row : BucketRow} (h : row ∈ query.buckets store) :
    row.bucketStart ≤ query.toTs ∧ query.fromTs < row.bucketEnd := by
  have hMatches := (List.mem_filter.mp h).2
  simp only [Query.overlaps, Bool.and_eq_true, decide_eq_true_eq] at hMatches
  exact hMatches.1

variable {instants : List Int}

theorem getD_min?_le {fallback instant : Int} (h : instant ∈ instants) : instants.min?.getD fallback ≤ instant := by
  obtain ⟨least, hLeast⟩ := Option.ne_none_iff_exists'.mp (mt List.min?_eq_none_iff.mp (List.ne_nil_of_mem h))
  rw [hLeast]
  exact (List.min?_eq_some_iff.mp hLeast).2 instant h

theorem le_getD_max? {fallback instant : Int} (h : instant ∈ instants) : instant ≤ instants.max?.getD fallback := by
  obtain ⟨greatest, hGreatest⟩ := Option.ne_none_iff_exists'.mp (mt List.max?_eq_none_iff.mp (List.ne_nil_of_mem h))
  rw [hGreatest]
  exact (List.max?_eq_some_iff.mp hGreatest).2 instant h

theorem getD_min?_mem (h : instants ≠ []) (fallback : Int) : instants.min?.getD fallback ∈ instants := by
  obtain ⟨least, hLeast⟩ := Option.ne_none_iff_exists'.mp (mt List.min?_eq_none_iff.mp h)
  rw [hLeast]
  exact (List.min?_eq_some_iff.mp hLeast).1

theorem getD_max?_mem (h : instants ≠ []) (fallback : Int) : instants.max?.getD fallback ∈ instants := by
  obtain ⟨greatest, hGreatest⟩ := Option.ne_none_iff_exists'.mp (mt List.max?_eq_none_iff.mp h)
  rw [hGreatest]
  exact (List.max?_eq_some_iff.mp hGreatest).1

theorem answered_iff (h : query.buckets store ≠ []) (ts : Int) :
    min query.fromTs (((query.buckets store).map fun row => row.bucketStart).min?.getD query.fromTs) ≤ ts ∧
      ts ≤ max query.toTs (((query.buckets store).map BucketRow.bucketEnd).max?.getD query.toTs) ↔
      query.covers ts = true ∨ InMargin query store ts := by
  have hStarts := getD_min?_mem (mt List.map_eq_nil_iff.mp h : (query.buckets store).map (fun row => row.bucketStart) ≠ [])
    query.fromTs
  have hEnds := getD_max?_mem (mt List.map_eq_nil_iff.mp h : (query.buckets store).map BucketRow.bucketEnd ≠ []) query.toTs
  obtain ⟨first, hFirst, hLo⟩ := List.mem_map.mp hStarts
  obtain ⟨last, hLast, hHi⟩ := List.mem_map.mp hEnds
  rw [← hLo, ← hHi, min_le_iff, le_max_iff]
  simp only [Query.covers, Bool.and_eq_true, decide_eq_true_eq]
  constructor
  · intro hAnswered
    by_cases hFrom : query.fromTs ≤ ts
    · by_cases hTo : ts ≤ query.toTs
      · exact .inl ⟨hFrom, hTo⟩
      · exact .inr (.inr ⟨by omega, last, hLast, by omega⟩)
    · exact .inr (.inl ⟨by omega, first, hFirst, by omega⟩)
  · rintro (hCovers | ⟨hBefore, row, hRow, hStart⟩ | ⟨hAfter, row, hRow, hEnd⟩)
    · omega
    · have hLeast : first.bucketStart ≤ row.bucketStart := hLo ▸ getD_min?_le (List.mem_map_of_mem hRow)
      have hOverlap := overlap_of_mem hLast
      omega
    · have hGreatest : row.bucketEnd ≤ last.bucketEnd := hHi ▸ le_getD_max? (List.mem_map_of_mem hRow)
      have hOverlap := overlap_of_mem hFirst
      omega

theorem not_covers_of_inMargin {ts : Int} (h : InMargin query store ts) : ¬query.covers ts = true := by
  simp only [Query.covers, Bool.and_eq_true, decide_eq_true_eq]
  rcases h with ⟨hBefore, _⟩ | ⟨hAfter, _⟩ <;> omega

theorem covers_or_inMargin {row : BucketRow} (hRow : row ∈ query.buckets store) (hSound : Sound row) {evidence : Evidence}
    (hHolds : Holds row.key evidence) : query.covers evidence.ts = true ∨ InMargin query store evidence.ts := by
  have hLower := hHolds.lower
  have hUpper := hHolds.upper
  have hEnds := hSound.ends
  simp only [Query.covers, Bool.and_eq_true, decide_eq_true_eq]
  by_cases hFrom : query.fromTs ≤ evidence.ts
  · by_cases hTo : evidence.ts ≤ query.toTs
    · exact .inl ⟨hFrom, hTo⟩
    · refine .inr (.inr ⟨by omega, row, hRow, ?_⟩)
      rw [hEnds]
      exact hUpper.le
  · exact .inr (.inl ⟨by omega, row, hRow, hLower⟩)

end Interval

/-! ## Answers -/

section Answers

variable {store : Store} {query : Query}

theorem coverage_below (h : query.fromTs < store.floor) : (query.run store).coverage = .indeterminate := by
  rw [Query.run, if_pos h]

theorem run_unbucketed (hFloor : store.floor ≤ query.fromTs) (hNone : ((query.buckets store).map BucketRow.n).sum = 0) :
    (query.run store).count = (query.events store).length ∧
      (query.run store).coverage = if query.refusalCrosses store then .indeterminate else .exact := by
  rw [Query.run, if_neg (not_lt.mpr hFloor)]
  dsimp only
  rw [if_pos hNone]
  exact ⟨rfl, rfl⟩

theorem run_bucketed (hFloor : store.floor ≤ query.fromTs) (hSome : ((query.buckets store).map BucketRow.n).sum ≠ 0) :
    (query.run store).count = (query.events store).length + ((query.buckets store).map BucketRow.n).sum ∧
      (query.run store).coverage = (if query.refusalCrosses store then .indeterminate else .bucket) ∧
      (query.run store).fromTs =
        min query.fromTs (((query.buckets store).map fun row => row.bucketStart).min?.getD query.fromTs) ∧
      (query.run store).toTs = max query.toTs (((query.buckets store).map BucketRow.bucketEnd).max?.getD query.toTs) := by
  rw [Query.run, if_neg (not_lt.mpr hFloor)]
  dsimp only
  rw [if_neg hSome]
  exact ⟨rfl, rfl, rfl, rfl⟩

variable {ledger : Ledger}

section

variable (h : Accounts ledger.store ledger.entries)
include h

theorem buckets_eq_nil
    (hNone : ((query.buckets ledger.store).map BucketRow.n).sum = 0) : query.buckets ledger.store = [] := by
  rw [List.eq_nil_iff_forall_not_mem]
  intro row hRow
  have hPos := (h.sound row (List.mem_filter.mp hRow).1).pos
  have hZero := List.sum_eq_zero_iff_forall_eq_nat.mp hNone row.n (List.mem_map_of_mem hRow)
  omega

theorem count_exact (hFloor : ledger.store.floor ≤ query.fromTs)
    (hNone : query.buckets ledger.store = []) :
    (query.events ledger.store).length = ledger.recorded query query.fromTs query.toTs := by
  have hCounted := h.counted_eq query
  rw [hNone, List.map_nil, List.sum_nil, Nat.add_zero] at hCounted
  rw [hCounted]
  refine List.countP_congr fun entry hEntry => ?_
  rw [Bool.and_eq_true]
  constructor
  · intro hCounts
    obtain ⟨hAsked, ⟨_, hCovers⟩ | ⟨row, hRow, _⟩⟩ := (h.counted_iff hEntry).mp hCounts
    · exact ⟨hAsked, hCovers⟩
    · rw [hNone] at hRow
      cases hRow
  · rintro ⟨hAsked, hCovers⟩
    exact h.counted_of_covers hFloor hEntry hAsked hCovers

theorem count_bucket_iff (hFloor : ledger.store.floor ≤ query.fromTs)
    (hSome : query.buckets ledger.store ≠ []) :
    (query.events ledger.store).length + ((query.buckets ledger.store).map BucketRow.n).sum = ledger.recorded query
        (min query.fromTs (((query.buckets ledger.store).map fun row => row.bucketStart).min?.getD query.fromTs))
        (max query.toTs (((query.buckets ledger.store).map BucketRow.bucketEnd).max?.getD query.toTs)) ↔
      MarginClear ledger query := by
  have hAnswered : ∀ entry : Entry, (asked query entry && (decide (min query.fromTs
        (((query.buckets ledger.store).map fun row => row.bucketStart).min?.getD query.fromTs) ≤ entry.1.ts) &&
      decide (entry.1.ts ≤ max query.toTs (((query.buckets ledger.store).map BucketRow.bucketEnd).max?.getD query.toTs)))) =
        true ↔ asked query entry = true ∧ (query.covers entry.1.ts = true ∨ InMargin query ledger.store entry.1.ts) := by
    intro entry
    rw [Bool.and_eq_true, Bool.and_eq_true, decide_eq_true_eq, decide_eq_true_eq, answered_iff hSome]
  rw [h.counted_eq query, Ledger.recorded, Table.countP_eq_countP_iff]
  · constructor
    · intro hAll entry hEntry hAsked hMargin
      have hCounts := hAll entry hEntry ((hAnswered entry).mpr ⟨hAsked, .inr hMargin⟩)
      obtain ⟨_, ⟨_, hCovers⟩ | hBucket⟩ := (h.counted_iff hEntry).mp hCounts
      · exact absurd hCovers (not_covers_of_inMargin hMargin)
      · exact hBucket
    · intro hClear entry hEntry hInside
      obtain ⟨hAsked, hCovers | hMargin⟩ := (hAnswered entry).mp hInside
      · exact h.counted_of_covers hFloor hEntry hAsked hCovers
      · exact (h.counted_iff hEntry).mpr ⟨hAsked, .inr (hClear entry hEntry hAsked hMargin)⟩
  · intro entry hEntry hCounts
    obtain ⟨hAsked, ⟨_, hCovers⟩ | ⟨row, hRow, hPlace⟩⟩ := (h.counted_iff hEntry).mp hCounts
    · exact (hAnswered entry).mpr ⟨hAsked, .inl hCovers⟩
    · have hHolds := h.holds entry hEntry row.key (by rw [hPlace]; rfl)
      have hSound := h.sound row (List.mem_filter.mp hRow).1
      exact (hAnswered entry).mpr ⟨hAsked, covers_or_inMargin hRow hSound hHolds⟩

theorem Accounts.honest_iff (query : Query) : Honest ledger query ↔
    (ledger.store.floor ≤ query.fromTs → query.refusalCrosses ledger.store = false → MarginClear ledger query) := by
  by_cases hFloor : ledger.store.floor ≤ query.fromTs
  · have hDestroyed : ∀ entry ∈ ledger.entries, query.covers entry.1.ts = true → entry.2 ≠ .destroyed := by
      intro entry hEntry hCovers hPlace
      have hBelow := h.destroyed entry hEntry hPlace
      simp only [Query.covers, Bool.and_eq_true, decide_eq_true_eq] at hCovers
      omega
    have hNever : ∀ entry ∈ ledger.entries, asked query entry = true → query.covers entry.1.ts = true →
        entry.2 = .destroyed → (query.run ledger.store).coverage = .indeterminate :=
      fun entry hEntry _ hCovers hPlace => absurd hPlace (hDestroyed entry hEntry hCovers)
    by_cases hNone : ((query.buckets ledger.store).map BucketRow.n).sum = 0
    · have hEmpty := buckets_eq_nil h hNone
      obtain ⟨hCount, hCoverage⟩ := run_unbucketed hFloor hNone
      have hClear : MarginClear ledger query := by
        intro entry _ _ hMargin
        rw [InMargin, hEmpty] at hMargin
        simp at hMargin
      refine iff_of_true ⟨fun _ => hCount.trans (count_exact h hFloor hEmpty), fun hBucket => ?_, hNever⟩ fun _ _ => hClear
      rw [hCoverage] at hBucket
      split at hBucket <;> cases hBucket
    · have hSome : query.buckets ledger.store ≠ [] := by
        intro hEmpty
        rw [hEmpty] at hNone
        exact hNone rfl
      obtain ⟨hCount, hCoverage, hFrom, hTo⟩ := run_bucketed hFloor hNone
      have hIff := count_bucket_iff h hFloor hSome
      rw [← hCount, ← hFrom, ← hTo] at hIff
      constructor
      · intro hHonest _ hRefusal
        rw [hRefusal] at hCoverage
        exact hIff.mp (hHonest.bucket hCoverage)
      · intro hClear
        refine ⟨fun hExact => ?_, fun hBucket => ?_, hNever⟩
        · rw [hCoverage] at hExact
          split at hExact <;> cases hExact
        · cases hRefusal : query.refusalCrosses ledger.store with
          | false => exact hIff.mpr (hClear hFloor hRefusal)
          | true =>
            rw [hCoverage, hRefusal] at hBucket
            cases hBucket
  · have hCoverage := coverage_below (not_le.mp hFloor)
    refine iff_of_true ⟨fun hExact => ?_, fun hBucket => ?_, fun _ _ _ _ _ => hCoverage⟩ fun hAbove => absurd hAbove hFloor
    · rw [hCoverage] at hExact
      cases hExact
    · rw [hCoverage] at hBucket
      cases hBucket

end

end Answers

/-- In every run of calls and for every query: the answer is honest exactly when the margin of the window is clear. -/
theorem answers_honest_iff (requests : List Request) (query : Query) :
    Honest (final Ledger.serve .empty requests) query ↔
      ((final Ledger.serve .empty requests).store.floor ≤ query.fromTs →
        query.refusalCrosses (final Ledger.serve .empty requests).store = false →
        MarginClear (final Ledger.serve .empty requests) query) :=
  (accounts_serve requests).honest_iff query

section Example

def defaultOptions : DiagnosticOptions := ⟨7 * DAY, 30 * DAY, 400 * DAY, 50000, 200000, 20000⟩

def foldedBetween : List Request :=
  [⟨defaultOptions, fun _ => 10, .record .otlpLogsStoreFailed (some ["ann"])⟩,
    ⟨defaultOptions, fun _ => 1000, .record .otlpLogsStoreFailed (some ["ann"])⟩,
    ⟨defaultOptions, fun _ => 7 * DAY + 500, .sweep⟩]

/-- The answer is for the whole hour, and counts one of the two events. -/
theorem folded_between_dishonest :
    ((⟨none, none, 0, 20⟩ : Query).run (final serve .empty foldedBetween)) =
        ⟨0, HOUR, .hour, 1, some 10, some 10, .bucket⟩ ∧
      ((final Ledger.serve .empty foldedBetween).recorded ⟨none, none, 0, 20⟩ 0 HOUR = 2) ∧
      ¬Honest (final Ledger.serve .empty foldedBetween) ⟨none, none, 0, 20⟩ := by
  refine ⟨by decide, by decide, fun hHonest => ?_⟩
  have hCount := hHonest.bucket (by decide)
  revert hCount
  decide

end Example

end CommandSuite.Diagnostics
