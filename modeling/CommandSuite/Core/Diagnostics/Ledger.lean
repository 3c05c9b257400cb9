import CommandSuite.Core.Diagnostics

/-! # The ledger of diagnostics

Every event that was ever recorded is in one place: it is a detail row, or it was folded into a bucket, or it is
destroyed.
-/

namespace CommandSuite.Diagnostics

open Library Table Transcript Function

structure Evidence where
  cause : DiagnosticCause
  memberName : String
  ts : Int

inductive Place where
  | detail (id : Nat)
  | bucket (key : BucketKey)
  | destroyed
  deriving DecidableEq

def Place.isDetail : Place → Bool
  | .detail _ => true
  | .bucket _ | .destroyed => false

def Place.bucketKey : Place → Option BucketKey
  | .bucket key => some key
  | .detail _ | .destroyed => none

abbrev Entry := Evidence × Place

def EventRow.evidence (row : EventRow) : Evidence := ⟨row.cause, row.memberName, row.ts⟩

def EventRow.entry (row : EventRow) : Entry := (row.evidence, .detail row.id)

structure Ledger where
  store : Store
  entries : List Entry

def Ledger.empty : Ledger := ⟨.empty, []⟩

def factEntries (cause : DiagnosticCause) (n : Nat) (ts : Int) : List Entry :=
  List.replicate n (⟨cause, UNATTRIBUTED, ts⟩, .bucket (bucketKey cause UNATTRIBUTED .hour ts))

def newRows (cause : DiagnosticCause) (ts : Int) : Nat → List String → List EventRow
  | _, [] => []
  | id, memberName :: members => ⟨id, cause, memberName, ts⟩ :: newRows cause ts (id + 1) members

def Place.destroyDetails (ids : List Nat) : Place → Place
  | .detail id => if id ∈ ids then .destroyed else .detail id
  | place => place

def Place.destroyBuckets (dropped : BucketKey → Bool) : Place → Place
  | .bucket key => if dropped key then .destroyed else .bucket key
  | place => place

def Place.foldDetail (detailCut : Int) (evidence : Evidence) : Place → Place
  | .detail id =>
    if evidence.ts < detailCut then .bucket (Diagnostics.bucketKey evidence.cause evidence.memberName .hour evidence.ts)
    else .detail id
  | place => place

def Place.foldHours (hourCut : Int) : Place → Place
  | .bucket key => if agedHour hourCut key then .bucket (dayOf key) else .bucket key
  | place => place

def Stage.move (stage : Stage) (store : Store) (entry : Entry) : Place :=
  match stage with
  | .capDetail maxDetailRows _ =>
    if (store.events.rows.length : Int) > maxDetailRows then
      entry.2.destroyDetails ((excessEvents maxDetailRows store).map EventRow.key)
    else entry.2
  | .capBuckets maxBucketRows _ =>
    if (store.buckets.rows.length : Int) > maxBucketRows then
      entry.2.destroyBuckets fun key => key ∈ (excessBuckets maxBucketRows store).map BucketRow.key
    else entry.2
  | .foldDetail detailCut => entry.2.foldDetail detailCut entry.1
  | .foldHours hourCut => entry.2.foldHours hourCut
  | .dropDays dayCut => entry.2.destroyBuckets (agedDay dayCut)
  | .insert .. | .fanoutTruncated .. | .unavailable _ | .capStates .. | .clearState .. => entry.2

def Stage.records (stage : Stage) (store : Store) : List Entry :=
  match stage with
  | .insert cause members ts => (newRows cause ts store.nextId members).map EventRow.entry
  | .fanoutTruncated n ts => factEntries .retentionFanoutTruncated n ts
  | .unavailable ts => factEntries .retentionUnavailable 1 ts
  | .capDetail maxDetailRows ts =>
    if (store.events.rows.length : Int) > maxDetailRows then factEntries .retentionOverflow 1 ts else []
  | .capBuckets maxBucketRows ts =>
    if (store.buckets.rows.length : Int) > maxBucketRows then factEntries .retentionOverflow 1 ts else []
  | .capStates maxStateRows ts =>
    if (store.states.rows.length : Int) > maxStateRows then factEntries .retentionOverflow 1 ts else []
  | .foldDetail _ | .foldHours _ | .dropDays _ | .clearState .. => []

def Ledger.observe (ledger : Ledger) (stage : Stage) : Ledger :=
  ⟨stage.perform ledger.store,
    ledger.entries.map (fun entry => (entry.1, stage.move ledger.store entry)) ++ stage.records ledger.store⟩

/-! ## The invariant -/

structure Holds (key : BucketKey) (evidence : Evidence) : Prop where
  cause : key.cause = evidence.cause
  memberName : key.memberName = evidence.memberName
  aligned : key.resolution.width ∣ key.bucketStart
  lower : key.bucketStart ≤ evidence.ts
  upper : evidence.ts < key.bucketStart + key.resolution.width

structure Sound (row : BucketRow) : Prop where
  pos : 0 < row.n
  ends : row.bucketEnd = row.bucketStart + row.resolution.width

structure Accounts (store : Store) (entries : List Entry) : Prop where
  details : (store.events.rows.map EventRow.entry).Perm (entries.filter fun entry => entry.2.isDetail)
  fresh : ∀ row ∈ store.events.rows, row.id < store.nextId
  counts : Counts BucketRow.n store.buckets (fun entry : Entry => entry.2.bucketKey) entries
  sound : ∀ row ∈ store.buckets.rows, Sound row
  holds : ∀ entry ∈ entries, ∀ key, entry.2.bucketKey = some key → Holds key entry.1
  destroyed : ∀ entry ∈ entries, entry.2 = .destroyed → entry.1.ts < store.floor

section Buckets

theorem width_pos (resolution : Resolution) : 0 < resolution.width := by
  cases resolution <;> decide

theorem holds_bucketKey (evidence : Evidence) (resolution : Resolution) :
    Holds (bucketKey evidence.cause evidence.memberName resolution evidence.ts) evidence := by
  have hPos := width_pos resolution
  refine ⟨rfl, rfl, Int.dvd_mul_left _ _, Int.ediv_mul_le _ (ne_of_gt hPos), ?_⟩
  have hNext := Int.lt_ediv_add_one_mul_self evidence.ts hPos
  rw [Int.add_mul, Int.one_mul] at hNext
  exact hNext

theorem holds_dayOf {key : BucketKey} {evidence : Evidence} (h : Holds key evidence) (hHour : key.resolution = .hour) :
    Holds (dayOf key) evidence := by
  have hDay := holds_bucketKey ⟨key.cause, key.memberName, key.bucketStart⟩ .day
  obtain ⟨hours, hStart⟩ := h.aligned
  have hUpper := h.upper
  rw [hHour] at hStart hUpper
  have hWidth : (dayOf key).bucketStart = key.bucketStart / DAY * DAY := rfl
  refine ⟨h.cause, h.memberName, hDay.aligned, hDay.lower.trans h.lower, ?_⟩
  change evidence.ts < key.bucketStart / DAY * DAY + DAY
  change evidence.ts < key.bucketStart + HOUR at hUpper
  change key.bucketStart = HOUR * hours at hStart
  simp only [HOUR, DAY] at *
  omega

theorem floor_raiseFloor (instant : Int) (store : Store) : (raiseFloor instant store).floor = max store.floor instant := by
  unfold raiseFloor
  split
  · rename_i hGreater
    rw [max_eq_right (le_of_lt hGreater)]
    rfl
  · rename_i hNot
    rw [max_eq_left (not_lt.mp hNot)]

theorem mergeBuckets_n (old new : BucketRow) : (mergeBuckets old new).n = old.n + new.n := rfl

theorem sound_mergeBuckets {old new : BucketRow} (h : Sound old) : Sound (mergeBuckets old new) :=
  ⟨Nat.add_pos_left h.pos new.n, h.ends⟩

theorem sound_bucketRow (key : BucketKey) {n : Nat} (h : 0 < n) (firstTs lastTs : Int) : Sound (bucketRow key n firstTs lastTs) :=
  ⟨h, rfl⟩

end Buckets

/-! ## Stages keep the accounts -/

section Accounts

variable {store after : Store} {entries : List Entry}

theorem details_map {rows : List EventRow} (h : (rows.map EventRow.entry).Perm (entries.filter fun entry => entry.2.isDetail))
    (move : Entry → Place) (hSame : ∀ entry, (move entry).isDetail = true → move entry = entry.2) :
    ((rows.filter fun row => (move row.entry).isDetail).map EventRow.entry).Perm
      ((entries.map fun entry => (entry.1, move entry)).filter fun entry => entry.2.isDetail) := by
  have hRows : (rows.filter fun row => (move row.entry).isDetail).map EventRow.entry =
      (rows.map EventRow.entry).filter fun entry => (move entry).isDetail := by
    rw [List.filter_map]
    rfl
  have hStays : ∀ entry, ((move entry).isDetail && entry.2.isDetail) = (move entry).isDetail := by
    intro entry
    cases hDetail : (move entry).isDetail with
    | false => rfl
    | true => rw [← hSame entry hDetail, hDetail]; rfl
  have hEntries : (entries.map fun entry => (entry.1, move entry)).filter (fun entry => entry.2.isDetail) =
      (entries.filter fun entry => entry.2.isDetail).filter fun entry => (move entry).isDetail := by
    rw [List.filter_map, List.filter_filter]
    simp only [hStays, comp_def]
    have hMap := List.map_congr_left (l := entries.filter fun entry => (move entry).isDetail)
      (f := fun entry : Entry => (entry.1, move entry)) (g := id) fun entry hEntry => ?_
    · rw [hMap, List.map_id]
    · rw [hSame entry (List.mem_filter.mp hEntry).2]
      rfl
  rw [hRows, hEntries]
  exact h.filter _

theorem Accounts.of_same (h : Accounts store entries) (hEvents : after.events = store.events) (hId : after.nextId = store.nextId)
    (hBuckets : after.buckets = store.buckets) (hFloor : store.floor ≤ after.floor) : Accounts after entries := by
  refine ⟨?_, ?_, ?_, ?_, h.holds, fun entry hEntry hPlace => lt_of_lt_of_le (h.destroyed entry hEntry hPlace) hFloor⟩
  · rw [hEvents]
    exact h.details
  · rw [hEvents, hId]
    exact h.fresh
  · rw [hBuckets]
    exact h.counts
  · rw [hBuckets]
    exact h.sound

theorem Accounts.fact (h : Accounts store entries) (cause : DiagnosticCause) {n : Nat} (hPos : 0 < n) (ts : Int) :
    Accounts (foldFact cause n ts store) (entries ++ factEntries cause n ts) := by
  have hMem : ∀ entry ∈ factEntries cause n ts,
      entry = (⟨cause, UNATTRIBUTED, ts⟩, .bucket (bucketKey cause UNATTRIBUTED .hour ts)) := fun entry hEntry =>
    List.eq_of_mem_replicate hEntry
  refine ⟨?_, h.fresh, ?_, ?_, ?_, ?_⟩
  · rw [List.filter_append]
    have hNone : (factEntries cause n ts).filter (fun entry => entry.2.isDetail) = [] := by
      rw [List.filter_eq_nil_iff]
      intro entry hEntry
      rw [hMem entry hEntry]
      exact Bool.false_ne_true
    rw [hNone, List.append_nil]
    exact h.details
  · intro key
    refine (tally_upsert mergeBuckets_n _ key).trans ?_
    rw [h.counts key, List.countP_append, factEntries, List.countP_replicate]
    congr 1
    change (if bucketKey cause UNATTRIBUTED .hour ts = key then n else 0) = _
    simp [Place.bucketKey]
  · exact forall_upsert h.sound (sound_bucketRow _ hPos ts ts) fun _ hOld => sound_mergeBuckets hOld
  · intro entry hEntry key hKey
    rcases List.mem_append.mp hEntry with hOld | hNew
    · exact h.holds entry hOld key hKey
    · rw [hMem entry hNew] at hKey ⊢
      cases hKey
      exact holds_bucketKey ⟨cause, UNATTRIBUTED, ts⟩ .hour
  · intro entry hEntry hPlace
    rcases List.mem_append.mp hEntry with hOld | hNew
    · exact h.destroyed entry hOld hPlace
    · rw [hMem entry hNew] at hPlace
      cases hPlace

theorem destroyBuckets_bucket (dropped : BucketKey → Bool) (key : BucketKey) :
    (Place.bucket key).destroyBuckets dropped = if dropped key then .destroyed else .bucket key := rfl

variable {place : Place} {dropped : BucketKey → Bool}

theorem destroyBuckets_of_isDetail
    (h : (place.destroyBuckets dropped).isDetail = true) : place.destroyBuckets dropped = place := by
  cases place with
  | detail id => rfl
  | destroyed => rfl
  | bucket key =>
    rw [destroyBuckets_bucket] at h ⊢
    split at h <;> cases h

theorem bucketKey_destroyBuckets (dropped : BucketKey → Bool) (place : Place) :
    (place.destroyBuckets dropped).bucketKey = place.bucketKey.filter fun key => !dropped key := by
  cases place with
  | detail id => rfl
  | destroyed => rfl
  | bucket key =>
    rw [destroyBuckets_bucket]
    cases hDropped : dropped key <;> simp [Place.bucketKey, hDropped, Option.filter_some]

theorem Accounts.destroyBuckets (h : Accounts store entries) (hEvents : after.events = store.events)
    (hId : after.nextId = store.nextId) (hBuckets : after.buckets = store.buckets.delete fun row => dropped row.key)
    (hFloor : store.floor ≤ after.floor) (hEnds : ∀ row ∈ store.buckets.rows, dropped row.key = true → row.bucketEnd ≤ after.floor) :
    Accounts after (entries.map fun entry => (entry.1, entry.2.destroyBuckets dropped)) := by
  refine ⟨?_, ?_, ?_, ?_, ?_, ?_⟩
  · rw [hEvents]
    have hDetails := details_map h.details (fun entry => entry.2.destroyBuckets dropped) fun _ => destroyBuckets_of_isDetail
    have hRows : store.events.rows.filter (fun row => (row.entry.2.destroyBuckets dropped).isDetail) = store.events.rows :=
      List.filter_eq_self.mpr fun _ _ => rfl
    rw [hRows] at hDetails
    exact hDetails
  · rw [hEvents, hId]
    exact h.fresh
  · intro key
    rw [hBuckets, tally_delete, List.countP_map, h.counts key]
    cases hDropped : dropped key with
    | true =>
      refine (List.countP_eq_zero.mpr fun entry _ => ?_).symm
      simp only [comp_apply, bucketKey_destroyBuckets, decide_eq_true_eq, Option.filter_eq_some_iff]
      rintro ⟨_, hKept⟩
      rw [hDropped] at hKept
      cases hKept
    | false =>
      refine List.countP_congr fun entry _ => ?_
      simp [bucketKey_destroyBuckets, Option.filter_eq_some_iff, hDropped]
  · rw [hBuckets]
    exact fun row hRow => h.sound row (List.mem_filter.mp hRow).1
  · intro moved hMoved key hKey
    obtain ⟨entry, hEntry, rfl⟩ := List.mem_map.mp hMoved
    rw [bucketKey_destroyBuckets, Option.filter_eq_some_iff] at hKey
    exact h.holds entry hEntry key hKey.1
  · intro moved hMoved hPlace
    obtain ⟨⟨evidence, place⟩, hEntry, rfl⟩ := List.mem_map.mp hMoved
    cases place with
    | detail id => cases hPlace
    | destroyed => exact lt_of_lt_of_le (h.destroyed _ hEntry rfl) hFloor
    | bucket key =>
      dsimp only at hPlace
      rw [destroyBuckets_bucket] at hPlace
      split at hPlace
      · rename_i hDropped
        obtain ⟨row, hRow, rfl⟩ := h.counts.exists_row hEntry rfl
        have hUpper := (h.holds _ hEntry _ rfl).upper
        exact lt_of_lt_of_le hUpper ((h.sound row hRow).ends ▸ hEnds row hRow hDropped)
      · cases hPlace

theorem rows_insertEvent (h : ∀ row ∈ store.events.rows, row.id < store.nextId) (cause : DiagnosticCause) (ts : Int)
    (memberName : String) :
    (insertEvent cause ts store memberName).events.rows = store.events.rows ++ [⟨store.nextId, cause, memberName, ts⟩] := by
  have hFresh : store.events.find store.nextId = none := by
    rw [find_eq_none_iff]
    intro row hRow
    exact ne_of_lt (h row hRow)
  rw [Diagnostics.insertEvent, rows_insertOrIgnore, if_pos hFresh]

theorem Accounts.insertEvent (h : Accounts store entries) (cause : DiagnosticCause) (ts : Int) (memberName : String) :
    Accounts (insertEvent cause ts store memberName)
      (entries ++ [EventRow.entry ⟨store.nextId, cause, memberName, ts⟩]) := by
  have hRows := rows_insertEvent h.fresh cause ts memberName
  refine ⟨?_, ?_, ?_, h.sound, ?_, ?_⟩
  · rw [hRows, List.map_append, List.filter_append]
    exact h.details.append (List.Perm.refl _)
  · rw [hRows]
    refine List.forall_mem_append.mpr ⟨fun row hRow => (h.fresh row hRow).trans (Nat.lt_succ_self _), ?_⟩
    exact List.forall_mem_singleton.mpr (Nat.lt_succ_self _)
  · intro key
    rw [List.countP_append]
    exact h.counts key
  · exact List.forall_mem_append.mpr ⟨h.holds, List.forall_mem_singleton.mpr fun _ hKey => nomatch hKey⟩
  · exact List.forall_mem_append.mpr ⟨h.destroyed, List.forall_mem_singleton.mpr fun hPlace => nomatch hPlace⟩

theorem Accounts.upsertState (h : Accounts store entries) (cause : DiagnosticCause) (ts : Int) (memberName : String) :
    Accounts (upsertState cause ts memberName store) entries := by
  unfold Diagnostics.upsertState
  split
  · exact h.of_same rfl rfl rfl le_rfl
  · exact h

theorem nextId_upsertState (cause : DiagnosticCause) (ts : Int) (memberName : String) (store : Store) :
    (upsertState cause ts memberName store).nextId = store.nextId := by
  unfold upsertState
  split <;> rfl

theorem Accounts.insertEvents (h : Accounts store entries) (cause : DiagnosticCause) (members : List String) (ts : Int) :
    Accounts (insertEvents cause members ts store) (entries ++ (newRows cause ts store.nextId members).map EventRow.entry) := by
  induction members generalizing store entries with
  | nil =>
    rw [newRows, List.map_nil, List.append_nil]
    exact h
  | cons memberName members ih =>
    have hFirst := ih ((h.insertEvent cause ts memberName).upsertState cause ts memberName)
    rw [nextId_upsertState, List.append_assoc] at hFirst
    exact hFirst

theorem destroyDetails_detail (ids : List Nat) (id : Nat) :
    (Place.detail id).destroyDetails ids = if id ∈ ids then .destroyed else .detail id := rfl

theorem isDetail_destroyDetails (ids : List Nat) (id : Nat) :
    ((Place.detail id).destroyDetails ids).isDetail = !decide (id ∈ ids) := by
  rw [destroyDetails_detail]
  split <;> simp_all [Place.isDetail]

variable {ids : List Nat}

theorem destroyDetails_of_isDetail (h : (place.destroyDetails ids).isDetail = true) : place.destroyDetails ids = place := by
  cases place with
  | bucket key => rfl
  | destroyed => rfl
  | detail id =>
    rw [destroyDetails_detail] at h ⊢
    split at h
    · cases h
    · rename_i hKept
      rw [if_neg hKept]

theorem bucketKey_destroyDetails (ids : List Nat) (place : Place) : (place.destroyDetails ids).bucketKey = place.bucketKey := by
  cases place with
  | bucket key => rfl
  | destroyed => rfl
  | detail id =>
    rw [destroyDetails_detail]
    split <;> rfl

theorem Accounts.destroyDetails (h : Accounts store entries)
    (hEvents : after.events = store.events.delete fun row => row.id ∈ ids) (hId : after.nextId = store.nextId)
    (hBuckets : after.buckets = store.buckets) (hFloor : store.floor ≤ after.floor)
    (hPast : ∀ row ∈ store.events.rows, row.id ∈ ids → row.ts < after.floor) :
    Accounts after (entries.map fun entry => (entry.1, entry.2.destroyDetails ids)) := by
  refine ⟨?_, ?_, ?_, ?_, ?_, ?_⟩
  · rw [hEvents]
    have hDetails := details_map h.details (fun entry => entry.2.destroyDetails ids) fun _ => destroyDetails_of_isDetail
    simp only [EventRow.entry, isDetail_destroyDetails] at hDetails
    exact hDetails
  · rw [hEvents, hId]
    exact fun row hRow => h.fresh row (List.mem_filter.mp hRow).1
  · intro key
    rw [hBuckets, h.counts key, List.countP_map]
    simp only [comp_def, bucketKey_destroyDetails]
  · rw [hBuckets]
    exact h.sound
  · intro moved hMoved key hKey
    obtain ⟨entry, hEntry, rfl⟩ := List.mem_map.mp hMoved
    rw [bucketKey_destroyDetails] at hKey
    exact h.holds entry hEntry key hKey
  · intro moved hMoved hPlace
    obtain ⟨⟨evidence, place⟩, hEntry, rfl⟩ := List.mem_map.mp hMoved
    cases place with
    | bucket key => cases hPlace
    | destroyed => exact lt_of_lt_of_le (h.destroyed _ hEntry rfl) hFloor
    | detail id =>
      dsimp only at hPlace
      rw [destroyDetails_detail] at hPlace
      split at hPlace
      · rename_i hId
        have hDetail := h.details.mem_iff.mpr (List.mem_filter.mpr ⟨hEntry, rfl⟩)
        obtain ⟨row, hRow, hSame⟩ := List.mem_map.mp hDetail
        cases hSame
        exact hPast row hRow hId
      · cases hPlace

theorem foldDetail_detail (detailCut : Int) (evidence : Evidence) (id : Nat) :
    (Place.detail id).foldDetail detailCut evidence =
      if evidence.ts < detailCut then .bucket (bucketKey evidence.cause evidence.memberName .hour evidence.ts) else .detail id :=
  rfl

theorem isDetail_foldDetail (detailCut : Int) (evidence : Evidence) (id : Nat) :
    ((Place.detail id).foldDetail detailCut evidence).isDetail = !decide (evidence.ts < detailCut) := by
  rw [foldDetail_detail]
  split <;> simp_all [Place.isDetail]

theorem foldDetail_of_isDetail {detailCut : Int} {evidence : Evidence}
    (h : (place.foldDetail detailCut evidence).isDetail = true) : place.foldDetail detailCut evidence = place := by
  cases place with
  | bucket key => rfl
  | destroyed => rfl
  | detail id =>
    rw [foldDetail_detail] at h ⊢
    split at h
    · cases h
    · rename_i hKept
      rw [if_neg hKept]

theorem bucketKey_foldDetail (detailCut : Int) (entry : Entry) (key : BucketKey) :
    (if (entry.2.foldDetail detailCut entry.1).bucketKey = some key then 1 else 0) =
      (if entry.2.bucketKey = some key then 1 else 0) +
        if decide (bucketKey entry.1.cause entry.1.memberName .hour entry.1.ts = key) && decide (entry.1.ts < detailCut) &&
          entry.2.isDetail then 1 else 0 := by
  obtain ⟨evidence, place⟩ := entry
  cases place with
  | bucket other =>
    rw [Place.isDetail, Bool.and_false]
    rfl
  | destroyed =>
    rw [Place.isDetail, Bool.and_false]
    rfl
  | detail id =>
    dsimp only
    rw [foldDetail_detail]
    split <;> simp_all [Place.isDetail, Place.bucketKey]

theorem Accounts.foldDetail (h : Accounts store entries) (detailCut : Int) :
    Accounts (foldDetail detailCut store) (entries.map fun entry => (entry.1, entry.2.foldDetail detailCut entry.1)) := by
  refine ⟨?_, ?_, ?_, ?_, ?_, ?_⟩
  · have hDetails := details_map h.details (fun entry => entry.2.foldDetail detailCut entry.1) fun _ => foldDetail_of_isDetail
    simp only [EventRow.entry, isDetail_foldDetail] at hDetails
    exact hDetails
  · exact fun row hRow => h.fresh row (List.mem_filter.mp hRow).1
  · intro key
    refine (tally_foldl_upsert mergeBuckets_n _ _ key).trans ?_
    let lands : Evidence → Bool := fun evidence => bucketKey evidence.cause evidence.memberName .hour evidence.ts = key
    have hFolded : ∀ rows : List EventRow, ((rows.filter fun row => lands row.evidence).map fun _ => 1).sum =
        rows.countP fun row => lands row.evidence := by
      intro rows
      rw [List.countP_eq_length_filter, List.map_const', List.sum_const_nat, Nat.mul_one]
    have hEntries := h.details.countP_eq fun entry => lands entry.1 && decide (entry.1.ts < detailCut)
    rw [List.countP_map, List.countP_filter] at hEntries
    refine (congrArg (_ + ·) ((hFolded _).trans ((List.countP_filter ..).trans hEntries))).trans ?_
    rw [List.countP_map, h.counts key]
    refine (countP_eq_add fun entry _ => ?_).symm
    simpa [lands] using bucketKey_foldDetail detailCut entry key
  · exact forall_foldl_upsert h.sound (fun _ _ => sound_bucketRow _ Nat.one_pos _ _) fun _ _ hOld _ => sound_mergeBuckets hOld
  · intro moved hMoved key hKey
    obtain ⟨⟨evidence, place⟩, hEntry, rfl⟩ := List.mem_map.mp hMoved
    cases place with
    | bucket other => exact h.holds _ hEntry key hKey
    | destroyed => cases hKey
    | detail id =>
      dsimp only at hKey
      rw [foldDetail_detail] at hKey
      split at hKey
      · cases hKey
        exact holds_bucketKey evidence .hour
      · cases hKey
  · intro moved hMoved hPlace
    obtain ⟨⟨evidence, place⟩, hEntry, rfl⟩ := List.mem_map.mp hMoved
    cases place with
    | bucket other => cases hPlace
    | destroyed => exact h.destroyed _ hEntry rfl
    | detail id =>
      dsimp only at hPlace
      rw [foldDetail_detail] at hPlace
      split at hPlace <;> cases hPlace

theorem foldHours_bucket (hourCut : Int) (key : BucketKey) :
    (Place.bucket key).foldHours hourCut = if agedHour hourCut key then .bucket (dayOf key) else .bucket key := rfl

variable {hourCut : Int}

theorem foldHours_of_isDetail (h : (place.foldHours hourCut).isDetail = true) : place.foldHours hourCut = place := by
  cases place with
  | detail id => rfl
  | destroyed => rfl
  | bucket key =>
    rw [foldHours_bucket] at h ⊢
    split at h <;> cases h

variable {key : BucketKey}

theorem hour_of_agedHour (h : agedHour hourCut key = true) : key.resolution = .hour := by
  rw [agedHour, Bool.and_eq_true, decide_eq_true_eq] at h
  exact h.1

theorem agedHour_dayOf (hourCut : Int) (key : BucketKey) : agedHour hourCut (dayOf key) = false := rfl

theorem bucketKey_foldHours (hKept : agedHour hourCut key = false) (place : Place) :
    (if (place.foldHours hourCut).bucketKey = some key then 1 else 0) =
      (if place.bucketKey = some key then 1 else 0) +
        if place.bucketKey.any fun old => decide (dayOf old = key) && agedHour hourCut old then 1 else 0 := by
  cases place with
  | detail id => rfl
  | destroyed => rfl
  | bucket old =>
    rw [foldHours_bucket]
    cases hAged : agedHour hourCut old with
    | false => simp [Place.bucketKey, hAged]
    | true =>
      have hOther : old ≠ key := by
        rintro rfl
        rw [hKept] at hAged
        cases hAged
      simp [Place.bucketKey, hAged, hOther]

theorem bucketKey_foldHours_ne (hAged : agedHour hourCut key = true) (place : Place) :
    (place.foldHours hourCut).bucketKey ≠ some key := by
  cases place with
  | detail id => rintro ⟨⟩
  | destroyed => rintro ⟨⟩
  | bucket old =>
    rw [foldHours_bucket]
    cases hOld : agedHour hourCut old with
    | true =>
      rintro ⟨rfl⟩
      cases hAged
    | false =>
      rintro ⟨rfl⟩
      rw [hOld] at hAged
      cases hAged

theorem Accounts.foldHours (h : Accounts store entries) (hourCut : Int) :
    Accounts (foldHours hourCut store) (entries.map fun entry => (entry.1, entry.2.foldHours hourCut)) := by
  refine ⟨?_, h.fresh, ?_, ?_, ?_, ?_⟩
  · have hDetails := details_map h.details (fun entry => entry.2.foldHours hourCut) fun _ => foldHours_of_isDetail
    have hRows : store.events.rows.filter (fun row => (row.entry.2.foldHours hourCut).isDetail) = store.events.rows :=
      List.filter_eq_self.mpr fun _ _ => rfl
    rw [hRows] at hDetails
    exact hDetails
  · intro key
    refine (tally_delete (agedHour hourCut) key).trans ?_
    rw [List.countP_map]
    cases hAged : agedHour hourCut key with
    | true =>
      refine (List.countP_eq_zero.mpr fun entry _ => ?_).symm
      simpa using bucketKey_foldHours_ne hAged entry.2
    | false =>
      have hSum := h.counts.sum_select fun old => decide (dayOf old = key) && agedHour hourCut old
      rw [select, ← List.filter_filter] at hSum
      refine (tally_foldl_upsert mergeBuckets_n _ _ key).trans ?_
      refine (congrArg (_ + ·) hSum).trans ?_
      rw [h.counts key]
      refine (countP_eq_add fun entry _ => ?_).symm
      simpa using bucketKey_foldHours hAged entry.2
  · intro row hRow
    refine forall_foldl_upsert h.sound ?_ (fun _ _ hOld _ => sound_mergeBuckets hOld) row (List.mem_filter.mp hRow).1
    intro old hOld
    exact sound_bucketRow _ (h.sound old (List.mem_filter.mp hOld).1).pos _ _
  · intro moved hMoved key hKey
    obtain ⟨⟨evidence, place⟩, hEntry, rfl⟩ := List.mem_map.mp hMoved
    cases place with
    | detail id => cases hKey
    | destroyed => cases hKey
    | bucket old =>
      have hHolds := h.holds _ hEntry old rfl
      dsimp only at hKey
      rw [foldHours_bucket] at hKey
      split at hKey
      · rename_i hAged
        cases hKey
        exact holds_dayOf hHolds (hour_of_agedHour hAged)
      · cases hKey
        exact hHolds
  · intro moved hMoved hPlace
    obtain ⟨⟨evidence, place⟩, hEntry, rfl⟩ := List.mem_map.mp hMoved
    cases place with
    | detail id => cases hPlace
    | destroyed => exact h.destroyed _ hEntry rfl
    | bucket old =>
      dsimp only at hPlace
      rw [foldHours_bucket] at hPlace
      split at hPlace <;> cases hPlace

theorem Accounts.recordOverflow (h : Accounts store entries) (ts : Int) :
    Accounts (recordOverflow ts store) (entries ++ factEntries .retentionOverflow 1 ts) :=
  (h.fact .retentionOverflow Nat.one_pos ts).of_same rfl rfl rfl le_rfl

@[simp] theorem events_raiseFloor (instant : Int) (store : Store) : (raiseFloor instant store).events = store.events := by
  unfold raiseFloor
  split <;> rfl

@[simp] theorem nextId_raiseFloor (instant : Int) (store : Store) : (raiseFloor instant store).nextId = store.nextId := by
  unfold raiseFloor
  split <;> rfl

@[simp] theorem buckets_raiseFloor (instant : Int) (store : Store) : (raiseFloor instant store).buckets = store.buckets := by
  unfold raiseFloor
  split <;> rfl

theorem le_of_max? {ρ : Type} {rows : List ρ} {instant : ρ → Int} {cut : Int} (h : (rows.map instant).max? = some cut)
    {row : ρ} (hRow : row ∈ rows) : instant row ≤ cut :=
  (List.max?_eq_some_iff.mp h).2 _ (List.mem_map_of_mem hRow)

theorem eq_nil_of_max? {ρ : Type} {rows : List ρ} {instant : ρ → Int} (h : (rows.map instant).max? = none) : rows = [] :=
  List.map_eq_nil_iff.mp (List.max?_eq_none_iff.mp h)

theorem mem_excessEvents {maxDetailRows : Int} {row : EventRow} (hRow : row ∈ store.events.rows)
    (hExcess : row.id ∈ (excessEvents maxDetailRows store).map EventRow.key) : row ∈ excessEvents maxDetailRows store := by
  obtain ⟨other, hOther, hSame⟩ := List.mem_map.mp hExcess
  have hMem := (List.mem_insertionSort _).mp (List.mem_of_mem_take hOther)
  rw [List.inj_on_of_nodup_map store.events.nodup hRow hMem hSame.symm]
  exact hOther

theorem mem_excessBuckets {maxBucketRows : Int} {row : BucketRow} (hRow : row ∈ store.buckets.rows)
    (hExcess : row.key ∈ (excessBuckets maxBucketRows store).map BucketRow.key) : row ∈ excessBuckets maxBucketRows store := by
  obtain ⟨other, hOther, hSame⟩ := List.mem_map.mp hExcess
  have hMem := (List.mem_insertionSort _).mp (List.mem_of_mem_take hOther)
  rw [List.inj_on_of_nodup_map store.buckets.nodup hRow hMem hSame.symm]
  exact hOther

theorem Accounts.evictDetail (h : Accounts store entries) (maxDetailRows ts : Int)
    (hOver : (store.events.rows.length : Int) > maxDetailRows) :
    Accounts (capDetail maxDetailRows ts store)
      ((entries.map fun entry => (entry.1, entry.2.destroyDetails ((excessEvents maxDetailRows store).map EventRow.key))) ++
        factEntries .retentionOverflow 1 ts) := by
  rw [capDetail, if_pos hOver]
  apply Accounts.recordOverflow
  cases hMax : ((excessEvents maxDetailRows store).map EventRow.ts).max? with
  | none =>
    refine h.destroyDetails rfl rfl rfl le_rfl fun row _ hExcess => ?_
    rw [eq_nil_of_max? hMax] at hExcess
    cases hExcess
  | some cut =>
    refine h.destroyDetails (events_raiseFloor _ _) (nextId_raiseFloor _ _) (buckets_raiseFloor _ _) ?_ ?_
    · rw [floor_raiseFloor]
      exact le_max_left _ _
    · intro row hRow hExcess
      have hCut := le_of_max? hMax (mem_excessEvents hRow hExcess)
      rw [floor_raiseFloor]
      exact lt_max_of_lt_right (Int.lt_add_one_of_le hCut)

theorem Accounts.evictBuckets (h : Accounts store entries) (maxBucketRows ts : Int)
    (hOver : (store.buckets.rows.length : Int) > maxBucketRows) :
    Accounts (capBuckets maxBucketRows ts store)
      ((entries.map fun entry => (entry.1, entry.2.destroyBuckets fun key =>
        key ∈ (excessBuckets maxBucketRows store).map BucketRow.key)) ++ factEntries .retentionOverflow 1 ts) := by
  rw [capBuckets, if_pos hOver]
  apply Accounts.recordOverflow
  cases hMax : ((excessBuckets maxBucketRows store).map BucketRow.bucketEnd).max? with
  | none =>
    refine h.destroyBuckets rfl rfl rfl le_rfl fun row _ hExcess => ?_
    rw [eq_nil_of_max? hMax] at hExcess
    cases hExcess
  | some cut =>
    refine h.destroyBuckets (events_raiseFloor _ _) (nextId_raiseFloor _ _) (buckets_raiseFloor _ _) ?_ ?_
    · rw [floor_raiseFloor]
      exact le_max_left _ _
    · intro row hRow hExcess
      have hCut := le_of_max? hMax (mem_excessBuckets hRow (of_decide_eq_true hExcess))
      rw [floor_raiseFloor]
      exact le_max_of_le_right hCut

theorem Accounts.dropDays (h : Accounts store entries) (dayCut : Int) :
    Accounts (dropDays dayCut store) (entries.map fun entry => (entry.1, entry.2.destroyBuckets (agedDay dayCut))) := by
  unfold Diagnostics.dropDays
  cases hMax : ((store.buckets.select fun row => agedDay dayCut row.key).map BucketRow.bucketEnd).max? with
  | none =>
    have hNone : ∀ row ∈ store.buckets.rows, agedDay dayCut row.key = false := by
      intro row hRow
      simpa using List.filter_eq_nil_iff.mp (eq_nil_of_max? hMax) row hRow
    refine h.destroyBuckets rfl rfl (delete_of_none hNone).symm le_rfl fun row hRow hAged => ?_
    rw [hNone row hRow] at hAged
    cases hAged
  | some removedEnd =>
    refine h.destroyBuckets (events_raiseFloor _ _) (nextId_raiseFloor _ _) (buckets_raiseFloor _ _) ?_ ?_
    · rw [floor_raiseFloor]
      exact le_max_left _ _
    · intro row hRow hAged
      have hCut := le_of_max? hMax ((mem_select _ _ _).mpr ⟨hRow, hAged⟩)
      rw [floor_raiseFloor]
      exact le_max_of_le_right hCut

end Accounts

/-! ## Runs -/

def Ledger.serve : Machine Ledger Request Unit := fun ledger request =>
  (request.stages.foldl Ledger.observe ledger, ())

theorem store_observe_foldl (stages : List Stage) (ledger : Ledger) : (stages.foldl Ledger.observe ledger).store =
    stages.foldl (fun store stage => stage.perform store) ledger.store := by
  induction stages generalizing ledger with
  | nil => rfl
  | cons stage stages ih => exact ih (ledger.observe stage)

theorem store_serve (requests : List Request) (ledger : Ledger) :
    (final Ledger.serve ledger requests).store = final serve ledger.store requests := by
  induction requests generalizing ledger with
  | nil => rfl
  | cons request requests ih =>
    rw [final_cons, final_cons, ih]
    exact congrArg (final _ · requests) (store_observe_foldl request.stages ledger)

variable {ledger : Ledger}

theorem accounts_observe (h : Accounts ledger.store ledger.entries) {stage : Stage}
    (hFanout : ∀ n ts, stage = .fanoutTruncated n ts → 0 < n) :
    Accounts (ledger.observe stage).store (ledger.observe stage).entries := by
  have hSame : ledger.entries.map (fun entry => (entry.1, entry.2)) = ledger.entries := List.map_id _
  cases stage with
  | insert cause members ts =>
    simp only [Ledger.observe, Stage.move, Stage.records, hSame]
    exact h.insertEvents cause members ts
  | fanoutTruncated n ts =>
    simp only [Ledger.observe, Stage.move, Stage.records, hSame]
    exact (h.fact _ (hFanout n ts rfl) ts).of_same rfl rfl rfl le_rfl
  | unavailable ts =>
    simp only [Ledger.observe, Stage.move, Stage.records, hSame]
    exact h.fact _ Nat.one_pos ts
  | capDetail maxDetailRows ts =>
    simp only [Ledger.observe, Stage.move, Stage.records]
    split
    · rename_i hOver
      exact h.evictDetail maxDetailRows ts hOver
    · rename_i hUnder
      rw [hSame, List.append_nil, Stage.perform, capDetail, if_neg hUnder]
      exact h
  | capBuckets maxBucketRows ts =>
    simp only [Ledger.observe, Stage.move, Stage.records]
    split
    · rename_i hOver
      exact h.evictBuckets maxBucketRows ts hOver
    · rename_i hUnder
      rw [hSame, List.append_nil, Stage.perform, capBuckets, if_neg hUnder]
      exact h
  | capStates maxStateRows ts =>
    simp only [Ledger.observe, Stage.move, Stage.records, hSame]
    split
    · rename_i hOver
      rw [Stage.perform, capStates, if_pos hOver]
      have hEvicted : Accounts _ ledger.entries := h.of_same rfl rfl rfl le_rfl
      exact (hEvicted.recordOverflow ts).of_same rfl rfl rfl le_rfl
    · rename_i hUnder
      rw [List.append_nil, Stage.perform, capStates, if_neg hUnder]
      exact h
  | foldDetail detailCut =>
    simp only [Ledger.observe, Stage.move, Stage.records, List.append_nil]
    exact h.foldDetail detailCut
  | foldHours hourCut =>
    simp only [Ledger.observe, Stage.move, Stage.records, List.append_nil]
    exact h.foldHours hourCut
  | dropDays dayCut =>
    simp only [Ledger.observe, Stage.move, Stage.records, List.append_nil]
    exact h.dropDays dayCut
  | clearState cause memberName =>
    simp only [Ledger.observe, Stage.move, Stage.records, hSame, List.append_nil]
    exact h.of_same rfl rfl rfl le_rfl

theorem fanoutTruncated_pos {request : Request} {n : Nat} {ts : Int} (h : .fanoutTruncated n ts ∈ request.stages) : 0 < n := by
  obtain ⟨options, clock, call⟩ := request
  cases call with
  | record cause members =>
    simp only [Request.stages, Call.stages, record, enforceCaps, List.mem_append, List.mem_cons, List.not_mem_nil, or_false,
      reduceCtorEq, false_or] at h
    generalize (if ((members.getD []).eraseDups).length > MAX_FANOUT then _ else 0) = truncated at h
    split at h
    · simp only [List.mem_singleton, Stage.fanoutTruncated.injEq] at h
      omega
    · cases h
  | sweep => simp [Request.stages, Call.stages, sweep, enforceCaps] at h
  | enforceCaps => simp [Request.stages, Call.stages, enforceCaps] at h
  | unavailable => simp [Request.stages, Call.stages] at h
  | resolve cause memberName => simp [Request.stages, Call.stages] at h

theorem accounts_foldl {stages : List Stage} (hFanout : ∀ n ts, .fanoutTruncated n ts ∈ stages → 0 < n)
    (h : Accounts ledger.store ledger.entries) :
    Accounts (stages.foldl Ledger.observe ledger).store (stages.foldl Ledger.observe ledger).entries := by
  induction stages generalizing ledger with
  | nil => exact h
  | cons stage stages ih =>
    refine ih (fun n ts hMem => hFanout n ts (List.mem_cons_of_mem _ hMem)) (accounts_observe h ?_)
    rintro n ts rfl
    exact hFanout n ts List.mem_cons_self

theorem accounts_empty : Accounts .empty [] where
  details := .nil
  fresh _ hRow := nomatch hRow
  counts _ := rfl
  sound _ hRow := nomatch hRow
  holds _ hEntry := nomatch hEntry
  destroyed _ hEntry := nomatch hEntry

theorem accounts_serve (requests : List Request) :
    Accounts (final Ledger.serve .empty requests).store (final Ledger.serve .empty requests).entries :=
  final_invariant (P := fun ledger : Ledger => Accounts ledger.store ledger.entries)
    (fun _ _ h => accounts_foldl (fun _ _ => fanoutTruncated_pos) h) accounts_empty requests

end CommandSuite.Diagnostics
