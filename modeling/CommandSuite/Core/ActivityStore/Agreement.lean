import CommandSuite.Core.MemberActivity.Replays
import CommandSuite.Library.Paging
import CommandSuite.Library.Tally

/-! # The two activity stores

Both stores keep the same rows as long as they have given the same ids.
-/

namespace CommandSuite

open Library FirstSeen Paging ActivityStore InMemoryActivityStore Transcript Function

namespace InMemoryActivityStore

variable {P : Type}

theorem admitEvents_fst (known batchSourceIds : List String) (events : List (ActivityEvent P)) :
    (admitEvents known batchSourceIds events).1 =
      firsts ActivityEvent.sourceId (fun sourceId => sourceId ∈ known ∨ sourceId ∈ batchSourceIds) events := by
  induction events generalizing batchSourceIds with
  | nil => rfl
  | cons event events ih =>
    unfold admitEvents
    cases hSource : event.sourceId with
    | none =>
      rw [firsts_cons_none _ hSource]
      exact congrArg (event :: ·) (ih batchSourceIds)
    | some sourceId =>
      dsimp only
      split
      · rename_i hKnown
        rw [firsts_cons_known _ hSource (decide_eq_true hKnown)]
        exact ih batchSourceIds
      · rename_i hNew
        rw [firsts_cons_new _ hSource (decide_eq_false hNew)]
        refine congrArg (event :: ·) ((ih _).trans ?_)
        congr 1
        funext other
        rw [← Bool.decide_or]
        simp only [List.mem_append, List.mem_singleton, or_assoc]

theorem admitEvents_snd (known batchSourceIds : List String) (events : List (ActivityEvent P)) :
    (admitEvents known batchSourceIds events).2 =
      batchSourceIds ++ (admitEvents known batchSourceIds events).1.filterMap ActivityEvent.sourceId := by
  induction events generalizing batchSourceIds with
  | nil => exact (List.append_nil _).symm
  | cons event events ih =>
    unfold admitEvents
    cases hSource : event.sourceId with
    | none =>
      dsimp only
      rw [List.filterMap_cons_none hSource]
      exact ih batchSourceIds
    | some sourceId =>
      dsimp only
      split
      · exact ih batchSourceIds
      · dsimp only
        rw [List.filterMap_cons_some hSource, ih, List.append_assoc, List.singleton_append]

theorem numbered_firsts_eq_iff (memberName : String) (now : Int) {id id' : Nat} (hLe : id' ≤ id) (known : String → Bool)
    (events : List (ActivityEvent P)) :
    firsts (fun row : ActivityRow P => row.event.sourceId) known (numbered memberName now id events) =
        numbered memberName now id' (firsts ActivityEvent.sourceId known events) ↔
      firsts ActivityEvent.sourceId known events = [] ∨ id' = id ∧ firsts ActivityEvent.sourceId known events <+: events := by
  induction events generalizing id id' known with
  | nil => simp [numbered, firsts]
  | cons event events ih =>
    have hKept : ∀ known' : String → Bool,
        (⟨id, memberName, event, now⟩ ::
            firsts (fun row : ActivityRow P => row.event.sourceId) known' (numbered memberName now (id + 1) events) =
          numbered memberName now id' (event :: firsts ActivityEvent.sourceId known' events)) ↔
        event :: firsts ActivityEvent.sourceId known' events = [] ∨
          id' = id ∧ event :: firsts ActivityEvent.sourceId known' events <+: event :: events := by
      intro known'
      rw [numbered, List.cons.injEq, ActivityRow.mk.injEq, ih (Nat.succ_le_succ hLe) known', List.cons_prefix_cons]
      constructor
      · rintro ⟨⟨rfl, _⟩, hEmpty | ⟨_, hPrefix⟩⟩
        · exact .inr ⟨rfl, rfl, hEmpty ▸ List.nil_prefix⟩
        · exact .inr ⟨rfl, rfl, hPrefix⟩
      · rintro (hEmpty | ⟨rfl, _, hPrefix⟩)
        · cases hEmpty
        · exact ⟨⟨rfl, rfl, rfl, rfl⟩, .inr ⟨rfl, hPrefix⟩⟩
    rcases firsts_cases ActivityEvent.sourceId known event with ⟨hKey, h⟩ | ⟨k, hKey, hKnown, h⟩ | ⟨k, hKey, hNew, h⟩
    · rw [h, numbered, firsts_cons_none (fun row : ActivityRow P => row.event.sourceId) hKey]
      exact hKept known
    · rw [h, numbered, firsts_cons_known (fun row : ActivityRow P => row.event.sourceId) hKey hKnown,
        ih (Nat.le_succ_of_le hLe) known]
      -- The id of the event that was let go is gone, so a later one cannot have it.
      refine or_congr_right' fun hSome => ⟨fun _ => absurd hLe (by omega), ?_⟩
      rintro ⟨_, hPrefix⟩
      obtain ⟨first, rest, hFirsts⟩ := List.exists_cons_of_ne_nil hSome
      have hMem : k ∈ (firsts ActivityEvent.sourceId known events).filterMap ActivityEvent.sourceId := by
        rw [hFirsts] at hPrefix ⊢
        obtain ⟨rfl, _⟩ := List.cons_prefix_cons.mp hPrefix
        rw [List.filterMap_cons_some hKey]
        exact List.mem_cons_self
      have hFresh := (keys_firsts _ known events).2 k hMem
      rw [hKnown] at hFresh
      cases hFresh
    · rw [h, numbered, firsts_cons_new (fun row : ActivityRow P => row.event.sourceId) hKey hNew]
      exact hKept _

theorem walk_eq (p : ActivityRow P → Bool) (limit : Nat) (found older : List (ActivityRow P)) (h : found.length < max 1 limit) :
    walk p limit found older = found ++ (older.filter p).take (max 1 limit - found.length) := by
  induction older generalizing found with
  | nil => simp [walk]
  | cons row older ih =>
    rw [walk]
    split
    · rename_i hSelects
      dsimp only
      have hLength : (found ++ [row]).length = found.length + 1 := by rw [List.length_append, List.length_singleton]
      rw [List.filter_cons_of_pos hSelects]
      split
      · rename_i hFull
        have hOne : max 1 limit - found.length = 1 := by omega
        rw [hOne, List.take_succ_cons, List.take_zero]
      · rename_i hOpen
        have hMore : max 1 limit - found.length = (max 1 limit - (found ++ [row]).length) + 1 := by omega
        rw [ih _ (by omega), hMore, List.take_succ_cons, List.append_assoc, List.singleton_append]
    · rename_i hSkips
      rw [List.filter_cons_of_neg hSkips]
      exact ih found h

/-- The rows a `list` chooses from, the newest insertion first. -/
def candidates (filter : ListActivityFilter) (store : InMemoryActivityStore P) : List (ActivityRow P) :=
  (store.bucketOf filter.memberName).reverse.filter (selects filter)

theorem list_eq (filter : ListActivityFilter) (store : InMemoryActivityStore P) :
    list filter store = (candidates filter store).take (max 1 (clampListLimit filter.limit store.maxLimit none)) := by
  rw [list, walk_eq _ _ _ _ (by simp), List.nil_append, List.length_nil, Nat.sub_zero]
  rfl

def rowsIn (buckets : Table (ActivityBucket.memberName (P := P))) (member : String) : List (ActivityRow P) :=
  ((buckets.find member).map ActivityBucket.rows).getD []

theorem rowsIn_pushRows (memberName : String) (rows : List (ActivityRow P))
    (buckets : Table (ActivityBucket.memberName (P := P))) (member : String) :
    rowsIn (pushRows memberName rows buckets) member = rowsIn buckets member ++ if memberName = member then rows else [] := by
  rw [rowsIn, pushRows, Table.find_update, Table.find_insertOrIgnore, rowsIn]
  by_cases hMember : memberName = member
  · subst hMember
    rw [if_pos rfl, if_pos rfl]
    cases hFind : buckets.find memberName with
    | none => simp
    | some bucket =>
      have hName : bucket.memberName = memberName := Table.key_of_find hFind
      simp [hName]
  · rw [if_neg hMember, if_neg hMember, List.append_nil, Option.or_none]
    cases hFind : buckets.find member with
    | none => rfl
    | some bucket =>
      have hName : bucket.memberName = member := Table.key_of_find hFind
      have hOther : ¬bucket.memberName = memberName := fun hSame => hMember (hSame.symm.trans hName)
      simp [hOther]

theorem getD_update (sourceIds : String → Option (List String)) (memberName : String) (known : List String) (member : String) :
    (update sourceIds memberName (some known) member).getD [] =
      if member = memberName then known else (sourceIds member).getD [] := by
  by_cases h : member = memberName
  · subst h
    rw [update_self, if_pos rfl]
    rfl
  · rw [update_of_ne h, if_neg h]

/-- What an `append` returns, and what it does to the rows and the source ids of every member. -/
structure Appended (memberName : String) (now : Int) (admitted : List (ActivityEvent P)) (store : InMemoryActivityStore P)
    (result : List (ActivityRow P) × InMemoryActivityStore P) : Prop where
  returned : result.1 = numbered memberName now store.nextId admitted
  buckets : ∀ member, result.2.bucketOf member = store.bucketOf member ++ if memberName = member then result.1 else []
  sources : ∀ member sourceId, sourceId ∈ (result.2.sourceIdsByMember member).getD [] ↔
    sourceId ∈ (store.sourceIdsByMember member).getD [] ∨
      memberName = member ∧ sourceId ∈ admitted.filterMap ActivityEvent.sourceId
  nextId : result.2.nextId = store.nextId + admitted.length
  maxLimit : result.2.maxLimit = store.maxLimit

theorem appended_append (memberName : String) (events : List (ActivityEvent P)) (now : Int) (store : InMemoryActivityStore P) :
    Appended memberName now
      (firsts ActivityEvent.sourceId (fun sourceId => sourceId ∈ (store.sourceIdsByMember memberName).getD []) events) store
      (append memberName events now store) := by
  have hAdmit := admitEvents_fst ((store.sourceIdsByMember memberName).getD []) [] events
  simp only [List.not_mem_nil, or_false] at hAdmit
  rw [← hAdmit]
  unfold append
  split
  · rename_i hEmpty
    subst hEmpty
    exact ⟨rfl, fun member => by simp, by simp [admitEvents], rfl, rfl⟩
  · dsimp only
    split
    · rename_i hNone
      rw [hNone]
      refine ⟨rfl, fun member => by rw [ite_self, List.append_nil]; rfl, fun member sourceId => ?_, rfl, rfl⟩
      rw [getD_update]
      split
      · rename_i hMember
        simp [hMember]
      · simp
    · refine ⟨rfl, fun member => rowsIn_pushRows _ _ _ _, fun member sourceId => ?_, ?_, rfl⟩
      · rw [update_idem, getD_update, admitEvents_snd, List.nil_append]
        split
        · rename_i hMember
          subst hMember
          rw [List.mem_append]
          simp
        · rename_i hOther
          simp [Ne.symm hOther]
      · rw [length_numbered]

theorem bucketOf_prune (cutoffTs : Rat) (store : InMemoryActivityStore P) (member : String) :
    (prune cutoffTs store).2.bucketOf member = (store.bucketOf member).filter fun row => !isPruned cutoffTs row := by
  rw [bucketOf, prune]
  dsimp only
  rw [Table.find_delete, Table.find_update, bucketOf]
  cases hFind : store.rowsByMember.find member with
  | none => rfl
  | some bucket =>
    simp only [Option.map_some, if_true, Option.getD_some]
    cases hKept : bucket.rows.filter (fun row => !isPruned cutoffTs row) with
    | nil => simp [Option.filter_some]
    | cons row rows => simp [Option.filter_some]

def ofKind (kinds : Option (List ActivityKind)) (kind : ActivityKind) : Bool :=
  match kinds with
  | some (first :: others) => kind ∈ first :: others
  | _ => true

theorem selects_iff (filter : ListActivityFilter) (row : ActivityRow P) :
    selects filter row = true ↔ (∀ lower, filter.lower = some lower → lower ≤ (row.event.ts : Rat)) ∧
      (∀ upper, filter.upper = some upper → (row.event.ts : Rat) ≤ upper) ∧
        (∀ cursor, filter.before = some cursor → below cursor row = true) ∧ ofKind filter.kinds row.event.kind = true := by
  have hBelow : ∀ cursor : ActivityCursor, below cursor row = true ↔ ¬(cursor.ts < (row.event.ts : Rat) ∨
      ((row.event.ts : Rat) = cursor.ts ∧ cursor.id ≤ (row.id : Rat))) := by
    intro cursor
    simp only [below, Bool.or_eq_true, Bool.and_eq_true, decide_eq_true_eq, not_or, not_and, not_lt, not_le]
    constructor
    · rintro (hLess | ⟨hSame, hId⟩)
      · exact ⟨hLess.le, fun hSame => absurd hSame hLess.ne⟩
      · exact ⟨hSame.le, fun _ => hId⟩
    · rintro ⟨hLe, hId⟩
      exact hLe.lt_or_eq.imp_right fun hSame => ⟨hSame, hId hSame⟩
  have hOpen : selects filter row = (!filter.lower.any (fun lower => decide ((row.event.ts : Rat) < lower)) &&
      (!filter.upper.any (fun upper => decide (upper < (row.event.ts : Rat))) &&
        (!filter.before.any (fun cursor => decide (cursor.ts < (row.event.ts : Rat) ∨
          ((row.event.ts : Rat) = cursor.ts ∧ cursor.id ≤ (row.id : Rat)))) && ofKind filter.kinds row.event.kind))) := by
    simp only [selects, Bool.if_false_left, Bool.decide_eq_true]
    rfl
  simp only [hOpen, Bool.and_eq_true, Bool.not_eq_true', Option.any_eq_false, decide_eq_false_iff_not, hBelow, not_lt]

end InMemoryActivityStore

namespace SqliteActivityStore

variable {P : Type} {schema : ActivityEvent P → Option (ActivityEvent P)}

/-- The row that `list` returns for a valid row of the table. -/
def toActivity (row : MemberActivityRow P) : ActivityRow P := ⟨row.id, row.memberName, row.eventJson, row.createdAt⟩

/-- The columns say what the payload says, and the payload is read back as it was. -/
structure Readable (schema : ActivityEvent P → Option (ActivityEvent P)) (row : MemberActivityRow P) : Prop where
  columns : ofActivity (toActivity row) = row
  valid : schema row.eventJson = some row.eventJson

theorem filterMap_rowToActivity {rows : List (MemberActivityRow P)} (h : ∀ row ∈ rows, Readable schema row) :
    rows.filterMap (rowToActivity schema) = rows.map toActivity := by
  rw [← List.filterMap_eq_map]
  refine List.filterMap_congr fun row hRow => ?_
  rw [rowToActivity, (h row hRow).valid]
  rfl

theorem selects_iff (filter : ListActivityFilter) (row : MemberActivityRow P) :
    selects filter row = true ↔ row.memberName = filter.memberName ∧
      (∀ lower, filter.lower = some lower → lower ≤ (row.ts : Rat)) ∧
        (∀ upper, filter.upper = some upper → (row.ts : Rat) ≤ upper) ∧ ofKind filter.kinds row.kind = true := by
  simp only [selects, Bool.and_eq_true, decide_eq_true_eq, Option.all_eq_true, and_assoc]
  rfl

theorem refill_eq {read : ActivityCursor → Nat → List (MemberActivityRow P)} (cursor : ActivityCursor) (limit fuel : Nat)
    (hReadable : ∀ row ∈ read cursor limit, Readable schema row)
    (hZero : limit = 0 → read cursor limit = []) :
    refill schema read limit (fuel + 1) cursor [] = (read cursor limit).map toActivity := by
  unfold refill
  dsimp only [List.length_nil, List.nil_append]
  rw [Nat.sub_zero, filterMap_rowToActivity hReadable]
  split
  · split
    · rename_i hLast
      rw [List.getLast?_eq_none_iff.mp hLast]
      rfl
    · rename_i last _
      split
      · rfl
      · rename_i hFull
        have hLength : ¬((read cursor limit).map toActivity).length < limit := by rwa [List.length_map]
        cases fuel with
        | zero => rfl
        | succ fuel => rw [refill, if_neg hLength]
  · rename_i hLimit
    rw [hZero (by omega)]
    rfl

theorem list_eq {filter : ListActivityFilter} {store : SqliteActivityStore P} (h : ∀ row ∈ store.rows, Readable schema row) :
    list schema filter store =
      (page filter store (filter.before.getD openCursor) (clampListLimit filter.limit MAX_LIMIT (some DEFAULT_LIMIT))).map
        toActivity := by
  refine refill_eq _ _ _ (fun row hRow => h row ?_) fun hZero => by rw [page, hZero, List.take_zero]
  have hSelected := (List.mem_insertionSort _).mp (List.mem_of_mem_take hRow)
  exact (List.mem_filter.mp hSelected).1

end SqliteActivityStore

namespace ActivityStore

variable {P : Type} {schema : ActivityEvent P → Option (ActivityEvent P)}

open SqliteActivityStore (toActivity ofActivity Readable openCursor descending)

instance : Std.Total (newestFirst (P := P)) := ⟨fun a b => by unfold newestFirst; omega⟩

instance : IsTrans (ActivityRow P) newestFirst := ⟨fun a b c => by unfold newestFirst; omega⟩

/-- Without a cursor SQLite reads from past the newest possible row. -/
def belowOpen (filter : ListActivityFilter) (row : ActivityRow P) : Bool := filter.before.isSome || below openCursor row

structure Matches (schema : ActivityEvent P → Option (ActivityEvent P)) (maxLimit : Nat) (memory : InMemoryActivityStore P)
    (sqlite : SqliteActivityStore P) : Prop where
  buckets : ∀ memberName, memory.bucketOf memberName = (sqlite.rows.filter fun row => row.memberName = memberName).map toActivity
  sources : ∀ memberName sourceId, sourceId ∈ (memory.sourceIdsByMember memberName).getD [] ↔
    sqlite.known memberName sourceId = true
  readable : ∀ row ∈ sqlite.rows, Readable schema row
  once : sqlite.OncePerSource
  numbers : memory.nextId ≤ sqlite.memberActivity.sequence + 1
  limit : memory.maxLimit = maxLimit

theorem matches_empty (maxLimit : Nat) :
    Matches schema maxLimit (empty maxLimit) (SqliteActivityStore.empty : SqliteActivityStore P) where
  buckets _ := rfl
  sources _ _ := by
    simp [empty, SqliteActivityStore.known, SqliteActivityStore.conflicts, SqliteActivityStore.rows,
      SqliteActivityStore.empty, Autoincrement.empty]
  readable _ hRow := by cases hRow
  once _ _ := Nat.zero_le 1
  numbers := Nat.le_refl 1
  limit := rfl

section Lists

variable {maxLimit : Nat} {memory : InMemoryActivityStore P} {sqlite : SqliteActivityStore P}
  (h : Matches schema maxLimit memory sqlite)
include h

theorem Matches.selects_eq (filter : ListActivityFilter) {row : MemberActivityRow P} (hRow : row ∈ sqlite.rows) :
    (SqliteActivityStore.selects filter row && SqliteActivityStore.before (filter.before.getD openCursor) row) =
      (decide (row.memberName = filter.memberName) &&
        (selects filter (toActivity row) && belowOpen filter (toActivity row))) := by
  have hColumns := (h.readable row hRow).columns
  have hTs : (toActivity row).event.ts = row.ts := congrArg MemberActivityRow.ts hColumns
  have hKind : (toActivity row).event.kind = row.kind := congrArg MemberActivityRow.kind hColumns
  have hId : (toActivity row).id = row.id := rfl
  rw [Bool.eq_iff_iff]
  simp only [Bool.and_eq_true, decide_eq_true_eq]
  rw [SqliteActivityStore.selects_iff, selects_iff, hTs, hKind]
  have hCursor : SqliteActivityStore.before (filter.before.getD openCursor) row = true ↔
      (∀ cursor, filter.before = some cursor → below cursor (toActivity row) = true) ∧
        belowOpen filter (toActivity row) = true := by
    rw [belowOpen]
    have hSame : ∀ cursor, SqliteActivityStore.before cursor row = below cursor (toActivity row) := by
      intro cursor
      rw [SqliteActivityStore.before, below, hTs]
      rfl
    cases filter.before with
    | none => simp [hSame]
    | some cursor => simp [hSame]
  rw [hCursor]
  tauto

theorem Matches.selected (filter : ListActivityFilter) :
    (sqlite.memberActivity.select fun row =>
        SqliteActivityStore.selects filter row && SqliteActivityStore.before (filter.before.getD openCursor) row).map toActivity =
      ((candidates filter memory).filter (belowOpen filter)).reverse := by
  rw [candidates, List.filter_reverse, List.filter_reverse, List.reverse_reverse, h.buckets, List.filter_map, List.filter_map,
    List.filter_filter, List.filter_filter, Autoincrement.select]
  congr 1
  refine List.filter_congr fun row hRow => ?_
  rw [h.selects_eq filter hRow, Bool.and_comm (decide _)]
  simp only [comp_apply, Bool.and_comm]

theorem Matches.strict (filter : ListActivityFilter) : Retention.Strict newestFirst (candidates filter memory) := by
  have hBucket : Retention.Strict newestFirst (memory.bucketOf filter.memberName).reverse := by
    rw [h.buckets]
    refine ⟨List.nodup_reverse.mpr ?_, ?_⟩
    · have hIds : ((sqlite.rows.filter fun row => row.memberName = filter.memberName).map MemberActivityRow.id).Nodup :=
        (List.filter_sublist.map MemberActivityRow.id).nodup sqlite.memberActivity.keys_nodup
      refine List.Nodup.of_map ActivityRow.id ?_
      rw [List.map_map]
      exact hIds
    · intro a ha b hb hab hba
      obtain ⟨first, hFirst, rfl⟩ := List.mem_map.mp (List.mem_reverse.mp ha)
      obtain ⟨second, hSecond, rfl⟩ := List.mem_map.mp (List.mem_reverse.mp hb)
      have hId : first.id = second.id := by
        unfold newestFirst toActivity at hab hba
        dsimp only at hab hba
        omega
      rw [sqlite.memberActivity.eq_of_key_eq (List.mem_filter.mp hFirst).1 (List.mem_filter.mp hSecond).1 hId]
  exact hBucket.sublist List.filter_sublist

theorem Matches.list_sqlite (filter : ListActivityFilter) :
    SqliteActivityStore.list schema filter sqlite =
      (((candidates filter memory).filter (belowOpen filter)).insertionSort newestFirst).take
        (clampListLimit filter.limit SqliteActivityStore.MAX_LIMIT (some SqliteActivityStore.DEFAULT_LIMIT)) := by
  rw [SqliteActivityStore.list_eq h.readable, SqliteActivityStore.page, List.map_take]
  have hOrder : ∀ a ∈ sqlite.rows, ∀ b ∈ sqlite.rows, descending a b ↔ newestFirst (toActivity a) (toActivity b) := by
    intro a ha b hb
    have hTs : ∀ row ∈ sqlite.rows, (toActivity row).event.ts = row.ts := fun row hRow =>
      congrArg MemberActivityRow.ts (h.readable row hRow).columns
    rw [newestFirst, hTs a ha, hTs b hb]
    rfl
  rw [List.map_insertionSort descending newestFirst toActivity _ fun a ha b hb =>
    hOrder a (sqlite.memberActivity.mem_of_mem_select ha) b (sqlite.memberActivity.mem_of_mem_select hb), h.selected filter,
    insertionSort_perm ((h.strict filter).sublist List.filter_sublist) (List.reverse_perm _)]

/-- The first rows of the bucket are in the order of their times, and none behind them is newer. -/
def ReadsInOrder (filter : ListActivityFilter) (memory : InMemoryActivityStore P) : Prop :=
  let rows := candidates filter memory
  let limit := clampListLimit filter.limit memory.maxLimit none
  rows = [] ∨ 0 < limit ∧ (∀ row ∈ rows.take limit, belowOpen filter row = true) ∧
    Leads newestFirst limit (rows.filter (belowOpen filter))

omit h in
instance (filter : ListActivityFilter) (memory : InMemoryActivityStore P) [DecidableEq P] :
    Decidable (ReadsInOrder filter memory) := inferInstanceAs (Decidable (_ ∨ _))

theorem Matches.lists_agree_iff {filter : ListActivityFilter}
    (hLimit : clampListLimit filter.limit maxLimit none =
      clampListLimit filter.limit SqliteActivityStore.MAX_LIMIT (some SqliteActivityStore.DEFAULT_LIMIT)) :
    list filter memory = SqliteActivityStore.list schema filter sqlite ↔ ReadsInOrder filter memory := by
  have hStrict := (h.strict filter).sublist (List.filter_sublist (p := belowOpen filter))
  rw [ReadsInOrder, list_eq, h.list_sqlite, h.limit, ← hLimit]
  generalize clampListLimit filter.limit maxLimit none = limit
  by_cases hNone : candidates filter memory = []
  · simp [hNone]
  · rw [or_iff_right hNone]
    rcases Nat.eq_zero_or_pos limit with rfl | hPos
    · simp [hNone]
    · rw [Nat.max_eq_right hPos]
      constructor
      · intro hSame
        have hBelow : ∀ row ∈ (candidates filter memory).take limit, belowOpen filter row = true := by
          intro row hRow
          rw [hSame] at hRow
          exact (List.mem_filter.mp ((List.mem_insertionSort _).mp (List.mem_of_mem_take hRow))).2
        refine ⟨hPos, hBelow, (take_insertionSort_eq_iff hStrict limit).mp ?_⟩
        rw [take_filter_of_forall hBelow]
        exact hSame.symm
      · rintro ⟨_, hBelow, hLeads⟩
        rw [(take_insertionSort_eq_iff hStrict limit).mpr hLeads, take_filter_of_forall hBelow]

end Lists

section Writes

variable {maxLimit : Nat} {memory : InMemoryActivityStore P} {sqlite : SqliteActivityStore P}
  (h : Matches schema maxLimit memory sqlite)
include h

theorem Matches.deleted (cutoffTs : Rat)
    (hTs : ∀ row ∈ sqlite.rows, isPruned cutoffTs (toActivity row) = decide ((row.ts : Rat) < cutoffTs)) :
    (prune cutoffTs memory).1 = (SqliteActivityStore.prune cutoffTs sqlite).1 := by
  -- A row that goes is counted under its member, who has a bucket.
  let place (row : MemberActivityRow P) : Option String := if (row.ts : Rat) < cutoffTs then some row.memberName else none
  have hBucket : ∀ bucket ∈ memory.rowsByMember.rows, (bucket.rows.filter (isPruned cutoffTs)).length =
      sqlite.rows.countP fun row => place row = some bucket.memberName := by
    intro bucket hMem
    have hRows := h.buckets bucket.memberName
    rw [bucketOf, Table.find_key hMem] at hRows
    rw [show bucket.rows = _ from hRows, List.filter_map, List.length_map, List.filter_filter, ← List.countP_eq_length_filter]
    refine List.countP_congr fun row hRow => ?_
    rw [comp_apply, hTs row hRow]
    by_cases hOld : (row.ts : Rat) < cutoffTs <;> simp [place, hOld]
  have hKnown : ∀ row ∈ sqlite.rows, row.memberName ∈ memory.rowsByMember.rows.map ActivityBucket.memberName := by
    intro row hRow
    have hRows := h.buckets row.memberName
    rw [bucketOf] at hRows
    cases hFind : memory.rowsByMember.find row.memberName with
    | some bucket => exact List.mem_map.mpr ⟨bucket, Table.mem_of_find hFind, Table.key_of_find hFind⟩
    | none =>
      rw [hFind] at hRows
      have hEmpty := List.map_eq_nil_iff.mp (show (sqlite.rows.filter _).map toActivity = [] from hRows.symm)
      exact absurd (decide_eq_true rfl) (List.filter_eq_nil_iff.mp hEmpty row hRow)
  calc
    (prune cutoffTs memory).1 = ((memory.rowsByMember.rows.map ActivityBucket.memberName).map fun name =>
        sqlite.rows.countP fun row => place row = some name).sum := by
      rw [List.map_map]
      exact congrArg List.sum (List.map_congr_left hBucket)
    _ = sqlite.rows.countP fun row => (place row).any fun name =>
        name ∈ memory.rowsByMember.rows.map ActivityBucket.memberName :=
      Table.sum_countP_of_nodup memory.rowsByMember.nodup place sqlite.rows
    _ = sqlite.rows.countP fun row => decide ((row.ts : Rat) < cutoffTs) := by
      refine List.countP_congr fun row hRow => ?_
      by_cases hOld : (row.ts : Rat) < cutoffTs
      · simp only [place, hOld, if_true, Option.any_some, hKnown row hRow, decide_true]
      · simp [place, hOld]
    _ = (SqliteActivityStore.prune cutoffTs sqlite).1 := List.countP_eq_length_filter

theorem Matches.sources_prune (cutoffTs : Rat)
    (hTs : ∀ row ∈ sqlite.rows, isPruned cutoffTs (toActivity row) = decide ((row.ts : Rat) < cutoffTs))
    (member sourceId : String) :
    sourceId ∈ ((prune cutoffTs memory).2.sourceIdsByMember member).getD [] ↔
      (SqliteActivityStore.prune cutoffTs sqlite).2.known member sourceId = true := by
  have hLeft : (SqliteActivityStore.prune cutoffTs sqlite).2.known member sourceId = true ↔
      ∃ row ∈ sqlite.rows, row.memberName = member ∧ row.sourceId = some sourceId ∧ ¬(row.ts : Rat) < cutoffTs := by
    rw [SqliteActivityStore.known_iff]
    change (∃ row ∈ sqlite.rows.filter _, _) ↔ _
    simp only [List.mem_filter, Bool.not_eq_true', decide_eq_false_iff_not]
    constructor
    · rintro ⟨row, ⟨hRow, hNew⟩, hMember, hSource⟩
      exact ⟨row, hRow, hMember, hSource, hNew⟩
    · rintro ⟨row, hRow, hMember, hSource, hNew⟩
      exact ⟨row, ⟨hRow, hNew⟩, hMember, hSource⟩
  have hRows := h.buckets member
  rw [bucketOf] at hRows
  rw [hLeft, prune]
  dsimp only
  cases hFind : memory.rowsByMember.find member with
  | none =>
    rw [hFind] at hRows
    have hNone : ∀ row ∈ sqlite.rows, row.memberName ≠ member := by
      intro row hRow hMember
      have hEmpty := List.map_eq_nil_iff.mp (show (sqlite.rows.filter _).map toActivity = [] from hRows.symm)
      exact absurd (decide_eq_true hMember) (List.filter_eq_nil_iff.mp hEmpty row hRow)
    dsimp only
    rw [h.sources, SqliteActivityStore.known_iff]
    refine iff_of_false ?_ ?_
    · rintro ⟨row, hRow, hMember, _⟩
      exact hNone row hRow hMember
    · rintro ⟨row, hRow, hMember, _⟩
      exact hNone row hRow hMember
  | some bucket =>
    rw [hFind] at hRows
    have hMem : ∀ row, row ∈ bucket.rows ↔ ∃ raw ∈ sqlite.rows, raw.memberName = member ∧ toActivity raw = row := by
      intro row
      rw [show bucket.rows = _ from hRows, List.mem_map]
      simp only [List.mem_filter, decide_eq_true_eq, and_assoc]
    have hSourceId : ∀ row ∈ sqlite.rows, (toActivity row).event.sourceId = row.sourceId := fun row hRow =>
      congrArg MemberActivityRow.sourceId (h.readable row hRow).columns
    dsimp only
    unfold keptSourceIds
    split
    · rename_i hEmpty
      refine iff_of_false List.not_mem_nil ?_
      rintro ⟨row, hRow, hMember, _, hNew⟩
      have hPruned := List.filter_eq_nil_iff.mp hEmpty (toActivity row) ((hMem _).mpr ⟨row, hRow, hMember, rfl⟩)
      rw [hTs row hRow] at hPruned
      simp [hNew] at hPruned
    · have hFilter : ∀ (ids : Option (List String)) (p : String → Bool),
          sourceId ∈ (ids.map fun ids => ids.filter p).getD [] ↔ sourceId ∈ ids.getD [] ∧ p sourceId = true := by
        intro ids p
        cases ids with
        | none => simp
        | some ids => exact List.mem_filter
      rw [hFilter, h.sources, SqliteActivityStore.known_iff, decide_eq_true_eq]
      constructor
      · rintro ⟨⟨row, hRow, hMember, hSource⟩, hReleased⟩
        refine ⟨row, hRow, hMember, hSource, fun hOld => hReleased ?_⟩
        refine List.mem_filterMap.mpr ⟨toActivity row, List.mem_filter.mpr ⟨(hMem _).mpr ⟨row, hRow, hMember, rfl⟩, ?_⟩, ?_⟩
        · rw [hTs row hRow, decide_eq_true hOld]
        · rw [hSourceId row hRow, hSource]
      · rintro ⟨row, hRow, hMember, hSource, hNew⟩
        refine ⟨⟨row, hRow, hMember, hSource⟩, fun hReleased => hNew ?_⟩
        obtain ⟨other, hOther, hOtherSource⟩ := List.mem_filterMap.mp hReleased
        obtain ⟨hOther, hPruned⟩ := List.mem_filter.mp hOther
        obtain ⟨raw, hRaw, hRawMember, rfl⟩ := (hMem other).mp hOther
        rw [hSourceId raw hRaw] at hOtherSource
        rw [hTs raw hRaw] at hPruned
        rw [h.once.eq hRow hRaw (hMember.trans hRawMember.symm) hSource hOtherSource]
        exact of_decide_eq_true hPruned

theorem Matches.prune (cutoffTs : Rat) :
    (prune cutoffTs memory).1 = (SqliteActivityStore.prune cutoffTs sqlite).1 ∧
      Matches schema maxLimit (prune cutoffTs memory).2 (SqliteActivityStore.prune cutoffTs sqlite).2 := by
  have hTs : ∀ row ∈ sqlite.rows, isPruned cutoffTs (toActivity row) = decide ((row.ts : Rat) < cutoffTs) := by
    intro row hRow
    rw [isPruned, show (toActivity row).event.ts = row.ts from congrArg MemberActivityRow.ts (h.readable row hRow).columns]
  refine ⟨h.deleted cutoffTs hTs, fun member => ?_, fun member sourceId => ?_, ?_, ?_, h.numbers, h.limit⟩
  · rw [bucketOf_prune, h.buckets, List.filter_map, List.filter_filter]
    change _ = ((sqlite.rows.filter fun row => !decide ((row.ts : Rat) < cutoffTs)).filter _).map toActivity
    rw [List.filter_filter]
    congr 1
    refine List.filter_congr fun row hRow => ?_
    rw [Bool.and_comm, comp_apply, hTs row hRow]
  · exact h.sources_prune cutoffTs hTs member sourceId
  · exact fun row hRow => h.readable row (List.mem_filter.mp hRow).1
  · exact fun member sourceId => (List.filter_sublist.countP_le).trans (h.once member sourceId)

/-- The batch stores nothing, or no event was let go so far and those it lets go are behind those it stores. -/
def NumbersInStep (memory : InMemoryActivityStore P) (sqlite : SqliteActivityStore P) (memberName : String)
    (events : List (ActivityEvent P)) : Prop :=
  let landing := firsts ActivityEvent.sourceId (sqlite.known memberName) events
  landing = [] ∨ memory.nextId = sqlite.memberActivity.sequence + 1 ∧ landing <+: events

omit h in
instance (memory : InMemoryActivityStore P) (sqlite : SqliteActivityStore P) (memberName : String)
    (events : List (ActivityEvent P)) [DecidableEq P] : Decidable (NumbersInStep memory sqlite memberName events) :=
  inferInstanceAs (Decidable (_ ∨ _))

theorem Matches.appended (memberName : String) (events : List (ActivityEvent P)) (now : Int) :
    Appended memberName now (firsts ActivityEvent.sourceId (sqlite.known memberName) events) memory
      (append memberName events now memory) := by
  have hKnown : (fun sourceId => decide (sourceId ∈ (memory.sourceIdsByMember memberName).getD [])) =
      sqlite.known memberName := by
    funext sourceId
    rw [Bool.eq_iff_iff, decide_eq_true_eq, h.sources]
  rw [← hKnown]
  exact appended_append memberName events now memory

theorem Matches.append_iff (memberName : String) (events : List (ActivityEvent P)) (now : Int) :
    (append memberName events now memory).1 =
        (SqliteActivityStore.append memberName events now sqlite).1.1 ↔ NumbersInStep memory sqlite memberName events := by
  rw [(h.appended memberName events now).returned, (SqliteActivityStore.landed_append memberName now events sqlite).inserted,
    SqliteActivityStore.landing, eq_comm, numbered_firsts_eq_iff memberName now h.numbers]
  rfl

theorem Matches.append {memberName : String} {events : List (ActivityEvent P)} {now : Int}
    (hValid : ∀ event ∈ events, schema event = some event)
    (hSame : (append memberName events now memory).1 = (SqliteActivityStore.append memberName events now sqlite).1.1) :
    Matches schema maxLimit (append memberName events now memory).2
      (SqliteActivityStore.append memberName events now sqlite).2 := by
  have hMemory := h.appended memberName events now
  have hSqlite := SqliteActivityStore.landed_append memberName now events sqlite
  have hInserted : ∀ row ∈ (SqliteActivityStore.append memberName events now sqlite).1.1, row.memberName = memberName ∧
      row.event ∈ events := by
    intro row hRow
    rw [hSqlite.inserted] at hRow
    refine ⟨(SqliteActivityStore.mem_landing hRow).1, ?_⟩
    have hEvent := List.mem_map_of_mem (f := ActivityRow.event) hRow
    rw [SqliteActivityStore.map_event_landing] at hEvent
    exact (firsts_sublist _ _ _).mem hEvent
  refine ⟨fun member => ?_, fun member sourceId => ?_, ?_, ?_, ?_, ?_⟩
  · rw [hMemory.buckets, hSqlite.rows, List.filter_append, List.map_append, ← h.buckets, hSame]
    congr 1
    split
    · rename_i hMember
      subst hMember
      rw [List.filter_eq_self.mpr, List.map_map]
      · exact (List.map_id _).symm
      · intro row hRow
        obtain ⟨landed, hLanded, rfl⟩ := List.mem_map.mp hRow
        exact decide_eq_true (hInserted landed hLanded).1
    · rename_i hOther
      rw [List.filter_eq_nil_iff.mpr, List.map_nil]
      intro row hRow hMember
      obtain ⟨landed, hLanded, rfl⟩ := List.mem_map.mp hRow
      exact hOther ((hInserted landed hLanded).1.symm.trans (of_decide_eq_true hMember))
  · rw [hMemory.sources, h.sources, SqliteActivityStore.known_of_landed hSqlite]
  · intro row hRow
    rw [hSqlite.rows] at hRow
    rcases List.mem_append.mp hRow with hOld | hNew
    · exact h.readable row hOld
    · obtain ⟨row, hLanded, rfl⟩ := List.mem_map.mp hNew
      exact ⟨rfl, hValid row.event (hInserted row hLanded).2⟩
  · exact SqliteActivityStore.oncePerSource_of_landed hSqlite h.once
  · rw [hMemory.nextId, hSqlite.sequence]
    have hLength := (firsts_sublist ActivityEvent.sourceId (sqlite.known memberName) events).length_le
    have hNumbers := h.numbers
    omega
  · rw [hMemory.maxLimit, h.limit]

end Writes

section Runs

variable (schema : ActivityEvent P → Option (ActivityEvent P))

abbrev Stores (P : Type) := InMemoryActivityStore P × SqliteActivityStore P

def both : Machine (Stores P) (Call P) (Answer P × Answer P)
  | (memory, sqlite), call =>
    let (memory, first) := apply memory call
    let (sqlite, second) := SqliteActivityStore.apply schema sqlite call
    ((memory, sqlite), (first, second))

def newStores (maxLimit : Nat) : Stores P := (.empty maxLimit, .empty)

def NewestFirst : Call P → Answer P → Prop
  | .list _, .rows rows => rows.Pairwise newestFirst
  | _, _ => True

/-- Both stores answer the same, and a `list` in the order the interface asks for. -/
def AnsweredAlike (step : Step (Stores P) (Call P) (Answer P × Answer P)) : Prop :=
  step.output.1 = step.output.2 ∧ NewestFirst step.input step.output.2

/-- Valid payloads, and a limit that both stores take for the same number. -/
def WellPosed (maxLimit : Nat) : Call P → Prop
  | .append _ events _ => ∀ event ∈ events, schema event = some event
  | .prune _ => True
  | .list filter => clampListLimit filter.limit maxLimit none =
      clampListLimit filter.limit SqliteActivityStore.MAX_LIMIT (some SqliteActivityStore.DEFAULT_LIMIT)

def InStep (stores : Stores P) : Call P → Prop
  | .append memberName events _ => NumbersInStep stores.1 stores.2 memberName events
  | .prune _ => True
  | .list filter => ReadsInOrder filter stores.1

variable {schema} {maxLimit : Nat}

theorem Matches.list_newestFirst {memory : InMemoryActivityStore P} {sqlite : SqliteActivityStore P}
    (h : Matches schema maxLimit memory sqlite) (filter : ListActivityFilter) :
    (SqliteActivityStore.list schema filter sqlite).Pairwise newestFirst := by
  rw [h.list_sqlite]
  exact (List.pairwise_insertionSort newestFirst _).sublist (List.take_sublist _ _)

variable {stores : Stores P} {call : Call P}

theorem answeredAlike_iff (h : Matches schema maxLimit stores.1 stores.2)
    (hCall : WellPosed schema maxLimit call) :
    AnsweredAlike (stepAt (both schema) stores call) ↔ InStep stores call := by
  cases call with
  | append memberName events now =>
    rw [InStep, ← h.append_iff memberName events now]
    constructor
    · rintro ⟨hSame, _⟩
      exact Answer.rows.inj hSame
    · intro hSame
      exact ⟨congrArg Answer.rows hSame, trivial⟩
  | prune cutoffTs => exact iff_of_true ⟨congrArg Answer.deleted (h.prune cutoffTs).1, trivial⟩ trivial
  | list filter =>
    rw [InStep, ← h.lists_agree_iff hCall]
    constructor
    · rintro ⟨hSame, _⟩
      exact Answer.rows.inj hSame
    · intro hSame
      exact ⟨congrArg Answer.rows hSame, h.list_newestFirst filter⟩

theorem matches_both (h : Matches schema maxLimit stores.1 stores.2)
    (hCall : WellPosed schema maxLimit call)
    (hAlike : AnsweredAlike (stepAt (both schema) stores call)) :
    Matches schema maxLimit (both schema stores call).1.1 (both schema stores call).1.2 := by
  cases call with
  | append memberName events now => exact h.append hCall (Answer.rows.inj hAlike.1)
  | prune cutoffTs => exact (h.prune cutoffTs).2
  | list filter => exact h

/-- Two stores answer a run of calls alike exactly when every call of it finds them in step. -/
theorem stores_agree_iff {maxLimit : Nat} {calls : List (Call P)} (hCalls : ∀ call ∈ calls, WellPosed schema maxLimit call) :
    (∀ step ∈ run (both schema) (newStores maxLimit) calls, AnsweredAlike step) ↔
      ∀ step ∈ run (both schema) (newStores maxLimit) calls, InStep step.before step.input :=
  forall_step_iff (R := fun stores : Stores P => Matches schema maxLimit stores.1 stores.2)
    (fun _ _ h hCall => answeredAlike_iff h hCall) (fun _ _ h hCall => matches_both h hCall) (matches_empty maxLimit) hCalls

end Runs

section Runs

def noted (ts : Nat) (sourceId : Option String) : ActivityEvent Unit := ⟨.toolAction, ts, sourceId, ()⟩

def everything : ListActivityFilter := ⟨"ada", none, none, none, none, some (.finite 10)⟩

theorem wellPosed_everything : WellPosed (some : ActivityEvent Unit → _) 1000 (.list everything) := by
  change clampListLimit _ _ _ = clampListLimit _ _ _
  decide

def lateCalls : List (Call Unit) := [.append "ada" [noted 2 none] 0, .append "ada" [noted 1 none] 0, .list everything]

/-- An event that comes late is listed first by one store and last by the other. -/
theorem late_event_listed_first :
    (∀ call ∈ lateCalls, WellPosed some 1000 call) ∧
      ¬∀ step ∈ run (both some) (newStores 1000) lateCalls, AnsweredAlike step := by
  constructor
  · intro call hCall
    simp only [lateCalls, List.mem_cons, List.not_mem_nil, or_false] at hCall
    rcases hCall with rfl | rfl | rfl
    · exact fun _ _ => rfl
    · exact fun _ _ => rfl
    · exact wellPosed_everything
  · intro h
    have hLast := (h _ (List.getLast_mem (List.cons_ne_nil _ _))).1
    revert hLast
    decide

def promptCalls : List (Call Unit) := [.append "ada" [noted 1 none, noted 2 (some "a")] 0, .list everything]

theorem stores_agree_two : AnsweredAlike ((run (both some) (newStores 1000) promptCalls).getLast (List.cons_ne_nil _ _)) := by
  refine (stores_agree_iff (?_ : ∀ call ∈ promptCalls, WellPosed some 1000 call)).mpr ?_ _ (List.getLast_mem _)
  · exact List.forall_mem_cons.mpr ⟨fun _ _ => rfl, List.forall_mem_cons.mpr ⟨wellPosed_everything, by simp⟩⟩
  · refine List.forall_mem_cons.mpr ⟨?_, List.forall_mem_cons.mpr ⟨?_, by simp⟩⟩
    · change NumbersInStep _ _ _ _
      decide
    · change ReadsInOrder _ _
      decide

end Runs

end ActivityStore

end CommandSuite
