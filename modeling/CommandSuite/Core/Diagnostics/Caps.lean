import CommandSuite.Core.Diagnostics.Health
import CommandSuite.Core.Diagnostics.Ledger
import CommandSuite.Library.Rows

/-! # The storage caps

The emitter with the latch of its adapter, and sweeps, when the storage fails at any write.
-/

namespace CommandSuite.Diagnostics

open Library Table Transcript

/-! ## Transactions -/

inductive Transaction where
  | one (stage : Stage)
  | fold (detailCut hourCut dayCut : Int)
  -- the first statement of `recordFanoutTruncated` without the second
  | fanoutFolded (n : Nat) (ts : Int)

def Transaction.perform : Transaction → Store → Store
  | .one stage, store => stage.perform store
  | .fold detailCut hourCut dayCut, store => dropDays dayCut (foldHours hourCut (foldDetail detailCut store))
  | .fanoutFolded n ts, store => foldFact .retentionFanoutTruncated n ts store

def performAll (transactions : List Transaction) (store : Store) : Store :=
  transactions.foldl (fun store transaction => transaction.perform store) store

def Call.transactions (options : DiagnosticOptions) (clock : Nat → Int) : Call → List Transaction
  | .sweep => .fold (clock 0 - options.detailMs) (clock 0 - options.hourMs) (clock 0 - options.dayMs) ::
      (Diagnostics.enforceCaps options fun reading => clock (reading + 1)).map .one
  | call => (call.stages options clock).map .one

theorem performAll_stages (stages : List Stage) (store : Store) :
    performAll (stages.map .one) store = stages.foldl (fun store stage => stage.perform store) store := by
  rw [performAll, List.foldl_map]
  rfl

theorem performAll_transactions (request : Request) (store : Store) :
    performAll (request.call.transactions request.options request.clock) store = (serve store request).1 := by
  obtain ⟨options, clock, call⟩ := request
  cases call with
  | sweep => exact performAll_stages _ _
  | record cause members => exact performAll_stages _ _
  | enforceCaps => exact performAll_stages _ _
  | unavailable => exact performAll_stages _ _
  | resolve cause memberName => exact performAll_stages _ _

/-- The storage fails at a transaction. `folded` is for a fanout whose fact is folded and whose time cannot be set. -/
structure Failure where
  transaction : Nat
  folded : Bool

def Failure.landed (failure : Failure) (transactions : List Transaction) : List Transaction :=
  transactions.take failure.transaction ++
    match transactions[failure.transaction]? with
    | some (.one (.fanoutTruncated n ts)) => if failure.folded then [.fanoutFolded n ts] else []
    | _ => []

def landed (failure : Option Failure) (transactions : List Transaction) : List Transaction :=
  match failure with
  | none => transactions
  | some failure => failure.landed transactions

def throws (failure : Option Failure) (transactions : List Transaction) : Bool :=
  failure.any fun failure => failure.transaction < transactions.length

/-! ## The emitter -/

structure Emitter where
  store : Store
  writeFailed : Bool

/-- A call with its clock and the failure in it. `recorded` says that the record of an outage would land. -/
inductive Action where
  | emit (emission : Emission) (recorded : Bool)
  | sweep

structure Attempt where
  clock : Nat → Int
  failure : Option Failure
  action : Action

def Action.call : Action → Call
  | .emit emission _ => rawEmit emission
  | .sweep => .sweep

def Attempt.transactions (options : DiagnosticOptions) (attempt : Attempt) : List Transaction :=
  attempt.action.call.transactions options attempt.clock

def Attempt.healed (options : DiagnosticOptions) (writeFailed : Bool) (attempt : Attempt) : Bool :=
  match attempt.action with
  | .emit _ recorded => writeFailed && recorded && !throws attempt.failure (attempt.transactions options)
  | .sweep => false

def Attempt.landed (options : DiagnosticOptions) (writeFailed : Bool) (attempt : Attempt) : List Transaction :=
  Diagnostics.landed attempt.failure (attempt.transactions options) ++
    if attempt.healed options writeFailed then [.one (.unavailable (attempt.clock 5))] else []

def Attempt.latches (options : DiagnosticOptions) (writeFailed : Bool) (attempt : Attempt) : Bool :=
  match attempt.action with
  | .emit _ _ => throws attempt.failure (attempt.transactions options) || (writeFailed && !attempt.healed options writeFailed)
  | .sweep => writeFailed

/-- The adapter of `emit`, and `sweep`. -/
def attempt (options : DiagnosticOptions) : Machine Emitter Attempt Unit := fun emitter attempt =>
  (⟨performAll (attempt.landed options emitter.writeFailed) emitter.store, attempt.latches options emitter.writeFailed⟩, ())

/-! ## Caps -/

inductive CappedTable where
  | detail
  | bucket
  | state
  deriving DecidableEq

def Store.count (store : Store) : CappedTable → Nat
  | .detail => store.events.rows.length
  | .bucket => store.buckets.rows.length
  | .state => store.states.rows.length

def DiagnosticOptions.cap (options : DiagnosticOptions) : CappedTable → Int
  | .detail => options.maxDetailRows
  | .bucket => options.maxBucketRows
  | .state => options.maxStateRows

def Within (options : DiagnosticOptions) (store : Store) : Prop := ∀ table, (store.count table : Int) ≤ options.cap table

theorem CappedTable.forall_iff {P : CappedTable → Prop} : (∀ table, P table) ↔ P .detail ∧ P .bucket ∧ P .state :=
  ⟨fun h => ⟨h _, h _, h _⟩, fun ⟨hDetail, hBucket, hState⟩ table => by cases table <;> assumption⟩

instance (options : DiagnosticOptions) (store : Store) : Decidable (Within options store) :=
  decidable_of_iff _ CappedTable.forall_iff.symm

def Fresh (store : Store) : Prop := ∀ row ∈ store.events.rows, row.id < store.nextId

theorem fresh_empty : Fresh .empty := fun _ hRow => absurd hRow List.not_mem_nil

def Transaction.enforces : Transaction → Option CappedTable
  | .one (.capDetail _ _) => some .detail
  | .one (.capBuckets _ _) => some .bucket
  | .one (.capStates _ _) => some .state
  | _ => none

/-! ## Room -/

/-- The bucket of the hour is there already, or there is room for it. -/
def FactFits (options : DiagnosticOptions) (cause : DiagnosticCause) (ts : Int) (store : Store) : Prop :=
  store.buckets.find (bucketKey cause UNATTRIBUTED .hour ts) ≠ none ∨ (store.buckets.rows.length : Int) < options.maxBucketRows

def failingKeys (cause : DiagnosticCause) (members : List String) (store : Store) : List (DiagnosticCause × String) :=
  (store.states.rows.map StateRow.key ++ members.map fun memberName => (cause, memberName)).dedup

def rollUp (hourCut : Int) (key : BucketKey) : BucketKey := if agedHour hourCut key then dayOf key else key

def sweptKeys (detailCut hourCut dayCut : Int) (store : Store) : List BucketKey :=
  let details := store.events.select fun row => row.ts < detailCut
  let hours := store.buckets.rows.map BucketRow.key ++ details.map fun row => bucketKey row.cause row.memberName .hour row.ts
  ((hours.map (rollUp hourCut)).filter fun key => !agedDay dayCut key).dedup

def Transaction.HasRoom (options : DiagnosticOptions) (store : Store) : Transaction → CappedTable → Prop
  | .one (.insert _ members _), .detail => (store.events.rows.length + members.length : Int) ≤ options.maxDetailRows
  | .one (.insert cause members _), .state =>
    healthMode cause = .incident → ((failingKeys cause members store).length : Int) ≤ options.maxStateRows
  | .one (.fanoutTruncated _ ts), .bucket => FactFits options .retentionFanoutTruncated ts store
  | .fanoutFolded _ ts, .bucket => FactFits options .retentionFanoutTruncated ts store
  | .one (.unavailable ts), .bucket => FactFits options .retentionUnavailable ts store
  | .one (.capDetail maxDetailRows ts), .bucket =>
    (store.events.rows.length : Int) > maxDetailRows → FactFits options .retentionOverflow ts store
  | .one (.capStates maxStateRows ts), .bucket =>
    (store.states.rows.length : Int) > maxStateRows → FactFits options .retentionOverflow ts store
  | .fold detailCut hourCut dayCut, .bucket => ((sweptKeys detailCut hourCut dayCut store).length : Int) ≤ options.maxBucketRows
  | _, _ => True

/-- Every transaction has room in every table whose cap is not enforced after it. -/
def FindsRoom (options : DiagnosticOptions) : List Transaction → Store → Prop
  | [], _ => True
  | transaction :: later, store =>
    (∀ table, (∀ other ∈ later, other.enforces ≠ some table) → transaction.HasRoom options store table) ∧
      FindsRoom options later (transaction.perform store)

/-! ## What is in the tables -/

section Tables

variable {store : Store}

theorem Fresh.insertEvents (h : Fresh store) (cause : DiagnosticCause) (members : List String) (ts : Int) :
    Fresh (insertEvents cause members ts store) ∧
      (insertEvents cause members ts store).events.rows.length = store.events.rows.length + members.length := by
  unfold Diagnostics.insertEvents
  induction members generalizing store with
  | nil => exact ⟨h, rfl⟩
  | cons memberName members ih =>
    have hRows := rows_insertEvent h cause ts memberName
    have hEvents : (upsertState cause ts memberName (insertEvent cause ts store memberName)).events =
        (insertEvent cause ts store memberName).events := by
      unfold upsertState
      split <;> rfl
    have hFresh : Fresh (upsertState cause ts memberName (insertEvent cause ts store memberName)) := by
      intro row hRow
      rw [nextId_upsertState]
      rw [hEvents, hRows] at hRow
      obtain hOld | hNew := List.mem_append.mp hRow
      · exact (h row hOld).trans (Nat.lt_succ_self _)
      · rw [List.mem_singleton.mp hNew]
        exact Nat.lt_succ_self _
    rw [List.foldl_cons]
    refine ⟨(ih hFresh).1, ?_⟩
    rw [(ih hFresh).2, hEvents, hRows, List.length_append, List.length_singleton, List.length_cons]
    omega

theorem buckets_insertEvents (cause : DiagnosticCause) (members : List String) (ts : Int) (store : Store) :
    (insertEvents cause members ts store).buckets = store.buckets := by
  unfold Diagnostics.insertEvents
  induction members generalizing store with
  | nil => rfl
  | cons memberName members ih =>
    rw [List.foldl_cons, ih]
    unfold upsertState
    split <;> rfl

variable {cause : DiagnosticCause}

theorem states_insertEvents_point (hMode : healthMode cause ≠ .incident) (members : List String)
    (ts : Int) (store : Store) : (insertEvents cause members ts store).states = store.states := by
  unfold Diagnostics.insertEvents
  induction members generalizing store with
  | nil => rfl
  | cons memberName members ih =>
    rw [List.foldl_cons, ih]
    unfold upsertState
    split
    · rename_i hIncident
      exact absurd hIncident hMode
    · rfl

theorem mem_states_insertEvents (hMode : healthMode cause = .incident) (members : List String) (ts : Int)
    (store : Store) (key : DiagnosticCause × String) : key ∈ (insertEvents cause members ts store).states.rows.map StateRow.key ↔
      key ∈ store.states.rows.map StateRow.key ∨ key ∈ members.map fun memberName => (cause, memberName) := by
  unfold Diagnostics.insertEvents
  induction members generalizing store with
  | nil => simp
  | cons memberName members ih =>
    have hStates : (upsertState cause ts memberName (insertEvent cause ts store memberName)).states =
        store.states.insertOrIgnore ⟨cause, memberName, ts⟩ := by
      unfold upsertState
      split
      · rfl
      · rename_i hPoint
        rw [hMode] at hPoint
        cases hPoint
    rw [List.foldl_cons, ih, hStates, mem_keys_insertOrIgnore, List.map_cons, List.mem_cons, or_assoc]

theorem length_states_insertEvents (hMode : healthMode cause = .incident) (members : List String)
    (ts : Int) (store : Store) :
    (insertEvents cause members ts store).states.rows.length = (failingKeys cause members store).length := by
  have hKeys (key : DiagnosticCause × String) : key ∈ (insertEvents cause members ts store).states.rows.map StateRow.key ↔
      key ∈ store.states.rows.map StateRow.key ++ members.map fun memberName => (cause, memberName) := by
    rw [mem_states_insertEvents hMode, List.mem_append]
  exact length_eq_of_keys hKeys

theorem exists_raiseFloor (instant : Int) (store : Store) :
    ∃ floor, raiseFloor instant store = { store with coverageFloor := floor } := by
  unfold raiseFloor
  split
  · exact ⟨_, rfl⟩
  · exact ⟨store.coverageFloor, rfl⟩

theorem capDetail_of_over {maxDetailRows : Int} (h : (store.events.rows.length : Int) > maxDetailRows) (ts : Int) :
    ∃ floor, capDetail maxDetailRows ts store = recordOverflow ts { store with
      events := store.events.delete fun row => row.id ∈ (excessEvents maxDetailRows store).map EventRow.key
      coverageFloor := floor } := by
  rw [capDetail, if_pos h]
  dsimp only
  split
  · rename_i cut _
    obtain ⟨floor, hFloor⟩ := exists_raiseFloor (cut + 1) { store with
      events := store.events.delete fun row => row.id ∈ (excessEvents maxDetailRows store).map EventRow.key }
    exact ⟨floor, congrArg (recordOverflow ts) hFloor⟩
  · exact ⟨store.coverageFloor, rfl⟩

theorem capBuckets_of_over {maxBucketRows : Int} (h : (store.buckets.rows.length : Int) > maxBucketRows) (ts : Int) :
    ∃ floor, capBuckets maxBucketRows ts store = recordOverflow ts { store with
      buckets := store.buckets.delete fun row => row.key ∈ (excessBuckets maxBucketRows store).map BucketRow.key
      coverageFloor := floor } := by
  rw [capBuckets, if_pos h]
  dsimp only
  split
  · rename_i cut _
    obtain ⟨floor, hFloor⟩ := exists_raiseFloor cut { store with
      buckets := store.buckets.delete fun row => row.key ∈ (excessBuckets maxBucketRows store).map BucketRow.key }
    exact ⟨floor, congrArg (recordOverflow ts) hFloor⟩
  · exact ⟨store.coverageFloor, rfl⟩

theorem exists_dropDays (dayCut : Int) (store : Store) :
    ∃ floor, dropDays dayCut store = { store with
      buckets := store.buckets.delete fun row => agedDay dayCut row.key
      coverageFloor := floor } := by
  unfold Diagnostics.dropDays
  split
  · rename_i hMax
    have hNone : store.buckets.delete (fun row => agedDay dayCut row.key) = store.buckets := delete_of_none fun row hRow => by
      simpa using List.filter_eq_nil_iff.mp (eq_nil_of_max? hMax) row hRow
    rw [hNone]
    exact ⟨store.coverageFloor, rfl⟩
  · exact exists_raiseFloor _ _

theorem capDetail_others (maxDetailRows ts : Int) (store : Store) :
    (capDetail maxDetailRows ts store).states = store.states ∧ (capDetail maxDetailRows ts store).nextId = store.nextId ∧
      (capDetail maxDetailRows ts store).buckets = if (store.events.rows.length : Int) > maxDetailRows then
        (foldFact .retentionOverflow 1 ts store).buckets else store.buckets := by
  by_cases hOver : (store.events.rows.length : Int) > maxDetailRows
  · obtain ⟨floor, hCapped⟩ := capDetail_of_over hOver ts
    rw [hCapped, if_pos hOver]
    exact ⟨rfl, rfl, rfl⟩
  · rw [capDetail, if_neg hOver, if_neg hOver]
    exact ⟨rfl, rfl, rfl⟩

theorem capBuckets_others (maxBucketRows ts : Int) (store : Store) :
    (capBuckets maxBucketRows ts store).events = store.events ∧ (capBuckets maxBucketRows ts store).nextId = store.nextId ∧
      (capBuckets maxBucketRows ts store).states = store.states := by
  by_cases hOver : (store.buckets.rows.length : Int) > maxBucketRows
  · obtain ⟨floor, hCapped⟩ := capBuckets_of_over hOver ts
    rw [hCapped]
    exact ⟨rfl, rfl, rfl⟩
  · rw [capBuckets, if_neg hOver]
    exact ⟨rfl, rfl, rfl⟩

theorem capStates_others (maxStateRows ts : Int) (store : Store) :
    (capStates maxStateRows ts store).events = store.events ∧ (capStates maxStateRows ts store).nextId = store.nextId ∧
      (capStates maxStateRows ts store).buckets = if (store.states.rows.length : Int) > maxStateRows then
        (foldFact .retentionOverflow 1 ts store).buckets else store.buckets := by
  rw [capStates]
  split <;> exact ⟨rfl, rfl, rfl⟩

theorem fold_others (detailCut hourCut dayCut : Int) (store : Store) :
    ((Transaction.fold detailCut hourCut dayCut).perform store).events = store.events.delete (fun row => row.ts < detailCut) ∧
      ((Transaction.fold detailCut hourCut dayCut).perform store).nextId = store.nextId ∧
      ((Transaction.fold detailCut hourCut dayCut).perform store).states = store.states := by
  obtain ⟨floor, hDays⟩ := exists_dropDays dayCut (foldHours hourCut (foldDetail detailCut store))
  rw [Transaction.perform, hDays]
  exact ⟨rfl, rfl, rfl⟩

theorem mem_rollUp_iff {hourCut : Int} {key : BucketKey} :
    ((key ∈ store.buckets.rows.map BucketRow.key ∨
      key ∈ (store.buckets.select fun row => agedHour hourCut row.key).map fun row => dayOf row.key) ∧
        agedHour hourCut key = false) ↔ key ∈ (store.buckets.rows.map BucketRow.key).map (rollUp hourCut) := by
  simp only [List.mem_map, mem_select, exists_exists_and_eq_and, rollUp]
  constructor
  · rintro ⟨⟨row, hRow, rfl⟩ | ⟨row, ⟨hRow, hAged⟩, rfl⟩, hNot⟩
    · exact ⟨row, hRow, if_neg (hNot ▸ Bool.false_ne_true)⟩
    · exact ⟨row, hRow, if_pos hAged⟩
  · rintro ⟨row, hRow, rfl⟩
    split
    · rename_i hAged
      exact ⟨.inr ⟨row, ⟨hRow, hAged⟩, rfl⟩, agedHour_dayOf hourCut row.key⟩
    · rename_i hNot
      exact ⟨.inl ⟨row, hRow, rfl⟩, (Bool.not_eq_true _).mp hNot⟩

theorem length_buckets_fold (detailCut hourCut dayCut : Int) (store : Store) :
    ((Transaction.fold detailCut hourCut dayCut).perform store).buckets.rows.length =
      (sweptKeys detailCut hourCut dayCut store).length := by
  obtain ⟨floor, hDays⟩ := exists_dropDays dayCut (foldHours hourCut (foldDetail detailCut store))
  rw [Transaction.perform, hDays]
  have hDetail (key : BucketKey) : key ∈ (foldDetail detailCut store).buckets.rows.map BucketRow.key ↔
      key ∈ store.buckets.rows.map BucketRow.key ++ (store.events.select fun row => row.ts < detailCut).map
        fun row => bucketKey row.cause row.memberName .hour row.ts := by
    rw [List.mem_append]
    exact mem_keys_foldl_upsert _ _
  have hHours (key : BucketKey) : key ∈ (foldHours hourCut (foldDetail detailCut store)).buckets.rows.map BucketRow.key ↔
      key ∈ ((foldDetail detailCut store).buckets.rows.map BucketRow.key).map (rollUp hourCut) := by
    refine (mem_keys_delete (agedHour hourCut)).trans ?_
    refine (and_congr_left fun _ => mem_keys_foldl_upsert _ _).trans ?_
    exact mem_rollUp_iff
  have hKeys (key : BucketKey) : key ∈ (delete (foldHours hourCut (foldDetail detailCut store)).buckets
      fun row => agedDay dayCut row.key).rows.map BucketRow.key ↔
        key ∈ ((store.buckets.rows.map BucketRow.key ++ (store.events.select fun row => row.ts < detailCut).map
          fun row => bucketKey row.cause row.memberName .hour row.ts).map (rollUp hourCut)).filter fun key => !agedDay dayCut key := by
    refine (mem_keys_delete (agedDay dayCut)).trans ?_
    rw [hHours, List.mem_filter, List.mem_map, List.mem_map]
    simp only [hDetail, Bool.not_eq_true']
  exact length_eq_of_keys hKeys

end Tables

/-! ## Counts -/

section Counts

variable {options : DiagnosticOptions} {store : Store} {transaction : Transaction} {table : CappedTable}

def Transaction.Proper (options : DiagnosticOptions) : Transaction → Prop
  | .one (.capDetail maxDetailRows _) => maxDetailRows = options.maxDetailRows
  | .one (.capBuckets maxBucketRows _) => maxBucketRows = options.maxBucketRows
  | .one (.capStates maxStateRows _) => maxStateRows = options.maxStateRows
  | .one (.foldDetail _) | .one (.foldHours _) | .one (.dropDays _) => False
  | _ => True

def Transaction.Grows : Transaction → Prop
  | .one (.foldDetail _) | .one (.foldHours _) | .one (.dropDays _) | .one (.clearState _ _) | .fold .. => False
  | _ => True

theorem length_foldFact (cause : DiagnosticCause) (n : Nat) (ts : Int) (store : Store) :
    (foldFact cause n ts store).buckets.rows.length =
      store.buckets.rows.length + if store.buckets.find (bucketKey cause UNATTRIBUTED .hour ts) = none then 1 else 0 :=
  length_upsert _

theorem length_foldFact_le (cause : DiagnosticCause) (n : Nat) (ts : Int) (store : Store) :
    (foldFact cause n ts store).buckets.rows.length ≤ store.buckets.rows.length + 1 := by
  rw [length_foldFact]
  split <;> omega

theorem factFits_iff {cause : DiagnosticCause} {ts : Int} (h : (store.buckets.rows.length : Int) ≤ options.maxBucketRows) (n : Nat) :
    FactFits options cause ts store ↔ ((foldFact cause n ts store).buckets.rows.length : Int) ≤ options.maxBucketRows := by
  rw [length_foldFact, FactFits]
  by_cases hFind : store.buckets.find (bucketKey cause UNATTRIBUTED .hour ts) = none
  · rw [if_pos hFind]
    simp only [hFind, ne_eq, not_true_eq_false, false_or]
    omega
  · rw [if_neg hFind]
    exact iff_of_true (.inl hFind) h

theorem length_capDetail {maxDetailRows : Int} (hCap : 1 ≤ maxDetailRows) (ts : Int) :
    ((capDetail maxDetailRows ts store).events.rows.length : Int) = min (store.events.rows.length : Int) maxDetailRows := by
  by_cases hOver : (store.events.rows.length : Int) > maxDetailRows
  · obtain ⟨floor, hCapped⟩ := capDetail_of_over hOver ts
    rw [hCapped]
    have hLength : (store.events.delete fun row => row.id ∈ (excessEvents maxDetailRows store).map EventRow.key).rows.length =
        store.events.rows.length - ((store.events.rows.length : Int) - maxDetailRows).toNat :=
      length_delete_take (List.perm_insertionSort _ _) _ fun _ => decide_eq_true_iff
    change ((store.events.delete _).rows.length : Int) = _
    rw [hLength]
    omega
  · rw [capDetail, if_neg hOver]
    omega

theorem length_capStates {maxStateRows : Int} (hCap : 1 ≤ maxStateRows) (ts : Int) :
    ((capStates maxStateRows ts store).states.rows.length : Int) = min (store.states.rows.length : Int) maxStateRows := by
  by_cases hOver : (store.states.rows.length : Int) > maxStateRows
  · rw [capStates, if_pos hOver]
    have hLength : (store.states.delete fun row => row.key ∈ (excessStates maxStateRows store).map StateRow.key).rows.length =
        store.states.rows.length - ((store.states.rows.length : Int) - maxStateRows).toNat :=
      length_delete_take (List.perm_insertionSort _ _) _ fun _ => decide_eq_true_iff
    change ((store.states.delete _).rows.length : Int) = _
    rw [hLength]
    omega
  · rw [capStates, if_neg hOver]
    omega

theorem length_capBuckets {maxBucketRows : Int} (hCap : 1 ≤ maxBucketRows) (ts : Int) :
    ((capBuckets maxBucketRows ts store).buckets.rows.length : Int) ≤ maxBucketRows := by
  by_cases hOver : (store.buckets.rows.length : Int) > maxBucketRows
  · obtain ⟨floor, hCapped⟩ := capBuckets_of_over hOver ts
    have hLength : (store.buckets.delete fun row => row.key ∈ (excessBuckets maxBucketRows store).map BucketRow.key).rows.length =
        store.buckets.rows.length - ((store.buckets.rows.length : Int) - maxBucketRows + 1).toNat :=
      length_delete_take (List.perm_insertionSort _ _) _ fun _ => decide_eq_true_iff
    rw [hCapped]
    refine (Int.ofNat_le.mpr (length_foldFact_le .retentionOverflow 1 ts _)).trans ?_
    dsimp only
    rw [hLength]
    omega
  · rw [capBuckets, if_neg hOver]
    omega

theorem count_enforced (hCaps : ∀ table, 1 ≤ options.cap table) (hProper : transaction.Proper options)
    (hEnforces : transaction.enforces = some table) : ((transaction.perform store).count table : Int) ≤ options.cap table := by
  rcases transaction with stage | _ | _
  · cases stage with
    | capDetail maxDetailRows ts =>
      obtain rfl : CappedTable.detail = table := Option.some.inj hEnforces
      obtain rfl : maxDetailRows = options.maxDetailRows := hProper
      exact (length_capDetail (hCaps .detail) ts).trans_le (min_le_right _ _)
    | capBuckets maxBucketRows ts =>
      obtain rfl : CappedTable.bucket = table := Option.some.inj hEnforces
      obtain rfl : maxBucketRows = options.maxBucketRows := hProper
      exact length_capBuckets (hCaps .bucket) ts
    | capStates maxStateRows ts =>
      obtain rfl : CappedTable.state = table := Option.some.inj hEnforces
      obtain rfl : maxStateRows = options.maxStateRows := hProper
      exact (length_capStates (hCaps .state) ts).trans_le (min_le_right _ _)
    | _ => cases hEnforces
  · cases hEnforces
  · cases hEnforces

theorem hasRoom_detail_iff (hFresh : Fresh store) (hProper : transaction.Proper options)
    (hOther : transaction.enforces ≠ some .detail) (hCount : (store.events.rows.length : Int) ≤ options.maxDetailRows) :
    transaction.HasRoom options store .detail ↔
      ((transaction.perform store).events.rows.length : Int) ≤ options.maxDetailRows := by
  rcases transaction with stage | ⟨detailCut, hourCut, dayCut⟩ | ⟨n, ts⟩
  · cases stage with
    | insert cause members ts =>
      change _ ↔ ((insertEvents cause members ts store).events.rows.length : Int) ≤ _
      rw [(hFresh.insertEvents cause members ts).2, Nat.cast_add]
      exact Iff.rfl
    | capDetail => exact absurd rfl hOther
    | capBuckets maxBucketRows ts =>
      refine iff_of_true trivial ?_
      change ((capBuckets maxBucketRows ts store).events.rows.length : Int) ≤ _
      rw [(capBuckets_others maxBucketRows ts store).1]
      exact hCount
    | capStates maxStateRows ts =>
      refine iff_of_true trivial ?_
      change ((capStates maxStateRows ts store).events.rows.length : Int) ≤ _
      rw [(capStates_others maxStateRows ts store).1]
      exact hCount
    | fanoutTruncated => exact iff_of_true trivial hCount
    | unavailable => exact iff_of_true trivial hCount
    | clearState => exact iff_of_true trivial hCount
    | foldDetail => exact hProper.elim
    | foldHours => exact hProper.elim
    | dropDays => exact hProper.elim
  · refine iff_of_true trivial ?_
    rw [(fold_others detailCut hourCut dayCut store).1]
    exact (Int.ofNat_le.mpr (length_delete_le _)).trans hCount
  · exact iff_of_true trivial hCount

theorem hasRoom_bucket_iff (hProper : transaction.Proper options) (hOther : transaction.enforces ≠ some .bucket)
    (hCount : (store.buckets.rows.length : Int) ≤ options.maxBucketRows) : transaction.HasRoom options store .bucket ↔
      ((transaction.perform store).buckets.rows.length : Int) ≤ options.maxBucketRows := by
  rcases transaction with stage | ⟨detailCut, hourCut, dayCut⟩ | ⟨n, ts⟩
  · cases stage with
    | insert cause members ts =>
      refine iff_of_true trivial ?_
      change ((insertEvents cause members ts store).buckets.rows.length : Int) ≤ _
      rw [buckets_insertEvents]
      exact hCount
    | capDetail maxDetailRows ts =>
      change (_ → _) ↔ ((capDetail maxDetailRows ts store).buckets.rows.length : Int) ≤ _
      rw [(capDetail_others maxDetailRows ts store).2.2]
      split
      · rename_i hOver
        rw [forall_prop_of_true hOver]
        exact factFits_iff hCount 1
      · rename_i hNot
        exact iff_of_true (fun hOver => absurd hOver hNot) hCount
    | capBuckets => exact absurd rfl hOther
    | capStates maxStateRows ts =>
      change (_ → _) ↔ ((capStates maxStateRows ts store).buckets.rows.length : Int) ≤ _
      rw [(capStates_others maxStateRows ts store).2.2]
      split
      · rename_i hOver
        rw [forall_prop_of_true hOver]
        exact factFits_iff hCount 1
      · rename_i hNot
        exact iff_of_true (fun hOver => absurd hOver hNot) hCount
    | fanoutTruncated n ts => exact factFits_iff hCount n
    | unavailable ts => exact factFits_iff hCount 1
    | clearState => exact iff_of_true trivial hCount
    | foldDetail => exact hProper.elim
    | foldHours => exact hProper.elim
    | dropDays => exact hProper.elim
  · rw [length_buckets_fold]
    exact Iff.rfl
  · exact factFits_iff hCount n

theorem hasRoom_state_iff (hProper : transaction.Proper options) (hOther : transaction.enforces ≠ some .state)
    (hCount : (store.states.rows.length : Int) ≤ options.maxStateRows) : transaction.HasRoom options store .state ↔
      ((transaction.perform store).states.rows.length : Int) ≤ options.maxStateRows := by
  rcases transaction with stage | ⟨detailCut, hourCut, dayCut⟩ | ⟨n, ts⟩
  · cases stage with
    | insert cause members ts =>
      change (_ → _) ↔ ((insertEvents cause members ts store).states.rows.length : Int) ≤ _
      by_cases hMode : healthMode cause = .incident
      · rw [forall_prop_of_true hMode, length_states_insertEvents hMode]
      · rw [states_insertEvents_point hMode]
        exact iff_of_true (fun hIncident => absurd hIncident hMode) hCount
    | capDetail maxDetailRows ts =>
      refine iff_of_true trivial ?_
      change ((capDetail maxDetailRows ts store).states.rows.length : Int) ≤ _
      rw [(capDetail_others maxDetailRows ts store).1]
      exact hCount
    | capBuckets maxBucketRows ts =>
      refine iff_of_true trivial ?_
      change ((capBuckets maxBucketRows ts store).states.rows.length : Int) ≤ _
      rw [(capBuckets_others maxBucketRows ts store).2.2]
      exact hCount
    | capStates => exact absurd rfl hOther
    | fanoutTruncated => exact iff_of_true trivial hCount
    | unavailable => exact iff_of_true trivial hCount
    | clearState => exact iff_of_true trivial ((Int.ofNat_le.mpr (length_delete_le _)).trans hCount)
    | foldDetail => exact hProper.elim
    | foldHours => exact hProper.elim
    | dropDays => exact hProper.elim
  · refine iff_of_true trivial ?_
    rw [(fold_others detailCut hourCut dayCut store).2.2]
    exact hCount
  · exact iff_of_true trivial hCount

theorem hasRoom_iff (hCaps : ∀ table, 1 ≤ options.cap table) (hFresh : Fresh store) (hProper : transaction.Proper options)
    (hCount : transaction.enforces ≠ some table → (store.count table : Int) ≤ options.cap table) :
    transaction.HasRoom options store table ↔ ((transaction.perform store).count table : Int) ≤ options.cap table := by
  by_cases hEnforces : transaction.enforces = some table
  · refine iff_of_true ?_ (count_enforced hCaps hProper hEnforces)
    rcases transaction with stage | _ | _
    · cases stage with
      | capDetail => cases hEnforces; trivial
      | capBuckets => cases hEnforces; trivial
      | capStates => cases hEnforces; trivial
      | _ => cases hEnforces
    · cases hEnforces
    · cases hEnforces
  · cases table with
    | detail => exact hasRoom_detail_iff hFresh hProper hEnforces (hCount hEnforces)
    | bucket => exact hasRoom_bucket_iff hProper hEnforces (hCount hEnforces)
    | state => exact hasRoom_state_iff hProper hEnforces (hCount hEnforces)

theorem length_le_foldFact (cause : DiagnosticCause) (n : Nat) (ts : Int) (store : Store) :
    store.buckets.rows.length ≤ (foldFact cause n ts store).buckets.rows.length := by
  rw [length_foldFact]
  exact Nat.le_add_right _ _

theorem count_le_perform (hFresh : Fresh store) (hGrows : transaction.Grows) (hOther : transaction.enforces ≠ some table) :
    store.count table ≤ (transaction.perform store).count table := by
  rcases transaction with stage | _ | ⟨n, ts⟩
  · cases stage with
    | insert cause members ts =>
      cases table with
      | detail => exact Nat.le.intro (hFresh.insertEvents cause members ts).2.symm
      | bucket => exact le_of_eq (congrArg (fun buckets : Table BucketRow.key => buckets.rows.length) (buckets_insertEvents _ _ _ _).symm)
      | state =>
        change store.states.rows.length ≤ (insertEvents cause members ts store).states.rows.length
        by_cases hMode : healthMode cause = .incident
        · have hKeys : store.states.rows.map StateRow.key ⊆ (insertEvents cause members ts store).states.rows.map StateRow.key :=
            fun key hKey => (mem_states_insertEvents hMode members ts store key).mpr (.inl hKey)
          have hLength := (List.subperm_of_subset store.states.nodup hKeys).length_le
          rwa [List.length_map, List.length_map] at hLength
        · rw [states_insertEvents_point hMode]
    | fanoutTruncated n ts =>
      cases table with
      | detail => exact le_rfl
      | bucket => exact length_le_foldFact _ _ _ _
      | state => exact le_rfl
    | unavailable ts =>
      cases table with
      | detail => exact le_rfl
      | bucket => exact length_le_foldFact _ _ _ _
      | state => exact le_rfl
    | capDetail maxDetailRows ts =>
      cases table with
      | detail => exact absurd rfl hOther
      | bucket =>
        change store.buckets.rows.length ≤ (capDetail maxDetailRows ts store).buckets.rows.length
        rw [(capDetail_others maxDetailRows ts store).2.2]
        split
        · exact length_le_foldFact _ _ _ _
        · exact le_rfl
      | state => exact le_of_eq (congrArg (fun states : Table StateRow.key => states.rows.length) (capDetail_others _ _ _).1.symm)
    | capBuckets maxBucketRows ts =>
      cases table with
      | detail => exact le_of_eq (congrArg (fun events : Table EventRow.key => events.rows.length) (capBuckets_others _ _ _).1.symm)
      | bucket => exact absurd rfl hOther
      | state => exact le_of_eq (congrArg (fun states : Table StateRow.key => states.rows.length) (capBuckets_others _ _ _).2.2.symm)
    | capStates maxStateRows ts =>
      cases table with
      | detail => exact le_of_eq (congrArg (fun events : Table EventRow.key => events.rows.length) (capStates_others _ _ _).1.symm)
      | bucket =>
        change store.buckets.rows.length ≤ (capStates maxStateRows ts store).buckets.rows.length
        rw [(capStates_others maxStateRows ts store).2.2]
        split
        · exact length_le_foldFact _ _ _ _
        · exact le_rfl
      | state => exact absurd rfl hOther
    | clearState => exact hGrows.elim
    | foldDetail => exact hGrows.elim
    | foldHours => exact hGrows.elim
    | dropDays => exact hGrows.elim
  · exact hGrows.elim
  · cases table with
    | detail => exact le_rfl
    | bucket => exact length_le_foldFact _ _ _ _
    | state => exact le_rfl

theorem Fresh.of_subset (h : Fresh store) {after : Store} (hEvents : after.events.rows ⊆ store.events.rows)
    (hId : after.nextId = store.nextId) : Fresh after := fun row hRow => hId ▸ h row (hEvents hRow)

theorem Fresh.perform (h : Fresh store) (hProper : transaction.Proper options) : Fresh (transaction.perform store) := by
  rcases transaction with stage | ⟨detailCut, hourCut, dayCut⟩ | ⟨n, ts⟩
  · cases stage with
    | insert cause members ts => exact (h.insertEvents cause members ts).1
    | capDetail maxDetailRows ts =>
      by_cases hOver : (store.events.rows.length : Int) > maxDetailRows
      · obtain ⟨floor, hCapped⟩ := capDetail_of_over hOver ts
        change Fresh (capDetail maxDetailRows ts store)
        rw [hCapped]
        exact h.of_subset List.filter_sublist.subset rfl
      · change Fresh (capDetail maxDetailRows ts store)
        rw [capDetail, if_neg hOver]
        exact h
    | capBuckets maxBucketRows ts =>
      obtain ⟨hEvents, hId, -⟩ := capBuckets_others maxBucketRows ts store
      exact h.of_subset (hEvents ▸ List.Subset.refl _) hId
    | capStates maxStateRows ts =>
      obtain ⟨hEvents, hId, -⟩ := capStates_others maxStateRows ts store
      exact h.of_subset (hEvents ▸ List.Subset.refl _) hId
    | fanoutTruncated => exact h
    | unavailable => exact h
    | clearState => exact h
    | foldDetail => exact hProper.elim
    | foldHours => exact hProper.elim
    | dropDays => exact hProper.elim
  · obtain ⟨hEvents, hId, -⟩ := fold_others detailCut hourCut dayCut store
    refine h.of_subset ?_ hId
    rw [hEvents]
    exact List.filter_sublist.subset
  · exact h

end Counts

/-! ## Calls -/

section Calls

variable {options : DiagnosticOptions} {transactions : List Transaction} {store : Store}

theorem count_le_performAll {table : CappedTable} (hFresh : Fresh store)
    (hProper : ∀ transaction ∈ transactions, transaction.Proper options) (hGrows : ∀ transaction ∈ transactions, transaction.Grows)
    (hOther : ∀ transaction ∈ transactions, transaction.enforces ≠ some table) :
    store.count table ≤ (performAll transactions store).count table := by
  induction transactions generalizing store with
  | nil => exact le_rfl
  | cons transaction later ih =>
    rw [List.forall_mem_cons] at hProper hGrows hOther
    exact (count_le_perform hFresh hGrows.1 hOther.1).trans (ih (hFresh.perform hProper.1) hProper.2 hGrows.2 hOther.2)

theorem findsRoom_iff (hCaps : ∀ table, 1 ≤ options.cap table) (hFresh : Fresh store)
    (hProper : ∀ transaction ∈ transactions, transaction.Proper options)
    (hGrows : ∀ transaction ∈ transactions.tail, transaction.Grows)
    (hBound : ∀ table, (∀ transaction ∈ transactions, transaction.enforces ≠ some table) →
      (store.count table : Int) ≤ options.cap table) :
    FindsRoom options transactions store ↔ Within options (performAll transactions store) := by
  induction transactions generalizing store with
  | nil => exact iff_of_true trivial fun table => hBound table nofun
  | cons transaction later ih =>
    rw [List.forall_mem_cons] at hProper
    rw [List.tail_cons] at hGrows
    have hNextFresh := hFresh.perform hProper.1
    have hRest := ih hNextFresh hProper.2 fun other hMem => hGrows other (List.mem_of_mem_tail hMem)
    have hRoom (table : CappedTable) (hLater : ∀ other ∈ later, other.enforces ≠ some table) :
        transaction.HasRoom options store table ↔ ((transaction.perform store).count table : Int) ≤ options.cap table :=
      hasRoom_iff hCaps hFresh hProper.1 fun hOther => hBound table (List.forall_mem_cons.mpr ⟨hOther, hLater⟩)
    constructor
    · rintro ⟨hFits, hLater⟩
      exact (hRest fun table hOther => (hRoom table hOther).mp (hFits table hOther)).mp hLater
    · intro hWithin
      -- no later transaction takes a row away that is too many
      have hNext : ∀ table, (∀ other ∈ later, other.enforces ≠ some table) →
          ((transaction.perform store).count table : Int) ≤ options.cap table := fun table hOther =>
        (Int.ofNat_le.mpr (count_le_performAll hNextFresh hProper.2 hGrows hOther)).trans (hWithin table)
      exact ⟨fun table hOther => (hRoom table hOther).mpr (hNext table hOther), (hRest hNext).mpr hWithin⟩

theorem forall_landed {P : Transaction → Prop} (h : ∀ transaction ∈ transactions, P transaction)
    (hFolded : ∀ n ts, P (.fanoutFolded n ts)) (failure : Option Failure) : ∀ transaction ∈ landed failure transactions, P transaction := by
  cases failure with
  | none => exact h
  | some failure =>
    refine List.forall_mem_append.mpr ⟨fun transaction hMem => h transaction (List.mem_of_mem_take hMem), ?_⟩
    split
    · split
      · exact List.forall_mem_singleton.mpr (hFolded _ _)
      · exact nofun
    · exact nofun

theorem forall_tail_landed {P : Transaction → Prop}
    (h : ∀ transaction ∈ transactions.tail, P transaction) (hFolded : ∀ n ts, P (.fanoutFolded n ts)) (failure : Option Failure) :
    ∀ transaction ∈ (landed failure transactions).tail, P transaction := by
  cases failure with
  | none => exact h
  | some failure =>
    obtain ⟨failed, folded⟩ := failure
    cases failed with
    | zero =>
      change ∀ transaction ∈ ([] ++ _ : List Transaction).tail, P transaction
      rw [List.nil_append]
      split
      · split
        · exact nofun
        · exact nofun
      · exact nofun
    | succ failed =>
      cases transactions with
      | nil => exact nofun
      | cons first later => exact forall_landed h hFolded (some ⟨failed, folded⟩)

theorem transactions_record (options : DiagnosticOptions) (clock : Nat → Int) (cause : DiagnosticCause) (members : Option (List String)) : ∃ named truncated,
    (Call.record cause members).transactions options clock = .one (.insert cause named (clock 0)) ::
      ((if truncated > 0 then [.one (.fanoutTruncated truncated (clock 1))] else []) ++
        (enforceCaps options fun reading => clock (reading + 2)).map .one) := by
  simp only [Call.transactions, Call.stages, record, List.map_append, List.map_cons, List.cons_append,
    apply_ite (List.map Transaction.one), List.map_nil]
  exact ⟨_, _, rfl⟩

theorem enforceCaps_proper (clock : Nat → Int) : ∀ transaction ∈ (enforceCaps options clock).map Transaction.one,
    transaction.Proper options ∧ transaction.Grows := by
  simp [enforceCaps, Transaction.Proper, Transaction.Grows]

theorem transactions_proper (clock : Nat → Int) (call : Call) :
    ∀ transaction ∈ call.transactions options clock, transaction.Proper options := by
  cases call with
  | sweep => exact List.forall_mem_cons.mpr ⟨trivial, fun transaction hMem => (enforceCaps_proper _ transaction hMem).1⟩
  | record cause members =>
    obtain ⟨named, truncated, hRecord⟩ := transactions_record options clock cause members
    rw [hRecord, List.forall_mem_cons, List.forall_mem_append]
    refine ⟨trivial, ?_, fun transaction hMem => (enforceCaps_proper _ transaction hMem).1⟩
    split
    · exact List.forall_mem_singleton.mpr trivial
    · exact nofun
  | enforceCaps => exact fun transaction hMem => (enforceCaps_proper clock transaction hMem).1
  | unavailable => exact List.forall_mem_singleton.mpr trivial
  | resolve => exact List.forall_mem_singleton.mpr trivial

theorem transactions_grow (options : DiagnosticOptions) (clock : Nat → Int) (call : Call) :
    ∀ transaction ∈ (call.transactions options clock).tail, transaction.Grows := by
  cases call with
  | sweep =>
    change ∀ transaction ∈ (enforceCaps options fun reading => clock (reading + 1)).map Transaction.one, transaction.Grows
    exact fun transaction hMem => (enforceCaps_proper _ transaction hMem).2
  | record cause members =>
    obtain ⟨named, truncated, hRecord⟩ := transactions_record options clock cause members
    rw [hRecord, List.tail_cons, List.forall_mem_append]
    refine ⟨?_, fun transaction hMem => (enforceCaps_proper _ transaction hMem).2⟩
    split
    · exact List.forall_mem_singleton.mpr trivial
    · exact nofun
  | enforceCaps => exact fun transaction hMem => (enforceCaps_proper clock transaction (List.mem_of_mem_tail hMem)).2
  | unavailable => exact nofun
  | resolve => exact nofun

theorem landed_proper (one : Attempt) (writeFailed : Bool) :
    ∀ transaction ∈ one.landed options writeFailed, transaction.Proper options := by
  refine List.forall_mem_append.mpr ⟨forall_landed (transactions_proper _ _) (fun _ _ => trivial) _, ?_⟩
  split
  · exact List.forall_mem_singleton.mpr trivial
  · exact nofun

theorem landed_grow (one : Attempt) (writeFailed : Bool) :
    ∀ transaction ∈ (one.landed options writeFailed).tail, transaction.Grows := by
  have hLanded := forall_tail_landed (transactions_grow options one.clock one.action.call) (fun _ _ => trivial) one.failure
  have hHealed : ∀ transaction ∈ (if one.healed options writeFailed then [Transaction.one (.unavailable (one.clock 5))] else []),
      transaction.Grows := by
    split
    · exact List.forall_mem_singleton.mpr trivial
    · exact nofun
  unfold Attempt.landed Attempt.transactions
  cases hList : landed one.failure (one.action.call.transactions options one.clock) with
  | nil => exact fun transaction hMem => hHealed transaction (List.mem_of_mem_tail hMem)
  | cons first later =>
    rw [hList] at hLanded
    exact List.forall_mem_append.mpr ⟨hLanded, hHealed⟩

theorem within_attempt_iff (hCaps : ∀ table, 1 ≤ options.cap table) {emitter : Emitter} (hFresh : Fresh emitter.store)
    (hWithin : Within options emitter.store) (one : Attempt) : Within options (attempt options emitter one).1.store ↔
      FindsRoom options (one.landed options emitter.writeFailed) emitter.store :=
  (findsRoom_iff hCaps hFresh (landed_proper one _) (landed_grow one _) fun table _ => hWithin table).symm

theorem Fresh.performAll (h : Fresh store)
    (hProper : ∀ transaction ∈ transactions, transaction.Proper options) : Fresh (performAll transactions store) := by
  induction transactions generalizing store with
  | nil => exact h
  | cons transaction later ih =>
    rw [List.forall_mem_cons] at hProper
    exact ih (h.perform hProper.1) hProper.2

/-- The caps hold after every call exactly if every call finds room. -/
theorem caps_hold_iff (hCaps : ∀ table, 1 ≤ options.cap table) {emitter : Emitter} (hFresh : Fresh emitter.store)
    (hWithin : Within options emitter.store) (attempts : List Attempt) :
    (∀ step ∈ run (attempt options) emitter attempts, Within options step.after.store) ↔
      ∀ step ∈ run (attempt options) emitter attempts,
        FindsRoom options (step.input.landed options step.before.writeFailed) step.before.store :=
  forall_after_iff (P := fun emitter : Emitter => Fresh emitter.store) (fun _ one h => h.performAll (landed_proper one _))
    (fun _ one h hIn => within_attempt_iff hCaps h hIn one) hFresh hWithin attempts

end Calls

section Example

def oneOfEach : DiagnosticOptions := ⟨7 * DAY, 30 * DAY, 400 * DAY, 10, 1, 1⟩

theorem oneOfEach_caps (table : CappedTable) : 1 ≤ oneOfEach.cap table := by
  cases table <;> decide

def outage : List Attempt :=
  [⟨fun _ => 0, some ⟨0, false⟩, .emit (.otlpLogsStoreFailed "ann") true⟩, ⟨fun _ => 0, none, .emit (.otlpLogsStoreFailed "ann") true⟩,
    ⟨fun _ => HOUR, none, .sweep⟩]

theorem outage_within :
    (∀ step ∈ run (attempt oneOfEach) ⟨.empty, false⟩ outage, Within oneOfEach step.after.store) ∧
      ∀ step ∈ run (attempt oneOfEach) ⟨.empty, false⟩ outage,
        FindsRoom oneOfEach (step.input.landed oneOfEach step.before.writeFailed) step.before.store := by
  have hWithin : ∀ step ∈ run (attempt oneOfEach) ⟨.empty, false⟩ outage, Within oneOfEach step.after.store := by decide
  exact ⟨hWithin, (caps_hold_iff oneOfEach_caps fresh_empty (by decide) outage).mp hWithin⟩

def threeFail : List Attempt :=
  [⟨fun _ => 0, none, .emit (.otlpLogsStoreFailed "ann") true⟩, ⟨fun _ => 0, none, .emit (.otlpLogsStoreFailed "ben") true⟩,
    ⟨fun _ => HOUR, none, .emit (.otlpLogsStoreFailed "cid") true⟩]

theorem overflow_exceeds : ¬ ∀ (options : DiagnosticOptions) (attempts : List Attempt), (∀ table, 1 ≤ options.cap table) →
    ∀ step ∈ run (attempt options) ⟨.empty, false⟩ attempts, Within options step.after.store := by
  intro h
  have hWithin := h oneOfEach threeFail oneOfEach_caps
  revert hWithin
  decide

end Example

end CommandSuite.Diagnostics
