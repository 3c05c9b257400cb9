import CommandSuite.Library.Tally
import CommandSuite.Library.Transcript
import Mathlib.Data.List.Sort

/-! # Diagnostics

The store of `packages/core/src/diagnostics.ts`. An event is a detail row first and is folded into the bucket of its
hour and later of its day. Three caps evict rows, and what is destroyed raises the coverage floor.
-/

namespace CommandSuite.Diagnostics

open Library

inductive DiagnosticCause where
  | correlatorBodyRefUnreadable | correlatorBodyLengthMismatch | correlatorUnlinkAfterCaptureFailed
  | correlatorRawCaptureFailed | correlatorBodyJsonParseFailed | correlatorInferenceBuildFailed
  | correlatorRequestIdAssignFailed | correlatorMalformedRecordSkipped | correlatorPendingExchangeDropped
  | rawstoreBlobGunzipFailed | rawstoreBlobHashMismatch
  | genaistoreUnserializableRecordSkipped | genaistoreMalformedRowSkipped
  | telemetrystoreUnserializableRecordSkipped | telemetrystoreMalformedRowSkipped
  | otlpLogsStoreFailed | otlpGenaiIngestFailed | otlpMetricsStoreFailed | codexGenaiIngestEntryFailed
  | activityAppendFailed | toolinvokeAuditAppendFailed | enrollmentSourceLabelTruncated
  | retentionOverflow | retentionFanoutTruncated | retentionUnavailable
  deriving DecidableEq

inductive HealthMode where
  | point
  | incident
  deriving DecidableEq

/-- The modes of `CAUSE_SPEC`. -/
def healthMode : DiagnosticCause → HealthMode
  | .correlatorBodyRefUnreadable | .correlatorRawCaptureFailed | .otlpLogsStoreFailed | .otlpGenaiIngestFailed
  | .otlpMetricsStoreFailed | .codexGenaiIngestEntryFailed | .activityAppendFailed | .toolinvokeAuditAppendFailed => .incident
  | _ => .point

def UNATTRIBUTED : String := ""

def MAX_FANOUT : Nat := 256

def HOUR : Int := 3600000

def DAY : Int := 86400000

/-! ## The tables -/

inductive Resolution where
  | hour
  | day
  deriving DecidableEq

def Resolution.width : Resolution → Int
  | .hour => HOUR
  | .day => DAY

structure EventRow where
  id : Nat
  cause : DiagnosticCause
  memberName : String
  ts : Int

abbrev EventRow.key (row : EventRow) : Nat := row.id

structure BucketKey where
  cause : DiagnosticCause
  memberName : String
  bucketStart : Int
  resolution : Resolution
  deriving DecidableEq

structure BucketRow extends BucketKey where
  bucketEnd : Int
  n : Nat
  firstTs : Int
  lastTs : Int

abbrev BucketRow.key (row : BucketRow) : BucketKey := row.toBucketKey

structure StateRow where
  cause : DiagnosticCause
  memberName : String
  since : Int

abbrev StateRow.key (row : StateRow) : DiagnosticCause × String := (row.cause, row.memberName)

/-- The tables and what `diagnostic_meta` holds. `nextId` is the next id of the autoincrement. -/
structure Store where
  nextId : Nat
  events : Table EventRow.key
  buckets : Table BucketRow.key
  states : Table StateRow.key
  coverageFloor : Option Int
  fanoutTruncatedLast : Option Int
  overflowCount : Nat
  overflowLast : Option Int
  stateEvicted : Bool

def Store.empty : Store := ⟨1, .empty, .empty, .empty, none, none, 0, none, false⟩

/-- `metaNum('coverage_floor', 0)`. -/
def Store.floor (store : Store) : Int := store.coverageFloor.getD 0

def raiseFloor (firstCoveredInstant : Int) (store : Store) : Store :=
  if firstCoveredInstant > store.floor then { store with coverageFloor := some firstCoveredInstant } else store

def Resolution.startOf (resolution : Resolution) (ts : Int) : Int := ts / resolution.width * resolution.width

def bucketKey (cause : DiagnosticCause) (memberName : String) (resolution : Resolution) (ts : Int) : BucketKey :=
  ⟨cause, memberName, resolution.startOf ts, resolution⟩

/-- The row that `foldBucket` inserts. -/
def bucketRow (key : BucketKey) (n : Nat) (firstTs lastTs : Int) : BucketRow :=
  { key with bucketEnd := key.bucketStart + key.resolution.width, n := n, firstTs := firstTs, lastTs := lastTs }

def mergeBuckets (old new : BucketRow) : BucketRow :=
  { old with n := old.n + new.n, firstTs := min old.firstTs new.firstTs, lastTs := max old.lastTs new.lastTs }

def foldBucket (row : BucketRow) (buckets : Table BucketRow.key) : Table BucketRow.key :=
  buckets.upsert row mergeBuckets fun _ _ => rfl

/-! ## Stages

What a call does to the store, one transaction after the other.
-/

def foldFact (cause : DiagnosticCause) (n : Nat) (ts : Int) (store : Store) : Store :=
  { store with buckets := foldBucket (bucketRow (bucketKey cause UNATTRIBUTED .hour ts) n ts ts) store.buckets }

def recordFanoutTruncated (n : Nat) (ts : Int) (store : Store) : Store :=
  { foldFact .retentionFanoutTruncated n ts store with fanoutTruncatedLast := some ts }

def recordOverflow (ts : Int) (store : Store) : Store :=
  { foldFact .retentionOverflow 1 ts store with overflowCount := store.overflowCount + 1, overflowLast := some ts }

def insertEvent (cause : DiagnosticCause) (ts : Int) (store : Store) (memberName : String) : Store :=
  { store with nextId := store.nextId + 1, events := store.events.insertOrIgnore ⟨store.nextId, cause, memberName, ts⟩ }

def upsertState (cause : DiagnosticCause) (ts : Int) (memberName : String) (store : Store) : Store :=
  match healthMode cause with
  | .incident => { store with states := store.states.insertOrIgnore ⟨cause, memberName, ts⟩ }
  | .point => store

def insertEvents (cause : DiagnosticCause) (members : List String) (ts : Int) (store : Store) : Store :=
  members.foldl (fun store memberName => upsertState cause ts memberName (insertEvent cause ts store memberName)) store

/-- The oldest rows by their `ts`, as many as there are over the cap. -/
def excessEvents (maxDetailRows : Int) (store : Store) : List EventRow :=
  (store.events.rows.insertionSort fun left right => left.ts ≤ right.ts).take
    ((store.events.rows.length : Int) - maxDetailRows).toNat

def capDetail (maxDetailRows ts : Int) (store : Store) : Store :=
  if (store.events.rows.length : Int) > maxDetailRows then
    let excess := excessEvents maxDetailRows store
    let rest := { store with events := store.events.delete fun row => row.id ∈ excess.map EventRow.key }
    let raised := match (excess.map EventRow.ts).max? with
      | some cut => raiseFloor (cut + 1) rest
      | none => rest
    recordOverflow ts raised
  else store

def excessBuckets (maxBucketRows : Int) (store : Store) : List BucketRow :=
  (store.buckets.rows.insertionSort fun left right => left.bucketStart ≤ right.bucketStart).take
    ((store.buckets.rows.length : Int) - maxBucketRows + 1).toNat

def capBuckets (maxBucketRows ts : Int) (store : Store) : Store :=
  if (store.buckets.rows.length : Int) > maxBucketRows then
    let excess := excessBuckets maxBucketRows store
    let rest := { store with buckets := store.buckets.delete fun row => row.key ∈ excess.map BucketRow.key }
    let raised := match (excess.map BucketRow.bucketEnd).max? with
      | some cut => raiseFloor cut rest
      | none => rest
    recordOverflow ts raised
  else store

def excessStates (maxStateRows : Int) (store : Store) : List StateRow :=
  (store.states.rows.insertionSort fun left right => left.since ≤ right.since).take
    ((store.states.rows.length : Int) - maxStateRows).toNat

def capStates (maxStateRows ts : Int) (store : Store) : Store :=
  if (store.states.rows.length : Int) > maxStateRows then
    let excess := excessStates maxStateRows store
    { recordOverflow ts { store with states := store.states.delete fun row => row.key ∈ excess.map StateRow.key } with
      stateEvicted := true }
  else store

def foldDetail (detailCut : Int) (store : Store) : Store :=
  let rows := store.events.select fun row => row.ts < detailCut
  { store with
    buckets := rows.foldl (fun buckets row =>
      foldBucket (bucketRow (bucketKey row.cause row.memberName .hour row.ts) 1 row.ts row.ts) buckets) store.buckets
    events := store.events.delete fun row => row.ts < detailCut }

def agedHour (hourCut : Int) (key : BucketKey) : Bool := key.resolution = .hour && key.bucketStart < hourCut

def dayOf (key : BucketKey) : BucketKey := bucketKey key.cause key.memberName .day key.bucketStart

def foldHours (hourCut : Int) (store : Store) : Store :=
  let rows := store.buckets.select fun row => agedHour hourCut row.key
  let folded := rows.foldl (fun buckets row => foldBucket (bucketRow (dayOf row.key) row.n row.firstTs row.lastTs) buckets)
    store.buckets
  { store with buckets := folded.delete fun row => agedHour hourCut row.key }

def agedDay (dayCut : Int) (key : BucketKey) : Bool := key.resolution = .day && key.bucketStart < dayCut

def dropDays (dayCut : Int) (store : Store) : Store :=
  match ((store.buckets.select fun row => agedDay dayCut row.key).map BucketRow.bucketEnd).max? with
  | none => store
  | some removedEnd =>
    raiseFloor removedEnd { store with buckets := store.buckets.delete fun row => agedDay dayCut row.key }

inductive Stage where
  | insert (cause : DiagnosticCause) (members : List String) (ts : Int)
  | fanoutTruncated (n : Nat) (ts : Int)
  | unavailable (ts : Int)
  | capDetail (maxDetailRows ts : Int)
  | capBuckets (maxBucketRows ts : Int)
  | capStates (maxStateRows ts : Int)
  | foldDetail (detailCut : Int)
  | foldHours (hourCut : Int)
  | dropDays (dayCut : Int)
  | clearState (cause : DiagnosticCause) (memberName : String)

def Stage.perform : Stage → Store → Store
  | .insert cause members ts => insertEvents cause members ts
  | .fanoutTruncated n ts => recordFanoutTruncated n ts
  | .unavailable ts => foldFact .retentionUnavailable 1 ts
  | .capDetail maxDetailRows ts => Diagnostics.capDetail maxDetailRows ts
  | .capBuckets maxBucketRows ts => Diagnostics.capBuckets maxBucketRows ts
  | .capStates maxStateRows ts => Diagnostics.capStates maxStateRows ts
  | .foldDetail detailCut => Diagnostics.foldDetail detailCut
  | .foldHours hourCut => Diagnostics.foldHours hourCut
  | .dropDays dayCut => Diagnostics.dropDays dayCut
  | .clearState cause memberName => fun store =>
    { store with states := store.states.delete fun row => row.key = (cause, memberName) }

/-! ## Calls -/

structure DiagnosticOptions where
  detailMs : Int
  hourMs : Int
  dayMs : Int
  maxDetailRows : Int
  maxBucketRows : Int
  maxStateRows : Int

/-- A call with the clock it reads. `unavailable` is the first write that succeeds after one that failed. -/
inductive Call where
  | record (cause : DiagnosticCause) (members : Option (List String))
  | sweep
  | enforceCaps
  | unavailable
  | resolve (cause : DiagnosticCause) (memberName : Option String)

def enforceCaps (options : DiagnosticOptions) (clock : Nat → Int) : List Stage :=
  [.capDetail options.maxDetailRows (clock 0), .capBuckets options.maxBucketRows (clock 1),
    .capStates options.maxStateRows (clock 2)]

def record (options : DiagnosticOptions) (clock : Nat → Int) (cause : DiagnosticCause) (members : Option (List String)) :
    List Stage :=
  let all := (members.getD []).eraseDups
  let named := if all.length > MAX_FANOUT then [] else all
  let truncated := if all.length > MAX_FANOUT then all.length else 0
  [.insert cause (if named.isEmpty then [UNATTRIBUTED] else named) (clock 0)] ++
    (if truncated > 0 then [.fanoutTruncated truncated (clock 1)] else []) ++
    enforceCaps options fun reading => clock (reading + 2)

def sweep (options : DiagnosticOptions) (clock : Nat → Int) : List Stage :=
  [.foldDetail (clock 0 - options.detailMs), .foldHours (clock 0 - options.hourMs), .dropDays (clock 0 - options.dayMs)] ++
    enforceCaps options fun reading => clock (reading + 1)

def Call.stages (options : DiagnosticOptions) (clock : Nat → Int) : Call → List Stage
  | .record cause members => Diagnostics.record options clock cause members
  | .sweep => Diagnostics.sweep options clock
  | .enforceCaps => Diagnostics.enforceCaps options clock
  | .unavailable => [.unavailable (clock 0)]
  | .resolve cause memberName => [.clearState cause (memberName.getD UNATTRIBUTED)]

structure Request where
  options : DiagnosticOptions
  clock : Nat → Int
  call : Call

def Request.stages (request : Request) : List Stage := request.call.stages request.options request.clock

def serve : Transcript.Machine Store Request Unit := fun store request =>
  (request.stages.foldl (fun store stage => stage.perform store) store, ())

/-! ## Queries -/

inductive Coverage where
  | exact
  | bucket
  | indeterminate
  deriving DecidableEq

/-- `member` is left out, `null` or a name. -/
structure Query where
  member : Option (Option String)
  cause : Option DiagnosticCause
  fromTs : Int
  toTs : Int

def Query.matches (query : Query) (cause : DiagnosticCause) (memberName : String) : Bool :=
  (query.member.all fun member => memberName = member.getD UNATTRIBUTED) && query.cause.all fun asked => cause = asked

def Query.covers (query : Query) (ts : Int) : Bool := query.fromTs ≤ ts && ts ≤ query.toTs

def Query.overlaps (query : Query) (row : BucketRow) : Bool := row.bucketStart ≤ query.toTs && query.fromTs < row.bucketEnd

inductive WindowResolution where
  | event
  | hour
  | day
  | none
  deriving DecidableEq

structure DiagnosticWindowResult where
  fromTs : Int
  toTs : Int
  resolution : WindowResolution
  count : Nat
  first : Option Int
  last : Option Int
  coverage : Coverage
  deriving DecidableEq

def Query.events (query : Query) (store : Store) : List EventRow :=
  store.events.select fun row => query.covers row.ts && query.matches row.cause row.memberName

def Query.buckets (query : Query) (store : Store) : List BucketRow :=
  store.buckets.select fun row => query.overlaps row && query.matches row.cause row.memberName

def Query.refusalCrosses (query : Query) (store : Store) : Bool :=
  query.member.isSome &&
    0 < ((store.buckets.select fun row => row.cause = .retentionFanoutTruncated && query.overlaps row).map BucketRow.n).sum

def Query.run (query : Query) (store : Store) : DiagnosticWindowResult :=
  if query.fromTs < store.floor then
    ⟨query.fromTs, query.toTs, .none, 0, none, none, .indeterminate⟩
  else
    let events := query.events store
    let buckets := query.buckets store
    let bucketed := (buckets.map BucketRow.n).sum
    let first := (events.map EventRow.ts).min?
    let last := (events.map EventRow.ts).max?
    if bucketed = 0 then
      ⟨query.fromTs, query.toTs, if events.length > 0 then .event else .none, events.length, first, last,
        if query.refusalCrosses store then .indeterminate else .exact⟩
    else
      let lo := (buckets.map fun row => row.bucketStart).min?.getD query.fromTs
      let hi := (buckets.map BucketRow.bucketEnd).max?.getD query.toTs
      ⟨min query.fromTs lo, max query.toTs hi,
        if buckets.any fun row => row.resolution = .day then .day else .hour,
        events.length + bucketed,
        (first.toList ++ (buckets.map BucketRow.firstTs).min?.toList).min?,
        (last.toList ++ (buckets.map BucketRow.lastTs).max?.toList).max?,
        if query.refusalCrosses store then .indeterminate else .bucket⟩

end CommandSuite.Diagnostics
