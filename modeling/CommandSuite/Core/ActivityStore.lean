import CommandSuite.Core.EventLog
import CommandSuite.Library.Table
import CommandSuite.Library.Transcript

/-! # The activity store

`packages/core/src/activity-store.ts`: the rows of a member's activity, the order and the filters of
`list`, and the in-memory store. What an event carries beside its kind, its time and the id of its
source record is a parameter.
-/

namespace CommandSuite

open Library

inductive ActivityKind where
  | sessionStart | sessionEnd | objectiveOpen | objectiveClose | llmExchange | toolAction | userPrompt
  | contextControl | authState
  deriving DecidableEq

structure ActivityEvent (P : Type) where
  kind : ActivityKind
  ts : Nat
  sourceId : Option String
  payload : P
  deriving DecidableEq

structure ActivityRow (P : Type) where
  id : Nat
  memberName : String
  event : ActivityEvent P
  createdAt : Int
  deriving DecidableEq

structure ActivityCursor where
  ts : Rat
  id : Rat

structure ListActivityFilter where
  memberName : String
  lower : Option Rat
  upper : Option Rat
  before : Option ActivityCursor
  kinds : Option (List ActivityKind)
  limit : Option EventLog.Number

namespace ActivityStore

variable {P : Type}

/-- The order the interface asks of `list`: by the time of the event, then by id, both descending. -/
def newestFirst (a b : ActivityRow P) : Prop := b.event.ts < a.event.ts ∨ b.event.ts = a.event.ts ∧ b.id ≤ a.id

instance : DecidableRel (newestFirst (P := P)) := fun _ _ => inferInstanceAs (Decidable (_ ∨ _))

def below (cursor : ActivityCursor) (row : ActivityRow P) : Bool :=
  (row.event.ts : Rat) < cursor.ts || ((row.event.ts : Rat) = cursor.ts && (row.id : Rat) < cursor.id)

def clampListLimit (raw : Option EventLog.Number) (maximum : Nat) (defaultLimit : Option Nat) : Nat :=
  let fallback := min maximum (max 1 (defaultLimit.getD (maximum / 2)))
  match raw with
  | none | some .nonFinite => fallback
  | some (.finite raw) => if raw ≤ 0 then fallback else min ⌊raw⌋.toNat maximum

inductive Call (P : Type) where
  | append (memberName : String) (events : List (ActivityEvent P)) (now : Int)
  | prune (cutoffTs : Rat)
  | list (filter : ListActivityFilter)

inductive Answer (P : Type) where
  | rows (rows : List (ActivityRow P))
  | deleted (count : Nat)
  deriving DecidableEq

end ActivityStore

open ActivityStore

structure ActivityBucket (P : Type) where
  memberName : String
  rows : List (ActivityRow P)

/-- `rowsByMember` is walked by `prune`, `sourceIdsByMember` is only looked up. -/
structure InMemoryActivityStore (P : Type) where
  rowsByMember : Table (ActivityBucket.memberName (P := P))
  sourceIdsByMember : String → Option (List String)
  nextId : Nat
  maxLimit : Nat

namespace InMemoryActivityStore

variable {P : Type}

def empty (maxLimit : Nat) : InMemoryActivityStore P := ⟨Table.empty, fun _ => none, 1, maxLimit⟩

def bucketOf (store : InMemoryActivityStore P) (memberName : String) : List (ActivityRow P) :=
  ((store.rowsByMember.find memberName).map ActivityBucket.rows).getD []

def admitEvents (known : List String) : List String → List (ActivityEvent P) → List (ActivityEvent P) × List String
  | batchSourceIds, [] => ([], batchSourceIds)
  | batchSourceIds, event :: events =>
    match event.sourceId with
    | some sourceId =>
      if sourceId ∈ known ∨ sourceId ∈ batchSourceIds then admitEvents known batchSourceIds events
      else
        let (admitted, batchSourceIds) := admitEvents known (batchSourceIds ++ [sourceId]) events
        (event :: admitted, batchSourceIds)
    | none =>
      let (admitted, batchSourceIds) := admitEvents known batchSourceIds events
      (event :: admitted, batchSourceIds)

/-- The rows of a batch, numbered from `nextId` on. -/
def numbered (memberName : String) (createdAt : Int) : Nat → List (ActivityEvent P) → List (ActivityRow P)
  | _, [] => []
  | id, event :: events => ⟨id, memberName, event, createdAt⟩ :: numbered memberName createdAt (id + 1) events

/-- `rowsByMember.get`, with the bucket created when it is missing, and the rows pushed onto it. -/
def pushRows (memberName : String) (rows : List (ActivityRow P)) (buckets : Table (ActivityBucket.memberName (P := P))) :
    Table (ActivityBucket.memberName (P := P)) :=
  (buckets.insertOrIgnore ⟨memberName, []⟩).update (fun bucket => bucket.memberName = memberName)
    (fun bucket => { bucket with rows := bucket.rows ++ rows }) (fun _ => rfl)

def append (memberName : String) (events : List (ActivityEvent P)) (now : Int) (store : InMemoryActivityStore P) :
    List (ActivityRow P) × InMemoryActivityStore P :=
  if events = [] then ([], store)
  else
    let known := (store.sourceIdsByMember memberName).getD []
    let store := { store with sourceIdsByMember := Function.update store.sourceIdsByMember memberName (some known) }
    let (admitted, batchSourceIds) := admitEvents known [] events
    if admitted = [] then ([], store)
    else
      let rows := numbered memberName now store.nextId admitted
      (rows, { store with
        nextId := store.nextId + rows.length
        rowsByMember := pushRows memberName rows store.rowsByMember
        sourceIdsByMember := Function.update store.sourceIdsByMember memberName (some (known ++ batchSourceIds)) })

def selects (filter : ListActivityFilter) (row : ActivityRow P) : Bool :=
  if filter.lower.any fun lower => (row.event.ts : Rat) < lower then false
  else if filter.upper.any fun upper => upper < (row.event.ts : Rat) then false
  else if filter.before.any fun before => before.ts < (row.event.ts : Rat) ∨
      ((row.event.ts : Rat) = before.ts ∧ before.id ≤ (row.id : Rat)) then false
  else
    match filter.kinds with
    | some (kind :: kinds) => row.event.kind ∈ kind :: kinds
    | _ => true

/-- The loop of `list`, over the bucket from the newest insertion on. -/
def walk (selects : ActivityRow P → Bool) (limit : Nat) : List (ActivityRow P) → List (ActivityRow P) → List (ActivityRow P)
  | found, [] => found
  | found, row :: older =>
    if selects row then
      let found := found ++ [row]
      if limit ≤ found.length then found else walk selects limit found older
    else walk selects limit found older

def list (filter : ListActivityFilter) (store : InMemoryActivityStore P) : List (ActivityRow P) :=
  walk (selects filter) (clampListLimit filter.limit store.maxLimit none) [] (store.bucketOf filter.memberName).reverse

def isPruned (cutoffTs : Rat) (row : ActivityRow P) : Bool := (row.event.ts : Rat) < cutoffTs

/-- What `prune` leaves of a member's source ids. -/
def keptSourceIds (cutoffTs : Rat) (bucket : ActivityBucket P) (known : Option (List String)) : Option (List String) :=
  if bucket.rows.filter (fun row => !isPruned cutoffTs row) = [] then none
  else
    let released := (bucket.rows.filter (isPruned cutoffTs)).filterMap fun row => row.event.sourceId
    known.map fun known => known.filter fun sourceId => sourceId ∉ released

def prune (cutoffTs : Rat) (store : InMemoryActivityStore P) : Nat × InMemoryActivityStore P :=
  let deleted := (store.rowsByMember.rows.map fun bucket => (bucket.rows.filter (isPruned cutoffTs)).length).sum
  let kept := store.rowsByMember.update (fun _ => true)
    (fun bucket => { bucket with rows := bucket.rows.filter fun row => !isPruned cutoffTs row }) (fun _ => rfl)
  (deleted, { store with
    rowsByMember := kept.delete fun bucket => bucket.rows.isEmpty
    sourceIdsByMember := fun memberName =>
      match store.rowsByMember.find memberName with
      | some bucket => keptSourceIds cutoffTs bucket (store.sourceIdsByMember memberName)
      | none => store.sourceIdsByMember memberName })

def apply : Transcript.Machine (InMemoryActivityStore P) (Call P) (Answer P)
  | store, .append memberName events now =>
    let (rows, store) := append memberName events now store
    (store, .rows rows)
  | store, .prune cutoffTs =>
    let (count, store) := prune cutoffTs store
    (store, .deleted count)
  | store, .list filter => (store, .rows (list filter store))

end InMemoryActivityStore

end CommandSuite
