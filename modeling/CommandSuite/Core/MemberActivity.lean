import CommandSuite.Core.ActivityStore
import CommandSuite.Library.Autoincrement
import CommandSuite.Library.Sql
import Mathlib.Data.List.Sort

/-! # `SqliteActivityStore`

`packages/core/src/member-activity.ts`: the table `member_activity` with its automatic key and its
partial unique index, the refilling `list`, and the listeners of the live tail. `schema` is what
`ActivityEventSchema` reads back of a stored event.
-/

namespace CommandSuite

open Library ActivityStore

/-- A row of `member_activity`. The column `event_json` is the event it encodes. -/
structure MemberActivityRow (P : Type) where
  id : Nat
  memberName : String
  ts : Nat
  kind : ActivityKind
  eventJson : ActivityEvent P
  createdAt : Int
  sourceId : Option String

/-- A listener, as the identity of its function. It returns and leaves the subscriptions alone. -/
abbrev ActivityListener := Nat

structure SqliteActivityStore (P : Type) where
  memberActivity : Autoincrement (MemberActivityRow.id (P := P))
  /-- `last_insert_rowid()` of the connection. -/
  lastInsertRowid : Nat
  listenersByMember : String → List ActivityListener

structure SqlRunResult where
  changes : Nat
  lastInsertRowid : Nat

namespace SqliteActivityStore

variable {P : Type}

def DEFAULT_LIMIT : Nat := 200
def MAX_LIMIT : Nat := 1000

def MAX_SAFE_INTEGER : Rat := 9007199254740991

def empty : SqliteActivityStore P := ⟨.empty, 0, fun _ => []⟩

def rows (store : SqliteActivityStore P) : List (MemberActivityRow P) := store.memberActivity.rows

def toRaw (memberName : String) (event : ActivityEvent P) (now : Int) (id : Nat) : MemberActivityRow P :=
  ⟨id, memberName, event.ts, event.kind, event, now, event.sourceId⟩

/-- The index `member_activity_member_source_idx` has an entry for the row's source. -/
def conflicts (store : SqliteActivityStore P) (memberName : String) (sourceId : Option String) : Bool :=
  sourceId.any fun sourceId => store.rows.any fun row => row.memberName = memberName && row.sourceId = some sourceId

/-- `ON CONFLICT DO NOTHING` has chosen its key by then, and leaves the last row id as it was. -/
def insertStmt (memberName : String) (event : ActivityEvent P) (now : Int) (store : SqliteActivityStore P) :
    SqlRunResult × SqliteActivityStore P :=
  if store.conflicts memberName event.sourceId then
    (⟨0, store.lastInsertRowid⟩, { store with memberActivity := store.memberActivity.pass })
  else
    let memberActivity := store.memberActivity.insert (toRaw memberName event now) (fun _ => rfl)
    (⟨1, memberActivity.sequence⟩, { store with memberActivity := memberActivity, lastInsertRowid := memberActivity.sequence })

/-- The transaction of `append`. -/
def insertAll (memberName : String) (now : Int) : List (ActivityEvent P) → SqliteActivityStore P →
    List (ActivityRow P) × SqliteActivityStore P
  | [], store => ([], store)
  | event :: events, store =>
    let (result, store) := insertStmt memberName event now store
    let (inserted, store) := insertAll memberName now events store
    if result.changes = 0 then (inserted, store)
    else (⟨result.lastInsertRowid, memberName, event, now⟩ :: inserted, store)

def deliver (memberName : String) (inserted : List (ActivityRow P)) (store : SqliteActivityStore P) :
    List (ActivityListener × ActivityRow P) :=
  inserted.flatMap fun row => (store.listenersByMember memberName).map fun listener => (listener, row)

def append (memberName : String) (events : List (ActivityEvent P)) (now : Int) (store : SqliteActivityStore P) :
    (List (ActivityRow P) × List (ActivityListener × ActivityRow P)) × SqliteActivityStore P :=
  if events = [] then (([], []), store)
  else
    let (inserted, store) := insertAll memberName now events store
    ((inserted, deliver memberName inserted store), store)

variable (schema : ActivityEvent P → Option (ActivityEvent P))

def rowToActivity (row : MemberActivityRow P) : Option (ActivityRow P) :=
  (schema row.eventJson).map fun event => ⟨row.id, row.memberName, event, row.createdAt⟩

def selects (filter : ListActivityFilter) (row : MemberActivityRow P) : Bool :=
  row.memberName = filter.memberName && filter.lower.all (fun lower => lower ≤ (row.ts : Rat)) &&
    filter.upper.all (fun upper => (row.ts : Rat) ≤ upper) &&
    match filter.kinds with
    | some (kind :: kinds) => row.kind ∈ kind :: kinds
    | _ => true

/-- `ts < ? OR (ts = ? AND id < ?)`. -/
def before (cursor : ActivityCursor) (row : MemberActivityRow P) : Bool :=
  (row.ts : Rat) < cursor.ts || ((row.ts : Rat) = cursor.ts && (row.id : Rat) < cursor.id)

/-- `ORDER BY ts DESC, id DESC`. -/
def descending (a b : MemberActivityRow P) : Prop := b.ts < a.ts ∨ b.ts = a.ts ∧ b.id ≤ a.id

instance : DecidableRel (descending (P := P)) := fun _ _ => inferInstanceAs (Decidable (_ ∨ _))

def page (filter : ListActivityFilter) (store : SqliteActivityStore P) (cursor : ActivityCursor) (want : Nat) :
    List (MemberActivityRow P) :=
  ((store.memberActivity.select fun row => selects filter row && before cursor row).insertionSort descending).take want

/-- The loop of `list`. Every round that goes on has read a row and moved the cursor past it. -/
def refill (read : ActivityCursor → Nat → List (MemberActivityRow P)) (limit : Nat) :
    Nat → ActivityCursor → List (ActivityRow P) → List (ActivityRow P)
  | 0, _, out => out
  | fuel + 1, cursor, out =>
    if out.length < limit then
      let want := limit - out.length
      let raws := read cursor want
      match raws.getLast? with
      | none => out
      | some last =>
        let out := out ++ raws.filterMap (rowToActivity schema)
        if raws.length < want then out else refill read limit fuel ⟨last.ts, last.id⟩ out
    else out

def openCursor : ActivityCursor := ⟨MAX_SAFE_INTEGER, MAX_SAFE_INTEGER⟩

def list (filter : ListActivityFilter) (store : SqliteActivityStore P) : List (ActivityRow P) :=
  refill schema (page filter store) (clampListLimit filter.limit MAX_LIMIT (some DEFAULT_LIMIT))
    (store.rows.length + 1) (filter.before.getD openCursor) []

def prune (cutoffTs : Rat) (store : SqliteActivityStore P) : Nat × SqliteActivityStore P :=
  let isOlder : MemberActivityRow P → Bool := fun row => (row.ts : Rat) < cutoffTs
  (store.memberActivity.changes isOlder, { store with memberActivity := store.memberActivity.delete isOlder })

def subscribe (memberName : String) (listener : ActivityListener) (store : SqliteActivityStore P) : SqliteActivityStore P :=
  let listeners := store.listenersByMember memberName
  let added := if listener ∈ listeners then listeners else listeners ++ [listener]
  { store with listenersByMember := Function.update store.listenersByMember memberName added }

def unsubscribe (memberName : String) (listener : ActivityListener) (store : SqliteActivityStore P) :
    SqliteActivityStore P :=
  let others := (store.listenersByMember memberName).filter fun other => other ≠ listener
  { store with listenersByMember := Function.update store.listenersByMember memberName others }

def apply : Transcript.Machine (SqliteActivityStore P) (Call P) (Answer P)
  | store, .append memberName events now =>
    let ((inserted, _), store) := append memberName events now store
    (store, .rows inserted)
  | store, .prune cutoffTs =>
    let (count, store) := prune cutoffTs store
    (store, .deleted count)
  | store, .list filter => (store, .rows (list schema filter store))

end SqliteActivityStore

end CommandSuite
