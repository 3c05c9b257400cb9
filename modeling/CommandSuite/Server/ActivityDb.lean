import CommandSuite.Core.MemberActivity
import CommandSuite.Server.GenaiCorrelator

/-! # The activity database

The tables of the activity file, the retention of `packages/core/src/activity-retention.ts`, and what the broker writes while
`genai-correlator.ts` takes up a batch: the statements of `raw-body-store.ts` and `genai-store.ts`. A statement is atomic.
`prune-traces` runs its own in another process.
-/

namespace CommandSuite

open Library GenAiCorrelator

structure GenAiInferenceRow (I : Type) where
  id : Nat
  memberName : String
  ts : Int
  inference : I
  requestBodyRef : Option String
  requestSha256 : Option String
  responseSha256 : Option String
  receivedAt : Int

structure TelemetryRow where
  id : Nat
  tsMs : Int

structure RawExchangeRow where
  id : Nat
  memberName : String
  kind : BodyKind
  hash : String
  bodyLength : Nat
  requestId : Option String
  promptId : Option String
  sessionId : Option String
  querySource : Option String
  agentName : Option String
  model : Option String
  eventTs : Option Int
  receivedAt : Int

structure RawBlobRow (B : Type) where
  hash : String
  bytes : B
  byteLength : Nat
  storedLength : Nat
  firstSeenAt : Int

/-- A table that no store has created is `none`. The raw body store creates both of its tables. -/
structure ActivityDb (P B I : Type) where
  memberActivity : Option (Autoincrement (MemberActivityRow.id (P := P)))
  genAiInference : Option (Autoincrement (GenAiInferenceRow.id (I := I)))
  telemetry : Option (Autoincrement TelemetryRow.id)
  rawExchange : Option (Autoincrement RawExchangeRow.id)
  rawBlob : Option (Table (RawBlobRow.hash (B := B)))
  rawStore : rawBlob.isSome = rawExchange.isSome

namespace ActivityDb

variable {P B I : Type}

/-! ## Retention -/

/-- `column < ?`, which is not true of `NULL`. -/
def isOlder {ρ : Type} (column : ρ → Option Int) (cutoffTs : Rat) (row : ρ) : Bool := (column row).any fun ts => (ts : Rat) < cutoffTs

def deleteOlderThan {ρ : Type} {key : ρ → Nat} (table : Option (Autoincrement key)) (column : ρ → Option Int) (cutoffTs : Rat) :
    Option (Autoincrement key) × Nat :=
  match table with
  | none => (none, 0)
  | some rows => (some (rows.delete (isOlder column cutoffTs)), rows.changes (isOlder column cutoffTs))

@[simp] theorem isSome_deleteOlderThan {ρ : Type} {key : ρ → Nat} (table : Option (Autoincrement key)) (column : ρ → Option Int)
    (cutoffTs : Rat) : (deleteOlderThan table column cutoffTs).1.isSome = table.isSome := by
  cases table with
  | none => rfl
  | some rows => rfl

inductive PruneStatement where
  | memberActivity | genAiInference | telemetry | rawExchange | rawBlob
  deriving DecidableEq

def statements : List PruneStatement := [.memberActivity, .genAiInference, .telemetry, .rawExchange, .rawBlob]

def RawExchangeRow.refersTo (hash : String) (row : RawExchangeRow) : Bool := row.hash = hash

def GenAiInferenceRow.refersTo (hash : String) (row : GenAiInferenceRow I) : Bool :=
  row.requestSha256 = some hash || row.responseSha256 = some hash

def orphanClauses (db : ActivityDb P B I) : List (String → Bool) :=
  (db.rawExchange.map fun table hash => !table.rows.any (RawExchangeRow.refersTo hash)).toList ++
    (db.genAiInference.map fun table hash => !table.rows.any (GenAiInferenceRow.refersTo hash)).toList

def isOrphan (db : ActivityDb P B I) (blob : RawBlobRow B) : Bool := db.orphanClauses.all fun clause => clause blob.hash

def collectBlobs (db : ActivityDb P B I) : ActivityDb P B I × Nat :=
  if db.orphanClauses.isEmpty then (db, 0)
  else
    ({ db with
        rawBlob := db.rawBlob.map fun blobs => blobs.delete db.isOrphan
        rawStore := by rw [Option.isSome_map]; exact db.rawStore },
      (db.rawBlob.map fun blobs => blobs.changes db.isOrphan).getD 0)

def PruneStatement.run (cutoffTs : Rat) (db : ActivityDb P B I) : PruneStatement → ActivityDb P B I × Nat
  | .memberActivity =>
    let deleted := deleteOlderThan db.memberActivity (fun row => some row.ts) cutoffTs
    ({ db with memberActivity := deleted.1 }, deleted.2)
  | .genAiInference =>
    let deleted := deleteOlderThan db.genAiInference (fun row => some row.ts) cutoffTs
    ({ db with genAiInference := deleted.1 }, deleted.2)
  | .telemetry =>
    let deleted := deleteOlderThan db.telemetry (fun row => some row.tsMs) cutoffTs
    ({ db with telemetry := deleted.1 }, deleted.2)
  | .rawExchange =>
    let deleted := deleteOlderThan db.rawExchange RawExchangeRow.eventTs cutoffTs
    ({ db with
        rawExchange := deleted.1
        rawStore := by rw [isSome_deleteOlderThan]; exact db.rawStore }, deleted.2)
  | .rawBlob => db.collectBlobs

structure PruneActivityResult where
  memberActivity : Nat
  genAiInference : Nat
  telemetry : Nat
  rawExchange : Nat
  rawBlob : Nat
  total : Nat

def pruneActivityDb (cutoffTs : Rat) (db : ActivityDb P B I) : ActivityDb P B I × PruneActivityResult :=
  let (db, memberActivity) := PruneStatement.memberActivity.run cutoffTs db
  let (db, genAiInference) := PruneStatement.genAiInference.run cutoffTs db
  let (db, telemetry) := PruneStatement.telemetry.run cutoffTs db
  let (db, rawExchange) := PruneStatement.rawExchange.run cutoffTs db
  let (db, rawBlob) := PruneStatement.rawBlob.run cutoffTs db
  (db, ⟨memberActivity, genAiInference, telemetry, rawExchange, rawBlob, memberActivity + genAiInference + telemetry + rawExchange + rawBlob⟩)

/-! ## What the broker writes -/

structure Digest (B : Type) where
  sha256Hex : B → String
  gzipSync : B → B
  byteLength : B → Nat

/-- `none` is a statement that throws, as every statement on a table that is not there does. -/
def insertBlobStmt (digest : Digest B) (bytes : B) (now : Int) (db : ActivityDb P B I) : Option (ActivityDb P B I) :=
  let gz := digest.gzipSync bytes
  let row : RawBlobRow B := ⟨digest.sha256Hex bytes, gz, digest.byteLength bytes, digest.byteLength gz, now⟩
  if db.rawBlob.isSome then
    some { db with
      rawBlob := db.rawBlob.map fun blobs => blobs.insertOrIgnore row
      rawStore := by rw [Option.isSome_map]; exact db.rawStore }
  else none

def exchangeRow (digest : Digest B) (memberName : String) (kind : BodyKind) (attrs : JsonObject) (ts : Int) (bytes : B) (now : Int) (id : Nat) :
    RawExchangeRow where
  id := id
  memberName := memberName
  kind := kind
  hash := digest.sha256Hex bytes
  bodyLength := digest.byteLength bytes
  requestId := asStr attrs "request_id"
  promptId := asStr attrs "prompt.id"
  sessionId := asStr attrs "session.id"
  querySource := asStr attrs "query_source"
  agentName := none
  model := asStr attrs "model"
  eventTs := some ts
  receivedAt := now

def insertExchangeStmt (digest : Digest B) (memberName : String) (kind : BodyKind) (attrs : JsonObject) (ts : Int) (bytes : B) (now : Int)
    (db : ActivityDb P B I) : Option (ActivityDb P B I) :=
  if db.rawExchange.isSome then
    some { db with
      rawExchange := db.rawExchange.map fun table => table.insert (exchangeRow digest memberName kind attrs ts bytes now) fun _ => rfl
      rawStore := by rw [Option.isSome_map]; exact db.rawStore }
  else none

structure AssignPatch where
  requestId : String
  querySource : Option String
  agentName : Option String

/-- `COALESCE` of every column. -/
def assigned (patch : AssignPatch) (row : RawExchangeRow) : RawExchangeRow :=
  { row with
    requestId := row.requestId.or (some patch.requestId)
    querySource := row.querySource.or patch.querySource
    agentName := row.agentName.or patch.agentName }

def assignRequestId (exchangeId : Nat) (patch : AssignPatch) (db : ActivityDb P B I) : ActivityDb P B I :=
  { db with
    rawExchange := db.rawExchange.map fun table => table.update (fun row => row.id = exchangeId) (assigned patch) fun _ => rfl
    rawStore := by rw [Option.isSome_map]; exact db.rawStore }

def inferenceRow (memberName : String) (input : GenAiInferenceInput I) (now : Int) (id : Nat) : GenAiInferenceRow I :=
  ⟨id, memberName, input.ts, input.inference, input.requestBodyRef, input.requestSha256, input.responseSha256, now⟩

def insertInferenceStmt (memberName : String) (input : GenAiInferenceInput I) (now : Int) (db : ActivityDb P B I) :
    Option (ActivityDb P B I) :=
  if db.genAiInference.isSome then
    some { db with genAiInference := db.genAiInference.map fun table => table.insert (inferenceRow memberName input now) fun _ => rfl }
  else none

end ActivityDb

/-! ## Two processes -/

/-- The batch that the broker is at. `storing` is an append whose blob is inserted and whose exchange is not. -/
inductive CaptureTask (B I : Type) where
  | idle
  | taking (memberName : String) (now : Int) (records : List Normalized) (out : List (GenAiInferenceInput I))
  | storing (memberName : String) (now : Int) (record : Normalized) (kind : BodyKind) (bytes : B) (records : List Normalized)
      (out : List (GenAiInferenceInput I))
  | appending (memberName : String) (out : List (GenAiInferenceInput I))

/-- The file, the broker with a correlator for each member, and what is left of the run of `prune-traces`. -/
structure Captures (P B I : Type) where
  db : ActivityDb P B I
  correlators : String → GenAiCorrelator
  task : CaptureTask B I
  pruning : List ActivityDb.PruneStatement
  cutoffTs : Rat

/-- `writes` is the next statement of the broker, or of a record that has none. The statement may throw. -/
inductive CaptureEvent where
  | ingest (memberName : String) (now : Int) (records : List TelemetryRecord)
  | writes (runs : Bool) (clock : Int)
  | assigns (exchangeId : Nat) (patch : ActivityDb.AssignPatch)
  | prune (cutoffTs : Rat)
  | prunes

namespace Captures

variable {P B J I : Type}

def startWith (db : ActivityDb P B I) : Captures P B I := ⟨db, fun _ => .empty, .idle, [], 0⟩

variable (opts : GenAiCorrelatorOptions B J I) (digest : ActivityDb.Digest B)

/-- The body that a record brings, read as `captureBody` reads it. -/
def bodyOf (record : Normalized) : Option (BodyKind × B) :=
  let bytes : Option B :=
    match (asStr record.attrs "body_ref").filter fun ref => ref ≠ "" with
    | some ref => opts.readBodyRef ref
    | none => ((asStr record.attrs "body").filter fun inline => inline ≠ "").map opts.encode
  match record.event with
  | .apiRequestBody => bytes.map fun bytes => (.request, bytes)
  | .apiResponseBody => bytes.map fun bytes => (.response, bytes)
  | _ => none

def takeUp (memberName : String) (now : Int) (record : Normalized) (hash : Option String) (records : List Normalized)
    (out : List (GenAiInferenceInput I)) (captures : Captures P B I) : Captures P B I :=
  let stored := { opts with appendBody := fun _ _ _ _ => hash }
  let (correlator, emitted) := ingestRecord stored now record (captures.correlators memberName)
  { captures with
    correlators := Function.update captures.correlators memberName correlator
    task := .taking memberName now records (out ++ emitted.toList) }

def writes (runs : Bool) (clock : Int) (captures : Captures P B I) : Captures P B I :=
  let attempt (written : Option (ActivityDb P B I)) : Option (ActivityDb P B I) := if runs then written else none
  match captures.task with
  | .idle => captures
  | .taking memberName _ [] out =>
    let correlator := captures.correlators memberName
    { captures with
      correlators := Function.update captures.correlators memberName (evictStale opts correlator.newestTs correlator)
      task := .appending memberName (out.insertionSort fun a b => a.ts ≤ b.ts) }
  | .taking memberName now (record :: records) out =>
    match bodyOf opts record with
    | none => takeUp opts memberName now record none records out captures
    | some (kind, bytes) =>
      match attempt (captures.db.insertBlobStmt digest bytes clock) with
      | none => takeUp opts memberName now record none records out captures
      | some db => { captures with db := db, task := .storing memberName now record kind bytes records out }
  | .storing memberName now record kind bytes records out =>
    match attempt (captures.db.insertExchangeStmt digest memberName kind record.attrs record.ts bytes clock) with
    | none => takeUp opts memberName now record none records out captures
    | some db => takeUp opts memberName now record (some (digest.sha256Hex bytes)) records out { captures with db := db }
  | .appending _ [] => { captures with task := .idle }
  | .appending memberName (inference :: out) =>
    match attempt (captures.db.insertInferenceStmt memberName inference clock) with
    | none => { captures with task := .idle }
    | some db => { captures with db := db, task := .appending memberName out }

def apply : Transcript.Machine (Captures P B I) CaptureEvent Nat := fun captures event =>
  match event with
  | .ingest memberName now records =>
    match captures.task with
    | .idle => ({ captures with task := .taking memberName now (takenUp opts now records) [] }, 0)
    | _ => (captures, 0)
  | .writes runs clock => (writes opts digest runs clock captures, 0)
  | .assigns exchangeId patch => ({ captures with db := captures.db.assignRequestId exchangeId patch }, 0)
  | .prune cutoffTs =>
    match captures.pruning with
    | [] => ({ captures with pruning := ActivityDb.statements, cutoffTs := cutoffTs }, 0)
    | _ => (captures, 0)
  | .prunes =>
    match captures.pruning with
    | [] => (captures, 0)
    | statement :: rest =>
      let (db, changes) := statement.run captures.cutoffTs captures.db
      ({ captures with db := db, pruning := rest }, changes)

end Captures

end CommandSuite
