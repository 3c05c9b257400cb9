import CommandSuite.Server.ActivityDb

/-! # Retention keeps captures

A stored row names blobs by their hashes, and the broker holds hashes for the rows that it is yet to insert.
-/

namespace CommandSuite

open Library ActivityDb Transcript GenAiCorrelator Function

/-! ## The hashes of a correlator -/

def GenAiInferenceInput.Carries {I : Type} (input : GenAiInferenceInput I) (hash : String) : Prop :=
  input.requestSha256 = some hash ∨ input.responseSha256 = some hash

def PendingExchange.Carries (p : PendingExchange) (hash : String) : Prop := p.requestHash = some hash ∨ p.responseHash = some hash

namespace GenAiCorrelator

variable {B J I : Type} {correlator : GenAiCorrelator} {hash : String}

def Carries (correlator : GenAiCorrelator) (hash : String) : Prop :=
  (∃ request ∈ correlator.fifo, request.hash = some hash) ∨ ∃ key, ∃ p ∈ correlator.pending key, p.Carries hash

theorem not_carries_empty : ¬empty.Carries hash := by
  rintro (⟨request, hMem, -⟩ | ⟨key, p, hPending, -⟩)
  · cases hMem
  · cases hPending

theorem claimRequest_subset (model : Option String) (fifo : List UnclaimedRequest) : (claimRequest model fifo).2 ⊆ fifo := by
  unfold claimRequest
  split
  · exact List.tail_subset fifo
  · dsimp only
    split
    · exact List.eraseP_subset
    · exact List.tail_subset fifo

theorem claimRequest_mem (model : Option String) (fifo : List UnclaimedRequest) {claimed : UnclaimedRequest}
    (h : (claimRequest model fifo).1 = some claimed) : claimed ∈ fifo := by
  unfold claimRequest at h
  split at h
  · exact List.mem_of_mem_head? h
  · dsimp only at h
    split at h
    · rename_i hFound
      cases h
      exact List.mem_of_find?_eq_some hFound
    · exact List.mem_of_mem_head? h

theorem getPending_carries {key : String} (h : (correlator.getPending key).Carries hash) : correlator.Carries hash := by
  unfold getPending at h
  cases hPending : correlator.pending key with
  | none =>
    rw [hPending] at h
    obtain hNone | hNone := h
    · cases hNone
    · cases hNone
  | some p =>
    rw [hPending] at h
    exact .inr ⟨key, p, hPending, h⟩

variable {attrs : JsonObject} {ts : Int} {p : PendingExchange}

theorem account_carries {claimed : Option UnclaimedRequest}
    (h : (account attrs ts claimed p).Carries hash) : (∃ request ∈ claimed, request.hash = some hash) ∨ p.Carries hash := by
  cases claimed with
  | none => exact .inr h
  | some request =>
    obtain hRequest | hResponse := h
    · exact .inl ⟨request, rfl, hRequest⟩
    · exact .inr (.inr hResponse)

def storedAs (opts : GenAiCorrelatorOptions B J I) (stored : Option String) : GenAiCorrelatorOptions B J I :=
  { opts with appendBody := fun _ _ _ _ => stored }

variable (opts : GenAiCorrelatorOptions B J I) {stored : Option String}

theorem captureBody_hash {kind : BodyKind} (h : (captureBody (storedAs opts stored) kind attrs ts).hash = some hash) : stored = some hash := by
  unfold captureBody at h
  dsimp only at h
  split at h
  · cases h
  · exact h

theorem respond_carries (h : (respond (storedAs opts stored) attrs ts p).Carries hash) : p.Carries hash ∨ stored = some hash := by
  obtain hRequest | hResponse := h
  · exact .inl (.inl hRequest)
  · exact .inr (captureBody_hash opts hResponse)

theorem buildInference_carries {inference : GenAiInferenceInput I}
    (hBuilt : buildInference opts p ts = some inference) (h : inference.Carries hash) : p.Carries hash := by
  unfold buildInference at hBuilt
  simp only [Option.bind_eq_bind, Option.bind_eq_some_iff, pure, Option.some_inj] at hBuilt
  obtain ⟨requestBody, _, responseBody, _, mapped, _, rfl⟩ := hBuilt
  exact h

theorem tryEmit_carries {now : Int} {key : String}
    (h : (tryEmit opts now key p correlator).1.Carries hash ∨ ∃ input ∈ (tryEmit opts now key p correlator).2, input.Carries hash) :
    correlator.Carries hash ∨ p.Carries hash := by
  have hUpdated {value : Option PendingExchange} (hValue : ∀ q ∈ value, q = p)
      (hCarries : Carries { correlator with pending := update correlator.pending key value } hash) :
      correlator.Carries hash ∨ p.Carries hash := by
    obtain hFifo | ⟨other, q, hPending, hHash⟩ := hCarries
    · exact .inl (.inl hFifo)
    · dsimp only at hPending
      obtain rfl | hOther := eq_or_ne other key
      · rw [update_self] at hPending
        rw [hValue q hPending] at hHash
        exact .inr hHash
      · rw [update_of_ne hOther] at hPending
        exact .inl (.inr ⟨other, q, hPending, hHash⟩)
  unfold tryEmit at h
  split at h
  · obtain hKept | ⟨input, hEmitted, hHash⟩ := h
    · exact hUpdated (fun _ hNone => absurd hNone (Option.not_mem_none _)) hKept
    · exact .inr (buildInference_carries opts hEmitted hHash)
  · obtain hKept | ⟨input, hEmitted, -⟩ := h
    · exact hUpdated (fun _ hSome => (Option.some_inj.mp hSome).symm) hKept
    · cases hEmitted

theorem ingestRecord_carries {now : Int} {record : Normalized}
    (h : (ingestRecord (storedAs opts stored) now record correlator).1.Carries hash ∨
      ∃ input ∈ (ingestRecord (storedAs opts stored) now record correlator).2, input.Carries hash) :
    correlator.Carries hash ∨ stored = some hash := by
  obtain ⟨event, attrs, ts, seq⟩ := record
  cases event with
  | apiRequestBody =>
    obtain (⟨request, hMem, hHash⟩ | hPending) | ⟨input, hEmitted, -⟩ := h
    · obtain hOld | hNew := List.mem_append.mp (List.mem_of_mem_drop hMem)
      · exact .inl (.inl ⟨request, hOld, hHash⟩)
      · rw [List.mem_singleton.mp hNew] at hHash
        exact .inr (captureBody_hash opts hHash)
    · exact .inl (.inr hPending)
    · cases hEmitted
  | apiRequest =>
    obtain (hFifo | hPending) | hExchange := tryEmit_carries (storedAs opts stored) h
    · obtain ⟨request, hMem, hHash⟩ := hFifo
      exact .inl (.inl ⟨request, claimRequest_subset _ _ hMem, hHash⟩)
    · exact .inl (.inr hPending)
    · obtain ⟨request, hClaimed, hHash⟩ | hOld := account_carries hExchange
      · exact .inl (.inl ⟨request, claimRequest_mem _ _ hClaimed, hHash⟩)
      · obtain ⟨request, hMem, hHash⟩ | hPending := getPending_carries hOld
        · exact .inl (.inl ⟨request, claimRequest_subset _ _ hMem, hHash⟩)
        · exact .inl (.inr hPending)
  | apiResponseBody =>
    obtain hKept | hExchange := tryEmit_carries (storedAs opts stored) h
    · exact .inl hKept
    · obtain hOld | hStored := respond_carries opts hExchange
      · exact .inl (getPending_carries hOld)
      · exact .inr hStored
  | apiError =>
    obtain hKept | ⟨input, hEmitted, -⟩ := h
    · dsimp only [ingestRecord] at hKept
      unfold ingestError at hKept
      dsimp only at hKept
      split at hKept
      · obtain ⟨request, hMem, hHash⟩ | ⟨other, p, hPending, hHash⟩ := hKept
        · exact .inl (.inl ⟨request, claimRequest_subset _ _ hMem, hHash⟩)
        · dsimp only at hPending
          rename_i requestId _
          obtain rfl | hOther := eq_or_ne other requestId
          · rw [update_self] at hPending
            cases hPending
          · rw [update_of_ne hOther] at hPending
            exact .inl (.inr ⟨other, p, hPending, hHash⟩)
      · obtain ⟨request, hMem, hHash⟩ | hPending := hKept
        · exact .inl (.inl ⟨request, claimRequest_subset _ _ hMem, hHash⟩)
        · exact .inl (.inr hPending)
    · cases hEmitted

theorem evictStale_carries {nowMs : Int} (h : (evictStale opts nowMs correlator).Carries hash) : correlator.Carries hash := by
  obtain ⟨request, hMem, hHash⟩ | ⟨key, p, hPending, hHash⟩ := h
  · exact .inl ⟨request, (List.dropWhile_sublist _).subset (List.mem_of_mem_drop hMem), hHash⟩
  · exact .inr ⟨key, p, (Option.filter_eq_some_iff.mp hPending).1, hHash⟩

end GenAiCorrelator

namespace ActivityDb

variable {P B I : Type} {db after : ActivityDb P B I} {hash : String}

/-! ## References -/

def HasBlob (db : ActivityDb P B I) (hash : String) : Prop := ∃ blobs ∈ db.rawBlob, ∃ blob ∈ blobs.rows, blob.hash = hash

def Refers (db : ActivityDb P B I) (hash : String) : Prop :=
  (∃ table ∈ db.rawExchange, ∃ row ∈ table.rows, row.hash = hash) ∨
    ∃ table ∈ db.genAiInference, ∃ row ∈ table.rows, row.requestSha256 = some hash ∨ row.responseSha256 = some hash

def Consistent (db : ActivityDb P B I) : Prop := ∀ hash, db.Refers hash → db.HasBlob hash

variable {cutoffTs : Rat}

theorem mem_deleteOlderThan {ρ : Type} {key : ρ → Nat} {table : Option (Autoincrement key)} {column : ρ → Option Int}
    {left : Autoincrement key} (h : left ∈ (deleteOlderThan table column cutoffTs).1) :
    ∃ rows ∈ table, left = rows.delete (isOlder column cutoffTs) := by
  cases table with
  | none => cases h
  | some rows => exact ⟨rows, rfl, (Option.some_inj.mp h).symm⟩

theorem subset_deleteOlderThan {ρ : Type} {key : ρ → Nat} {table : Option (Autoincrement key)} {column : ρ → Option Int}
    {named : ρ → Prop} (h : ∃ left ∈ (deleteOlderThan table column cutoffTs).1, ∃ row ∈ left.rows, named row) :
    ∃ rows ∈ table, ∃ row ∈ rows.rows, named row := by
  obtain ⟨left, hLeft, row, hRow, hNamed⟩ := h
  obtain ⟨rows, hRows, rfl⟩ := mem_deleteOlderThan hLeft
  exact ⟨rows, hRows, row, (List.mem_filter.mp hRow).1, hNamed⟩

theorem refers_run (statement : PruneStatement) (cutoffTs : Rat) (h : (statement.run cutoffTs db).1.Refers hash) : db.Refers hash := by
  cases statement with
  | memberActivity => exact h
  | genAiInference =>
    obtain hExchange | hInference := h
    · exact .inl hExchange
    · exact .inr (subset_deleteOlderThan hInference)
  | telemetry => exact h
  | rawExchange =>
    obtain hExchange | hInference := h
    · exact .inl (subset_deleteOlderThan hExchange)
    · exact .inr hInference
  | rawBlob =>
    unfold PruneStatement.run collectBlobs at h
    dsimp only at h
    split at h
    · exact h
    · exact h

variable {blob : RawBlobRow B}

theorem isOrphan_iff : db.isOrphan blob = true ↔ ¬db.Refers blob.hash := by
  unfold isOrphan orphanClauses Refers
  simp only [List.all_append, Bool.and_eq_true, List.all_eq_true, Option.mem_toList, Option.map_eq_some_iff, not_or]
  constructor
  · rintro ⟨hExchange, hInference⟩
    constructor
    · rintro ⟨table, hTable, row, hRow, hHash⟩
      have hNot := hExchange _ ⟨table, hTable, rfl⟩
      rw [Bool.not_eq_true', List.any_eq_false] at hNot
      exact hNot row hRow (by simp [RawExchangeRow.refersTo, hHash])
    · rintro ⟨table, hTable, row, hRow, hHash⟩
      have hNot := hInference _ ⟨table, hTable, rfl⟩
      rw [Bool.not_eq_true', List.any_eq_false] at hNot
      exact hNot row hRow (by simpa [GenAiInferenceRow.refersTo] using hHash)
  · rintro ⟨hExchange, hInference⟩
    constructor
    · rintro _ ⟨table, hTable, rfl⟩
      rw [Bool.not_eq_true', List.any_eq_false]
      intro row hRow hRefers
      exact hExchange ⟨table, hTable, row, hRow, by simpa [RawExchangeRow.refersTo] using hRefers⟩
    · rintro _ ⟨table, hTable, rfl⟩
      rw [Bool.not_eq_true', List.any_eq_false]
      intro row hRow hRefers
      exact hInference ⟨table, hTable, row, hRow, by simpa [GenAiInferenceRow.refersTo] using hRefers⟩

theorem rawBlob_collectBlobs (db : ActivityDb P B I) : db.collectBlobs.1.rawBlob = db.rawBlob.map fun blobs => blobs.delete db.isOrphan := by
  unfold collectBlobs
  split
  · rename_i hEmpty
    have hExchange : db.rawExchange = none := by
      unfold orphanClauses at hEmpty
      cases hThere : db.rawExchange with
      | none => rfl
      | some table =>
        rw [hThere] at hEmpty
        cases hEmpty
    have hNone : db.rawBlob = none := by
      have hStore := db.rawStore
      rw [hExchange] at hStore
      exact Option.isNone_iff_eq_none.mp (Option.isSome_eq_false_iff.mp hStore)
    rw [hNone]
    rfl
  · rfl

theorem refers_collectBlobs : db.collectBlobs.1.Refers hash ↔ db.Refers hash := by
  unfold collectBlobs
  split
  · rfl
  · rfl

variable {statement : PruneStatement}

theorem hasBlob_run (h : db.HasBlob hash) (hRefers : statement = .rawBlob → db.Refers hash) :
    (statement.run cutoffTs db).1.HasBlob hash := by
  cases statement with
  | memberActivity => exact h
  | genAiInference => exact h
  | telemetry => exact h
  | rawExchange => exact h
  | rawBlob =>
    obtain ⟨blobs, hBlobs, blob, hMem, rfl⟩ := h
    refine ⟨blobs.delete db.isOrphan, ?_, blob, List.mem_filter.mpr ⟨hMem, ?_⟩, rfl⟩
    · rw [PruneStatement.run, rawBlob_collectBlobs, Option.mem_def.mp hBlobs]
      rfl
    · rw [Bool.not_eq_true', Bool.eq_false_iff]
      exact fun hOrphan => isOrphan_iff.mp hOrphan (hRefers rfl)

theorem refers_of_collected {blobs : Table (RawBlobRow.hash (B := B))} (hBlobs : blobs ∈ db.collectBlobs.1.rawBlob)
    (hMem : blob ∈ blobs.rows) : db.collectBlobs.1.Refers blob.hash := by
  rw [rawBlob_collectBlobs] at hBlobs
  obtain ⟨before, -, rfl⟩ := Option.mem_map.mp hBlobs
  have hKept := (List.mem_filter.mp hMem).2
  rw [Bool.not_eq_true', Bool.eq_false_iff] at hKept
  rw [refers_collectBlobs]
  exact not_not.mp fun hNot => hKept (isOrphan_iff.mpr hNot)

/-! ## What the broker writes -/

variable {digest : Digest B} {bytes : B} {now : Int}

theorem hasBlob_insertBlobStmt (hash : String) (h : db.insertBlobStmt digest bytes now = some after) :
    (after.Refers hash ↔ db.Refers hash) ∧ (after.HasBlob hash ↔ db.HasBlob hash ∨ digest.sha256Hex bytes = hash) := by
  unfold insertBlobStmt at h
  dsimp only at h
  split at h
  · rename_i hThere
    obtain ⟨blobs, hBlobs⟩ := Option.isSome_iff_exists.mp hThere
    cases h
    refine ⟨Iff.rfl, ?_⟩
    simp only [HasBlob, Option.mem_def, hBlobs, Option.map_some, Option.some_inj, exists_eq_left', Table.rows_insertOrIgnore]
    split
    · simp only [List.mem_append, List.mem_singleton, or_and_right, exists_or, exists_eq_left]
    · rename_i hFound
      constructor
      · exact .inl
      · rintro (hOld | rfl)
        · exact hOld
        · obtain ⟨blob, hBlob⟩ := Option.ne_none_iff_exists'.mp hFound
          exact ⟨blob, Table.mem_of_find hBlob, Table.key_of_find hBlob⟩
  · cases h

variable {memberName : String} {kind : BodyKind} {attrs : JsonObject}

theorem refers_insertExchangeStmt (hash : String) {ts : Int}
    (h : db.insertExchangeStmt digest memberName kind attrs ts bytes now = some after) :
    (after.Refers hash → db.Refers hash ∨ digest.sha256Hex bytes = hash) ∧ (after.HasBlob hash ↔ db.HasBlob hash) := by
  unfold insertExchangeStmt at h
  split at h
  · cases h
    refine ⟨?_, Iff.rfl⟩
    rintro (⟨table, hTable, row, hRow, rfl⟩ | hInference)
    · obtain ⟨before, hBefore, rfl⟩ := Option.mem_map.mp hTable
      obtain hOld | hNew := List.mem_append.mp hRow
      · exact .inl (.inl ⟨before, hBefore, row, hOld, rfl⟩)
      · rw [List.mem_singleton.mp hNew]
        exact .inr rfl
    · exact .inl (.inr hInference)
  · cases h

theorem refers_assignRequestId {exchangeId : Nat} {patch : AssignPatch} (h : (db.assignRequestId exchangeId patch).Refers hash) :
    db.Refers hash := by
  obtain ⟨table, hTable, row, hRow, rfl⟩ | hInference := h
  · obtain ⟨before, hBefore, rfl⟩ := Option.mem_map.mp hTable
    obtain ⟨old, hOld, rfl⟩ := List.mem_map.mp hRow
    refine .inl ⟨before, hBefore, old, hOld, ?_⟩
    split <;> rfl
  · exact .inr hInference

variable {input : GenAiInferenceInput I}

theorem refers_insertInferenceStmt (hash : String)
    (h : db.insertInferenceStmt memberName input now = some after) :
    (after.Refers hash → db.Refers hash ∨ input.Carries hash) ∧ (after.HasBlob hash ↔ db.HasBlob hash) := by
  unfold insertInferenceStmt at h
  split at h
  · cases h
    refine ⟨?_, Iff.rfl⟩
    rintro (hExchange | ⟨table, hTable, row, hRow, hHash⟩)
    · exact .inl (.inl hExchange)
    · obtain ⟨before, hBefore, rfl⟩ := Option.mem_map.mp hTable
      obtain hOld | hNew := List.mem_append.mp hRow
      · exact .inl (.inr ⟨before, hBefore, row, hOld, hHash⟩)
      · rw [List.mem_singleton.mp hNew] at hHash
        exact .inr hHash
  · cases h

/-! ## Later databases -/

structure Follows (before after : ActivityDb P B I) : Prop where
  memberActivity : Option.Rel (Autoincrement.Follows fun row => some (row.ts : Int)) before.memberActivity after.memberActivity
  genAiInference : Option.Rel (Autoincrement.Follows fun row => some row.ts) before.genAiInference after.genAiInference
  telemetry : Option.Rel (Autoincrement.Follows fun row => some row.tsMs) before.telemetry after.telemetry
  rawExchange : Option.Rel (Autoincrement.Follows RawExchangeRow.eventTs) before.rawExchange after.rawExchange

section Tables

variable {ρ : Type} {key : ρ → Nat} {column : ρ → Option Int} {before middle later : Option (Autoincrement key)}

theorem follows_refl (table : Option (Autoincrement key)) : Option.Rel (Autoincrement.Follows column) table table := by
  cases table with
  | none => exact .none
  | some table => exact .some (.refl table)

theorem follows_trans (hFirst : Option.Rel (Autoincrement.Follows column) before middle)
    (hSecond : Option.Rel (Autoincrement.Follows column) middle later) : Option.Rel (Autoincrement.Follows column) before later := by
  cases hFirst with
  | none => exact hSecond
  | some hFirst =>
    cases hSecond with
    | some hSecond => exact .some (hFirst.trans hSecond)

theorem follows_map {change : Autoincrement key → Autoincrement key} (h : ∀ table : Autoincrement key, table.Follows column (change table))
    (table : Option (Autoincrement key)) : Option.Rel (Autoincrement.Follows column) table (table.map change) := by
  cases table with
  | none => exact .none
  | some table => exact .some (h table)

theorem follows_deleteOlderThan (table : Option (Autoincrement key)) (other : ρ → Option Int) (cutoffTs : Rat) :
    Option.Rel (Autoincrement.Follows column) table (deleteOlderThan table other cutoffTs).1 := by
  cases table with
  | none => exact .none
  | some table => exact .some (.delete table _)

theorem isOlder_later {cutoffTs : Rat} (h : Option.Rel (Autoincrement.Follows column) (deleteOlderThan before column cutoffTs).1 later) :
    ∀ rows ∈ later, ∀ row ∈ rows.rows, isOlder column cutoffTs row = true → ∃ table ∈ before, table.sequence < key row := by
  cases before with
  | none =>
    cases h with
    | none => exact fun rows hRows => nomatch hRows
  | some table =>
    cases h with
    | some h =>
      rename_i left
      intro rows hRows row hRow hOlder
      obtain rfl := Option.some_inj.mp hRows
      refine ⟨table, rfl, ?_⟩
      obtain hNew | ⟨old, hOld, -, hColumn⟩ := h.rows row hRow
      · exact hNew
      · have hKept := (List.mem_filter.mp hOld).2
        unfold isOlder at hKept hOlder
        rw [hColumn, hOlder] at hKept
        cases hKept

end Tables

theorem Follows.refl (db : ActivityDb P B I) : db.Follows db := ⟨follows_refl _, follows_refl _, follows_refl _, follows_refl _⟩

theorem Follows.trans {middle : ActivityDb P B I} (hFirst : db.Follows middle) (hSecond : middle.Follows after) : db.Follows after where
  memberActivity := follows_trans hFirst.memberActivity hSecond.memberActivity
  genAiInference := follows_trans hFirst.genAiInference hSecond.genAiInference
  telemetry := follows_trans hFirst.telemetry hSecond.telemetry
  rawExchange := follows_trans hFirst.rawExchange hSecond.rawExchange

theorem follows_run (statement : PruneStatement) (cutoffTs : Rat) : db.Follows (statement.run cutoffTs db).1 := by
  cases statement with
  | memberActivity => exact ⟨follows_deleteOlderThan _ _ _, follows_refl _, follows_refl _, follows_refl _⟩
  | genAiInference => exact ⟨follows_refl _, follows_deleteOlderThan _ _ _, follows_refl _, follows_refl _⟩
  | telemetry => exact ⟨follows_refl _, follows_refl _, follows_deleteOlderThan _ _ _, follows_refl _⟩
  | rawExchange => exact ⟨follows_refl _, follows_refl _, follows_refl _, follows_deleteOlderThan _ _ _⟩
  | rawBlob =>
    unfold PruneStatement.run collectBlobs
    dsimp only
    split
    · exact .refl db
    · exact ⟨follows_refl _, follows_refl _, follows_refl _, follows_refl _⟩

theorem follows_insertBlobStmt (h : db.insertBlobStmt digest bytes now = some after) : db.Follows after := by
  unfold insertBlobStmt at h
  dsimp only at h
  split at h
  · cases h
    exact ⟨follows_refl _, follows_refl _, follows_refl _, follows_refl _⟩
  · cases h

theorem follows_insertExchangeStmt {ts : Int}
    (h : db.insertExchangeStmt digest memberName kind attrs ts bytes now = some after) : db.Follows after := by
  unfold insertExchangeStmt at h
  split at h
  · cases h
    exact ⟨follows_refl _, follows_refl _, follows_refl _, follows_map (fun table => .insert table _ _) _⟩
  · cases h

theorem follows_assignRequestId (exchangeId : Nat) (patch : AssignPatch) : db.Follows (db.assignRequestId exchangeId patch) :=
  ⟨follows_refl _, follows_refl _, follows_refl _, follows_map (fun table => .update table _ (f := assigned patch) (fun _ => rfl) fun _ => rfl) _⟩

theorem follows_insertInferenceStmt
    (h : db.insertInferenceStmt memberName input now = some after) : db.Follows after := by
  unfold insertInferenceStmt at h
  split at h
  · cases h
    exact ⟨follows_refl _, follows_map (fun table => .insert table _ _) _, follows_refl _, follows_refl _⟩
  · cases h

/-- What a statement that deletes by age promises of later databases: a row that is too old has come since. -/
def PruneStatement.Promises (before later : ActivityDb P B I) (cutoffTs : Rat) : PruneStatement → Prop
  | .memberActivity => ∀ rows ∈ later.memberActivity, ∀ row ∈ rows.rows, (row.ts : Rat) < cutoffTs →
      ∃ table ∈ before.memberActivity, table.sequence < row.id
  | .genAiInference => ∀ rows ∈ later.genAiInference, ∀ row ∈ rows.rows, (row.ts : Rat) < cutoffTs →
      ∃ table ∈ before.genAiInference, table.sequence < row.id
  | .telemetry => ∀ rows ∈ later.telemetry, ∀ row ∈ rows.rows, (row.tsMs : Rat) < cutoffTs →
      ∃ table ∈ before.telemetry, table.sequence < row.id
  | .rawExchange => ∀ rows ∈ later.rawExchange, ∀ row ∈ rows.rows, ∀ ts ∈ row.eventTs, (ts : Rat) < cutoffTs →
      ∃ table ∈ before.rawExchange, table.sequence < row.id
  | .rawBlob => True

theorem promises (h : (statement.run cutoffTs db).1.Follows after) : statement.Promises db after cutoffTs := by
  cases statement with
  | memberActivity =>
    intro rows hRows row hRow hOlder
    exact isOlder_later h.memberActivity rows hRows row hRow (by simpa [isOlder] using hOlder)
  | genAiInference =>
    intro rows hRows row hRow hOlder
    exact isOlder_later h.genAiInference rows hRows row hRow (by simpa [isOlder] using hOlder)
  | telemetry =>
    intro rows hRows row hRow hOlder
    exact isOlder_later h.telemetry rows hRows row hRow (by simpa [isOlder] using hOlder)
  | rawExchange =>
    intro rows hRows row hRow ts hTs hOlder
    exact isOlder_later h.rawExchange rows hRows row hRow (by simpa [isOlder, Option.mem_def.mp hTs] using hOlder)
  | rawBlob => trivial

end ActivityDb

namespace Captures

variable {P B J I : Type} (opts : GenAiCorrelatorOptions B J I) (digest : Digest B) {captures : Captures P B I} {hash : String}

/-! ## What the broker holds -/

def CaptureTask.Carries : CaptureTask B I → String → Prop
  | .idle, _ => False
  | .taking _ _ _ out, hash => ∃ input ∈ out, input.Carries hash
  | .storing _ _ _ _ bytes _ out, hash => digest.sha256Hex bytes = hash ∨ ∃ input ∈ out, input.Carries hash
  | .appending _ out, hash => ∃ input ∈ out, input.Carries hash

/-- The hash is in a correlator, in an append between its two statements, or in an inference that is not stored yet. -/
def Carries (captures : Captures P B I) (hash : String) : Prop :=
  (∃ memberName, (captures.correlators memberName).Carries hash) ∨ CaptureTask.Carries digest captures.task hash

/-- When blobs are collected, what the broker holds is referenced. -/
def Spares (captures : Captures P B I) : CaptureEvent → Prop
  | .prunes => captures.pruning.head? = some .rawBlob → ∀ hash, captures.Carries digest hash → captures.db.Refers hash
  | _ => True

variable {digest} in
theorem spares_of_ne (h : captures.pruning.head? ≠ some .rawBlob) : captures.Spares digest .prunes := fun hHead => absurd hHead h

def Stored (captures : Captures P B I) : Prop := ∀ hash, captures.db.Refers hash ∨ captures.Carries digest hash → captures.db.HasBlob hash

variable {digest} {memberName : String}

theorem correlator_update {correlator : GenAiCorrelator} {correlators : String → GenAiCorrelator}
    (h : ∃ other, (update correlators memberName correlator other).Carries hash) :
    correlator.Carries hash ∨ ∃ other, (correlators other).Carries hash := by
  obtain ⟨other, hCarries⟩ := h
  obtain rfl | hOther := eq_or_ne other memberName
  · rw [update_self] at hCarries
    exact .inl hCarries
  · rw [update_of_ne hOther] at hCarries
    exact .inr ⟨other, hCarries⟩

variable {record : Normalized} {stored : Option String} {records : List Normalized} {out : List (GenAiInferenceInput I)}

theorem takeUp_carries {now : Int} (h : (takeUp opts memberName now record stored records out captures).Carries digest hash) :
    (∃ other, (captures.correlators other).Carries hash) ∨ (∃ input ∈ out, input.Carries hash) ∨ stored = some hash := by
  let taken := ingestRecord (storedAs opts stored) now record (captures.correlators memberName)
  have hRecord : taken.1.Carries hash ∨ (∃ input ∈ taken.2, input.Carries hash) →
      (captures.correlators memberName).Carries hash ∨ stored = some hash := ingestRecord_carries opts
  obtain hCorrelators | ⟨input, hMem, hHash⟩ := h
  · obtain hNew | hOld := correlator_update hCorrelators
    · obtain hCorrelator | hStored := hRecord (.inl hNew)
      · exact .inl ⟨memberName, hCorrelator⟩
      · exact .inr (.inr hStored)
    · exact .inl hOld
  · obtain hOut | hEmitted := List.mem_append.mp hMem
    · exact .inr (.inl ⟨input, hOut, hHash⟩)
    · obtain hCorrelator | hStored := hRecord (.inr ⟨input, Option.mem_toList.mp hEmitted, hHash⟩)
      · exact .inl ⟨memberName, hCorrelator⟩
      · exact .inr (.inr hStored)

theorem attempt_eq_some {runs : Bool} {written : Option (ActivityDb P B I)} {db : ActivityDb P B I}
    (h : (if runs then written else none) = some db) : written = some db := by
  cases runs with
  | false => cases h
  | true => exact h

theorem stored_takeUp (h : captures.Stored digest) {now : Int} (hStored : ∀ hash, stored = some hash → captures.db.HasBlob hash)
    (hOut : ∀ hash, (∃ input ∈ out, input.Carries hash) → captures.db.HasBlob hash) :
    (takeUp opts memberName now record stored records out captures).Stored digest := by
  intro hash hNeeded
  obtain hRefers | hCarries := hNeeded
  · exact h hash (.inl hRefers)
  · obtain hCorrelators | hRest | hHash := takeUp_carries opts hCarries
    · exact h hash (.inr (.inl hCorrelators))
    · exact hOut hash hRest
    · exact hStored hash hHash

theorem stored_writes (h : captures.Stored digest) (runs : Bool) (clock : Int) : (writes opts digest runs clock captures).Stored digest := by
  unfold writes
  dsimp only
  cases hTask : captures.task with
  | idle => exact h
  | taking memberName now records out =>
    have hOut (hash : String) (hInput : ∃ input ∈ out, input.Carries hash) : captures.db.HasBlob hash :=
      h hash (.inr (.inr (by rw [hTask]; exact hInput)))
    cases records with
    | nil =>
      dsimp only
      rintro hash (hRefers | hCorrelators | ⟨input, hMem, hHash⟩)
      · exact h hash (.inl hRefers)
      · obtain hEvicted | hOld := correlator_update hCorrelators
        · exact h hash (.inr (.inl ⟨memberName, evictStale_carries opts hEvicted⟩))
        · exact h hash (.inr (.inl hOld))
      · exact hOut hash ⟨input, (List.mem_insertionSort _).mp hMem, hHash⟩
    | cons record records =>
      dsimp only
      split
      · exact stored_takeUp opts h (fun _ hNone => nomatch hNone) hOut
      · split
        · exact stored_takeUp opts h (fun _ hNone => nomatch hNone) hOut
        · rename_i kind bytes _ _ db hInsert
          have hSpec (hash : String) := hasBlob_insertBlobStmt hash (attempt_eq_some hInsert)
          rintro hash (hRefers | hCorrelators | hHash | hInput)
          · exact (hSpec hash).2.mpr (.inl (h hash (.inl ((hSpec hash).1.mp hRefers))))
          · exact (hSpec hash).2.mpr (.inl (h hash (.inr (.inl hCorrelators))))
          · exact (hSpec hash).2.mpr (.inr hHash)
          · exact (hSpec hash).2.mpr (.inl (hOut hash hInput))
  | storing memberName now record kind bytes records out =>
    have hOut (hash : String) (hInput : ∃ input ∈ out, input.Carries hash) : captures.db.HasBlob hash :=
      h hash (.inr (.inr (by rw [hTask]; exact .inr hInput)))
    have hBytes : captures.db.HasBlob (digest.sha256Hex bytes) := h _ (.inr (.inr (by rw [hTask]; exact .inl rfl)))
    dsimp only
    split
    · exact stored_takeUp opts h (fun _ hNone => nomatch hNone) hOut
    · rename_i db hInsert
      have hSpec (hash : String) := refers_insertExchangeStmt hash (attempt_eq_some hInsert)
      refine stored_takeUp opts ?_ ?_ ?_
      · rintro hash (hRefers | hCorrelators | hTaken)
        · rw [(hSpec hash).2]
          obtain hOld | rfl := (hSpec hash).1 hRefers
          · exact h hash (.inl hOld)
          · exact hBytes
        · exact (hSpec hash).2.mpr (h hash (.inr (.inl hCorrelators)))
        · exact (hSpec hash).2.mpr (h hash (.inr (.inr (by rw [hTask]; exact hTaken))))
      · intro hash hHash
        rw [← Option.some_inj.mp hHash]
        exact (hSpec _).2.mpr hBytes
      · exact fun hash hInput => (hSpec hash).2.mpr (hOut hash hInput)
  | appending memberName out =>
    have hOut (hash : String) (hInput : ∃ input ∈ out, input.Carries hash) : captures.db.HasBlob hash :=
      h hash (.inr (.inr (by rw [hTask]; exact hInput)))
    cases out with
    | nil =>
      rintro hash (hRefers | hCorrelators | hNone)
      · exact h hash (.inl hRefers)
      · exact h hash (.inr (.inl hCorrelators))
      · cases hNone
    | cons inference out =>
      dsimp only
      split
      · rintro hash (hRefers | hCorrelators | hNone)
        · exact h hash (.inl hRefers)
        · exact h hash (.inr (.inl hCorrelators))
        · cases hNone
      · rename_i db hInsert
        have hSpec (hash : String) := refers_insertInferenceStmt hash (attempt_eq_some hInsert)
        rintro hash (hRefers | hCorrelators | ⟨input, hMem, hHash⟩)
        · rw [(hSpec hash).2]
          obtain hOld | hNew := (hSpec hash).1 hRefers
          · exact h hash (.inl hOld)
          · exact hOut hash ⟨inference, List.mem_cons_self, hNew⟩
        · exact (hSpec hash).2.mpr (h hash (.inr (.inl hCorrelators)))
        · exact (hSpec hash).2.mpr (hOut hash ⟨input, List.mem_cons_of_mem _ hMem, hHash⟩)

theorem stored_apply (h : captures.Stored digest) {event : CaptureEvent} (hSpares : captures.Spares digest event) :
    (apply opts digest captures event).1.Stored digest := by
  cases event with
  | ingest memberName now records =>
    unfold apply
    dsimp only
    split
    · rintro hash (hRefers | hCorrelators | ⟨input, hMem, -⟩)
      · exact h hash (.inl hRefers)
      · exact h hash (.inr (.inl hCorrelators))
      · cases hMem
    · exact h
  | writes runs clock => exact stored_writes opts h runs clock
  | assigns exchangeId patch =>
    rintro hash (hRefers | hCarries)
    · exact h hash (.inl (refers_assignRequestId hRefers))
    · exact h hash (.inr hCarries)
  | prune cutoffTs =>
    unfold apply
    dsimp only
    split
    · exact h
    · exact h
  | prunes =>
    unfold apply
    dsimp only
    split
    · exact h
    · rename_i statement rest hPruning
      have hHead : statement = .rawBlob → ∀ hash, captures.Carries digest hash → captures.db.Refers hash := by
        rintro rfl
        exact hSpares (by rw [hPruning]; rfl)
      rintro hash (hRefers | hCarries)
      · have hBefore := refers_run statement captures.cutoffTs hRefers
        exact hasBlob_run (h hash (.inl hBefore)) fun _ => hBefore
      · exact hasBlob_run (h hash (.inr hCarries)) fun hCollects => hHead hCollects hash hCarries

theorem follows_writes (runs : Bool) (clock : Int) : captures.db.Follows (writes opts digest runs clock captures).db := by
  unfold writes
  dsimp only
  cases captures.task with
  | idle => exact .refl _
  | taking memberName now records out =>
    cases records with
    | nil => exact .refl _
    | cons record records =>
      dsimp only
      split
      · exact .refl _
      · split
        · exact .refl _
        · rename_i hInsert
          exact follows_insertBlobStmt (attempt_eq_some hInsert)
  | storing memberName now record kind bytes records out =>
    dsimp only
    split
    · exact .refl _
    · rename_i hInsert
      exact follows_insertExchangeStmt (attempt_eq_some hInsert)
  | appending memberName out =>
    cases out with
    | nil => exact .refl _
    | cons inference out =>
      dsimp only
      split
      · exact .refl _
      · rename_i hInsert
        exact follows_insertInferenceStmt (attempt_eq_some hInsert)

theorem follows_apply (captures : Captures P B I) (event : CaptureEvent) : captures.db.Follows (apply opts digest captures event).1.db := by
  cases event with
  | ingest memberName now records =>
    unfold apply
    dsimp only
    split <;> exact .refl _
  | writes runs clock => exact follows_writes opts runs clock
  | assigns exchangeId patch => exact follows_assignRequestId exchangeId patch
  | prune cutoffTs =>
    unfold apply
    dsimp only
    split <;> exact .refl _
  | prunes =>
    unfold apply
    dsimp only
    split
    · exact .refl _
    · exact follows_run _ _

variable (digest)

/-- A step of `prune-traces` keeps its promise to the end of the run, and leaves no blob without a reference. -/
theorem prunes_promises {first rest : List (Step (Captures P B I) CaptureEvent Nat)} {step : Step (Captures P B I) CaptureEvent Nat}
    {events : List CaptureEvent} (hRun : run (apply opts digest) captures events = first ++ step :: rest)
    (hInput : step.input = .prunes) {statement : PruneStatement} (hHead : step.before.pruning.head? = some statement) :
    statement.Promises step.before.db (final (apply opts digest) captures events).db step.before.cutoffTs ∧
    (statement = .rawBlob → ∀ blobs ∈ step.after.db.rawBlob, ∀ blob ∈ blobs.rows, step.after.db.Refers blob.hash) := by
  obtain ⟨before, event, after, rfl, -, rfl, -⟩ := run_eq_append_cons _ hRun
  dsimp only [stepAt] at *
  subst hInput
  rw [final_append, final_cons]
  generalize final (apply opts digest) captures before = reached at *
  have hStep : (apply opts digest reached .prunes).1.db = (statement.run reached.cutoffTs reached.db).1 := by
    unfold apply
    dsimp only
    cases hPruning : reached.pruning with
    | nil =>
      rw [hPruning] at hHead
      cases hHead
    | cons next left =>
      rw [hPruning] at hHead
      cases hHead
      rfl
  constructor
  · apply promises
    rw [← hStep]
    exact final_invariant (P := fun later : Captures P B I => (apply opts digest reached .prunes).1.db.Follows later.db)
      (fun later event hFollows => hFollows.trans (follows_apply opts later event)) (.refl _) after
  · rintro rfl blobs hBlobs blob hMem
    rw [hStep] at hBlobs ⊢
    exact refers_of_collected hBlobs hMem

/-! ## Runs -/

theorem retention_keeps_captures {db : ActivityDb P B I} (hConsistent : db.Consistent) (events : List CaptureEvent)
    (hSpares : ∀ step ∈ run (apply opts digest) (startWith db) events, step.before.Spares digest step.input) :
    (final (apply opts digest) (startWith db) events).db.Consistent ∧
    ∀ first step rest, run (apply opts digest) (startWith db) events = first ++ step :: rest → step.input = .prunes →
      ∀ statement, step.before.pruning.head? = some statement →
        statement.Promises step.before.db (final (apply opts digest) (startWith db) events).db step.before.cutoffTs ∧
        (statement = .rawBlob → ∀ blobs ∈ step.after.db.rawBlob, ∀ blob ∈ blobs.rows, step.after.db.Refers blob.hash) := by
  have hStart : (startWith db : Captures P B I).Stored digest := by
    rintro hash (hRefers | ⟨memberName, hCorrelator⟩ | hIdle)
    · exact hConsistent hash hRefers
    · exact absurd hCorrelator not_carries_empty
    · cases hIdle
  have hStored := final_invariant_of (P := Stored digest) (C := Spares digest)
    (fun captures event h hMeets => stored_apply opts h hMeets) hStart hSpares
  constructor
  · exact fun hash hRefers => hStored hash (.inl hRefers)
  · exact fun first step rest hRun hInput statement hHead => prunes_promises opts digest hRun hInput hHead

end Captures

/-! A broker stores the body of a request, and `prune-traces` runs while it is at it. -/

namespace Captures.OneBody

def opts : GenAiCorrelatorOptions String String Unit where
  readBodyRef _ := none
  encode := id
  decode := id
  appendBody _ _ _ _ := none
  parse := some
  anthropicToGenAi _ _ _ _ _ := some ()
  number _ := none
  ttlMs := 120000
  maxPending := 256

def digest : Digest String := ⟨id, id, String.length⟩

def file : ActivityDb Unit String Unit := ⟨some .empty, some .empty, some .empty, some .empty, some .empty, rfl⟩

theorem file_consistent : file.Consistent := by
  rintro hash (⟨table, hTable, row, hRow, -⟩ | ⟨table, hTable, row, hRow, -⟩)
  · obtain rfl := Option.some_inj.mp hTable
    cases hRow
  · obtain rfl := Option.some_inj.mp hTable
    cases hRow

def stores : CaptureEvent := .ingest "ada" 5 [⟨.log, "api_request_body", 0, [("body", .string "x")]⟩]

def after : List CaptureEvent := [stores, .writes true 5, .writes true 5, .prune 3, .prunes, .prunes, .prunes, .prunes, .prunes]

theorem stored_before : (final (apply opts digest) (startWith file) after).db.Consistent := by
  refine (retention_keeps_captures opts digest file_consistent after ?_).1
  refine List.forall_mem_cons.mpr ⟨trivial, List.forall_mem_cons.mpr ⟨trivial, List.forall_mem_cons.mpr ⟨trivial, ?_⟩⟩⟩
  refine List.forall_mem_cons.mpr ⟨trivial, List.forall_mem_cons.mpr ⟨spares_of_ne (by decide), ?_⟩⟩
  refine List.forall_mem_cons.mpr ⟨spares_of_ne (by decide), List.forall_mem_cons.mpr ⟨spares_of_ne (by decide), ?_⟩⟩
  refine List.forall_mem_cons.mpr ⟨spares_of_ne (by decide), List.forall_mem_cons.mpr ⟨?_, fun step hStep => nomatch hStep⟩⟩
  rintro - hash (hCorrelators | ⟨input, hMem, -⟩)
  · obtain (⟨request, hMem, hHash⟩ | ⟨key, p, hPending, -⟩) | ⟨other, hOther⟩ := correlator_update hCorrelators
    · obtain rfl := List.mem_singleton.mp hMem
      exact .inl ⟨_, rfl, _, List.mem_singleton_self _, Option.some_inj.mp hHash⟩
    · cases hPending
    · exact absurd hOther not_carries_empty
  · cases hMem

def between : List CaptureEvent :=
  [stores, .writes true 5, .prune 3, .prunes, .prunes, .prunes, .prunes, .prunes, .writes true 5, .writes true 5, .writes true 5]

theorem exchange_without_blob : ¬∀ events : List CaptureEvent,
    let captures := final (apply opts digest) (startWith file) events
    captures.task = .idle → captures.pruning = [] → captures.db.Consistent := by
  intro h
  obtain ⟨blobs, hBlobs, blob, hMem, -⟩ := h between rfl rfl "x" (.inl ⟨_, rfl, _, List.mem_singleton_self _, rfl⟩)
  obtain rfl := Option.some_inj.mp hBlobs
  cases hMem

end Captures.OneBody

end CommandSuite
