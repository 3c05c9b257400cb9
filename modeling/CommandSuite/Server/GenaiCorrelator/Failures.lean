import CommandSuite.Server.GenaiCorrelator.Batches

/-! # Failed calls

An `api_error` takes a request body out of the queue. As long as what it takes, and what later records take, is of their own
model, the calls of other models get what they would have got without it.
-/

namespace CommandSuite.GenAiCorrelator

open Library Function

section

variable {B J I : Type} (opts : GenAiCorrelatorOptions B J I) (now : Int)

def outcomesOf (key : String) : List Normalized → GenAiCorrelator → List (GenAiInferenceInput I)
  | [], _ => []
  | record :: records, correlator =>
    let (after, emitted) := ingestRecord opts now record correlator
    (if exchangeKey record correlator = some key then emitted.toList else []) ++ outcomesOf key records after

def OfOtherModel (model key : String) : List Normalized → GenAiCorrelator → Prop
  | [], _ => True
  | record :: records, correlator =>
    (record.event = .apiRequest → exchangeKey record correlator = some key → asStr record.attrs "model" ≠ some model) ∧
      OfOtherModel model key records (ingestRecord opts now record correlator).1

/-- The queue is empty, or has a body of this model. Without a model it is the first body that has none. -/
def Owns : Option String → List UnclaimedRequest → Prop
  | some model, fifo => fifo = [] ∨ ∃ request ∈ fifo, request.model = some model
  | none, fifo => ∀ request, fifo.head? = some request → request.model = none

/-- A record takes a body of its own model only, and a new body pushes none out. -/
def KeepsToModel (record : Normalized) (correlator : GenAiCorrelator) : Prop :=
  match record.event with
  | .apiRequestBody => correlator.fifo.length < opts.maxPending
  | .apiRequest | .apiError => Owns (asStr record.attrs "model") correlator.fifo
  | .apiResponseBody => True

def AllKeepToModel : List Normalized → GenAiCorrelator → Prop
  | [], _ => True
  | record :: records, correlator =>
    KeepsToModel opts record correlator ∧ AllKeepToModel records (ingestRecord opts now record correlator).1

variable {opts now}

theorem claimRequest_of_owns {model : Option String} {fifo : List UnclaimedRequest} (h : Owns model fifo) :
    claimRequest model fifo = (fifo.find? fun request => request.model = model, fifo.eraseP fun request => request.model = model) := by
  cases model with
  | none =>
    cases fifo with
    | nil => rfl
    | cons request fifo =>
      have hFirst : request.model = none := h request rfl
      simp [claimRequest, hFirst]
  | some model =>
    unfold claimRequest
    dsimp only
    split
    · rename_i claimed hFind
      rw [hFind]
    · rename_i hNone
      obtain rfl | ⟨request, hRequest, hModel⟩ := h
      · rfl
      · exact absurd hModel (by simpa using List.find?_eq_none.mp hNone request hRequest)

def others (model : String) (fifo : List UnclaimedRequest) : List UnclaimedRequest :=
  fifo.filter fun request => !decide (request.model = some model)

theorem others_eraseP_self (model : String) (fifo : List UnclaimedRequest) :
    others model (fifo.eraseP fun request => request.model = some model) = others model fifo := by
  unfold others
  induction fifo with
  | nil => rfl
  | cons request fifo ih =>
    by_cases hModel : request.model = some model
    · simp [hModel]
    · simp [hModel, ih]

theorem claim_others {model : String} {claiming : Option String} (h : claiming ≠ some model) (fifo : List UnclaimedRequest) :
    (fifo.find? fun request => request.model = claiming) = (others model fifo).find? (fun request => request.model = claiming) ∧
      others model (fifo.eraseP fun request => request.model = claiming) =
        (others model fifo).eraseP fun request => request.model = claiming := by
  have hOther : ∀ request : UnclaimedRequest, (decide (request.model = claiming) && !decide (request.model = some model)) =
      decide (request.model = claiming) := by
    intro request
    by_cases hModel : request.model = claiming
    · simp [hModel, h]
    · simp [hModel]
  constructor
  · rw [others, List.find?_filter]
    congr 1
    funext request
    rw [← hOther request]
    simp
  · rw [others, others, List.eraseP_filter]
    congr 2
    funext request
    exact (hOther request).symm

structure Alike (model key : String) (c d : GenAiCorrelator) : Prop where
  synthSeq : c.synthSeq = d.synthSeq
  pending : c.pending key = d.pending key
  queue : others model c.fifo = others model d.fifo

variable {model key : String} {c d : GenAiCorrelator}

section

variable (h : Alike model key c d)
include h

theorem Alike.sameKey (record : Normalized) : exchangeKey record c = exchangeKey record d := by
  rw [exchangeKey, exchangeKey, h.synthSeq]

theorem Alike.claim {claiming : Option String}
    (hOwns : Owns claiming c.fifo) (hOwns' : Owns claiming d.fifo) :
    others model (claimRequest claiming c.fifo).2 = others model (claimRequest claiming d.fifo).2 ∧
      (claiming ≠ some model → (claimRequest claiming c.fifo).1 = (claimRequest claiming d.fifo).1) := by
  rw [claimRequest_of_owns hOwns, claimRequest_of_owns hOwns']
  by_cases hModel : claiming = some model
  · refine ⟨?_, fun hOther => absurd hModel hOther⟩
    rw [hModel, others_eraseP_self, others_eraseP_self, h.queue]
  · obtain ⟨hTaken, hLeft⟩ := claim_others hModel c.fifo
    obtain ⟨hTaken', hLeft'⟩ := claim_others hModel d.fifo
    dsimp only
    rw [hTaken, hTaken', hLeft, hLeft', h.queue]
    exact ⟨rfl, fun _ => rfl⟩

theorem Alike.tryEmit (touched : String)
    {p q : PendingExchange} (hSame : touched = key → p = q) :
    Alike model key (tryEmit opts now touched p c).1 (tryEmit opts now touched q d).1 ∧
      (touched = key → (tryEmit opts now touched p c).2 = (tryEmit opts now touched q d).2) := by
  by_cases hKey : touched = key
  · obtain rfl := hSame hKey
    unfold GenAiCorrelator.tryEmit
    subst hKey
    have hStored : ∀ entry : Option PendingExchange,
        update c.pending touched entry touched = update d.pending touched entry touched := by
      intro entry
      rw [update_self, update_self]
    split
    · exact ⟨⟨h.synthSeq, hStored none, h.queue⟩, fun _ => rfl⟩
    · exact ⟨⟨h.synthSeq, hStored (some p), h.queue⟩, fun _ => rfl⟩
  · have hUntouched : ∀ (p : PendingExchange) (c : GenAiCorrelator), (GenAiCorrelator.tryEmit opts now touched p c).1.synthSeq = c.synthSeq ∧
        (GenAiCorrelator.tryEmit opts now touched p c).1.pending key = c.pending key ∧
          (GenAiCorrelator.tryEmit opts now touched p c).1.fifo = c.fifo := by
      intro p c
      unfold GenAiCorrelator.tryEmit
      split
      · exact ⟨rfl, update_of_ne (Ne.symm hKey) _ _, rfl⟩
      · exact ⟨rfl, update_of_ne (Ne.symm hKey) _ _, rfl⟩
    obtain ⟨hSynth, hPending, hFifo⟩ := hUntouched p c
    obtain ⟨hSynth', hPending', hFifo'⟩ := hUntouched q d
    refine ⟨⟨?_, ?_, ?_⟩, fun hTouched => absurd hTouched hKey⟩
    · rw [hSynth, hSynth', h.synthSeq]
    · rw [hPending, hPending', h.pending]
    · rw [hFifo, hFifo', h.queue]

theorem Alike.record {record : Normalized}
    (hOther : record.event = .apiRequest → exchangeKey record c = some key → asStr record.attrs "model" ≠ some model)
    (hKeeps : KeepsToModel opts record c) (hKeeps' : KeepsToModel opts record d) :
    Alike model key (ingestRecord opts now record c).1 (ingestRecord opts now record d).1 ∧
      (exchangeKey record c = some key → (ingestRecord opts now record c).2 = (ingestRecord opts now record d).2) := by
  have hPending : ∀ touched, touched = key → c.getPending touched = d.getPending touched := by
    rintro touched rfl
    rw [getPending, getPending, h.pending]
  unfold KeepsToModel at hKeeps hKeeps'
  unfold ingestRecord
  unfold exchangeKey at hOther ⊢
  cases hEvent : record.event with
  | apiRequestBody =>
    rw [hEvent] at hKeeps hKeeps'
    refine ⟨⟨h.synthSeq, h.pending, ?_⟩, by rintro ⟨⟩⟩
    have hAppended : ∀ e : GenAiCorrelator, e.fifo.length < opts.maxPending →
        (ingestRequestBody opts record.attrs record.ts e).fifo =
          e.fifo ++ [⟨captureBody opts .request record.attrs record.ts, record.ts, asStr record.attrs "model"⟩] := by
      intro e hRoom
      unfold ingestRequestBody
      dsimp only
      rw [List.length_append, List.length_singleton, Nat.sub_eq_zero_of_le hRoom, List.drop_zero]
    dsimp only
    rw [hAppended { c with newestTs := max c.newestTs record.ts } hKeeps,
      hAppended { d with newestTs := max d.newestTs record.ts } hKeeps', others, others, List.filter_append, List.filter_append]
    exact congrArg (· ++ _) h.queue
  | apiRequest =>
    rw [hEvent] at hKeeps hKeeps' hOther
    obtain ⟨hLeft, hTaken⟩ := h.claim hKeeps hKeeps'
    dsimp only [ingestRequest]
    have hClaimed : ∀ newest newest' synthSeq, Alike model key
        ⟨(claimRequest (asStr record.attrs "model") c.fifo).2, c.pending, newest, synthSeq⟩
        ⟨(claimRequest (asStr record.attrs "model") d.fifo).2, d.pending, newest', synthSeq⟩ :=
      fun _ _ _ => ⟨rfl, h.pending, hLeft⟩
    rw [← h.synthSeq]
    refine And.imp_right (fun hEmitted hKey => hEmitted (Option.some.inj hKey)) ((hClaimed _ _ _).tryEmit _ fun hTouched => ?_)
    rw [hTaken (hOther rfl (congrArg some hTouched))]
    exact congrArg (account record.attrs record.ts _) (hPending _ hTouched)
  | apiResponseBody =>
    dsimp only [ingestResponseBody]
    have hSame : ∀ newest newest' synthSeq, Alike model key ⟨c.fifo, c.pending, newest, synthSeq⟩
        ⟨d.fifo, d.pending, newest', synthSeq⟩ := fun _ _ _ => ⟨rfl, h.pending, h.queue⟩
    rw [← h.synthSeq]
    refine And.imp_right (fun hEmitted hKey => hEmitted (Option.some.inj hKey)) ((hSame _ _ _).tryEmit _ fun hTouched => ?_)
    exact congrArg (respond opts record.attrs record.ts) (hPending _ hTouched)
  | apiError =>
    rw [hEvent] at hKeeps hKeeps'
    refine ⟨?_, by rintro ⟨⟩⟩
    obtain ⟨hLeft, -⟩ := h.claim hKeeps hKeeps'
    dsimp only [ingestError]
    split
    · rename_i requestId _
      refine ⟨h.synthSeq, ?_, hLeft⟩
      dsimp only
      rw [update_apply, update_apply, h.pending]
    · exact ⟨h.synthSeq, h.pending, hLeft⟩

theorem Alike.outcomes {records : List Normalized}
    (hOther : OfOtherModel opts now model key records c) (hKeep : AllKeepToModel opts now records c)
    (hKeep' : AllKeepToModel opts now records d) : outcomesOf opts now key records c = outcomesOf opts now key records d := by
  induction records generalizing c d with
  | nil => rfl
  | cons record records ih =>
    obtain ⟨hAfter, hEmitted⟩ : Alike model key (ingestRecord opts now record c).1 (ingestRecord opts now record d).1 ∧
        (exchangeKey record c = some key → (ingestRecord opts now record c).2 = (ingestRecord opts now record d).2) :=
      h.record hOther.1 hKeep.1 hKeep'.1
    rw [outcomesOf, outcomesOf]
    dsimp only
    rw [ih hAfter hOther.2 hKeep.2 hKeep'.2, ← h.sameKey]
    split
    · rename_i hKey
      rw [hEmitted hKey]
    · rfl

end

theorem exchangeKey_of_emitted {record : Normalized} {correlator : GenAiCorrelator} {inference : GenAiInferenceInput I}
    (h : (ingestRecord opts now record correlator).2 = some inference) : ∃ key, exchangeKey record correlator = some key := by
  unfold ingestRecord at h
  unfold exchangeKey
  cases hEvent : record.event with
  | apiRequest | apiResponseBody => exact ⟨_, rfl⟩
  | apiRequestBody | apiError => rw [hEvent] at h; cases h

theorem mem_ingestRecords_iff (records : List Normalized) (correlator : GenAiCorrelator) (inference : GenAiInferenceInput I) :
    inference ∈ (ingestRecords opts now records correlator).2 ↔ ∃ key, inference ∈ outcomesOf opts now key records correlator := by
  induction records generalizing correlator with
  | nil => simp [ingestRecords, outcomesOf]
  | cons record records ih =>
    rw [ingestRecords]
    simp only [outcomesOf, List.mem_append, ih, exists_or]
    refine or_congr ⟨fun hEmitted => ?_, ?_⟩ Iff.rfl
    · obtain ⟨key, hKey⟩ := exchangeKey_of_emitted (Option.mem_toList.mp hEmitted)
      exact ⟨key, by rwa [if_pos hKey]⟩
    · rintro ⟨key, hOutcome⟩
      split at hOutcome
      · exact hOutcome
      · cases hOutcome

end

namespace Failing

def normalized (event : GenAiEvent) (seq : Rat) (attributes : JsonObject) : Normalized :=
  ⟨event, ("event.sequence", .number seq) :: attributes, 5, some seq⟩

def requestBody (seq : Rat) (model : String) : Normalized :=
  normalized .apiRequestBody seq [("model", .string model), ("body", .string model)]

def completed : List Normalized :=
  [normalized .apiRequest 4 [("model", .string "opus"), ("request_id", .string "req_1")],
    normalized .apiResponseBody 5 [("request_id", .string "req_1"), ("body", .string "answer")]]

def error : Normalized := normalized .apiError 3 [("model", .string "haiku")]

def batch (records : List (GenAiEvent × Rat × JsonObject)) : Int × List TelemetryRecord :=
  (5, records.map fun record => TwoCalls.emitted record.1 record.2.1 record.2.2)

def split : List (Int × List TelemetryRecord) :=
  [batch [(.apiRequestBody, 1, [("model", .string "opus"), ("body", .string "opus")])],
    batch [(.apiRequest, 4, [("model", .string "opus"), ("request_id", .string "req_1")])]]

end Failing

end CommandSuite.GenAiCorrelator
