import CommandSuite.Server.GenaiCorrelator
import CommandSuite.Library.FirstComeFirstServed

/-! # Completed calls and their inferences

A call is completed by three records. Their bodies meet in one inference as long as the records are taken up in an
order that a queue for each model can follow, and nothing of an open call is evicted.
-/

namespace CommandSuite.GenAiCorrelator

open Library Function

/-! ## Calls and the order of their records -/

structure CompletedCall where
  requestId : String
  model : String
  requestBody : Normalized
  request : Normalized
  responseBody : Normalized
  requestBody_event : requestBody.event = .apiRequestBody
  requestBody_model : asStr requestBody.attrs "model" = some model
  request_event : request.event = .apiRequest
  request_model : asStr request.attrs "model" = some model
  request_id : asStr request.attrs "request_id" = some requestId
  responseBody_event : responseBody.event = .apiResponseBody
  responseBody_id : asStr responseBody.attrs "request_id" = some requestId

inductive Part where
  | requestBody | request | responseBody
  deriving DecidableEq

abbrev Arrival := CompletedCall × Part

def Arrival.record : Arrival → Normalized
  | (call, .requestBody) => call.requestBody
  | (call, .request) => call.request
  | (call, .responseBody) => call.responseBody

def arrivalsOf (call : CompletedCall) : List Arrival := [(call, .requestBody), (call, .request), (call, .responseBody)]

def having (part : Part) (arrivals : List Arrival) : List CompletedCall :=
  (arrivals.filter fun arrival => arrival.2 = part).map Prod.fst

def hasArrived (arrivals : List Arrival) (call : CompletedCall) (part : Part) : Bool :=
  arrivals.any fun arrival => arrival.1.requestId = call.requestId && arrival.2 = part

def isOpen (arrivals : List Arrival) (call : CompletedCall) : Bool :=
  let parts := [Part.requestBody, .request, .responseBody]
  parts.any (hasArrived arrivals call) && !parts.all (hasArrived arrivals call)

/-- Every request body comes before its `api_request`, and the calls of a model keep their order. -/
structure Orderly (arrivals : List Arrival) : Prop where
  bodyFirst : arrivals.Pairwise fun earlier later =>
    earlier.2 = .request → later.2 = .requestBody → earlier.1.requestId ≠ later.1.requestId
  sameOrder : ∀ model, (having .requestBody arrivals).filter (fun call => call.model = model) =
    (having .request arrivals).filter fun call => call.model = model

/-- The newest time of a record, as `newestTs` starts. -/
def newest (arrivals : List Arrival) : Int := arrivals.foldl (fun newest arrival => max newest arrival.record.ts) 0

section Options

variable {B J I : Type} (opts : GenAiCorrelatorOptions B J I)

/-- Fewer than `maxPending` calls are open at any time, and after every batch the records of those are within the TTL. -/
structure NothingEvicted (calls : List CompletedCall) (batches : List (List Arrival)) : Prop where
  capacity : ∀ arrived rest, batches.flatten = arrived ++ rest → (calls.filter (isOpen arrived)).length < opts.maxPending
  withinTtl : ∀ before batch after, batches = before ++ batch :: after →
    ∀ arrival ∈ (before ++ [batch]).flatten, isOpen (before ++ [batch]).flatten arrival.1 = true →
      newest (before ++ [batch]).flatten - opts.ttlMs ≤ arrival.record.ts

def ownExchange (call : CompletedCall) : PendingExchange :=
  let requestBody := captureBody opts .request call.requestBody.attrs call.requestBody.ts
  let responseBody := captureBody opts .response call.responseBody.attrs call.responseBody.ts
  { freshExchange with
    requestText := requestBody.text
    requestBodyRef := requestBody.bodyRef
    requestHash := requestBody.hash
    responseText := responseBody.text
    responseHash := responseBody.hash
    querySource := asStr call.request.attrs "query_source"
    agentName := asStr call.request.attrs "agent.name" }

def ownInference (call : CompletedCall) (ts : Int) : Option (GenAiInferenceInput I) := buildInference opts (ownExchange opts call) ts

def ownInferences (finished : List (CompletedCall × Int)) : List (GenAiInferenceInput I) :=
  finished.filterMap fun call => ownInference opts call.1 call.2

end Options

/-! ## What has arrived -/

section Arrivals

variable {arrivals arrived rest : List Arrival}

@[simp] theorem having_append (part : Part) (first second : List Arrival) :
    having part (first ++ second) = having part first ++ having part second := by
  simp [having]

theorem having_singleton (part : Part) (call : CompletedCall) (arriving : Part) :
    having part [(call, arriving)] = if arriving = part then [call] else [] := by
  by_cases h : arriving = part <;> simp [having, h]

theorem mem_having_iff (part : Part) (call : CompletedCall) : call ∈ having part arrivals ↔ (call, part) ∈ arrivals := by
  simp only [having, List.mem_map, List.mem_filter, decide_eq_true_eq]
  constructor
  · rintro ⟨⟨_, _⟩, ⟨hMem, rfl⟩, rfl⟩
    exact hMem
  · intro hMem
    exact ⟨(call, part), ⟨hMem, rfl⟩, rfl⟩

theorem nodup_having (h : arrivals.Nodup) (part : Part) : (having part arrivals).Nodup := by
  refine (List.nodup_map_iff_inj_on (h.filter _)).mpr ?_
  rintro ⟨call, _⟩ hFirst ⟨other, _⟩ hSecond hSame
  simp only [List.mem_filter, decide_eq_true_eq] at hFirst hSecond
  exact Prod.ext hSame (hFirst.2.trans hSecond.2.symm)

variable {calls : List CompletedCall}

theorem eq_of_requestId (hIds : (calls.map CompletedCall.requestId).Nodup) {call other : CompletedCall}
    (hCall : call ∈ calls) (hOther : other ∈ calls) (h : call.requestId = other.requestId) : call = other :=
  List.inj_on_of_nodup_map hIds hCall hOther h

theorem hasArrived_iff (hIds : (calls.map CompletedCall.requestId).Nodup)
    (hKnown : ∀ arrival ∈ arrivals, arrival.1 ∈ calls) {call : CompletedCall} (hCall : call ∈ calls) (part : Part) :
    hasArrived arrivals call part = true ↔ (call, part) ∈ arrivals := by
  simp only [hasArrived, List.any_eq_true, Bool.and_eq_true, decide_eq_true_eq]
  constructor
  · rintro ⟨⟨other, _⟩, hMem, hId, rfl⟩
    rwa [← eq_of_requestId hIds (hKnown _ hMem) hCall hId]
  · intro hMem
    exact ⟨(call, part), hMem, rfl, rfl⟩

theorem hasArrived_append (call other : CompletedCall) (part arriving : Part) :
    hasArrived (arrivals ++ [(other, arriving)]) call part =
      (hasArrived arrivals call part || (decide (other.requestId = call.requestId) && decide (arriving = part))) := by
  simp [hasArrived]

theorem newest_append (arrival : Arrival) : newest (arrivals ++ [arrival]) = max (newest arrivals) arrival.record.ts := by
  simp [newest]

end Arrivals

/-! ## One record after the other -/

structure Schedule (calls : List CompletedCall) (order : List Arrival) : Prop where
  ids : (calls.map CompletedCall.requestId).Nodup
  complete : order.Perm (calls.flatMap arrivalsOf)
  orderly : Orderly order

namespace Schedule

variable {calls : List CompletedCall} {order arrived rest : List Arrival} (h : Schedule calls order)
include h

theorem mem_order_iff (arrival : Arrival) : arrival ∈ order ↔ arrival.1 ∈ calls := by
  rw [h.complete.mem_iff, List.mem_flatMap]
  constructor
  · rintro ⟨call, hCall, hArrival⟩
    simp only [arrivalsOf, List.mem_cons, List.not_mem_nil, or_false] at hArrival
    obtain rfl | rfl | rfl := hArrival <;> exact hCall
  · intro hCall
    refine ⟨arrival.1, hCall, ?_⟩
    obtain ⟨call, part⟩ := arrival
    cases part <;> simp [arrivalsOf]

theorem nodup : order.Nodup := by
  refine h.complete.nodup_iff.mpr (List.nodup_flatMap.mpr ⟨fun call _ => by simp [arrivalsOf], ?_⟩)
  refine (List.Nodup.of_map _ h.ids).imp fun {call other} hNe => ?_
  simp [onFun, arrivalsOf, hNe, List.Disjoint]

theorem known (hOrder : order = arrived ++ rest) : ∀ arrival ∈ arrived, arrival.1 ∈ calls := fun arrival hArrival =>
  (h.mem_order_iff arrival).mp (hOrder ▸ List.mem_append_left _ hArrival)

theorem hasArrived_iff (hOrder : order = arrived ++ rest) {call : CompletedCall} (hCall : call ∈ calls) (part : Part) :
    hasArrived arrived call part = true ↔ (call, part) ∈ arrived :=
  GenAiCorrelator.hasArrived_iff h.ids (h.known hOrder) hCall part

variable {arrival : Arrival}

theorem not_mem (hOrder : order = arrived ++ arrival :: rest) : arrival ∉ arrived := by
  intro hMem
  have hNodup := h.nodup
  rw [hOrder] at hNodup
  exact (List.nodup_append.mp hNodup).2.2 arrival hMem arrival List.mem_cons_self rfl

theorem mem_calls (hOrder : order = arrived ++ arrival :: rest) : arrival.1 ∈ calls :=
  (h.mem_order_iff arrival).mp (hOrder ▸ List.mem_append_right _ List.mem_cons_self)

variable {call : CompletedCall}

theorem request_not_mem (hOrder : order = arrived ++ (call, .requestBody) :: rest) : (call, .request) ∉ arrived := by
  intro hMem
  have hPairs := h.orderly.bodyFirst
  rw [hOrder] at hPairs
  exact (List.pairwise_append.mp hPairs).2.2 _ hMem _ List.mem_cons_self rfl rfl rfl

theorem requestBody_mem (hOrder : order = arrived ++ (call, .request) :: rest) : (call, .requestBody) ∈ arrived := by
  have hCall : call ∈ calls := h.mem_calls hOrder
  have hMem : (call, Part.requestBody) ∈ order := (h.mem_order_iff _).mpr hCall
  rw [hOrder] at hMem
  obtain hBefore | hAfter := List.mem_append.mp hMem
  · exact hBefore
  · obtain hSame | hLater := List.mem_cons.mp hAfter
    · cases hSame
    · have hPairs := h.orderly.bodyFirst
      rw [hOrder] at hPairs
      have hAhead := (List.pairwise_cons.mp (List.pairwise_append.mp hPairs).2.1).1 (call, .requestBody) hLater
      exact absurd rfl (hAhead rfl rfl)

theorem serve [DecidableEq CompletedCall] (hOrder : order = arrived ++ (call, .request) :: rest) :
    (FirstComeFirstServed.waiting (having .requestBody arrived) (having .request arrived)).find?
        (fun other => other.model = call.model) = some call ∧
      (FirstComeFirstServed.waiting (having .requestBody arrived) (having .request arrived)).eraseP
        (fun other => other.model = call.model) =
          FirstComeFirstServed.waiting (having .requestBody arrived) (having .request (arrived ++ [(call, .request)])) := by
  have hNodup : arrived.Nodup := (h.nodup).sublist (hOrder ▸ List.sublist_append_left _ _)
  have hPrefix : arrived ++ [(call, .request)] <+: order := ⟨rest, by rw [hOrder]; simp⟩
  have hHaving : ∀ part (first second : List Arrival), first <+: second → having part first <+: having part second := by
    rintro part first _ ⟨more, rfl⟩
    rw [having_append]
    exact List.prefix_append _ _
  have hJoined : (having .requestBody arrived).filter (fun other => other.model = call.model) <+:
      (having .requestBody order).filter fun other => other.model = call.model :=
    (hHaving .requestBody arrived order ⟨_, hOrder.symm⟩).filter _
  have hLeft := (hHaving .request _ order hPrefix).filter fun other => decide (other.model = call.model)
  rw [← h.orderly.sameOrder call.model, having_append, having_singleton, if_pos rfl] at hLeft
  have hServe := FirstComeFirstServed.serve CompletedCall.model (nodup_having hNodup .requestBody)
    ((nodup_having h.nodup .requestBody).filter _) hJoined hLeft
    ((mem_having_iff .requestBody call).mpr (h.requestBody_mem hOrder))
  rwa [having_append, having_singleton, if_pos rfl]

end Schedule

/-! ## The state of the correlator -/

section States

variable {B J I : Type} (opts : GenAiCorrelatorOptions B J I)

def unclaimed (call : CompletedCall) : UnclaimedRequest :=
  ⟨captureBody opts .request call.requestBody.attrs call.requestBody.ts, call.requestBody.ts, some call.model⟩

def exchange (arrived : List Arrival) (call : CompletedCall) : Option PendingExchange :=
  match hasArrived arrived call .request, hasArrived arrived call .responseBody with
  | true, false => some (account call.request.attrs call.request.ts (some (unclaimed opts call)) freshExchange)
  | false, true => some (respond opts call.responseBody.attrs call.responseBody.ts freshExchange)
  | _, _ => none

def isFinished (arrived : List Arrival) (call : CompletedCall) : Bool :=
  hasArrived arrived call .request && hasArrived arrived call .responseBody

open Classical in
/-- The state after these arrivals, with the calls that are finished and the times of their inferences. -/
structure Tracks (calls : List CompletedCall) (arrived : List Arrival) (correlator : GenAiCorrelator)
    (finished : List (CompletedCall × Int)) : Prop where
  fifo : correlator.fifo =
    (FirstComeFirstServed.waiting (having .requestBody arrived) (having .request arrived)).map (unclaimed opts)
  pending : ∀ call ∈ calls, correlator.pending call.requestId = exchange opts arrived call
  others : ∀ id, id ∉ calls.map CompletedCall.requestId → correlator.pending id = none
  newest : correlator.newestTs = newest arrived
  finished : (finished.map Prod.fst).Perm (calls.filter (isFinished arrived))

theorem buildInference_account (call : CompletedCall) (ts : Int) :
    buildInference opts (account call.request.attrs call.request.ts (some (unclaimed opts call))
      (respond opts call.responseBody.attrs call.responseBody.ts freshExchange)) ts = ownInference opts call ts := by
  simp [buildInference, ownInference, ownExchange, account, respond, unclaimed, freshExchange]

theorem buildInference_respond (call : CompletedCall) (ts : Int) :
    buildInference opts (respond opts call.responseBody.attrs call.responseBody.ts
      (account call.request.attrs call.request.ts (some (unclaimed opts call)) freshExchange)) ts = ownInference opts call ts := by
  simp [buildInference, ownInference, ownExchange, account, respond, unclaimed, freshExchange]

/-! ## One record -/

variable {opts} {calls : List CompletedCall} {order arrived rest : List Arrival} {correlator : GenAiCorrelator}
  {finished : List (CompletedCall × Int)} {call : CompletedCall} {part : Part} (now : Int) {other : CompletedCall}

theorem exchange_append_of_ne (h : call.requestId ≠ other.requestId) :
    exchange opts (arrived ++ [(call, part)]) other = exchange opts arrived other := by
  simp [exchange, hasArrived_append, h]

theorem isFinished_append_of_ne (h : call.requestId ≠ other.requestId) :
    isFinished (arrived ++ [(call, part)]) other = isFinished arrived other := by
  simp [isFinished, hasArrived_append, h]

theorem hasArrived_of_mem_order (h : Schedule calls order) (hOrder : order = arrived ++ (call, part) :: rest) :
    hasArrived arrived call part = false := by
  have hCall : call ∈ calls := h.mem_calls hOrder
  exact Bool.eq_false_iff.mpr fun hAgain => h.not_mem hOrder ((h.hasArrived_iff hOrder hCall part).mp hAgain)

theorem filter_isFinished (h : Schedule calls order) (hOrder : order = arrived ++ (call, part) :: rest)
    (hWas : isFinished arrived call = false) :
    (calls.filter (isFinished (arrived ++ [(call, part)]))).Perm
      (calls.filter (isFinished arrived) ++ if isFinished (arrived ++ [(call, part)]) call then [call] else []) := by
  have hCall : call ∈ calls := h.mem_calls hOrder
  have hCalls : calls.Nodup := List.Nodup.of_map _ h.ids
  have hOther : ∀ other ∈ calls, other ≠ call → call.requestId ≠ other.requestId := fun other hMem hNe hSame =>
    hNe (eq_of_requestId h.ids hMem hCall hSame.symm)
  split
  · rename_i hNow
    have hNodup : (calls.filter (isFinished arrived) ++ [call]).Nodup := by
      refine List.nodup_append.mpr ⟨hCalls.filter _, List.nodup_singleton _, ?_⟩
      rintro other hMem _ hLast rfl
      obtain rfl := List.mem_singleton.mp hLast
      simp [hWas] at hMem
    refine (List.perm_ext_iff_of_nodup (hCalls.filter _) hNodup).mpr fun other => ?_
    simp only [List.mem_filter, List.mem_append, List.mem_singleton]
    constructor
    · rintro ⟨hMem, hDone⟩
      by_cases hSame : other = call
      · exact .inr hSame
      · rw [isFinished_append_of_ne (hOther other hMem hSame)] at hDone
        exact .inl ⟨hMem, hDone⟩
    · rintro (⟨hMem, hDone⟩ | rfl)
      · have hNe : other ≠ call := by
          rintro rfl
          rw [hWas] at hDone
          cases hDone
        exact ⟨hMem, (isFinished_append_of_ne (hOther other hMem hNe)).trans hDone⟩
      · exact ⟨hCall, hNow⟩
  · rename_i hNot
    rw [List.append_nil]
    refine List.Perm.of_eq (List.filter_congr fun other hMem => ?_)
    by_cases hSame : other = call
    · rw [hSame, hWas]
      exact Bool.eq_false_iff.mpr hNot
    · exact isFinished_append_of_ne (hOther other hMem hSame)

open Classical in
theorem Tracks.step (h : Schedule calls order) (hOrder : order = arrived ++ (call, part) :: rest)
    (hTracks : Tracks opts calls arrived correlator finished) {after : GenAiCorrelator} {done : List (CompletedCall × Int)}
    (hFifo : after.fifo = (FirstComeFirstServed.waiting (having .requestBody (arrived ++ [(call, part)]))
      (having .request (arrived ++ [(call, part)]))).map (unclaimed opts))
    (hPending : after.pending = update correlator.pending call.requestId (exchange opts (arrived ++ [(call, part)]) call))
    (hNewest : after.newestTs = max correlator.newestTs (Arrival.record (call, part)).ts)
    (hWas : isFinished arrived call = false)
    (hDone : done.map Prod.fst = if isFinished (arrived ++ [(call, part)]) call then [call] else []) :
    Tracks opts calls (arrived ++ [(call, part)]) after (finished ++ done) where
  fifo := hFifo
  pending other hOther := by
    rw [hPending]
    by_cases hSame : other = call
    · rw [hSame, update_self]
    · have hId : call.requestId ≠ other.requestId := fun hId => hSame (eq_of_requestId h.ids hOther (h.mem_calls hOrder) hId.symm)
      rw [update_of_ne hId.symm, exchange_append_of_ne hId]
      exact hTracks.pending other hOther
  others id hId := by
    have hNe : id ≠ call.requestId := by
      rintro rfl
      exact hId (List.mem_map_of_mem (h.mem_calls hOrder))
    rw [hPending, update_of_ne hNe]
    exact hTracks.others id hId
  newest := by rw [hNewest, hTracks.newest, newest_append]
  finished := by
    rw [List.map_append, hDone]
    exact (hTracks.finished.append_right _).trans (filter_isFinished h hOrder hWas).symm

theorem tryEmit_of_incomplete {key : String} {p : PendingExchange} (h : (p.hasRequest && p.hasResponse) = false) :
    tryEmit opts now key p correlator = ({ correlator with pending := update correlator.pending key (some p) }, none) := by
  rw [tryEmit, h]
  rfl

theorem tryEmit_of_complete {key : String} (p : PendingExchange) (hRequest : p.hasRequest = true) (hResponse : p.hasResponse = true) :
    ∃ ts, tryEmit opts now key p correlator =
      ({ correlator with pending := update correlator.pending key none }, buildInference opts p ts) := by
  rw [tryEmit, hRequest, hResponse]
  exact ⟨_, rfl⟩

theorem ingestRecord_requestBody (hRoom : correlator.fifo.length < opts.maxPending) :
    ingestRecord opts now call.requestBody correlator =
      ({ correlator with
        fifo := correlator.fifo ++ [unclaimed opts call]
        newestTs := max correlator.newestTs call.requestBody.ts }, none) := by
  have hNone : correlator.fifo.length + 1 - opts.maxPending = 0 := by omega
  simp [ingestRecord, call.requestBody_event, ingestRequestBody, call.requestBody_model, unclaimed, hNone]

theorem ingestRecord_responseBody :
    ingestRecord opts now call.responseBody correlator =
      tryEmit opts now call.requestId
        (respond opts call.responseBody.attrs call.responseBody.ts (correlator.getPending call.requestId))
        { correlator with newestTs := max correlator.newestTs call.responseBody.ts } := by
  simp [ingestRecord, call.responseBody_event, ingestResponseBody, call.responseBody_id, getPending]

variable {queue : List CompletedCall}

theorem claimRequest_map (hFirst : queue.find? (fun other => other.model = call.model) = some call) :
    claimRequest (some call.model) (queue.map (unclaimed opts)) =
      (some (unclaimed opts call), (queue.eraseP fun other => other.model = call.model).map (unclaimed opts)) := by
  have hModel : (fun request : UnclaimedRequest => decide (request.model = some call.model)) ∘ unclaimed opts =
      fun other => decide (other.model = call.model) := by
    funext other
    simp [unclaimed]
  simp only [claimRequest, List.find?_map, List.eraseP_map, hModel, hFirst, Option.map_some]

theorem ingestRecord_request (hFifo : correlator.fifo = queue.map (unclaimed opts))
    (hFirst : queue.find? (fun other => other.model = call.model) = some call) :
    ingestRecord opts now call.request correlator =
      tryEmit opts now call.requestId
        (account call.request.attrs call.request.ts (some (unclaimed opts call)) (correlator.getPending call.requestId))
        { correlator with
          fifo := (queue.eraseP fun other => other.model = call.model).map (unclaimed opts)
          newestTs := max correlator.newestTs call.request.ts } := by
  simp [ingestRecord, call.request_event, ingestRequest, call.request_id, call.request_model, hFifo, claimRequest_map hFirst, getPending]

section

variable (h : Schedule calls order)
include h

theorem Tracks.requestBody (hOrder : order = arrived ++ (call, .requestBody) :: rest)
    (hTracks : Tracks opts calls arrived correlator finished) (hRoom : correlator.fifo.length < opts.maxPending) :
    Tracks opts calls (arrived ++ [(call, .requestBody)]) (ingestRecord opts now call.requestBody correlator).1 (finished ++ []) ∧
      (ingestRecord opts now call.requestBody correlator).2 = none := by
  classical
  have hRequest : hasArrived arrived call .request = false :=
    Bool.eq_false_iff.mpr fun hEarly => h.request_not_mem hOrder ((h.hasArrived_iff hOrder (h.mem_calls hOrder) _).mp hEarly)
  rw [ingestRecord_requestBody now hRoom]
  refine ⟨hTracks.step h hOrder ?_ ?_ rfl (by simp [isFinished, hRequest]) (by simp [isFinished, hasArrived_append, hRequest]), rfl⟩
  · have hLeft : call ∉ having .request arrived := fun hMem => h.request_not_mem hOrder ((mem_having_iff _ _).mp hMem)
    simp only [having_append, having_singleton, reduceCtorEq, if_true, if_false, List.append_nil]
    rw [FirstComeFirstServed.waiting_append_joined hLeft, List.map_append, hTracks.fifo]
    rfl
  · have hSame : exchange opts (arrived ++ [(call, .requestBody)]) call = exchange opts arrived call := by
      simp [exchange, hasArrived_append]
    rw [hSame, ← hTracks.pending call (h.mem_calls hOrder), update_eq_self]

theorem Tracks.request (hOrder : order = arrived ++ (call, .request) :: rest)
    (hTracks : Tracks opts calls arrived correlator finished) :
    ∃ done, Tracks opts calls (arrived ++ [(call, .request)]) (ingestRecord opts now call.request correlator).1 (finished ++ done) ∧
      (ingestRecord opts now call.request correlator).2.toList = ownInferences opts done := by
  classical
  have hRequest : hasArrived arrived call .request = false := hasArrived_of_mem_order h hOrder
  obtain ⟨hFirst, hErase⟩ := h.serve hOrder
  have hPending : correlator.getPending call.requestId = (exchange opts arrived call).getD freshExchange := by
    rw [getPending, hTracks.pending call (h.mem_calls hOrder)]
  have hQueue : having .requestBody (arrived ++ [(call, .request)]) = having .requestBody arrived := by
    simp [having_singleton]
  rw [ingestRecord_request now hTracks.fifo hFirst, hErase, hPending]
  cases hResponse : hasArrived arrived call .responseBody
  · -- The response is yet to come.
    have hExchange : exchange opts arrived call = none := by simp [exchange, hRequest, hResponse]
    rw [hExchange, Option.getD_none, tryEmit_of_incomplete now (by simp [account, freshExchange])]
    refine ⟨[], hTracks.step h hOrder (by rw [hQueue]) ?_ rfl ?_ ?_, rfl⟩
    · simp [exchange, hasArrived_append, hRequest, hResponse]
    · simp [isFinished, hRequest]
    · simp [isFinished, hasArrived_append, hResponse]
  · -- The response came first.
    have hExchange : exchange opts arrived call = some (respond opts call.responseBody.attrs call.responseBody.ts freshExchange) := by
      simp [exchange, hRequest, hResponse]
    rw [hExchange, Option.getD_some]
    obtain ⟨ts, hEmit⟩ := tryEmit_of_complete now (account call.request.attrs call.request.ts (some (unclaimed opts call))
      (respond opts call.responseBody.attrs call.responseBody.ts freshExchange)) rfl rfl
    rw [hEmit, buildInference_account]
    refine ⟨[(call, ts)], hTracks.step h hOrder (by rw [hQueue]) ?_ rfl ?_ ?_, ?_⟩
    · simp [exchange, hasArrived_append, hRequest, hResponse]
    · simp [isFinished, hRequest]
    · simp [isFinished, hasArrived_append, hResponse]
    · cases hOwn : ownInference opts call ts <;> simp [ownInferences, hOwn]

theorem Tracks.responseBody (hOrder : order = arrived ++ (call, .responseBody) :: rest)
    (hTracks : Tracks opts calls arrived correlator finished) :
    ∃ done, Tracks opts calls (arrived ++ [(call, .responseBody)]) (ingestRecord opts now call.responseBody correlator).1
        (finished ++ done) ∧
      (ingestRecord opts now call.responseBody correlator).2.toList = ownInferences opts done := by
  classical
  have hResponse : hasArrived arrived call .responseBody = false := hasArrived_of_mem_order h hOrder
  have hPending : correlator.getPending call.requestId = (exchange opts arrived call).getD freshExchange := by
    rw [getPending, hTracks.pending call (h.mem_calls hOrder)]
  have hFifo : correlator.fifo = (FirstComeFirstServed.waiting (having .requestBody (arrived ++ [(call, .responseBody)]))
      (having .request (arrived ++ [(call, .responseBody)]))).map (unclaimed opts) := by
    simpa [having_singleton] using hTracks.fifo
  rw [ingestRecord_responseBody now, hPending]
  cases hRequest : hasArrived arrived call .request
  · -- The request is yet to come.
    have hExchange : exchange opts arrived call = none := by simp [exchange, hRequest, hResponse]
    rw [hExchange, Option.getD_none, tryEmit_of_incomplete now (by simp [respond, freshExchange])]
    refine ⟨[], hTracks.step h hOrder hFifo ?_ rfl ?_ ?_, rfl⟩
    · simp [exchange, hasArrived_append, hRequest, hResponse]
    · simp [isFinished, hRequest]
    · simp [isFinished, hasArrived_append, hRequest]
  · -- The request came first.
    have hExchange : exchange opts arrived call =
        some (account call.request.attrs call.request.ts (some (unclaimed opts call)) freshExchange) := by
      simp [exchange, hRequest, hResponse]
    rw [hExchange, Option.getD_some]
    obtain ⟨ts, hEmit⟩ := tryEmit_of_complete now (respond opts call.responseBody.attrs call.responseBody.ts
      (account call.request.attrs call.request.ts (some (unclaimed opts call)) freshExchange)) rfl rfl
    rw [hEmit, buildInference_respond]
    refine ⟨[(call, ts)], hTracks.step h hOrder hFifo ?_ rfl ?_ ?_, ?_⟩
    · simp [exchange, hasArrived_append, hRequest, hResponse]
    · simp [isFinished, hResponse]
    · simp [isFinished, hasArrived_append, hRequest]
    · cases hOwn : ownInference opts call ts <;> simp [ownInferences, hOwn]

theorem Tracks.length_fifo_le (hOrder : order = arrived ++ rest)
    (hTracks : Tracks opts calls arrived correlator finished) :
    correlator.fifo.length ≤ (calls.filter (isOpen arrived)).length := by
  classical
  have hNodup : arrived.Nodup := h.nodup.sublist (hOrder ▸ List.sublist_append_left _ _)
  rw [hTracks.fifo, List.length_map]
  refine ((nodup_having hNodup .requestBody).filter _).length_le_of_subset fun other hMem => ?_
  obtain ⟨hBody, hLeft⟩ := List.mem_filter.mp hMem
  have hArrived : (other, Part.requestBody) ∈ arrived := (mem_having_iff _ _).mp hBody
  have hOther : other ∈ calls := h.known hOrder _ hArrived
  have hWaits : hasArrived arrived other .request = false := by
    refine Bool.eq_false_iff.mpr fun hAlready => ?_
    exact (of_decide_eq_true hLeft) ((mem_having_iff _ _).mpr ((h.hasArrived_iff hOrder hOther _).mp hAlready))
  refine List.mem_filter.mpr ⟨hOther, ?_⟩
  simp [isOpen, hWaits, (h.hasArrived_iff hOrder hOther _).mpr hArrived]

/-! ## Batches -/

theorem Tracks.record (hOrder : order = arrived ++ (call, part) :: rest)
    (hTracks : Tracks opts calls arrived correlator finished) (hRoom : (calls.filter (isOpen arrived)).length < opts.maxPending) :
    ∃ done, Tracks opts calls (arrived ++ [(call, part)]) (ingestRecord opts now (Arrival.record (call, part)) correlator).1
        (finished ++ done) ∧
      (ingestRecord opts now (Arrival.record (call, part)) correlator).2.toList = ownInferences opts done := by
  cases part with
  | requestBody =>
    have hFifo : correlator.fifo.length < opts.maxPending := (hTracks.length_fifo_le h hOrder).trans_lt hRoom
    obtain ⟨hAfter, hEmitted⟩ := hTracks.requestBody now h hOrder hFifo
    exact ⟨[], hAfter, by rw [Arrival.record, hEmitted]; rfl⟩
  | request => exact hTracks.request now h hOrder
  | responseBody => exact hTracks.responseBody now h hOrder

theorem Tracks.records
    (hRoom : ∀ arrived rest, order = arrived ++ rest → (calls.filter (isOpen arrived)).length < opts.maxPending)
    (arrivals : List Arrival) (hOrder : order = arrived ++ (arrivals ++ rest))
    (hTracks : Tracks opts calls arrived correlator finished) :
    ∃ done, Tracks opts calls (arrived ++ arrivals) (ingestRecords opts now (arrivals.map Arrival.record) correlator).1
        (finished ++ done) ∧
      (ingestRecords opts now (arrivals.map Arrival.record) correlator).2 = ownInferences opts done := by
  induction arrivals generalizing arrived correlator finished with
  | nil => exact ⟨[], by simpa [ingestRecords] using hTracks, rfl⟩
  | cons arrival arrivals ih =>
    obtain ⟨first, hFirst, hEmitted⟩ := hTracks.record now h hOrder (hRoom _ _ hOrder)
    obtain ⟨done, hDone, hOut⟩ := ih (by simpa using hOrder) hFirst
    refine ⟨first ++ done, ?_, ?_⟩
    · rw [List.append_assoc, List.append_assoc] at hDone
      exact hDone
    · rw [ownInferences, List.filterMap_append]
      exact congrArg₂ _ hEmitted hOut

theorem Tracks.evictStale_eq (hOrder : order = arrived ++ rest)
    (hTracks : Tracks opts calls arrived correlator finished) (hRoom : (calls.filter (isOpen arrived)).length < opts.maxPending)
    (hTtl : ∀ arrival ∈ arrived, isOpen arrived arrival.1 = true → GenAiCorrelator.newest arrived - opts.ttlMs ≤ arrival.record.ts) :
    evictStale opts correlator.newestTs correlator = correlator := by
  classical
  have hArrived := fun {call : CompletedCall} (hCall : call ∈ calls) part => h.hasArrived_iff hOrder hCall part
  have hFresh : ∀ request ∈ correlator.fifo, ¬request.startedAt < correlator.newestTs - opts.ttlMs := by
    intro request hRequest
    rw [hTracks.fifo] at hRequest
    obtain ⟨call, hWaits, rfl⟩ := List.mem_map.mp hRequest
    obtain ⟨hBody, hLeft⟩ := List.mem_filter.mp hWaits
    have hMem : (call, Part.requestBody) ∈ arrived := (mem_having_iff _ _).mp hBody
    have hCall : call ∈ calls := h.known hOrder _ hMem
    have hNot : hasArrived arrived call .request = false := Bool.eq_false_iff.mpr fun hAlready =>
      (of_decide_eq_true hLeft) ((mem_having_iff _ _).mpr ((hArrived hCall _).mp hAlready))
    have hWithin := hTtl _ hMem (by simp [isOpen, hNot, (hArrived hCall _).mpr hMem])
    rw [hTracks.newest]
    exact not_lt.mpr hWithin
  have hWhile : (correlator.fifo.dropWhile fun request => request.startedAt < correlator.newestTs - opts.ttlMs) = correlator.fifo := by
    cases hQueue : correlator.fifo with
    | nil => rfl
    | cons request queue => exact List.dropWhile_cons_of_neg (by simpa using hFresh request (hQueue ▸ List.mem_cons_self))
  have hCap : correlator.fifo.length - opts.maxPending = 0 := by
    have hLength := hTracks.length_fifo_le h hOrder
    omega
  have hPending : ∀ key, (correlator.pending key).filter
      (fun p => !decide (max p.startedAt p.endedAt < correlator.newestTs - opts.ttlMs)) = correlator.pending key := by
    intro key
    by_cases hKey : key ∈ calls.map CompletedCall.requestId
    · obtain ⟨call, hCall, rfl⟩ := List.mem_map.mp hKey
      rw [hTracks.pending call hCall, hTracks.newest]
      cases hRequest : hasArrived arrived call .request <;> cases hResponse : hasArrived arrived call .responseBody
      · simp [exchange, hRequest, hResponse]
      · have hWithin := hTtl _ ((hArrived hCall _).mp hResponse) (by simp [isOpen, hRequest, hResponse])
        simpa [exchange, hRequest, hResponse, respond, freshExchange] using .inr (sub_le_iff_le_add.mp hWithin)
      · have hWithin := hTtl _ ((hArrived hCall _).mp hRequest) (by simp [isOpen, hRequest, hResponse])
        simpa [exchange, hRequest, hResponse, account, freshExchange] using .inr (sub_le_iff_le_add.mp hWithin)
      · simp [exchange, hRequest, hResponse]
    · rw [hTracks.others key hKey]
      rfl
  simp only [GenAiCorrelator.evictStale, hWhile, hCap, List.drop_zero, hPending]

end

theorem Tracks.batches {before after : List (List Arrival)} {batches : List (Int × List TelemetryRecord)}
    (h : Schedule calls (before ++ after).flatten) (hKept : NothingEvicted opts calls (before ++ after))
    (hTaken : List.Forall₂ (fun batch arrivals => takenUp opts batch.1 batch.2 = arrivals.map Arrival.record) batches after)
    (hTracks : Tracks opts calls before.flatten correlator finished) :
    ∃ done, Tracks opts calls (before ++ after).flatten (ingestAll opts batches correlator).1 (finished ++ done) ∧
      (ingestAll opts batches correlator).2.Perm (ownInferences opts done) := by
  induction hTaken generalizing before correlator finished with
  | nil => exact ⟨[], by simpa [ingestAll] using hTracks, .nil⟩
  | @cons batch arrivals batches after hBatch hTaken ih =>
    have hOrder : (before ++ arrivals :: after).flatten = before.flatten ++ (arrivals ++ after.flatten) := by simp
    have hFlat : (before ++ [arrivals]).flatten = before.flatten ++ arrivals := by simp
    obtain ⟨first, hFirst, hOut⟩ := hTracks.records batch.1 h hKept.capacity arrivals hOrder
    rw [← hFlat] at hFirst
    have hOrder' : (before ++ arrivals :: after).flatten = (before ++ [arrivals]).flatten ++ after.flatten := by simp
    have hStays := hFirst.evictStale_eq h hOrder' (hKept.capacity _ _ hOrder') (hKept.withinTtl before arrivals after rfl)
    have hNext : (ingest opts batch.1 batch.2 correlator).1 =
        (ingestRecords opts batch.1 (arrivals.map Arrival.record) correlator).1 := by
      rw [ingest, hBatch]
      exact hStays
    have hEmitted : (ingest opts batch.1 batch.2 correlator).2.Perm (ownInferences opts first) := by
      rw [ingest, hBatch, ← hOut]
      exact List.perm_insertionSort _ _
    rw [← hNext] at hFirst
    have hShift : before ++ arrivals :: after = (before ++ [arrivals]) ++ after := by simp
    rw [hShift] at h hKept ⊢
    obtain ⟨done, hDone, hRest⟩ := ih h hKept hFirst
    refine ⟨first ++ done, ?_, ?_⟩
    · rw [← List.append_assoc]
      exact hDone
    · rw [ownInferences, List.filterMap_append]
      exact hEmitted.append hRest

end States

/-! ## Two calls of one model -/

namespace TwoCalls

def opts : GenAiCorrelatorOptions String String (String × String) where
  readBodyRef _ := none
  encode := id
  decode := id
  appendBody _ _ _ _ := none
  parse := some
  anthropicToGenAi requestBody responseBody _ _ _ := some (requestBody, responseBody)
  number _ := none
  ttlMs := 120000
  maxPending := 256

def emitted (event : GenAiEvent) (seq : Rat) (attributes : JsonObject) : TelemetryRecord :=
  ⟨.log, "claude_code." ++ event.text, 0, ("event.sequence", .number seq) :: attributes⟩

def record (seq : Bool → Part → Rat) : Bool × Part → TelemetryRecord
  | (call, .requestBody) =>
    emitted .apiRequestBody (seq call .requestBody) [("model", .string "opus"), ("body", .string (if call then "second?" else "first?"))]
  | (call, .request) =>
    emitted .apiRequest (seq call .request) [("model", .string "opus"), ("request_id", .string (if call then "req_2" else "req_1"))]
  | (call, .responseBody) =>
    emitted .apiResponseBody (seq call .responseBody)
      [("request_id", .string (if call then "req_2" else "req_1")), ("body", .string (if call then "second!" else "first!"))]

def normalized (seq : Bool → Part → Rat) (event : GenAiEvent) (call : Bool) (part : Part) : Normalized :=
  ⟨event, (record seq (call, part)).attributes, 5, some (seq call part)⟩

def call (seq : Bool → Part → Rat) (second : Bool) : CompletedCall where
  requestId := if second then "req_2" else "req_1"
  model := "opus"
  requestBody := normalized seq .apiRequestBody second .requestBody
  request := normalized seq .apiRequest second .request
  responseBody := normalized seq .apiResponseBody second .responseBody
  requestBody_event := rfl
  requestBody_model := rfl
  request_event := rfl
  request_model := rfl
  request_id := rfl
  responseBody_event := rfl
  responseBody_id := rfl

def arrival (seq : Bool → Part → Rat) (arriving : Bool × Part) : Arrival := (call seq arriving.1, arriving.2)

def calls (seq : Bool → Part → Rat) : List CompletedCall := [call seq false, call seq true]

def order : List (Bool × Part) :=
  [(false, .requestBody), (true, .requestBody), (false, .request), (true, .request), (false, .responseBody), (true, .responseBody)]

variable (seq : Bool → Part → Rat)

theorem complete : (order.map (arrival seq)).Perm ((calls seq).flatMap arrivalsOf) := by
  have hPerm : order.Perm [(false, .requestBody), (false, .request), (false, .responseBody),
      (true, .requestBody), (true, .request), (true, .responseBody)] := by decide
  exact hPerm.map (arrival seq)

theorem orderly : Orderly (order.map (arrival seq)) where
  bodyFirst := List.pairwise_map.mpr (show order.Pairwise fun earlier later => earlier.2 = .request → later.2 = .requestBody →
    (if earlier.1 then "req_2" else "req_1") ≠ if later.1 then "req_2" else "req_1" by decide)
  sameOrder _ := rfl

theorem open_lt (arrived : List Arrival) : ((calls seq).filter (isOpen arrived)).length < opts.maxPending :=
  (List.length_filter_le _ _).trans_lt (show 2 < 256 by decide)

theorem kept : NothingEvicted opts (calls seq) [order.map (arrival seq)] where
  capacity arrived _ _ := open_lt seq arrived
  withinTtl before batch after hBatches arriving hArriving _ := by
    have hBatch : before = [] ∧ order.map (arrival seq) = batch := by
      cases before with
      | nil => simpa using (List.cons.inj hBatches).1
      | cons _ _ => simp at hBatches
    obtain ⟨rfl, rfl⟩ := hBatch
    rw [List.nil_append, List.flatten_singleton] at hArriving ⊢
    obtain ⟨⟨second, part⟩, -, rfl⟩ := List.mem_map.mp hArriving
    cases part <;> exact show (5 - 120000 : Int) ≤ 5 by decide

end TwoCalls

end CommandSuite.GenAiCorrelator
