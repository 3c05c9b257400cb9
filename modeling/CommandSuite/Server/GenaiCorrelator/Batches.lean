import CommandSuite.Library.Transcript
import CommandSuite.Server.GenaiCorrelator.Pairing
import Mathlib.Data.Set.Card

/-! # What the correlator keeps

The queue of unclaimed request bodies is capped whenever a body joins it.
-/

namespace CommandSuite.GenAiCorrelator

open Library Transcript

inductive Call where
  | ingest (now : Int) (records : List TelemetryRecord)
  | sweep (nowMs : Option Int)

section

variable {B J I : Type} (opts : GenAiCorrelatorOptions B J I)

/-- `sweep` returns no inference. -/
def serve : Machine GenAiCorrelator Call (List (GenAiInferenceInput I))
  | correlator, .ingest now records => ingest opts now records correlator
  | correlator, .sweep nowMs => (sweep opts nowMs correlator, [])

def openKeys (pending : String → Option PendingExchange) : Set String := {key | (pending key).isSome = true}

variable {pending : String → Option PendingExchange}

theorem mem_openKeys {key : String} : key ∈ openKeys pending ↔ (pending key).isSome = true := Iff.rfl

structure Bounded (correlator : GenAiCorrelator) : Prop where
  queue : correlator.fifo.length ≤ opts.maxPending
  map : (openKeys correlator.pending).encard ≤ opts.maxPending

def exchangeKey (record : Normalized) (correlator : GenAiCorrelator) : Option String :=
  match record.event with
  | .apiRequest => some ((asStr record.attrs "request_id").getD s!"__acct_{record.ts}_{correlator.synthSeq}")
  | .apiResponseBody => some ((asStr record.attrs "request_id").getD s!"__resp_{record.ts}_{correlator.synthSeq}")
  | .apiRequestBody | .apiError => none

/-- A record that opens an exchange finds less than `maxPending` pending. -/
def HasRoom (record : Normalized) (correlator : GenAiCorrelator) : Prop :=
  ∀ key, exchangeKey record correlator = some key → correlator.pending key = none → (openKeys correlator.pending).encard < opts.maxPending

def AllHaveRoom (now : Int) : List Normalized → GenAiCorrelator → Prop
  | [], _ => True
  | record :: records, correlator =>
    HasRoom opts record correlator ∧ AllHaveRoom now records (ingestRecord opts now record correlator).1

def Call.HasRoom (correlator : GenAiCorrelator) : Call → Prop
  | .ingest now records => AllHaveRoom opts now (takenUp opts now records) correlator
  | .sweep _ => True

variable {opts}

theorem claimRequest_sublist (model : Option String) (fifo : List UnclaimedRequest) : (claimRequest model fifo).2.Sublist fifo := by
  unfold claimRequest
  split
  · exact fifo.tail_sublist
  · dsimp only
    split
    · exact List.eraseP_sublist
    · exact fifo.tail_sublist

theorem length_capped (fifo : List UnclaimedRequest) (n : Nat) : (fifo.drop (fifo.length - n)).length ≤ n := by
  rw [List.length_drop]
  omega

theorem encard_update_le {n : ℕ∞} (hMap : (openKeys pending).encard ≤ n) (key : String)
    (hRoom : pending key = none → (openKeys pending).encard < n) (entry : Option PendingExchange) :
    (openKeys (Function.update pending key entry)).encard ≤ n := by
  have hKeys : openKeys (Function.update pending key entry) ⊆ insert key (openKeys pending) := by
    intro other hOther
    by_cases hSame : other = key
    · exact .inl hSame
    · rw [mem_openKeys, Function.update_of_ne hSame] at hOther
      exact .inr hOther
  refine (Set.encard_le_encard hKeys).trans ?_
  cases hPending : pending key with
  | none => exact (Set.encard_insert_le _ _).trans (Order.add_one_le_of_lt (hRoom hPending))
  | some p =>
    have hOpen : key ∈ openKeys pending := by
      rw [mem_openKeys, hPending]
      rfl
    rwa [Set.insert_eq_of_mem hOpen]

theorem openKeys_update_none (pending : String → Option PendingExchange) (key : String) :
    openKeys (Function.update pending key none) ⊆ openKeys pending := by
  intro other hOther
  by_cases hSame : other = key
  · rw [mem_openKeys, hSame, Function.update_self] at hOther
    exact absurd hOther (by decide)
  · rwa [mem_openKeys, Function.update_of_ne hSame] at hOther

variable {correlator : GenAiCorrelator}

theorem bounded_tryEmit (h : Bounded opts correlator) (now : Int) (key : String) (p : PendingExchange)
    (hRoom : correlator.pending key = none → (openKeys correlator.pending).encard < opts.maxPending) :
    Bounded opts (tryEmit opts now key p correlator).1 := by
  unfold tryEmit
  split
  · exact ⟨h.queue, encard_update_le h.map key hRoom none⟩
  · exact ⟨h.queue, encard_update_le h.map key hRoom (some p)⟩

theorem bounded_claim (h : Bounded opts correlator) (model : Option String) (synthSeq : Nat) :
    Bounded opts { correlator with fifo := (claimRequest model correlator.fifo).2, synthSeq := synthSeq } :=
  ⟨(claimRequest_sublist model _).length_le.trans h.queue, h.map⟩

theorem bounded_ingestRecord (h : Bounded opts correlator) (now : Int) {record : Normalized}
    (hRoom : HasRoom opts record correlator) : Bounded opts (ingestRecord opts now record correlator).1 := by
  have hNewest : Bounded opts { correlator with newestTs := max correlator.newestTs record.ts } := ⟨h.queue, h.map⟩
  unfold ingestRecord
  unfold HasRoom exchangeKey at hRoom
  dsimp only
  cases hEvent : record.event with
  | apiRequestBody => exact ⟨length_capped _ _, h.map⟩
  | apiRequest =>
    rw [hEvent] at hRoom
    exact bounded_tryEmit (bounded_claim hNewest _ _) now _ _ fun hNone => hRoom _ rfl hNone
  | apiResponseBody =>
    rw [hEvent] at hRoom
    have hSynth : ∀ synthSeq, Bounded opts
        { correlator with newestTs := max correlator.newestTs record.ts, synthSeq := synthSeq } := fun _ => ⟨h.queue, h.map⟩
    exact bounded_tryEmit (hSynth _) now _ _ fun hNone => hRoom _ rfl hNone
  | apiError =>
    dsimp only
    unfold ingestError
    have hClaimed := bounded_claim hNewest (asStr record.attrs "model") correlator.synthSeq
    dsimp only
    split
    · exact ⟨hClaimed.queue, (Set.encard_le_encard (openKeys_update_none _ _)).trans h.map⟩
    · exact hClaimed

theorem encard_update_some {key : String} (hNone : pending key = none) (p : PendingExchange) :
    (openKeys (Function.update pending key (some p))).encard = (openKeys pending).encard + 1 := by
  have hFree : key ∉ openKeys pending := by
    rw [mem_openKeys, hNone]
    exact Bool.false_ne_true
  rw [← Set.encard_insert_of_notMem hFree]
  congr 1
  ext other
  rw [Set.mem_insert_iff, mem_openKeys, mem_openKeys]
  by_cases hSame : other = key
  · rw [hSame, Function.update_self]
    exact iff_of_true rfl (.inl rfl)
  · rw [Function.update_of_ne hSame]
    exact (or_iff_right hSame).symm

/-- A record that finds no room leaves one exchange too many: a fresh exchange is never complete. -/
theorem bounded_ingestRecord_iff (h : Bounded opts correlator) (now : Int) (record : Normalized) :
    Bounded opts (ingestRecord opts now record correlator).1 ↔ HasRoom opts record correlator := by
  refine ⟨fun hAfter key hKey hNone => ?_, bounded_ingestRecord h now⟩
  have hGrown : ((openKeys correlator.pending).encard + 1 : ℕ∞) ≤ opts.maxPending := by
    refine le_trans (Eq.ge ?_) hAfter.map
    unfold exchangeKey at hKey
    unfold ingestRecord
    cases hEvent : record.event with
    | apiRequestBody | apiError =>
      rw [hEvent] at hKey
      cases hKey
    | apiRequest =>
      rw [hEvent] at hKey
      obtain rfl := Option.some.inj hKey
      dsimp only [ingestRequest]
      have hFresh : ∀ claimed, ((account record.attrs record.ts claimed freshExchange).hasRequest &&
          (account record.attrs record.ts claimed freshExchange).hasResponse) = false := by
        rintro (_ | claimed)
        · rfl
        · rfl
      rw [getPending, hNone, Option.getD_none, tryEmit_of_incomplete now (hFresh _)]
      exact encard_update_some hNone _
    | apiResponseBody =>
      rw [hEvent] at hKey
      obtain rfl := Option.some.inj hKey
      dsimp only [ingestResponseBody]
      rw [getPending, hNone, Option.getD_none, tryEmit_of_incomplete now rfl]
      exact encard_update_some hNone _
  have hFinite : (openKeys correlator.pending).encard ≠ ⊤ := ne_top_of_le_ne_top (ENat.natCast_ne_top _) h.map
  exact (ENat.add_one_le_iff hFinite).mp hGrown

theorem bounded_ingestRecords (h : Bounded opts correlator) (now : Int) {records : List Normalized}
    (hRoom : AllHaveRoom opts now records correlator) : Bounded opts (ingestRecords opts now records correlator).1 := by
  induction records generalizing correlator with
  | nil => exact h
  | cons record records ih => exact ih (bounded_ingestRecord h now hRoom.1) hRoom.2

theorem bounded_evictStale (h : Bounded opts correlator) (nowMs : Int) : Bounded opts (evictStale opts nowMs correlator) := by
  refine ⟨length_capped _ _, (Set.encard_le_encard fun key hKey => ?_).trans h.map⟩
  rw [mem_openKeys, Option.isSome_iff_exists] at hKey ⊢
  obtain ⟨p, hKept⟩ := hKey
  exact ⟨p, (Option.filter_eq_some_iff.mp hKept).1⟩

theorem bounded_serve (correlator : GenAiCorrelator) (call : Call) (h : Bounded opts correlator) (hRoom : call.HasRoom opts correlator) :
    Bounded opts (serve opts correlator call).1 := by
  cases call with
  | ingest now records => exact bounded_evictStale (bounded_ingestRecords h now hRoom) _
  | sweep nowMs => exact bounded_evictStale h _

theorem openKeys_empty : openKeys empty.pending = ∅ := Set.eq_empty_of_forall_notMem fun _ hKey => Bool.false_ne_true hKey

variable (opts) in
theorem bounded_empty : Bounded opts empty := by
  refine ⟨Nat.zero_le _, ?_⟩
  rw [openKeys_empty, Set.encard_empty]
  exact bot_le

end

/-- In a run whose records all find room for their exchanges, queue and map stay under the cap after every call. -/
theorem memory_stays_bounded {B J I : Type} (opts : GenAiCorrelatorOptions B J I) (calls : List Call)
    (hRoom : ∀ step ∈ run (serve opts) empty calls, step.input.HasRoom opts step.before) :
    ∀ step ∈ run (serve opts) empty calls, Bounded opts step.after := by
  intro step hStep
  obtain ⟨hBefore, hAt⟩ := run_invariant_of bounded_serve (bounded_empty opts) hRoom step hStep
  rw [hAt]
  exact bounded_serve _ _ hBefore (hRoom step hStep)

def oneExchange : GenAiCorrelatorOptions String String (String × String) := { TwoCalls.opts with maxPending := 1 }

def strayResponse (requestId : String) : TelemetryRecord :=
  TwoCalls.emitted .apiResponseBody 1 [("request_id", .string requestId), ("body", .string "late!")]

theorem one_response_bounded :
    Bounded oneExchange (serve oneExchange (serve oneExchange empty (.sweep none)).1 (.ingest 5 [strayResponse "req_1"])).1 := by
  refine memory_stays_bounded oneExchange [.sweep none, .ingest 5 [strayResponse "req_1"]] ?_ _
    (List.mem_cons_of_mem _ List.mem_cons_self)
  have hFree : (openKeys (sweep oneExchange none empty).pending).encard < 1 := by
    have hNone : openKeys (sweep oneExchange none empty).pending = ∅ := openKeys_empty
    rw [hNone, Set.encard_empty]
    exact one_pos
  exact List.forall_mem_cons.mpr ⟨trivial, List.forall_mem_singleton.mpr ⟨fun _ _ _ => hFree, trivial⟩⟩

theorem map_outgrows_cap : ¬ ∀ (opts : GenAiCorrelatorOptions String String (String × String)) (calls : List Call),
    ∀ step ∈ run (serve opts) empty calls, Bounded opts step.after := by
  intro hAll
  have hBounded := (hAll oneExchange [.ingest 5 [strayResponse "req_1", strayResponse "req_2"]] _ List.mem_cons_self).map
  have hBoth : ({"req_1", "req_2"} : Set String) ⊆
      openKeys (serve oneExchange empty (.ingest 5 [strayResponse "req_1", strayResponse "req_2"])).1.pending := by
    rintro key (rfl | rfl)
    · exact rfl
    · exact rfl
  have hTwo := (Set.encard_le_encard hBoth).trans hBounded
  rw [Set.encard_pair (by decide)] at hTwo
  exact absurd hTwo (by decide)

end CommandSuite.GenAiCorrelator

/-! ## Batches

Between two batches the correlator only evicts. While nothing is stale, nothing is evicted, and the batches of a list of
records give what the whole list gives.
-/

namespace CommandSuite.GenAiCorrelator

open Library

section

variable {B J I : Type} (opts : GenAiCorrelatorOptions B J I)

structure Kept (cutoff : Int) (correlator : GenAiCorrelator) : Prop where
  capped : correlator.fifo.length ≤ opts.maxPending
  queue : ∀ request ∈ correlator.fifo, cutoff ≤ request.startedAt
  map : ∀ key p, correlator.pending key = some p → cutoff ≤ max p.startedAt p.endedAt

def entries (now : Int) (batches : List (Int × List TelemetryRecord)) : List Normalized :=
  (batches.flatMap Prod.snd).filterMap (normalize opts now)

variable {cutoff : Int} {record : TelemetryRecord}

variable {opts}

/-! ## One time -/

variable {entry : Normalized}

variable {p : PendingExchange}

variable {records : List TelemetryRecord}

theorem stamps_update {pending : String → Option PendingExchange}
    (hMap : ∀ key p, pending key = some p → cutoff ≤ max p.startedAt p.endedAt) (key : String) {entry : Option PendingExchange}
    (hEntry : ∀ p, entry = some p → cutoff ≤ max p.startedAt p.endedAt) :
    ∀ other p, Function.update pending key entry other = some p → cutoff ≤ max p.startedAt p.endedAt := by
  intro other p hOther
  by_cases hSame : other = key
  · rw [hSame, Function.update_self] at hOther
    exact hEntry p hOther
  · rw [Function.update_of_ne hSame] at hOther
    exact hMap other p hOther

variable {correlator : GenAiCorrelator}

theorem Kept.tryEmit (h : Kept opts cutoff correlator) (now : Int) (key : String)
    (hEnded : cutoff ≤ p.endedAt) : Kept opts cutoff (tryEmit opts now key p correlator).1 := by
  unfold GenAiCorrelator.tryEmit
  split
  · exact ⟨h.capped, h.queue, stamps_update h.map key fun _ hNone => nomatch hNone⟩
  · refine ⟨h.capped, h.queue, stamps_update h.map key fun q hSame => ?_⟩
    rw [← Option.some.inj hSame]
    exact hEnded.trans (le_max_right _ _)

theorem Kept.claim (h : Kept opts cutoff correlator) (model : Option String)
    (newestTs : Int) (synthSeq : Nat) :
    Kept opts cutoff ⟨(claimRequest model correlator.fifo).2, correlator.pending, newestTs, synthSeq⟩ where
  capped := (claimRequest_sublist model _).length_le.trans h.capped
  queue request hRequest := h.queue request ((claimRequest_sublist model _).mem hRequest)
  map := h.map

theorem Kept.ingestRecord (h : Kept opts cutoff correlator) (now : Int)
    {record : Normalized} (hTs : cutoff ≤ record.ts) : Kept opts cutoff (ingestRecord opts now record correlator).1 := by
  unfold GenAiCorrelator.ingestRecord
  cases record.event with
  | apiRequestBody =>
    refine ⟨length_capped _ _, fun request hRequest => ?_, h.map⟩
    obtain hOld | hNew := List.mem_append.mp (List.mem_of_mem_drop hRequest)
    · exact h.queue request hOld
    · rw [List.mem_singleton.mp hNew]
      exact hTs
  | apiRequest => exact (h.claim _ _ _).tryEmit now _ hTs
  | apiResponseBody =>
    have hSynth : ∀ synthSeq, Kept opts cutoff
        { correlator with newestTs := max correlator.newestTs record.ts, synthSeq := synthSeq } :=
      fun _ => ⟨h.capped, h.queue, h.map⟩
    exact (hSynth _).tryEmit now _ hTs
  | apiError =>
    have hClaimed := h.claim (asStr record.attrs "model") (max correlator.newestTs record.ts) correlator.synthSeq
    dsimp only [ingestError]
    split
    · exact ⟨hClaimed.capped, hClaimed.queue, stamps_update h.map _ fun _ hNone => nomatch hNone⟩
    · exact hClaimed

theorem Kept.ingestRecords (h : Kept opts cutoff correlator) (now : Int)
    {records : List Normalized} (hTs : ∀ record ∈ records, cutoff ≤ record.ts) :
    Kept opts cutoff (ingestRecords opts now records correlator).1 := by
  induction records generalizing correlator with
  | nil => exact h
  | cons record records ih =>
    obtain ⟨hFirst, hRest⟩ := List.forall_mem_cons.mp hTs
    exact ih (h.ingestRecord now hFirst) hRest

theorem Kept.evictStale {cutoff nowMs : Int} (h : Kept opts cutoff correlator)
    (hNow : nowMs - opts.ttlMs ≤ cutoff) : evictStale opts nowMs correlator = correlator := by
  have hQueue : correlator.fifo.dropWhile (fun request => request.startedAt < nowMs - opts.ttlMs) = correlator.fifo := by
    cases hFifo : correlator.fifo with
    | nil => rfl
    | cons request fifo =>
      have hFirst := h.queue request (hFifo ▸ List.mem_cons_self)
      rw [List.dropWhile_cons_of_neg]
      simpa using hNow.trans hFirst
  have hMap : ∀ key, (correlator.pending key).filter (fun p => !decide (max p.startedAt p.endedAt < nowMs - opts.ttlMs)) =
      correlator.pending key := by
    intro key
    cases hPending : correlator.pending key with
    | none => rfl
    | some p =>
      have hFresh := hNow.trans (h.map key p hPending)
      rw [Option.filter_some, if_pos]
      rw [decide_eq_false (not_lt.mpr hFresh), Bool.not_false]
  unfold GenAiCorrelator.evictStale
  dsimp only
  rw [hQueue, Nat.sub_eq_zero_of_le h.capped, List.drop_zero, funext hMap]

/-! ## One batch after the other -/

variable {batches : List (Int × List TelemetryRecord)}

end

end CommandSuite.GenAiCorrelator
