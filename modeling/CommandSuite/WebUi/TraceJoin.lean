import CommandSuite.Library.Assignment
import Mathlib.Algebra.Order.Ring.Rat
import Mathlib.Data.List.Sort

/-! # The join of turns and calls

`packages/web-ui/src/lib/trace-join.ts`: the exchanges of a member's activity are turns, and the inference records are
placed in them, by their response id or else by the interval of the turn. Calls without a turn are orphans.
-/

namespace CommandSuite.TraceJoin

open Library

structure JoinableCall where
  id : Int
  ts : Rat
  model : Option String
  responseId : Option String
  querySource : Option String

/-- The fields that are read, those of `entry` among them. The response may be missing, and its id as well. -/
structure ActivityLlmExchange where
  querySource : Option String
  model : Option String
  startedAt : Rat
  endedAt : Rat
  response : Option (Option String)

inductive Match where
  | exact | containment | unmatchedExact | unmatched
  deriving DecidableEq

structure TurnJoin (T : Type) where
  exchange : ActivityLlmExchange
  calls : List T
  matched : Match

structure JoinResult (T : Type) where
  turns : List (TurnJoin T)
  orphans : List T

def INTERVAL_SLACK_MS : Rat := 2000

def sourceClass : Option String → String
  | none => "main"
  | some querySource =>
    if querySource = "repl_main_thread" ∨ querySource = "codex_main_thread" then "main" else querySource

namespace ActivityLlmExchange

variable (exchange : ActivityLlmExchange) (call : JoinableCall)

/-- `ex.entry.response?.responseId`, when it is a string. -/
def responseId : Option String := exchange.response.join

def compatible : Bool := exchange.model.isNone || call.model.isNone || exchange.model = call.model

def intervalEnd : Rat := max exchange.endedAt exchange.startedAt

def outside : Rat := max 0 (max (exchange.startedAt - call.ts) (call.ts - exchange.intervalEnd))

def startDelta : Rat := |call.ts - exchange.startedAt|

def distance : Option (Rat × Rat) :=
  if exchange.responseId.isSome then none
  else if sourceClass exchange.querySource ≠ sourceClass call.querySource then none
  else if !exchange.compatible call then none
  else if exchange.outside call > INTERVAL_SLACK_MS then none
  else some (exchange.outside call, exchange.startDelta call)

end ActivityLlmExchange

def nearer (first second : Rat × Rat) : Bool := first.1 < second.1 || (first.1 = second.1 && first.2 < second.2)

/-- The map from the index of an exchange to its calls is the list of what was put into it. -/
structure Joining (T : Type) where
  used : List Int
  turnCalls : List (Nat × T)
  exactMatched : List Nat

variable {T : Type} (fields : T → JoinableCall)

namespace Joining

variable (joining : Joining T)

def put (exIndex : Nat) (call : T) : Joining T :=
  { joining with
    used := joining.used ++ [(fields call).id]
    turnCalls := joining.turnCalls ++ [(exIndex, call)] }

/-- `turnCalls.get(exIndex) ?? []`. -/
def get (exIndex : Nat) : List T := (joining.turnCalls.filter fun entry => entry.1 = exIndex).map Prod.snd

end Joining

/-- `byResponseId`: the first call that carries the id. -/
def callOfId (calls : List T) (responseId : String) : Option T :=
  calls.find? fun call => (fields call).responseId = some responseId

def joinExact (calls : List T) (joining : Joining T) (entry : ActivityLlmExchange × Nat) : Joining T :=
  match entry.1.responseId.bind (callOfId fields calls) with
  | none => joining
  | some call =>
    if (fields call).id ∈ joining.used then joining
    else { joining.put fields entry.2 call with exactMatched := joining.exactMatched ++ [entry.2] }

def bestIndex (exchanges : List ActivityLlmExchange) (call : JoinableCall) : Option Nat :=
  (Assignment.nearest (fun entry => entry.1.distance call) nearer exchanges.zipIdx).map fun best => best.1.2

def joinInterval (exchanges : List ActivityLlmExchange) (joining : Joining T) (call : T) : Joining T :=
  if (fields call).id ∈ joining.used then joining
  else
    match bestIndex exchanges (fields call) with
    | none => joining
    | some exIndex => joining.put fields exIndex call

def joined (exchanges : List ActivityLlmExchange) (calls : List T) : Joining T :=
  calls.foldl (joinInterval fields exchanges) (exchanges.zipIdx.foldl (joinExact fields calls) ⟨[], [], []⟩)

def sortByTs (calls : List T) : List T := calls.insertionSort fun a b => (fields a).ts ≤ (fields b).ts

def turnOf (joining : Joining T) (entry : ActivityLlmExchange × Nat) : TurnJoin T where
  exchange := entry.1
  calls := sortByTs fields (joining.get entry.2)
  matched :=
    if (joining.get entry.2).length > 0 then if entry.2 ∈ joining.exactMatched then .exact else .containment
    else if entry.1.responseId.isSome then .unmatchedExact
    else .unmatched

def joinTurns (exchanges : List ActivityLlmExchange) (calls : List T) : JoinResult T :=
  let joining := joined fields exchanges calls
  { turns := exchanges.zipIdx.map (turnOf fields joining)
    orphans := sortByTs fields (calls.filter fun call => (fields call).id ∉ joining.used) }

/-! ## What the join is for -/

/-- The exchange has no response id, and the call is of its class and model and within the slack of its interval. -/
structure Covers (exchange : ActivityLlmExchange) (call : JoinableCall) : Prop where
  anonymous : exchange.responseId = none
  sameClass : sourceClass exchange.querySource = sourceClass call.querySource
  sameModel : exchange.compatible call = true
  started : exchange.startedAt - INTERVAL_SLACK_MS ≤ call.ts
  ended : call.ts ≤ exchange.intervalEnd + INTERVAL_SLACK_MS

/-- The call carries the exchange's response id, or is covered by it and nearer to no other exchange that covers it. -/
def Belongs (exchanges : List ActivityLlmExchange) (exchange : ActivityLlmExchange) (call : JoinableCall) : Prop :=
  (∃ responseId, exchange.responseId = some responseId ∧ call.responseId = some responseId) ∨
    Covers exchange call ∧ ∀ other ∈ exchanges, Covers other call →
      nearer (other.outside call, other.startDelta call) (exchange.outside call, exchange.startDelta call) = false

structure Joins (exchanges : List ActivityLlmExchange) (calls : List T) (result : JoinResult T) : Prop where
  spine : result.turns.map TurnJoin.exchange = exchanges
  once : (result.turns.flatMap TurnJoin.calls ++ result.orphans).Perm calls
  ascending : ∀ turn ∈ result.turns, turn.calls.Pairwise fun a b => (fields a).ts ≤ (fields b).ts
  orphansAscending : result.orphans.Pairwise fun a b => (fields a).ts ≤ (fields b).ts
  belongs : ∀ turn ∈ result.turns, ∀ call ∈ turn.calls, Belongs exchanges turn.exchange (fields call)
  taken : ∀ (i : Nat) (turn : TurnJoin T) (responseId : String), result.turns[i]? = some turn →
    turn.exchange.responseId = some responseId → (∃ call ∈ calls, (fields call).responseId = some responseId) →
    (∃ call ∈ turn.calls, (fields call).responseId = some responseId) ∨
      ∃ (j : Nat) (other : TurnJoin T), j ≠ i ∧ result.turns[j]? = some other ∧ other.exchange.responseId = some responseId ∧
        ∃ call ∈ other.calls, (fields call).responseId = some responseId

/-! ## The nearest exchange -/

theorem nearer_trans (a b c : Rat × Rat) (hFirst : nearer a b = true) (hSecond : nearer b c = true) : nearer a c = true := by
  simp only [nearer, Bool.or_eq_true, Bool.and_eq_true, decide_eq_true_eq] at hFirst hSecond ⊢
  obtain hLess | ⟨hSame, hLess⟩ := hFirst
  · obtain hLess' | ⟨hSame', -⟩ := hSecond
    · exact .inl (hLess.trans hLess')
    · exact .inl (hSame' ▸ hLess)
  · obtain hLess' | ⟨hSame', hLess'⟩ := hSecond
    · exact .inl (hSame ▸ hLess')
    · exact .inr ⟨hSame.trans hSame', hLess.trans hLess'⟩

theorem nearer_irrefl (a : Rat × Rat) : nearer a a = false := by
  simp only [nearer, lt_self_iff_false, decide_false, Bool.and_false, Bool.or_false]

variable {exchange : ActivityLlmExchange} {call : JoinableCall}

theorem distance_eq_some_iff {distance : Rat × Rat} :
    exchange.distance call = some distance ↔
      Covers exchange call ∧ distance = (exchange.outside call, exchange.startDelta call) := by
  have hInside : exchange.outside call ≤ INTERVAL_SLACK_MS ↔
      exchange.startedAt - INTERVAL_SLACK_MS ≤ call.ts ∧ call.ts ≤ exchange.intervalEnd + INTERVAL_SLACK_MS := by
    have hSlack : (0 : Rat) ≤ INTERVAL_SLACK_MS := by decide
    unfold ActivityLlmExchange.outside
    rw [max_le_iff, max_le_iff, sub_le_comm, sub_le_iff_le_add' (a := call.ts)]
    exact and_iff_right hSlack
  constructor
  · intro h
    unfold ActivityLlmExchange.distance at h
    split_ifs at h with hId hClass hModel hFar
    obtain ⟨hStart, hEnd⟩ := hInside.mp (not_lt.mp hFar)
    rw [Bool.not_eq_true, Option.isSome_eq_false_iff, Option.isNone_iff_eq_none] at hId
    rw [Bool.not_eq_true, Bool.not_eq_false'] at hModel
    exact ⟨⟨hId, not_not.mp hClass, hModel, hStart, hEnd⟩, (Option.some.inj h).symm⟩
  · rintro ⟨hCovers, rfl⟩
    have hNear := not_lt.mpr (hInside.mpr ⟨hCovers.started, hCovers.ended⟩)
    rw [ActivityLlmExchange.distance, hCovers.anonymous, hCovers.sameModel, if_neg (by decide), if_neg (not_not.mpr hCovers.sameClass),
      if_neg (by decide), if_neg hNear]

variable {exchanges : List ActivityLlmExchange}

theorem mem_zipIdx_iff {i : Nat} :
    (exchange, i) ∈ exchanges.zipIdx ↔ exchanges[i]? = some exchange :=
  List.mem_zipIdx_iff_getElem?

variable {exIndex : Nat}

theorem belongs_of_bestIndex (h : bestIndex exchanges call = some exIndex) :
    ∃ exchange, exchanges[exIndex]? = some exchange ∧ Belongs exchanges exchange call := by
  obtain ⟨⟨⟨exchange, i⟩, distance⟩, hNearest, rfl⟩ := Option.map_eq_some_iff.mp h
  have hBest := Assignment.best_of_nearest nearer_trans nearer_irrefl hNearest
  obtain ⟨hCovers, hDistance⟩ := distance_eq_some_iff.mp hBest.measured
  refine ⟨exchange, mem_zipIdx_iff.mp hBest.mem, .inr ⟨hCovers, fun other hOther hOtherCovers => ?_⟩⟩
  obtain ⟨j, hIndex⟩ := List.mem_iff_getElem?.mp hOther
  rw [← hDistance]
  exact hBest.least (other, j) (mem_zipIdx_iff.mpr hIndex) _ (distance_eq_some_iff.mpr ⟨hOtherCovers, rfl⟩)

/-! ## What the passes keep -/

variable (exchanges : List ActivityLlmExchange) (calls : List T)

/-- The used ids are those of the calls that were put, once each, and a call belongs where it was put. -/
structure Sound (joining : Joining T) : Prop where
  used : joining.used = joining.turnCalls.map fun entry => (fields entry.2).id
  nodup : joining.used.Nodup
  placed : ∀ entry ∈ joining.turnCalls, entry.2 ∈ calls ∧
    ∃ exchange, exchanges[entry.1]? = some exchange ∧ Belongs exchanges exchange (fields entry.2)

def ById (joining : Joining T) : Prop :=
  ∀ entry ∈ joining.turnCalls, ∃ exchange responseId, exchanges[entry.1]? = some exchange ∧
    exchange.responseId = some responseId ∧ (fields entry.2).responseId = some responseId

def Served (joining : Joining T) (entry : ActivityLlmExchange × Nat) : Prop :=
  ∀ call, entry.1.responseId.bind (callOfId fields calls) = some call →
    ∃ j exchange, (j, call) ∈ joining.turnCalls ∧ exchanges[j]? = some exchange ∧ exchange.responseId = entry.1.responseId

variable {fields exchanges calls} {joining : Joining T} {call : T}

theorem Sound.put (h : Sound fields exchanges calls joining) (hNew : (fields call).id ∉ joining.used) (hCall : call ∈ calls) (hExchange : exchanges[exIndex]? = some exchange)
    (hBelongs : Belongs exchanges exchange (fields call)) : Sound fields exchanges calls (joining.put fields exIndex call) where
  used := by
    simp only [Joining.put, h.used, List.map_append, List.map_cons, List.map_nil]
  nodup := by
    refine List.nodup_append.mpr ⟨h.nodup, List.nodup_singleton _, fun id hId other hOther hSame => ?_⟩
    rw [hSame, List.mem_singleton.mp hOther] at hId
    exact hNew hId
  placed entry hEntry := by
    obtain hOld | hLast := List.mem_append.mp hEntry
    · exact h.placed entry hOld
    · rw [List.mem_singleton.mp hLast]
      exact ⟨hCall, exchange, hExchange, hBelongs⟩

variable {responseId : String}

theorem callOfId_spec (h : callOfId fields calls responseId = some call) :
    call ∈ calls ∧ (fields call).responseId = some responseId := by
  unfold callOfId at h
  exact ⟨List.mem_of_find?_eq_some h, by simpa only [decide_eq_true_eq] using List.find?_some h⟩

theorem eq_of_id (hIds : (calls.map fun call => (fields call).id).Nodup) {first second : T} (hFirst : first ∈ calls)
    (hSecond : second ∈ calls) (h : (fields first).id = (fields second).id) : first = second :=
  List.inj_on_of_nodup_map hIds hFirst hSecond h

variable {entry : ActivityLlmExchange × Nat}

theorem Sound.joinExact (hIds : (calls.map fun call => (fields call).id).Nodup) (h : Sound fields exchanges calls joining)
    (hById : ById fields exchanges joining) (hEntry : exchanges[entry.2]? = some entry.1) :
    Sound fields exchanges calls (joinExact fields calls joining entry) ∧ ById fields exchanges (joinExact fields calls joining entry) ∧
      joining.turnCalls <+: (joinExact fields calls joining entry).turnCalls ∧
      Served fields exchanges calls (joinExact fields calls joining entry) entry := by
  cases hCall : entry.1.responseId.bind (callOfId fields calls) with
  | none =>
    have hSame : TraceJoin.joinExact fields calls joining entry = joining := by simp only [TraceJoin.joinExact, hCall]
    rw [hSame]
    refine ⟨h, hById, List.prefix_rfl, fun call hOther => ?_⟩
    rw [hCall] at hOther
    cases hOther
  | some call =>
    obtain ⟨responseId, hId, hFind⟩ := Option.bind_eq_some_iff.mp hCall
    obtain ⟨hMem, hCarries⟩ := callOfId_spec hFind
    by_cases hUsed : (fields call).id ∈ joining.used
    · have hSame : TraceJoin.joinExact fields calls joining entry = joining := by
        simp only [TraceJoin.joinExact, hCall, if_pos hUsed]
      rw [hSame]
      refine ⟨h, hById, List.prefix_rfl, fun other hOther => ?_⟩
      rw [hCall] at hOther
      obtain rfl := Option.some.inj hOther
      -- The call that has the id is this one, and it went to an exchange with its response id.
      rw [h.used] at hUsed
      obtain ⟨⟨j, placed⟩, hPlaced, hSameId⟩ := List.mem_map.mp hUsed
      obtain rfl := eq_of_id hIds (h.placed _ hPlaced).1 hMem hSameId
      obtain ⟨exchange, otherId, hExchange, hOtherId, hOtherCarries⟩ := hById _ hPlaced
      refine ⟨j, exchange, hPlaced, hExchange, ?_⟩
      rw [hId, hOtherId, ← hOtherCarries, ← hCarries]
    · have hPut : TraceJoin.joinExact fields calls joining entry =
          { joining.put fields entry.2 call with exactMatched := joining.exactMatched ++ [entry.2] } := by
        simp only [TraceJoin.joinExact, hCall, if_neg hUsed]
      have hNext := h.put hUsed hMem hEntry (.inl ⟨responseId, hId, hCarries⟩)
      rw [hPut]
      refine ⟨⟨hNext.used, hNext.nodup, hNext.placed⟩, fun other hOther => ?_, List.prefix_append _ _, fun other hOther => ?_⟩
      · obtain hOld | hLast := List.mem_append.mp hOther
        · exact hById other hOld
        · rw [List.mem_singleton.mp hLast]
          exact ⟨entry.1, responseId, hEntry, hId, hCarries⟩
      · rw [hCall] at hOther
        obtain rfl := Option.some.inj hOther
        exact ⟨entry.2, entry.1, List.mem_append_right _ List.mem_cons_self, hEntry, rfl⟩

theorem Sound.joinInterval (h : Sound fields exchanges calls joining) (hCall : call ∈ calls) :
    Sound fields exchanges calls (joinInterval fields exchanges joining call) ∧
      joining.turnCalls <+: (joinInterval fields exchanges joining call).turnCalls := by
  unfold TraceJoin.joinInterval
  split
  · exact ⟨h, List.prefix_rfl⟩
  · rename_i hNew
    split
    · exact ⟨h, List.prefix_rfl⟩
    · rename_i exIndex hBest
      obtain ⟨exchange, hExchange, hBelongs⟩ := belongs_of_bestIndex hBest
      exact ⟨h.put hNew hCall hExchange hBelongs, List.prefix_append _ _⟩

theorem Served.mono (h : Served fields exchanges calls joining entry) {later : Joining T}
    (hLater : joining.turnCalls <+: later.turnCalls) : Served fields exchanges calls later entry := by
  intro call hCall
  obtain ⟨j, exchange, hPlaced, hExchange, hId⟩ := h call hCall
  exact ⟨j, exchange, hLater.subset hPlaced, hExchange, hId⟩

theorem sound_joinExacts (hIds : (calls.map fun call => (fields call).id).Nodup) {entries : List (ActivityLlmExchange × Nat)}
    (hEntries : ∀ entry ∈ entries, exchanges[entry.2]? = some entry.1) (h : Sound fields exchanges calls joining)
    (hById : ById fields exchanges joining) :
    Sound fields exchanges calls (entries.foldl (joinExact fields calls) joining) ∧
      joining.turnCalls <+: (entries.foldl (joinExact fields calls) joining).turnCalls ∧
      ∀ entry ∈ entries, Served fields exchanges calls (entries.foldl (joinExact fields calls) joining) entry := by
  induction entries generalizing joining with
  | nil => exact ⟨h, List.prefix_rfl, nofun⟩
  | cons entry entries ih =>
    obtain ⟨hEntry, hRest⟩ := List.forall_mem_cons.mp hEntries
    obtain ⟨hNext, hNextById, hPrefix, hServed⟩ := h.joinExact hIds hById hEntry
    obtain ⟨hFinal, hFinalPrefix, hFinalServed⟩ := ih hRest hNext hNextById
    exact ⟨hFinal, hPrefix.trans hFinalPrefix, List.forall_mem_cons.mpr ⟨hServed.mono hFinalPrefix, hFinalServed⟩⟩

theorem sound_joinIntervals {more : List T} (hMore : ∀ call ∈ more, call ∈ calls) (h : Sound fields exchanges calls joining) :
    Sound fields exchanges calls (more.foldl (joinInterval fields exchanges) joining) ∧
      joining.turnCalls <+: (more.foldl (joinInterval fields exchanges) joining).turnCalls := by
  induction more generalizing joining with
  | nil => exact ⟨h, List.prefix_rfl⟩
  | cons call more ih =>
    obtain ⟨hCall, hRest⟩ := List.forall_mem_cons.mp hMore
    obtain ⟨hNext, hPrefix⟩ := h.joinInterval hCall
    obtain ⟨hFinal, hFinalPrefix⟩ := ih hRest hNext
    exact ⟨hFinal, hPrefix.trans hFinalPrefix⟩

theorem sound_joined (hIds : (calls.map fun call => (fields call).id).Nodup) :
    Sound fields exchanges calls (joined fields exchanges calls) ∧
      ∀ entry ∈ exchanges.zipIdx, Served fields exchanges calls (joined fields exchanges calls) entry := by
  have hStart : Sound fields exchanges calls ⟨[], [], []⟩ := ⟨rfl, List.nodup_nil, nofun⟩
  obtain ⟨hExact, -, hServed⟩ := sound_joinExacts hIds (fun entry hEntry => mem_zipIdx_iff.mp hEntry) hStart nofun
  obtain ⟨hSound, hPrefix⟩ := sound_joinIntervals (fun call hCall => hCall) hExact
  exact ⟨hSound, fun entry hEntry => (hServed entry hEntry).mono hPrefix⟩

/-! ## The result -/

theorem sortByTs_perm (list : List T) : (sortByTs fields list).Perm list := List.perm_insertionSort _ _

theorem sortByTs_ascending (list : List T) : (sortByTs fields list).Pairwise fun a b => (fields a).ts ≤ (fields b).ts :=
  List.pairwise_insertionSort (fun a b : T => (fields a).ts ≤ (fields b).ts) list

theorem mem_sortByTs_get_iff : call ∈ sortByTs fields (joining.get exIndex) ↔ (exIndex, call) ∈ joining.turnCalls := by
  rw [(sortByTs_perm _).mem_iff, Joining.get]
  simp only [List.mem_map, List.mem_filter, decide_eq_true_eq]
  constructor
  · rintro ⟨⟨j, placed⟩, ⟨hPlaced, rfl⟩, rfl⟩
    exact hPlaced
  · exact fun hPlaced => ⟨(exIndex, call), ⟨hPlaced, rfl⟩, rfl⟩

theorem Sound.turns_perm (h : Sound fields exchanges calls joining) :
    ((exchanges.zipIdx.map (turnOf fields joining)).flatMap TurnJoin.calls).Perm (joining.turnCalls.map Prod.snd) := by
  have hIndices : ∀ entry ∈ joining.turnCalls, entry.1 ∈ exchanges.zipIdx.map Prod.snd := by
    intro entry hEntry
    obtain ⟨-, exchange, hExchange, -⟩ := h.placed entry hEntry
    exact List.mem_map_of_mem (f := Prod.snd) (mem_zipIdx_iff.mpr hExchange)
  have hNodup : (exchanges.zipIdx.map Prod.snd).Nodup := by
    rw [List.zipIdx_map_snd]
    exact List.nodup_range'
  have hFibers := (Assignment.flatMap_filter_perm Prod.fst hNodup hIndices).map Prod.snd
  rw [List.map_flatMap, List.flatMap_map] at hFibers
  rw [List.flatMap_map]
  refine List.Perm.trans ?_ hFibers
  exact List.Perm.flatMap_left _ fun entry _ => sortByTs_perm _

theorem Sound.rest_perm (hIds : (calls.map fun call => (fields call).id).Nodup) (h : Sound fields exchanges calls joining) :
    (joining.turnCalls.map Prod.snd ++ calls.filter fun call => (fields call).id ∉ joining.used).Perm calls := by
  have hPlaced : (joining.turnCalls.map Prod.snd).Perm (calls.filter fun call => (fields call).id ∈ joining.used) := by
    have hNodup := h.nodup
    rw [h.used] at hNodup
    refine (List.perm_ext_iff_of_nodup ?_ ?_).mpr fun call => ?_
    · refine List.Nodup.of_map (fun call => (fields call).id) ?_
      rw [List.map_map]
      exact hNodup
    · exact hIds.of_map.filter _
    · rw [List.mem_filter, decide_eq_true_eq, h.used]
      constructor
      · intro hMem
        obtain ⟨entry, hEntry, rfl⟩ := List.mem_map.mp hMem
        exact ⟨(h.placed entry hEntry).1, List.mem_map_of_mem hEntry⟩
      · rintro ⟨hCall, hUsed⟩
        obtain ⟨entry, hEntry, hSame⟩ := List.mem_map.mp hUsed
        rw [← eq_of_id hIds (h.placed entry hEntry).1 hCall hSame]
        exact List.mem_map_of_mem hEntry
  refine (hPlaced.append_right _).trans ?_
  have hSplit := List.filter_append_perm (fun call => decide ((fields call).id ∈ joining.used)) calls
  simpa only [decide_not] using hSplit

theorem getElem?_turns {turn : TurnJoin T} :
    (joinTurns fields exchanges calls).turns[exIndex]? = some turn ↔
      ∃ exchange, exchanges[exIndex]? = some exchange ∧ turn = turnOf fields (joined fields exchanges calls) (exchange, exIndex) := by
  rw [joinTurns, List.getElem?_map, List.getElem?_zipIdx, Option.map_map, Option.map_eq_some_iff]
  simp only [Function.comp_apply, Nat.zero_add, eq_comm]

theorem exists_callOfId (h : ∃ call ∈ calls, (fields call).responseId = some responseId) :
    ∃ call, callOfId fields calls responseId = some call := by
  obtain ⟨call, hCall, hCarries⟩ := h
  exact Option.isSome_iff_exists.mp (List.find?_isSome.mpr ⟨call, hCall, decide_eq_true hCarries⟩)

theorem joins_joinTurns {T : Type} (fields : T → JoinableCall) (exchanges : List ActivityLlmExchange) (calls : List T)
    (hIds : (calls.map fun call => (fields call).id).Nodup) : Joins fields exchanges calls (joinTurns fields exchanges calls) := by
  obtain ⟨hSound, hServed⟩ : Sound fields exchanges calls (joined fields exchanges calls) ∧
      ∀ entry ∈ exchanges.zipIdx, Served fields exchanges calls (joined fields exchanges calls) entry := sound_joined hIds
  refine ⟨?_, ?_, ?_, sortByTs_ascending _, ?_, ?_⟩
  · change (exchanges.zipIdx.map (turnOf fields _)).map TurnJoin.exchange = exchanges
    rw [List.map_map]
    exact List.zipIdx_map_fst 0 exchanges
  · refine ((hSound.turns_perm.append_right _).trans ?_)
    exact ((sortByTs_perm _).append_left _).trans (hSound.rest_perm hIds)
  · intro turn hTurn
    obtain ⟨entry, -, rfl⟩ := List.mem_map.mp hTurn
    exact sortByTs_ascending _
  · intro turn hTurn call hCall
    obtain ⟨exIndex, hIndex⟩ := List.mem_iff_getElem?.mp hTurn
    obtain ⟨exchange, hExchange, rfl⟩ := getElem?_turns.mp hIndex
    obtain ⟨-, placed, hPlaced, hBelongs⟩ := hSound.placed _ (mem_sortByTs_get_iff.mp hCall)
    obtain rfl := Option.some.inj (hExchange.symm.trans hPlaced)
    exact hBelongs
  · intro i turn responseId hTurn hId hCarried
    obtain ⟨exchange, hExchange, rfl⟩ := getElem?_turns.mp hTurn
    obtain ⟨call, hFind⟩ := exists_callOfId hCarried
    obtain ⟨j, other, hPlaced, hOther, hSameId⟩ := hServed _ (mem_zipIdx_iff.mpr hExchange) call
      (Option.bind_eq_some_iff.mpr ⟨responseId, hId, hFind⟩)
    have hCarries := (callOfId_spec hFind).2
    by_cases hSame : j = i
    · subst hSame
      exact .inl ⟨call, mem_sortByTs_get_iff.mpr hPlaced, hCarries⟩
    · exact .inr ⟨j, _, hSame, getElem?_turns.mpr ⟨other, hOther, rfl⟩, hSameId.trans hId, call, mem_sortByTs_get_iff.mpr hPlaced,
        hCarries⟩

def mixedExchanges : List ActivityLlmExchange :=
  [⟨none, some "opus", 1000, 5000, some (some "msg_1")⟩, ⟨some "codex_main_thread", none, 6000, 9000, some none⟩]

def mixedCalls : List JoinableCall :=
  [⟨3, 7000, some "codex", none, none⟩, ⟨1, 1000, some "opus", some "msg_1", none⟩,
    ⟨2, 4500, some "opus", some "msg_1", some "repl_main_thread"⟩, ⟨4, 7000, none, none, some "agent:explore"⟩]

theorem joins_mixed_calls : Joins id mixedExchanges mixedCalls (joinTurns id mixedExchanges mixedCalls) :=
  joins_joinTurns id _ _ (by decide)

end CommandSuite.TraceJoin
