import CommandSuite.Library.Transcript
import Mathlib.Data.List.Induction

/-! # Codex compaction

`packages/cli/src/runtime/agents/codex/compaction.ts`: a request to compact asks codex and waits for an item that tells of
the compaction. One request at a time is pending. The log has what happened, in order.
-/

namespace CommandSuite.CodexCompactor

open Library Transcript Function

inductive CodexCompactOutcome where
  | applied
  | noThread
  | inFlight
  | timedOut (timeoutMs : Int)
  | refused (reason : String)
  | ended
  deriving DecidableEq

/-- The detail of an outcome that is not applied. `Math.round` rounds halves up. -/
def CodexCompactOutcome.detail : CodexCompactOutcome → Option String
  | applied => none
  | noThread => some "no codex thread is open yet"
  | inFlight => some "a compaction request is already in flight"
  | timedOut timeoutMs => some s!"codex did not report a contextCompaction item within {(timeoutMs + 500) / 1000}s"
  | refused reason => some ("codex refused the compaction request: " ++ reason)
  | ended => some "the codex session ended before compaction completed"

inductive Rpc where
  | waiting
  | accepted
  | rejected
  deriving DecidableEq

/-- `settled` is the promise that the timer and the item resolve: the timer runs until it is. `result` is what the request has
resolved with. -/
structure Request where
  timeoutMs : Int
  rpc : Rpc
  settled : Option CodexCompactOutcome
  result : Option CodexCompactOutcome

structure Compactor where
  count : Nat
  requests : Nat → Option Request
  pending : Option Nat
  closed : Bool

/-- `timer` is the moment at which the time of a request is up. A notification may tell of another item. -/
inductive Event where
  | request (threadId : Option String) (timeoutMs : Int)
  | timer (i : Nat)
  | accepted (i : Nat)
  | rejected (i : Nat) (reason : String)
  | itemCompleted (contextCompaction : Bool)
  | close

/-- An item completes the request whose promise it resolves. -/
inductive Entry where
  | requested (i : Nat)
  | due (i : Nat)
  | item (completed : Option Nat)
  | closed
  | resolved (i : Nat) (outcome : CodexCompactOutcome)
  deriving DecidableEq

def attachCodexCompactor : Compactor := ⟨0, fun _ => none, none, false⟩

namespace Compactor

variable (compactor : Compactor)

def setRequest (i : Nat) (request : Request) : Compactor :=
  { compactor with requests := update compactor.requests i (some request) }

def addRequest (request : Request) : Compactor :=
  { compactor.setRequest compactor.count request with count := compactor.count + 1 }

/-- `request` up to its first await. A refusal resolves at once, without a timer. -/
def request (threadId : Option String) (timeoutMs : Int) : Compactor × List Entry :=
  let i := compactor.count
  let refuse (outcome : CodexCompactOutcome) : Compactor × List Entry :=
    (compactor.addRequest ⟨timeoutMs, .rejected, some outcome, some outcome⟩, [.requested i, .resolved i outcome])
  if threadId.isNone then refuse .noThread
  else if compactor.pending.isSome then refuse .inFlight
  else ({ compactor.addRequest ⟨timeoutMs, .waiting, none, none⟩ with pending := some i }, [.requested i])

/-- The promise resolves, and the request with it when codex has accepted it. -/
def settle (i : Nat) (outcome : CodexCompactOutcome) : Compactor × List Entry :=
  match compactor.requests i with
  | none => (compactor, [])
  | some request =>
    if request.rpc = .accepted then
      (compactor.setRequest i { request with settled := some outcome, result := some outcome }, [.resolved i outcome])
    else (compactor.setRequest i { request with settled := some outcome }, [])

def next : Compactor → Event → Compactor × List Entry
  | compactor, .request threadId timeoutMs => compactor.request threadId timeoutMs
  | compactor, .timer i =>
    match compactor.requests i with
    | none => (compactor, [])
    | some request =>
      if request.settled.isNone then
        let (after, entries) := { compactor with pending := none }.settle i (.timedOut request.timeoutMs)
        (after, .due i :: entries)
      else (compactor, [.due i])
  | compactor, .accepted i =>
    match compactor.requests i with
    | none => (compactor, [])
    | some request =>
      if request.rpc = .waiting then
        (compactor.setRequest i { request with rpc := .accepted, result := request.settled },
          (request.settled.map (Entry.resolved i)).toList)
      else (compactor, [])
  | compactor, .rejected i reason =>
    match compactor.requests i with
    | none => (compactor, [])
    | some request =>
      if request.rpc = .waiting then
        ({ compactor with pending := none }.setRequest i { request with rpc := .rejected, result := some (.refused reason) },
          [.resolved i (.refused reason)])
      else (compactor, [])
  | compactor, .itemCompleted contextCompaction =>
    if !contextCompaction then (compactor, [])
    else
      match compactor.closed, compactor.pending with
      | false, some i =>
        let (after, entries) := { compactor with pending := none }.settle i .applied
        (after, .item (some i) :: entries)
      | _, _ => (compactor, [.item none])
  | compactor, .close =>
    match compactor.pending with
    | none => ({ compactor with closed := true }, [.closed])
    | some i =>
      let (after, entries) := { compactor with pending := none, closed := true }.settle i .ended
      (after, .closed :: entries)

end Compactor

open Compactor

/-! ## What is asked of the answers -/

/-- What a log tells of a request: what came while it was outstanding, and what it has resolved with. -/
structure Seen where
  made : Bool := false
  due : Bool := false
  closed : Bool := false
  item : Bool := false
  completed : Bool := false
  outcomes : List CodexCompactOutcome := []

namespace Seen

def outstanding (seen : Seen) : Bool := seen.made && seen.outcomes.isEmpty

def add (i : Nat) (seen : Seen) : Entry → Seen
  | .requested j => if j = i then { seen with made := true } else seen
  | .due j => if j = i ∧ seen.outstanding then { seen with due := true } else seen
  | .item completed =>
    if seen.outstanding then { seen with item := true, completed := seen.completed || completed = some i } else seen
  | .closed => if seen.outstanding then { seen with closed := true } else seen
  | .resolved j outcome => if j = i then { seen with outcomes := seen.outcomes ++ [outcome] } else seen

end Seen

def seen (log : List Entry) (i : Nat) : Seen := log.foldl (Seen.add i) {}

/-- Each request resolves once and in time, and what it resolves with is true. -/
structure Truthful (log : List Entry) : Prop where
  once : ∀ i, (seen log i).outcomes.length ≤ 1
  inTime : ∀ i, (seen log i).due ∨ (seen log i).closed → (seen log i).outcomes ≠ []
  applied : ∃ item : Nat → Nat, Set.InjOn item {i | .applied ∈ (seen log i).outcomes} ∧
    ∀ i, .applied ∈ (seen log i).outcomes → log[item i]? = some (.item (some i)) ∧ (seen (log.take (item i)) i).outstanding
  timely : ∀ i timeoutMs, (seen log i).item → .timedOut timeoutMs ∉ (seen log i).outcomes

/-- No time is up and nothing is closed before codex has answered; a rejection and a late timer find no other request pending;
and no item comes after the close for a request that is made behind it. -/
def Orderly (compactor : Compactor) : Event → Prop
  | .timer i => ∀ request, compactor.requests i = some request →
      request.rpc ≠ .waiting ∧ (request.settled = none → ∀ j, compactor.pending = some j → j = i)
  | .rejected i _ => ∀ request, compactor.requests i = some request → request.rpc = .waiting → ∀ j, compactor.pending = some j → j = i
  | .close => ∀ i request, compactor.requests i = some request → request.rpc ≠ .waiting
  | .itemCompleted contextCompaction => contextCompaction = true → compactor.closed = true → compactor.pending = none
  | _ => True

/-! ## What a step keeps -/

/-- How far a request is. -/
inductive Phase (pending : Prop) : Option Request → Seen → Prop where
  | unmade (hPending : ¬pending) : Phase pending none {}
  | asked {request : Request} (hPending : pending) (hRpc : request.rpc ≠ .rejected) (hSettled : request.settled = none)
      (hResult : request.result = none) : Phase pending (some request) { made := true }
  | landed {request : Request} (hPending : ¬pending) (hRpc : request.rpc = .waiting) (hSettled : request.settled = some .applied)
      (hResult : request.result = none) : Phase pending (some request) { made := true, item := true, completed := true }
  | done {request : Request} {seen : Seen} {outcome : CodexCompactOutcome} (hPending : ¬pending)
      (hResult : request.result = some outcome) (hRpc : request.rpc ≠ .waiting)
      (hSettled : request.rpc = .rejected ∨ request.settled ≠ none) (hMade : seen.made = true)
      (hOutcomes : seen.outcomes = [outcome]) (hApplied : outcome = .applied → seen.completed = true)
      (hTimely : seen.item = true → ∀ timeoutMs, outcome ≠ .timedOut timeoutMs) : Phase pending (some request) seen

structure Kept (compactor : Compactor) (log : List Entry) : Prop where
  phases : ∀ i, Phase (compactor.pending = some i) (compactor.requests i) (seen log i)
  fresh : ∀ i, compactor.count ≤ i → compactor.requests i = none

theorem seen_append (log entries : List Entry) (i : Nat) : seen (log ++ entries) i = entries.foldl (Seen.add i) (seen log i) :=
  List.foldl_append

variable {log : List Entry}

theorem item_of_completed {i : Nat} (h : (seen log i).completed = true) :
    ∃ n : Nat, log[n]? = some (.item (some i)) ∧ (seen (log.take n) i).outstanding = true := by
  induction log using List.reverseRecOn with
  | nil => cases h
  | append_singleton log entry ih =>
    by_cases hOld : (seen log i).completed = true
    · obtain ⟨n, hItem, hOutstanding⟩ := ih hOld
      obtain ⟨hLength, -⟩ := List.getElem?_eq_some_iff.mp hItem
      refine ⟨n, ?_, ?_⟩
      · rw [List.getElem?_append_left hLength, hItem]
      · rw [List.take_append_of_le_length hLength.le, hOutstanding]
    · rw [seen_append, List.foldl_cons, List.foldl_nil] at h
      cases entry with
      | item completed =>
        simp only [Seen.add] at h
        split at h
        · rename_i hOutstanding
          obtain rfl : completed = some i := by simpa [hOld] using h
          exact ⟨log.length, by simp, by simpa using hOutstanding⟩
        · exact absurd h hOld
      | closed | requested | due | resolved =>
        simp only [Seen.add] at h
        split at h <;> exact absurd h hOld

theorem Phase.truthful {pending : Prop} {request : Option Request} {seen : Seen} (h : Phase pending request seen) :
    seen.outcomes.length ≤ 1 ∧ (seen.due ∨ seen.closed → seen.outcomes ≠ []) ∧ (.applied ∈ seen.outcomes → seen.completed = true) ∧
      ∀ timeoutMs, seen.item → .timedOut timeoutMs ∉ seen.outcomes := by
  cases h with
  | done _ _ _ _ _ hOutcomes hApplied hTimely =>
    rw [hOutcomes]
    refine ⟨le_rfl, fun _ => List.cons_ne_nil _ _, fun hMem => hApplied (List.mem_singleton.mp hMem).symm, fun timeoutMs hItem hMem => ?_⟩
    exact hTimely hItem timeoutMs (List.mem_singleton.mp hMem).symm
  | _ => simp

theorem Kept.truthful {compactor : Compactor} (h : Kept compactor log) : Truthful log where
  once i := (h.phases i).truthful.1
  inTime i := (h.phases i).truthful.2.1
  applied := by
    have hItem : ∀ i, ∃ n : Nat, .applied ∈ (seen log i).outcomes →
        log[n]? = some (.item (some i)) ∧ (seen (log.take n) i).outstanding = true := by
      intro i
      by_cases hApplied : .applied ∈ (seen log i).outcomes
      · obtain ⟨n, hn⟩ := item_of_completed ((h.phases i).truthful.2.2.1 hApplied)
        exact ⟨n, fun _ => hn⟩
      · exact ⟨0, fun hMem => absurd hMem hApplied⟩
    choose item hItem using hItem
    refine ⟨item, fun i hi j hj hSame => ?_, hItem⟩
    have hEntry := (hItem i hi).1
    rw [hSame, (hItem j hj).1] at hEntry
    simpa using hEntry.symm
  timely i timeoutMs := (h.phases i).truthful.2.2.2 timeoutMs

section Steps

variable {compactor : Compactor} {log : List Entry} (h : Kept compactor log) {i : Nat}

theorem Phase.idle {pending : Prop} {request : Option Request} {seen : Seen} (hPhase : Phase pending request seen)
    (hPending : ¬pending) :
    (∀ completed, completed ≠ some i → seen.add i (.item completed) = seen) ∧
      ((∀ found, request = some found → found.rpc ≠ .waiting) → seen.add i .closed = seen) := by
  cases hPhase with
  | unmade => simp [Seen.add, Seen.outstanding]
  | asked hOwn => exact absurd hOwn hPending
  | landed _ hRpc => simp +contextual [Seen.add, Seen.outstanding, hRpc]
  | done _ _ _ _ _ hOutcomes => simp [Seen.add, Seen.outstanding, hOutcomes]

variable {request : Request}

include h in
theorem Kept.write {i count : Nat} (hCount : compactor.count ≤ count ∧ i < count) {pending : Option Nat} {closed : Bool}
    {entries : List Entry} (hOwn : Phase (pending = some i) (some request) (entries.foldl (Seen.add i) (seen log i)))
    (hOther : ∀ j, j ≠ i → (pending = some j ↔ compactor.pending = some j) ∧ entries.foldl (Seen.add j) (seen log j) = seen log j) :
    Kept ⟨count, update compactor.requests i (some request), pending, closed⟩ (log ++ entries) where
  phases j := by
    rw [seen_append]
    dsimp only
    by_cases hSame : j = i
    · subst hSame
      rw [update_self]
      exact hOwn
    · rw [update_of_ne hSame, (hOther j hSame).1, (hOther j hSame).2]
      exact h.phases j
  fresh j hj := (update_of_ne (hCount.2.trans_le hj).ne' ..).trans (h.fresh j (hCount.1.trans hj))

include h in
theorem Kept.mark {entry : Entry} (hEntry : ∀ i, (seen log i).add i entry = seen log i) (closed : Bool) :
    Kept { compactor with closed := closed } (log ++ [entry]) where
  phases i := by
    rw [seen_append, List.foldl_cons, List.foldl_nil, hEntry i]
    exact h.phases i
  fresh := h.fresh

include h in
theorem Kept.lt_count (hRequest : compactor.requests i = some request) : i < compactor.count := by
  by_contra hFresh
  cases (h.fresh i (Nat.le_of_not_lt hFresh)).symm.trans hRequest

theorem Seen.add_resolved_self (seen : Seen) (i : Nat) (outcome : CodexCompactOutcome) :
    seen.add i (.resolved i outcome) = { seen with outcomes := seen.outcomes ++ [outcome] } := if_pos rfl

theorem rpc_waiting {rpc : Rpc} (hRejected : rpc ≠ .rejected) (hAccepted : rpc ≠ .accepted) : rpc = .waiting := by
  cases rpc <;> trivial

include h in
theorem Kept.settle (hPending : compactor.pending = some i) (outcome : CodexCompactOutcome) {mark : Entry}
    (hMark : mark = .item (some i) ∧ outcome = .applied ∨
      (∀ request, compactor.requests i = some request → request.rpc ≠ .waiting) ∧ outcome ≠ .applied ∧ (mark = .due i ∨ mark = .closed))
    (hOther : ∀ j, j ≠ i → (seen log j).add j mark = seen log j) (closed : Bool) :
    Kept (Compactor.settle { compactor with pending := none, closed := closed } i outcome).1
      (log ++ mark :: (Compactor.settle { compactor with pending := none, closed := closed } i outcome).2) := by
  have hPhase := h.phases i
  unfold Compactor.settle setRequest
  dsimp only
  generalize hRequest : compactor.requests i = found at hPhase
  generalize hSeen : seen log i = seen at hPhase
  cases hPhase with
  | asked _ hNotRejected hSettled hResult =>
    dsimp only
    have hOthers : ∀ j, j ≠ i → (none = some j ↔ compactor.pending = some j) := by
      intro j hj
      rw [hPending, Option.some_inj]
      exact iff_of_false nofun hj.symm
    have hOwn : ({ made := true } : Seen).add i mark =
        ⟨true, mark = .due i, mark = .closed, outcome = .applied, outcome = .applied, []⟩ := by
      rcases hMark with ⟨rfl, rfl⟩ | ⟨-, hOutcome, rfl | rfl⟩ <;> simp [Seen.add, Seen.outstanding, *]
    split
    · rename_i hAccepted
      refine h.write ⟨le_rfl, h.lt_count hRequest⟩ ?_ fun j hj => ⟨hOthers j hj, ?_⟩
      · change Phase _ _ (((seen log i).add i mark).add i (.resolved i outcome))
        rw [hSeen, hOwn, Seen.add_resolved_self]
        exact .done nofun rfl (by simp [hAccepted]) (.inr nofun) rfl rfl (by simp) (by simp +contextual)
      · rw [List.foldl_cons, hOther j hj]
        exact if_neg hj.symm
    · rename_i hAccepted
      rcases hMark with ⟨rfl, rfl⟩ | ⟨hRpc, -⟩
      · refine h.write ⟨le_rfl, h.lt_count hRequest⟩ ?_ fun j hj => ⟨hOthers j hj, hOther j hj⟩
        rw [List.foldl_cons, List.foldl_nil, hSeen, hOwn]
        exact .landed nofun (rpc_waiting hNotRejected hAccepted) rfl hResult
      · exact absurd (rpc_waiting hNotRejected hAccepted) (hRpc _ hRequest)
  | unmade hNot | landed hNot | done hNot => exact absurd hPending hNot

include h in
theorem kept_request (threadId : Option String) (timeoutMs : Int) :
    Kept (compactor.request threadId timeoutMs).1 (log ++ (compactor.request threadId timeoutMs).2) := by
  obtain ⟨hFresh, hUnmade⟩ : compactor.pending ≠ some compactor.count ∧ seen log compactor.count = {} := by
    have hPhase := h.phases compactor.count
    rw [h.fresh _ le_rfl] at hPhase
    generalize seen log compactor.count = seen at hPhase
    cases hPhase with
    | unmade hPending => exact ⟨hPending, rfl⟩
  have hRefused : ∀ outcome, outcome ≠ .applied → (∀ timeoutMs, outcome ≠ .timedOut timeoutMs) →
      Kept (compactor.addRequest ⟨timeoutMs, .rejected, some outcome, some outcome⟩)
        (log ++ [.requested compactor.count, .resolved compactor.count outcome]) := by
    intro outcome hApplied hTimedOut
    refine h.write ⟨Nat.le_succ _, Nat.lt_succ_self _⟩ ?_ fun j hj => ⟨Iff.rfl, ?_⟩
    · simp only [hUnmade, List.foldl_cons, List.foldl_nil, Seen.add, if_true]
      exact .done hFresh rfl nofun (.inl rfl) rfl rfl (fun hSame => absurd hSame hApplied) nofun
    · simp only [List.foldl_cons, List.foldl_nil, Seen.add, if_neg hj.symm]
  unfold Compactor.request
  dsimp only
  split
  · exact hRefused _ nofun nofun
  split
  · exact hRefused _ nofun nofun
  · rename_i hPending
    refine h.write ⟨Nat.le_succ _, Nat.lt_succ_self _⟩ ?_ fun j hj => ⟨?_, ?_⟩
    · simp only [hUnmade, List.foldl_cons, List.foldl_nil, Seen.add, if_true]
      exact .asked trivial nofun rfl rfl
    · rw [Option.not_isSome_iff_eq_none.mp hPending, Option.some_inj]
      exact iff_of_false hj.symm nofun
    · simp only [List.foldl_cons, List.foldl_nil, Seen.add, if_neg hj.symm]

theorem none_iff_of_alone (hAlone : ∀ j, compactor.pending = some j → j = i) {j : Nat} (hj : j ≠ i) :
    none = some j ↔ compactor.pending = some j :=
  iff_of_false nofun fun hPending => hj (hAlone j hPending)

include h in
theorem kept_timer (i : Nat) (hOrderly : Orderly compactor (.timer i)) :
    Kept (compactor.next (.timer i)).1 (log ++ (compactor.next (.timer i)).2) := by
  have hPhase := h.phases i
  dsimp only [Compactor.next]
  generalize hRequest : compactor.requests i = found at hPhase
  generalize hSeen : seen log i = seen at hPhase
  cases hPhase with
  | unmade => exact (List.append_nil log).symm ▸ h
  | landed _ hRpc => exact absurd hRpc (hOrderly _ hRequest).1
  | asked hPending hRpc hSettled hResult =>
    dsimp only
    rw [hSettled, Option.isNone_none, if_pos rfl]
    exact h.settle hPending (.timedOut _) (.inr ⟨fun other hOther => (hOrderly other hOther).1, nofun, .inl rfl⟩) (fun j hj => if_neg fun hSame => hj hSame.1.symm)
      compactor.closed
  | done hPending hResult hRpc hSettled hMade hOutcomes hApplied hTimely =>
    rename_i request outcome
    have hIdle : seen.add i (.due i) = seen := by
      simp [Seen.add, Seen.outstanding, hOutcomes]
    dsimp only
    split
    · rename_i hNone
      have hNotSettled := Option.isNone_iff_eq_none.mp hNone
      have hRejected := hSettled.resolve_right (not_not.mpr hNotSettled)
      unfold Compactor.settle
      dsimp only
      rw [hRequest]
      dsimp only
      rw [if_neg (by simp [hRejected])]
      refine h.write ⟨le_rfl, h.lt_count hRequest⟩ ?_ fun j hj =>
        ⟨none_iff_of_alone ((hOrderly _ hRequest).2 hNotSettled) hj, if_neg fun hSame => hj hSame.1.symm⟩
      rw [List.foldl_cons, List.foldl_nil, hSeen, hIdle]
      exact .done nofun hResult hRpc (.inl hRejected) hMade hOutcomes hApplied hTimely
    · refine h.mark (fun j => ?_) compactor.closed
      by_cases hSame : i = j
      · rw [← hSame, hSeen]
        exact hIdle
      · exact if_neg fun hBoth => hSame hBoth.1

include h in
theorem kept_accepted (i : Nat) : Kept (compactor.next (.accepted i)).1 (log ++ (compactor.next (.accepted i)).2) := by
  have hPhase := h.phases i
  dsimp only [Compactor.next]
  generalize hRequest : compactor.requests i = found at hPhase
  generalize hSeen : seen log i = seen at hPhase
  cases hPhase with
  | unmade => exact (List.append_nil log).symm ▸ h
  | asked hPending hRpc hSettled hResult =>
    dsimp only
    split
    · refine h.write ⟨le_rfl, h.lt_count hRequest⟩ ?_ fun j hj => ⟨Iff.rfl, ?_⟩
      · rw [hSettled, hSeen]
        exact .asked hPending nofun rfl rfl
      · rw [hSettled]
        rfl
    · exact (List.append_nil log).symm ▸ h
  | landed hPending hRpc hSettled hResult =>
    dsimp only
    rw [if_pos hRpc, hSettled]
    refine h.write ⟨le_rfl, h.lt_count hRequest⟩ ?_ fun j hj => ⟨Iff.rfl, if_neg hj.symm⟩
    change Phase _ _ ((CodexCompactor.seen log i).add i (.resolved i .applied))
    rw [hSeen, Seen.add_resolved_self]
    exact .done hPending rfl nofun (.inr nofun) rfl rfl (fun _ => rfl) nofun
  | done _ _ hRpc =>
    dsimp only
    rw [if_neg hRpc]
    exact (List.append_nil log).symm ▸ h

include h in
theorem kept_rejected (i : Nat) (reason : String) (hOrderly : Orderly compactor (.rejected i reason)) :
    Kept (compactor.next (.rejected i reason)).1 (log ++ (compactor.next (.rejected i reason)).2) := by
  have hPhase := h.phases i
  dsimp only [Compactor.next]
  generalize hRequest : compactor.requests i = found at hPhase
  generalize hSeen : seen log i = seen at hPhase
  have hWritten : ∀ request seen, compactor.requests i = some request → CodexCompactor.seen log i = seen → request.rpc = .waiting →
      seen.made = true → seen.outcomes = [] → Kept
        ({ compactor with pending := none }.setRequest i { request with rpc := .rejected, result := some (.refused reason) })
        (log ++ [.resolved i (.refused reason)]) := by
    intro request seen hRequest hSeen hRpc hMade hOutcomes
    refine h.write ⟨le_rfl, h.lt_count hRequest⟩ ?_ fun j hj => ⟨none_iff_of_alone (hOrderly request hRequest hRpc) hj, if_neg hj.symm⟩
    rw [List.foldl_cons, List.foldl_nil, hSeen, Seen.add_resolved_self, hOutcomes]
    exact .done nofun rfl nofun (.inl rfl) hMade rfl nofun nofun
  cases hPhase with
  | unmade => exact (List.append_nil log).symm ▸ h
  | done _ _ hRpc =>
    dsimp only
    rw [if_neg hRpc]
    exact (List.append_nil log).symm ▸ h
  | landed _ hRpc =>
    dsimp only
    rw [if_pos hRpc]
    exact hWritten _ _ hRequest hSeen hRpc rfl rfl
  | asked =>
    dsimp only
    split
    · rename_i hRpc
      exact hWritten _ _ hRequest hSeen hRpc rfl rfl
    · exact (List.append_nil log).symm ▸ h

include h in
theorem kept_next (event : Event) (hOrderly : Orderly compactor event) :
    Kept (next compactor event).1 (log ++ (next compactor event).2) := by
  cases event with
  | request threadId timeoutMs => exact kept_request h threadId timeoutMs
  | timer i => exact kept_timer h i hOrderly
  | accepted i => exact kept_accepted h i
  | rejected i reason => exact kept_rejected h i reason hOrderly
  | itemCompleted contextCompaction =>
    change Kept (Prod.fst (ite _ _ _)) (log ++ Prod.snd (ite _ _ _))
    split
    · exact (List.append_nil log).symm ▸ h
    rename_i hContext
    split
    · rename_i i hClosed hPending
      rw [hClosed]
      exact h.settle hPending .applied (.inl ⟨rfl, rfl⟩)
        (fun j hj => ((h.phases j).idle (by simp [hPending, hj.symm])).1 _ (by simp [hj.symm])) false
    · rename_i hEither
      have hPending : compactor.pending = none := by
        cases hClosed : compactor.closed with
        | true => exact hOrderly (by simpa using hContext) hClosed
        | false => exact Option.eq_none_iff_forall_ne_some.mpr fun i hPending => hEither i hClosed hPending
      exact h.mark (fun i => ((h.phases i).idle (by simp [hPending])).1 none nofun) compactor.closed
  | close =>
    dsimp only [Compactor.next]
    split
    · rename_i hPending
      exact h.mark (fun i => ((h.phases i).idle (by simp [hPending])).2 (hOrderly i)) true
    · rename_i i hPending
      exact h.settle hPending .ended (.inr ⟨hOrderly i, nofun, .inr rfl⟩)
        (fun j hj => ((h.phases j).idle (by simp [hPending, hj.symm])).2 (hOrderly j)) true

theorem kept_attachCodexCompactor : Kept attachCodexCompactor [] where
  phases _ := .unmade nofun
  fresh _ _ := rfl

end Steps

/-- What a run logs. -/
def logged (events : List Event) : List Entry := (run next attachCodexCompactor events).flatMap Step.output

/-- The law of the requests holds at every moment of a run: a request is late as soon as its time is up. -/
def AlwaysTruthful (events : List Event) : Prop := ∀ given, given <+: events → Truthful (logged given)

/-- In a run whose events come in order, the requests are answered truthfully and in time. -/
theorem compactions_truthful (events : List Event)
    (hOrderly : ∀ step ∈ run next attachCodexCompactor events, Orderly step.before step.input) : AlwaysTruthful events := by
  rintro given ⟨rest, rfl⟩
  rw [run_append] at hOrderly
  exact (final_history_when (J := Kept) (C := Orderly) (fun _ _ event hOrderly h => kept_next h event hOrderly)
    kept_attachCodexCompactor fun step hStep => hOrderly step (List.mem_append_left _ hStep)).truthful

theorem compaction_answered : AlwaysTruthful [.request (some "t1") 180000, .accepted 0, .itemCompleted true] ∧
    logged [.request (some "t1") 180000, .accepted 0, .itemCompleted true] = [.requested 0, .item (some 0), .resolved 0 .applied] := by
  refine ⟨compactions_truthful _ fun step hStep => ?_, rfl⟩
  simp only [run_cons, run_nil, List.mem_cons, List.not_mem_nil, or_false] at hStep
  rcases hStep with rfl | rfl | rfl
  · trivial
  · trivial
  · exact fun _ hClosed => nomatch hClosed

theorem unanswered_compaction_overdue : ¬AlwaysTruthful [.request (some "t1") 180000, .timer 0] :=
  fun h => (h _ (List.prefix_refl _)).inTime 0 (.inl rfl) rfl

end CommandSuite.CodexCompactor
