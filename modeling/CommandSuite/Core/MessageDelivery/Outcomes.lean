import CommandSuite.Core.MessageDelivery.Agreement
import CommandSuite.Core.MessageDelivery.Lifecycle

/-! # One final outcome for each row

Outcomes are counted from the results a caller sees. Along a run they balance against the
rows that were inserted and the rows that are still open.
-/

namespace CommandSuite.MessageDelivery

open Library Transcript MessageDeliveryLedger LawfulLedger Lease DeliveryView

abbrev LedgerStep (L : Type) := Step L Op Result

section Counting

variable {L : Type} [MessageDeliveryLedger L]

def isPendingAt (ledger : L) (key : MessageKey) : Bool := (rowAt ledger key).any fun view => view.state = .pending

def outcomes (key : MessageKey) (step : LedgerStep L) : Nat :=
  match step.input, step.output with
  | .settle _ frame _ _, .settled (some row) =>
    if keyOf row = key ∧ (Terminal frame.disposition).isSome then 1 else 0
  | .expire _, .expired rows => (rows.map fun row => keyOf row.toPendingMessageDelivery).count key
  | .markUnreported messageId recipient _, _ =>
    if ⟨messageId, recipient⟩ = key ∧ isPendingAt step.before key ∧ ¬isPendingAt step.after key then 1 else 0
  | _, _ => 0

def inserts (key : MessageKey) (step : LedgerStep L) : Bool := (rowAt step.before key).isNone && (rowAt step.after key).isSome

def removes (key : MessageKey) (step : LedgerStep L) : Bool := (rowAt step.before key).isSome && (rowAt step.after key).isNone

def outcomesIn (key : MessageKey) (steps : List (LedgerStep L)) : Nat := (steps.map (outcomes key)).sum

/-- The steps `newer` are those after the latest insertion of the row. -/
def SinceInsert (key : MessageKey) (steps newer : List (LedgerStep L)) : Prop :=
  ∃ older insertion, steps = older ++ insertion :: newer ∧ inserts key insertion = true ∧ ∀ step ∈ newer, inserts key step = false

structure ReportsOnce (key : MessageKey) (ops : List Op) (steps : List (LedgerStep L)) : Prop where
  once : ∀ first newer second, steps = first ++ second → SinceInsert key first newer → outcomesIn key newer ≤ 1
  removed : ∀ first step second, steps = first ++ step :: second → removes key step = true →
    ∃ now view newer, step.input = .expire now ∧ rowAt step.before key = some view ∧ view.expiresAt ≤ now ∧
      SinceInsert key first newer ∧ outcomesIn key (newer ++ [step]) = 1
  total : outcomesIn key steps ≤ (ops.filterMap trackedKey).count key
  fresh : Fresh ops → outcomesIn key steps ≤ 1

end Counting

variable {L : Type} [LawfulLedger L]

def lifecycle (ledger : L) (key : MessageKey) : Lease String := leaseOf (lostOwners ledger key) (rowAt ledger key)

def eventOf (key : MessageKey) (step : LedgerStep L) : Event String :=
  eventAt (lost step.before key) key step.input (rowAt step.before key)

variable {ledger : L}

theorem inserts_iff (h : WellLeased ledger) (op : Op) (key : MessageKey) :
    inserts key (stepAt apply ledger op) = true ↔ eventOf key (stepAt apply ledger op) = .insert := by
  rw [inserts, eventOf, stepAt_after, rowAt_apply ledger op key h, stepAt_before, stepAt_input]
  cases hRow : rowAt ledger key with
  | none =>
    rw [eventAt]
    split <;> simp_all
  | some view =>
    simp only [Option.isNone_some, Bool.false_and, Bool.false_eq_true, false_iff]
    cases op with
    | track | noteSent | pending => rw [eventAt]; simp
    | settle recipient frame owner requireAcceptance =>
      rw [eventAt]
      split
      · unfold settleEvent
        split
        · simp
        all_goals split <;> simp
      · simp
    | releaseOwner | markUnreported => rw [eventAt]; split <;> simp
    | expire =>
      rw [eventAt]
      split
      · split <;> simp
      · simp

theorem eventOf_insertions (h : WellLeased ledger) (op : Op) (key : MessageKey) :
    (eventOf key (stepAt apply ledger op)).insertions = if inserts key (stepAt apply ledger op) then 1 else 0 := by
  by_cases hInserts : inserts key (stepAt apply ledger op) = true
  · rw [if_pos hInserts, (inserts_iff h op key).mp hInserts]
    rfl
  · rw [if_neg hInserts]
    have hNot := mt (inserts_iff h op key).mpr hInserts
    cases hEvent : eventOf key (stepAt apply ledger op) with
    | insert => exact absurd hEvent hNot
    | _ => rfl

theorem outcomes_settleEvent (disposition : Disposition) (owner : String) (view : DeliveryView) :
    (settleEvent disposition owner view).outcomes = if (Terminal disposition).isSome then 1 else 0 := by
  cases disposition with
  | accepted => rfl
  | deferred =>
    simp only [settleEvent]
    split <;> rfl
  | acted | handled | refused =>
    simp only [settleEvent]
    split <;> rfl

variable {key : MessageKey}

theorem eventAt_settle_of_ne {released : String → Bool} {recipient : Name}
    {frame : MessageDispositionFrame} {owner : String} {requireAcceptance : Bool} {row : Option DeliveryView}
    (h : (⟨frame.messageId, recipient⟩ : MessageKey) ≠ key) :
    eventAt released key (.settle recipient frame owner requireAcceptance) row = .idle := by
  cases row with
  | none => simp [eventAt, rowAfter]
  | some view => simp [eventAt, h]

section

variable (h : WellLeased ledger)
include h

theorem outcomes_settle (key : MessageKey) (recipient : Name)
    (frame : MessageDispositionFrame) (owner : String) (requireAcceptance : Bool) :
    outcomes key (stepAt apply ledger (.settle recipient frame owner requireAcceptance)) =
      (eventOf key (stepAt apply ledger (.settle recipient frame owner requireAcceptance))).outcomes := by
  have hOutput : (apply ledger (.settle recipient frame owner requireAcceptance)).2 =
      .settled (((rowAt ledger ⟨frame.messageId, recipient⟩).bind fun view =>
        view.settle (lost ledger ⟨frame.messageId, recipient⟩ owner) frame owner requireAcceptance).map
          toPendingMessageDelivery) :=
    congrArg Result.settled (result_apply ledger (.settle recipient frame owner requireAcceptance) h)
  rw [outcomes, stepAt_output, stepAt_input, hOutput, eventOf, stepAt_before, stepAt_input]
  cases hRow : rowAt ledger ⟨frame.messageId, recipient⟩ with
  | none =>
    by_cases hKey : (⟨frame.messageId, recipient⟩ : MessageKey) = key
    · subst hKey
      rw [hRow]
      simp [eventAt, rowAfter, Event.outcomes]
    · rw [eventAt_settle_of_ne hKey]
      rfl
  | some view =>
    have hView := keyOf_rowAt ledger _ view hRow
    rw [Option.bind_some]
    by_cases hKey : (⟨frame.messageId, recipient⟩ : MessageKey) = key
    · subst hKey
      rw [hRow, eventAt]
      cases hSettle : view.settle (lost ledger ⟨frame.messageId, recipient⟩ owner) frame owner requireAcceptance with
      | none => simp [Event.outcomes]
      | some after => simp [settle_toPending hSettle, hView, outcomes_settleEvent]
    · rw [eventAt_settle_of_ne hKey]
      cases hSettle : view.settle (lost ledger ⟨frame.messageId, recipient⟩ owner) frame owner requireAcceptance with
      | none => rfl
      | some after => simp [settle_toPending hSettle, hView, hKey, Event.outcomes]

theorem outcomes_expire (key : MessageKey) (now : Int) :
    outcomes key (stepAt apply ledger (.expire now)) = (eventOf key (stepAt apply ledger (.expire now))).outcomes := by
  obtain ⟨hNodup, hRows⟩ : resultFrom lost ledger (.expire now) (.expired (expire now ledger).1) :=
    result_apply ledger (.expire now) h
  change ((expire now ledger).1.map fun row => keyOf row.toPendingMessageDelivery).count key =
    (eventAt (lost ledger key) key (.expire now) (rowAt ledger key)).outcomes
  have hMem : key ∈ (expire now ledger).1.map (fun row => keyOf row.toPendingMessageDelivery) ↔
      ∃ view, rowAt ledger key = some view ∧ view.isOpen = true ∧ view.expiresAt ≤ now := by
    rw [List.mem_map]
    constructor
    · rintro ⟨row, hRow, rfl⟩
      obtain ⟨_, hTime, view, hView, hOpen, hSame⟩ := (hRows row).mp hRow
      exact ⟨view, hView, hOpen, by rw [hSame]; exact hTime⟩
    · rintro ⟨view, hView, hOpen, hTime⟩
      have hKey := keyOf_rowAt ledger key view hView
      refine ⟨⟨view.toPendingMessageDelivery, view.message.fromName⟩, (hRows _).mpr ?_, hKey⟩
      exact ⟨rfl, hTime, view, by rw [hKey]; exact hView, hOpen, rfl⟩
  rw [List.Nodup.count hNodup]
  simp only [hMem]
  cases hRow : rowAt ledger key with
  | none => simp [eventAt, rowAfter, Event.outcomes]
  | some view =>
    rw [eventAt]
    by_cases hTime : view.expiresAt ≤ now
    · by_cases hOpen : view.isOpen = true <;> simp [hTime, hOpen, Event.outcomes]
    · simp [hTime, Event.outcomes]

theorem outcomes_markUnreported (key : MessageKey) (messageId : String)
    (recipient : Name) (now : Int) :
    outcomes key (stepAt apply ledger (.markUnreported messageId recipient now)) =
      (eventOf key (stepAt apply ledger (.markUnreported messageId recipient now))).outcomes := by
  have hAfter := rowAt_apply ledger (.markUnreported messageId recipient now) key h
  simp only [outcomes, eventOf, stepAt_input, stepAt_before, stepAt_after, isPendingAt, hAfter]
  cases hRow : rowAt ledger key with
  | none => simp [eventAt, rowAfter, Event.outcomes]
  | some view =>
    by_cases hKey : (⟨messageId, recipient⟩ : MessageKey) = key <;>
      by_cases hPending : view.state = .pending <;>
      simp [eventAt, rowAfter, hKey, hPending, DeliveryView.markUnreported, Event.outcomes]

theorem eventOf_outcomes (op : Op) (key : MessageKey) :
    outcomes key (stepAt apply ledger op) = (eventOf key (stepAt apply ledger op)).outcomes := by
  cases op with
  | settle => exact outcomes_settle h key _ _ _ _
  | expire => exact outcomes_expire h key _
  | markUnreported => exact outcomes_markUnreported h key _ _ _
  | track | noteSent | pending =>
    rw [eventOf, stepAt_before, stepAt_input]
    cases rowAt ledger key with
    | none =>
      rw [eventAt]
      split <;> rfl
    | some view => rfl
  | releaseOwner =>
    rw [eventOf, stepAt_before, stepAt_input]
    cases rowAt ledger key with
    | none =>
      rw [eventAt]
      split <;> rfl
    | some view =>
      rw [eventAt]
      split <;> rfl

theorem balance (op : Op) (key : MessageKey) :
    outcomes key (stepAt apply ledger op) + (lifecycle (apply ledger op).1 key).openCount =
      (lifecycle ledger key).openCount + if inserts key (stepAt apply ledger op) then 1 else 0 := by
  rw [eventOf_outcomes h, ← eventOf_insertions h]
  exact (moves_apply ledger op key h).balance

end

def insertions (key : MessageKey) (steps : List (LedgerStep L)) : Nat :=
  (steps.map fun step => if inserts key step then 1 else 0).sum

theorem balance_run (h : WellLeased ledger) (key : MessageKey) (ops : List Op) :
    outcomesIn key (run apply ledger ops) + (lifecycle (final apply ledger ops) key).openCount =
      (lifecycle ledger key).openCount + insertions key (run apply ledger ops) :=
  run_balance (fun ledger => (lifecycle ledger key).openCount) (fun step => if inserts key step then 1 else 0)
    (outcomes key) wellLeased_apply (fun _ op hLeased => balance hLeased op key) h ops

theorem insertions_eq_zero {steps : List (LedgerStep L)}
    (h : ∀ step ∈ steps, inserts key step = false) : insertions key steps = 0 := by
  refine List.sum_eq_zero ?_
  intro n hn
  obtain ⟨step, hStep, rfl⟩ := List.mem_map.mp hn
  simp [h step hStep]

theorem insertions_le_count (h : WellLeased ledger) (key : MessageKey) (ops : List Op) :
    insertions key (run apply ledger ops) ≤ (ops.filterMap trackedKey).count key := by
  induction ops generalizing ledger with
  | nil => simp [insertions]
  | cons op ops ih =>
    have hRest := ih (wellLeased_apply ledger op h)
    have hHead : (if inserts key (stepAt apply ledger op) then 1 else 0) ≤ ([op].filterMap trackedKey).count key := by
      split
      · rename_i hInserts
        simp only [inserts, stepAt_before, stepAt_after, Bool.and_eq_true, Option.isNone_iff_eq_none,
          rowAt_apply ledger op key h] at hInserts
        obtain ⟨hBefore, hAfter⟩ := hInserts
        rw [hBefore] at hAfter
        rw [List.filterMap_cons, trackedKey_of_inserted (Option.isSome_iff_ne_none.mp hAfter)]
        simp
      · exact Nat.zero_le _
    rw [← List.singleton_append, List.filterMap_append, List.count_append]
    simp only [insertions, List.singleton_append, run_cons, List.map_cons, List.sum_cons] at hRest ⊢
    omega

theorem openCount_of_inserts (h : WellLeased ledger) {op : Op}
    (hInserts : inserts key (stepAt apply ledger op) = true) :
    (lifecycle (apply ledger op).1 key).openCount = 1 := by
  have hMoves := moves_apply ledger op key h
  have hEvent := (inserts_iff h op key).mp hInserts
  rw [eventOf, stepAt_before, stepAt_input] at hEvent
  rw [hEvent] at hMoves
  exact hMoves.openCount_of_insert

theorem present_or_since (ledger : L) (key : MessageKey) (ops : List Op)
    (h : rowAt (final apply ledger ops) key ≠ none) :
    (rowAt ledger key ≠ none ∧ ∀ step ∈ run apply ledger ops, inserts key step = false) ∨
      ∃ newer, SinceInsert key (run apply ledger ops) newer := by
  induction ops generalizing ledger with
  | nil => exact .inl ⟨h, by simp⟩
  | cons op ops ih =>
    rcases ih (apply ledger op).1 h with ⟨hPresent, hNone⟩ | ⟨newer, older, insertion, hRun, hInsertion⟩
    · cases hRow : rowAt ledger key with
      | none =>
        refine .inr ⟨run apply (apply ledger op).1 ops, [], stepAt apply ledger op, rfl, ?_, hNone⟩
        simpa [inserts, hRow, Option.isSome_iff_ne_none] using hPresent
      | some view =>
        refine .inl ⟨Option.some_ne_none view, ?_⟩
        intro step hStep
        rcases List.mem_cons.mp hStep with rfl | hLater
        · simp [inserts, hRow]
        · exact hNone step hLater
    · exact .inr ⟨newer, stepAt apply ledger op :: older, insertion, by rw [run_cons, hRun]; rfl, hInsertion⟩

theorem outcomes_since {ops : List Op} {newer : List (LedgerStep L)}
    (h : SinceInsert key (run apply (empty : L) ops) newer) :
    outcomesIn key newer + (lifecycle (final apply (empty : L) ops) key).openCount = 1 := by
  obtain ⟨older, insertion, hRun, hInserts, hNewer⟩ := h
  obtain ⟨js, i, ks, rfl, _, rfl, rfl⟩ := run_eq_append_cons apply hRun
  have hLeased : WellLeased (final apply (empty : L) js) := final_invariant wellLeased_apply wellLeased_empty js
  have hBalance := balance_run (wellLeased_apply _ i hLeased) key ks
  rw [stepAt_after] at hNewer
  rw [openCount_of_inserts hLeased hInserts, insertions_eq_zero hNewer] at hBalance
  rw [final_append, final_cons]
  exact hBalance

theorem removed_by_expire {released : String → Bool} {op : Op} {view : DeliveryView}
    (h : rowAfter released key op (some view) = none) : ∃ now, op = .expire now ∧ view.expiresAt ≤ now := by
  cases op with
  | expire now =>
    refine ⟨now, rfl, ?_⟩
    by_contra hTime
    simp [rowAfter, Option.filter_some, not_le.mp hTime] at h
  | track | pending => cases h
  | noteSent | settle | releaseOwner | markUnreported =>
    rw [rowAfter] at h
    split at h <;> cases h

theorem outcomes_le_count (key : MessageKey) (ops : List Op) :
    outcomesIn key (run apply (empty : L) ops) ≤ (ops.filterMap trackedKey).count key := by
  have hBalance := balance_run (wellLeased_empty : WellLeased (empty : L)) key ops
  have hCount := insertions_le_count (wellLeased_empty : WellLeased (empty : L)) key ops
  have hStart : (lifecycle (empty : L) key).openCount = 0 := by
    rw [lifecycle, rowAt_empty]
    rfl
  omega

theorem reportsOnce (key : MessageKey) (ops : List Op) : ReportsOnce key ops (run apply (empty : L) ops) where
  once first newer second hRun hSince := by
    obtain ⟨js, ks, rfl, rfl, _⟩ := run_eq_append apply hRun
    have hCount := outcomes_since hSince
    omega
  removed first step second hRun hRemoves := by
    obtain ⟨js, i, ks, rfl, rfl, rfl, _⟩ := run_eq_append_cons apply hRun
    have hLeased : WellLeased (final apply (empty : L) js) := final_invariant wellLeased_apply wellLeased_empty js
    simp only [removes, stepAt_before, stepAt_after, Bool.and_eq_true, Option.isNone_iff_eq_none,
      Option.isSome_iff_exists] at hRemoves
    obtain ⟨⟨view, hView⟩, hAfter⟩ := hRemoves
    have hRow := hAfter
    rw [rowAt_apply _ i key hLeased, hView] at hRow
    obtain ⟨now, rfl, hTime⟩ := removed_by_expire hRow
    rcases present_or_since (empty : L) key js (by simp [hView]) with ⟨hStart, _⟩ | ⟨newer, hSince⟩
    · exact absurd (rowAt_empty key) hStart
    · refine ⟨now, view, newer, rfl, hView, hTime, hSince, ?_⟩
      have hStep := balance hLeased (.expire now) key
      have hCount := outcomes_since hSince
      have hGone : (lifecycle (apply (final apply (empty : L) js) (.expire now)).1 key).openCount = 0 := by
        rw [lifecycle, hAfter]
        rfl
      have hOld : inserts key (stepAt apply (final apply (empty : L) js) (.expire now)) = false := by
        simp [inserts, hView]
      rw [hGone, hOld] at hStep
      simp only [outcomesIn, List.map_append, List.sum_append, List.map_singleton, List.sum_singleton,
        Bool.false_eq_true, if_false] at hStep hCount ⊢
      omega
  total := outcomes_le_count key ops
  fresh hFresh := (outcomes_le_count key ops).trans (List.nodup_iff_count_le_one.mp hFresh key)

theorem ledgers_report_once (key : MessageKey) (ops : List Op) :
    ReportsOnce key ops (run apply (empty : InMemoryMessageDeliveryLedger) ops) ∧
      ∀ plan, ReportsOnce key ops (run apply (empty : SqliteMessageDeliveryLedger plan) ops) :=
  ⟨reportsOnce key ops, fun _ => reportsOnce key ops⟩

def timeOf : Op → Option Int
  | .track _ _ now | .noteSent _ _ now | .pending _ now | .expire now | .markUnreported _ _ now => some now
  | .settle _ _ _ _ | .releaseOwner _ _ => none

def Timely (ops : List Op) : Prop := (ops.filterMap timeOf).Pairwise (· ≤ ·)

instance (ops : List Op) : Decidable (Timely ops) := inferInstanceAs (Decidable (List.Pairwise _ _))

def retracked : List Op :=
  [.track (note "m1" 1) bob 0, .settle bob (frame "m1" .acted) "laptop" false, .expire MESSAGE_DELIVERY_TTL_MS,
    .track (note "m1" 1) bob MESSAGE_DELIVERY_TTL_MS, .settle bob (frame "m1" .acted) "laptop" false]

theorem retracked_reports_twice : ¬∀ (key : MessageKey) (ops : List Op), Timely ops →
    outcomesIn key (run apply (empty : InMemoryMessageDeliveryLedger) ops) ≤ 1 := by
  intro h
  have hTwice : outcomesIn ⟨"m1", bob⟩ (run apply (empty : InMemoryMessageDeliveryLedger) retracked) = 2 := by
    decide
  have hOnce := h ⟨"m1", bob⟩ retracked (by decide)
  omega

end CommandSuite.MessageDelivery
