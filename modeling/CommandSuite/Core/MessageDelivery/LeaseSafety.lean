import CommandSuite.Core.MessageDelivery.Outcomes

/-! # Lease safety

Who may end a delivery, and what an owner can still do to a row after it lost its lease.
A transcript projects onto a run of the lease lifecycle, where fencing is already known.
-/

namespace CommandSuite.MessageDelivery

open Library Transcript MessageDeliveryLedger LawfulLedger Lease

section Steps

variable {L : Type} [MessageDeliveryLedger L]

/-- A frame of `owner` for the row of `key`. -/
def IsFrame (key : MessageKey) (owner : String) (frame : MessageDispositionFrame) (requireAcceptance : Bool)
    (step : LedgerStep L) : Prop :=
  step.input = .settle key.recipient frame owner requireAcceptance ∧ frame.messageId = key.messageId

/-- The owner loses its lease on the row, by `releaseOwner` or by deferring the message. -/
def Loses (key : MessageKey) (owner : String) (step : LedgerStep L) : Prop :=
  ∃ view, rowAt step.before key = some view ∧ losesLease key view owner step.input = true

def Grants (key : MessageKey) (owner : String) (step : LedgerStep L) : Prop :=
  ∃ frame requireAcceptance row, IsFrame key owner frame requireAcceptance step ∧
    frame.disposition = .accepted ∧ step.output = .settled (some row)

def HasLost (key : MessageKey) (owner : String) (steps : List (LedgerStep L)) : Prop :=
  ∃ older loss newer, steps = older ++ loss :: newer ∧ Loses key owner loss ∧ ∀ step ∈ newer, inserts key step = false

structure LeaseSafe (key : MessageKey) (owner : String) (steps : List (LedgerStep L)) : Prop where
  applied : ∀ first step second frame requireAcceptance row, steps = first ++ step :: second →
    IsFrame key owner frame requireAcceptance step → (Terminal frame.disposition).isSome →
    step.output = .settled (some row) →
    ∃ view, rowAt step.before key = some view ∧
      (view.state = .accepted ∧ view.acceptedOwner = some owner ∨
        view.state = .pending ∧ requireAcceptance = false ∧ ¬HasLost key owner first)
  fenced : ∀ first loss between step second frame requireAcceptance,
    steps = first ++ loss :: (between ++ step :: second) → Loses key owner loss →
    (∀ other ∈ between, inserts key other = false ∧ ¬Grants key owner other) →
    IsFrame key owner frame requireAcceptance step → (Terminal frame.disposition).isSome →
    step.output = .settled none ∧ rowAt step.after key = rowAt step.before key
  holder : ∀ step ∈ steps, ∀ view other, rowAt step.after key = some view →
    view.isHeldBy owner = true → view.isHeldBy other = true → other = owner

end Steps

variable {L : Type} [LawfulLedger L] {ledger : L}

theorem run_lifecycle (h : WellLeased ledger) (key : MessageKey) (ops : List Op) :
    Run (lifecycle ledger key) ((run apply ledger ops).map (eventOf key))
      (lifecycle (final apply ledger ops) key) := by
  induction ops generalizing ledger with
  | nil => exact .nil _
  | cons op ops ih => exact .cons (moves_apply ledger op key h) (ih (wellLeased_apply ledger op h))

variable {key : MessageKey} {owner : String}

theorem eventOf_of_loses {op : Op} (h : Loses key owner (stepAt apply ledger op)) : eventOf key (stepAt apply ledger op) = .giveBack owner := by
  obtain ⟨view, hRow, hLoses⟩ := h
  rw [stepAt_before] at hRow
  rw [stepAt_input] at hLoses
  rw [eventOf, stepAt_before, stepAt_input, hRow]
  cases op with
  | settle recipient frame from_ requireAcceptance =>
    obtain ⟨hKey, hDeferred, rfl, hHeld⟩ := losesLease_settle.mp hLoses
    have hSettles : (view.settle (lost ledger key from_) frame from_ requireAcceptance).isSome = true := by
      simp [DeliveryView.settle, hDeferred, hHeld]
    rw [eventAt, if_pos ⟨hKey, hSettles⟩, hDeferred, settleEvent, if_pos ((view.isHeldBy_iff from_).mp hHeld).1]
  | releaseOwner recipient from_ =>
    obtain ⟨hKey, rfl, hHeld⟩ := losesLease_releaseOwner.mp hLoses
    rw [eventAt, if_pos ⟨hKey, hHeld⟩]
  | track | noteSent | pending | expire | markUnreported => cases hLoses

variable {frame : MessageDispositionFrame} {requireAcceptance : Bool}

theorem output_of_frame (h : WellLeased ledger) {op : Op} (hFrame : IsFrame key owner frame requireAcceptance (stepAt apply ledger op)) :
    (stepAt apply ledger op).output = .settled (((rowAt ledger key).bind fun view =>
      view.settle (lost ledger key owner) frame owner requireAcceptance).map DeliveryView.toPendingMessageDelivery) := by
  obtain ⟨hInput, hMessage⟩ := hFrame
  obtain ⟨messageId, recipient⟩ := key
  rw [stepAt_input] at hInput
  dsimp only at hInput hMessage
  subst hInput hMessage
  exact congrArg Result.settled (result_apply ledger (.settle recipient frame owner requireAcceptance) h)

theorem grants_of_event (h : WellLeased ledger) {op : Op} (hEvent : eventOf key (stepAt apply ledger op) = .grant owner) : Grants key owner (stepAt apply ledger op) := by
  have hGrant := hEvent
  rw [eventOf, stepAt_before, stepAt_input] at hGrant
  cases hRow : rowAt ledger key with
  | none =>
    rw [hRow, eventAt] at hGrant
    split at hGrant <;> cases hGrant
  | some view =>
    rw [hRow] at hGrant
    cases op with
    | settle recipient frame from_ requireAcceptance =>
      rw [eventAt] at hGrant
      split at hGrant
      · rename_i hBoth
        obtain ⟨rfl, hSettles⟩ := hBoth
        obtain ⟨after, hAfter⟩ := Option.isSome_iff_exists.mp hSettles
        cases hDisposition : frame.disposition with
        | accepted =>
          rw [hDisposition] at hGrant
          cases hGrant
          have hFrame : IsFrame ⟨frame.messageId, recipient⟩ owner frame requireAcceptance
              (stepAt apply ledger (.settle recipient frame owner requireAcceptance)) := ⟨rfl, rfl⟩
          refine ⟨frame, requireAcceptance, after.toPendingMessageDelivery, hFrame, hDisposition, ?_⟩
          rw [output_of_frame h hFrame, hRow, Option.bind_some, hAfter]
          rfl
        | deferred | acted | handled | refused =>
          simp only [hDisposition, settleEvent] at hGrant
          split at hGrant <;> cases hGrant
      · cases hGrant
    | track | noteSent | pending => cases hGrant
    | releaseOwner | markUnreported =>
      rw [eventAt] at hGrant
      split at hGrant <;> cases hGrant
    | expire =>
      rw [eventAt] at hGrant
      split at hGrant
      · split at hGrant <;> cases hGrant
      · cases hGrant

variable {ops : List Op}

theorem insert_not_mem (h : WellLeased ledger) (hNone : ∀ step ∈ run apply ledger ops, inserts key step = false) :
    Event.insert ∉ (run apply ledger ops).map (eventOf key) := by
  intro hMem
  obtain ⟨step, hStep, hEvent⟩ := List.mem_map.mp hMem
  obtain ⟨hLeased, hAt⟩ := run_invariant wellLeased_apply h hStep
  rw [hAt] at hEvent
  have hInserts := (inserts_iff hLeased step.input key).mpr hEvent
  rw [← hAt, hNone step hStep] at hInserts
  cases hInserts

theorem grant_not_mem (h : WellLeased ledger) (hNone : ∀ step ∈ run apply ledger ops, ¬Grants key owner step) :
    Event.grant owner ∉ (run apply ledger ops).map (eventOf key) := by
  intro hMem
  obtain ⟨step, hStep, hEvent⟩ := List.mem_map.mp hMem
  obtain ⟨hLeased, hAt⟩ := run_invariant wellLeased_apply h hStep
  rw [hAt] at hEvent
  have hGrants := grants_of_event hLeased hEvent
  rw [← hAt] at hGrants
  exact hNone step hStep hGrants

theorem fenced_of_hasLost (h : HasLost key owner (run apply (empty : L) ops)) :
    Fenced owner (lifecycle (final apply (empty : L) ops) key) := by
  obtain ⟨older, loss, newer, hRun, hLoses, hNewer⟩ := h
  obtain ⟨js, i, ks, rfl, _, rfl, rfl⟩ := run_eq_append_cons apply hRun
  have hLeased : WellLeased (final apply (empty : L) js) := final_invariant wellLeased_apply wellLeased_empty js
  have hLifecycle := run_lifecycle (wellLeased_empty : WellLeased (empty : L)) key (js ++ i :: ks)
  refine hLifecycle.fenced_of_lost ⟨(run apply (empty : L) js).map (eventOf key),
    (run apply (apply (final apply (empty : L) js) i).1 ks).map (eventOf key), ?_, ?_⟩
  · rw [run_append, run_cons, List.map_append, List.map_cons, eventOf_of_loses hLoses]
  · exact insert_not_mem (wellLeased_apply _ i hLeased) hNewer

theorem lost_of_fenced {view : DeliveryView}
    (h : Fenced owner (lifecycle ledger key)) (hRow : rowAt ledger key = some view)
    (hPending : view.state = .pending) : lost ledger key owner = true := by
  rw [lifecycle, hRow, leaseOf_pending hPending] at h
  exact h

theorem refused_of_fenced (hFenced : Fenced owner (lifecycle ledger key))
    (hFree : ¬Holds owner (lifecycle ledger key)) (hTerminal : (Terminal frame.disposition).isSome = true) :
    ((rowAt ledger key).bind fun view => view.settle (lost ledger key owner) frame owner requireAcceptance) = none := by
  cases hSettle : (rowAt ledger key).bind fun view =>
      view.settle (lost ledger key owner) frame owner requireAcceptance with
  | none => rfl
  | some after =>
    obtain ⟨view, hRow, hSettle⟩ := Option.bind_eq_some_iff.mp hSettle
    cases settle_cases hSettle with
    | grant hAccepted =>
      rw [hAccepted] at hTerminal
      cases hTerminal
    | giveBack hDeferred | postpone hDeferred =>
      rw [hDeferred] at hTerminal
      cases hTerminal
    | finish state _ hHeld =>
      refine absurd ⟨lostOwners ledger key, ?_⟩ hFree
      rw [lifecycle, hRow, leaseOf_held hHeld]
    | finishUnleased state _ hPending _ hReleased =>
      rw [lost_of_fenced hFenced hRow hPending] at hReleased
      cases hReleased

theorem rowAt_of_refused (h : WellLeased ledger) {op : Op} (hFrame : IsFrame key owner frame requireAcceptance (stepAt apply ledger op))
    (hRefused : ((rowAt ledger key).bind fun view =>
      view.settle (lost ledger key owner) frame owner requireAcceptance) = none) :
    rowAt (apply ledger op).1 key = rowAt ledger key := by
  obtain ⟨hInput, hMessage⟩ := hFrame
  rw [stepAt_input] at hInput
  rw [rowAt_apply ledger op key h, hInput, rowAfter]
  split
  · cases hRow : rowAt ledger key with
    | none => rfl
    | some view =>
      rw [hRow, Option.bind_some] at hRefused
      rw [Option.map_some, hRefused, Option.getD_none]
  · rfl

theorem leaseSafe (key : MessageKey) (owner : String) (ops : List Op) :
    LeaseSafe key owner (run apply (empty : L) ops) where
  applied first step second frame requireAcceptance row hRun hFrame hTerminal hOutput := by
    obtain ⟨js, i, ks, rfl, rfl, rfl, _⟩ := run_eq_append_cons apply hRun
    have hLeased : WellLeased (final apply (empty : L) js) := final_invariant wellLeased_apply wellLeased_empty js
    rw [output_of_frame hLeased hFrame, Result.settled.injEq, Option.map_eq_some_iff] at hOutput
    obtain ⟨after, hSettle, _⟩ := hOutput
    obtain ⟨view, hRow, hSettle⟩ := Option.bind_eq_some_iff.mp hSettle
    refine ⟨view, hRow, ?_⟩
    cases settle_cases hSettle with
    | grant hAccepted =>
      rw [hAccepted] at hTerminal
      cases hTerminal
    | giveBack hDeferred | postpone hDeferred =>
      rw [hDeferred] at hTerminal
      cases hTerminal
    | finish state _ hHeld => exact .inl ((view.isHeldBy_iff owner).mp hHeld)
    | finishUnleased state _ hPending hRequired hReleased =>
      refine .inr ⟨hPending, hRequired, ?_⟩
      intro hLost
      rw [lost_of_fenced (fenced_of_hasLost hLost) hRow hPending] at hReleased
      cases hReleased
  fenced first loss between step second frame requireAcceptance hRun hLoses hBetween hFrame hTerminal := by
    obtain ⟨js, i, ks, rfl, _, rfl, hRest⟩ := run_eq_append_cons apply hRun
    have hLeased : WellLeased (final apply (empty : L) js) := final_invariant wellLeased_apply wellLeased_empty js
    have hLeased' := wellLeased_apply _ i hLeased
    obtain ⟨ks, j, _, rfl, rfl, rfl, _⟩ := run_eq_append_cons apply hRest.symm
    have hGiveBack := moves_apply (final apply (empty : L) js) i key hLeased
    have hEvent := eventOf_of_loses hLoses
    rw [eventOf, stepAt_before, stepAt_input] at hEvent
    rw [hEvent] at hGiveBack
    -- From the loss on, the owner is fenced and, until a new grant, no holder.
    have hLifecycle := run_lifecycle hLeased' key ks
    have hFenced := hLifecycle.fenced hGiveBack.fenced_of_giveBack
      (insert_not_mem hLeased' fun other hOther => (hBetween other hOther).1)
    have hFree := hLifecycle.not_holds hGiveBack.not_holds_of_giveBack
      (grant_not_mem hLeased' fun other hOther => (hBetween other hOther).2)
    have hStep : WellLeased (final apply (apply (final apply (empty : L) js) i).1 ks) :=
      final_invariant wellLeased_apply hLeased' ks
    have hRefused : ((rowAt _ key).bind fun view => view.settle _ frame owner requireAcceptance) = none :=
      refused_of_fenced hFenced hFree hTerminal
    refine ⟨?_, rowAt_of_refused hStep hFrame hRefused⟩
    rw [stepAt_after, output_of_frame hStep hFrame, hRefused, Option.map_none]
  holder step _ view other _ hOwner hOther := by
    have hSame := ((view.isHeldBy_iff owner).mp hOwner).2
    rw [((view.isHeldBy_iff other).mp hOther).2] at hSame
    exact Option.some.inj hSame

theorem ledgers_lease_safe (key : MessageKey) (owner : String) (ops : List Op) :
    LeaseSafe key owner (run apply (empty : InMemoryMessageDeliveryLedger) ops) ∧
      ∀ plan, LeaseSafe key owner (run apply (empty : SqliteMessageDeliveryLedger plan) ops) :=
  ⟨leaseSafe key owner ops, fun _ => leaseSafe key owner ops⟩

end CommandSuite.MessageDelivery
