import CommandSuite.Core.Broker.Fanout
import CommandSuite.Core.Broker.Redelivery

/-! # What an acknowledgement says

A push is reported as settled when no recipient is pending any more. A lease is no outcome, but a leased row is not pending.
-/

namespace CommandSuite.Fanout

open Library Transcript MessageDelivery MessageDeliveryLedger LawfulLedger Lease

section Statements

variable {L : Type} [MessageDeliveryLedger L] (push : OpenPush)

def keyFor (state : PresenceState) : MessageKey := ⟨push.message.id, state.name⟩

def created (before : L) : List PresenceState := push.recipients.filter fun state => (rowAt before (keyFor push state)).isNone

/-- If the push is reported as settled, the rows that it made are. -/
def Honest (before after : L) (result : PushResult) : Prop :=
  ∀ acknowledgement, result.acknowledgement = some acknowledgement → acknowledgement.status = .settled →
    ∀ state ∈ created push before, ∀ view, rowAt after (keyFor push state) = some view → view.isOpen = false

/-- A name that is asked for has an unexpired pending row, or there was a live runner that does not report. -/
def waits (now : Int) (ledger : L) : Bool :=
  (push.dispositionNames.any fun name => Broker.isPendingFor ledger now push.message.id name) || push.tracked.any Broker.hasLegacyRunner

def opOf (step : Step (Fanout L) FanoutEvent (List (Effect L))) : Option Op :=
  match step.input with
  | .returned i =>
    step.before.running[i]?.bind fun task =>
      if push.tracks && supportsDisposition task.2.clientIdentity then some (.noteSent push.message.id task.1 push.ts) else none
  | .ledger op => some op
  | _ => none

def isOverdue (now : Int) (view : DeliveryView) : Bool := view.state = .pending && view.expiresAt ≤ now

end Statements

variable {L : Type} [LawfulLedger L]

def history (limit : Nat) (push : OpenPush) (start : Fanout L) (events : List FanoutEvent) (key : MessageKey) : List (Event String) :=
  (run apply start.deliveryLedger ((run (next limit push) start events).filterMap (opOf push))).map (eventOf key)

variable {limit : Nat} {push : OpenPush}

/-! ## The ledger of a fan-out -/

theorem ledger_next (fanout : Fanout L) (event : FanoutEvent) :
    (next limit push fanout event).1.deliveryLedger =
      final apply fanout.deliveryLedger (opOf push (stepAt (next limit push) fanout event)).toList := by
  cases event with
  | start =>
    rw [next, startNext, opOf]
    split
    · rfl
    · split <;> rfl
  | returned i =>
    rw [next, opOf, stepAt_input, stepAt_before]
    dsimp only
    cases fanout.running[i]? with
    | none => rfl
    | some task =>
      rw [Option.bind_some]
      dsimp only
      unfold noteReturned
      split <;> rfl
  | threw | ledger | registry => rfl

theorem ledger_final (fanout : Fanout L) (events : List FanoutEvent) :
    (final (next limit push) fanout events).deliveryLedger =
      final apply fanout.deliveryLedger ((run (next limit push) fanout events).filterMap (opOf push)) := by
  induction events generalizing fanout with
  | nil => rfl
  | cons event events ih =>
    rw [final_cons, ih, ledger_next, ← final_append, run_cons]
    congr 1
    cases hOp : opOf push (stepAt (next limit push) fanout event) with
    | none => rw [List.filterMap_cons_none hOp, Option.toList_none, List.nil_append]
    | some op => rw [List.filterMap_cons_some hOp, Option.toList_some, List.singleton_append]

/-! ## Tracking -/

def IsFresh (ledger : L) (key : MessageKey) : Prop := ∀ view, rowAt ledger key = some view → view.state = .pending

variable {ledger : L}

theorem wellLeased_tracks {states : List PresenceState} (hLeased : WellLeased ledger) :
    WellLeased (states.foldl (fun ledger state => track push.message state.name push.ts ledger) ledger) := by
  induction states generalizing ledger with
  | nil => exact hLeased
  | cons state states ih => exact ih (wellLeased_apply ledger (.track push.message state.name push.ts) hLeased)

theorem isFresh_tracks {states : List PresenceState} {key : MessageKey} (hLeased : WellLeased ledger) (h : IsFresh ledger key) :
    IsFresh (states.foldl (fun ledger state => track push.message state.name push.ts ledger) ledger) key := by
  induction states generalizing ledger with
  | nil => exact h
  | cons state states ih =>
    refine ih (wellLeased_apply ledger (.track push.message state.name push.ts) hLeased) fun view hView => ?_
    have hAfter : rowAfter (lost ledger key) key (.track push.message state.name push.ts) (rowAt ledger key) = some view :=
      (rowAt_apply ledger (.track push.message state.name push.ts) key hLeased).symm.trans hView
    rw [rowAfter] at hAfter
    obtain hOld | ⟨-, hNew⟩ := Option.or_eq_some_iff.mp hAfter
    · exact h view hOld
    · split at hNew
      · obtain rfl := Option.some.inj hNew
        rfl
      · cases hNew

theorem not_holds_of_fresh {key : MessageKey} (h : IsFresh ledger key) (owner : String) :
    ¬Holds owner (lifecycle ledger key) := by
  rintro ⟨lost, hHeld⟩
  rw [lifecycle] at hHeld
  cases hRow : rowAt ledger key with
  | none =>
    rw [hRow] at hHeld
    cases hHeld
  | some view =>
    rw [hRow, leaseOf_pending (h view hRow)] at hHeld
    cases hHeld

theorem accepted_iff_holds (hLeased : WellLeased ledger) (key : MessageKey) :
    (∃ view, rowAt ledger key = some view ∧ view.state = .accepted) ↔ ∃ owner, Holds owner (lifecycle ledger key) := by
  constructor
  · rintro ⟨view, hRow, hAccepted⟩
    obtain ⟨owner, hHeld⟩ := holder_of_accepted (hLeased key view hRow) hAccepted
    exact ⟨owner, lostOwners ledger key, by rw [lifecycle, hRow, leaseOf_held hHeld]⟩
  · rintro ⟨owner, lost, hHeld⟩
    rw [lifecycle] at hHeld
    cases hRow : rowAt ledger key with
    | none =>
      rw [hRow] at hHeld
      cases hHeld
    | some view =>
      refine ⟨view, rfl, ?_⟩
      cases hState : view.state with
      | accepted => rfl
      | pending =>
        rw [hRow, leaseOf_pending hState] at hHeld
        cases hHeld
      | acted | handled | refused | unreported =>
        rw [hRow, leaseOf_closed (by simp [DeliveryView.isOpen, hState])] at hHeld
        cases hHeld

/-! ## The count at the end -/

theorem isPendingFor_iff (hLeased : WellLeased ledger) (now : Int) (messageId : String) (name : Name) :
    Broker.isPendingFor ledger now messageId name.text = true ↔
      ∃ view, rowAt ledger ⟨messageId, name⟩ = some view ∧ view.state = .pending ∧ now < view.expiresAt := by
  obtain ⟨-, -, hRows⟩ : resultFrom lost ledger (.pending name now) (.rows (MessageDeliveryLedger.pending name now ledger)) :=
    result_apply ledger (.pending name now) hLeased
  rw [Broker.isPendingFor, (Name.parse_eq_some_iff name.text name).mpr rfl, Option.any_some, List.any_eq_true]
  constructor
  · rintro ⟨row, hRow, hId⟩
    obtain ⟨rfl, hTime, view, hView, hPending, hSame⟩ := (hRows row).mp hRow
    rw [← of_decide_eq_true hId]
    exact ⟨view, hView, hPending, by rw [hSame]; exact hTime⟩
  · rintro ⟨view, hView, hPending, hTime⟩
    have hKey := keyOf_rowAt ledger _ view hView
    obtain ⟨hId, hName⟩ := MessageKey.mk.inj hKey
    exact ⟨view.toPendingMessageDelivery, (hRows _).mpr ⟨hName, hTime, view, by rw [hKey]; exact hView, hPending, rfl⟩,
      decide_eq_true hId⟩

variable (push) in
theorem settled_iff (now : Int) (fanout : Fanout L) :
    (∃ acknowledgement, (fanout.report push now).acknowledgement = some acknowledgement ∧ acknowledgement.status = .settled) ↔
      push.tracks = true ∧ waits push now fanout.deliveryLedger = false := by
  have hPending : fanout.pending push now > 0 ↔
      (push.dispositionNames.any fun name => Broker.isPendingFor fanout.deliveryLedger now push.message.id name) = true := by
    rw [pending, gt_iff_lt, List.length_pos_iff_exists_mem, List.any_eq_true]
    exact exists_congr fun name => List.mem_filter
  have hUnreported : unreported push > 0 ↔ push.tracked.any Broker.hasLegacyRunner = true := by
    rw [unreported, gt_iff_lt, List.length_pos_iff_exists_mem, List.any_eq_true]
    exact exists_congr fun state => List.mem_filter
  rw [report, waits, Bool.or_eq_false_iff, ← Bool.not_eq_true, ← Bool.not_eq_true, ← hPending, ← hUnreported]
  dsimp only
  by_cases hTracks : push.tracks = true
  · rw [if_pos hTracks, and_iff_right hTracks]
    constructor
    · rintro ⟨acknowledgement, hReported, hStatus⟩
      obtain rfl := Option.some.inj hReported
      dsimp only at hStatus
      split at hStatus
      · cases hStatus
      · rename_i hNone
        split at hStatus
        · cases hStatus
        · rename_i hAll
          exact ⟨hNone, hAll⟩
    · rintro ⟨hNone, hAll⟩
      refine ⟨_, rfl, ?_⟩
      dsimp only
      rw [if_neg hNone, if_neg hAll]
  · rw [if_neg hTracks]
    exact iff_of_false (by rintro ⟨_, hReported, _⟩; cases hReported) fun h => hTracks h.1

section Push

variable {E : Type} {broker : Broker L E} {events : List FanoutEvent} {now : Int}

theorem wellLeased_fanout (hLeased : WellLeased broker.deliveryLedger) :
    WellLeased (final (next limit push) (broker.startFanout push) events).deliveryLedger := by
  rw [ledger_final]
  exact final_invariant wellLeased_apply (wellLeased_tracks hLeased) _

variable {state : PresenceState}

theorem holds_iff (hLeased : WellLeased broker.deliveryLedger)
    (hState : state ∈ created push broker.deliveryLedger) (owner : String) :
    Holds owner (lifecycle (final (next limit push) (broker.startFanout push) events).deliveryLedger (keyFor push state)) ↔
      StaysGranted owner (history limit push (broker.startFanout push) events (keyFor push state)) := by
  have hNone : rowAt broker.deliveryLedger (keyFor push state) = none := Option.isNone_iff_eq_none.mp (List.mem_filter.mp hState).2
  have hFresh : IsFresh (broker.startFanout push).deliveryLedger (keyFor push state) :=
    isFresh_tracks hLeased fun view hView => by rw [hNone] at hView; cases hView
  have hTracked : WellLeased (broker.startFanout push).deliveryLedger := wellLeased_tracks hLeased
  rw [ledger_final, (run_lifecycle hTracked (keyFor push state) _).holds_iff]
  exact or_iff_left fun hHeld => not_holds_of_fresh hFresh owner hHeld.1

theorem waits_of_pending {ledger : L} (hLeased : WellLeased ledger) {before : L} (hState : state ∈ created push before)
    {view : DeliveryView} (hView : rowAt ledger (keyFor push state) = some view) (hPending : view.state = .pending)
    (hTime : now < view.expiresAt) : waits push now ledger = true := by
  have hTracked := (List.mem_filter.mp (List.mem_filter.mp (List.mem_filter.mp hState).1).1).2
  have hName := of_decide_eq_true (Bool.and_eq_true_iff.mp hTracked).2
  rw [waits, Bool.or_eq_true, List.any_eq_true]
  exact .inl ⟨state.name.text, hName, (isPendingFor_iff hLeased now push.message.id state.name).mpr ⟨view, hView, hPending, hTime⟩⟩

theorem closed_iff (hLeased : WellLeased broker.deliveryLedger) (hState : state ∈ created push broker.deliveryLedger)
    (hNobody : waits push now (final (next limit push) (broker.startFanout push) events).deliveryLedger = false) :
    (∀ view, rowAt (final (next limit push) (broker.startFanout push) events).deliveryLedger (keyFor push state) = some view →
        view.isOpen = false) ↔
      (∀ owner, ¬StaysGranted owner (history limit push (broker.startFanout push) events (keyFor push state))) ∧
        ∀ view, rowAt (final (next limit push) (broker.startFanout push) events).deliveryLedger (keyFor push state) = some view →
          isOverdue now view = false := by
  have hFinal : WellLeased (final (next limit push) (broker.startFanout push) events).deliveryLedger := wellLeased_fanout hLeased
  have hAccepted := accepted_iff_holds hFinal (keyFor push state)
  constructor
  · intro hClosed
    refine ⟨fun owner hStays => ?_, fun view hView => ?_⟩
    · obtain ⟨view, hView, hLease⟩ := hAccepted.mpr ⟨owner, (holds_iff hLeased hState owner).mpr hStays⟩
      have hOpen := hClosed view hView
      rw [(view.isOpen_iff).mpr (.inr hLease)] at hOpen
      cases hOpen
    · have hNot : view.state ≠ .pending := fun hPending =>
        absurd ((view.isOpen_iff).mpr (.inl hPending)) (Bool.eq_false_iff.mp (hClosed view hView))
      rw [isOverdue, decide_eq_false hNot, Bool.false_and]
  · rintro ⟨hEnded, hOverdue⟩ view hView
    rw [← Bool.not_eq_true, view.isOpen_iff]
    rintro (hPending | hLease)
    · have hTime : now < view.expiresAt := by
        have hDue := hOverdue view hView
        rw [isOverdue, decide_eq_true hPending, Bool.true_and] at hDue
        exact not_le.mp (of_decide_eq_false hDue)
      rw [waits_of_pending hFinal hState hView hPending hTime] at hNobody
      cases hNobody
    · obtain ⟨owner, hHeld⟩ := hAccepted.mp ⟨view, hView, hLease⟩
      exact hEnded owner ((holds_iff hLeased hState owner).mp hHeld)

/-- However the callbacks and the other operations interleave, `settled` is honest just when every lease of the push has ended
before the recipients are counted, and no row of it is overdue. -/
theorem acknowledged_iff {result : PushResult} (hLeased : WellLeased broker.deliveryLedger)
    (hReturns : (final (next limit push) (broker.startFanout push) events).returns push now = some result) :
    Honest push broker.deliveryLedger (final (next limit push) (broker.startFanout push) events).deliveryLedger result ↔
      waits push now (final (next limit push) (broker.startFanout push) events).deliveryLedger = true ∨
        ∀ state ∈ created push broker.deliveryLedger,
          (∀ owner, ¬StaysGranted owner (history limit push (broker.startFanout push) events (keyFor push state))) ∧
            ∀ view, rowAt (final (next limit push) (broker.startFanout push) events).deliveryLedger (keyFor push state) = some view →
              isOverdue now view = false := by
  obtain ⟨-, rfl⟩ : _ ∧ (final (next limit push) (broker.startFanout push) events).report push now = result := by
    unfold returns at hReturns
    split at hReturns
    · exact ⟨trivial, Option.some.inj hReturns⟩
    · cases hReturns
  have hSettled := settled_iff push now (final (next limit push) (broker.startFanout push) events)
  cases hWaits : waits push now (final (next limit push) (broker.startFanout push) events).deliveryLedger with
  | true =>
    refine iff_of_true (fun acknowledgement hReported hStatus => ?_) (.inl rfl)
    have hNobody := (hSettled.mp ⟨acknowledgement, hReported, hStatus⟩).2
    rw [hWaits] at hNobody
    cases hNobody
  | false =>
    rw [or_iff_right Bool.false_ne_true]
    constructor
    · intro hHonest state hState
      have hTracks : push.tracks = true :=
        (Bool.and_eq_true_iff.mp (List.mem_filter.mp (List.mem_filter.mp (List.mem_filter.mp hState).1).1).2).1
      obtain ⟨acknowledgement, hReported, hStatus⟩ := hSettled.mpr ⟨hTracks, hWaits⟩
      exact (closed_iff hLeased hState hWaits).mp (hHonest acknowledgement hReported hStatus state hState)
    · intro hRows acknowledgement _ _ state hState
      exact (closed_iff hLeased hState hWaits).mpr (hRows state hState)

end Push

/-! ## A runner that accepts -/

open Broker

def readyBroker : Broker InMemoryMessageDeliveryLedger InMemoryEventLog :=
  final (apply fun _ => "m1") (start ⟨[]⟩)
    [(1, .subscribe bob 1 (runnerContext "s1")), (1, .runnerCondition bob ready (runnerContext "s1"))]

def toBob : OpenPush :=
  let payload : PushPayload := ⟨some "bob", none, "hello", none, none, none⟩
  let context : PushContext := ⟨some "alice", none, none⟩
  readyBroker.openPush 2 (messageOf "m1" 2 (some bob) payload context) (some bob) context

def acceptedAtOnce : List FanoutEvent := [.start, .ledger (.settle bob (frame "m1" .accepted) "s1" true), .returned 0]

example : (disposition (fun _ => "m2") 3 bob (frame "m1" .accepted) (runnerContext "s1")
      { readyBroker with deliveryLedger := (readyBroker.startFanout toBob).deliveryLedger }).1.deliveryLedger =
    (apply (readyBroker.startFanout toBob).deliveryLedger
      (.settle bob (frame "m1" .accepted) "s1" true)).1 := rfl

theorem lease_reported_as_settled :
    ∃ result, (final (next 32 toBob) (readyBroker.startFanout toBob) acceptedAtOnce).returns toBob 3 = some result ∧
      ¬Honest toBob readyBroker.deliveryLedger (final (next 32 toBob) (readyBroker.startFanout toBob) acceptedAtOnce).deliveryLedger result := by
  refine ⟨_, rfl, fun hHonest => ?_⟩
  have hKeys : (created toBob readyBroker.deliveryLedger).map (keyFor toBob) = [⟨"m1", bob⟩] := by decide
  obtain ⟨state, hState, hKey⟩ := List.mem_map.mp (hKeys ▸ List.mem_singleton_self _)
  have hOpen := hHonest _ rfl rfl state hState _ (by rw [hKey]; rfl)
  cases hOpen

theorem unanswered_is_honest :
    ∃ result, (final (next 32 toBob) (readyBroker.startFanout toBob) [.start, .returned 0]).returns toBob 3 = some result ∧
      Honest toBob readyBroker.deliveryLedger
        (final (next 32 toBob) (readyBroker.startFanout toBob) [.start, .returned 0]).deliveryLedger result := by
  have hLeased : WellLeased readyBroker.deliveryLedger := wellLeased_final (fun _ => "m1") (⟨[]⟩ : InMemoryEventLog) _
  have hReturns : (final (next 32 toBob) (readyBroker.startFanout toBob) [.start, .returned 0]).returns toBob 3 =
    some ((final (next 32 toBob) (readyBroker.startFanout toBob) [.start, .returned 0]).report toBob 3) := rfl
  exact ⟨_, hReturns, (acknowledged_iff hLeased hReturns).mpr (.inl (by decide))⟩

end CommandSuite.Fanout
