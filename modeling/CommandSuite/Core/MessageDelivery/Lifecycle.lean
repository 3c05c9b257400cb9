import CommandSuite.Core.MessageDelivery.Rows
import CommandSuite.Library.Lease

/-! # The lifecycle of a ledger row

Every operation moves every row along the lease lifecycle: it is inserted by `track`, leased by
an accepted frame, given back by a deferred frame or by the loss of its owner, and closed by the
one outcome it reports.
-/

namespace CommandSuite.MessageDelivery

open Library MessageDeliveryLedger LawfulLedger Lease DeliveryView

def leaseOf (lost : Set String) : Option DeliveryView → Lease String
  | none => .absent
  | some view =>
    match view.state, view.acceptedOwner with
    | .pending, _ => .free lost
    | .accepted, some owner => .held owner lost
    | _, _ => .closed

def settleEvent (disposition : Disposition) (owner : String) (view : DeliveryView) : Event String :=
  match disposition with
  | .accepted => .grant owner
  | .deferred => if view.state = .accepted then .giveBack owner else .idle
  | .acted | .handled | .refused => if view.state = .accepted then .finish owner else .finishUnleased owner

def eventAt (released : String → Bool) (key : MessageKey) (op : Op) : Option DeliveryView → Event String
  | none => if (rowAfter released key op none).isSome then .insert else .idle
  | some view =>
    match op with
    | .settle recipient frame owner requireAcceptance =>
      if ⟨frame.messageId, recipient⟩ = key ∧
          (view.settle (released owner) frame owner requireAcceptance).isSome then
        settleEvent frame.disposition owner view
      else .idle
    | .releaseOwner recipient owner => if key.recipient = recipient ∧ view.isHeldBy owner then .giveBack owner else .idle
    | .expire now => if view.expiresAt ≤ now then if view.isOpen then .expire else .purge else .idle
    | .markUnreported messageId recipient _ =>
      if ⟨messageId, recipient⟩ = key ∧ view.state = .pending then .abandon else .idle
    | .track _ _ _ | .noteSent _ _ _ | .pending _ _ => .idle

variable {view : DeliveryView}

theorem leaseOf_pending {lost : Set String} (h : view.state = .pending) : leaseOf lost (some view) = .free lost := by
  simp [leaseOf, h]

variable {owner : String}

theorem leaseOf_held {lost : Set String} (h : view.isHeldBy owner = true) : leaseOf lost (some view) = .held owner lost := by
  obtain ⟨hState, hOwner⟩ := (view.isHeldBy_iff owner).mp h
  simp [leaseOf, hState, hOwner]

theorem leaseOf_closed {lost : Set String} (h : view.isOpen = false) : leaseOf lost (some view) = .closed := by
  cases hState : view.state <;> simp [isOpen, leaseOf, hState] at h ⊢

theorem holder_of_accepted (h : view.WellLeased) (hState : view.state = .accepted) : ∃ owner, view.isHeldBy owner = true := by
  obtain ⟨owner, hOwner⟩ := Option.ne_none_iff_exists'.mp (h.mp hState)
  exact ⟨owner, (view.isHeldBy_iff owner).mpr ⟨hState, hOwner⟩⟩

inductive SettleCase (released : Bool) (frame : MessageDispositionFrame) (owner : String)
    (requireAcceptance : Bool) (view : DeliveryView) : DeliveryView → Prop where
  | grant (accepted : frame.disposition = .accepted) (pending : view.state = .pending) :
    SettleCase released frame owner requireAcceptance view
      { view with state := .accepted, acceptedOwner := some owner }
  | giveBack (deferred : frame.disposition = .deferred) (held : view.isHeldBy owner = true) :
    SettleCase released frame owner requireAcceptance view { view with state := .pending, acceptedOwner := none }
  | postpone (deferred : frame.disposition = .deferred) (pending : view.state = .pending) :
    SettleCase released frame owner requireAcceptance view { view with state := .pending, acceptedOwner := none }
  | finish (state : DeliveryState) (terminal : Terminal frame.disposition = some state)
    (held : view.isHeldBy owner = true) :
    SettleCase released frame owner requireAcceptance view { view with state := state, acceptedOwner := none }
  | finishUnleased (state : DeliveryState) (terminal : Terminal frame.disposition = some state)
    (pending : view.state = .pending) (unrequired : requireAcceptance = false) (fenced : released = false) :
    SettleCase released frame owner requireAcceptance view { view with state := state, acceptedOwner := none }

variable {frame : MessageDispositionFrame} {requireAcceptance : Bool}

theorem settle_cases {released : Bool} {view after : DeliveryView}
    (h : view.settle released frame owner requireAcceptance = some after) :
    SettleCase released frame owner requireAcceptance view after := by
  have hTerminal : ∀ state, Terminal frame.disposition = some state →
      (view.isHeldBy owner || view.state = .pending && !requireAcceptance && !released) = true →
      SettleCase released frame owner requireAcceptance view { view with state := state, acceptedOwner := none } := by
    intro state hState hGuard
    simp only [Bool.or_eq_true, Bool.and_eq_true, decide_eq_true_eq, Bool.not_eq_true'] at hGuard
    rcases hGuard with hHeld | ⟨⟨hPending, hRequired⟩, hReleased⟩
    · exact .finish state hState hHeld
    · exact .finishUnleased state hState hPending hRequired hReleased
  unfold DeliveryView.settle at h
  split at h <;> split at h
  case h_1.isTrue hd hPending =>
    cases h
    exact .grant hd hPending
  case h_2.isTrue hd hGuard =>
    cases h
    simp only [Bool.or_eq_true, decide_eq_true_eq] at hGuard
    rcases hGuard with hPending | hHeld
    · exact .postpone hd hPending
    · exact .giveBack hd hHeld
  case h_3.isTrue hd hGuard | h_4.isTrue hd hGuard | h_5.isTrue hd hGuard =>
    obtain ⟨state, hState, rfl⟩ := Option.map_eq_some_iff.mp h
    exact hTerminal state hState hGuard
  all_goals cases h

variable {disposition : Disposition} {state : DeliveryState}

section

variable (h : Terminal disposition = some state)
include h

theorem not_isOpen_of_terminal : state ≠ .pending ∧ state ≠ .accepted := by
  cases disposition <;> cases h <;> decide

theorem settleEvent_of_terminal (owner : String) (view : DeliveryView) :
    settleEvent disposition owner view =
      if view.state = .accepted then .finish owner else .finishUnleased owner := by
  cases disposition <;> first | rfl | cases h

theorem leaseOf_of_terminal {lost : Set String}
    (hState : view.state = state) :
    leaseOf lost (some view) = .closed := by
  obtain ⟨hPending, hAccepted⟩ := not_isOpen_of_terminal h
  apply leaseOf_closed
  simp [isOpen, hState, hPending, hAccepted]

end

theorem leaseOf_congr {lost : Set String} {view view' : DeliveryView} (hState : view'.state = view.state)
    (hOwner : view'.acceptedOwner = view.acceptedOwner) : leaseOf lost (some view') = leaseOf lost (some view) := by
  simp [leaseOf, hState, hOwner]

def lostAfter (released : String → Bool) (key : MessageKey) (op : Op) (view : DeliveryView) : Set String :=
  {owner | released owner = true ∨ losesLease key view owner op = true}

variable {released : String → Bool} {key : MessageKey}

theorem lostAfter_of_kept {op : Op}
    (h : ∀ owner, losesLease key view owner op = false) :
    lostAfter released key op view = {owner | released owner = true} := by
  ext owner
  simp [lostAfter, h]

theorem lostAfter_of_lost {op : Op}
    (h : ∀ other, losesLease key view other op = true ↔ other = owner) :
    lostAfter released key op view = insert owner {owner | released owner = true} := by
  ext other
  simp [lostAfter, h, or_comm]

variable {recipient : Name}

theorem losesLease_settle {owner other : String} :
    losesLease key view other (.settle recipient frame owner requireAcceptance) = true ↔
      ⟨frame.messageId, recipient⟩ = key ∧ frame.disposition = .deferred ∧ owner = other ∧ view.isHeldBy other = true := by
  simp only [losesLease, Bool.and_eq_true, decide_eq_true_eq]
  tauto

theorem losesLease_releaseOwner {owner other : String} :
    losesLease key view other (.releaseOwner recipient owner) = true ↔
      key.recipient = recipient ∧ owner = other ∧ view.isHeldBy other = true := by
  simp only [losesLease, Bool.and_eq_true, decide_eq_true_eq]
  tauto

theorem not_losesLease (h : frame.disposition ≠ .deferred ∨ view.isHeldBy owner = false) (other : String) :
    losesLease key view other (.settle recipient frame owner requireAcceptance) = false := by
  cases hLoses : losesLease key view other (.settle recipient frame owner requireAcceptance) with
  | false => rfl
  | true =>
    obtain ⟨_, hDeferred, rfl, hHeld⟩ := losesLease_settle.mp hLoses
    rcases h with hNot | hNot
    · exact absurd hDeferred hNot
    · rw [hNot] at hHeld
      cases hHeld

theorem moves_settled {view after : DeliveryView}
        (hKey : ⟨frame.messageId, recipient⟩ = key)
    (h : SettleCase (released owner) frame owner requireAcceptance view after) :
    Moves (leaseOf {owner | released owner = true} (some view)) (settleEvent frame.disposition owner view)
      (leaseOf (lostAfter released key (.settle recipient frame owner requireAcceptance) view) (some after)) := by
  cases h with
  | grant hAccepted hPending =>
    have hNot : frame.disposition ≠ .deferred := by rw [hAccepted]; decide
    rw [lostAfter_of_kept (not_losesLease (.inl hNot)), leaseOf_pending hPending, hAccepted]
    exact .grant owner _
  | giveBack hDeferred hHeld =>
    have hLost : ∀ other, losesLease key view other (.settle recipient frame owner requireAcceptance) = true ↔ other = owner := by
      intro other
      rw [losesLease_settle]
      constructor
      · exact fun hLoses => hLoses.2.2.1.symm
      · rintro rfl
        exact ⟨hKey, hDeferred, rfl, hHeld⟩
    rw [lostAfter_of_lost hLost, leaseOf_held hHeld, hDeferred, settleEvent, if_pos ((view.isHeldBy_iff owner).mp hHeld).1]
    exact .giveBack owner _
  | postpone hDeferred hPending =>
    have hFree : view.isHeldBy owner = false := by simp [isHeldBy, hPending]
    rw [lostAfter_of_kept (not_losesLease (.inr hFree)), leaseOf_pending hPending, hDeferred, settleEvent, hPending]
    exact .idle _
  | finish state hTerminal hHeld =>
    have hState := ((view.isHeldBy_iff owner).mp hHeld).1
    rw [leaseOf_held hHeld, settleEvent_of_terminal hTerminal, if_pos hState, leaseOf_of_terminal hTerminal rfl]
    exact .finish owner _
  | finishUnleased state hTerminal hPending hRequired hReleased =>
    rw [leaseOf_pending hPending, settleEvent_of_terminal hTerminal, hPending, leaseOf_of_terminal hTerminal rfl]
    exact .finishUnleased owner _ (by simp [hReleased])

theorem moves_settle :
    Moves (leaseOf {owner | released owner = true} (some view))
      (eventAt released key (.settle recipient frame owner requireAcceptance) (some view))
      (leaseOf (lostAfter released key (.settle recipient frame owner requireAcceptance) view)
        (rowAfter released key (.settle recipient frame owner requireAcceptance) (some view))) := by
  by_cases hKey : (⟨frame.messageId, recipient⟩ : MessageKey) = key
  · cases hSettle : view.settle (released owner) frame owner requireAcceptance with
    | none =>
      have hKept : frame.disposition ≠ .deferred ∨ view.isHeldBy owner = false := by
        by_contra hLoses
        simp only [not_or, not_not, Bool.not_eq_false] at hLoses
        obtain ⟨hDeferred, hHeld⟩ := hLoses
        simp [DeliveryView.settle, hDeferred, hHeld] at hSettle
      rw [lostAfter_of_kept (not_losesLease hKept)]
      simp only [eventAt, rowAfter, hKey, hSettle, if_true, Option.map_some, Option.getD_none,
        Option.isSome_none, Bool.false_eq_true, and_false, if_false]
      exact .idle _
    | some after =>
      simp only [eventAt, rowAfter, hKey, hSettle, if_true, Option.map_some, Option.getD_some, Option.isSome_some, and_self]
      exact moves_settled hKey (settle_cases hSettle)
  · have hKept : ∀ other, losesLease key view other (.settle recipient frame owner requireAcceptance) = false := by
      intro other
      simp [losesLease, hKey]
    rw [lostAfter_of_kept hKept]
    simp only [eventAt, rowAfter, hKey, false_and, if_false]
    exact .idle _

theorem moves_releaseOwner :
    Moves (leaseOf {owner | released owner = true} (some view))
      (eventAt released key (.releaseOwner recipient owner) (some view))
      (leaseOf (lostAfter released key (.releaseOwner recipient owner) view)
        (rowAfter released key (.releaseOwner recipient owner) (some view))) := by
  by_cases hHeld : key.recipient = recipient ∧ view.isHeldBy owner = true
  · have hLost : ∀ other, losesLease key view other (.releaseOwner recipient owner) = true ↔ other = owner := by
      intro other
      rw [losesLease_releaseOwner]
      constructor
      · exact fun hLoses => hLoses.2.1.symm
      · rintro rfl
        exact ⟨hHeld.1, rfl, hHeld.2⟩
    rw [lostAfter_of_lost hLost, leaseOf_held hHeld.2, eventAt, if_pos hHeld, rowAfter, if_pos hHeld.1,
      Option.map_some, release, if_pos hHeld.2]
    exact .giveBack owner _
  · have hKept : ∀ other, losesLease key view other (.releaseOwner recipient owner) = false := by
      intro other
      cases hLoses : losesLease key view other (.releaseOwner recipient owner) with
      | false => rfl
      | true =>
        obtain ⟨hKey, rfl, hOther⟩ := losesLease_releaseOwner.mp hLoses
        exact absurd ⟨hKey, hOther⟩ hHeld
    have hRow : rowAfter released key (.releaseOwner recipient owner) (some view) = some view := by
      rw [rowAfter]
      split
      · rename_i hKey
        rw [Option.map_some, release, if_neg (fun hMine => hHeld ⟨hKey, hMine⟩)]
      · rfl
    rw [lostAfter_of_kept hKept, hRow, eventAt, if_neg hHeld]
    exact .idle _

theorem moves_expire (h : view.WellLeased)
    {now : Int} :
    Moves (leaseOf {owner | released owner = true} (some view)) (eventAt released key (.expire now) (some view))
      (leaseOf (lostAfter released key (.expire now) view) (rowAfter released key (.expire now) (some view))) := by
  rw [lostAfter_of_kept (fun _ => rfl)]
  by_cases hTime : view.expiresAt ≤ now
  · have hGone : rowAfter released key (.expire now) (some view) = none := by
      simp [rowAfter, Option.filter_some, not_lt.mpr hTime]
    rw [hGone, eventAt, if_pos hTime]
    by_cases hOpen : view.isOpen = true
    · rw [if_pos hOpen]
      rcases view.isOpen_iff.mp hOpen with hPending | hAccepted
      · rw [leaseOf_pending hPending]
        exact .expireFree _
      · obtain ⟨owner, hHeld⟩ := holder_of_accepted h hAccepted
        rw [leaseOf_held hHeld]
        exact .expireHeld owner _
    · have hClosed : view.isOpen = false := by simpa using hOpen
      rw [if_neg hOpen, leaseOf_closed hClosed]
      exact .purge
  · have hKept : rowAfter released key (.expire now) (some view) = some view := by
      simp [rowAfter, Option.filter_some, not_le.mp hTime]
    rw [hKept, eventAt, if_neg hTime]
    exact .idle _

theorem moves_row {released : String → Bool} {key : MessageKey} {view : DeliveryView} (h : view.WellLeased)
    (op : Op) :
    Moves (leaseOf {owner | released owner = true} (some view)) (eventAt released key op (some view))
      (leaseOf (lostAfter released key op view) (rowAfter released key op (some view))) := by
  cases op with
  | track | pending =>
    rw [lostAfter_of_kept (fun _ => rfl)]
    exact .idle _
  | noteSent messageId recipient now =>
    rw [lostAfter_of_kept (fun _ => rfl), rowAfter]
    split
    · rw [Option.map_some, leaseOf_congr (view.noteSent_state now) (view.noteSent_acceptedOwner now)]
      exact .idle _
    · exact .idle _
  | settle => exact moves_settle
  | releaseOwner => exact moves_releaseOwner
  | expire => exact moves_expire h
  | markUnreported messageId recipient now =>
    rw [lostAfter_of_kept (fun _ => rfl), rowAfter, eventAt]
    by_cases hKey : (⟨messageId, recipient⟩ : MessageKey) = key
    · by_cases hPending : view.state = .pending
      · rw [if_pos hKey, if_pos ⟨hKey, hPending⟩, Option.map_some, leaseOf_pending hPending,
          DeliveryView.markUnreported, if_pos hPending, leaseOf_closed rfl]
        exact .abandon _
      · rw [if_pos hKey, if_neg (fun hBoth => hPending hBoth.2), Option.map_some, DeliveryView.markUnreported,
          if_neg hPending]
        exact .idle _
    · rw [if_neg hKey, if_neg (fun hBoth => hKey hBoth.1)]
      exact .idle _

variable {L : Type} [LawfulLedger L]

def lostOwners (ledger : L) (key : MessageKey) : Set String := {owner | lost ledger key owner = true}

theorem lostOwners_apply {ledger : L} {op : Op} (hRow : rowAt ledger key = some view) (hPresent : rowAt (apply ledger op).1 key ≠ none) :
    lostOwners (apply ledger op).1 key = lostAfter (lost ledger key) key op view := by
  ext owner
  constructor
  · intro hLost
    rcases lost_of_apply ledger op key owner hLost with hBefore | ⟨view', hSame, hLoses⟩
    · exact .inl hBefore
    · rw [hRow] at hSame
      cases hSame
      exact .inr hLoses
  · exact lost_apply ledger op key view owner hRow hPresent

theorem moves_apply (ledger : L) (op : Op) (key : MessageKey) (h : WellLeased ledger) :
    Moves (leaseOf (lostOwners ledger key) (rowAt ledger key))
      (eventAt (lost ledger key) key op (rowAt ledger key))
      (leaseOf (lostOwners (apply ledger op).1 key) (rowAt (apply ledger op).1 key)) := by
  have hAfter := rowAt_apply ledger op key h
  cases hRow : rowAt ledger key with
  | none =>
    rw [hRow] at hAfter
    rw [hAfter, eventAt]
    cases hInserted : rowAfter (lost ledger key) key op none with
    | none => exact .idle _
    | some view =>
      have hState : view.state = .pending := by
        cases op with
        | track message recipient now =>
          rw [rowAfter, Option.none_or] at hInserted
          split at hInserted <;> cases hInserted
          rfl
        | pending | expire => cases hInserted
        | noteSent | settle | releaseOwner | markUnreported =>
          rw [rowAfter] at hInserted
          split at hInserted <;> cases hInserted
      rw [leaseOf_pending hState]
      exact .insert _
  | some view =>
    rw [hRow] at hAfter
    have hMoves := @moves_row (lost ledger key) key view (h key view hRow) op
    cases hPresent : rowAt (apply ledger op).1 key with
    | none =>
      rw [← hAfter, hPresent] at hMoves
      exact hMoves
    | some after =>
      rw [← hAfter, hPresent, ← lostOwners_apply hRow (by simp [hPresent])] at hMoves
      exact hMoves

end CommandSuite.MessageDelivery
