import CommandSuite.Core.MessageDelivery.Ledger

/-! # What a ledger operation does to one row

A ledger is a product of rows: each operation acts on every row by itself and the result of an operation is read off
the rows.
-/

namespace CommandSuite

namespace MessageDelivery

namespace DeliveryView

def isOpen (view : DeliveryView) : Bool := view.state = .pending || view.state = .accepted

/-- The lease columns agree: exactly an accepted row has an owner. -/
def WellLeased (view : DeliveryView) : Prop := view.state = .accepted ↔ view.acceptedOwner ≠ none

def isHeldBy (view : DeliveryView) (owner : String) : Bool := view.state = .accepted && view.acceptedOwner = some owner

theorem isOpen_iff (view : DeliveryView) : view.isOpen = true ↔ view.state = .pending ∨ view.state = .accepted := by
  simp [isOpen]

theorem isHeldBy_iff (view : DeliveryView) (owner : String) :
    view.isHeldBy owner = true ↔ view.state = .accepted ∧ view.acceptedOwner = some owner := by
  simp [isHeldBy]

def tracked (message : Message) (recipient : Name) (now : Int) : DeliveryView where
  message := message
  recipient := recipient
  attempts := 0
  firstSentAt := none
  lastSentAt := none
  expiresAt := now + MESSAGE_DELIVERY_TTL_MS
  state := .pending
  acceptedOwner := none

def noteSent (now : Int) (view : DeliveryView) : DeliveryView :=
  if view.state = .pending then
    { view with
      attempts := view.attempts + 1
      firstSentAt := some (view.firstSentAt.getD now)
      lastSentAt := some now }
  else view

def settle (released : Bool) (frame : MessageDispositionFrame) (owner : String)
    (requireAcceptance : Bool) (view : DeliveryView) : Option DeliveryView :=
  match frame.disposition with
  | .accepted =>
    if view.state = .pending then some { view with state := .accepted, acceptedOwner := some owner }
    else none
  | .deferred =>
    if view.state = .pending || view.isHeldBy owner then
      some { view with state := .pending, acceptedOwner := none }
    else none
  | .acted | .handled | .refused =>
    if view.isHeldBy owner || view.state = .pending && !requireAcceptance && !released then
      (Terminal frame.disposition).map fun state => { view with state := state, acceptedOwner := none }
    else none

def release (owner : String) (view : DeliveryView) : DeliveryView :=
  if view.isHeldBy owner then { view with state := .pending, acceptedOwner := none } else view

def markUnreported (view : DeliveryView) : DeliveryView :=
  if view.state = .pending then { view with state := .unreported } else view

@[simp] theorem noteSent_state (now : Int) (view : DeliveryView) : (view.noteSent now).state = view.state := by
  unfold noteSent
  split <;> rfl

variable {frame : MessageDispositionFrame} {owner : String} {requireAcceptance : Bool} {view after : DeliveryView}

@[simp] theorem noteSent_acceptedOwner (now : Int) (view : DeliveryView) :
    (view.noteSent now).acceptedOwner = view.acceptedOwner := by
  unfold noteSent
  split <;> rfl

theorem settle_toPending {released : Bool} (h : view.settle released frame owner requireAcceptance = some after) :
    after.toPendingMessageDelivery = view.toPendingMessageDelivery := by
  unfold settle at h
  split at h <;> split at h
  case h_1.isTrue | h_2.isTrue => cases h; rfl
  case h_3.isTrue | h_4.isTrue | h_5.isTrue =>
    obtain ⟨state, _, rfl⟩ := Option.map_eq_some_iff.mp h
    rfl
  all_goals cases h

@[simp] theorem release_toPending (owner : String) (view : DeliveryView) :
    (view.release owner).toPendingMessageDelivery = view.toPendingMessageDelivery := by
  unfold release
  split <;> rfl

@[simp] theorem markUnreported_toPending (view : DeliveryView) :
    view.markUnreported.toPendingMessageDelivery = view.toPendingMessageDelivery := by
  unfold markUnreported
  split <;> rfl

theorem WellLeased.settle {released : Bool} (h : view.settle released frame owner requireAcceptance = some after) : after.WellLeased := by
  unfold DeliveryView.settle at h
  split at h <;> split at h
  case h_1.isTrue | h_2.isTrue => cases h; simp [WellLeased]
  case h_3.isTrue hd _ | h_4.isTrue hd _ | h_5.isTrue hd _ =>
    rw [hd] at h
    cases h
    simp [WellLeased]
  all_goals cases h

variable {view : DeliveryView}

theorem WellLeased.release (h : view.WellLeased) (owner : String) : (view.release owner).WellLeased := by
  unfold DeliveryView.release
  split
  · simp [WellLeased]
  · exact h

theorem WellLeased.markUnreported (h : view.WellLeased) : view.markUnreported.WellLeased := by
  unfold DeliveryView.markUnreported
  split
  · rename_i hPending
    simp only [WellLeased, hPending] at h ⊢
    simpa using h
  · exact h

theorem WellLeased.noteSent (h : view.WellLeased) (now : Int) : (view.noteSent now).WellLeased := by
  simpa [WellLeased] using h

end DeliveryView

def rowAfter (released : String → Bool) (key : MessageKey) : Op → Option DeliveryView → Option DeliveryView
  | .track message recipient now, row =>
    row.or (if ⟨message.id, recipient⟩ = key then some (.tracked message recipient now) else none)
  | .noteSent messageId recipient now, row =>
    if ⟨messageId, recipient⟩ = key then row.map (.noteSent now) else row
  | .settle recipient frame owner requireAcceptance, row =>
    if ⟨frame.messageId, recipient⟩ = key then
      row.map fun view => (view.settle (released owner) frame owner requireAcceptance).getD view
    else row
  | .releaseOwner recipient owner, row => if key.recipient = recipient then row.map (.release owner) else row
  | .pending _ _, row => row
  | .expire now, row => row.filter fun view => now < view.expiresAt
  | .markUnreported messageId recipient _, row =>
    if ⟨messageId, recipient⟩ = key then row.map .markUnreported else row

variable {released : String → Bool} {key : MessageKey}

theorem trackedKey_of_inserted {op : Op}
    (h : rowAfter released key op none ≠ none) : trackedKey op = some key := by
  cases op with
  | track message recipient now =>
    rw [rowAfter, Option.none_or] at h
    split at h
    · rename_i hKey
      exact congrArg some hKey
    · exact absurd rfl h
  | pending | expire => exact absurd rfl h
  | noteSent | settle | releaseOwner | markUnreported =>
    rw [rowAfter] at h
    split at h <;> exact absurd rfl h

theorem rowAfter_of_not_tracked {op : Op}
    (h : trackedKey op ≠ some key) : rowAfter released key op none = none := by
  by_contra hRow
  exact h (trackedKey_of_inserted hRow)

def losesLease (key : MessageKey) (view : DeliveryView) (owner : String) : Op → Bool
  | .settle recipient frame from_ _ =>
    ⟨frame.messageId, recipient⟩ = key && frame.disposition = .deferred && from_ = owner && view.isHeldBy owner
  | .releaseOwner recipient from_ => key.recipient = recipient && from_ = owner && view.isHeldBy owner
  | _ => false

variable {L : Type} [MessageDeliveryLedger L]

open MessageDeliveryLedger (rowAt)

/-- The result of an operation, from the rows before it. Only the order of rows that carry the
same message timestamp is left open. -/
def resultFrom (lost : L → MessageKey → String → Bool) (ledger : L) : Op → Result → Prop
  | .settle recipient frame owner requireAcceptance, .settled row =>
    let key : MessageKey := ⟨frame.messageId, recipient⟩
    row = ((rowAt ledger key).bind fun view =>
      view.settle (lost ledger key owner) frame owner requireAcceptance).map
        DeliveryView.toPendingMessageDelivery
  | .releaseOwner recipient owner, .released count =>
    ∃ keys : List MessageKey, keys.Nodup ∧ keys.length = count ∧ ∀ key, key ∈ keys ↔
      key.recipient = recipient ∧ ∃ view, rowAt ledger key = some view ∧ view.isHeldBy owner = true
  | .pending recipient now, .rows rows =>
    (rows.map keyOf).Nodup ∧ rows.Pairwise (fun a b => a.message.ts ≤ b.message.ts) ∧
      ∀ row, row ∈ rows ↔ row.recipient = recipient ∧ now < row.expiresAt ∧
        ∃ view, rowAt ledger (keyOf row) = some view ∧ view.state = .pending ∧ view.toPendingMessageDelivery = row
  | .expire now, .expired rows =>
    (rows.map fun row => keyOf row.toPendingMessageDelivery).Nodup ∧
      ∀ row, row ∈ rows ↔ row.sender = row.message.fromName ∧ row.expiresAt ≤ now ∧
        ∃ view, rowAt ledger (keyOf row.toPendingMessageDelivery) = some view ∧ view.isOpen = true ∧
          view.toPendingMessageDelivery = row.toPendingMessageDelivery
  | .track _ _ _, .unit | .noteSent _ _ _, .unit | .markUnreported _ _ _, .unit => True
  | _, _ => False

end MessageDelivery

open MessageDelivery MessageDeliveryLedger

def WellLeased {L : Type} [MessageDeliveryLedger L] (ledger : L) : Prop :=
  ∀ key view, rowAt ledger key = some view → view.WellLeased

/-- A ledger whose operations act row by row. `lost` is its memory of the owners that gave a lease
back; what it remembers of a key without a row is left open. -/
class LawfulLedger (L : Type) extends MessageDeliveryLedger L where
  empty : L
  lost : L → MessageKey → String → Bool
  rowAt_empty : ∀ key, rowAt empty key = none
  lost_empty : ∀ key owner, lost empty key owner = false
  keyOf_rowAt : ∀ ledger key view, rowAt ledger key = some view → keyOf view.toPendingMessageDelivery = key
  rowAt_apply : ∀ ledger op key, WellLeased ledger →
    rowAt (apply ledger op).1 key = rowAfter (lost ledger key) key op (rowAt ledger key)
  result_apply : ∀ ledger op, WellLeased ledger → resultFrom lost ledger op (apply ledger op).2
  lost_of_apply : ∀ ledger op key owner, lost (apply ledger op).1 key owner = true →
    lost ledger key owner = true ∨ ∃ view, rowAt ledger key = some view ∧ losesLease key view owner op = true
  lost_apply : ∀ ledger op key view owner, rowAt ledger key = some view →
    rowAt (apply ledger op).1 key ≠ none →
    lost ledger key owner = true ∨ losesLease key view owner op = true →
    lost (apply ledger op).1 key owner = true

namespace MessageDelivery

variable {L : Type} [LawfulLedger L]

theorem wellLeased_empty : WellLeased (LawfulLedger.empty : L) := by
  intro key view h
  rw [LawfulLedger.rowAt_empty] at h
  cases h

theorem rowAfter_wellLeased {released : String → Bool} {key : MessageKey} {op : Op}
    {row : Option DeliveryView} (hRow : ∀ view, row = some view → view.WellLeased) {after : DeliveryView}
    (h : rowAfter released key op row = some after) : after.WellLeased := by
  cases op with
  | track message recipient now =>
    cases row with
    | some view => exact hRow after h
    | none =>
      rw [rowAfter, Option.none_or] at h
      split at h <;> cases h
      simp [DeliveryView.WellLeased, DeliveryView.tracked]
  | noteSent =>
    rw [rowAfter] at h
    split at h
    · obtain ⟨view, hView, rfl⟩ := Option.map_eq_some_iff.mp h
      exact (hRow view hView).noteSent _
    · exact hRow after h
  | settle recipient frame owner requireAcceptance =>
    rw [rowAfter] at h
    split at h
    · obtain ⟨view, hView, rfl⟩ := Option.map_eq_some_iff.mp h
      cases hSettle : view.settle (released owner) frame owner requireAcceptance with
      | none => exact hRow view hView
      | some settled => exact DeliveryView.WellLeased.settle hSettle
    · exact hRow after h
  | releaseOwner =>
    rw [rowAfter] at h
    split at h
    · obtain ⟨view, hView, rfl⟩ := Option.map_eq_some_iff.mp h
      exact (hRow view hView).release _
    · exact hRow after h
  | pending => exact hRow after h
  | expire =>
    rw [rowAfter, Option.filter_eq_some_iff] at h
    exact hRow after h.1
  | markUnreported =>
    rw [rowAfter] at h
    split at h
    · obtain ⟨view, hView, rfl⟩ := Option.map_eq_some_iff.mp h
      exact (hRow view hView).markUnreported
    · exact hRow after h

theorem wellLeased_apply (ledger : L) (op : Op) (h : WellLeased ledger) : WellLeased (apply ledger op).1 := by
  intro key view hView
  rw [LawfulLedger.rowAt_apply ledger op key h] at hView
  exact rowAfter_wellLeased (h key) hView

end MessageDelivery

end CommandSuite
