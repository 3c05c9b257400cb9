import CommandSuite.Core.MessageDelivery.Rows
import CommandSuite.Library.Table
import CommandSuite.Library.Text
import Mathlib.Data.Finset.Insert
import Mathlib.Data.List.Sort

/-! # `InMemoryMessageDeliveryLedger`

A JavaScript map from `messageId\u0000recipient` to a mutable row, in insertion order. A row's
key is computed from the row. It determines both parts, because a member name has no NUL.
-/

namespace CommandSuite

open MessageDelivery Library

structure MemoryRow extends PendingMessageDelivery where
  state : DeliveryState
  acceptedOwner : Option String
  releasedOwners : Finset String
  dispositionAt : Option Int
  reason : Option DispositionReason

namespace InMemoryMessageDeliveryLedger

def key (messageId : String) (recipient : Name) : String := messageId ++ "\u0000" ++ recipient.text

abbrev rowKey (row : MemoryRow) : String := key row.message.id row.recipient

variable {messageId messageId' : String} {recipient recipient' : Name}

theorem key_injective (h : key messageId recipient = key messageId' recipient') :
    messageId = messageId' ∧ recipient = recipient' := by
  have hChars : messageId.toList ++ '\u0000' :: recipient.text.toList =
      messageId'.toList ++ '\u0000' :: recipient'.text.toList := by
    simpa [key] using congrArg String.toList h
  -- The last NUL of the key separates the two parts.
  have hReverse := congrArg List.reverse hChars
  simp only [List.reverse_append, List.reverse_cons, List.append_assoc, List.singleton_append] at hReverse
  have hNoNul : ∀ name : Name, '\u0000' ∉ name.text.toList.reverse := by
    intro name
    rw [List.mem_reverse]
    exact name.not_mem_of_not_nameCharacter (by decide)
  obtain ⟨hName, hRest⟩ := Text.append_cons_inj (hNoNul recipient) (hNoNul recipient') hReverse
  have hName' := String.toList_inj.mp (List.reverse_injective hName)
  exact ⟨String.toList_inj.mp (List.reverse_injective hRest), Name.ext hName'⟩

theorem key_eq_iff :
    key messageId recipient = key messageId' recipient' ↔ (⟨messageId, recipient⟩ : MessageKey) = ⟨messageId', recipient'⟩ := by
  constructor
  · intro h
    obtain ⟨rfl, rfl⟩ := key_injective h
    rfl
  · intro h
    cases h
    rfl

end InMemoryMessageDeliveryLedger

structure InMemoryMessageDeliveryLedger where
  rows : Table InMemoryMessageDeliveryLedger.rowKey

namespace InMemoryMessageDeliveryLedger

/-- Mutation of the row that `rows.get(key)` returns, if there is one and it meets the guard. -/
def mutate (ledger : InMemoryMessageDeliveryLedger) (messageId : String) (recipient : Name)
    (guard : MemoryRow → Bool) (f : MemoryRow → MemoryRow) (keeps : ∀ row, rowKey (f row) = rowKey row) :
    InMemoryMessageDeliveryLedger :=
  ⟨ledger.rows.update (fun row => decide (rowKey row = key messageId recipient) && guard row) f keeps⟩

def get (ledger : InMemoryMessageDeliveryLedger) (messageId : String) (recipient : Name) :
    Option MemoryRow :=
  ledger.rows.find (key messageId recipient)

def track (message : Message) (recipient : Name) (now : Int) (ledger : InMemoryMessageDeliveryLedger) :
    InMemoryMessageDeliveryLedger :=
  ⟨ledger.rows.insertOrIgnore
    { message := message
      recipient := recipient
      state := .pending
      acceptedOwner := none
      releasedOwners := ∅
      attempts := 0
      firstSentAt := none
      lastSentAt := none
      dispositionAt := none
      reason := none
      expiresAt := now + MESSAGE_DELIVERY_TTL_MS }⟩

def noteSent (messageId : String) (recipient : Name) (now : Int) (ledger : InMemoryMessageDeliveryLedger) :
    InMemoryMessageDeliveryLedger :=
  ledger.mutate messageId recipient (fun row => row.state = .pending)
    (fun row => { row with
      attempts := row.attempts + 1
      firstSentAt := some (row.firstSentAt.getD now)
      lastSentAt := some now })
    (fun _ => rfl)

/-- The early returns and assignments of `settle` on the row it found. -/
def settleRow (frame : MessageDispositionFrame) (owner : String) (requireAcceptance : Bool)
    (row : MemoryRow) : Option MemoryRow :=
  match frame.disposition with
  | .accepted =>
    if row.state ≠ .pending then none
    else some { row with state := .accepted, acceptedOwner := some owner, reason := none }
  | .deferred =>
    if row.state = .accepted ∧ row.acceptedOwner ≠ some owner then none
    else if row.state ≠ .pending ∧ row.state ≠ .accepted then none
    else
      some { row with
        releasedOwners := if row.state = .accepted then insert owner row.releasedOwners else row.releasedOwners
        state := .pending
        acceptedOwner := none
        reason := frame.reason }
  | .acted | .handled | .refused =>
    if row.state = .accepted then
      if row.acceptedOwner ≠ some owner then none else finish frame row
    else if row.state ≠ .pending ∨ requireAcceptance ∨ owner ∈ row.releasedOwners then none
    else finish frame row
where
  finish (frame : MessageDispositionFrame) (row : MemoryRow) : Option MemoryRow :=
    (Terminal frame.disposition).map fun state =>
      { row with state := state, acceptedOwner := none, dispositionAt := some frame.at_, reason := frame.reason }

theorem settleRow_toPending {frame : MessageDispositionFrame} {owner : String} {requireAcceptance : Bool}
    {row after : MemoryRow} (h : settleRow frame owner requireAcceptance row = some after) :
    after.toPendingMessageDelivery = row.toPendingMessageDelivery := by
  have hFinish : ∀ {result : MemoryRow}, settleRow.finish frame row = some result →
      result.toPendingMessageDelivery = row.toPendingMessageDelivery := by
    intro result hResult
    obtain ⟨state, _, rfl⟩ := Option.map_eq_some_iff.mp hResult
    rfl
  unfold settleRow at h
  split at h <;> repeat' split at h
  all_goals first
    | exact hFinish h
    | cases h <;> rfl

def settle (recipient : Name) (frame : MessageDispositionFrame) (owner : String) (requireAcceptance : Bool)
    (ledger : InMemoryMessageDeliveryLedger) :
    Option PendingMessageDelivery × InMemoryMessageDeliveryLedger :=
  match (ledger.get frame.messageId recipient).bind (settleRow frame owner requireAcceptance) with
  | none => (none, ledger)
  | some after =>
    (some after.toPendingMessageDelivery,
      ledger.mutate frame.messageId recipient (fun _ => true)
        (fun row => (settleRow frame owner requireAcceptance row).getD row) (by
          intro row
          cases hRow : settleRow frame owner requireAcceptance row with
          | none => rfl
          | some settled => simp [rowKey, settleRow_toPending hRow]))

def releases (recipient : Name) (owner : String) (row : MemoryRow) : Bool :=
  row.recipient = recipient && row.state = .accepted && row.acceptedOwner = some owner

def releaseOwner (recipient : Name) (owner : String) (ledger : InMemoryMessageDeliveryLedger) :
    Nat × InMemoryMessageDeliveryLedger :=
  (ledger.rows.changes (releases recipient owner),
    ⟨ledger.rows.update (releases recipient owner)
      (fun row => { row with
        state := .pending
        acceptedOwner := none
        releasedOwners := insert owner row.releasedOwners })
      (fun _ => rfl)⟩)

def pending (recipient : Name) (now : Int) (ledger : InMemoryMessageDeliveryLedger) :
    List PendingMessageDelivery :=
  ((ledger.rows.select fun row => row.recipient = recipient && row.state = .pending && now < row.expiresAt).map
    MemoryRow.toPendingMessageDelivery).insertionSort fun a b => a.message.ts ≤ b.message.ts

def expires (now : Int) (row : MemoryRow) : Bool := (row.state = .pending || row.state = .accepted) && row.expiresAt ≤ now

/-- Both loops of `expire`: the first refuses what is still open, the second deletes. -/
def expire (now : Int) (ledger : InMemoryMessageDeliveryLedger) :
    List ExpiredMessageDelivery × InMemoryMessageDeliveryLedger :=
  ((ledger.rows.select (expires now)).map fun row =>
      { row.toPendingMessageDelivery with sender := row.message.fromName },
    ⟨(ledger.rows.update (expires now)
        (fun row => { row with state := .refused, dispositionAt := some now, reason := some expiredReason })
        (fun _ => rfl)).delete
      fun row => row.state ≠ .pending && row.expiresAt ≤ now⟩)

def markUnreported (messageId : String) (recipient : Name) (now : Int)
    (ledger : InMemoryMessageDeliveryLedger) : InMemoryMessageDeliveryLedger :=
  ledger.mutate messageId recipient (fun row => row.state = .pending)
    (fun row => { row with state := .unreported, dispositionAt := some now })
    (fun _ => rfl)

def view (row : MemoryRow) : DeliveryView :=
  { row.toPendingMessageDelivery with state := row.state, acceptedOwner := row.acceptedOwner }

instance : MessageDeliveryLedger InMemoryMessageDeliveryLedger where
  track := track
  noteSent := noteSent
  settle := settle
  releaseOwner := releaseOwner
  pending := pending
  expire := expire
  markUnreported := markUnreported
  rowAt ledger key := (ledger.get key.messageId key.recipient).map view

def lost (ledger : InMemoryMessageDeliveryLedger) (key : MessageKey) (owner : String) : Bool :=
  match ledger.get key.messageId key.recipient with
  | none => false
  | some row => owner ∈ row.releasedOwners

end InMemoryMessageDeliveryLedger

end CommandSuite

/-! ## The in-memory ledger acts row by row -/

namespace CommandSuite.InMemoryMessageDeliveryLedger

open MessageDelivery Library MessageDeliveryLedger

variable {ledger : InMemoryMessageDeliveryLedger} {key : MessageKey} {row : MemoryRow}

theorem keyOf_get
    (h : ledger.get key.messageId key.recipient = some row) : keyOf row.toPendingMessageDelivery = key := by
  have hKey : rowKey row = InMemoryMessageDeliveryLedger.key key.messageId key.recipient := Table.key_of_find h
  exact key_eq_iff.mp hKey

theorem rowAt_eq (ledger : InMemoryMessageDeliveryLedger) (key : MessageKey) :
    rowAt ledger key = (ledger.get key.messageId key.recipient).map view := rfl

theorem get_of_rowAt {v : DeliveryView}
    (h : rowAt ledger key = some v) : ∃ row, ledger.get key.messageId key.recipient = some row ∧ view row = v :=
  Option.map_eq_some_iff.mp h

theorem get_mutate (ledger : InMemoryMessageDeliveryLedger) (messageId : String) (recipient : Name)
    (guard : MemoryRow → Bool) (f : MemoryRow → MemoryRow) (keeps : ∀ row, rowKey (f row) = rowKey row)
    (key : MessageKey) :
    (ledger.mutate messageId recipient guard f keeps).get key.messageId key.recipient =
      if ⟨messageId, recipient⟩ = key then
        (ledger.get key.messageId key.recipient).map fun row => if guard row then f row else row
      else ledger.get key.messageId key.recipient := by
  rw [get, mutate, Table.find_update, ← get]
  cases hGet : ledger.get key.messageId key.recipient with
  | none => simp
  | some row =>
    have hKey : decide (rowKey row = InMemoryMessageDeliveryLedger.key messageId recipient) =
        decide ((⟨messageId, recipient⟩ : MessageKey) = key) := by
      rw [decide_eq_decide, key_eq_iff, ← keyOf_get hGet]
      exact eq_comm
    rw [Option.map_some, hKey]
    by_cases h : (⟨messageId, recipient⟩ : MessageKey) = key <;> simp [h]

theorem get_settle (ledger : InMemoryMessageDeliveryLedger) (recipient : Name)
    (frame : MessageDispositionFrame) (owner : String) (requireAcceptance : Bool) (key : MessageKey) :
    (settle recipient frame owner requireAcceptance ledger).2.get key.messageId key.recipient =
      if ⟨frame.messageId, recipient⟩ = key then
        (ledger.get key.messageId key.recipient).map fun row =>
          (settleRow frame owner requireAcceptance row).getD row
      else ledger.get key.messageId key.recipient := by
  unfold settle
  split
  · rename_i hNone
    split
    · rename_i hKey
      subst hKey
      cases hGet : ledger.get frame.messageId recipient with
      | none => rfl
      | some row =>
        rw [hGet, Option.bind_some] at hNone
        simp [hNone]
    · rfl
  · rw [get_mutate]
    simp

theorem view_settleRow (row : MemoryRow) (frame : MessageDispositionFrame) (owner : String)
    (requireAcceptance : Bool) :
    (settleRow frame owner requireAcceptance row).map view =
      (view row).settle (owner ∈ row.releasedOwners) frame owner requireAcceptance := by
  unfold settleRow DeliveryView.settle
  cases hDisposition : frame.disposition with
  | accepted => by_cases hState : row.state = .pending <;> simp [view, hState]
  | deferred =>
    by_cases hAccepted : row.state = .accepted
    · by_cases hOwner : row.acceptedOwner = some owner <;>
        simp [view, DeliveryView.isHeldBy, hAccepted, hOwner]
    · by_cases hState : row.state = .pending <;> simp [view, DeliveryView.isHeldBy, hAccepted, hState]
  | acted | handled | refused =>
    by_cases hAccepted : row.state = .accepted
    · by_cases hOwner : row.acceptedOwner = some owner <;>
        simp [view, DeliveryView.isHeldBy, hAccepted, hOwner, settleRow.finish, Terminal, hDisposition]
    · by_cases hState : row.state = .pending <;> cases requireAcceptance <;>
        by_cases hReleased : owner ∈ row.releasedOwners <;>
        simp [view, DeliveryView.isHeldBy, hState, hReleased, hAccepted, settleRow.finish, Terminal, hDisposition]

theorem rowAt_apply (ledger : InMemoryMessageDeliveryLedger) (op : Op) (key : MessageKey) :
    rowAt (apply ledger op).1 key = rowAfter (lost ledger key) key op (rowAt ledger key) := by
  cases op with
  | track message recipient now =>
    change ((track message recipient now ledger).get key.messageId key.recipient).map view = _
    rw [track, get, Table.find_insertOrIgnore, ← get, rowAfter, rowAt_eq]
    have hKey : rowKey ⟨⟨message, recipient, 0, none, none, now + MESSAGE_DELIVERY_TTL_MS⟩, .pending, none, ∅,
        none, none⟩ = InMemoryMessageDeliveryLedger.key key.messageId key.recipient ↔
        (⟨message.id, recipient⟩ : MessageKey) = key := key_eq_iff
    cases ledger.get key.messageId key.recipient with
    | some row => rfl
    | none =>
      simp only [Option.none_or, hKey, Option.map_none]
      split <;> rfl
  | noteSent messageId recipient now =>
    change ((noteSent messageId recipient now ledger).get key.messageId key.recipient).map view = _
    rw [noteSent, get_mutate, rowAfter, rowAt_eq]
    split
    · rw [Option.map_map, Option.map_map]
      congr 1
      funext row
      by_cases hState : row.state = .pending <;> simp [view, DeliveryView.noteSent, hState]
    · rfl
  | settle recipient frame owner requireAcceptance =>
    change ((settle recipient frame owner requireAcceptance ledger).2.get key.messageId key.recipient).map view = _
    rw [get_settle, rowAfter, rowAt_eq]
    split
    · cases hGet : ledger.get key.messageId key.recipient with
      | none => rfl
      | some row =>
        have hLost : lost ledger key owner = decide (owner ∈ row.releasedOwners) := by simp [lost, hGet]
        simp only [Option.map_some, hLost, ← view_settleRow]
        cases settleRow frame owner requireAcceptance row <;> rfl
    · rfl
  | releaseOwner recipient owner =>
    change ((releaseOwner recipient owner ledger).2.get key.messageId key.recipient).map view = _
    rw [releaseOwner, get, Table.find_update, ← get, rowAfter, rowAt_eq]
    cases hGet : ledger.get key.messageId key.recipient with
    | none => simp
    | some row =>
      have hRecipient : row.recipient = key.recipient := congrArg MessageKey.recipient (keyOf_get hGet)
      simp only [Option.map_some, releases, hRecipient, DeliveryView.release, DeliveryView.isHeldBy, view]
      by_cases hKey : key.recipient = recipient <;>
        by_cases hHeld : row.state = .accepted ∧ row.acceptedOwner = some owner <;> simp [hKey, hHeld]
  | pending => rfl
  | expire now =>
    change ((expire now ledger).2.get key.messageId key.recipient).map view = _
    rw [expire, get, Table.find_delete, Table.find_update, ← get, rowAfter, rowAt_eq]
    cases ledger.get key.messageId key.recipient with
    | none => rfl
    | some row =>
      by_cases hTime : row.expiresAt ≤ now
      · cases hState : row.state <;> simp [expires, view, hState, hTime, Option.filter_some]
      · simp [expires, view, hTime, Option.filter_some, not_le.mp hTime]
  | markUnreported messageId recipient now =>
    change ((markUnreported messageId recipient now ledger).get key.messageId key.recipient).map view = _
    rw [markUnreported, get_mutate, rowAfter, rowAt_eq]
    split
    · rw [Option.map_map, Option.map_map]
      congr 1
      funext row
      by_cases hState : row.state = .pending <;> simp [view, DeliveryView.markUnreported, hState]
    · rfl

theorem nodup_keys {rows : List MemoryRow} (h : (rows.map rowKey).Nodup) :
    (rows.map fun row => keyOf row.toPendingMessageDelivery).Nodup := by
  refine List.Nodup.of_map (fun k : MessageKey => InMemoryMessageDeliveryLedger.key k.messageId k.recipient) ?_
  rw [List.map_map]
  exact h

theorem nodup_keys_select (ledger : InMemoryMessageDeliveryLedger) (p : MemoryRow → Bool) :
    ((ledger.rows.select p).map fun row => keyOf row.toPendingMessageDelivery).Nodup :=
  nodup_keys (ledger.rows.nodup.sublist (List.filter_sublist.map rowKey))

theorem mem_select_iff (ledger : InMemoryMessageDeliveryLedger) (p : MemoryRow → Bool) (row : MemoryRow) :
    row ∈ ledger.rows.select p ↔ ledger.get row.message.id row.recipient = some row ∧ p row = true :=
  Table.mem_select_iff_find ledger.rows p row

theorem settle_fst (ledger : InMemoryMessageDeliveryLedger) (recipient : Name)
    (frame : MessageDispositionFrame) (owner : String) (requireAcceptance : Bool) :
    (settle recipient frame owner requireAcceptance ledger).1 =
      ((ledger.get frame.messageId recipient).bind (settleRow frame owner requireAcceptance)).map
        MemoryRow.toPendingMessageDelivery := by
  unfold settle
  cases (ledger.get frame.messageId recipient).bind (settleRow frame owner requireAcceptance) <;> rfl

theorem result_apply (ledger : InMemoryMessageDeliveryLedger) (op : Op) : resultFrom lost ledger op (apply ledger op).2 := by
  cases op with
  | track => trivial
  | noteSent => trivial
  | settle recipient frame owner requireAcceptance =>
    change (settle recipient frame owner requireAcceptance ledger).1 = _
    rw [settle_fst, rowAt_eq]
    cases hGet : ledger.get frame.messageId recipient with
    | none => rfl
    | some row =>
      have hLost : lost ledger ⟨frame.messageId, recipient⟩ owner = decide (owner ∈ row.releasedOwners) := by
        simp [lost, hGet]
      rw [Option.bind_some, Option.map_some, Option.bind_some, hLost, ← view_settleRow, Option.map_map]
      rfl
  | releaseOwner recipient owner =>
    refine ⟨(ledger.rows.select (releases recipient owner)).map fun row => keyOf row.toPendingMessageDelivery,
      nodup_keys_select ledger _, List.length_map _, ?_⟩
    intro key
    constructor
    · rintro hKey
      obtain ⟨row, hRow, rfl⟩ := List.mem_map.mp hKey
      obtain ⟨hGet, hReleases⟩ := (mem_select_iff ledger _ row).mp hRow
      simp only [releases, Bool.and_eq_true, decide_eq_true_eq] at hReleases
      obtain ⟨⟨hRecipient, hState⟩, hOwner⟩ := hReleases
      refine ⟨hRecipient, view row, ?_, ?_⟩
      · rw [rowAt_eq]
        simp only [keyOf, hGet, Option.map_some]
      · simp [DeliveryView.isHeldBy, view, hState, hOwner]
    · rintro ⟨rfl, v, hRow, hHeld⟩
      obtain ⟨row, hGet, rfl⟩ := get_of_rowAt hRow
      have hKey := keyOf_get hGet
      refine List.mem_map.mpr ⟨row, (mem_select_iff ledger _ row).mpr ⟨?_, ?_⟩, hKey⟩
      · subst hKey
        exact hGet
      · have hRecipient : row.recipient = key.recipient := congrArg MessageKey.recipient hKey
        obtain ⟨hState, hOwner⟩ := (DeliveryView.isHeldBy_iff _ owner).mp hHeld
        simp only [view] at hState hOwner
        simp [releases, hRecipient, hState, hOwner]
  | pending recipient now =>
    have hPerm := List.perm_insertionSort (fun a b : PendingMessageDelivery => a.message.ts ≤ b.message.ts)
      ((ledger.rows.select fun row =>
        row.recipient = recipient && row.state = .pending && now < row.expiresAt).map
          MemoryRow.toPendingMessageDelivery)
    refine ⟨?_, ?_, ?_⟩
    · refine (hPerm.map keyOf).nodup_iff.mpr ?_
      rw [List.map_map]
      exact nodup_keys_select ledger _
    · exact List.pairwise_insertionSort (fun a b : PendingMessageDelivery => a.message.ts ≤ b.message.ts) _
    · intro delivery
      refine Iff.trans hPerm.mem_iff (List.mem_map.trans ?_)
      constructor
      · rintro ⟨row, hRow, rfl⟩
        obtain ⟨hGet, hRow⟩ := (mem_select_iff ledger _ row).mp hRow
        simp only [Bool.and_eq_true, decide_eq_true_eq] at hRow
        obtain ⟨⟨hRecipient, hState⟩, hTime⟩ := hRow
        refine ⟨hRecipient, hTime, view row, ?_, hState, rfl⟩
        rw [rowAt_eq]
        simp only [keyOf, hGet, Option.map_some]
      · rintro ⟨rfl, hTime, v, hRow, hState, rfl⟩
        obtain ⟨row, hGet, rfl⟩ := get_of_rowAt hRow
        refine ⟨row, (mem_select_iff ledger _ row).mpr ⟨hGet, ?_⟩, rfl⟩
        simpa [view] using ⟨hState, hTime⟩
  | expire now =>
    refine ⟨?_, ?_⟩
    · change (((ledger.rows.select (expires now)).map fun row =>
        ExpiredMessageDelivery.mk row.toPendingMessageDelivery row.message.fromName).map _).Nodup
      rw [List.map_map]
      exact nodup_keys_select ledger _
    · intro delivery
      refine Iff.trans List.mem_map ?_
      constructor
      · rintro ⟨row, hRow, rfl⟩
        obtain ⟨hGet, hExpires⟩ := (mem_select_iff ledger _ row).mp hRow
        simp only [expires, Bool.and_eq_true, decide_eq_true_eq] at hExpires
        refine ⟨rfl, hExpires.2, view row, ?_, hExpires.1, rfl⟩
        rw [rowAt_eq]
        simp only [keyOf, hGet, Option.map_some]
      · rintro ⟨hSender, hTime, v, hRow, hOpen, hEq⟩
        obtain ⟨row, hGet, rfl⟩ := get_of_rowAt hRow
        have hPending : row.toPendingMessageDelivery = delivery.toPendingMessageDelivery := hEq
        refine ⟨row, (mem_select_iff ledger _ row).mpr ⟨?_, ?_⟩, ?_⟩
        · rw [show row.message = delivery.message from congrArg PendingMessageDelivery.message hPending,
            show row.recipient = delivery.recipient from congrArg PendingMessageDelivery.recipient hPending]
          exact hGet
        · rw [show delivery.expiresAt = row.expiresAt from
            (congrArg PendingMessageDelivery.expiresAt hPending).symm] at hTime
          have hState := (DeliveryView.isOpen_iff _).mp hOpen
          simp only [view] at hState
          simpa [expires, hTime] using hState
        · obtain ⟨pending, sender⟩ := delivery
          obtain rfl : row.toPendingMessageDelivery = pending := hPending
          obtain rfl : sender = row.message.fromName := hSender
          rfl
  | markUnreported => trivial

theorem releasedOwners_settleRow (row : MemoryRow) (frame : MessageDispositionFrame) (owner : String)
    (requireAcceptance : Bool) (other : String) :
    other ∈ ((settleRow frame owner requireAcceptance row).getD row).releasedOwners ↔
      other ∈ row.releasedOwners ∨ frame.disposition = .deferred ∧ owner = other ∧ (view row).isHeldBy owner = true := by
  have hFinish : ((settleRow.finish frame row).getD row).releasedOwners = row.releasedOwners := by
    unfold settleRow.finish
    cases Terminal frame.disposition <;> rfl
  rw [DeliveryView.isHeldBy_iff]
  unfold settleRow
  cases hDisposition : frame.disposition with
  | accepted =>
    simp only [reduceCtorEq, false_and, or_false]
    split <;> rfl
  | deferred =>
    by_cases hState : row.state = .accepted
    · by_cases hOwner : row.acceptedOwner = some owner
      · simp [view, hState, hOwner, or_comm, eq_comm]
      · simp [view, hState, hOwner]
    · by_cases hPending : row.state = .pending <;> simp [view, hState, hPending]
  | acted | handled | refused =>
    simp only [reduceCtorEq, false_and, or_false]
    split <;> split <;> simp [hFinish]

theorem lost_eq
    (h : ledger.get key.messageId key.recipient = some row) (owner : String) :
    lost ledger key owner = true ↔ owner ∈ row.releasedOwners := by
  simp [lost, h]

theorem get_of_lost {owner : String}
    (h : lost ledger key owner = true) :
    ∃ row, ledger.get key.messageId key.recipient = some row ∧ owner ∈ row.releasedOwners := by
  unfold lost at h
  split at h
  · cases h
  · rename_i row hGet
    exact ⟨row, hGet, by simpa using h⟩

theorem lost_apply_iff {op : Op} {row after : MemoryRow}
    (hGet : ledger.get key.messageId key.recipient = some row)
    (hAfter : (apply ledger op).1.get key.messageId key.recipient = some after) (owner : String) :
    owner ∈ after.releasedOwners ↔ owner ∈ row.releasedOwners ∨ losesLease key (view row) owner op = true := by
  cases op with
  | track message recipient now =>
    change (track message recipient now ledger).get key.messageId key.recipient = _ at hAfter
    rw [track, get, Table.find_insertOrIgnore, ← get, hGet, Option.some_or] at hAfter
    cases hAfter
    simp [losesLease]
  | noteSent messageId recipient now =>
    change (noteSent messageId recipient now ledger).get key.messageId key.recipient = _ at hAfter
    rw [noteSent, get_mutate, hGet] at hAfter
    have hKept : after.releasedOwners = row.releasedOwners := by
      split at hAfter <;> cases hAfter
      · dsimp only
        split <;> rfl
      · rfl
    simp [hKept, losesLease]
  | settle recipient frame from_ requireAcceptance =>
    change (settle recipient frame from_ requireAcceptance ledger).2.get key.messageId key.recipient = _ at hAfter
    rw [get_settle, hGet] at hAfter
    split at hAfter
    · rename_i hKey
      cases hAfter
      simp only [releasedOwners_settleRow, losesLease, hKey, decide_true, Bool.true_and, Bool.and_eq_true, decide_eq_true_eq]
      constructor
      · rintro (hLost | ⟨hDisposition, rfl, hHeld⟩)
        · exact .inl hLost
        · exact .inr ⟨⟨hDisposition, rfl⟩, hHeld⟩
      · rintro (hLost | ⟨⟨hDisposition, rfl⟩, hHeld⟩)
        · exact .inl hLost
        · exact .inr ⟨hDisposition, rfl, hHeld⟩
    · rename_i hKey
      cases hAfter
      simp [losesLease, hKey]
  | releaseOwner recipient from_ =>
    change (releaseOwner recipient from_ ledger).2.get key.messageId key.recipient = _ at hAfter
    rw [releaseOwner, get, Table.find_update, ← get, hGet] at hAfter
    have hRecipient : row.recipient = key.recipient := congrArg MessageKey.recipient (keyOf_get hGet)
    cases hAfter
    simp only [losesLease, Bool.and_eq_true, decide_eq_true_eq]
    constructor
    · intro hLost
      split at hLost
      · rename_i hReleases
        simp only [releases, hRecipient, Bool.and_eq_true, decide_eq_true_eq] at hReleases
        obtain ⟨⟨hKey, hState⟩, hOwner⟩ := hReleases
        rcases Finset.mem_insert.mp hLost with rfl | hLost
        · exact .inr ⟨⟨hKey, rfl⟩, (DeliveryView.isHeldBy_iff _ _).mpr ⟨hState, hOwner⟩⟩
        · exact .inl hLost
      · exact .inl hLost
    · rintro (hLost | ⟨⟨hKey, rfl⟩, hHeld⟩)
      · split
        · exact Finset.mem_insert_of_mem hLost
        · exact hLost
      · obtain ⟨hState, hOwner⟩ := (DeliveryView.isHeldBy_iff _ _).mp hHeld
        simp only [view] at hState hOwner
        have hReleases : releases recipient from_ row = true := by simp [releases, hRecipient, hKey, hState, hOwner]
        rw [if_pos hReleases]
        exact Finset.mem_insert_self _ _
  | pending =>
    rw [show (apply ledger (.pending _ _)).1 = ledger from rfl, hGet] at hAfter
    cases hAfter
    simp [losesLease]
  | expire now =>
    change (expire now ledger).2.get key.messageId key.recipient = _ at hAfter
    rw [expire, get, Table.find_delete, Table.find_update, ← get, hGet, Option.filter_eq_some_iff] at hAfter
    obtain ⟨hAfter, _⟩ := hAfter
    cases hAfter
    simp only [losesLease]
    split <;> simp
  | markUnreported messageId recipient now =>
    change (markUnreported messageId recipient now ledger).get key.messageId key.recipient = _ at hAfter
    rw [markUnreported, get_mutate, hGet] at hAfter
    have hKept : after.releasedOwners = row.releasedOwners := by
      split at hAfter <;> cases hAfter
      · dsimp only
        split <;> rfl
      · rfl
    simp [hKept, losesLease]

theorem releasedOwners_of_absent {op : Op}
    {after : MemoryRow} (hGet : ledger.get key.messageId key.recipient = none)
    (hAfter : (apply ledger op).1.get key.messageId key.recipient = some after) : after.releasedOwners = ∅ := by
  have hRow := rowAt_apply ledger op key
  rw [rowAt_eq, rowAt_eq, hGet, hAfter] at hRow
  cases op with
  | track message recipient now =>
    change (track message recipient now ledger).get key.messageId key.recipient = _ at hAfter
    rw [track, get, Table.find_insertOrIgnore, ← get, hGet, Option.none_or] at hAfter
    split at hAfter <;> cases hAfter
    rfl
  | pending | expire => cases hRow
  | noteSent | settle | releaseOwner | markUnreported =>
    rw [rowAfter] at hRow
    split at hRow <;> cases hRow

theorem lost_of_apply (ledger : InMemoryMessageDeliveryLedger) (op : Op) (key : MessageKey) (owner : String)
    (h : lost (apply ledger op).1 key owner = true) :
    lost ledger key owner = true ∨ ∃ v, rowAt ledger key = some v ∧ losesLease key v owner op = true := by
  obtain ⟨after, hAfter, hOwner⟩ := get_of_lost h
  cases hGet : ledger.get key.messageId key.recipient with
  | some row =>
    rcases (lost_apply_iff hGet hAfter owner).mp hOwner with hLost | hLoses
    · exact .inl ((lost_eq hGet owner).mpr hLost)
    · exact .inr ⟨view row, by rw [rowAt_eq, hGet, Option.map_some], hLoses⟩
  | none =>
    rw [releasedOwners_of_absent hGet hAfter] at hOwner
    cases hOwner

theorem lost_apply (ledger : InMemoryMessageDeliveryLedger) (op : Op) (key : MessageKey) (v : DeliveryView)
    (owner : String) (hRow : rowAt ledger key = some v) (hPresent : rowAt (apply ledger op).1 key ≠ none)
    (h : lost ledger key owner = true ∨ losesLease key v owner op = true) :
    lost (apply ledger op).1 key owner = true := by
  obtain ⟨row, hGet, rfl⟩ := get_of_rowAt hRow
  obtain ⟨v', hRow'⟩ := Option.ne_none_iff_exists'.mp hPresent
  obtain ⟨after, hAfter, _⟩ := get_of_rowAt hRow'
  rw [lost_eq hGet] at h
  exact (lost_eq hAfter owner).mpr ((lost_apply_iff hGet hAfter owner).mpr h)

instance : LawfulLedger InMemoryMessageDeliveryLedger where
  empty := ⟨Table.empty⟩
  lost := lost
  rowAt_empty _ := rfl
  lost_empty _ _ := rfl
  keyOf_rowAt ledger key v h := by
    obtain ⟨row, hGet, rfl⟩ := get_of_rowAt h
    exact keyOf_get hGet
  rowAt_apply ledger op key _ := rowAt_apply ledger op key
  result_apply ledger op _ := result_apply ledger op
  lost_of_apply := lost_of_apply
  lost_apply := lost_apply

end CommandSuite.InMemoryMessageDeliveryLedger
