import CommandSuite.Core.MessageDelivery.Sqlite

/-! # The SQLite ledger acts row by row

The conditional statements agree with the row semantics on tables whose lease columns agree:
the statements that leave `accepted_owner` alone run on rows that have none.
-/

namespace CommandSuite.SqliteMessageDeliveryLedger

open MessageDelivery Library MessageDeliveryLedger Table DeliveryView

variable {plan : ScanPlan}

theorem keyOf_rowToPending (row : DeliveryRow) : keyOf (rowToPending row) = rowKey row := by
  simp only [keyOf, rowToPending, row.stored]

theorem rowAt_eq (ledger : SqliteMessageDeliveryLedger plan) (key : MessageKey) :
    rowAt ledger key = (ledger.table.find key).map view := rfl

variable {ledger : SqliteMessageDeliveryLedger plan}

theorem find_of_rowAt {key : MessageKey} {v : DeliveryView}
    (h : rowAt ledger key = some v) : ∃ row, ledger.table.find key = some row ∧ view row = v :=
  Option.map_eq_some_iff.mp h

theorem mem_all (ledger : SqliteMessageDeliveryLedger plan) (condition : DeliveryRow → Bool) (row : DeliveryRow) :
    row ∈ ledger.all condition ↔ ledger.table.find (rowKey row) = some row ∧ condition row = true :=
  Iff.trans (plan.perm _).mem_iff (mem_select_iff_find ledger.table condition row)

theorem nodup_keys_all (ledger : SqliteMessageDeliveryLedger plan) (condition : DeliveryRow → Bool) :
    ((ledger.all condition).map fun row => keyOf (rowToPending row)).Nodup := by
  simp only [keyOf_rowToPending]
  refine ((plan.perm _).map _).nodup_iff.mpr ?_
  exact ledger.table.nodup.sublist (List.filter_sublist.map _)

def UpdateStatement.at (statement : UpdateStatement) (row : DeliveryRow) : DeliveryRow :=
  if statement.condition row then statement.set row else row

theorem find_run (ledger : SqliteMessageDeliveryLedger plan) (statement : UpdateStatement) (key : MessageKey) :
    (ledger.run statement).2.table.find key = (ledger.table.find key).map statement.at :=
  find_update ledger.table statement.condition statement.set statement.keeps key

@[simp] theorem releasedOwner_run (ledger : SqliteMessageDeliveryLedger plan) (statement : UpdateStatement) :
    (ledger.run statement).2.releasedOwner = ledger.releasedOwner := rfl

variable {statement : UpdateStatement} {messageId : String} {recipient : Name} {condition : DeliveryRow → Bool}

theorem find_run_onRow (ledger : SqliteMessageDeliveryLedger plan)
        (hCondition : statement.condition = onRow messageId recipient condition) (key : MessageKey) :
    (ledger.run statement).2.table.find key =
      if ⟨messageId, recipient⟩ = key then
        (ledger.table.find key).map fun row => if condition row then statement.set row else row
      else ledger.table.find key := by
  rw [run, find_update, hCondition]
  cases hFind : ledger.table.find key with
  | none => simp
  | some row =>
    have hKey : rowKey row = key := key_of_find hFind
    simp only [Option.map_some, onRow, hKey, eq_comm (a := key), Bool.and_eq_true, decide_eq_true_eq]
    by_cases h : (⟨messageId, recipient⟩ : MessageKey) = key <;> simp [h]

variable {row : DeliveryRow}

theorem changes_run (hCondition : statement.condition = onRow messageId recipient condition)
    (hFind : ledger.table.find ⟨messageId, recipient⟩ = some row) :
    (ledger.run statement).1 > 0 ↔ condition row = true := by
  rw [run, hCondition]
  refine Iff.trans (changes_pos_iff ledger.table ⟨messageId, recipient⟩ condition) ?_
  simp [hFind]

def settleRow (released : Bool) (recipient : Name) (frame : MessageDispositionFrame) (owner : String)
    (requireAcceptance : Bool) (row : DeliveryRow) : Option DeliveryRow :=
  match frame.disposition with
  | .accepted => if isPending row then some ((acceptStmt owner frame.messageId recipient).set row) else none
  | .deferred =>
    if acceptedBy owner row then
      some ((deferAcceptedStmt frame.reason frame.messageId recipient owner).set row)
    else if isPending row then some ((deferStmt frame.reason frame.messageId recipient).set row)
    else none
  | .acted => terminal .acted
  | .handled => terminal .handled
  | .refused => terminal .refused
where
  terminal (state : DeliveryState) : Option DeliveryRow :=
    if acceptedBy owner row then
      some ((terminalAcceptedStmt state frame.at_ frame.reason frame.messageId recipient owner).set row)
    else if isPending row && !requireAcceptance && !released then
      some ((settleStmt state frame.at_ frame.reason frame.messageId recipient).set row)
    else none

/-- The result and the rows of a settlement that stands for `after` on the row it selected. -/
def Settles (recipient : Name) (messageId : String) (ledger : SqliteMessageDeliveryLedger plan)
    (row : DeliveryRow) (after : Option DeliveryRow)
    (result : Option PendingMessageDelivery × SqliteMessageDeliveryLedger plan) : Prop :=
  result.1 = after.map rowToPending ∧ ∀ key, result.2.table.find key =
    if ⟨messageId, recipient⟩ = key then some (after.getD row) else ledger.table.find key

theorem settles_none (hFind : ledger.table.find ⟨messageId, recipient⟩ = some row) :
    Settles recipient messageId ledger row none (none, ledger) := by
  refine ⟨rfl, ?_⟩
  intro key
  split
  · rename_i hKey
    exact hKey ▸ hFind
  · rfl

theorem settles_changedRow (hFind : ledger.table.find ⟨messageId, recipient⟩ = some row)
        (hCondition : statement.condition = onRow messageId recipient condition)
    (hSet : rowToPending (statement.set row) = rowToPending row) :
    Settles recipient messageId ledger row (if condition row then some (statement.set row) else none)
      (changedRow row (ledger.run statement)) := by
  refine ⟨?_, ?_⟩
  · simp only [changedRow, changes_run hCondition hFind]
    split <;> simp [hSet]
  · intro key
    rw [changedRow, find_run_onRow ledger hCondition]
    split
    · rename_i hKey
      rw [← hKey, hFind, Option.map_some]
      split <;> rfl
    · rfl

theorem acceptedBy_of_pending {owner : String} (h : row.state ≠ .accepted) : acceptedBy owner row = false := by
  simp [acceptedBy, h]

theorem isPending_of_accepted (h : row.state = .accepted) : isPending row = false := by
  simp [isPending, h]

theorem settles_noteReleased {messageId messageId' : String}
    {recipient recipient' : Name} {after : Option DeliveryRow} {owner : String}
    {result : Nat × SqliteMessageDeliveryLedger plan}
    (h : Settles recipient messageId ledger row after (changedRow row result)) :
    Settles recipient messageId ledger row after
      (changedRow row (result.1, result.2.noteReleased recipient' messageId' owner)) := h

variable {frame : MessageDispositionFrame}

section

variable (hFind : ledger.table.find ⟨frame.messageId, recipient⟩ = some row)
include hFind

theorem settleTerminal_settles (owner : String)
    (requireAcceptance : Bool) (state : DeliveryState) :
    Settles recipient frame.messageId ledger row
      (settleRow.terminal (ledger.wasReleased recipient frame.messageId owner) recipient frame owner
        requireAcceptance row state)
      (settleTerminal state recipient frame owner requireAcceptance row ledger) := by
  unfold settleRow.terminal settleTerminal
  by_cases hAccepted : row.state = .accepted
  · rw [if_pos hAccepted, isPending_of_accepted hAccepted]
    exact settles_changedRow hFind rfl rfl
  · rw [if_neg hAccepted, acceptedBy_of_pending hAccepted]
    cases hFenced : requireAcceptance || ledger.wasReleased recipient frame.messageId owner with
    | true =>
      have hNot : (!requireAcceptance && !ledger.wasReleased recipient frame.messageId owner) = false := by
        rw [← Bool.not_or, hFenced, Bool.not_true]
      simp only [Bool.and_assoc, hNot, Bool.and_false]
      exact settles_none hFind
    | false =>
      have hNot : (!requireAcceptance && !ledger.wasReleased recipient frame.messageId owner) = true := by
        rw [← Bool.not_or, hFenced, Bool.not_false]
      simp only [Bool.and_assoc, hNot, Bool.and_true]
      exact settles_changedRow hFind rfl rfl

theorem settle_settles (owner : String)
    (requireAcceptance : Bool) :
    Settles recipient frame.messageId ledger row
      (settleRow (ledger.wasReleased recipient frame.messageId owner) recipient frame owner requireAcceptance row)
      (settle recipient frame owner requireAcceptance ledger) := by
  unfold settle settleRow pendingById
  rw [hFind]
  cases frame.disposition with
  | accepted => exact settles_changedRow hFind rfl rfl
  | deferred =>
    dsimp only
    by_cases hAccepted : row.state = .accepted
    · by_cases hOwner : row.acceptedOwner = some owner
      · have hMine : ¬(row.state = .accepted ∧ row.acceptedOwner ≠ some owner) := fun h => h.2 hOwner
        rw [isPending_of_accepted hAccepted, if_neg hMine, if_pos hAccepted]
        exact settles_noteReleased (settles_changedRow hFind rfl rfl)
      · have hNot : acceptedBy owner row = false := by simp [acceptedBy, hOwner]
        rw [isPending_of_accepted hAccepted, hNot,
          if_pos (show row.state = .accepted ∧ row.acceptedOwner ≠ some owner from ⟨hAccepted, hOwner⟩)]
        exact settles_none hFind
    · have hMine : ¬(row.state = .accepted ∧ row.acceptedOwner ≠ some owner) := fun h => hAccepted h.1
      rw [acceptedBy_of_pending hAccepted, if_neg hMine, if_neg hAccepted]
      exact settles_changedRow hFind rfl rfl
  | acted => exact settleTerminal_settles hFind owner requireAcceptance .acted
  | handled => exact settleTerminal_settles hFind owner requireAcceptance .handled
  | refused => exact settleTerminal_settles hFind owner requireAcceptance .refused

end

theorem settle_of_absent (hFind : ledger.table.find ⟨frame.messageId, recipient⟩ = none)
    (owner : String) (requireAcceptance : Bool) :
    settle recipient frame owner requireAcceptance ledger = (none, ledger) := by
  unfold settle pendingById
  rw [hFind]

theorem view_settleRow (h : (view row).WellLeased) (released : Bool) (recipient : Name)
    (frame : MessageDispositionFrame) (owner : String) (requireAcceptance : Bool) :
    (settleRow released recipient frame owner requireAcceptance row).map view =
      (view row).settle released frame owner requireAcceptance := by
  have hLease : row.state = .accepted ↔ row.acceptedOwner ≠ none := h
  have hFree : row.state = .pending → row.acceptedOwner = none := by
    intro hPending
    by_contra hOwner
    rw [hLease.mpr hOwner] at hPending
    cases hPending
  unfold settleRow DeliveryView.settle
  cases hDisposition : frame.disposition with
  | accepted =>
    by_cases hState : row.state = .pending <;> simp [isPending, hState, view, acceptStmt, rowToPending]
  | deferred =>
    by_cases hPending : row.state = .pending
    · simp [acceptedBy, isPending, hPending, view, deferStmt, rowToPending, hFree hPending]
    · by_cases hAccepted : row.state = .accepted
      · by_cases hOwner : row.acceptedOwner = some owner <;>
          simp [acceptedBy, isPending, hAccepted, hOwner, view, deferAcceptedStmt, rowToPending, isHeldBy]
      · simp [acceptedBy, isPending, hAccepted, hPending, view, isHeldBy]
  | acted | handled | refused =>
    by_cases hPending : row.state = .pending
    · cases requireAcceptance <;> cases released <;>
        simp [settleRow.terminal, acceptedBy, isPending, hPending, view, settleStmt, rowToPending,
          hFree hPending, isHeldBy, Terminal]
    · by_cases hAccepted : row.state = .accepted
      · by_cases hOwner : row.acceptedOwner = some owner <;>
          simp [settleRow.terminal, acceptedBy, isPending, hAccepted, hOwner, view, terminalAcceptedStmt,
            rowToPending, isHeldBy, Terminal]
      · simp [settleRow.terminal, acceptedBy, isPending, hAccepted, hPending, view, isHeldBy]

theorem wasReleased_iff (ledger : SqliteMessageDeliveryLedger plan) (recipient : Name) (messageId owner : String) :
    ledger.wasReleased recipient messageId owner = true ↔ owner ∈ ledger.releasedOwner (releaseKey recipient messageId) := by
  simp [wasReleased]

theorem wasReleased_noteReleased (ledger : SqliteMessageDeliveryLedger plan) (recipient : Name)
    (messageId owner : String) (key : MessageKey) (other : String) :
    (ledger.noteReleased recipient messageId owner).wasReleased key.recipient key.messageId other = true ↔
      ledger.wasReleased key.recipient key.messageId other = true ∨ other = owner ∧ key = ⟨messageId, recipient⟩ := by
  rw [wasReleased_iff, wasReleased_iff, noteReleased]
  by_cases hKey : releaseKey key.recipient key.messageId = releaseKey recipient messageId
  · obtain ⟨hMessage, hRecipient⟩ := releaseKey_injective hKey
    obtain ⟨m, r⟩ := key
    cases hMessage
    cases hRecipient
    simp only [Function.update_self, Finset.mem_insert]
    tauto
  · have hNe : key ≠ ⟨messageId, recipient⟩ := by
      rintro rfl
      exact hKey rfl
    simp only [Function.update_of_ne hKey]
    tauto

theorem wasReleased_foldl (rows : List DeliveryRow) (ledger : SqliteMessageDeliveryLedger plan)
    (recipient : Name) (owner : String) (key : MessageKey) (other : String) :
    (rows.foldl (fun ledger row => ledger.noteReleased recipient (rowToPending row).message.id owner)
        ledger).wasReleased key.recipient key.messageId other = true ↔
      ledger.wasReleased key.recipient key.messageId other = true ∨
        other = owner ∧ ∃ row ∈ rows, key = ⟨row.messageId, recipient⟩ := by
  induction rows generalizing ledger with
  | nil => simp
  | cons row rows ih =>
    rw [List.foldl_cons, ih, wasReleased_noteReleased, show (rowToPending row).message.id = row.messageId from row.stored]
    simp only [List.mem_cons, exists_eq_or_imp]
    tauto

theorem table_foldl (rows : List DeliveryRow) (ledger : SqliteMessageDeliveryLedger plan)
    (recipient : Name) (owner : String) :
    (rows.foldl (fun ledger row => ledger.noteReleased recipient (rowToPending row).message.id owner)
      ledger).table = ledger.table := by
  induction rows generalizing ledger with
  | nil => rfl
  | cons row rows ih => exact ih _

theorem find_releaseOwner (ledger : SqliteMessageDeliveryLedger plan) (recipient : Name) (owner : String)
    (key : MessageKey) :
    (releaseOwner recipient owner ledger).2.table.find key =
      (ledger.table.find key).map (releaseOwnerStmt recipient owner).at := by
  rw [releaseOwner, find_run, table_foldl]

theorem find_purge (ledger : SqliteMessageDeliveryLedger plan) (now : Int) (key : MessageKey) :
    (ledger.purgeTerminalStmt now).table.find key = (ledger.table.find key).filter fun row => !isPurged now row :=
  find_delete ledger.table (isPurged now) key

theorem find_expire (ledger : SqliteMessageDeliveryLedger plan) (now : Int) (key : MessageKey) :
    (expire now ledger).2.table.find key = (ledger.table.find key).filter fun row => now < row.expiresAt := by
  have hPurged : ∀ row : DeliveryRow, isExpired now row = false → (!isPurged now row) = decide (now < row.expiresAt) := by
    intro row hOpen
    by_cases hTime : row.expiresAt ≤ now
    · cases hState : row.state <;> simp [isExpired, isPurged, hState, hTime] at hOpen ⊢
    · simp [isPurged, hTime, not_le.mp hTime]
  unfold expire
  dsimp only
  split
  · rename_i hEmpty
    rw [find_purge]
    cases hFind : ledger.table.find key with
    | none => rfl
    | some row =>
      have hNone : ledger.all (isExpired now) = [] := by simpa using hEmpty
      have hNot : row ∉ ledger.all (isExpired now) := by simp [hNone]
      rw [mem_all, key_of_find hFind] at hNot
      have hOpen : isExpired now row = false := by simpa [hFind] using hNot
      simp [Option.filter_some, hPurged row hOpen]
  · rw [find_purge, find_run]
    cases hFind : ledger.table.find key with
    | none => rfl
    | some row =>
      simp only [Option.map_some, UpdateStatement.at, expireStmt]
      by_cases hExpired : isExpired now row = true
      · have hTime : row.expiresAt ≤ now := by
          simp only [isExpired, Bool.and_eq_true, decide_eq_true_eq] at hExpired
          exact hExpired.2
        simp [hExpired, isPurged, hTime, Option.filter_some]
      · have hOpen : isExpired now row = false := by simpa using hExpired
        simp [hOpen, Option.filter_some, hPurged row hOpen]

theorem rowAt_apply (ledger : SqliteMessageDeliveryLedger plan) (op : Op) (key : MessageKey)
    (h : WellLeased ledger) :
    rowAt (apply ledger op).1 key = rowAfter (lost ledger key) key op (rowAt ledger key) := by
  cases op with
  | track message recipient now =>
    change ((track message recipient now ledger).table.find key).map view = _
    rw [track, find_insertOrIgnore, rowAfter, rowAt_eq]
    cases ledger.table.find key with
    | some row => rfl
    | none =>
      simp only [Option.none_or, Option.map_none]
      split <;> rfl
  | noteSent messageId recipient now =>
    change ((noteSent messageId recipient now ledger).table.find key).map view = _
    rw [noteSent, find_run_onRow ledger (show (note now messageId recipient).condition = _ from rfl), rowAfter, rowAt_eq]
    split
    · rw [Option.map_map, Option.map_map]
      congr 1
      funext row
      by_cases hState : row.state = .pending <;>
        simp [view, DeliveryView.noteSent, isPending, note, rowToPending, hState]
    · rfl
  | settle recipient frame owner requireAcceptance =>
    change ((settle recipient frame owner requireAcceptance ledger).2.table.find key).map view = _
    rw [rowAfter, rowAt_eq]
    cases hFind : ledger.table.find ⟨frame.messageId, recipient⟩ with
    | none =>
      rw [settle_of_absent hFind]
      split
      · rename_i hKey
        rw [← hKey, hFind]
        rfl
      · rfl
    | some row =>
      rw [(settle_settles hFind owner requireAcceptance).2 key]
      split
      · rename_i hKey
        subst hKey
        have hLeased : (view row).WellLeased := h _ (view row) (by rw [rowAt_eq, hFind, Option.map_some])
        rw [hFind, Option.map_some, Option.map_some, Option.map_some, lost, ← view_settleRow hLeased _ recipient]
        cases settleRow (ledger.wasReleased recipient frame.messageId owner) recipient frame owner
          requireAcceptance row <;> rfl
      · rfl
  | releaseOwner recipient owner =>
    change ((releaseOwner recipient owner ledger).2.table.find key).map view = _
    rw [find_releaseOwner, rowAfter, rowAt_eq]
    cases hFind : ledger.table.find key with
    | none => simp
    | some row =>
      have hRecipient : row.recipient = key.recipient := congrArg MessageKey.recipient (key_of_find hFind)
      simp only [Option.map_some, UpdateStatement.at, releaseOwnerStmt, hRecipient, release, isHeldBy, acceptedBy, view]
      by_cases hKey : key.recipient = recipient <;>
        by_cases hHeld : row.state = .accepted ∧ row.acceptedOwner = some owner <;>
        simp [hKey, hHeld, hRecipient, rowToPending]
  | pending => rfl
  | expire now =>
    change ((expire now ledger).2.table.find key).map view = _
    rw [find_expire, rowAfter, rowAt_eq]
    cases ledger.table.find key with
    | none => rfl
    | some row => by_cases hTime : now < row.expiresAt <;> simp [Option.filter_some, view, rowToPending, hTime]
  | markUnreported messageId recipient now =>
    change ((markUnreported messageId recipient now ledger).table.find key).map view = _
    rw [markUnreported, find_run_onRow ledger (show (unreportedStmt now messageId recipient).condition = _ from rfl),
      rowAfter, rowAt_eq]
    split
    · rw [Option.map_map, Option.map_map]
      congr 1
      funext row
      by_cases hState : row.state = .pending <;>
        simp [view, DeliveryView.markUnreported, isPending, unreportedStmt, rowToPending, hState]
    · rfl

theorem mem_rows_iff {delivery : PendingMessageDelivery} :
    delivery ∈ (ledger.all condition).map rowToPending ↔
      ∃ row, ledger.table.find (keyOf delivery) = some row ∧ condition row = true ∧ rowToPending row = delivery := by
  rw [List.mem_map]
  constructor
  · rintro ⟨row, hRow, rfl⟩
    obtain ⟨hFind, hCondition⟩ := (mem_all ledger condition row).mp hRow
    exact ⟨row, by rw [keyOf_rowToPending, hFind], hCondition, rfl⟩
  · rintro ⟨row, hFind, hCondition, rfl⟩
    rw [keyOf_rowToPending] at hFind
    exact ⟨row, (mem_all ledger condition row).mpr ⟨hFind, hCondition⟩, rfl⟩

theorem expire_fst (ledger : SqliteMessageDeliveryLedger plan) (now : Int) :
    (expire now ledger).1 = ((ledger.all (isExpired now)).map rowToPending).map fun row =>
      { row with sender := row.message.fromName } := by
  unfold expire
  dsimp only
  split
  · rename_i hEmpty
    rw [List.eq_nil_of_length_eq_zero hEmpty]
    rfl
  · rfl

theorem result_apply (ledger : SqliteMessageDeliveryLedger plan) (op : Op) (h : WellLeased ledger) :
    resultFrom lost ledger op (apply ledger op).2 := by
  cases op with
  | track => trivial
  | noteSent => trivial
  | settle recipient frame owner requireAcceptance =>
    change (settle recipient frame owner requireAcceptance ledger).1 = _
    rw [rowAt_eq]
    cases hFind : ledger.table.find ⟨frame.messageId, recipient⟩ with
    | none =>
      rw [settle_of_absent hFind]
      rfl
    | some row =>
      have hLeased : (view row).WellLeased := h _ (view row) (by rw [rowAt_eq, hFind, Option.map_some])
      rw [(settle_settles hFind owner requireAcceptance).1, Option.map_some, Option.bind_some, lost,
        ← view_settleRow hLeased _ recipient, Option.map_map]
      rfl
  | releaseOwner recipient owner =>
    refine ⟨(ledger.all (releaseOwnerStmt recipient owner).condition).map fun row => keyOf (rowToPending row),
      nodup_keys_all ledger _, ?_, ?_⟩
    · rw [List.length_map]
      change _ = (releaseOwner recipient owner ledger).1
      rw [releaseOwner, run, table_foldl]
      exact (plan.perm _).length_eq
    · intro key
      constructor
      · rintro hKey
        obtain ⟨row, hRow, rfl⟩ := List.mem_map.mp hKey
        obtain ⟨hFind, hHeld⟩ := (mem_all ledger _ row).mp hRow
        rw [keyOf_rowToPending, rowAt_eq, hFind]
        simp only [releaseOwnerStmt, Bool.and_eq_true, decide_eq_true_eq] at hHeld
        exact ⟨hHeld.1, view row, rfl, hHeld.2⟩
      · rintro ⟨rfl, v, hRow, hHeld⟩
        obtain ⟨row, hFind, rfl⟩ := find_of_rowAt hRow
        have hKey : rowKey row = key := key_of_find hFind
        subst hKey
        refine List.mem_map.mpr ⟨row, (mem_all ledger _ row).mpr ⟨hFind, ?_⟩, keyOf_rowToPending row⟩
        simp only [releaseOwnerStmt, decide_true, Bool.true_and]
        exact hHeld
  | pending recipient now =>
    have hSorted := List.pairwise_insertionSort (fun a b : DeliveryRow => a.messageJson.ts ≤ b.messageJson.ts)
      (ledger.all fun row => row.recipient = recipient && row.state = .pending && now < row.expiresAt)
    have hPerm := List.perm_insertionSort (fun a b : DeliveryRow => a.messageJson.ts ≤ b.messageJson.ts)
      (ledger.all fun row => row.recipient = recipient && row.state = .pending && now < row.expiresAt)
    refine ⟨?_, List.pairwise_map.mpr hSorted, ?_⟩
    · refine (List.map_map (g := keyOf) (f := rowToPending) ▸ (hPerm.map (keyOf ∘ rowToPending)).nodup_iff).mpr ?_
      exact nodup_keys_all ledger _
    · intro delivery
      refine Iff.trans ((hPerm.map rowToPending).mem_iff.trans mem_rows_iff) ?_
      constructor
      · rintro ⟨row, hFind, hRow, rfl⟩
        simp only [Bool.and_eq_true, decide_eq_true_eq] at hRow
        obtain ⟨⟨hRecipient, hState⟩, hTime⟩ := hRow
        exact ⟨hRecipient, hTime, view row, by rw [rowAt_eq, hFind, Option.map_some], hState, rfl⟩
      · rintro ⟨rfl, hTime, v, hRow, hState, rfl⟩
        obtain ⟨row, hFind, rfl⟩ := find_of_rowAt hRow
        refine ⟨row, hFind, ?_, rfl⟩
        simpa [view, rowToPending] using ⟨hState, hTime⟩
  | expire now =>
    change _ ∧ ∀ row, row ∈ (expire now ledger).1 ↔ _
    refine ⟨?_, ?_⟩
    · change ((expire now ledger).1.map _).Nodup
      rw [expire_fst, List.map_map, List.map_map]
      exact nodup_keys_all ledger _
    · intro delivery
      rw [expire_fst, List.mem_map]
      constructor
      · rintro ⟨pending, hPending, rfl⟩
        obtain ⟨row, hFind, hExpired, rfl⟩ := mem_rows_iff.mp hPending
        simp only [isExpired, Bool.and_eq_true, decide_eq_true_eq] at hExpired
        exact ⟨rfl, hExpired.2, view row, by rw [rowAt_eq, hFind, Option.map_some], hExpired.1, rfl⟩
      · rintro ⟨hSender, hTime, v, hRow, hOpen, hEq⟩
        obtain ⟨row, hFind, rfl⟩ := find_of_rowAt hRow
        obtain ⟨pending, sender⟩ := delivery
        obtain rfl : rowToPending row = pending := hEq
        obtain rfl : sender = row.messageJson.fromName := hSender
        refine ⟨rowToPending row, mem_rows_iff.mpr ⟨row, hFind, ?_, rfl⟩, rfl⟩
        have hState := (isOpen_iff _).mp hOpen
        simp only [view] at hState
        simpa [isExpired] using ⟨hState, hTime⟩
  | markUnreported => trivial

theorem releasedOwner_settle (hFind : ledger.table.find ⟨frame.messageId, recipient⟩ = some row) (owner : String)
    (requireAcceptance : Bool) (key : MessageKey) (other : String) :
    lost (settle recipient frame owner requireAcceptance ledger).2 key other = true ↔
      lost ledger key other = true ∨ other = owner ∧ key = ⟨frame.messageId, recipient⟩ ∧
        frame.disposition = .deferred ∧ (view row).isHeldBy owner = true := by
  have hTerminal : ∀ state, lost (settleTerminal state recipient frame owner requireAcceptance row ledger).2 key other
      = lost ledger key other := by
    intro state
    unfold settleTerminal
    split
    · rfl
    · split <;> rfl
  unfold settle pendingById
  rw [hFind, isHeldBy_iff]
  cases hDisposition : frame.disposition with
  | accepted => simp [changedRow, lost, wasReleased]
  | deferred =>
    dsimp only
    by_cases hAccepted : row.state = .accepted
    · by_cases hOwner : row.acceptedOwner = some owner
      · have hMine : ¬(row.state = .accepted ∧ row.acceptedOwner ≠ some owner) := fun h => h.2 hOwner
        rw [if_neg hMine, if_pos hAccepted]
        refine Iff.trans (wasReleased_noteReleased _ recipient frame.messageId owner key other) ?_
        simp only [lost, view, hAccepted, hOwner, and_true]
        rfl
      · rw [if_pos (show row.state = .accepted ∧ row.acceptedOwner ≠ some owner from ⟨hAccepted, hOwner⟩)]
        simp [view, hOwner]
    · have hMine : ¬(row.state = .accepted ∧ row.acceptedOwner ≠ some owner) := fun h => hAccepted h.1
      rw [if_neg hMine, if_neg hAccepted]
      simp [changedRow, lost, wasReleased, view, hAccepted]
  | acted => simp [hTerminal]
  | handled => simp [hTerminal]
  | refused => simp [hTerminal]

theorem lost_apply_iff (ledger : SqliteMessageDeliveryLedger plan) (op : Op) (key : MessageKey) (owner : String) :
    lost (apply ledger op).1 key owner = true ↔ lost ledger key owner = true ∨
      ∃ v, rowAt ledger key = some v ∧ losesLease key v owner op = true := by
  cases op with
  | track | noteSent | pending | markUnreported => simp [losesLease]; rfl
  | expire now =>
    have hKept : (apply ledger (.expire now)).1.releasedOwner = ledger.releasedOwner := by
      change (expire now ledger).2.releasedOwner = _
      unfold expire
      dsimp only
      split <;> rfl
    simp [losesLease, lost, wasReleased, hKept]
  | settle recipient frame from_ requireAcceptance =>
    change lost (settle recipient frame from_ requireAcceptance ledger).2 key owner = true ↔ _
    simp only [losesLease, Bool.and_eq_true, decide_eq_true_eq]
    cases hFind : ledger.table.find ⟨frame.messageId, recipient⟩ with
    | none =>
      rw [settle_of_absent hFind]
      refine (or_iff_left ?_).symm
      rintro ⟨v, hRow, ⟨⟨rfl, _⟩, _⟩, _⟩
      rw [rowAt_eq, hFind] at hRow
      cases hRow
    | some row =>
      rw [releasedOwner_settle hFind]
      refine or_congr_right ?_
      constructor
      · rintro ⟨rfl, rfl, hDisposition, hHeld⟩
        exact ⟨view row, by rw [rowAt_eq, hFind, Option.map_some], ⟨⟨rfl, hDisposition⟩, rfl⟩, hHeld⟩
      · rintro ⟨v, hRow, ⟨⟨rfl, hDisposition⟩, rfl⟩, hHeld⟩
        rw [rowAt_eq, hFind, Option.map_some] at hRow
        cases hRow
        exact ⟨rfl, rfl, hDisposition, hHeld⟩
  | releaseOwner recipient from_ =>
    change (releaseOwner recipient from_ ledger).2.wasReleased key.recipient key.messageId owner = true ↔ _
    rw [releaseOwner, wasReleased_iff, releasedOwner_run, ← wasReleased_iff, wasReleased_foldl]
    refine or_congr_right ?_
    simp only [losesLease, Bool.and_eq_true, decide_eq_true_eq]
    constructor
    · rintro ⟨rfl, row, hRow, rfl⟩
      obtain ⟨hFind, hHeld⟩ := (mem_all ledger _ row).mp hRow
      simp only [Bool.and_eq_true, decide_eq_true_eq] at hHeld
      obtain ⟨rfl, hBy⟩ := hHeld
      exact ⟨view row, by rw [rowAt_eq, hFind, Option.map_some], ⟨rfl, rfl⟩, hBy⟩
    · rintro ⟨v, hRow, ⟨rfl, rfl⟩, hHeld⟩
      obtain ⟨row, hFind, rfl⟩ := find_of_rowAt hRow
      have hKey : rowKey row = key := key_of_find hFind
      subst hKey
      refine ⟨rfl, row, (mem_all ledger _ row).mpr ⟨hFind, ?_⟩, rfl⟩
      simp only [decide_true, Bool.true_and]
      exact hHeld

instance : LawfulLedger (SqliteMessageDeliveryLedger plan) where
  empty := ⟨empty, fun _ => ∅⟩
  lost := lost
  rowAt_empty _ := rfl
  lost_empty key owner := by simp [lost, wasReleased]
  keyOf_rowAt ledger key v h := by
    obtain ⟨row, hFind, rfl⟩ := find_of_rowAt h
    exact (keyOf_rowToPending row).trans (key_of_find hFind)
  rowAt_apply := rowAt_apply
  result_apply := result_apply
  lost_of_apply ledger op key owner := (lost_apply_iff ledger op key owner).mp
  lost_apply ledger op key v owner hRow _ h :=
    (lost_apply_iff ledger op key owner).mpr (h.imp_right fun hLoses => ⟨v, hRow, hLoses⟩)

end CommandSuite.SqliteMessageDeliveryLedger
