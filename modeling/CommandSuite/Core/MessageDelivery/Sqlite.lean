import CommandSuite.Core.MessageDelivery.Rows
import CommandSuite.Library.Sql
import CommandSuite.Library.Table
import Mathlib.Data.Finset.Insert
import Mathlib.Data.List.Sort

/-! # `SqliteMessageDeliveryLedger`

The table `message_deliveries` with its prepared statements, and the map of released owners
that lives beside it. A statement is a condition on a row and an assignment to its columns.
SQLite may scan a table in any order, so the order is a parameter.
-/

namespace CommandSuite

open MessageDelivery Library

/-- A row of `message_deliveries`. The column `message_json` is the message it parses to. -/
structure DeliveryRow where
  messageId : String
  recipient : Name
  messageJson : Message
  state : DeliveryState
  attempts : Nat
  firstSentAt : Option Int
  lastSentAt : Option Int
  expiresAt : Int
  dispositionAt : Option Int
  reasonJson : Option DispositionReason
  acceptedOwner : Option String
  stored : messageJson.id = messageId

namespace SqliteMessageDeliveryLedger

/-- `PRIMARY KEY (message_id, recipient)`. -/
abbrev rowKey (row : DeliveryRow) : MessageKey := ⟨row.messageId, row.recipient⟩

abbrev ScanPlan := Sql.ScanPlan DeliveryRow

def rowToPending (row : DeliveryRow) : PendingMessageDelivery where
  message := row.messageJson
  recipient := row.recipient
  attempts := row.attempts
  firstSentAt := row.firstSentAt
  lastSentAt := row.lastSentAt
  expiresAt := row.expiresAt

structure UpdateStatement where
  condition : DeliveryRow → Bool
  set : DeliveryRow → DeliveryRow
  keeps : ∀ row, rowKey (set row) = rowKey row

/-- `WHERE message_id = ? AND recipient = ? AND ...`. -/
def onRow (messageId : String) (recipient : Name) (condition : DeliveryRow → Bool) (row : DeliveryRow) : Bool :=
  decide (rowKey row = ⟨messageId, recipient⟩) && condition row

def isPending (row : DeliveryRow) : Bool := row.state = .pending

def acceptedBy (owner : String) (row : DeliveryRow) : Bool := row.state = .accepted && row.acceptedOwner = some owner

def note (now : Int) (messageId : String) (recipient : Name) : UpdateStatement where
  condition := onRow messageId recipient isPending
  set row := { row with
    attempts := row.attempts + 1
    firstSentAt := some (row.firstSentAt.getD now)
    lastSentAt := some now }
  keeps _ := rfl

def settleStmt (state : DeliveryState) (at_ : Int) (reason : Option DispositionReason) (messageId : String)
    (recipient : Name) : UpdateStatement where
  condition := onRow messageId recipient isPending
  set row := { row with state := state, dispositionAt := some at_, reasonJson := reason }
  keeps _ := rfl

def acceptStmt (owner : String) (messageId : String) (recipient : Name) : UpdateStatement where
  condition := onRow messageId recipient isPending
  set row := { row with state := .accepted, acceptedOwner := some owner, reasonJson := none }
  keeps _ := rfl

def terminalAcceptedStmt (state : DeliveryState) (at_ : Int) (reason : Option DispositionReason)
    (messageId : String) (recipient : Name) (owner : String) : UpdateStatement where
  condition := onRow messageId recipient (acceptedBy owner)
  set row := { row with
    state := state, dispositionAt := some at_, reasonJson := reason, acceptedOwner := none }
  keeps _ := rfl

def releaseOwnerStmt (recipient : Name) (owner : String) : UpdateStatement where
  condition row := row.recipient = recipient && acceptedBy owner row
  set row := { row with state := .pending, acceptedOwner := none }
  keeps _ := rfl

def deferStmt (reason : Option DispositionReason) (messageId : String) (recipient : Name) :
    UpdateStatement where
  condition := onRow messageId recipient isPending
  set row := { row with reasonJson := reason }
  keeps _ := rfl

def deferAcceptedStmt (reason : Option DispositionReason) (messageId : String) (recipient : Name)
    (owner : String) : UpdateStatement where
  condition := onRow messageId recipient (acceptedBy owner)
  set row := { row with state := .pending, acceptedOwner := none, reasonJson := reason }
  keeps _ := rfl

/-- `state IN ('pending', 'accepted') AND expires_at <= ?`. -/
def isExpired (now : Int) (row : DeliveryRow) : Bool := (row.state = .pending || row.state = .accepted) && row.expiresAt ≤ now

def expireStmt (now : Int) (reason : DispositionReason) : UpdateStatement where
  condition := isExpired now
  set row := { row with state := .refused, dispositionAt := some now, reasonJson := some reason }
  keeps _ := rfl

/-- The condition of `purgeTerminalStmt`. -/
def isPurged (now : Int) (row : DeliveryRow) : Bool :=
  (row.state = .acted || row.state = .handled || row.state = .refused || row.state = .unreported) && row.expiresAt ≤ now

def unreportedStmt (now : Int) (messageId : String) (recipient : Name) : UpdateStatement where
  condition := onRow messageId recipient isPending
  set row := { row with state := .unreported, dispositionAt := some now }
  keeps _ := rfl

def releaseKey (recipient : Name) (messageId : String) : String := recipient.text ++ "\u0000" ++ messageId

theorem releaseKey_injective {messageId messageId' : String} {recipient recipient' : Name}
    (h : releaseKey recipient messageId = releaseKey recipient' messageId') :
    messageId = messageId' ∧ recipient = recipient' := by
  have hChars : recipient.text.toList ++ '\u0000' :: messageId.toList =
      recipient'.text.toList ++ '\u0000' :: messageId'.toList := by
    simpa [releaseKey] using congrArg String.toList h
  have hNoNul : ∀ name : Name, '\u0000' ∉ name.text.toList := fun name =>
    name.not_mem_of_not_nameCharacter (by decide)
  obtain ⟨hName, hRest⟩ := Text.append_cons_inj (hNoNul recipient) (hNoNul recipient') hChars
  exact ⟨String.toList_inj.mp hRest, Name.ext (String.toList_inj.mp hName)⟩

end SqliteMessageDeliveryLedger

structure SqliteMessageDeliveryLedger (plan : SqliteMessageDeliveryLedger.ScanPlan) where
  table : Table SqliteMessageDeliveryLedger.rowKey
  releasedOwner : String → Finset String

namespace SqliteMessageDeliveryLedger

variable {plan : ScanPlan}

def run (ledger : SqliteMessageDeliveryLedger plan) (statement : UpdateStatement) :
    Nat × SqliteMessageDeliveryLedger plan :=
  (ledger.table.changes statement.condition,
    { ledger with table := ledger.table.update statement.condition statement.set statement.keeps })

def purgeTerminalStmt (now : Int) (ledger : SqliteMessageDeliveryLedger plan) :
    SqliteMessageDeliveryLedger plan :=
  { ledger with table := ledger.table.delete (isPurged now) }

def all (ledger : SqliteMessageDeliveryLedger plan) (condition : DeliveryRow → Bool) : List DeliveryRow :=
  plan.order (ledger.table.select condition)

def pendingById (recipient : Name) (messageId : String) (ledger : SqliteMessageDeliveryLedger plan) :
    Option DeliveryRow :=
  ledger.table.find ⟨messageId, recipient⟩

def noteReleased (recipient : Name) (messageId : String) (owner : String)
    (ledger : SqliteMessageDeliveryLedger plan) : SqliteMessageDeliveryLedger plan :=
  let key := releaseKey recipient messageId
  { ledger with
    releasedOwner := Function.update ledger.releasedOwner key (insert owner (ledger.releasedOwner key)) }

def wasReleased (recipient : Name) (messageId : String) (owner : String)
    (ledger : SqliteMessageDeliveryLedger plan) : Bool :=
  owner ∈ ledger.releasedOwner (releaseKey recipient messageId)

def track (message : Message) (recipient : Name) (now : Int) (ledger : SqliteMessageDeliveryLedger plan) :
    SqliteMessageDeliveryLedger plan :=
  { ledger with
    table := ledger.table.insertOrIgnore
      { messageId := message.id
        recipient := recipient
        messageJson := message
        state := .pending
        attempts := 0
        firstSentAt := none
        lastSentAt := none
        expiresAt := now + MESSAGE_DELIVERY_TTL_MS
        dispositionAt := none
        reasonJson := none
        acceptedOwner := none
        stored := rfl } }

def noteSent (messageId : String) (recipient : Name) (now : Int) (ledger : SqliteMessageDeliveryLedger plan) :
    SqliteMessageDeliveryLedger plan :=
  (ledger.run (note now messageId recipient)).2

def changedRow (row : DeliveryRow) (result : Nat × SqliteMessageDeliveryLedger plan) :
    Option PendingMessageDelivery × SqliteMessageDeliveryLedger plan :=
  (if result.1 > 0 then some (rowToPending row) else none, result.2)

/-- The last two branches of `settle`, for the dispositions that end a delivery. -/
def settleTerminal (state : DeliveryState) (recipient : Name) (frame : MessageDispositionFrame)
    (owner : String) (requireAcceptance : Bool) (selected : DeliveryRow)
    (ledger : SqliteMessageDeliveryLedger plan) :
    Option PendingMessageDelivery × SqliteMessageDeliveryLedger plan :=
  if selected.state = .accepted then
    changedRow selected
      (ledger.run (terminalAcceptedStmt state frame.at_ frame.reason frame.messageId recipient owner))
  else if requireAcceptance || ledger.wasReleased recipient frame.messageId owner then (none, ledger)
  else changedRow selected (ledger.run (settleStmt state frame.at_ frame.reason frame.messageId recipient))

def settle (recipient : Name) (frame : MessageDispositionFrame) (owner : String) (requireAcceptance : Bool)
    (ledger : SqliteMessageDeliveryLedger plan) :
    Option PendingMessageDelivery × SqliteMessageDeliveryLedger plan :=
  match ledger.pendingById recipient frame.messageId with
  | none => (none, ledger)
  | some selected =>
    match frame.disposition with
    | .accepted => changedRow selected (ledger.run (acceptStmt owner frame.messageId recipient))
    | .deferred =>
      if selected.state = .accepted ∧ selected.acceptedOwner ≠ some owner then (none, ledger)
      else if selected.state = .accepted then
        let (changes, ledger) := ledger.run (deferAcceptedStmt frame.reason frame.messageId recipient owner)
        changedRow selected (changes, ledger.noteReleased recipient frame.messageId owner)
      else changedRow selected (ledger.run (deferStmt frame.reason frame.messageId recipient))
    | .acted => settleTerminal .acted recipient frame owner requireAcceptance selected ledger
    | .handled => settleTerminal .handled recipient frame owner requireAcceptance selected ledger
    | .refused => settleTerminal .refused recipient frame owner requireAcceptance selected ledger

def releaseOwner (recipient : Name) (owner : String) (ledger : SqliteMessageDeliveryLedger plan) :
    Nat × SqliteMessageDeliveryLedger plan :=
  let rows := ledger.all fun row => row.recipient = recipient && acceptedBy owner row
  let ledger := rows.foldl (fun ledger row =>
    ledger.noteReleased recipient (rowToPending row).message.id owner) ledger
  ledger.run (releaseOwnerStmt recipient owner)

/-- `ORDER BY json_extract(message_json, '$.ts') ASC` leaves equal timestamps in scan order. -/
def pending (recipient : Name) (now : Int) (ledger : SqliteMessageDeliveryLedger plan) :
    List PendingMessageDelivery :=
  ((ledger.all fun row =>
      row.recipient = recipient && row.state = .pending && now < row.expiresAt).insertionSort
    fun a b => a.messageJson.ts ≤ b.messageJson.ts).map rowToPending

def expire (now : Int) (ledger : SqliteMessageDeliveryLedger plan) :
    List ExpiredMessageDelivery × SqliteMessageDeliveryLedger plan :=
  let rows := (ledger.all (isExpired now)).map rowToPending
  if rows.length = 0 then ([], ledger.purgeTerminalStmt now)
  else
    let (_, ledger) := ledger.run (expireStmt now expiredReason)
    (rows.map fun row => { row with sender := row.message.fromName }, ledger.purgeTerminalStmt now)

def markUnreported (messageId : String) (recipient : Name) (now : Int)
    (ledger : SqliteMessageDeliveryLedger plan) : SqliteMessageDeliveryLedger plan :=
  (ledger.run (unreportedStmt now messageId recipient)).2

def view (row : DeliveryRow) : DeliveryView := { rowToPending row with state := row.state, acceptedOwner := row.acceptedOwner }

instance : MessageDeliveryLedger (SqliteMessageDeliveryLedger plan) where
  track := track
  noteSent := noteSent
  settle := settle
  releaseOwner := releaseOwner
  pending := pending
  expire := expire
  markUnreported := markUnreported
  rowAt ledger key := (ledger.table.find key).map view

def lost (ledger : SqliteMessageDeliveryLedger plan) (key : MessageKey) (owner : String) : Bool :=
  ledger.wasReleased key.recipient key.messageId owner

end SqliteMessageDeliveryLedger

end CommandSuite
