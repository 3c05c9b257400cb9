import CommandSuite.Core.Message
import CommandSuite.Library.Retention
import CommandSuite.Library.Table
import Mathlib.Data.String.Basic

/-! # Notifications

The store of `packages/core/src/notifications/store.ts`: endpoints, the receipts of their deliveries, and the queue of
what waits for a member. An insert of a receipt trims the receipts of its endpoint, and what the queue says of them.
-/

namespace CommandSuite.Notifications

open Library

inductive IfOffline where
  | drop
  | queue
  deriving DecidableEq

inductive IfBusy where
  | now
  | wait
  deriving DecidableEq

structure NotificationDeliveryPolicy where
  ifOffline : IfOffline
  ifBusy : IfBusy
  debounceMs : Int
  debounceMax : Int
  queueTtlMs : Int
  maxWaitMs : Int

structure NotificationOverrides where
  ifOffline : Option IfOffline
  ifBusy : Option IfBusy
  level : Option LogLevel

structure NotificationTarget where
  member : Option String
  channel : Option String

inductive NotificationFilterOp where
  | eq | ne | isIn | exists | contains
  deriving DecidableEq

structure NotificationFilterRule where
  path : String
  op : NotificationFilterOp
  value : Option Json

structure NotificationEndpoint where
  id : String
  slug : String
  displayName : String
  enabled : Bool
  targets : List NotificationTarget
  level : LogLevel
  title : Option String
  template : Option String
  filters : List NotificationFilterRule
  policy : NotificationDeliveryPolicy
  dedupeHeader : Option String

abbrev NotificationEndpoint.key (endpoint : NotificationEndpoint) : String := endpoint.id

inductive NotificationDeliveryStatus where
  | delivered | pending | expired | dropped | rejected | filtered | duplicate | coalesced
  deriving DecidableEq

structure DeliveryRecord where
  id : String
  endpointId : String
  endpointSlug : String
  receivedAt : Int
  status : NotificationDeliveryStatus
  statusReason : Option String
  dedupeKey : Option String
  messageIds : List String
  body : String
  contentType : Option String
  rendered : String
  level : LogLevel
  title : Option String
  overrides : Option NotificationOverrides
  deliveredAt : Option Int
  replayOf : Option String

abbrev DeliveryRecord.key (record : DeliveryRecord) : String := record.id

inductive PendingReason where
  | offline
  | busy
  deriving DecidableEq

structure PendingRecord where
  id : Nat
  endpointId : String
  memberName : String
  reason : PendingReason
  deliveryIds : List String
  level : LogLevel
  title : Option String
  createdAt : Int
  deadlineAt : Int

abbrev PendingRecord.key (record : PendingRecord) : Nat := record.id

/-- The tables. `nextPending` stands for the ids that `randomUUID` draws for the rows of the queue. -/
structure Store where
  endpoints : Table NotificationEndpoint.key
  deliveries : Table DeliveryRecord.key
  pending : Table PendingRecord.key
  nextPending : Nat

def Store.empty : Store := ⟨.empty, .empty, .empty, 0⟩

def DELIVERY_RETENTION_PER_ENDPOINT : Nat := 1000

namespace Store

variable (store : Store)

def get (endpointId : String) : Option NotificationEndpoint := store.endpoints.find endpointId

def put (endpoint : NotificationEndpoint) : Store :=
  match store.get endpoint.id with
  | none => { store with endpoints := store.endpoints.insertOrIgnore endpoint }
  | some _ =>
    let replace := fun other : NotificationEndpoint => { endpoint with id := other.id }
    { store with endpoints := store.endpoints.update (fun other => other.id = endpoint.id) replace fun _ => rfl }

def delete (endpointId : String) : Store :=
  { store with
    endpoints := store.endpoints.delete fun endpoint => endpoint.id = endpointId
    deliveries := store.deliveries.delete fun record => record.endpointId = endpointId
    pending := store.pending.delete fun row => row.endpointId = endpointId }

/-! ## Deliveries -/

def getDeliveryRecord (id : String) : Option DeliveryRecord := store.deliveries.find id

def deliveriesByIds (ids : List String) : List DeliveryRecord := ids.filterMap store.getDeliveryRecord

def findDeliveryByDedupe (endpointId dedupeKey : String) : Option DeliveryRecord :=
  store.deliveries.rows.find? fun record => record.endpointId = endpointId && record.dedupeKey = some dedupeKey

def findDeliveriesByMessageId (messageId : String) : List DeliveryRecord :=
  store.deliveries.select fun record => messageId ∈ record.messageIds

def listStrandedDebounce : List DeliveryRecord :=
  (store.deliveries.select fun record => record.status = .pending && record.statusReason = some "debouncing").insertionSort
    fun left right => left.receivedAt ≤ right.receivedAt

/-- `ORDER BY received_at DESC, id DESC`. -/
def newer (left right : DeliveryRecord) : Prop :=
  left.receivedAt > right.receivedAt ∨ (left.receivedAt = right.receivedAt ∧ right.id ≤ left.id)

instance (left right : DeliveryRecord) : Decidable (newer left right) := inferInstanceAs (Decidable (_ ∨ _))

/-- The ids that `selectDeliveryIdsBeyondRetention` finds among the receipts of an endpoint. -/
def beyondRetention (records : List DeliveryRecord) : List String :=
  (Retention.beyond newer DELIVERY_RETENTION_PER_ENDPOINT records).map DeliveryRecord.id

def receipts (endpointId : String) : List DeliveryRecord := store.deliveries.select fun record => record.endpointId = endpointId

def keep (evicted : List String) (row : PendingRecord) : PendingRecord :=
  { row with deliveryIds := row.deliveryIds.filter fun id => id ∉ evicted }

def refers (endpointId : String) (evicted : List String) (row : PendingRecord) : Bool :=
  row.endpointId = endpointId && row.deliveryIds.any fun id => id ∈ evicted

def evict (endpointId : String) (evicted : List String) : Store :=
  let emptied := fun row => refers endpointId evicted row && (keep evicted row).deliveryIds.isEmpty
  { store with
    pending := (store.pending.delete emptied).update (refers endpointId evicted) (keep evicted) fun _ => rfl
    deliveries := store.deliveries.delete fun record => record.id ∈ evicted }

def trimDeliveries (endpointId : String) : Store := store.evict endpointId (beyondRetention (store.receipts endpointId))

/-- `none` where the unique index on the dedupe key refuses the row. `randomUUID` does not repeat an id. -/
def insertDelivery (record : DeliveryRecord) : Option Store :=
  match record.dedupeKey.bind (store.findDeliveryByDedupe record.endpointId) with
  | some _ => none
  | none => some ({ store with deliveries := store.deliveries.insertOrIgnore record }.trimDeliveries record.endpointId)

end Store

structure DeliveryPatch where
  status : Option NotificationDeliveryStatus
  statusReason : Option (Option String)
  addMessageIds : List String
  rendered : Option String
  deliveredAt : Option Int

def DeliveryPatch.apply (patch : DeliveryPatch) (record : DeliveryRecord) : DeliveryRecord :=
  { record with
    status := patch.status.getD record.status
    statusReason := patch.statusReason.getD record.statusReason
    messageIds := record.messageIds ++ patch.addMessageIds
    rendered := patch.rendered.getD record.rendered
    deliveredAt := patch.deliveredAt.or record.deliveredAt }

namespace Store

variable (store : Store)

def patchDelivery (id : String) (patch : DeliveryPatch) : Store :=
  { store with deliveries := store.deliveries.update (fun record => record.id = id) patch.apply fun _ => rfl }

/-- `none` where the source throws `not_found`. -/
def updateDelivery (id : String) (patch : DeliveryPatch) : Option Store :=
  match store.getDeliveryRecord id with
  | none => none
  | some _ => some (store.patchDelivery id patch)

/-! ## The queue -/

def insertPending (row : PendingRecord) : Store :=
  { store with
    pending := store.pending.insertOrIgnore { row with id := store.nextPending }
    nextPending := store.nextPending + 1 }

def pendingForMember (memberName : String) (reason : Option PendingReason) : List PendingRecord :=
  (store.pending.select fun row => row.memberName = memberName && reason.all fun asked => row.reason = asked).insertionSort
    fun left right => left.createdAt ≤ right.createdAt

def pendingDue (now : Int) : List PendingRecord :=
  (store.pending.select fun row => row.deadlineAt ≤ now).insertionSort fun left right => left.deadlineAt ≤ right.deadlineAt

def deletePending (ids : List Nat) : Store := { store with pending := store.pending.delete fun row => row.id ∈ ids }

end Store

end CommandSuite.Notifications
