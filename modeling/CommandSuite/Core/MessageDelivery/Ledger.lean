import CommandSuite.Core.Message
import CommandSuite.Library.Transcript

/-! # The message delivery ledger interface

The types of `packages/core/src/message-delivery.ts` that both ledgers share, the seven
operations of `MessageDeliveryLedger`, and the machine that applies them one after another.
-/

namespace CommandSuite

def MESSAGE_DELIVERY_TTL_MS : Int := 24 * 60 * 60000

inductive Disposition where
  | accepted | acted | handled | deferred | refused
  deriving DecidableEq

inductive ReasonCode where
  | degraded | turnFailed | expired | unsupported | operatorPolicy
  deriving DecidableEq

structure DispositionReason where
  code : ReasonCode
  detail : String
  deriving DecidableEq

structure MessageDispositionFrame where
  messageId : String
  disposition : Disposition
  at_ : Int
  reason : Option DispositionReason

structure PendingMessageDelivery where
  message : Message
  recipient : Name
  attempts : Nat
  firstSentAt : Option Int
  lastSentAt : Option Int
  expiresAt : Int

structure ExpiredMessageDelivery extends PendingMessageDelivery where
  sender : Option String

inductive DeliveryState where
  | pending | accepted | acted | handled | refused | unreported
  deriving DecidableEq

namespace MessageDelivery

def Terminal : Disposition → Option DeliveryState
  | .acted => some .acted
  | .handled => some .handled
  | .refused => some .refused
  | .accepted | .deferred => none

def expiredReason : DispositionReason := ⟨.expired, "message acknowledgement expired after 24 hours"⟩

structure MessageKey where
  messageId : String
  recipient : Name
  deriving DecidableEq

def keyOf (delivery : PendingMessageDelivery) : MessageKey := ⟨delivery.message.id, delivery.recipient⟩

/-- What a run can observe of a row: the fields both ledgers store and the lease. -/
structure DeliveryView extends PendingMessageDelivery where
  state : DeliveryState
  acceptedOwner : Option String

end MessageDelivery

open MessageDelivery

/-- The interface of the source. `rowAt` is no operation of it: it is the row a key has. -/
class MessageDeliveryLedger (L : Type) where
  track : Message → Name → Int → L → L
  noteSent : String → Name → Int → L → L
  settle : Name → MessageDispositionFrame → String → Bool → L → Option PendingMessageDelivery × L
  releaseOwner : Name → String → L → Nat × L
  pending : Name → Int → L → List PendingMessageDelivery
  expire : Int → L → List ExpiredMessageDelivery × L
  markUnreported : String → Name → Int → L → L
  rowAt : L → MessageKey → Option DeliveryView

namespace MessageDelivery

inductive Op where
  | track (message : Message) (recipient : Name) (now : Int)
  | noteSent (messageId : String) (recipient : Name) (now : Int)
  | settle (recipient : Name) (frame : MessageDispositionFrame) (owner : String) (requireAcceptance : Bool)
  | releaseOwner (recipient : Name) (owner : String)
  | pending (recipient : Name) (now : Int)
  | expire (now : Int)
  | markUnreported (messageId : String) (recipient : Name) (now : Int)

def trackedKey : Op → Option MessageKey
  | .track message recipient _ => some ⟨message.id, recipient⟩
  | _ => none

def Fresh (ops : List Op) : Prop := (ops.filterMap trackedKey).Nodup

instance (ops : List Op) : Decidable (Fresh ops) := inferInstanceAs (Decidable (List.Nodup _))

inductive Result where
  | unit
  | settled (row : Option PendingMessageDelivery)
  | released (count : Nat)
  | rows (rows : List PendingMessageDelivery)
  | expired (rows : List ExpiredMessageDelivery)

def apply {L : Type} [MessageDeliveryLedger L] : Library.Transcript.Machine L Op Result
  | ledger, .track message recipient now =>
    (MessageDeliveryLedger.track message recipient now ledger, .unit)
  | ledger, .noteSent messageId recipient now =>
    (MessageDeliveryLedger.noteSent messageId recipient now ledger, .unit)
  | ledger, .settle recipient frame owner requireAcceptance =>
    let (row, ledger) := MessageDeliveryLedger.settle recipient frame owner requireAcceptance ledger
    (ledger, .settled row)
  | ledger, .releaseOwner recipient owner =>
    let (count, ledger) := MessageDeliveryLedger.releaseOwner recipient owner ledger
    (ledger, .released count)
  | ledger, .pending recipient now => (ledger, .rows (MessageDeliveryLedger.pending recipient now ledger))
  | ledger, .expire now =>
    let (rows, ledger) := MessageDeliveryLedger.expire now ledger
    (ledger, .expired rows)
  | ledger, .markUnreported messageId recipient now =>
    (MessageDeliveryLedger.markUnreported messageId recipient now ledger, .unit)

end MessageDelivery

end CommandSuite
