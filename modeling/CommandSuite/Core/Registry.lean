import CommandSuite.Core.Message
import CommandSuite.Library.Table

/-! # The presence registry

`packages/core/src/registry.ts`: the registered members and, for each, the live subscriptions
with what their sockets have reported. The maps that the source keys by subscriber are one
record here; they are filled and emptied together.
-/

namespace CommandSuite

open Library

abbrev Subscriber := Nat

inductive DeliveryProtocol where
  | dispositionV1
  deriving DecidableEq

inductive LivenessProtocol where
  | runnerStateV1
  deriving DecidableEq

structure RunnerIdentity where
  deliveryProtocol : Option DeliveryProtocol
  livenessProtocol : Option LivenessProtocol
  deriving DecidableEq

inductive ClientIdentity where
  | runner (runnerIdentity : RunnerIdentity)
  | browser
  | cli
  | sdk
  deriving DecidableEq

namespace ClientIdentity

/-- `identity?.kind === 'runner'`. -/
def isRunner : Option ClientIdentity → Bool
  | some (.runner _) => true
  | _ => false

end ClientIdentity

def supportsDisposition : Option ClientIdentity → Bool
  | some (.runner identity) => identity.deliveryProtocol = some .dispositionV1
  | _ => false

inductive RunnerState where
  | ready | degraded
  deriving DecidableEq

inductive RunnerConditionCode where
  | noCredential | invalidModel | modelUnavailable | serverOverloaded | authBlocked | unknown
  deriving DecidableEq

structure RunnerConditionReason where
  code : RunnerConditionCode
  detail : String

structure RunnerConditionFrame where
  at_ : Int
  state : RunnerState
  reason : Option RunnerConditionReason

inductive TurnOutcome where
  | acted | noAction | failed
  deriving DecidableEq

inductive TurnPhase where
  | started
  | completed (outcome : TurnOutcome)

structure RunnerTurnFrame where
  at_ : Int
  turnId : String
  phase : TurnPhase

structure Role where
  title : String
  description : String

structure Subscription where
  callback : Subscriber
  tokenId : Option String
  clientIdentity : Option ClientIdentity
  subscriptionId : String
  runnerCondition : Option RunnerConditionFrame
  runnerTurns : List (String × Int)
  runnerLastActedAt : Option Int
  runnerLastTurn : Option (Int × TurnOutcome)

abbrev Subscription.key (subscription : Subscription) : Subscriber := subscription.callback

structure PresenceState where
  name : Name
  createdAt : Int
  lastSeen : Int
  role : Option Role
  subscribers : Table Subscription.key

abbrev PresenceState.key (state : PresenceState) : Name := state.name

abbrev PresenceRegistry := Table PresenceState.key

namespace PresenceState

def mapSubscription (state : PresenceState) (callback : Subscriber) (f : Subscription → Subscription)
    (keeps : ∀ subscription, (f subscription).callback = subscription.callback) : PresenceState :=
  { state with subscribers := state.subscribers.update (fun sub => sub.callback = callback) f keeps }

def findSubscription (state : PresenceState) (id : Option String) : Option Subscription :=
  match id with
  | none => none
  | some id => if id = "" then none else state.subscribers.rows.find? fun sub => sub.subscriptionId = id

end PresenceState

namespace PresenceRegistry

def get (registry : PresenceRegistry) (name : String) : Option PresenceState := (Name.parse name).bind registry.find

def registerOrGet (name : Name) (now : Int) (role : Option Role) (registry : PresenceRegistry) :
    PresenceRegistry :=
  match registry.find name with
  | some _ =>
    registry.update (fun state => state.name = name) (fun state => { state with lastSeen := now }) (fun _ => rfl)
  | none =>
    registry.insertOrIgnore
      { name := name, createdAt := now, lastSeen := now, role := role, subscribers := Table.empty }

def modify (name : Name) (f : PresenceState → PresenceState)
    (keeps : ∀ state, (f state).name = state.name) (registry : PresenceRegistry) : PresenceRegistry :=
  registry.update (fun state => state.name = name) f keeps

theorem get_name (registry : PresenceRegistry) (name : Name) : get registry name.text = registry.find name := by
  have hParse : Name.parse name.text = some name := (Name.parse_eq_some_iff name.text name).mpr rfl
  rw [get, hParse, Option.bind_some]

theorem find_modify (registry : PresenceRegistry) (name : Name) (f : PresenceState → PresenceState)
    (keeps : ∀ state, (f state).name = state.name) (other : Name) :
    (modify name f keeps registry).find other =
      if other = name then (registry.find other).map f else registry.find other := by
  rw [modify, Table.find_update]
  cases hFind : registry.find other with
  | none => simp
  | some state =>
    have hName : state.name = other := Table.key_of_find hFind
    by_cases h : other = name <;> simp [hName, h]

end PresenceRegistry

end CommandSuite
