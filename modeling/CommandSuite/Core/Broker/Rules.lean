import CommandSuite.Core.Broker

/-! # Rules of the broker

What has to be shown of the broker's parts for an invariant, together with a property of the
effects, to hold of a whole operation: each operation is put together from these parts once.
-/

namespace CommandSuite.Broker

open Library Program MessageDelivery

variable {L E : Type} [MessageDeliveryLedger L] [EventLog E]

/-- The invariant does not read the registry, and only a push can make a row or an entry. -/
structure Frames (I : Broker L E → Prop) (Q : List (Effect L) → Prop) : Prop where
  composes : Composes Q
  frame : ∀ broker registry blockedTokenIds minted, I broker →
    I { broker with registry := registry, blockedTokenIds := blockedTokenIds, minted := minted }
  ledger : ∀ broker op, trackedKey op = none → I broker →
    I { broker with deliveryLedger := (MessageDelivery.apply broker.deliveryLedger op).1 }

structure Admits (I : Broker L E → Prop) (Q : List (Effect L) → Prop) (now : Int) (message : Message)
    (members : List Name) : Prop where
  track : ∀ member ∈ members, ∀ broker, I broker →
    I { broker with deliveryLedger := (MessageDelivery.apply broker.deliveryLedger (.track message member now)).1 }
  sent : ∀ member ∈ members, ∀ callback, Q [.sent member callback message]

namespace Frames

variable {now : Int} {I : Broker L E → Prop} {Q : List (Effect L) → Prop} (frames : Frames I Q)
include frames

omit [EventLog E] in
theorem onRegistry (f : PresenceRegistry → PresenceRegistry) : Keeps I Q (Action.onRegistry f) :=
  keeps_update frames.composes fun broker h =>
    frames.frame broker (f broker.registry) broker.blockedTokenIds broker.minted h

variable {context : PushContext} {broker : Broker L E}

omit [EventLog E] in
theorem keepsAt_deliver {message : Message} {targetName : Option Name} (h : Admits I Q now message (broker.fanout targetName context)) :
    KeepsAt I Q (fun broker => (deliver now message targetName context broker).2) broker := by
  have hTarget : ∀ state ∈ (broker.fanout targetName context).filterMap broker.registry.find,
      state.name ∈ broker.fanout targetName context := by
    intro state hState
    obtain ⟨name, hName, hFind⟩ := List.mem_filterMap.mp hState
    rw [show state.name = name from Table.key_of_find hFind]
    exact hName
  intro hInvariant
  dsimp only
  unfold deliver
  dsimp only
  refine (keeps_each frames.composes fun state hState => ?_).andThen frames.composes
    ((keeps_each frames.composes fun state _ => frames.onRegistry _).andThen frames.composes
      (keeps_each frames.composes fun task hTask => ?_)) broker hInvariant
  · have hMember := hTarget state (List.mem_filter.mp (List.mem_filter.mp hState).1).1
    exact keeps_update frames.composes (h.track state.name hMember)
  · obtain ⟨state, hState, hTask⟩ := List.mem_flatMap.mp hTask
    obtain ⟨sub, _, rfl⟩ := List.mem_map.mp hTask
    refine (keeps_emit (h.sent state.name (hTarget state hState) _)).andThen frames.composes ?_
    split
    · exact keeps_update frames.composes fun broker => frames.ledger broker (.noteSent message.id state.name now) rfl
    · exact keeps_skip frames.composes

theorem keepsAt_push (idFactory : Nat → String) {payload : PushPayload} (h : ∀ targetName, resolveTarget payload.toName = .ok targetName →
      ∀ message, message = messageOf (idFactory broker.minted) now targetName payload context →
        Admits I Q now message (broker.fanout targetName context) ∧
          ∀ eventLog, EventLog.append message (audience targetName context) broker.eventLog = some eventLog →
            I broker → I { broker with eventLog := eventLog }) :
    KeepsAt I Q (fun broker => (push idFactory now payload context broker).2) broker := by
  intro hInvariant
  dsimp only
  unfold push
  split
  · exact ⟨hInvariant, frames.composes.nil⟩
  · split
    · exact ⟨hInvariant, frames.composes.nil⟩
    · rename_i targetName hResolve
      obtain ⟨hAdmits, hAppend⟩ := h targetName hResolve _ rfl
      dsimp only
      split
      · exact ⟨frames.frame broker broker.registry broker.blockedTokenIds _ hInvariant, frames.composes.nil⟩
      · rename_i eventLog hLog
        refine frames.keepsAt_deliver ?_ ?_
        · exact hAdmits
        · exact frames.frame _ broker.registry broker.blockedTokenIds _ (hAppend eventLog hLog hInvariant)

end Frames

structure Rules (idFactory : Nat → String) (now : Int) (I : Broker L E → Prop) (Q : List (Effect L) → Prop) : Prop
    extends Frames I Q where
  disposed : ∀ event, Q [.disposed event]
  redeliverPending : ∀ name callback clientIdentity, Keeps I Q (redeliverPending now name callback clientIdentity)
  degrade : ∀ name callback, Keeps I Q ((projectDegraded name callback).andThen (redeliverToReady now name callback))
  refusals : ∀ message sender body recipient reason,
    Keeps I Q fun broker => (push idFactory now (refusal message sender body recipient reason) refusalContext broker).2

namespace Rules

variable {idFactory : Nat → String} {now : Int} {I : Broker L E → Prop} {Q : List (Effect L) → Prop}
  (rules : Rules idFactory now I Q)
include rules

theorem keeps_register (name : Name) (context : IdentityContext) : Keeps I Q (register now name context) := by
  unfold register
  split
  · exact rules.toFrames.onRegistry _
  · exact keeps_skip rules.composes

theorem keeps_subscribe (name : Name) (callback : Subscriber) (context : IdentityContext) :
    Keeps I Q (subscribe idFactory now name callback context) := by
  unfold subscribe
  split
  · exact fun broker h => ⟨rules.frame broker _ broker.blockedTokenIds _ h, rules.composes.nil⟩
  · exact keeps_skip rules.composes

theorem keeps_disposition (name : Name) (frame : MessageDispositionFrame) (context : IdentityContext) :
    Keeps I Q (disposition idFactory now name frame context) := by
  intro broker h
  have hSettled : ∀ owner requireAcceptance result,
      MessageDeliveryLedger.settle name frame owner requireAcceptance broker.deliveryLedger = result →
      I { broker with deliveryLedger := result.2 } := by
    rintro owner requireAcceptance _ rfl
    exact rules.ledger broker (.settle name frame owner requireAcceptance) rfl h
  unfold disposition
  split
  · dsimp only
    split
    · split
      · rename_i hSettle
        exact ⟨hSettled _ _ _ hSettle, rules.composes.nil⟩
      · rename_i hSettle
        refine (keeps_emit (rules.disposed _)).andThen rules.composes ?_ _ (hSettled _ _ _ hSettle)
        intro broker h
        dsimp only
        split
        · exact rules.refusals _ _ _ _ _ broker h
        · exact ⟨h, rules.composes.nil⟩
    · exact ⟨h, rules.composes.nil⟩
  · exact ⟨h, rules.composes.nil⟩

theorem keeps_refuseExpired (rows : List ExpiredMessageDelivery) : Keeps I Q (refuseExpired idFactory now rows : Action L E) := by
  induction rows with
  | nil => exact fun broker h => ⟨h, rules.composes.nil⟩
  | cons row rows ih =>
    intro broker h
    rw [refuseExpired]
    refine (keeps_emit (rules.disposed _)).andThen rules.composes ?_ broker h
    intro broker h
    dsimp only
    split
    · exact ih broker h
    · rename_i sender _
      have hPush := rules.refusals row.message sender
        ("Message " ++ row.message.id ++ " to " ++ row.recipient.text ++ " expired without acknowledgement.")
        row.recipient (.string "expired") broker h
      split
      · rename_i hResult
        simp only [hResult] at hPush
        exact hPush
      · rename_i hResult
        simp only [hResult] at hPush
        obtain ⟨hLast, hLater⟩ := ih _ hPush.1
        exact ⟨hLast, rules.composes.append hPush.2 hLater⟩

theorem keeps_runnerCondition (name : Name) (frame : RunnerConditionFrame) (context : IdentityContext) :
    Keeps I Q (runnerCondition now name frame context) := by
  intro broker h
  unfold runnerCondition
  split
  · exact ⟨h, rules.composes.nil⟩
  · rename_i sub _
    refine (rules.toFrames.onRegistry _).andThen rules.composes ?_ broker h
    split
    · exact rules.degrade name sub.callback
    · split
      · exact rules.redeliverPending name sub.callback context.clientIdentity
      · exact keeps_skip rules.composes

theorem keeps_runnerTurn (name : Name) (frame : RunnerTurnFrame) (context : IdentityContext) :
    Keeps I Q (runnerTurn now name frame context) := by
  intro broker h
  unfold runnerTurn
  split
  · exact ⟨h, rules.composes.nil⟩
  · rename_i sub _
    split
    · exact rules.toFrames.onRegistry _ broker h
    · split
      · refine (rules.toFrames.onRegistry _).andThen rules.composes ?_ broker h
        split
        · exact (rules.toFrames.onRegistry _).andThen rules.composes (rules.degrade name sub.callback)
        · exact keeps_skip rules.composes
      · exact ⟨h, rules.composes.nil⟩

theorem keeps_sweepSubscription (name : Name) (callback : Subscriber) : Keeps I Q (sweepSubscription now name callback) := by
  intro broker h
  unfold sweepSubscription
  dsimp only
  split
  · exact (rules.toFrames.onRegistry _).andThen rules.composes (rules.degrade name callback) broker h
  · exact ⟨h, rules.composes.nil⟩

theorem keeps_blockSubscription (name : Name) (callback : Subscriber) : Keeps I Q (blockSubscription now name callback) := by
  intro broker h
  unfold blockSubscription
  dsimp only
  split
  · exact rules.degrade name callback broker h
  · exact ⟨h, rules.composes.nil⟩

/-- Every operation is put together from the parts, except a push and an `unsubscribe`. -/
theorem keepsAt_apply {broker : Broker L E} {event : BrokerEvent}
    (hPush : ∀ payload context, event = .push payload context →
      KeepsAt I Q (fun broker => (push idFactory now payload context broker).2) broker)
    (hGone : ∀ name callback, event = .unsubscribe name callback → KeepsAt I Q (unsubscribe name callback) broker) :
    KeepsAt I Q (fun broker => apply idFactory broker (now, event)) broker := by
  cases event with
  | register name context => exact rules.keeps_register name context broker
  | seedMembers members => exact keeps_each rules.composes (fun member _ => rules.toFrames.onRegistry _) broker
  | push payload context => exact hPush payload context rfl
  | subscribe name callback context => exact rules.keeps_subscribe name callback context broker
  | unsubscribe name callback => exact hGone name callback rfl
  | disposition name frame context => exact rules.keeps_disposition name frame context broker
  | runnerCondition name frame context => exact rules.keeps_runnerCondition name frame context broker
  | runnerTurn name frame context => exact rules.keeps_runnerTurn name frame context broker
  | sweepOpenTurnBackstops =>
    exact keeps_each rules.composes (fun entry _ => rules.keeps_sweepSubscription entry.1 entry.2) broker
  | redeliverPending name callback clientIdentity => exact rules.redeliverPending name callback clientIdentity broker
  | sweepMessageDeliveries =>
    exact fun h => rules.keeps_refuseExpired _ _ (rules.ledger broker (.expire now) rfl h)
  | blockTokens tokenIds =>
    exact fun h => keeps_each rules.composes (fun entry _ => rules.keeps_blockSubscription entry.1 entry.2) _
      (rules.frame broker broker.registry _ broker.minted h)

end Rules

end CommandSuite.Broker
