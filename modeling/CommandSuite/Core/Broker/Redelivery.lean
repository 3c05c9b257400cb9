import CommandSuite.Core.Broker.Audience

/-! # Redelivery of released leases

Wherever the broker takes the leases of a subscription away it hands what became pending to
another ready subscription of the member, except when the subscription itself goes away.
-/

namespace CommandSuite.Broker

open Library Program MessageDelivery MessageDeliveryLedger LawfulLedger Transcript Action DeliveryView

section Statements

variable {L : Type} [MessageDeliveryLedger L]

def Moved (now : Int) (before after : L) (key : MessageKey) (view : DeliveryView) : Prop :=
  rowAt after key = some view ∧ view.state = .pending ∧ now < view.expiresAt ∧
    ∃ prior, rowAt before key = some prior ∧ prior.state = .accepted

/-- Whenever leases are released while others are ready, each moved row is then sent to one of them. -/
def NotStranded (now : Int) (effects : List (Effect L)) : Prop :=
  ∀ earlier member callback before after ready later,
    effects = earlier ++ .released member callback before after ready :: later → ready ≠ [] →
    ∀ key view, Moved now before after key view → ∃ other ∈ ready, .sent member other view.message ∈ later

theorem notStranded_nil (now : Int) : NotStranded now ([] : List (Effect L)) := by
  intro earlier member callback before after ready later hEffects
  cases earlier <;> cases hEffects

theorem NotStranded.append {now : Int} {first second : List (Effect L)} (h : NotStranded now first)
    (h' : NotStranded now second) : NotStranded now (first ++ second) := by
  intro earlier member callback before after ready later hEffects hReady key view hMoved
  rcases List.append_eq_append_iff.mp hEffects with ⟨rest, rfl, hSecond⟩ | ⟨rest, hFirst, hRest⟩
  · exact h' rest member callback before after ready later hSecond hReady key view hMoved
  · cases rest with
    | nil =>
      rw [List.append_nil] at hFirst
      exact h' [] member callback before after ready later hRest.symm hReady key view hMoved
    | cons effect rest =>
      obtain ⟨rfl, rfl⟩ := List.cons.inj hRest
      obtain ⟨other, hOther, hSent⟩ := h earlier member callback before after ready rest hFirst hReady key view hMoved
      exact ⟨other, hOther, List.mem_append_left _ hSent⟩

theorem notStranded_composes (now : Int) : Composes (NotStranded now (L := L)) where
  nil := notStranded_nil now
  append := .append

theorem notStranded_of_no_release {now : Int} {effects : List (Effect L)}
    (h : ∀ member callback before after ready, .released member callback before after ready ∉ effects) :
    NotStranded now effects := by
  intro earlier member callback before after ready later hEffects
  exact absurd (hEffects ▸ List.mem_append_right earlier List.mem_cons_self) (h member callback before after ready)

end Statements

section Actions

variable {L E : Type} [LawfulLedger L]

/-- The action keeps the lease columns in agreement and strands no released row. -/
abbrev Redelivers (now : Int) (action : Action L E) : Prop :=
  Keeps (fun broker => WellLeased broker.deliveryLedger) (NotStranded now) action

variable {now : Int}

theorem redelivers_sent (member : Name) (callback : Subscriber) (message : Message) :
    Redelivers now (emit (.sent member callback message) : Action L E) := by
  refine keeps_emit (notStranded_of_no_release ?_)
  simp

theorem redelivers_onLedger (op : Op) :
    Redelivers now (onLedger (fun ledger : L => (MessageDelivery.apply ledger op).1) : Action L E) :=
  keeps_update (notStranded_composes now) fun broker h => wellLeased_apply broker.deliveryLedger op h

theorem redelivers_redeliverPending (name : Name) (callback : Subscriber) (clientIdentity : Option ClientIdentity) :
    Redelivers now (redeliverPending now name callback clientIdentity : Action L E) := by
  intro broker hLeased
  unfold redeliverPending
  dsimp only
  split
  · exact ⟨hLeased, notStranded_nil now⟩
  · have hEach : Redelivers now (each (pending name now broker.deliveryLedger) fun row =>
        (emit (.sent name callback row.message)).andThen
          (if supportsDisposition clientIdentity then onLedger (noteSent row.message.id name now)
           else onLedger (markUnreported row.message.id name now)) : Action L E) := by
      refine keeps_each (notStranded_composes now) fun row _ => ?_
      refine (redelivers_sent name callback row.message).andThen (notStranded_composes now) ?_
      split
      · exact redelivers_onLedger (.noteSent row.message.id name now)
      · exact redelivers_onLedger (.markUnreported row.message.id name now)
    exact hEach broker hLeased

variable {name : Name} {callback : Subscriber}

theorem sent_of_redeliverPending {clientIdentity : Option ClientIdentity}
    (hCapable : supportsDisposition clientIdentity = true) (broker : Broker L E) {row : PendingMessageDelivery}
    (hRow : row ∈ pending name now broker.deliveryLedger) :
    .sent name callback row.message ∈ (redeliverPending now name callback clientIdentity broker).2 := by
  unfold redeliverPending
  dsimp only
  rw [hCapable]
  simp only [Bool.not_true, Bool.false_and, Bool.false_eq_true, if_false, if_true]
  refine mem_effects_each hRow ?_ broker
  intro broker
  exact List.mem_append_left _ List.mem_cons_self

theorem redelivers_redeliverToReady (name : Name) (excluded : Subscriber) :
    Redelivers now (redeliverToReady now name excluded : Action L E) := by
  intro broker hLeased
  unfold redeliverToReady
  split
  · exact ⟨hLeased, notStranded_nil now⟩
  · exact redelivers_redeliverPending name _ _ broker hLeased

theorem moved_releaseOwner_iff {ledger : L} (h : WellLeased ledger) (name : Name) (owner : String)
    (key : MessageKey) (view : DeliveryView) :
    Moved now ledger (MessageDelivery.apply ledger (.releaseOwner name owner)).1 key view ↔
      key.recipient = name ∧ ∃ prior, rowAt ledger key = some prior ∧ prior.isHeldBy owner = true ∧
        now < prior.expiresAt ∧ view = prior.release owner := by
  rw [Moved, rowAt_apply ledger _ key h, rowAfter]
  constructor
  · rintro ⟨hAfter, hPending, hTime, prior, hPrior, hAccepted⟩
    rw [hPrior] at hAfter
    split at hAfter
    · rename_i hKey
      obtain rfl := Option.some.inj hAfter
      by_cases hHeld : prior.isHeldBy owner = true
      · rw [show (prior.release owner).expiresAt = prior.expiresAt from
          congrArg PendingMessageDelivery.expiresAt (prior.release_toPending owner)] at hTime
        exact ⟨hKey, prior, hPrior, hHeld, hTime, rfl⟩
      · rw [release, if_neg hHeld, hAccepted] at hPending
        cases hPending
    · obtain rfl := Option.some.inj hAfter
      rw [hAccepted] at hPending
      cases hPending
  · rintro ⟨hKey, prior, hPrior, hHeld, hTime, rfl⟩
    rw [if_pos hKey, hPrior]
    refine ⟨rfl, ?_, ?_, prior, rfl, ((prior.isHeldBy_iff owner).mp hHeld).1⟩
    · rw [release, if_pos hHeld]
    · rw [show (prior.release owner).expiresAt = prior.expiresAt from
        congrArg PendingMessageDelivery.expiresAt (prior.release_toPending owner)]
      exact hTime

theorem mem_pending_of_moved {before after : L} (h : WellLeased after) {key : MessageKey} {view : DeliveryView}
    (hMoved : Moved now before after key view) :
    view.toPendingMessageDelivery ∈ pending key.recipient now after := by
  obtain ⟨hRow, hPending, hTime, _⟩ := hMoved
  have hKey := keyOf_rowAt after key view hRow
  obtain ⟨_, _, hRows⟩ : resultFrom lost after (.pending key.recipient now) (.rows (pending key.recipient now after)) :=
    result_apply after (.pending key.recipient now) h
  refine (hRows _).mpr ⟨congrArg MessageKey.recipient hKey, hTime, view, ?_, hPending, rfl⟩
  rw [hKey]
  exact hRow

def ownerOf (broker : Broker L E) (name : Name) (callback : Subscriber) : Option String :=
  truthy ((broker.registry.find name).bind fun state =>
    (state.subscribers.find callback).map Subscription.subscriptionId)

variable {broker : Broker L E}

theorem releaseLeases_of_none (h : ownerOf broker name callback = none) : releaseLeases name callback broker = (broker, []) := by
  unfold releaseLeases
  unfold ownerOf at h
  simp only [h]

theorem releaseLeases_of_some {owner : String}
    (h : ownerOf broker name callback = some owner) :
    releaseLeases name callback broker =
      ({ broker with deliveryLedger := (MessageDelivery.apply broker.deliveryLedger (.releaseOwner name owner)).1 },
        [.released name callback broker.deliveryLedger
          (MessageDelivery.apply broker.deliveryLedger (.releaseOwner name owner)).1
          ((broker.readyOthers name callback).map Subscription.callback)]) := by
  unfold releaseLeases
  unfold ownerOf at h
  simp only [h]
  rfl

omit [LawfulLedger L] in
theorem readyOthers_supports {excluded : Subscriber} {sub : Subscription}
    (h : sub ∈ broker.readyOthers name excluded) : supportsDisposition sub.clientIdentity = true := by
  unfold readyOthers at h
  split at h
  · cases h
  · obtain ⟨_, hReady⟩ := (Table.mem_select _ _ sub).mp h
    simp only [subscriberReady, Bool.and_eq_true] at hReady
    exact hReady.2.1.1

theorem redelivers_projectDegraded (name : Name) (callback : Subscriber) :
    Redelivers now ((projectDegraded name callback).andThen (redeliverToReady now name callback) : Action L E) := by
  intro broker hLeased
  cases hOwner : ownerOf broker name callback with
  | none =>
    have hRelease : projectDegraded name callback broker = (broker, []) := releaseLeases_of_none hOwner
    have hRest : Redelivers now (redeliverToReady now name callback : Action L E) := redelivers_redeliverToReady name callback
    unfold andThen
    rw [hRelease]
    exact hRest broker hLeased
  | some owner =>
    have hRelease := releaseLeases_of_some hOwner
    have hAfter := wellLeased_apply broker.deliveryLedger (.releaseOwner name owner) hLeased
    unfold andThen projectDegraded
    rw [hRelease]
    generalize hLedger : (MessageDelivery.apply broker.deliveryLedger (.releaseOwner name owner)).1 = ledger at *
    have hRest : Redelivers now (redeliverToReady now name callback : Action L E) := redelivers_redeliverToReady name callback
    obtain ⟨hLast, hSends⟩ := hRest { broker with deliveryLedger := ledger } hAfter
    refine ⟨hLast, ?_⟩
    intro earlier member sub before after ready later hEffects hReady key view hMoved
    cases earlier with
    | cons effect earlier =>
      exact hSends earlier member sub before after ready later (List.cons.inj hEffects).2 hReady key view hMoved
    | nil =>
      obtain ⟨hHead, rfl⟩ := List.cons.inj hEffects
      cases hHead
      -- The first of the ready subscriptions is the one that gets every pending row.
      cases hFirst : broker.readyOthers name callback with
      | nil =>
        rw [hFirst] at hReady
        exact absurd rfl hReady
      | cons first others =>
        refine ⟨first.callback, List.mem_cons_self, ?_⟩
        have hHead : (readyOthers { broker with deliveryLedger := ledger } name callback).head? = some first := by
          change (broker.readyOthers name callback).head? = some first
          rw [hFirst]
          rfl
        have hSupports := readyOthers_supports (hFirst ▸ List.mem_cons_self : first ∈ broker.readyOthers name callback)
        have hMoved' := hMoved
        rw [← hLedger] at hMoved'
        have hName := ((moved_releaseOwner_iff hLeased name owner key view).mp hMoved').1
        have hPending := mem_pending_of_moved hAfter hMoved
        rw [hName] at hPending
        unfold redeliverToReady
        rw [hHead]
        exact sent_of_redeliverPending hSupports { broker with deliveryLedger := ledger } hPending

variable [EventLog E] (idFactory : Nat → String)

omit [EventLog E] in
theorem redelivery_frames : Frames (fun broker : Broker L E => WellLeased broker.deliveryLedger) (NotStranded now) where
  composes := notStranded_composes now
  frame _ _ _ _ h := h
  ledger broker op _ h := wellLeased_apply broker.deliveryLedger op h

theorem redelivers_push (payload : PushPayload) (context : PushContext) :
    Redelivers now (fun broker : Broker L E => (push idFactory now payload context broker).2) := by
  refine fun broker => redelivery_frames.keepsAt_push idFactory fun targetName _ message _ => ⟨⟨?_, ?_⟩, ?_⟩
  · exact fun member _ broker h => wellLeased_apply broker.deliveryLedger (.track message member now) h
  · exact fun member _ callback => notStranded_of_no_release (by simp)
  · exact fun eventLog _ h => h

theorem redelivery_rules :
    Rules idFactory now (fun broker : Broker L E => WellLeased broker.deliveryLedger) (NotStranded now) where
  toFrames := redelivery_frames
  disposed event := notStranded_of_no_release (by simp)
  redeliverPending := redelivers_redeliverPending
  degrade := redelivers_projectDegraded
  refusals message sender body recipient reason := redelivers_push idFactory _ refusalContext

theorem redelivers_apply {event : BrokerEvent} (h : ∀ name callback, event ≠ .unsubscribe name callback) :
    Redelivers now (fun broker : Broker L E => apply idFactory broker (now, event)) :=
  fun broker => (redelivery_rules idFactory).keepsAt_apply
    (fun payload context _ => redelivers_push idFactory payload context broker)
    (fun name callback hGone => absurd hGone (h name callback))

/-- The subscription that goes away holds an unexpired lease, and another one is ready. -/
def StrandsOnUnsubscribe (now : Int) (event : BrokerEvent) (broker : Broker L E) : Prop :=
  ∃ name callback owner, event = .unsubscribe name callback ∧ ownerOf broker name callback = some owner ∧
    (broker.readyOthers name callback).isEmpty = false ∧
    ∃ key, key.recipient = name ∧ (rowAt broker.deliveryLedger key).any fun row =>
      row.isHeldBy owner && now < row.expiresAt

omit [EventLog E] in
theorem unsubscribe_notStranded_iff (hLeased : WellLeased broker.deliveryLedger)
    (name : Name) (callback : Subscriber) :
    NotStranded now (unsubscribe name callback broker).2 ↔ ¬StrandsOnUnsubscribe now (.unsubscribe name callback) broker := by
  cases hOwner : ownerOf broker name callback with
  | none =>
    have hEffects : (unsubscribe name callback broker).2 = [] := by
      simp [unsubscribe, andThen, projectSubscriberGone, releaseLeases_of_none hOwner, onRegistry]
    rw [hEffects]
    refine iff_of_true (notStranded_nil now) ?_
    rintro ⟨_, _, owner, hEvent, hSome, _⟩
    cases hEvent
    rw [hOwner] at hSome
    cases hSome
  | some owner =>
    have hEffects : (unsubscribe name callback broker).2 = [.released name callback broker.deliveryLedger
        (MessageDelivery.apply broker.deliveryLedger (.releaseOwner name owner)).1
        ((broker.readyOthers name callback).map Subscription.callback)] := by
      simp [unsubscribe, andThen, projectSubscriberGone, releaseLeases_of_some hOwner, onRegistry]
    rw [hEffects]
    constructor
    · rintro hNot ⟨_, _, owner', hEvent, hSome, hReady, key, hName, hHeld⟩
      cases hEvent
      rw [hOwner] at hSome
      cases hSome
      obtain ⟨prior, hPrior, hHeld⟩ := (Option.any_eq_true _ _).mp hHeld
      simp only [Bool.and_eq_true, decide_eq_true_eq] at hHeld
      have hMoved : Moved now broker.deliveryLedger _ key (prior.release owner) :=
        (moved_releaseOwner_iff hLeased name owner key (prior.release owner)).mpr
          ⟨hName, prior, hPrior, hHeld.1, hHeld.2, rfl⟩
      have hSome : (broker.readyOthers name callback).map Subscription.callback ≠ [] := by
        intro hNil
        rw [List.map_eq_nil_iff] at hNil
        rw [hNil] at hReady
        cases hReady
      obtain ⟨_, _, hSent⟩ := hNot [] name callback _ _ _ [] rfl hSome key _ hMoved
      cases hSent
    · intro hNot earlier member sub before after ready later hList hReady key view hMoved
      exfalso
      apply hNot
      obtain ⟨rfl, hSingle⟩ | ⟨_, rfl, hNil⟩ := List.cons_eq_append_iff.mp hList
      · obtain ⟨hRelease, _⟩ := List.cons.inj hSingle
        cases hRelease
        obtain ⟨hName, prior, hPrior, hHeld, hTime, _⟩ := (moved_releaseOwner_iff hLeased name owner key view).mp hMoved
        refine ⟨name, callback, owner, rfl, hOwner, ?_, key, hName, ?_⟩
        · cases hOthers : broker.readyOthers name callback with
          | nil =>
            rw [hOthers] at hReady
            exact absurd rfl hReady
          | cons => rfl
        · rw [hPrior]
          simp [hHeld, hTime]
      · simp at hNil

theorem wellLeased_step (broker : Broker L E) (event : Int × BrokerEvent) (h : WellLeased broker.deliveryLedger) :
    WellLeased (apply idFactory broker event).1.deliveryLedger := by
  obtain ⟨now, event⟩ := event
  by_cases hUnsubscribe : ∃ name callback, event = .unsubscribe name callback
  · obtain ⟨name, callback, rfl⟩ := hUnsubscribe
    change WellLeased (unsubscribe name callback broker).1.deliveryLedger
    cases hOwner : ownerOf broker name callback with
    | none =>
      simpa [unsubscribe, andThen, projectSubscriberGone, releaseLeases_of_none hOwner, onRegistry]
        using h
    | some owner =>
      simpa [unsubscribe, andThen, projectSubscriberGone, releaseLeases_of_some hOwner, onRegistry]
        using wellLeased_apply broker.deliveryLedger (.releaseOwner name owner) h
  · have hOther : ∀ name callback, event ≠ .unsubscribe name callback := by
      rintro name callback rfl
      exact hUnsubscribe ⟨name, callback, rfl⟩
    have hRedelivers : Redelivers now fun broker : Broker L E => apply idFactory broker (now, event) :=
      redelivers_apply idFactory hOther
    exact (hRedelivers broker h).1

theorem wellLeased_final (log : E) (events : List (Int × BrokerEvent)) :
    WellLeased (final (apply idFactory) (start log : Broker L E) events).deliveryLedger :=
  final_invariant (fun broker event h => wellLeased_step idFactory broker event h) wellLeased_empty events

/-- In every reachable state exactly the going away of a holder strands what it held. -/
theorem notStranded_iff (log : E) (events : List (Int × BrokerEvent)) (event : BrokerEvent) :
    NotStranded now (apply idFactory (final (apply idFactory) (start log : Broker L E) events) (now, event)).2 ↔
      ¬StrandsOnUnsubscribe now event (final (apply idFactory) (start log : Broker L E) events) := by
  have hLeased := wellLeased_final (L := L) idFactory log events
  by_cases hUnsubscribe : ∃ name callback, event = .unsubscribe name callback
  · obtain ⟨name, callback, rfl⟩ := hUnsubscribe
    exact unsubscribe_notStranded_iff hLeased name callback
  · have hOther : ∀ name callback, event ≠ .unsubscribe name callback := by
      rintro name callback rfl
      exact hUnsubscribe ⟨name, callback, rfl⟩
    refine iff_of_true (redelivers_apply idFactory hOther _ hLeased).2 ?_
    rintro ⟨name, callback, _, rfl, _⟩
    exact hOther name callback rfl

end Actions

/-- On either ledger and any log: what an event takes from its holder goes to a ready subscription, except
when the holder goes away. -/
theorem stranded_exactly_on_unsubscribe {E : Type} [EventLog E] (log : E) (idFactory : Nat → String) (now : Int)
    (events : List (Int × BrokerEvent)) (event : BrokerEvent) :
    (let broker := final (apply idFactory) (start log : Broker InMemoryMessageDeliveryLedger E) events
     NotStranded now (apply idFactory broker (now, event)).2 ↔ ¬StrandsOnUnsubscribe now event broker) ∧
    ∀ plan : SqliteMessageDeliveryLedger.ScanPlan,
      let broker := final (apply idFactory) (start log : Broker (SqliteMessageDeliveryLedger plan) E) events
      NotStranded now (apply idFactory broker (now, event)).2 ↔ ¬StrandsOnUnsubscribe now event broker :=
  ⟨notStranded_iff idFactory log events event, fun _ => notStranded_iff idFactory log events event⟩

def runner : ClientIdentity := .runner ⟨some .dispositionV1, some .runnerStateV1⟩

def runnerContext (subscriptionId : String) : IdentityContext := ⟨some "bob", none, none, some runner, none, some subscriptionId⟩

def ready : RunnerConditionFrame := ⟨1, .ready, none⟩

def accepted : List (Int × BrokerEvent) :=
  [(1, .subscribe bob 1 (runnerContext "s1")), (1, .subscribe bob 2 (runnerContext "s2")),
    (1, .runnerCondition bob ready (runnerContext "s1")), (1, .runnerCondition bob ready (runnerContext "s2")),
    (2, .push ⟨some "bob", none, "hello", none, none, none⟩ ⟨some "alice", none, none⟩),
    (3, .disposition bob (frame "m1" .accepted) (runnerContext "s1"))]

theorem unsubscribe_strands :
    ¬NotStranded 4 (apply (fun _ => "m1")
      (final (apply fun _ => "m1")
        (start ⟨[]⟩ : Broker InMemoryMessageDeliveryLedger InMemoryEventLog) accepted)
      (4, .unsubscribe bob 1)).2 := by
  have hStrands : StrandsOnUnsubscribe 4 (.unsubscribe bob 1)
      (final (apply fun _ => "m1")
        (start ⟨[]⟩ : Broker InMemoryMessageDeliveryLedger InMemoryEventLog) accepted) :=
    ⟨bob, 1, "s1", rfl, by decide, by decide, ⟨"m1", bob⟩, rfl, by decide⟩
  intro h
  exact (notStranded_iff _ _ accepted (.unsubscribe bob 1)).mp h hStrands

end CommandSuite.Broker
