import CommandSuite.Core.Broker.Rules
import CommandSuite.Core.EventLogReads

/-! # What the broker holds and hands out

Every message in the ledger, in the log and on a member's stream came in through a push.
-/

namespace CommandSuite

open Library Program MessageDelivery MessageDeliveryLedger LawfulLedger EventLog LawfulEventLog

theorem MessageDelivery.message_of_rowAfter {released : String → Bool} {key : MessageKey} {op : Op}
    {view after : DeliveryView} (h : rowAfter released key op (some view) = some after) :
    after.message = view.message := by
  cases op with
  | track => exact congrArg (fun view : DeliveryView => view.message) (Option.some.inj h).symm
  | noteSent =>
    rw [rowAfter] at h
    split at h <;> cases h
    · unfold DeliveryView.noteSent
      split <;> rfl
    · rfl
  | settle recipient frame owner requireAcceptance =>
    rw [rowAfter] at h
    split at h <;> cases h
    · cases hSettle : view.settle (released owner) frame owner requireAcceptance with
      | none =>
        dsimp only
        rw [hSettle]
        rfl
      | some settled =>
        dsimp only
        rw [hSettle]
        exact congrArg PendingMessageDelivery.message (DeliveryView.settle_toPending hSettle)
    · rfl
  | releaseOwner recipient owner =>
    rw [rowAfter] at h
    split at h <;> cases h
    · exact congrArg PendingMessageDelivery.message (view.release_toPending owner)
    · rfl
  | pending => exact congrArg (fun view : DeliveryView => view.message) (Option.some.inj h).symm
  | expire =>
    rw [rowAfter, Option.filter_eq_some_iff] at h
    exact congrArg (fun view : DeliveryView => view.message) (Option.some.inj h.1).symm
  | markUnreported =>
    rw [rowAfter] at h
    split at h <;> cases h
    · exact congrArg PendingMessageDelivery.message view.markUnreported_toPending
    · rfl

namespace Broker

section Effects

variable {L : Type} (P : Name → Message → Prop)

def Sends (effects : List (Effect L)) : Prop :=
  ∀ member callback message, .sent member callback message ∈ effects → P member message

theorem sends_composes : Composes ((Sends P : List (Effect L) → Prop)) where
  nil := by simp [Sends]
  append hFirst hSecond member callback message hMem :=
    (List.mem_append.mp hMem).elim (hFirst member callback message) (hSecond member callback message)

theorem sends_of_no_sent {effect : Effect L} (h : ∀ member callback message, effect ≠ .sent member callback message) :
    Sends P [effect] :=
  fun member callback message hMem => absurd (List.mem_singleton.mp hMem).symm (h member callback message)

theorem sends_sent {member : Name} {message : Message} (h : P member message) (callback : Subscriber) :
    Sends P [(.sent member callback message : Effect L)] := by
  intro member' callback' message' hMem
  cases List.mem_singleton.mp hMem
  exact h

end Effects

variable {L E : Type} [LawfulLedger L] [LawfulEventLog E] (P : Name → Message → Prop) (G : StoredEvent → Prop)

structure Contents (broker : Broker L E) : Prop where
  leased : WellLeased broker.deliveryLedger
  rows : ∀ key view, rowAt broker.deliveryLedger key = some view → P key.recipient view.message
  entries : ∀ entry, Stores broker.eventLog entry → G entry

theorem contents_frames : Frames (Contents P G : Broker L E → Prop) (Sends P) where
  composes := sends_composes P
  frame _ _ _ _ h := ⟨h.leased, h.rows, h.entries⟩
  ledger broker op hNotTracked h := by
    refine ⟨wellLeased_apply broker.deliveryLedger op h.leased, ?_, h.entries⟩
    intro key after hAfter
    rw [rowAt_apply broker.deliveryLedger op key h.leased] at hAfter
    cases hRow : rowAt broker.deliveryLedger key with
    | none =>
      rw [hRow, rowAfter_of_not_tracked (by simp [hNotTracked])] at hAfter
      cases hAfter
    | some view =>
      rw [hRow] at hAfter
      rw [message_of_rowAfter hAfter]
      exact h.rows key view hRow

theorem contents_admits {now : Int} {message : Message} {members : List Name} (h : ∀ member ∈ members, P member message) :
    Admits (Contents P G : Broker L E → Prop) (Sends P) now message members where
  sent member hMember := sends_sent P (h member hMember)
  track member hMember broker hContents := by
    refine ⟨wellLeased_apply broker.deliveryLedger (.track message member now) hContents.leased, ?_, hContents.entries⟩
    intro key after hAfter
    rw [rowAt_apply broker.deliveryLedger _ key hContents.leased, rowAfter] at hAfter
    rcases Option.or_eq_some_iff.mp hAfter with hOld | ⟨_, hNew⟩
    · exact hContents.rows key after hOld
    · split at hNew
      · rename_i hKey
        cases hNew
        subst hKey
        exact h member hMember
      · cases hNew

variable {P G}

theorem contents_push (idFactory : Nat → String) {now : Int} {payload : PushPayload} {context : PushContext}
    {broker : Broker L E}
    (h : ∀ targetName message, resolveTarget payload.toName = .ok targetName →
      message = messageOf (idFactory broker.minted) now targetName payload context →
      (∀ member ∈ broker.fanout targetName context, P member message) ∧ G ⟨message, audience targetName context⟩) :
    KeepsAt (Contents P G) (Sends P) (fun broker => (push idFactory now payload context broker).2) broker := by
  refine (contents_frames P G).keepsAt_push idFactory fun targetName hResolve message hMessage => ?_
  obtain ⟨hMembers, hEntry⟩ := h targetName message hResolve hMessage
  refine ⟨contents_admits P G hMembers, ?_⟩
  intro eventLog hAppend hContents
  refine ⟨hContents.leased, hContents.rows, ?_⟩
  intro entry hStored
  rcases stores_append _ _ _ _ entry hAppend hStored with hOld | rfl
  · exact hContents.entries entry hOld
  · exact hEntry

theorem contents_redeliverPending (now : Int) (name : Name) (callback : Subscriber) (clientIdentity : Option ClientIdentity) :
    Keeps (Contents P G : Broker L E → Prop) (Sends P) (redeliverPending now name callback clientIdentity) := by
  intro broker hContents
  have hRows : ∀ row ∈ pending name now broker.deliveryLedger, P name row.message := by
    intro row hRow
    obtain ⟨_, _, hRows⟩ : resultFrom lost broker.deliveryLedger (.pending name now) (.rows (pending name now broker.deliveryLedger)) :=
      result_apply broker.deliveryLedger (.pending name now) hContents.leased
    obtain ⟨hName, _, view, hView, _, rfl⟩ := (hRows row).mp hRow
    exact hName ▸ hContents.rows _ view hView
  unfold redeliverPending
  dsimp only
  split
  · exact ⟨hContents, (sends_composes P).nil⟩
  · have hFrames := contents_frames (L := L) (E := E) P G
    have hEach : Keeps (Contents P G) (Sends P) (each (pending name now broker.deliveryLedger) fun row =>
        (emit (.sent name callback row.message)).andThen
          (if supportsDisposition clientIdentity then Action.onLedger (noteSent row.message.id name now)
           else Action.onLedger (markUnreported row.message.id name now)) : Action L E) := by
      refine keeps_each hFrames.composes fun row hRow => ?_
      refine (keeps_emit (sends_sent P (hRows row hRow) callback)).andThen hFrames.composes ?_
      split
      · exact keeps_update hFrames.composes fun broker => hFrames.ledger broker (.noteSent row.message.id name now) rfl
      · exact keeps_update hFrames.composes fun broker =>
          hFrames.ledger broker (.markUnreported row.message.id name now) rfl
    exact hEach broker hContents

theorem contents_redeliverToReady (now : Int) (name : Name) (excluded : Subscriber) :
    Keeps (Contents P G : Broker L E → Prop) (Sends P) (redeliverToReady now name excluded) := by
  intro broker hContents
  unfold redeliverToReady
  split
  · exact ⟨hContents, (sends_composes P).nil⟩
  · exact contents_redeliverPending now name _ _ broker hContents

theorem contents_releaseLeases (name : Name) (callback : Subscriber) :
    Keeps (Contents P G : Broker L E → Prop) (Sends P) (releaseLeases name callback) := by
  intro broker hContents
  unfold releaseLeases
  dsimp only
  split
  · exact ⟨hContents, (sends_composes P).nil⟩
  · rename_i owner _
    exact ⟨(contents_frames P G).ledger broker (.releaseOwner name owner) rfl hContents, sends_of_no_sent P (by simp)⟩

/-- The properties hold of the messages the broker itself pushes. -/
def AllowsRefusals (P : Name → Message → Prop) (G : StoredEvent → Prop) : Prop :=
  ∀ id now message sender body recipient reason targetName,
    resolveTarget (some sender) = .ok targetName →
    let refused := messageOf id now targetName (refusal message sender body recipient reason) refusalContext
    (∀ member, P member refused) ∧ G ⟨refused, audience targetName refusalContext⟩

theorem contents_rules (idFactory : Nat → String) (now : Int) (h : AllowsRefusals P G) :
    Rules idFactory now (Contents P G : Broker L E → Prop) (Sends P) where
  toFrames := contents_frames P G
  disposed _ := sends_of_no_sent P (by simp)
  redeliverPending := contents_redeliverPending now
  degrade name callback :=
    (contents_releaseLeases name callback).andThen (sends_composes P) (contents_redeliverToReady now name callback)
  refusals message sender body recipient reason := by
    intro broker
    refine contents_push idFactory ?_
    rintro targetName _ hResolve rfl
    obtain ⟨hMembers, hEntry⟩ := h _ now message sender body recipient reason targetName hResolve
    exact ⟨fun member _ => hMembers member, hEntry⟩

theorem contents_apply (idFactory : Nat → String) {now : Int} {event : BrokerEvent} {broker : Broker L E}
    (hRefusals : AllowsRefusals P G)
    (hPush : ∀ payload context, event = .push payload context → ∀ targetName message,
      resolveTarget payload.toName = .ok targetName →
      message = messageOf (idFactory broker.minted) now targetName payload context →
      (∀ member ∈ broker.fanout targetName context, P member message) ∧ G ⟨message, audience targetName context⟩) :
    KeepsAt (Contents P G) (Sends P) (fun broker => apply idFactory broker (now, event)) broker := by
  have hRules := contents_rules (L := L) (E := E) idFactory now hRefusals
  refine hRules.keepsAt_apply ?_ ?_
  · exact fun payload context hEvent => contents_push idFactory (hPush payload context hEvent)
  · exact fun name callback _ => (contents_releaseLeases name callback).andThen (sends_composes P)
      (hRules.toFrames.onRegistry _) broker

theorem contents_start {log : E} (h : ∀ entry, Stores log entry → G entry) : Contents P G (start log : Broker L E) where
  leased := wellLeased_empty
  rows key view hRow := by
    rw [show rowAt (start log : Broker L E).deliveryLedger key = none from rowAt_empty key] at hRow
    cases hRow
  entries := h

end Broker

end CommandSuite
