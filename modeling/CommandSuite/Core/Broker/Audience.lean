import CommandSuite.Core.Broker.Rules
import CommandSuite.Core.MessageDelivery.Agreement

/-! # Live delivery and durable readback

`push` chooses the presences it fans out to and, from the same arguments, the audience it writes beside the message.
-/

namespace CommandSuite.Broker

open Library Program EventLog Table

variable {L E : Type} [MessageDeliveryLedger L] [EventLog E]

theorem truthy_eq_some_iff (text : Option String) (name : Name) : truthy text = some name.text ↔ text = some name.text := by
  rw [truthy, Option.filter_eq_some_iff]
  exact and_iff_left (by simpa using name.text_ne_empty)

variable {broker : Broker L E} {member : Name}

omit [MessageDeliveryLedger L] [EventLog E] in
theorem registered_eq_some_iff (hMember : (broker.registry.find member).isSome)
    (name : String) : broker.registered name = some member ↔ name = member.text := by
  constructor
  · intro h
    obtain ⟨state, hGet, rfl⟩ := Option.map_eq_some_iff.mp h
    obtain ⟨parsed, hParse, hFind⟩ := Option.bind_eq_some_iff.mp hGet
    rw [show state.name = parsed from key_of_find hFind]
    exact ((Name.parse_eq_some_iff name parsed).mp hParse).symm
  · rintro rfl
    obtain ⟨state, hState⟩ := Option.isSome_iff_exists.mp hMember
    rw [registered, PresenceRegistry.get_name, hState]
    exact congrArg some (key_of_find hState)

/-- Who a push is for: the two ends of a direct message, the list and its sender, or everybody. -/
def Addresses (targetName : Option Name) (context : PushContext) (member : Name) : Prop :=
  context.fromName = some member.text ∨
    match targetName with
    | some target => target = member
    | none => ∀ recipients, context.recipients = some recipients → member.text ∈ recipients

omit [MessageDeliveryLedger L] [EventLog E] in
theorem mem_fanout_iff (hMember : (broker.registry.find member).isSome)
    (targetName : Option Name) (context : PushContext) :
    member ∈ broker.fanout targetName context ↔ Addresses targetName context member := by
  have hSender : member ∈ ((truthy context.fromName).toList.filterMap broker.registered) ↔
      context.fromName = some member.text := by
    simp only [List.mem_filterMap, registered_eq_some_iff hMember, Option.mem_toList, exists_eq_right]
    exact truthy_eq_some_iff context.fromName member
  unfold fanout Addresses
  cases targetName with
  | some target =>
    have hTarget : broker.registered target.text = some member ↔ target = member := by
      rw [registered_eq_some_iff hMember]
      exact ⟨Name.ext, congrArg Name.text⟩
    have hOther : member ∈ (((truthy context.fromName).filter fun fromName => fromName ≠ target.text).toList.filterMap
        broker.registered) ↔ context.fromName = some member.text ∧ target ≠ member := by
      simp only [List.mem_filterMap, registered_eq_some_iff hMember, Option.mem_toList, exists_eq_right,
        Option.filter_eq_some_iff, truthy_eq_some_iff, decide_eq_true_eq]
      refine and_congr_right' (not_congr ?_)
      exact ⟨fun h => Name.ext h.symm, fun h => congrArg Name.text h.symm⟩
    rw [List.mem_append, hOther, Option.mem_toList, hTarget]
    by_cases h : target = member <;> simp [h]
  | none =>
    cases hRecipients : context.recipients with
    | some recipients =>
      simp only [List.mem_eraseDups, List.filterMap_append, List.mem_append, hSender]
      simp only [List.mem_filterMap, registered_eq_some_iff hMember, exists_eq_right]
      simp [or_comm]
    | none =>
      obtain ⟨state, hState⟩ := Option.isSome_iff_exists.mp hMember
      have hMem : member ∈ broker.registry.rows.map PresenceState.name :=
        List.mem_map.mpr ⟨state, mem_of_find hState, key_of_find hState⟩
      simp [hMem]

variable {payload : PushPayload} {context : PushContext} {targetName : Option Name} {now : Int}

theorem feedVisibleTo_messageOf_iff {id : String}
    (hSecret : isSecretThread (messageOf id now targetName payload context) = false) (member : Name) :
    feedVisibleTo (messageOf id now targetName payload context) (audience targetName context) member.text = true ↔
      Addresses targetName context member ∧
        (targetName = none → context.recipients = none → context.fromName ≠ some member.text →
          isLegacyScopedEvent (messageOf id now targetName payload context) = false) := by
  have hTo : (messageOf id now targetName payload context).toName = targetName.map Name.text := rfl
  have hFrom : (messageOf id now targetName payload context).fromName = context.fromName := rfl
  unfold feedVisibleTo Addresses audience
  rw [hSecret, hTo, hFrom]
  by_cases hSender : context.fromName = some member.text
  · simp [hSender]
  · cases targetName with
    | some target =>
      have hTarget : target.text = member.text ↔ target = member := ⟨Name.ext, congrArg Name.text⟩
      simp [hSender, hTarget]
    | none =>
      cases hRecipients : context.recipients with
      | some recipients => simp [hSender, truthy_eq_some_iff]
      | none => simp [hSender]

/-- No target, no list, and a thread tag or a kind that once marked a narrower audience. -/
def LegacyScopedBroadcast (payload : PushPayload) (context : PushContext) : Prop :=
  payload.toName = none ∧ context.recipients = none ∧
    (isScopedThreadTag ((payload.data.getD []).get "thread") = true ∨ isScopedKind ((payload.data.getD []).get "kind") = true)

theorem isLegacyScopedEvent_messageOf (id : String) (now : Int) (targetName : Option Name) (payload : PushPayload)
    (context : PushContext) :
    isLegacyScopedEvent (messageOf id now targetName payload context) = true ↔
      isScopedThreadTag ((payload.data.getD []).get "thread") = true ∨
        isScopedKind ((payload.data.getD []).get "kind") = true := by
  change (if isScopedThreadTag ((payload.data.getD []).get "thread") then true
    else isScopedKind ((payload.data.getD []).get "kind")) = true ↔ _
  split <;> simp_all

theorem resolveTarget_eq_none_iff {toName : Option String}
    (h : resolveTarget toName = .ok targetName) : targetName = none ↔ toName = none := by
  unfold resolveTarget at h
  split at h
  · cases h
    simp
  · split at h <;> cases h
    simp

variable {idFactory : Nat → String}

theorem push_eq_ok {result : PushResult} (h : (push idFactory now payload context broker).1 = .ok result) :
    ∃ targetName eventLog, resolveTarget payload.toName = .ok targetName ∧
      result.message = messageOf (idFactory broker.minted) now targetName payload context ∧
      EventLog.append result.message (audience targetName context) broker.eventLog = some eventLog := by
  unfold push at h
  split at h
  · cases h
  · split at h
    · cases h
    · rename_i targetName hResolve
      dsimp only at h
      split at h
      · cases h
      · rename_i eventLog hAppend
        obtain rfl := Except.ok.inj h
        exact ⟨targetName, eventLog, hResolve, rfl, hAppend⟩

theorem sent_mem_fanout (hResolve : resolveTarget payload.toName = .ok targetName)
    {callback : Subscriber} {message : Message}
    (h : .sent member callback message ∈ (push idFactory now payload context broker).2.2) :
    member ∈ broker.fanout targetName context ∧ message = messageOf (idFactory broker.minted) now targetName payload context := by
  let Q : List (Effect L) → Prop := fun effects => ∀ member callback message, .sent member callback message ∈ effects →
    member ∈ broker.fanout targetName context ∧ message = messageOf (idFactory broker.minted) now targetName payload context
  have hComposes : Composes Q :=
    ⟨by simp [Q], fun hFirst hSecond member callback message hMem =>
      (List.mem_append.mp hMem).elim (hFirst member callback message) (hSecond member callback message)⟩
  have hFrames : Frames (fun _ : Broker L E => True) Q := ⟨hComposes, fun _ _ _ _ h => h, fun _ _ _ h => h⟩
  refine (hFrames.keepsAt_push idFactory ?_ trivial).2 member callback message h
  rintro targetName' hResolve' message rfl
  obtain rfl : targetName = targetName' := Except.ok.inj (hResolve.symm.trans hResolve')
  refine ⟨⟨fun _ _ _ h => h, ?_⟩, fun _ _ h => h⟩
  intro member hMember callback member' callback' message hMem
  cases List.mem_singleton.mp hMem
  exact ⟨hMember, rfl⟩

/-- For a registered member the fan-out and the feed agree, except on what another member broadcasts
with a scoped tag or kind. -/
theorem delivered_iff_visible (idFactory : Nat → String) (now : Int) (payload : PushPayload) (context : PushContext)
    (broker : Broker L E) {result : PushResult} (h : (push idFactory now payload context broker).1 = .ok result)
    (hSecret : isSecretThread result.message = false) {member : Name}
    (hMember : (broker.registry.find member).isSome) :
    ∃ targetName eventLog, resolveTarget payload.toName = .ok targetName ∧
      EventLog.append result.message (audience targetName context) broker.eventLog = some eventLog ∧
      ((member ∈ broker.fanout targetName context ↔
          feedVisibleTo result.message (audience targetName context) member.text = true) ↔
        ¬(LegacyScopedBroadcast payload context ∧ context.fromName ≠ some member.text)) := by
  obtain ⟨targetName, eventLog, hResolve, hMessage, hAppend⟩ := push_eq_ok h
  refine ⟨targetName, eventLog, hResolve, hAppend, ?_⟩
  rw [hMessage] at hSecret ⊢
  rw [mem_fanout_iff hMember, feedVisibleTo_messageOf_iff hSecret, LegacyScopedBroadcast,
    ← resolveTarget_eq_none_iff hResolve,
    ← isLegacyScopedEvent_messageOf (idFactory broker.minted) now targetName payload context]
  constructor
  · rintro hAgree ⟨⟨hTarget, hRecipients, hScoped⟩, hSender⟩
    have hAddressed : Addresses targetName context member := by
      subst hTarget
      exact .inr (by simp [hRecipients])
    rw [(hAgree.mp hAddressed).2 hTarget hRecipients hSender] at hScoped
    cases hScoped
  · intro hNot
    refine ⟨fun hAddressed => ⟨hAddressed, ?_⟩, And.left⟩
    intro hTarget hRecipients hSender
    exact Bool.eq_false_iff.mpr fun hScoped => hNot ⟨⟨hTarget, hRecipients, hScoped⟩, hSender⟩

section Examples

open MessageDelivery (bob)

def bobsTeam : Broker InMemoryMessageDeliveryLedger InMemoryEventLog :=
  Transcript.final (apply fun _ => "m1") (start ⟨[]⟩) [(1, .seedMembers [(bob, ⟨"engineer", ""⟩)])]

def hello (toName : Option String) (data : JsonObject) : PushPayload := ⟨toName, none, "hello", none, some data, none⟩

def fromAlice : PushContext := ⟨some "alice", none, none⟩

theorem delivered_iff_visible_direct :
    ∃ result, (push (fun _ => "m1") 2 (hello (some "bob") []) fromAlice bobsTeam).1 = .ok result ∧
      ∃ targetName eventLog, resolveTarget (hello (some "bob") []).toName = .ok targetName ∧
        EventLog.append result.message (audience targetName fromAlice) bobsTeam.eventLog = some eventLog ∧
        ((bob ∈ bobsTeam.fanout targetName fromAlice ↔
            feedVisibleTo result.message (audience targetName fromAlice) bob.text = true) ↔
          ¬(LegacyScopedBroadcast (hello (some "bob") []) fromAlice ∧ fromAlice.fromName ≠ some bob.text)) := by
  refine ⟨_, rfl, delivered_iff_visible (fun _ => "m1") 2 (hello (some "bob") []) fromAlice bobsTeam rfl ?_ ?_⟩
  · decide
  · decide

/-- Everybody gets a broadcast that is tagged as an objective's, and nobody finds it in the feed. -/
theorem tagged_broadcast_vanishes :
    ¬∀ (payload : PushPayload) (context : PushContext)
        (broker : Broker InMemoryMessageDeliveryLedger InMemoryEventLog) (result : PushResult) (member : Name),
      (push (fun _ => "m1") 2 payload context broker).1 = .ok result → isSecretThread result.message = false →
      (broker.registry.find member).isSome →
      ∃ targetName, resolveTarget payload.toName = .ok targetName ∧
        (member ∈ broker.fanout targetName context ↔
          feedVisibleTo result.message (audience targetName context) member.text = true) := by
  intro h
  obtain ⟨targetName, hResolve, hAgree⟩ :=
    h (hello none [("thread", .string "obj:1")]) fromAlice bobsTeam _ bob rfl (by decide) (by decide)
  cases hResolve
  revert hAgree
  decide

end Examples

end CommandSuite.Broker
