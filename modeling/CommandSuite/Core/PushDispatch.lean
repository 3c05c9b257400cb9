import CommandSuite.Core.App
import CommandSuite.Core.Broker.Audience

/-! # Web push

`packages/core/src/push-policy.ts` and `push-dispatch.ts`: after a `POST /push` a notification goes to the
subscriptions of every member whom the policy approves.
-/

namespace CommandSuite

open Library EventLog Text

namespace PushPolicy

def HIGH_PRIORITY_LEVELS : List LogLevel := [.warning, .error, .critical]

variable (toLowerCase : String → String)

/-- Whether the text holds `@name`, in lower case. -/
def mentions (body recipient : String) : Bool := (toLowerCase ("@" ++ recipient)).toList <:+: (toLowerCase body).toList

def shouldPush (message : Message) (recipient : String) (recipientIsLive : Bool) : Bool :=
  if message.fromName = some recipient then false
  else if recipientIsLive then false
  else if message.toName = some recipient then true
  else if message.toName = none then message.level ∈ HIGH_PRIORITY_LEVELS || mentions toLowerCase message.body recipient
  else false

end PushPolicy

structure PushSubscriptionRow where
  id : Int
  endpoint : String
  p256dh : String
  auth : String

inductive Severity where
  | normal | high

/-- The payload that the service worker gets. The body may end inside a surrogate pair. -/
structure WebPushPayload where
  title : String
  body : List Nat
  tag : String
  url : String
  severity : Severity
  messageId : String

structure DispatchDeps where
  members : List Name
  listForMember : Name → List PushSubscriptionRow
  isLive : Name → Bool

/-- One call of `sender.send`. -/
structure WebPush where
  member : Name
  subscription : PushSubscriptionRow
  payload : WebPushPayload

namespace PushDispatch

open PushPolicy

def truncate (text : List Nat) (max : Nat) : List Nat :=
  if text.length ≤ max then text else text.take (max - 1) ++ utf16 "…"

def titleSuffix (message : Message) : String :=
  if message.toName = none then " → #team"
  else (Broker.truthy message.title).elim "" fun title => " — " ++ title

def buildPayload (message : Message) : WebPushPayload :=
  let peer := (message.fromName.or message.toName).getD ""
  { title := (Broker.truthy message.fromName).elim "csuite" fun sender => sender ++ titleSuffix message
    body := truncate (utf16 message.body) 180
    tag := if message.toName = none then "csuite:team" else "csuite:dm:" ++ peer
    url := if message.toName = none then "/" else "/?thread=dm:" ++ peer
    severity := if message.level ∈ HIGH_PRIORITY_LEVELS then .high else .normal
    messageId := message.id }

variable (toLowerCase : String → String)

def dispatchPush (message : Message) (deps : DispatchDeps) : List WebPush :=
  (deps.members.filter fun member => shouldPush toLowerCase message member.text (deps.isLive member)).flatMap
    fun member => (deps.listForMember member).map fun subscription => ⟨member, subscription, buildPayload message⟩

theorem exists_mem_dispatchPush_iff (message : Message) (deps : DispatchDeps) (member : Name) :
    (∃ push ∈ dispatchPush toLowerCase message deps, push.member = member) ↔
      member ∈ deps.members ∧ shouldPush toLowerCase message member.text (deps.isLive member) = true ∧
        deps.listForMember member ≠ [] := by
  simp only [dispatchPush, List.mem_flatMap, List.mem_filter, List.mem_map]
  constructor
  · rintro ⟨_, ⟨_, ⟨hMember, hApproved⟩, subscription, hSubscription, rfl⟩, rfl⟩
    exact ⟨hMember, hApproved, List.ne_nil_of_mem hSubscription⟩
  · rintro ⟨hMember, hApproved, hSubscribed⟩
    obtain ⟨subscription, hSubscription⟩ := List.exists_mem_of_ne_nil _ hSubscribed
    exact ⟨_, ⟨member, ⟨hMember, hApproved⟩, subscription, hSubscription, rfl⟩, rfl⟩

/-- Every notification goes to a member who finds the message in the feed, and none to the sender. -/
def Discreet (message : Message) (recipients : Option (List String)) (pushes : List WebPush) : Prop :=
  ∀ push ∈ pushes, feedVisibleTo message recipients push.member.text = true ∧ message.fromName ≠ some push.member.text

theorem discreet_dispatchPush_iff (message : Message) (recipients : Option (List String)) (deps : DispatchDeps) :
    Discreet message recipients (dispatchPush toLowerCase message deps) ↔
      ∀ member ∈ deps.members, deps.listForMember member ≠ [] →
        shouldPush toLowerCase message member.text (deps.isLive member) = true →
        feedVisibleTo message recipients member.text = true := by
  constructor
  · intro h member hMember hSubscribed hApproved
    obtain ⟨push, hPush, rfl⟩ :=
      (exists_mem_dispatchPush_iff toLowerCase message deps member).mpr ⟨hMember, hApproved, hSubscribed⟩
    exact (h push hPush).1
  · intro h push hPush
    obtain ⟨hMember, hApproved, hSubscribed⟩ :=
      (exists_mem_dispatchPush_iff toLowerCase message deps push.member).mp ⟨push, hPush, rfl⟩
    refine ⟨h push.member hMember hSubscribed hApproved, ?_⟩
    intro hSender
    rw [shouldPush, if_pos hSender] at hApproved
    cases hApproved

open App Broker

/-- The payload is addressed to the member, or to nobody and loud or with the member's name in it. -/
def Calls (payload : PushPayload) (member : Name) : Prop :=
  payload.toName = some member.text ∨
    payload.toName = none ∧
      (payload.level.getD .info ∈ HIGH_PRIORITY_LEVELS ∨ mentions toLowerCase payload.body member.text = true)

/-- The thread is a secret's, or the payload is to nobody and the member is not in the private channel it is
for or, without one, the thread or kind marks a narrower audience. -/
def Conceals (payload : PushPayload) (context : PushContext) (member : Name) : Prop :=
  let data := payload.data.getD []
  (∃ tag, data.get "thread" = some (.string tag) ∧ startsWith tag SECRET_THREAD_PREFIX = true) ∨
    payload.toName = none ∧
      match context.recipients with
      | some recipients => member.text ∉ recipients
      | none => isScopedThreadTag (data.get "thread") = true ∨ isScopedKind (data.get "kind") = true

theorem isSecretThread_messageOf (id : String) (now : Int) (targetName : Option Name) (payload : PushPayload)
    (context : PushContext) :
    isSecretThread (messageOf id now targetName payload context) = true ↔
      ∃ tag, (payload.data.getD []).get "thread" = some (.string tag) ∧ startsWith tag SECRET_THREAD_PREFIX = true := by
  unfold isSecretThread
  rw [show threadOf (messageOf id now targetName payload context) = (payload.data.getD []).get "thread" from rfl]
  split
  · rename_i tag hTag
    simp [hTag]
  · rename_i hTag
    simp only [Bool.false_eq_true, false_iff, not_exists, not_and]
    exact fun tag hGet => absurd hGet (hTag tag)

theorem resolved_toName {payload : PushPayload} {targetName : Option Name}
    (hResolve : resolveTarget payload.toName = .ok targetName) : targetName.map Name.text = payload.toName := by
  unfold resolveTarget at hResolve
  split at hResolve
  · rename_i hNone
    cases hResolve
    rw [hNone, Option.map_none]
  · rename_i text hText
    split at hResolve
    · rename_i name hName
      cases hResolve
      rw [hText, Option.map_some, (Name.parse_eq_some_iff text name).mp hName]
    · cases hResolve

section Policy

variable {id : String} {now : Int} {targetName : Option Name} {payload : PushPayload} {context : PushContext}
  (hResolve : resolveTarget payload.toName = .ok targetName) {member : Name}
  (hSender : context.fromName ≠ some member.text)
include hResolve hSender

theorem shouldPush_messageOf_iff (live : Bool) :
    shouldPush toLowerCase (messageOf id now targetName payload context) member.text live = true ↔
      live = false ∧ Calls toLowerCase payload member := by
  have hTo : (messageOf id now targetName payload context).toName = payload.toName := resolved_toName hResolve
  have hFrom : (messageOf id now targetName payload context).fromName = context.fromName := rfl
  have hLevel : (messageOf id now targetName payload context).level = payload.level.getD .info := rfl
  have hBody : (messageOf id now targetName payload context).body = payload.body := rfl
  unfold shouldPush Calls
  rw [hTo, hFrom, hLevel, hBody, if_neg hSender]
  cases live with
  | true => simp
  | false =>
    cases hPayload : payload.toName with
    | none => simp
    | some toName =>
      by_cases hMember : toName = member.text <;> simp [hMember]

theorem feedVisibleTo_of_calls_iff (hCalls : Calls toLowerCase payload member) :
    feedVisibleTo (messageOf id now targetName payload context) (audience targetName context) member.text = true ↔
      ¬Conceals payload context member := by
  have hTarget := resolved_toName hResolve
  have hNone := resolveTarget_eq_none_iff hResolve
  have hSecret := isSecretThread_messageOf id now targetName payload context
  have hLegacy := isLegacyScopedEvent_messageOf id now targetName payload context
  unfold Conceals
  dsimp only
  rw [← hSecret, ← hLegacy, ← hNone]
  cases hThread : isSecretThread (messageOf id now targetName payload context) with
  | true =>
    have hHidden : feedVisibleTo (messageOf id now targetName payload context) (audience targetName context) member.text =
        false := by
      unfold feedVisibleTo
      rw [if_pos hThread]
    simp [hHidden]
  | false =>
    rw [feedVisibleTo_messageOf_iff hThread]
    unfold Addresses
    cases targetName with
    | some target =>
      have hMember : target = member := by
        rcases hCalls with hDirect | ⟨hBroadcast, _⟩
        · exact Name.ext (Option.some.inj (hTarget.trans hDirect))
        · rw [hBroadcast] at hTarget
          cases hTarget
      simp [hMember]
    | none =>
      cases hRecipients : context.recipients with
      | some recipients => simp [hSender]
      | none => simp [hSender]

end Policy

theorem routeChannel_fromName {channels : Option ChannelStore} {member : Name} {thread : Option Json}
    {context : PushContext} (h : routeChannel channels member thread = .ok context) :
    context.fromName = some member.text := by
  unfold routeChannel at h
  dsimp only at h
  split at h
  · split at h
    · cases h
      rfl
    · split at h
      · cases h
        rfl
      · split at h
        · cases h
        · split at h
          · cases h
          · split at h
            · cases h
            · cases h
              rfl
  · cases h
    rfl

variable {L E : Type} [MessageDeliveryLedger L] [EventLog E]

/-- After a `POST /push` the notifications stay within the recorded audience exactly when the payload
calls nobody from whom it conceals itself. -/
theorem dispatch_discreet_iff (idFactory : Nat → String) (now : Int) (directory : Directory) (sender : Member)
    (payload : PushPayload) (broker : Broker L E) (deps : DispatchDeps) {result : PushResult}
    (h : (postPush idFactory now directory sender payload broker).1 = .ok result) :
    ∃ context targetName eventLog,
      routeChannel directory.channels sender.name ((payload.data.getD []).get "thread") = .ok context ∧
      EventLog.append result.message (audience targetName context) broker.eventLog = some eventLog ∧
      (Discreet result.message (audience targetName context) (dispatchPush toLowerCase result.message deps) ↔
        ¬∃ member ∈ deps.members, member ≠ sender.name ∧ deps.isLive member = false ∧
          deps.listForMember member ≠ [] ∧ Calls toLowerCase payload member ∧ Conceals payload context member) := by
  unfold postPush at h
  cases hPrepare : prepare directory sender payload broker with
  | error error =>
    rw [hPrepare] at h
    cases h
  | ok accepted =>
    obtain ⟨prepared, context⟩ := accepted
    obtain ⟨⟨attachments, rfl⟩, hRoute⟩ := prepare_eq_ok hPrepare
    rw [hPrepare] at h
    have hPush : (Broker.push idFactory now { payload with attachments := some attachments } context broker).1 = .ok result := by
      dsimp only at h
      generalize (Broker.push idFactory now { payload with attachments := some attachments } context broker).1 = pushed at h
      cases pushed with
      | error error => cases h
      | ok value => exact congrArg Except.ok (Except.ok.inj h)
    obtain ⟨targetName, eventLog, hResolve, hMessage, hAppend⟩ := push_eq_ok hPush
    refine ⟨context, targetName, eventLog, hRoute, hAppend, ?_⟩
    rw [discreet_dispatchPush_iff, hMessage]
    have hSender := routeChannel_fromName hRoute
    have hNotSender : ∀ member, member ≠ sender.name → context.fromName ≠ some member.text := by
      intro member hMember hEqual
      rw [hSender] at hEqual
      exact hMember (Name.ext (Option.some.inj hEqual).symm)
    constructor
    · rintro hAll ⟨member, hMember, hOther, hLive, hSubscribed, hCalls, hConceals⟩
      have hVisible := hAll member hMember hSubscribed
        ((shouldPush_messageOf_iff toLowerCase hResolve (hNotSender member hOther) _).mpr ⟨hLive, hCalls⟩)
      exact (feedVisibleTo_of_calls_iff toLowerCase hResolve (hNotSender member hOther) hCalls).mp hVisible hConceals
    · intro hNot member hMember hSubscribed hApproved
      have hOther : member ≠ sender.name := by
        rintro rfl
        have hFrom : (messageOf (idFactory broker.minted) now targetName { payload with attachments := some attachments }
            context).fromName = some sender.name.text := hSender
        rw [shouldPush, if_pos hFrom] at hApproved
        cases hApproved
      obtain ⟨hLive, hCalls⟩ := (shouldPush_messageOf_iff toLowerCase hResolve (hNotSender member hOther) _).mp hApproved
      refine (feedVisibleTo_of_calls_iff toLowerCase hResolve (hNotSender member hOther) hCalls).mpr ?_
      exact fun hConceals => hNot ⟨member, hMember, hOther, hLive, hSubscribed, hCalls, hConceals⟩

section Examples

open MessageDelivery (bob)

def alice : Member := ⟨⟨"alice", .refl true⟩, []⟩

def carol : Name := ⟨"carol", .refl true⟩

def office : Directory where
  members := ⟨[alice, ⟨bob, []⟩, ⟨carol, []⟩], by decide⟩
  channels :=
    some
      { channels := ⟨[⟨"c1", "plans", "", "alice", 1, none⟩], by decide⟩
        members := ⟨[⟨"c1", "alice", .member, 1⟩, ⟨"c1", "bob", .member, 1⟩], by decide⟩ }
  canonicalize _ _ := .ok []

def away : DispatchDeps where
  members := [alice.name, bob, carol]
  listForMember member := if member = alice.name then [] else [⟨1, "endpoint", "key", "auth"⟩]
  isLive _ := false

def lowerAscii (text : String) : String := String.ofList (text.toList.map Sql.foldCase)

theorem dispatch_discreet_iff_direct :
    ∃ result, (postPush (fun _ => "m1") 2 office alice (hello (some "bob") []) bobsTeam).1 = .ok result ∧
      ∃ context targetName eventLog,
        routeChannel office.channels alice.name none = .ok context ∧
        EventLog.append result.message (audience targetName context) bobsTeam.eventLog = some eventLog ∧
        (Discreet result.message (audience targetName context) (dispatchPush lowerAscii result.message away) ↔
          ¬∃ member ∈ away.members, member ≠ alice.name ∧ away.isLive member = false ∧ away.listForMember member ≠ [] ∧
            Calls lowerAscii (hello (some "bob") []) member ∧ Conceals (hello (some "bob") []) context member) := by
  refine ⟨_, rfl, ?_⟩
  exact dispatch_discreet_iff lowerAscii (fun _ => "m1") 2 office alice (hello (some "bob") []) bobsTeam away rfl

/-- A warning in the private channel is announced to Carol, who is not in it. -/
theorem private_warning_announced :
    ¬∀ (payload : PushPayload) (deps : DispatchDeps) (context : PushContext) (targetName : Option Name)
        (result : PushResult),
      routeChannel office.channels alice.name ((payload.data.getD []).get "thread") = .ok context →
      resolveTarget payload.toName = .ok targetName →
      (postPush (fun _ => "m1") 2 office alice payload bobsTeam).1 = .ok result →
      Discreet result.message (audience targetName context) (dispatchPush lowerAscii result.message deps) := by
  intro h
  have hDiscreet := h ⟨none, none, "it is down", some .warning, some [("thread", .string "chan:c1")], none⟩ away _ _ _
    rfl rfl rfl
  have hVisible := (discreet_dispatchPush_iff _ _ _ _).mp hDiscreet carol (by decide) (by simp [away, show carol ≠ alice.name by decide])
    (by decide)
  revert hVisible
  decide

end Examples

end PushDispatch

end CommandSuite
