import CommandSuite.Cli.Runtime.Forwarder
import CommandSuite.Core.App
import CommandSuite.Core.Broker.Redelivery
import CommandSuite.Core.Broker.Contents
import CommandSuite.Core.Publications

/-! # The authority behind a context control

From a request at a route, through the broker and whatever it redelivers later, to the runner that executes.
-/

namespace CommandSuite.App

open Library Program Broker Forwarder Transcript

/-- The operations of sockets and sweeps: all but a push, which comes in through a route. -/
abbrev BrokerOperation := { event : BrokerEvent // ∀ payload context, event ≠ .push payload context }

inductive Request where
  | push (member : Member) (payload : PushPayload)
  | context (member : Member) (name : String) (request : ContextControlRequest) (requestId : String)
  | publish (publication : Publication) (published : Publication.Published publication)
  | operate (operation : BrokerOperation)

structure Moment where
  now : Int
  directory : Directory
  request : Request

variable {L E : Type}

section Machine

variable [MessageDeliveryLedger L] [EventLog E] (idFactory : Nat → String)

def serve : Machine (Broker L E) Moment (List (Effect L))
  | broker, ⟨now, directory, .push member payload⟩ => (postPush idFactory now directory member payload broker).2
  | broker, ⟨now, directory, .context member name request requestId⟩ =>
    (postContext idFactory now directory member name request requestId broker).2
  | broker, ⟨now, _, .publish publication _⟩ =>
    (Broker.push idFactory now publication.payload publication.context broker).2
  | broker, ⟨now, _, .operate operation⟩ => Broker.apply idFactory broker (now, operation.val)

/-- The moment issues the control through the route: the caller is its target or may reach others. -/
def Issues (moment : Moment) (control : ContextControlEvent) : Prop :=
  ∃ member name request requestId, moment.request = .context member name request requestId ∧
    control.requestId = requestId ∧ control.verb = request.verb ∧ control.target = name ∧
    control.requestedBy = member.name.text ∧
    (member.name.text = control.target ∨ hasPermission member.permissions .membersContext = true)

/-- The moment is an accepted `POST /push` whose data is a control for a member that it fans out to. -/
def Forges (moment : Moment) (broker : Broker L E) : Prop :=
  ∃ member payload prepared context targetName control, moment.request = .push member payload ∧
    prepare moment.directory member payload broker = .ok (prepared, context) ∧
    resolveTarget payload.toName = .ok targetName ∧
    parseContextControl (payload.data.getD []) = some control ∧
    ∃ reached ∈ broker.fanout targetName context, reached.text = control.target

end Machine

/-- A member's runner would execute only controls with the property. -/
def Obeys (legitimate : ContextControlEvent → Prop) (member : Name) (message : Message) : Prop :=
  ∀ control, parseContextControl message.data = some control → control.target = member.text → legitimate control

theorem parse_eq_none_of_kind {data : JsonObject} (h : (data.get "kind").bind Json.asString ≠ some "context_control") :
    parseContextControl data = none := by
  unfold parseContextControl
  rw [if_pos h]
  rfl

theorem obeys_of_kind {legitimate : ContextControlEvent → Prop} {member : Name} {message : Message}
    (h : (message.data.get "kind").bind Json.asString ≠ some "context_control") : Obeys legitimate member message := by
  intro control hParse
  rw [parse_eq_none_of_kind h] at hParse
  cases hParse

theorem obeys_refusals (legitimate : ContextControlEvent → Prop) : AllowsRefusals (Obeys legitimate) (fun _ => True) := by
  intro id now message sender body recipient reason targetName _
  refine ⟨fun member => obeys_of_kind ?_, trivial⟩
  change some "message_disposition" ≠ some "context_control"
  decide

theorem kind_ne_of_published {publication : Publication} (h : Publication.Published publication) :
    ((publication.payload.data.getD []).get "kind").bind Json.asString ≠ some "context_control" := by
  rcases Publication.kind_of_published h with hNone | ⟨kind, hKind, hData⟩
  · rw [hNone]
    decide
  · rw [hData]
    rintro hEqual
    obtain rfl : kind = "context_control" := Option.some.inj hEqual
    revert hKind
    decide

variable {control : ContextControlEvent}

theorem parse_contextControlData {requestId : String} {member target : Name} {request : ContextControlRequest}
    (h : parseContextControl (contextControlData requestId member target request) = some control) :
    control.requestId = requestId ∧ control.verb = request.verb ∧ control.target = target.text ∧
      control.requestedBy = member.text := by
  unfold parseContextControl contextControlData nonemptyString at h
  simp only [JsonObject.get, List.cons_append, List.nil_append, List.lookup_cons] at h
  simp only [beq_self_eq_true, String.reduceBEq, Option.bind_some, Json.asString, ne_eq, not_true_eq_false, if_false,
    ContextControlVerb.ofText_text, Option.bind_eq_bind, Option.bind_eq_some_iff, Option.filter_eq_some_iff,
    Option.some.injEq] at h
  obtain ⟨_, ⟨rfl, _⟩, _, ⟨rfl, _⟩, _, ⟨rfl, _⟩, hControl⟩ := h
  cases hControl
  exact ⟨rfl, rfl, rfl, rfl⟩

theorem contextTarget_eq_ok {directory : Directory} {member target : Member} {name : String}
    (h : contextTarget directory member name = .ok target) :
    target.name.text = name ∧
      (member.name.text = target.name.text ∨ hasPermission member.permissions .membersContext = true) := by
  unfold contextTarget at h
  split at h
  · cases h
  · rename_i parsed hParse
    split at h
    · cases h
    · rename_i found hFind
      split at h
      · cases h
      · rename_i hPermitted
        cases h
        rw [show target.name = parsed from Table.key_of_find hFind] at hPermitted ⊢
        refine ⟨(Name.parse_eq_some_iff name parsed).mp hParse, ?_⟩
        simp only [Bool.and_eq_true, decide_eq_true_eq, Bool.not_eq_true', not_and, Bool.not_eq_false] at hPermitted
        by_cases hSelf : member.name = parsed
        · exact .inl (congrArg Name.text hSelf)
        · exact .inr (hPermitted hSelf)

section Steps

variable [LawfulLedger L] [LawfulEventLog E] (idFactory : Nat → String) {legitimate : ContextControlEvent → Prop}
  {broker : Broker L E} {directory : Directory} {member : Member}

theorem obeys_postPush {now : Int} {payload : PushPayload}
    (h : ¬Forges ⟨now, directory, .push member payload⟩ broker) :
    KeepsAt (Contents (Obeys legitimate) fun _ => True) (Sends (Obeys legitimate))
      (fun broker => (postPush idFactory now directory member payload broker).2) broker := by
  intro hContents
  dsimp only
  unfold postPush
  cases hPrepare : prepare directory member payload broker with
  | error error => exact ⟨hContents, (sends_composes _).nil⟩
  | ok accepted =>
    obtain ⟨prepared, context⟩ := accepted
    obtain ⟨⟨attachments, rfl⟩, _⟩ := prepare_eq_ok hPrepare
    refine contents_push idFactory ?_ hContents
    rintro targetName message hResolve rfl
    refine ⟨?_, trivial⟩
    intro reached hReached control hParse hTarget
    exact absurd ⟨member, payload, _, context, targetName, control, rfl, hPrepare, hResolve, hParse, reached,
      hReached, hTarget.symm⟩ h

theorem obeys_postContext {now : Int} {name : String}
    {request : ContextControlRequest} {requestId : String}
    (h : ∀ control, Issues ⟨now, directory, .context member name request requestId⟩ control → legitimate control) :
    KeepsAt (Contents (Obeys legitimate) fun _ => True) (Sends (Obeys legitimate))
      (fun broker => (postContext idFactory now directory member name request requestId broker).2) broker := by
  intro hContents
  dsimp only
  unfold postContext
  cases hTarget : contextTarget directory member name with
  | error error => exact ⟨hContents, (sends_composes _).nil⟩
  | ok target =>
    obtain ⟨hName, hPermitted⟩ := contextTarget_eq_ok hTarget
    have hKeeps : KeepsAt (Contents (Obeys legitimate) fun _ => True) (Sends (Obeys legitimate))
        (fun broker => (Broker.push idFactory now (contextControlPayload requestId member.name target.name request)
          ⟨some "csuite", some [target.name.text], none⟩ broker).2) broker := by
      refine contents_push idFactory ?_
      rintro targetName message _ rfl
      refine ⟨?_, trivial⟩
      intro reached _ control hParse _
      obtain ⟨hId, hVerb, hControlTarget, hRequestedBy⟩ := parse_contextControlData hParse
      refine h control ⟨member, name, request, requestId, rfl, hId, hVerb, hControlTarget.trans hName, hRequestedBy, ?_⟩
      rw [hControlTarget]
      exact hPermitted
    have hPush := hKeeps hContents
    dsimp only
    split
    · rename_i hResult
      simp only [hResult] at hPush
      exact hPush
    · rename_i hResult
      simp only [hResult] at hPush
      exact hPush

theorem obeys_serve {moment : Moment} (hHonest : ¬Forges moment broker)
    (hIssued : ∀ control, Issues moment control → legitimate control) :
    KeepsAt (Contents (Obeys legitimate) fun _ => True) (Sends (Obeys legitimate))
      (fun broker => serve idFactory broker moment) broker := by
  obtain ⟨now, directory, request⟩ := moment
  cases request with
  | push member payload => exact obeys_postPush idFactory hHonest
  | context member name request requestId => exact obeys_postContext idFactory hIssued
  | publish publication published =>
    refine contents_push idFactory ?_
    rintro targetName message _ rfl
    exact ⟨fun reached _ => obeys_of_kind (kind_ne_of_published published), trivial⟩
  | operate operation =>
    refine contents_apply idFactory (obeys_refusals legitimate) ?_
    exact fun payload context hEvent => absurd hEvent (operation.property payload context)

def Honest (broker : Broker L E) (moments : List Moment) : Prop :=
  ∀ step ∈ run (serve idFactory) broker moments, ¬Forges step.input step.before

theorem obeys_final {moments : List Moment}
    (hContents : Contents (Obeys legitimate) (fun _ => True) broker)
    (hHonest : Honest idFactory broker moments)
    (hIssued : ∀ moment ∈ moments, ∀ control, Issues moment control → legitimate control) :
    Contents (Obeys legitimate) (fun _ => True) (final (serve idFactory) broker moments) := by
  induction moments generalizing broker with
  | nil => exact hContents
  | cons moment moments ih =>
    have hHead := hHonest _ List.mem_cons_self
    have hNext := (obeys_serve idFactory hHead (hIssued moment List.mem_cons_self) hContents).1
    exact ih hNext (fun step hStep => hHonest step (List.mem_cons_of_mem _ hStep))
      (fun other hOther => hIssued other (List.mem_cons_of_mem _ hOther))

end Steps

def executes (handlers : Handlers) (effects : List (Effect L)) (control : ContextControlEvent) : Bool :=
  effects.any fun effect =>
    match effect with
    | .sent member _ message =>
      (receive member.text handlers message).1.any fun call =>
        match call with
        | .contextControl executed => executed = control
        | _ => false
    | _ => false

theorem sent_of_executes {handlers : Handlers} {effects : List (Effect L)}
    (h : executes handlers effects control = true) :
    ∃ member callback message, .sent member callback message ∈ effects ∧
      .contextControl control ∈ (receive member.text handlers message).1 := by
  obtain ⟨effect, hEffect, hExecutes⟩ := List.any_eq_true.mp h
  split at hExecutes
  · rename_i member callback message
    obtain ⟨call, hCall, hControl⟩ := List.any_eq_true.mp hExecutes
    split at hControl
    · obtain rfl := of_decide_eq_true hControl
      exact ⟨member, callback, message, hEffect, hCall⟩
    · cases hControl
  · cases hExecutes

/-- Every control that is executed was issued through the route, by then, by its target or by a holder of
the permission. -/
theorem executed_controls_are_issued [LawfulLedger L] [LawfulEventLog E] (idFactory : Nat → String) (log : E)
    (moments : List Moment) (hHonest : Honest idFactory (start log : Broker L E) moments)
    {earlier later : List (Step (Broker L E) Moment (List (Effect L)))} {step : Step (Broker L E) Moment (List (Effect L))}
    (hRun : run (serve idFactory) (start log) moments = earlier ++ step :: later)
    {handlers : Handlers} {control : ContextControlEvent} (hExecutes : executes handlers step.output control = true) :
    ∃ issue ∈ earlier ++ [step], Issues issue.input control := by
  obtain ⟨before, moment, after, rfl, hEarlier, rfl, _⟩ := run_eq_append_cons _ hRun
  obtain ⟨member, callback, message, hSent, hCall⟩ := sent_of_executes hExecutes
  let legitimate : ContextControlEvent → Prop := fun control => ∃ issue ∈ before ++ [moment], Issues issue control
  have hStart : Contents (Obeys legitimate) (fun _ => True) (start log : Broker L E) := contents_start fun _ _ => trivial
  have hBefore : Contents (Obeys legitimate) (fun _ => True)
      (final (serve idFactory) (start log : Broker L E) before) :=
    obeys_final idFactory hStart
      (fun step hStep => hHonest step (hRun ▸ hEarlier ▸ List.mem_append_left _ hStep))
      (fun issue hIssue control hControl => ⟨issue, List.mem_append_left _ hIssue, hControl⟩)
  have hStep := (obeys_serve idFactory
    (hHonest _ (hRun ▸ List.mem_append_right earlier List.mem_cons_self))
    (fun control hControl => (⟨moment, by simp, hControl⟩ : legitimate control)) hBefore).2
  obtain ⟨hParse, hTarget⟩ := parsed_of_executed hCall
  obtain ⟨issue, hIssue, hControl⟩ := hStep member callback message hSent control hParse hTarget
  rcases List.mem_append.mp hIssue with hOld | hNew
  · rw [← map_input_run (serve idFactory) (start log : Broker L E) before, ← hEarlier] at hOld
    obtain ⟨step, hStep, rfl⟩ := List.mem_map.mp hOld
    exact ⟨step, List.mem_append_left _ hStep, hControl⟩
  · obtain rfl := List.mem_singleton.mp hNew
    exact ⟨_, List.mem_append_right _ (List.mem_singleton_self _), hControl⟩

section Examples

open MessageDelivery (bob)

def alice : Member := ⟨⟨"alice", .refl true⟩, [.membersContext]⟩

def dave : Member := ⟨⟨"dave", by decide⟩, []⟩

def office : Directory where
  members := ⟨[alice, dave, ⟨bob, []⟩], by decide⟩
  channels := none
  canonicalize _ _ := .ok []

def at_ (now : Int) (request : Request) : Moment := ⟨now, office, request⟩

def attachRunner : List Moment :=
  [at_ 1 (.operate ⟨.subscribe bob 1 (runnerContext "s1"), by simp⟩),
    at_ 1 (.operate ⟨.runnerCondition bob ready (runnerContext "s1"), by simp⟩)]

def everything : Handlers := ⟨true, true, true, true, some fun _ => false⟩

def compactBob : List Moment :=
  attachRunner ++ [at_ 2 (.push dave (hello (some "bob") [])), at_ 3 (.context alice "bob" ⟨.compact, none⟩ "r1")]

abbrev InMemoryServer := Broker InMemoryMessageDeliveryLedger InMemoryEventLog

theorem compactBob_honest : Honest (fun n => if n = 0 then "m1" else "m2") (start ⟨[]⟩ : InMemoryServer) compactBob := by
  have hInputs : ∀ moment ∈ compactBob, ∀ member payload, moment.request = .push member payload →
      parseContextControl (payload.data.getD []) = none := by
    intro moment hMoment member payload hRequest
    simp only [compactBob, attachRunner, at_, List.cons_append, List.nil_append, List.mem_cons, List.not_mem_nil,
      or_false] at hMoment
    rcases hMoment with rfl | rfl | rfl | rfl <;> cases hRequest
    rfl
  rintro step hStep ⟨member, payload, _, _, _, control, hRequest, _, _, hParse, _⟩
  rw [hInputs step.input (map_input_run _ _ compactBob ▸ List.mem_map_of_mem hStep) member payload hRequest]
    at hParse
  cases hParse

theorem executed_controls_are_issued_compact :
    ∃ earlier step later, ∃ control : ContextControlEvent,
      run (serve fun n => if n = 0 then "m1" else "m2") (start ⟨[]⟩ : InMemoryServer) compactBob = earlier ++ step :: later ∧
      executes everything step.output control = true ∧ ∃ issue ∈ earlier ++ [step], Issues issue.input control := by
  have hExecutes : executes everything (serve (fun n => if n = 0 then "m1" else "m2")
      (final (serve fun n => if n = 0 then "m1" else "m2") (start ⟨[]⟩ : InMemoryServer) (compactBob.take 3))
      (at_ 3 (.context alice "bob" ⟨.compact, none⟩ "r1"))).2 ⟨"r1", .compact, "bob", "alice", none⟩ = true := by decide
  exact ⟨[_, _, _], _, [], _, rfl, hExecutes, executed_controls_are_issued _ _ compactBob compactBob_honest rfl hExecutes⟩

def forgedControl : JsonObject :=
  [("kind", .string "context_control"), ("requestId", .string "r2"), ("verb", .string "compact"),
    ("target", .string "bob"), ("requestedBy", .string "alice")]

/-- Dave, who has no permission, sends Bob a message with a control in its data; Bob's runner compacts. -/
theorem forged_control_executes :
    ¬∀ (moments : List Moment) (handlers : Handlers) (control : ContextControlEvent)
        (earlier later : List (Step InMemoryServer Moment (List (Effect InMemoryMessageDeliveryLedger))))
        (step : Step InMemoryServer Moment (List (Effect InMemoryMessageDeliveryLedger))),
      run (serve fun _ => "m1") (start ⟨[]⟩) moments = earlier ++ step :: later →
      executes handlers step.output control = true → ∃ issue ∈ earlier ++ [step], Issues issue.input control := by
  intro h
  have hExecutes : executes everything (serve (fun _ => "m1")
      (final (serve fun _ => "m1") (start ⟨[]⟩ : InMemoryServer) attachRunner)
      (at_ 2 (.push dave (hello (some "bob") forgedControl)))).2 ⟨"r2", .compact, "bob", "alice", none⟩ = true := by
    decide
  obtain ⟨issue, hIssue, member, name, request, requestId, hRequest, _⟩ :=
    h (attachRunner ++ [at_ 2 (.push dave (hello (some "bob") forgedControl))]) _ _ [_, _] [] _ rfl hExecutes
  simp only [List.cons_append, List.nil_append, List.mem_cons, List.not_mem_nil, or_false] at hIssue
  rcases hIssue with rfl | rfl | rfl <;> cases hRequest

end Examples

end CommandSuite.App
