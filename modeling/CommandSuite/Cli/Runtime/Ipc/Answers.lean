import CommandSuite.Cli.Runtime.Ipc
import CommandSuite.Cli.Runtime.JsonRpc.Framing
import Mathlib.Algebra.BigOperators.Group.Multiset.Basic
import Mathlib.Tactic.Abel

/-! # The answers of the runner

Where every frame fits and holds no line separator of Unicode, each request of the agent is answered once and with what is its own,
however the socket cuts the frames and in whatever order the handlers come to an end.
-/

namespace CommandSuite.Ipc

open Library Transducer Transcript JsonObject

variable {stringify : Json → String} {parse : JsString → Option Json}

/-! ## What is asked of the two sides -/

def incoming (call : Nat × McpRequest) : IncomingRequest := ⟨some (.number call.1), some call.2.method, call.2.params⟩

def answerTo : ResponseBody → Answer
  | .result value => .result (some value)
  | .error _ message => .error (some (.string message))

/-- The answer is that of the request's own handler, or says that the request cannot be written. -/
def Own (stringify : Json → String) (bridge : Bridge) (runner : Runner) (id : Nat) (answer : Answer) : Prop :=
  ∃ request, (id, request) ∈ bridge.requests ∧
    ((∃ outcome, (incoming (id, request), outcome) ∈ runner.outcomes ∧
        answer = answerTo (handleMcpRequest (incoming (id, request)) outcome)) ∨
      ∃ message, encodeFrame stringify (requestFrame id request) = .error message ∧ answer = .error (some (.string message)))

structure Quiet (world : World) : Prop where
  toRunner : world.toRunner = []
  running : world.runner.running = []
  toBridge : world.toBridge = []

structure AnswersCalls (stringify : Json → String) (world : World) : Prop where
  runnerOpen : world.runner.closed = false
  bridgeOpen : world.bridge.closed = false
  once : (world.bridge.answers.map Prod.fst).Nodup
  own : ∀ id answer, (id, answer) ∈ world.bridge.answers → Own stringify world.bridge world.runner id answer
  complete : Quiet world → ∀ call ∈ world.bridge.requests, call.1 ∈ world.bridge.answers.map Prod.fst

def lineOf (stringify : Json → String) (frame : Json) : JsString := Text.utf16 (stringify frame)

/-- `JSON.parse` gives back what `JSON.stringify` wrote, which is a line. -/
structure Faithful (stringify : Json → String) (parse : JsString → Option Json) (frame : Json) : Prop where
  parsed : parse (lineOf stringify frame) = some frame
  nonempty : lineOf stringify frame ≠ []
  oneLine : ∀ c ∈ (stringify frame).toList, c ≠ '\n' ∧ c ≠ '\r'

def written (stringify : Json → String) (world : World) : Input → Option Json
  | .forwardRequest request =>
    if (frameBytes stringify (requestFrame world.bridge.nextRequestId request)).length ≤ MAX_FRAME_BYTES then
      some (requestFrame world.bridge.nextRequestId request)
    else none
  | .settles index outcome =>
    (world.runner.running[index]?).map fun request => responseFrame request.id (handleMcpRequest request outcome)
  | .listChanged => some listChangedFrame
  | .runnerReads _ | .bridgeReads _ => none

theorem written_forwardRequest {stringify : Json → String} {world : World} {request : McpRequest} {frame : Json}
    (h : written stringify world (.forwardRequest request) = some frame) : frame = requestFrame world.bridge.nextRequestId request := by
  unfold written at h
  exact (Option.some.inj (Option.ite_none_right_eq_some.mp h).2).symm

theorem written_settles {stringify : Json → String} {world : World} {index : Nat} {outcome : Outcome} {request : IncomingRequest}
    {frame : Json} (h : written stringify world (.settles index outcome) = some frame)
    (hRequest : world.runner.running[index]? = some request) : frame = responseFrame request.id (handleMcpRequest request outcome) := by
  obtain ⟨other, hOther, rfl⟩ := Option.map_eq_some_iff.mp h
  rw [hRequest] at hOther
  rw [Option.some.inj hOther]

structure Passes (stringify : Json → String) (frame : Json) : Prop where
  fits : (frameBytes stringify frame).length ≤ MAX_FRAME_BYTES
  unseparated : ∀ c ∈ (stringify frame).toList, c.toNat ≠ 0x2028 ∧ c.toNat ≠ 0x2029

/-! ## Frames on the socket -/

theorem encodeFrame_of_fits {frame : Json} (h : (frameBytes stringify frame).length ≤ MAX_FRAME_BYTES) :
    encodeFrame stringify frame = .ok (frameBytes stringify frame) := if_neg (Nat.not_lt.mpr h)

theorem feed_frameBytes {frame : Json} (hFaithful : Faithful stringify parse frame) (hPasses : Passes stringify frame) :
    feed JsonRpc.reader Reading.initial (frameBytes stringify frame) = (Reading.initial, [lineOf stringify frame]) := by
  refine JsonRpc.feed_line (fun c hMem => ?_) rfl
  obtain ⟨hFeed, hReturn⟩ := hFaithful.oneLine c hMem
  obtain ⟨hLine, hParagraph⟩ := hPasses.unseparated c hMem
  exact JsonRpc.isPlain_of_ne hFeed hReturn hLine hParagraph

structure Carries (stringify : Json → String) (parse : JsString → Option Json) (reading : Reading) (bytes : List Nat)
    (frames : List Json) : Prop where
  lines : feed JsonRpc.reader reading bytes = (Reading.initial, frames.map (lineOf stringify))
  faithful : ∀ frame ∈ frames, Faithful stringify parse frame

variable {reading : Reading} {bytes : List Nat} {frames : List Json}

theorem carries_nil (stringify : Json → String) (parse : JsString → Option Json) : Carries stringify parse .initial [] [] :=
  ⟨rfl, fun _ hNone => nomatch hNone⟩

theorem Carries.write (h : Carries stringify parse reading bytes frames) {frame : Json} (hFaithful : Faithful stringify parse frame)
    (hPasses : Passes stringify frame) : Carries stringify parse reading (bytes ++ frameBytes stringify frame) (frames ++ [frame]) := by
  constructor
  · rw [feed_append, h.lines, feed_frameBytes hFaithful hPasses, List.map_append]
    rfl
  · intro other hOther
    rcases List.mem_append.mp hOther with hBefore | hLast
    · exact h.faithful other hBefore
    · rw [List.mem_singleton.mp hLast]
      exact hFaithful

theorem Carries.read (h : Carries stringify parse reading bytes frames) (count : Nat) : ∃ now later, frames = now ++ later ∧
    (feed JsonRpc.reader reading (bytes.take count)).2 = now.map (lineOf stringify) ∧
    (∀ frame ∈ now, Faithful stringify parse frame) ∧
    Carries stringify parse (feed JsonRpc.reader reading (bytes.take count)).1 (bytes.drop count) later := by
  have hLines := h.lines
  rw [← List.take_append_drop count bytes, feed_append] at hLines
  obtain ⟨hState, hOutput⟩ := Prod.mk.inj hLines
  obtain ⟨now, later, rfl, hNow, hLater⟩ := List.map_eq_append_iff.mp hOutput.symm
  refine ⟨now, later, rfl, hNow.symm, fun frame hFrame => h.faithful frame (List.mem_append_left _ hFrame), ?_, ?_⟩
  · exact Prod.ext hState hLater.symm
  · exact fun frame hFrame => h.faithful frame (List.mem_append_right _ hFrame)

theorem Carries.eq_nil (h : Carries stringify parse reading [] frames) : frames = [] :=
  List.map_eq_nil_iff.mp (congrArg Prod.snd h.lines).symm

theorem parseFrame_line {members : JsonObject} (h : Faithful stringify parse (.object members)) {kind : FrameKind}
    (hKind : ((get members "kind").bind Json.asString).bind FrameKind.ofText = some kind) :
    parseFrame parse (lineOf stringify (.object members)) = some (kind, members) := by
  unfold parseFrame
  rw [if_neg h.nonempty, h.parsed]
  dsimp only
  rw [hKind]
  rfl

/-! ## Where each request is -/

inductive Reply where
  | response (call : Nat × McpRequest) (outcome : Outcome)
  | listChanged

namespace Reply

def frame : Reply → Json
  | .response call outcome => responseFrame (some (.number call.1)) (handleMcpRequest (incoming call) outcome)
  | .listChanged => listChangedFrame

def ids : Reply → List Nat
  | .response call _ => [call.1]
  | .listChanged => []

end Reply

def callFrame (call : Nat × McpRequest) : Json := requestFrame call.1 call.2

structure Accounted (stringify : Json → String) (upstream handling : List (Nat × McpRequest)) (downstream : List Reply)
    (bridge : Bridge) (runner : Runner) : Prop where
  runnerOpen : runner.closed = false
  bridgeOpen : bridge.closed = false
  running : runner.running = handling.map incoming
  pending : (bridge.pendingRequests : Multiset Nat) =
    ↑(upstream.map Prod.fst) + ↑(handling.map Prod.fst) + ↑(downstream.flatMap Reply.ids)
  requests : (bridge.requests.map Prod.fst : Multiset Nat) = ↑(bridge.answers.map Prod.fst) + ↑bridge.pendingRequests
  distinct : (bridge.requests.map Prod.fst).Nodup
  fresh : ∀ call ∈ bridge.requests, call.1 < bridge.nextRequestId
  calls : ∀ call ∈ upstream ++ handling, call ∈ bridge.requests
  replies : ∀ call outcome, .response call outcome ∈ downstream → call ∈ bridge.requests ∧ (incoming call, outcome) ∈ runner.outcomes
  own : ∀ id answer, (id, answer) ∈ bridge.answers → Own stringify bridge runner id answer

variable {upstream handling : List (Nat × McpRequest)} {downstream : List Reply} {bridge : Bridge} {runner : Runner}

theorem Own.mono {id : Nat} {answer : Answer} (h : Own stringify bridge runner id answer) {other : Bridge} {later : Runner}
    (hRequests : bridge.requests ⊆ other.requests) (hOutcomes : runner.outcomes ⊆ later.outcomes) :
    Own stringify other later id answer := by
  obtain ⟨request, hRequest, ⟨outcome, hOutcome, hAnswer⟩ | hLarge⟩ := h
  · exact ⟨request, hRequests hRequest, .inl ⟨outcome, hOutcomes hOutcome, hAnswer⟩⟩
  · exact ⟨request, hRequests hRequest, .inr hLarge⟩

theorem requestFrame_eq (id : Nat) (request : McpRequest) : ∃ members, requestFrame id request = .object members ∧
    ((get members "kind").bind Json.asString).bind FrameKind.ofText = some .mcpRequest ∧
    get members "id" = some (.number id) ∧
    (get members "method").bind Json.asString = some request.method ∧ get members "params" = request.params := by
  cases request with
  | toolsList => exact ⟨_, rfl, rfl, rfl, rfl, rfl⟩
  | toolsCall params => exact ⟨_, rfl, rfl, rfl, rfl, rfl⟩

theorem onRunnerLine_call {call : Nat × McpRequest} (h : Faithful stringify parse (callFrame call)) (runner : Runner) :
    onRunnerLine parse runner (lineOf stringify (callFrame call)) = { runner with running := runner.running ++ [incoming call] } := by
  obtain ⟨members, hFrame, hKind, hId, hMethod, hParams⟩ := requestFrame_eq call.1 call.2
  unfold callFrame at h ⊢
  rw [hFrame] at h ⊢
  unfold onRunnerLine
  rw [parseFrame_line h hKind]
  dsimp only
  rw [hId, hMethod, hParams]
  rfl

theorem foldl_onRunnerLine {now : List (Nat × McpRequest)} (h : ∀ call ∈ now, Faithful stringify parse (callFrame call))
    (runner : Runner) : (now.map fun call => lineOf stringify (callFrame call)).foldl (onRunnerLine parse) runner =
      { runner with running := runner.running ++ now.map incoming } := by
  induction now generalizing runner with
  | nil => simp
  | cons call now ih =>
    obtain ⟨hCall, hRest⟩ := List.forall_mem_cons.mp h
    rw [List.map_cons, List.foldl_cons, onRunnerLine_call hCall, ih hRest]
    simp

theorem pendingOf_id {members : JsonObject} {id : Nat} (hId : get members "id" = some (.number id))
    (h : id ∈ bridge.pendingRequests) : pendingOf members bridge = some id := by
  unfold pendingOf
  rw [hId]
  dsimp only
  cases hFound : bridge.pendingRequests.find? fun pending : Nat => (pending : Rat) = id with
  | none => simpa using List.find?_eq_none.mp hFound id h
  | some pending =>
    have hSame := List.find?_some hFound
    rw [Nat.cast_inj.mp (of_decide_eq_true hSame)]

theorem onBridgeLine_response {id : Nat} {body : ResponseBody} (h : Faithful stringify parse (responseFrame (some (.number id)) body))
    (hPending : id ∈ bridge.pendingRequests) :
    onBridgeLine parse bridge (lineOf stringify (responseFrame (some (.number id)) body)) = answer id (answerTo body) bridge := by
  have hKind : ((get (("kind", .string FrameKind.mcpResponse.text) :: [("id", Json.number id)] ++ [body.member]) "kind").bind
      Json.asString).bind FrameKind.ofText = some .mcpResponse := rfl
  unfold responseFrame at h ⊢
  unfold onBridgeLine
  rw [parseFrame_line h hKind]
  dsimp only
  rw [pendingOf_id rfl hPending]
  cases body with
  | result value => rfl
  | error code message => rfl

theorem onBridgeLine_listChanged (h : Faithful stringify parse listChangedFrame) (bridge : Bridge) :
    onBridgeLine parse bridge (lineOf stringify listChangedFrame) = bridge := by
  have hKind : ((get [("kind", .string FrameKind.mcpNotification.text),
      ("method", .string "notifications/tools/list_changed"), ("params", .object [])] "kind").bind Json.asString).bind
      FrameKind.ofText = some .mcpNotification := rfl
  unfold listChangedFrame at h ⊢
  unfold onBridgeLine
  rw [parseFrame_line h hKind]

/-! ## Every step keeps account -/

theorem Accounted.delivers {now later : List (Nat × McpRequest)} (h : Accounted stringify (now ++ later) handling downstream bridge runner)
    {after : Runner} (hRunning : after.running = runner.running ++ now.map incoming) (hClosed : after.closed = runner.closed)
    (hOutcomes : after.outcomes = runner.outcomes) : Accounted stringify later (handling ++ now) downstream bridge after where
  runnerOpen := hClosed.trans h.runnerOpen
  bridgeOpen := h.bridgeOpen
  running := by rw [hRunning, h.running, List.map_append]
  pending := by
    rw [h.pending, List.map_append, List.map_append, ← Multiset.coe_add, ← Multiset.coe_add]
    abel
  requests := h.requests
  distinct := h.distinct
  fresh := h.fresh
  calls call hCall := by
    refine h.calls call ?_
    simp only [List.mem_append] at hCall ⊢
    tauto
  replies call outcome hReply := hOutcomes ▸ h.replies call outcome hReply
  own id answer hAnswer := (h.own id answer hAnswer).mono (List.Subset.refl _) (hOutcomes ▸ List.Subset.refl _)

theorem Accounted.answers {call : Nat × McpRequest} {outcome : Outcome}
    (h : Accounted stringify upstream handling (.response call outcome :: downstream) bridge runner) :
    Accounted stringify upstream handling downstream
      (answer call.1 (answerTo (handleMcpRequest (incoming call) outcome)) bridge) runner := by
  obtain ⟨hCall, hOutcome⟩ := h.replies call outcome List.mem_cons_self
  have hPending : (bridge.pendingRequests : Multiset Nat) =
      call.1 ::ₘ (↑(upstream.map Prod.fst) + ↑(handling.map Prod.fst) + ↑(downstream.flatMap Reply.ids)) := by
    rw [h.pending, List.flatMap_cons, ← Multiset.coe_add, ← Multiset.singleton_add]
    change _ + (({call.1} : Multiset Nat) + _) = _
    abel
  have hErased : ((bridge.pendingRequests.erase call.1 : List Nat) : Multiset Nat) =
      ↑(upstream.map Prod.fst) + ↑(handling.map Prod.fst) + ↑(downstream.flatMap Reply.ids) := by
    rw [← Multiset.coe_erase, hPending, Multiset.erase_cons_head]
  exact {
    runnerOpen := h.runnerOpen
    bridgeOpen := h.bridgeOpen
    running := h.running
    pending := hErased
    requests := by
      change (bridge.requests.map Prod.fst : Multiset Nat) =
        ↑((bridge.answers ++ [_]).map Prod.fst) + ↑(bridge.pendingRequests.erase call.1)
      rw [h.requests, hPending, hErased, List.map_append, ← Multiset.coe_add, ← Multiset.singleton_add]
      change _ = _ + ({call.1} : Multiset Nat) + _
      abel
    distinct := h.distinct
    fresh := h.fresh
    calls := h.calls
    replies := fun other later hReply => h.replies other later (List.mem_cons_of_mem _ hReply)
    own := by
      intro id other hAnswer
      rcases List.mem_append.mp hAnswer with hBefore | hLast
      · exact h.own id other hBefore
      · cases List.mem_singleton.mp hLast
        exact ⟨call.2, hCall, .inl ⟨outcome, hOutcome, rfl⟩⟩ }

theorem Accounted.replied {now later : List Reply} (h : Accounted stringify upstream handling (now ++ later) bridge runner)
    (hFaithful : ∀ reply ∈ now, Faithful stringify parse reply.frame) : ∃ after,
    (now.map fun reply => lineOf stringify reply.frame).foldl (onBridgeLine parse) bridge = after ∧
      after.reading = bridge.reading ∧ Accounted stringify upstream handling later after runner := by
  induction now generalizing bridge with
  | nil => exact ⟨bridge, rfl, rfl, h⟩
  | cons reply now ih =>
    obtain ⟨hReply, hRest⟩ := List.forall_mem_cons.mp hFaithful
    rw [List.map_cons, List.foldl_cons]
    cases reply with
    | response call outcome =>
      have hPending : call.1 ∈ bridge.pendingRequests := by
        rw [← Multiset.mem_coe, h.pending]
        refine Multiset.mem_add.mpr (.inr (Multiset.mem_coe.mpr ?_))
        exact List.mem_flatMap.mpr ⟨_, List.mem_cons_self, List.mem_singleton_self _⟩
      obtain ⟨after, hFold, hReading, hAccounted⟩ := ih h.answers hRest
      refine ⟨after, ?_, hReading, hAccounted⟩
      rw [← hFold]
      exact congrArg (List.foldl _ · _) (onBridgeLine_response hReply hPending)
    | listChanged =>
      have hDropped : Accounted stringify upstream handling (now ++ later) bridge runner :=
        ⟨h.runnerOpen, h.bridgeOpen, h.running, h.pending, h.requests, h.distinct, h.fresh, h.calls,
          fun call outcome hOther => h.replies call outcome (List.mem_cons_of_mem _ hOther), h.own⟩
      obtain ⟨after, hFold, hReading, hAccounted⟩ := ih hDropped hRest
      refine ⟨after, ?_, hReading, hAccounted⟩
      rw [← hFold]
      exact congrArg (List.foldl _ · _) (onBridgeLine_listChanged hReply bridge)

section

variable (h : Accounted stringify upstream handling downstream bridge runner)
include h

theorem Accounted.congr {other : Bridge} {later : Runner}
    (hBridge : ∃ reading, other = { bridge with reading := reading }) (hRunner : ∃ reading, later = { runner with reading := reading }) :
    Accounted stringify upstream handling downstream other later := by
  obtain ⟨_, rfl⟩ := hBridge
  obtain ⟨_, rfl⟩ := hRunner
  exact ⟨h.runnerOpen, h.bridgeOpen, h.running, h.pending, h.requests, h.distinct, h.fresh, h.calls, h.replies, h.own⟩

theorem Accounted.request (request : McpRequest) :
    (bridge.requests ++ [(bridge.nextRequestId, request)]).map Prod.fst = bridge.requests.map Prod.fst ++ [bridge.nextRequestId] ∧
      ((bridge.requests ++ [(bridge.nextRequestId, request)]).map Prod.fst).Nodup ∧
      ∀ call ∈ bridge.requests ++ [(bridge.nextRequestId, request)], call.1 < bridge.nextRequestId + 1 := by
  refine ⟨List.map_append, ?_, fun call hCall => ?_⟩
  · rw [List.map_append, List.nodup_append]
    refine ⟨h.distinct, List.nodup_singleton _, fun id hId other hOther hSame => ?_⟩
    obtain ⟨call, hCall, rfl⟩ := List.mem_map.mp hId
    have hLess := h.fresh call hCall
    rw [List.map_singleton, List.mem_singleton] at hOther
    omega
  · rcases List.mem_append.mp hCall with hBefore | hLast
    · exact Nat.lt_succ_of_lt (h.fresh call hBefore)
    · rw [List.mem_singleton.mp hLast]
      exact Nat.lt_succ_self _

theorem Accounted.forwards (request : McpRequest) :
    Accounted stringify (upstream ++ [(bridge.nextRequestId, request)]) handling downstream
      { bridge with
        nextRequestId := bridge.nextRequestId + 1
        requests := bridge.requests ++ [(bridge.nextRequestId, request)]
        pendingRequests := bridge.pendingRequests ++ [bridge.nextRequestId] } runner := by
  obtain ⟨hIds, hDistinct, hFresh⟩ := h.request request
  exact {
    runnerOpen := h.runnerOpen
    bridgeOpen := h.bridgeOpen
    running := h.running
    pending := by
      change ((bridge.pendingRequests ++ [bridge.nextRequestId] : List Nat) : Multiset Nat) = _
      rw [List.map_append, ← Multiset.coe_add, ← Multiset.coe_add, h.pending]
      change _ + ({bridge.nextRequestId} : Multiset Nat) = _ + ({bridge.nextRequestId} : Multiset Nat) + _ + _
      abel
    requests := by
      change (((bridge.requests ++ [_]).map Prod.fst : List Nat) : Multiset Nat) = _ +
        ((bridge.pendingRequests ++ [bridge.nextRequestId] : List Nat) : Multiset Nat)
      rw [hIds, ← Multiset.coe_add, ← Multiset.coe_add, h.requests, add_assoc]
    distinct := hDistinct
    fresh := hFresh
    calls := by
      intro call hCall
      simp only [List.mem_append, List.mem_singleton] at hCall ⊢
      rcases hCall with (hUp | hNew) | hHandled
      · exact .inl (h.calls call (List.mem_append_left _ hUp))
      · exact .inr hNew
      · exact .inl (h.calls call (List.mem_append_right _ hHandled))
    replies := by
      intro call outcome hReply
      obtain ⟨hCall, hOutcome⟩ := h.replies call outcome hReply
      exact ⟨List.mem_append_left _ hCall, hOutcome⟩
    own := fun id other hAnswer => (h.own id other hAnswer).mono (List.subset_append_left _ _) (List.Subset.refl _) }

theorem Accounted.refuses {request : McpRequest} {message : String}
    (hLarge : encodeFrame stringify (requestFrame bridge.nextRequestId request) = .error message) :
    Accounted stringify upstream handling downstream
      { bridge with
        nextRequestId := bridge.nextRequestId + 1
        requests := bridge.requests ++ [(bridge.nextRequestId, request)]
        answers := bridge.answers ++ [(bridge.nextRequestId, .error (some (.string message)))] } runner := by
  obtain ⟨hIds, hDistinct, hFresh⟩ := h.request request
  exact {
    runnerOpen := h.runnerOpen
    bridgeOpen := h.bridgeOpen
    running := h.running
    pending := h.pending
    requests := by
      change (((bridge.requests ++ [_]).map Prod.fst : List Nat) : Multiset Nat) =
        (((bridge.answers ++ [_]).map Prod.fst : List Nat) : Multiset Nat) + _
      rw [hIds, List.map_append, ← Multiset.coe_add, ← Multiset.coe_add, h.requests]
      change _ + ({bridge.nextRequestId} : Multiset Nat) = _ + ({bridge.nextRequestId} : Multiset Nat) + _
      abel
    distinct := hDistinct
    fresh := hFresh
    calls := fun call hCall => List.mem_append_left _ (h.calls call hCall)
    replies := by
      intro call outcome hReply
      obtain ⟨hCall, hOutcome⟩ := h.replies call outcome hReply
      exact ⟨List.mem_append_left _ hCall, hOutcome⟩
    own := by
      intro id other hAnswer
      rcases List.mem_append.mp hAnswer with hBefore | hLast
      · exact (h.own id other hBefore).mono (List.subset_append_left _ _) (List.Subset.refl _)
      · cases List.mem_singleton.mp hLast
        exact ⟨request, List.mem_append_right _ (List.mem_singleton_self _), .inr ⟨message, hLarge, rfl⟩⟩ }

theorem Accounted.settles {index : Nat} {call : Nat × McpRequest}
    (hCall : handling[index]? = some call) (outcome : Outcome) :
    Accounted stringify upstream (handling.eraseIdx index) (downstream ++ [.response call outcome]) bridge
      { runner with
        running := runner.running.eraseIdx index
        outcomes := runner.outcomes ++ [(incoming call, outcome)] } where
  runnerOpen := h.runnerOpen
  bridgeOpen := h.bridgeOpen
  running := by rw [h.running, List.eraseIdx_map]
  pending := by
    obtain ⟨hIndex, rfl⟩ := List.getElem?_eq_some_iff.mp hCall
    have hTaken : (handling.map Prod.fst : Multiset Nat) = handling[index].1 ::ₘ ↑((handling.eraseIdx index).map Prod.fst) :=
      (Multiset.coe_eq_coe.mpr ((List.getElem_cons_eraseIdx_perm hIndex).map Prod.fst)).symm
    rw [h.pending, hTaken, List.flatMap_append, ← Multiset.coe_add, ← Multiset.singleton_add]
    change _ = _ + (_ + ({handling[index].1} : Multiset Nat))
    abel
  requests := h.requests
  distinct := h.distinct
  fresh := h.fresh
  calls other hOther := by
    refine h.calls other ?_
    rcases List.mem_append.mp hOther with hUp | hHandled
    · exact List.mem_append_left _ hUp
    · exact List.mem_append_right _ (List.mem_of_mem_eraseIdx hHandled)
  replies other later hReply := by
    rcases List.mem_append.mp hReply with hBefore | hLast
    · obtain ⟨hMade, hOutcome⟩ := h.replies other later hBefore
      exact ⟨hMade, List.mem_append_left _ hOutcome⟩
    · cases List.mem_singleton.mp hLast
      exact ⟨h.calls _ (List.mem_append_right _ (List.mem_of_getElem? hCall)), List.mem_append_right _ (List.mem_singleton_self _)⟩
  own id other hAnswer := (h.own id other hAnswer).mono (List.Subset.refl _) (List.subset_append_left _ _)

theorem Accounted.notifies :
    Accounted stringify upstream handling (downstream ++ [.listChanged]) bridge runner where
  runnerOpen := h.runnerOpen
  bridgeOpen := h.bridgeOpen
  running := h.running
  pending := by
    rw [List.flatMap_append]
    exact h.pending.trans (by rw [show ([Reply.listChanged].flatMap Reply.ids) = [] from rfl, List.append_nil])
  requests := h.requests
  distinct := h.distinct
  fresh := h.fresh
  calls := h.calls
  replies call outcome hReply := by
    rcases List.mem_append.mp hReply with hBefore | hLast
    · exact h.replies call outcome hBefore
    · cases List.mem_singleton.mp hLast
  own := h.own

end

structure Sound (stringify : Json → String) (parse : JsString → Option Json) (world : World) (upstream handling : List (Nat × McpRequest))
    (downstream : List Reply) : Prop where
  up : Carries stringify parse world.runner.reading world.toRunner (upstream.map callFrame)
  down : Carries stringify parse world.bridge.reading world.toBridge (downstream.map Reply.frame)
  accounted : Accounted stringify upstream handling downstream world.bridge world.runner

theorem sound_start (stringify : Json → String) (parse : JsString → Option Json) : Sound stringify parse .start [] [] [] where
  up := carries_nil stringify parse
  down := carries_nil stringify parse
  accounted :=
    { runnerOpen := rfl, bridgeOpen := rfl, running := rfl, pending := rfl, requests := rfl, distinct := List.nodup_nil
      fresh := fun _ hNone => nomatch hNone
      calls := fun _ hNone => nomatch hNone
      replies := fun _ _ hNone => nomatch hNone
      own := fun _ _ hNone => nomatch hNone }

variable {world : World}

section

variable (h : Sound stringify parse world upstream handling downstream)
include h

theorem Sound.send (reply : Reply)
    (hFaithful : Faithful stringify parse reply.frame) (hPasses : Passes stringify reply.frame) {runner : Runner} {later : List (Nat × McpRequest)}
    (hAccounted : Accounted stringify upstream later (downstream ++ [reply]) world.bridge runner)
    (hReading : runner.reading = world.runner.reading) :
    Sound stringify parse (Ipc.send stringify reply.frame { world with runner := runner }) upstream later (downstream ++ [reply]) := by
  unfold Ipc.send
  rw [if_neg (by rw [hAccounted.runnerOpen]; exact Bool.false_ne_true), encodeFrame_of_fits hPasses.fits]
  refine ⟨?_, ?_, hAccounted⟩
  · change Carries stringify parse runner.reading world.toRunner _
    rw [hReading]
    exact h.up
  · rw [List.map_append]
    exact h.down.write hFaithful hPasses

theorem sound_next (input : Input)
    (hFaithful : ∀ frame, written stringify world input = some frame → Faithful stringify parse frame)
    (hPasses : ∀ frame, written stringify world input = some frame → Passes stringify frame) :
    ∃ upstream handling downstream, Sound stringify parse (next stringify parse world input).1 upstream handling downstream := by
  cases input with
  | forwardRequest request =>
    change ∃ upstream handling downstream, Sound stringify parse (forwardRequest stringify request world) upstream handling downstream
    unfold forwardRequest
    by_cases hFits : (frameBytes stringify (requestFrame world.bridge.nextRequestId request)).length ≤ MAX_FRAME_BYTES
    · have hWritten : written stringify world (.forwardRequest request) = some (requestFrame world.bridge.nextRequestId request) :=
        if_pos hFits
      dsimp only
      rw [encodeFrame_of_fits hFits]
      refine ⟨upstream ++ [(world.bridge.nextRequestId, request)], handling, downstream, ?_, h.down, h.accounted.forwards request⟩
      rw [List.map_append]
      exact h.up.write (hFaithful _ hWritten) (hPasses _ hWritten)
    · have hLarge : encodeFrame stringify (requestFrame world.bridge.nextRequestId request) = .error _ := if_pos (Nat.not_le.mp hFits)
      dsimp only
      rw [hLarge]
      exact ⟨upstream, handling, downstream, h.up, h.down, h.accounted.refuses hLarge⟩
  | runnerReads count =>
    change ∃ upstream handling downstream, Sound stringify parse (runnerReads parse count world) upstream handling downstream
    obtain ⟨first, second, hFrames, hLines, hFirst, hSecond⟩ := h.up.read count
    obtain ⟨now, later, rfl, rfl, rfl⟩ := List.map_eq_append_iff.mp hFrames
    have hCalls : ∀ call ∈ now, Faithful stringify parse (callFrame call) := fun call hCall => hFirst _ (List.mem_map_of_mem hCall)
    have hFold := foldl_onRunnerLine hCalls
      { world.runner with reading := (feed JsonRpc.reader world.runner.reading (world.toRunner.take count)).1 }
    unfold runnerReads
    rw [if_neg (by rw [h.accounted.runnerOpen]; exact Bool.false_ne_true)]
    dsimp only
    rw [hLines, List.map_map]
    refine ⟨later, handling ++ now, downstream, ?_, h.down, ?_⟩
    · change Carries stringify parse (List.foldl (onRunnerLine parse) _ (now.map fun call => lineOf stringify (callFrame call))).reading _ _
      rw [hFold]
      exact hSecond
    · change Accounted stringify later _ _ _ (List.foldl _ _ (now.map fun call => lineOf stringify (callFrame call)))
      rw [hFold]
      exact h.accounted.delivers rfl rfl rfl
  | settles index outcome =>
    change ∃ upstream handling downstream, Sound stringify parse (settles stringify index outcome world) upstream handling downstream
    unfold settles
    cases hRunning : world.runner.running[index]? with
    | none => exact ⟨upstream, handling, downstream, h⟩
    | some request =>
      have hWritten : written stringify world (.settles index outcome) =
          some (responseFrame request.id (handleMcpRequest request outcome)) := by
        change (world.runner.running[index]?).map _ = _
        rw [hRunning]
        rfl
      have hMapped := hRunning
      rw [h.accounted.running, List.getElem?_map] at hMapped
      obtain ⟨call, hCall, rfl⟩ := Option.map_eq_some_iff.mp hMapped
      exact ⟨upstream, handling.eraseIdx index, downstream ++ [Reply.response call outcome],
        h.send (.response call outcome) (hFaithful _ hWritten) (hPasses _ hWritten) (h.accounted.settles hCall outcome) rfl⟩
  | listChanged =>
    change ∃ upstream handling downstream, Sound stringify parse (send stringify listChangedFrame world) upstream handling downstream
    exact ⟨upstream, handling, downstream ++ [Reply.listChanged], h.send .listChanged (hFaithful _ rfl) (hPasses _ rfl) h.accounted.notifies rfl⟩
  | bridgeReads count =>
    change ∃ upstream handling downstream, Sound stringify parse (bridgeReads parse count world) upstream handling downstream
    obtain ⟨first, second, hFrames, hLines, hFirst, hSecond⟩ := h.down.read count
    obtain ⟨now, later, rfl, rfl, rfl⟩ := List.map_eq_append_iff.mp hFrames
    have hReplies : ∀ reply ∈ now, Faithful stringify parse reply.frame := fun reply hReply => hFirst _ (List.mem_map_of_mem hReply)
    have hRead : Accounted stringify upstream handling (now ++ later)
        { world.bridge with reading := (feed JsonRpc.reader world.bridge.reading (world.toBridge.take count)).1 } world.runner :=
      h.accounted.congr ⟨_, rfl⟩ ⟨_, rfl⟩
    obtain ⟨after, hFold, hReading, hAccounted⟩ := hRead.replied hReplies
    unfold bridgeReads
    rw [if_neg (by rw [h.accounted.bridgeOpen]; exact Bool.false_ne_true)]
    dsimp only
    rw [hLines, List.map_map]
    refine ⟨upstream, handling, later, h.up, ?_, ?_⟩
    · change Carries stringify parse (List.foldl (onBridgeLine parse) _ _).reading _ _
      rw [show (now.map (lineOf stringify ∘ Reply.frame)) = now.map fun reply => lineOf stringify reply.frame from rfl, hFold, hReading]
      exact hSecond
    · exact hFold ▸ hAccounted

theorem Sound.answersCalls : AnswersCalls stringify world := by
  obtain ⟨hUp, hDown, hAccounted⟩ := h
  refine ⟨hAccounted.runnerOpen, hAccounted.bridgeOpen, ?_, hAccounted.own, fun hQuiet call hCall => ?_⟩
  · have hDistinct : (world.bridge.requests.map Prod.fst : Multiset Nat).Nodup := hAccounted.distinct
    rw [hAccounted.requests] at hDistinct
    exact Multiset.coe_nodup.mp (Multiset.nodup_of_le (Multiset.le_add_right _ _) hDistinct)
  · rw [hQuiet.toRunner] at hUp
    rw [hQuiet.toBridge] at hDown
    have hUpstream : upstream = [] := List.map_eq_nil_iff.mp hUp.eq_nil
    have hDownstream : downstream = [] := List.map_eq_nil_iff.mp hDown.eq_nil
    have hHandling : handling = [] := List.map_eq_nil_iff.mp (hAccounted.running.symm.trans hQuiet.running)
    subst hUpstream hDownstream hHandling
    have hRequests := hAccounted.requests
    rw [hAccounted.pending] at hRequests
    have hMember : call.1 ∈ (world.bridge.requests.map Prod.fst : Multiset Nat) := Multiset.mem_coe.mpr (List.mem_map_of_mem hCall)
    rw [hRequests] at hMember
    exact (Multiset.mem_add.mp hMember).resolve_right (by simp)

end

/-! ## Every call is answered -/

/-- However the frames are cut and in whatever order the handlers end, as long as each frame that is written fits and holds no line
separator of Unicode. -/
theorem calls_answered (stringify : Json → String) (parse : JsString → Option Json) (inputs : List Input)
    (hFaithful : ∀ step ∈ run (next stringify parse) .start inputs, ∀ frame, written stringify step.before step.input = some frame →
      Faithful stringify parse frame)
    (hPasses : ∀ step ∈ run (next stringify parse) .start inputs, ∀ frame, written stringify step.before step.input = some frame →
      Passes stringify frame) :
    ∀ step ∈ run (next stringify parse) .start inputs, AnswersCalls stringify step.after := by
  intro step hStep
  obtain ⟨⟨upstream, handling, downstream, hBefore⟩, hAt⟩ := run_invariant_of
    (P := fun world => ∃ upstream handling downstream, Sound stringify parse world upstream handling downstream)
    (C := fun world input => ∀ frame, written stringify world input = some frame → Faithful stringify parse frame ∧ Passes stringify frame)
    (fun _ input ⟨_, _, _, h⟩ hC => sound_next h input (fun frame hFrame => (hC frame hFrame).1) fun frame hFrame => (hC frame hFrame).2)
    ⟨[], [], [], sound_start stringify parse⟩
    (fun step hStep frame hFrame => ⟨hFaithful step hStep frame hFrame, hPasses step hStep frame hFrame⟩) step hStep
  obtain ⟨_, _, _, hAfter⟩ := sound_next hBefore step.input (hFaithful step hStep) (hPasses step hStep)
  rw [hAt]
  exact hAfter.answersCalls

def isPlain (text : String) : Bool := text.toList.all fun c => c ≠ '\n' && c ≠ '\r' && c.toNat ≠ 0x2028 && c.toNat ≠ 0x2029

theorem ne_of_isPlain {text : String} (h : isPlain text = true) {c : Char} (hMem : c ∈ text.toList) :
    (c ≠ '\n' ∧ c ≠ '\r') ∧ c.toNat ≠ 0x2028 ∧ c.toNat ≠ 0x2029 := by
  have hChar := List.all_eq_true.mp h c hMem
  simp only [Bool.and_eq_true, decide_eq_true_iff] at hChar
  exact ⟨hChar.1.1, hChar.1.2, hChar.2⟩

def textsOf (request response : String) : Json → String
  | .object members => if (get members "kind").bind Json.asString = some "mcp_request" then request else response
  | _ => response

def parseTexts (texts : List (String × Json)) (line : JsString) : Option Json :=
  (texts.find? fun text => Text.utf16 text.1 = line).map Prod.snd

def listed : Json := .object [("tools", .array [])]

def listRequest : String := "\x7b\"kind\":\"mcp_request\",\"id\":1,\"method\":\"tools/list\"\x7d"

def listResponse : String := "\x7b\"kind\":\"mcp_response\",\"id\":1,\"result\":\x7b\"tools\":[]\x7d\x7d"

def parseList : JsString → Option Json :=
  parseTexts [(listRequest, requestFrame 1 .toolsList), (listResponse, responseFrame (some (.number 1)) (.result listed))]

def list : List Input := [.forwardRequest .toolsList, .runnerReads 10, .runnerReads 100, .settles 0 (.returns listed), .bridgeReads 100]

theorem list_answered :
    (final (next (textsOf listRequest listResponse) parseList) .start list).bridge.answers.map Prod.fst = [1] ∧
      ∀ step ∈ run (next (textsOf listRequest listResponse) parseList) .start list,
        AnswersCalls (textsOf listRequest listResponse) step.after := by
  have hWritten : ∀ step ∈ run (next (textsOf listRequest listResponse) parseList) .start list, ∀ frame,
      written (textsOf listRequest listResponse) step.before step.input = some frame →
        frame = requestFrame 1 .toolsList ∨ frame = responseFrame (some (.number 1)) (.result listed) := by
    refine List.forall_mem_cons.mpr ⟨fun frame hFrame => ?_, List.forall_mem_cons.mpr ⟨fun _ hNone => (nomatch hNone), ?_⟩⟩
    · exact .inl (written_forwardRequest hFrame)
    · refine List.forall_mem_cons.mpr ⟨fun _ hNone => (nomatch hNone), List.forall_mem_cons.mpr ⟨fun frame hFrame => ?_, ?_⟩⟩
      · have hRunning : (final (next (textsOf listRequest listResponse) parseList) .start (list.take 3)).runner.running =
            [incoming (1, .toolsList)] := rfl
        exact .inr (written_settles hFrame (congrArg (fun running => running[0]?) hRunning))
      · exact List.forall_mem_cons.mpr ⟨fun _ hNone => (nomatch hNone), fun _ hNone => nomatch hNone⟩
  have hRequest : isPlain listRequest = true := by decide +kernel
  have hResponse : isPlain listResponse = true := by decide +kernel
  refine ⟨by decide +kernel, calls_answered _ _ list (fun step hStep frame hFrame => ?_) fun step hStep frame hFrame => ?_⟩
  · rcases hWritten step hStep frame hFrame with rfl | rfl
    · exact ⟨rfl, by decide +kernel, fun _ hMem => (ne_of_isPlain hRequest hMem).1⟩
    · exact ⟨rfl, by decide +kernel, fun _ hMem => (ne_of_isPlain hResponse hMem).1⟩
  · rcases hWritten step hStep frame hFrame with rfl | rfl
    · exact ⟨by decide +kernel, fun _ hMem => (ne_of_isPlain hRequest hMem).2⟩
    · exact ⟨by decide +kernel, fun _ hMem => (ne_of_isPlain hResponse hMem).2⟩

def countsOf (world : World) : Nat × Nat × Nat × List Nat × List Nat :=
  (world.toRunner.length, world.runner.running.length, world.toBridge.length, world.bridge.requests.map Prod.fst,
    world.bridge.answers.map Prod.fst)

theorem counts_eq {world : World} {requests answers : List Nat} (h : countsOf world = (0, 0, 0, requests, answers)) :
    world.toRunner = [] ∧ world.runner.running = [] ∧ world.toBridge = [] ∧ world.bridge.requests.map Prod.fst = requests ∧
      world.bridge.answers.map Prod.fst = answers := by
  simp only [countsOf, Prod.mk.injEq, List.length_eq_zero_iff] at h
  exact h

def separated : Json := .object [("content", .array [.object [("type", .string "text"), ("text", .string "a\u2028b")]])]

def called : Json := .object [("name", .string "read")]

def callRequest : String := "\x7b\"kind\":\"mcp_request\",\"id\":1,\"method\":\"tools/call\",\"params\":\x7b\"name\":\"read\"\x7d\x7d"

def callResponse : String :=
  "\x7b\"kind\":\"mcp_response\",\"id\":1,\"result\":\x7b\"content\":[\x7b\"type\":\"text\",\"text\":\"a\u2028b\"\x7d]\x7d\x7d"

def parseCall : JsString → Option Json :=
  parseTexts [(callRequest, requestFrame 1 (.toolsCall called)), (callResponse, responseFrame (some (.number 1)) (.result separated))]

/-- The response is two lines, neither of which is a frame. -/
theorem separated_result_unanswered : ¬ AnswersCalls (textsOf callRequest callResponse)
    (final (next (textsOf callRequest callResponse) parseCall) .start
      [.forwardRequest (.toolsCall called), .runnerReads 200, .settles 0 (.returns separated), .bridgeReads 200]) := by
  intro h
  have hEnd : countsOf (final (next (textsOf callRequest callResponse) parseCall) .start
      [.forwardRequest (.toolsCall called), .runnerReads 200, .settles 0 (.returns separated), .bridgeReads 200]) =
      (0, 0, 0, [1], []) := by decide +kernel
  obtain ⟨hToRunner, hRunning, hToBridge, hRequests, hAnswers⟩ := counts_eq hEnd
  obtain ⟨call, hCall, hId⟩ := List.mem_map.mp (hRequests ▸ List.mem_singleton_self 1)
  have hAnswered := h.complete ⟨hToRunner, hRunning, hToBridge⟩ call hCall
  rw [hAnswers] at hAnswered
  cases hAnswered

end CommandSuite.Ipc
