import CommandSuite.Cli.Runtime.Codex.RolloutParser.Turns

/-! # What becomes of the lines of a rollout

The texts of a turn become one exchange, a prompt and a tool result an event each.
-/

namespace CommandSuite.RolloutParser

open Library Redact Transcript Text

/-! ## Prompts -/

def promptsOf (events : List RolloutEvent) : List (Int × JsString) := events.filterMap fun
  | .userPrompt ts text => some (ts, text)
  | _ => none

def eventPrompt (registered : RegisteredValues) (payload : List (JsString × JsValue)) (tsMs : Int) : Option (Int × JsString) :=
  if strField payload "type" = some (utf16 "user_message") then
    match strField payload "message" with
    | none => none
    | some text => if text = [] then none else some (tsMs, redactSecrets registered text [])
  else none

def promptOf (host : RolloutHost) (moment : RolloutMoment) : Option (Int × JsString) :=
  match recordOf host moment with
  | none => none
  | some (type, payload, tsMs) =>
    if type = some (utf16 "event_msg") then eventPrompt moment.registered payload tsMs else none

/-! ## Tool results -/

inductive ToolMark where
  | call (callId : JsString) (call : ToolCall)
  | output (callId : JsString) (output : JsValue) (tsMs : Int)

def ToolMark.callId : ToolMark → JsString
  | .call callId _ => callId
  | .output callId _ _ => callId

def ToolMark.call? : ToolMark → Option ToolCall
  | .call _ found => some found
  | _ => none

def itemTool (host : RolloutHost) (payload : List (JsString × JsValue)) (tsMs : Int) : Option ToolMark :=
  if strField payload "type" = some (utf16 "function_call") then
    (strField payload "call_id").map fun callId =>
      .call callId ⟨(strField payload "name").getD (utf16 "tool"), parseArguments host (field payload "arguments")⟩
  else if strField payload "type" = some (utf16 "function_call_output") then
    (strField payload "call_id").map fun callId => .output callId ((field payload "output").getD .null) tsMs
  else none

def toolMark (host : RolloutHost) (moment : RolloutMoment) : Option ToolMark :=
  match recordOf host moment with
  | none => none
  | some (type, payload, tsMs) => if type = some (utf16 "response_item") then itemTool host payload tsMs else none

def pendingCall (before : List ToolMark) (callId : JsString) : Option ToolCall :=
  (before.reverse.find? fun mark => mark.callId = callId).bind ToolMark.call?

def actionFor (registered : RegisteredValues) (call : Option ToolCall) (callId : JsString) (output : JsValue) (tsMs : Int) : ToolAction where
  ts := tsMs
  toolName := (call.map ToolCall.name).getD (utf16 "tool")
  input := (call.map fun call => redactJson registered call.input).getD .null
  result := redactJson registered output
  isError := detectExecError output
  toolUseId := callId

def actionsOf (events : List RolloutEvent) : List ToolAction := events.filterMap fun
  | .toolAction action => some action
  | _ => none

def toolAction (registered : RegisteredValues) (pending : JsString → Option ToolCall) : Option ToolMark → Option ToolAction
  | some (.output callId output tsMs) => some (actionFor registered (pending callId) callId output tsMs)
  | _ => none

def actionAt (host : RolloutHost) (before : List RolloutMoment) (moment : RolloutMoment) : Option ToolAction :=
  toolAction moment.registered (pendingCall (before.filterMap (toolMark host))) (toolMark host moment)

def expectedActions (host : RolloutHost) (moments : List RolloutMoment) : List ToolAction :=
  moments.zipIdx.filterMap fun entry => actionAt host (moments.take entry.2) entry.1

theorem pendingCall_concat (before : List ToolMark) (mark : ToolMark) (callId : JsString) :
    pendingCall (before ++ [mark]) callId = if mark.callId = callId then mark.call? else pendingCall before callId := by
  rw [pendingCall, List.reverse_append, List.reverse_singleton, List.singleton_append, List.find?_cons]
  by_cases hSame : mark.callId = callId
  · rw [if_pos hSame, decide_eq_true hSame]
    rfl
  · rw [if_neg hSame, decide_eq_false hSame]
    rfl

def afterMark (pending : JsString → Option ToolCall) : Option ToolMark → JsString → Option ToolCall
  | none => pending
  | some mark => Function.update pending mark.callId mark.call?

theorem afterMark_pendingCall (before : List ToolMark) (mark : Option ToolMark) :
    afterMark (pendingCall before) mark = pendingCall (before ++ mark.toList) := by
  cases mark with
  | none => rw [Option.toList_none, List.append_nil]; rfl
  | some mark =>
    funext callId
    rw [Option.toList_some, pendingCall_concat, afterMark, Function.update_apply]
    exact if_congr eq_comm rfl rfl

section Lines

variable (host : RolloutHost) (parser : RolloutParser) (moment : RolloutMoment) (registered : RegisteredValues)

structure Tells (before : JsString → Option ToolCall) (prompt : Option (Int × JsString)) (mark : Option ToolMark)
    (result : RolloutParser × List RolloutEvent) : Prop where
  pending : result.1.pendingToolCalls = afterMark before mark
  prompts : promptsOf result.2 = prompt.toList
  actions : actionsOf result.2 = (toolAction registered before mark).toList

theorem tells_flushTurn (accum : TurnAccum) : promptsOf (flushTurn registered accum) = [] ∧ actionsOf (flushTurn registered accum) = [] := by
  unfold flushTurn
  split <;> exact ⟨rfl, rfl⟩

theorem tells_flush : promptsOf (flush registered parser).2 = [] ∧ actionsOf (flush registered parser).2 = [] := by
  unfold flush
  cases parser.current with
  | none => exact ⟨rfl, rfl⟩
  | some accum => exact tells_flushTurn registered accum

theorem tells_handleEventMsg (payload : List (JsString × JsValue)) (tsMs : Int) :
    Tells registered parser.pendingToolCalls (eventPrompt registered payload tsMs) none
      (handleEventMsg host registered payload tsMs parser) := by
  unfold handleEventMsg eventPrompt
  dsimp only
  by_cases hStarted : strField payload "type" = some (utf16 "task_started")
  · rw [if_pos hStarted, hStarted, if_neg (by decide), openTurn]
    cases parser.current with
    | none => exact ⟨rfl, rfl, rfl⟩
    | some accum => exact ⟨rfl, (tells_flushTurn registered accum).1, (tells_flushTurn registered accum).2⟩
  rw [if_neg hStarted]
  by_cases hComplete : strField payload "type" = some (utf16 "task_complete")
  · rw [if_pos hComplete, hComplete, if_neg (by decide)]
    cases parser.current with
    | none => exact ⟨rfl, rfl, rfl⟩
    | some accum => exact ⟨rfl, (tells_flushTurn registered _).1, (tells_flushTurn registered _).2⟩
  rw [if_neg hComplete]
  by_cases hUser : strField payload "type" = some (utf16 "user_message")
  · rw [if_pos hUser, if_pos hUser]
    cases strField payload "message" with
    | none => exact ⟨rfl, rfl, rfl⟩
    | some text =>
      by_cases hText : text = []
      · subst hText
        exact ⟨rfl, rfl, rfl⟩
      · dsimp only
        rw [if_neg hText, if_neg hText]
        exact ⟨rfl, rfl, rfl⟩
  rw [if_neg hUser, if_neg hUser]
  by_cases hMessage : strField payload "type" = some (utf16 "agent_message")
  · rw [if_pos hMessage]
    cases strField payload "message" with
    | none => exact ⟨rfl, rfl, rfl⟩
    | some text =>
      cases parser.current with
      | none => exact ⟨rfl, rfl, rfl⟩
      | some accum =>
        dsimp only
        split <;> exact ⟨rfl, rfl, rfl⟩
  rw [if_neg hMessage]
  by_cases hCount : strField payload "type" = some (utf16 "token_count")
  · rw [if_pos hCount]
    cases readTokenUsage (field payload "info") <;> cases parser.current <;> exact ⟨rfl, rfl, rfl⟩
  · rw [if_neg hCount]
    exact ⟨rfl, rfl, rfl⟩

theorem tells_handleResponseItem (payload : List (JsString × JsValue)) (tsMs : Int) :
    Tells registered parser.pendingToolCalls none (itemTool host payload tsMs)
      (handleResponseItem host registered payload tsMs parser) := by
  unfold handleResponseItem itemTool
  dsimp only
  by_cases hCall : strField payload "type" = some (utf16 "function_call")
  · rw [if_pos hCall, if_pos hCall]
    cases strField payload "call_id" <;> exact ⟨rfl, rfl, rfl⟩
  rw [if_neg hCall, if_neg hCall]
  by_cases hOutput : strField payload "type" = some (utf16 "function_call_output")
  · rw [if_pos hOutput, if_pos hOutput]
    cases strField payload "call_id" <;> exact ⟨rfl, rfl, rfl⟩
  rw [if_neg hOutput, if_neg hOutput]
  by_cases hReasoning : strField payload "type" = some (utf16 "reasoning")
  · rw [if_pos hReasoning]
    cases extractReasoning payload <;> cases parser.current <;> exact ⟨rfl, rfl, rfl⟩
  · rw [if_neg hReasoning]
    exact ⟨rfl, rfl, rfl⟩

theorem tells_handleLine :
    Tells moment.registered parser.pendingToolCalls (promptOf host moment) (toolMark host moment) (handleLine host parser moment) := by
  unfold handleLine promptOf toolMark
  cases recordOf host moment with
  | none => exact ⟨rfl, rfl, rfl⟩
  | some record =>
    obtain ⟨type, payload, tsMs⟩ := record
    dsimp only
    by_cases hContext : type = some (utf16 "turn_context")
    · rw [if_pos hContext, hContext, if_neg (by decide), if_neg (by decide)]
      exact ⟨rfl, rfl, rfl⟩
    rw [if_neg hContext]
    by_cases hEvent : type = some (utf16 "event_msg")
    · rw [if_pos hEvent, if_pos hEvent, hEvent, if_neg (by decide)]
      exact tells_handleEventMsg host (touch tsMs parser) moment.registered payload tsMs
    rw [if_neg hEvent, if_neg hEvent]
    by_cases hItem : type = some (utf16 "response_item")
    · rw [if_pos hItem, if_pos hItem]
      exact tells_handleResponseItem host (touch tsMs parser) moment.registered payload tsMs
    · rw [if_neg hItem, if_neg hItem]
      exact ⟨rfl, rfl, rfl⟩

end Lines

section Run

variable (host : RolloutHost)

theorem actionsOf_append (first second : List RolloutEvent) : actionsOf (first ++ second) = actionsOf first ++ actionsOf second :=
  List.filterMap_append

theorem promptsOf_append (first second : List RolloutEvent) : promptsOf (first ++ second) = promptsOf first ++ promptsOf second :=
  List.filterMap_append

theorem expectedActions_concat (moments : List RolloutMoment) (moment : RolloutMoment) :
    expectedActions host (moments ++ [moment]) = expectedActions host moments ++ (actionAt host moments moment).toList := by
  have hBefore : moments.zipIdx.filterMap (fun entry => actionAt host ((moments ++ [moment]).take entry.2) entry.1) =
      expectedActions host moments := by
    refine List.filterMap_congr fun entry hEntry => ?_
    have hIndex : entry.2 < moments.length := (List.mem_zipIdx' hEntry).1
    rw [List.take_append_of_le_length hIndex.le]
  rw [expectedActions, List.zipIdx_append, List.filterMap_append, hBefore, List.zipIdx_singleton, Nat.zero_add, List.filterMap_cons,
    List.take_append_of_le_length le_rfl, List.take_length]
  cases actionAt host moments moment <;> rfl

theorem promptsOf_run (parser : RolloutParser) (moments : List RolloutMoment) :
    promptsOf ((run (handleLine host) parser moments).flatMap Step.output) = moments.filterMap (promptOf host) := by
  induction moments generalizing parser with
  | nil => rfl
  | cons moment moments ih =>
    rw [run_cons, List.flatMap_cons, promptsOf_append, ih, stepAt_output, (tells_handleLine host parser moment).prompts,
      List.filterMap_cons]
    cases promptOf host moment <;> rfl

theorem actionsOf_run (moments : List RolloutMoment) :
    (final (handleLine host) create moments).pendingToolCalls = pendingCall (moments.filterMap (toolMark host)) ∧
      actionsOf ((run (handleLine host) create moments).flatMap Step.output) = expectedActions host moments := by
  induction moments using List.reverseRecOn with
  | nil => exact ⟨rfl, rfl⟩
  | append_singleton moments moment ih =>
    obtain ⟨hPending, hActions⟩ := ih
    have hLine := tells_handleLine host (final (handleLine host) create moments) moment
    rw [hPending] at hLine
    constructor
    · rw [final_append, final_cons, final_nil, hLine.pending, afterMark_pendingCall, List.filterMap_append,
        List.filterMap_cons]
      cases toolMark host moment <;> rfl
    · rw [run_append, List.flatMap_append, actionsOf_append, hActions, expectedActions_concat, run_cons,
        List.flatMap_cons, stepAt_output, run_nil, List.flatMap_nil, List.append_nil, hLine.actions]
      rfl

/-- What is emitted for a sequence of lines and the flush behind it. -/
structure Keeps (moments : List RolloutMoment) (registered : RegisteredValues) : Prop where
  contents : List.Forall₂ (Shows (moments.map RolloutMoment.registered ++ [registered])) (exchangesOf (emitted host moments registered))
    ((turnsOf (moments.map (turnMark host))).filter Turn.isShown)
  prompts : promptsOf (emitted host moments registered) = moments.filterMap (promptOf host)
  actions : actionsOf (emitted host moments registered) = expectedActions host moments
  flushed : ∀ later, (flush later (flush registered (final (handleLine host) create moments)).1).2 = []

theorem keeps_contents (moments : List RolloutMoment) (registered : RegisteredValues) : Keeps host moments registered where
  contents := by
    have hFlush : registered ∈ moments.map RolloutMoment.registered ++ [registered] :=
      List.mem_append_right _ (List.mem_singleton_self _)
    have hLines : ∀ moment ∈ moments, moment.registered ∈ moments.map RolloutMoment.registered ++ [registered] :=
      fun _ h => List.mem_append_left _ (List.mem_map_of_mem h)
    have hRun := shows_run host hFlush hLines create
    rw [show create.current.map collected = none from rfl, endedTurns_eq, Option.map_none, Option.toList_none, List.nil_append] at hRun
    exact hRun
  prompts := by
    rw [emitted, promptsOf_append, promptsOf_run, (tells_flush _ registered).1, List.append_nil]
  actions := by
    rw [emitted, actionsOf_append, (actionsOf_run host moments).2, (tells_flush _ registered).2, List.append_nil]
  flushed later := by
    have hClosed : (flush registered (final (handleLine host) create moments)).1.current = none := by
      cases hCurrent : (final (handleLine host) create moments).current with
      | none => simp only [flush, hCurrent]
      | some accum => simp only [flush, hCurrent]
    rw [flush, hClosed]

end Run

/-! ## Texts without a turn -/

def messageLine : JsValue :=
  .object [(utf16 "type", .string (utf16 "event_msg")),
    (utf16 "payload", .object [(utf16 "type", .string (utf16 "agent_message")), (utf16 "message", .string (utf16 "Done."))])]

theorem message_outside_turn : ¬ ∀ (host : RolloutHost) (moments : List RolloutMoment) (registered : RegisteredValues),
    ∀ moment ∈ moments, ∀ text, (turnMark host moment).text? = some text →
      ∃ exchange ∈ exchangesOf (emitted host moments registered), ∃ values, .text (redactSecrets values text []) ∈ exchange.content := by
  intro h
  let host : RolloutHost := ⟨fun _ => some messageLine, fun _ => none, fun _ => 0⟩
  let moment : RolloutMoment := ⟨[], 0, RegisteredValues.none⟩
  have hNone : exchangesOf (emitted host [moment] RegisteredValues.none) = [] := by decide
  obtain ⟨exchange, hExchange, _⟩ := h host [moment] RegisteredValues.none moment (List.mem_singleton_self _) (utf16 "Done.") (by decide)
  rw [hNone] at hExchange
  exact List.not_mem_nil hExchange

end CommandSuite.RolloutParser
