import CommandSuite.Cli.Runtime.Codex.RolloutParser

/-! # The turns of a rollout

Texts and reasoning of a turn become one exchange. What stands outside of every turn becomes none.
-/

namespace CommandSuite.RolloutParser

open Library Redact Transcript Text

/-! ## Turns of a sequence of lines -/

inductive TurnMark where
  | opens
  | closes
  | text (text : JsString)
  | reasoning (text : JsString)
  | usage
  | other
  deriving DecidableEq

def TurnMark.isBoundary : TurnMark → Bool
  | .opens => true
  | .closes => true
  | _ => false

def TurnMark.text? : TurnMark → Option JsString
  | .text content => some content
  | _ => none

def TurnMark.reasoning? : TurnMark → Option JsString
  | .reasoning content => some content
  | _ => none

def eventMark (payload : List (JsString × JsValue)) : TurnMark :=
  let type := strField payload "type"
  if type = some (utf16 "task_started") then .opens
  else if type = some (utf16 "task_complete") then .closes
  else if type = some (utf16 "agent_message") then
    match strField payload "message" with
    | some text => if text = [] then .other else .text text
    | none => .other
  else if type = some (utf16 "token_count") then
    if (readTokenUsage (field payload "info")).isSome then .usage else .other
  else .other

def itemMark (payload : List (JsString × JsValue)) : TurnMark :=
  if strField payload "type" = some (utf16 "reasoning") then
    match extractReasoning payload with
    | some text => .reasoning text
    | none => .other
  else .other

def turnMark (host : RolloutHost) (moment : RolloutMoment) : TurnMark :=
  match recordOf host moment with
  | none => .other
  | some (type, payload, _) =>
    if type = some (utf16 "event_msg") then eventMark payload
    else if type = some (utf16 "response_item") then itemMark payload
    else .other

structure Turn where
  reasoning : List JsString
  texts : List JsString
  hasUsage : Bool
  deriving DecidableEq

namespace Turn

def empty : Turn := ⟨[], [], false⟩

def of (marks : List TurnMark) : Turn :=
  ⟨marks.filterMap TurnMark.reasoning?, marks.filterMap TurnMark.text?, marks.any fun mark => mark = .usage⟩

def append (first second : Turn) : Turn :=
  ⟨first.reasoning ++ second.reasoning, first.texts ++ second.texts, first.hasUsage || second.hasUsage⟩

def isShown (turn : Turn) : Bool := !turn.reasoning.isEmpty || !turn.texts.isEmpty || turn.hasUsage

theorem append_assoc (first second third : Turn) : (first.append second).append third = first.append (second.append third) := by
  simp only [append, List.append_assoc, Bool.or_assoc]

theorem append_empty (turn : Turn) : turn.append empty = turn := by
  simp only [append, empty, List.append_nil, Bool.or_false]

theorem empty_append (turn : Turn) : empty.append turn = turn := rfl

theorem of_cons (mark : TurnMark) (marks : List TurnMark) : of (mark :: marks) = (of [mark]).append (of marks) := by
  cases mark <;> rfl

end Turn

def turnsOf (marks : List TurnMark) : List Turn := marks.tails.filterMap fun
  | .opens :: rest => some (Turn.of (rest.takeWhile fun mark => !mark.isBoundary))
  | _ => none

def endedTurn (current : Option Turn) (mark : TurnMark) : List Turn := if mark.isBoundary then current.toList else []

def nextTurn (current : Option Turn) : TurnMark → Option Turn
  | .opens => some Turn.empty
  | .closes => none
  | mark => current.map fun turn => turn.append (Turn.of [mark])

def endedTurns : Option Turn → List TurnMark → List Turn
  | current, [] => current.toList
  | current, mark :: marks => endedTurn current mark ++ endedTurns (nextTurn current mark) marks

theorem turnsOf_cons (mark : TurnMark) (marks : List TurnMark) :
    turnsOf (mark :: marks) =
      (if mark = .opens then [Turn.of (marks.takeWhile fun mark => !mark.isBoundary)] else []) ++ turnsOf marks := by
  cases mark <;> rfl

theorem boundary_cases (mark : TurnMark) :
    mark = .opens ∨ mark = .closes ∨ (mark.isBoundary = false ∧ ∀ current, nextTurn current mark =
      current.map fun turn => turn.append (Turn.of [mark])) := by
  cases mark with
  | opens => exact .inl rfl
  | closes => exact .inr (.inl rfl)
  | _ => exact .inr (.inr ⟨rfl, fun _ => rfl⟩)

theorem endedTurns_eq (current : Option Turn) (marks : List TurnMark) :
    endedTurns current marks =
      (current.map fun turn => turn.append (Turn.of (marks.takeWhile fun mark => !mark.isBoundary))).toList ++ turnsOf marks := by
  induction marks generalizing current with
  | nil =>
    cases current with
    | none => rfl
    | some turn => exact congrArg (fun kept => [kept]) turn.append_empty.symm
  | cons mark marks ih =>
    rw [endedTurns, ih, turnsOf_cons]
    obtain rfl | rfl | ⟨hInside, hNext⟩ := boundary_cases mark
    · cases current with
      | none => rfl
      | some turn => exact congrArg (fun kept => kept :: _) turn.append_empty.symm
    · cases current with
      | none => rfl
      | some turn => exact congrArg (fun kept => kept :: _) turn.append_empty.symm
    · have hOther : mark ≠ .opens := by
        rintro rfl
        cases hInside
      rw [endedTurn, hInside, if_neg Bool.false_ne_true, List.nil_append, hNext, Option.map_map, if_neg hOther, List.nil_append,
        List.takeWhile_cons, hInside]
      simp only [Function.comp_def, Turn.append_assoc, ← Turn.of_cons, Bool.not_false, if_true]

/-! ## Exchanges -/

def exchangesOf (events : List RolloutEvent) : List LlmExchange := events.filterMap fun
  | .llmExchange exchange => some exchange
  | _ => none

/-- The exchange holds the turn, redacted by one of the registries. -/
def Shows (registries : List RegisteredValues) (exchange : LlmExchange) (turn : Turn) : Prop :=
  ∃ registered ∈ registries,
    exchange.content = turn.reasoning.map (fun text => .thinking (redactSecrets registered text [])) ++
      turn.texts.map fun text => .text (redactSecrets registered text [])

def collected (accum : TurnAccum) : Turn := ⟨accum.reasoningBlocks, accum.assistantTexts, accum.usage.isSome⟩

theorem exchangesOf_append (first second : List RolloutEvent) : exchangesOf (first ++ second) = exchangesOf first ++ exchangesOf second :=
  List.filterMap_append

theorem shows_flushTurn {registries : List RegisteredValues} {registered : RegisteredValues} (h : registered ∈ registries)
    (accum : TurnAccum) :
    List.Forall₂ (Shows registries) (exchangesOf (flushTurn registered accum)) ([collected accum].filter Turn.isShown) := by
  have hShown : (collected accum).isShown = true ↔
      ¬ (accum.assistantTexts = [] ∧ accum.reasoningBlocks = [] ∧ accum.usage.isNone) := by
    simp only [collected, Turn.isShown, Bool.or_eq_true, Bool.not_eq_true', ← Bool.not_eq_true, List.isEmpty_iff, Option.isNone_iff_eq_none,
      Option.isSome_iff_ne_none]
    tauto
  unfold flushTurn
  split
  · rename_i hNothing
    rw [List.filter_cons_of_neg (fun hSome => hShown.mp hSome hNothing)]
    exact .nil
  · rename_i hSomething
    rw [List.filter_cons_of_pos (hShown.mpr hSomething)]
    exact .cons ⟨registered, h, rfl⟩ .nil

theorem nextTurn_other (current : Option Turn) : nextTurn current .other = current := by
  cases current with
  | none => rfl
  | some turn => exact congrArg some turn.append_empty

section Step

variable (host : RolloutHost) (parser : RolloutParser) (moment : RolloutMoment)

theorem collected_touch (tsMs : Int) : (touch tsMs parser).current.map collected = parser.current.map collected := by
  unfold touch
  cases parser.current <;> rfl

structure Follows (registries : List RegisteredValues) (before : Option Turn) (mark : TurnMark)
    (result : RolloutParser × List RolloutEvent) : Prop where
  next : result.1.current.map collected = nextTurn before mark
  shows : List.Forall₂ (Shows registries) (exchangesOf result.2) ((endedTurn before mark).filter Turn.isShown)

variable {registries : List RegisteredValues} {registered : RegisteredValues}

theorem Follows.other {before : Option Turn} {result : RolloutParser × List RolloutEvent}
    (hNext : result.1.current.map collected = before) (hNone : exchangesOf result.2 = []) : Follows registries before .other result := by
  refine ⟨hNext.trans (nextTurn_other before).symm, ?_⟩
  rw [hNone]
  exact .nil

theorem follows_handleEventMsg (h : registered ∈ registries) (payload : List (JsString × JsValue)) (tsMs : Int) :
    Follows registries (parser.current.map collected) (eventMark payload) (handleEventMsg host registered payload tsMs parser) := by
  unfold handleEventMsg eventMark
  dsimp only
  by_cases hStarted : strField payload "type" = some (utf16 "task_started")
  · rw [if_pos hStarted, if_pos hStarted]
    refine ⟨rfl, ?_⟩
    unfold openTurn
    cases parser.current with
    | none => exact .nil
    | some accum => exact shows_flushTurn h accum
  rw [if_neg hStarted, if_neg hStarted]
  by_cases hComplete : strField payload "type" = some (utf16 "task_complete")
  · rw [if_pos hComplete, if_pos hComplete]
    cases hCurrent : parser.current with
    | none => exact ⟨congrArg (Option.map collected) hCurrent, .nil⟩
    | some accum => exact ⟨rfl, shows_flushTurn h _⟩
  rw [if_neg hComplete, if_neg hComplete]
  by_cases hUser : strField payload "type" = some (utf16 "user_message")
  · rw [if_pos hUser, hUser, if_neg (by decide), if_neg (by decide)]
    cases strField payload "message" with
    | none => exact .other rfl rfl
    | some text =>
      refine .other rfl ?_
      dsimp only
      split <;> rfl
  rw [if_neg hUser]
  by_cases hMessage : strField payload "type" = some (utf16 "agent_message")
  · rw [if_pos hMessage, if_pos hMessage]
    cases strField payload "message" with
    | none => exact .other rfl rfl
    | some text =>
      cases hCurrent : parser.current with
      | none =>
        dsimp only
        split
        · exact .other (congrArg (Option.map collected) hCurrent) rfl
        · exact ⟨congrArg (Option.map collected) hCurrent, .nil⟩
      | some accum =>
        dsimp only
        split
        · exact .other (congrArg (Option.map collected) hCurrent) rfl
        · refine ⟨congrArg some ?_, .nil⟩
          simp only [collected, Turn.append, Turn.of]
          simp [TurnMark.reasoning?, TurnMark.text?]
  rw [if_neg hMessage, if_neg hMessage]
  by_cases hCount : strField payload "type" = some (utf16 "token_count")
  · rw [if_pos hCount, if_pos hCount]
    cases hUsage : readTokenUsage (field payload "info") with
    | none =>
      cases hCurrent : parser.current with
      | none => exact .other (congrArg (Option.map collected) hCurrent) rfl
      | some accum => exact .other (congrArg (Option.map collected) hCurrent) rfl
    | some usage =>
      cases hCurrent : parser.current with
      | none => exact ⟨congrArg (Option.map collected) hCurrent, .nil⟩
      | some accum =>
        refine ⟨congrArg some ?_, .nil⟩
        simp only [collected, Turn.append, Turn.of]
        simp [TurnMark.reasoning?, TurnMark.text?]
  · rw [if_neg hCount, if_neg hCount]
    exact .other rfl rfl

theorem follows_handleResponseItem (payload : List (JsString × JsValue)) (tsMs : Int) :
    Follows registries (parser.current.map collected) (itemMark payload) (handleResponseItem host registered payload tsMs parser) := by
  unfold handleResponseItem itemMark
  dsimp only
  by_cases hCall : strField payload "type" = some (utf16 "function_call")
  · rw [if_pos hCall, hCall, if_neg (by decide)]
    cases strField payload "call_id" <;> exact .other rfl rfl
  rw [if_neg hCall]
  by_cases hOutput : strField payload "type" = some (utf16 "function_call_output")
  · rw [if_pos hOutput, hOutput, if_neg (by decide)]
    cases strField payload "call_id" <;> exact .other rfl rfl
  rw [if_neg hOutput]
  by_cases hReasoning : strField payload "type" = some (utf16 "reasoning")
  · rw [if_pos hReasoning, if_pos hReasoning]
    cases extractReasoning payload with
    | none => exact .other rfl rfl
    | some text =>
      cases hCurrent : parser.current with
      | none => exact ⟨congrArg (Option.map collected) hCurrent, .nil⟩
      | some accum =>
        refine ⟨congrArg some ?_, .nil⟩
        simp only [collected, Turn.append, Turn.of]
        simp [TurnMark.reasoning?, TurnMark.text?]
  · rw [if_neg hReasoning, if_neg hReasoning]
    exact .other rfl rfl

theorem follows_handleLine (h : moment.registered ∈ registries) :
    Follows registries (parser.current.map collected) (turnMark host moment) (handleLine host parser moment) := by
  unfold handleLine turnMark
  cases recordOf host moment with
  | none => exact .other rfl rfl
  | some record =>
    obtain ⟨type, payload, tsMs⟩ := record
    dsimp only
    by_cases hContext : type = some (utf16 "turn_context")
    · rw [if_pos hContext, hContext, if_neg (by decide), if_neg (by decide)]
      refine .other ?_ rfl
      cases parser.current <;> rfl
    rw [if_neg hContext, ← collected_touch parser tsMs]
    by_cases hEvent : type = some (utf16 "event_msg")
    · rw [if_pos hEvent, if_pos hEvent]
      exact follows_handleEventMsg host _ h payload tsMs
    rw [if_neg hEvent, if_neg hEvent]
    by_cases hItem : type = some (utf16 "response_item")
    · rw [if_pos hItem, if_pos hItem]
      exact follows_handleResponseItem host _ payload tsMs
    · rw [if_neg hItem, if_neg hItem]
      exact .other rfl rfl

end Step

section Run

variable (host : RolloutHost) {registries : List RegisteredValues} {registered : RegisteredValues}

theorem shows_run (hFlush : registered ∈ registries) {moments : List RolloutMoment} (hLines : ∀ moment ∈ moments, moment.registered ∈ registries)
    (parser : RolloutParser) :
    List.Forall₂ (Shows registries)
      (exchangesOf ((run (handleLine host) parser moments).flatMap Step.output ++
        (flush registered (final (handleLine host) parser moments)).2))
      ((endedTurns (parser.current.map collected) (moments.map (turnMark host))).filter Turn.isShown) := by
  induction moments generalizing parser with
  | nil =>
    rw [run_nil, List.flatMap_nil, List.nil_append, final_nil, flush]
    cases parser.current with
    | none => exact .nil
    | some accum => exact shows_flushTurn hFlush accum
  | cons moment moments ih =>
    obtain ⟨hLine, hLines⟩ := List.forall_mem_cons.mp hLines
    have hFirst := follows_handleLine host parser moment hLine
    have hRest := ih hLines (handleLine host parser moment).1
    rw [hFirst.next] at hRest
    rw [run_cons, List.flatMap_cons, List.append_assoc, exchangesOf_append, List.map_cons, endedTurns, List.filter_append]
    exact List.rel_append hFirst.shows hRest

end Run

end CommandSuite.RolloutParser
