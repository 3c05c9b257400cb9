import CommandSuite.Cli.Runtime.Forwarder.Receipts
import CommandSuite.Core.Registry
import Mathlib.Data.List.Infix
import Mathlib.Data.List.ReduceOption

/-! # The channel sink of the claude runner

`packages/cli/src/runtime/agents/claude-sink.ts`, the conditions of `runner-condition.ts`, and of `claude-agent.ts` what it does with
the input queues: a restart puts a new queue in place, and the session that is spawned then reads that one. An event comes with its
text as `formatChannelEvent` gives it.
-/

namespace CommandSuite

open Library Forwarder

/-! ## Messages of the SDK -/

inductive SDKMessageType where
  | assistant
  | result
  | other
  deriving DecidableEq

/-- `error` is `none` where the message has none, and `some none` where it is no string. `lowered` is the JSON of the message in lower
case. -/
structure SDKMessage where
  type : SDKMessageType
  error : Option (Option String)
  contentTypes : List String
  subtype : String
  totalCostUsd : Option Rat
  lowered : String

namespace RunnerCondition

def detail : RunnerConditionCode → String
  | .noCredential => "runner credential is unavailable"
  | .invalidModel => "configured model id is invalid"
  | .modelUnavailable => "configured model is unavailable"
  | .serverOverloaded => "model service is overloaded"
  | .authBlocked => "runner credential is revoked"
  | .unknown => "runner cannot complete turns"

def claudeAssistantErrorCondition : String → Option RunnerConditionCode
  | "authentication_failed" => some .noCredential
  | "oauth_org_not_allowed" => some .noCredential
  | "billing_error" => some .unknown
  | "rate_limit" => some .serverOverloaded
  | "overloaded" => some .serverOverloaded
  | "invalid_request" => some .unknown
  | "model_not_found" => some .invalidModel
  | "server_error" => some .modelUnavailable
  | "unknown" => some .unknown
  | "max_output_tokens" => some .unknown
  | _ => none

def structuredClaudeCondition (message : SDKMessage) : Option RunnerConditionCode :=
  match message.error with
  | some (some error) => some ((claudeAssistantErrorCondition error).getD .unknown)
  | _ => none

def isUnactedClaudeFailure (message : SDKMessage) (acted : Bool) : Bool := !acted && message.totalCostUsd = some 0

def classifyRunnerFailure (message : SDKMessage) : RunnerConditionCode :=
  match structuredClaudeCondition message with
  | some code => code
  | none =>
    let includes (part : String) : Bool := decide (part.toList <:+: message.lowered.toList)
    if includes "serveroverloaded" || includes "capacity" || includes "overloaded" then .serverOverloaded
    else if includes "model" && (includes "not found" || includes "invalid") then .invalidModel
    else if includes "model" && (includes "unavailable" || includes "unsupported") then .modelUnavailable
    else if includes "credential" || includes "unauthorized" || includes "api key" || includes "authentication" then .noCredential
    else .unknown

end RunnerCondition

/-! ## Queues and sessions -/

/-- A message of the queue. One that `compactContext` pushes has no `onConsumed`; a receipt may be the unreported one. -/
structure QueueItem where
  body : String
  onConsumed : Option (List (Option Receipt))

structure ClaudeMessageQueue where
  items : List QueueItem
  closed : Bool

structure ClaudeSession where
  queue : Nat
  stopped : Bool

structure BufferedEvent where
  text : String
  receipt : Option Receipt

/-- `session` is the one whose read has opened the turn; the source does not keep it. -/
structure ClaudeTurn where
  id : String
  session : Nat
  receipts : List (Option Receipt)
  acted : Bool
  failureCode : Option RunnerConditionCode

inductive SinkEffect where
  | accepted (receipt : Receipt)
  | settled (receipt : Receipt) (disposition : TerminalDisposition) (options : SettleOptions)
  | condition (frame : RunnerConditionFrame)
  | turn (frame : RunnerTurnFrame)

/-- `turns` counts the calls of `randomUUID`. -/
structure ClaudeAgent where
  buffer : List BufferedEvent
  timer : Bool
  sendControl : Bool
  turn : Option ClaudeTurn
  turns : Nat
  queues : List ClaudeMessageQueue
  queueRef : Nat
  sessions : List ClaudeSession

inductive SinkInput where
  | deliver (text : String) (receipt : Option Receipt)
  | timerFires
  | flushNow
  | attachControl (now : Int)
  | compactContext (body : String)
  | detachForRestart
  | spawn
  | closeQueue (session : Nat)
  | read (session : Nat) (now : Int)
  | stop (session : Nat)
  | observe (session : Nat) (message : SDKMessage) (now : Int)

namespace ClaudeAgent

def create : ClaudeAgent := ⟨[], false, false, none, 0, [⟨[], false⟩], 0, []⟩

/-! ## Receipts -/

def acceptAll (receipts : List (Option Receipt)) : List SinkEffect := receipts.filterMap fun receipt => receipt.map .accepted

def settleAll (disposition : TerminalDisposition) (options : SettleOptions) (receipts : List (Option Receipt)) : List SinkEffect :=
  receipts.filterMap fun receipt => receipt.map fun receipt => .settled receipt disposition options

def deferred : TerminalDisposition := ⟨.deferred, by decide⟩

def acted : TerminalDisposition := ⟨.acted, by decide⟩

def handled : TerminalDisposition := ⟨.handled, by decide⟩

def turnFailed (detail : String) (h : AcceptedDetail detail) : SettleOptions := ⟨some ⟨.turnFailed, detail⟩, none, by rintro _ ⟨⟩; exact h⟩

def closedStream : SettleOptions := turnFailed "claude input stream is closed" (by unfold AcceptedDetail; decide)

def cannotAct : SettleOptions := turnFailed "claude cannot act on this turn" (by unfold AcceptedDetail; decide)

def failedTurn : SettleOptions := turnFailed "claude turn failed" (by unfold AcceptedDetail; decide)

def control (agent : ClaudeAgent) (frames : List SinkEffect) : List SinkEffect := if agent.sendControl then frames else []

def ready (now : Int) : SinkEffect := .condition ⟨now, .ready, none⟩

def degraded (now : Int) (code : RunnerConditionCode) : SinkEffect :=
  .condition ⟨now, .degraded, some ⟨code, RunnerCondition.detail code⟩⟩

/-! ## The bundle buffer -/

/-- Onto the queue that is in place; `none` if it is closed. -/
def push (item : QueueItem) (agent : ClaudeAgent) : Option ClaudeAgent :=
  match agent.queues[agent.queueRef]? with
  | none => none
  | some queue =>
    if queue.closed then none
    else some { agent with
      queues := agent.queues.modify agent.queueRef fun queue => { queue with items := queue.items ++ [item] } }

def flush (agent : ClaudeAgent) : ClaudeAgent × List SinkEffect :=
  let untimed := { agent with timer := false }
  if agent.buffer = [] then (untimed, [])
  else
    let receipts := agent.buffer.map BufferedEvent.receipt
    let emptied := { untimed with buffer := [] }
    match emptied.push ⟨"\n".intercalate (agent.buffer.map BufferedEvent.text), some receipts⟩ with
    | some pushed => (pushed, [])
    | none => (emptied, settleAll deferred closedStream receipts)

/-! ## Turns -/

section Turns

variable (turnIds : Nat → String)

def consumed (session : Nat) (now : Int) (receipts : List (Option Receipt)) (agent : ClaudeAgent) : ClaudeAgent × List SinkEffect :=
  match agent.turn with
  | some turn => ({ agent with turn := some { turn with receipts := turn.receipts ++ receipts } }, acceptAll receipts)
  | none =>
    let id := turnIds agent.turns
    ({ agent with turn := some ⟨id, session, receipts, false, none⟩, turns := agent.turns + 1 },
      acceptAll receipts ++ agent.control [ready now, .turn ⟨now, id, .started⟩])

def read (session : Nat) (now : Int) (agent : ClaudeAgent) : ClaudeAgent × List SinkEffect :=
  match agent.sessions[session]? with
  | none => (agent, [])
  | some reader =>
    if reader.stopped then (agent, [])
    else
      match agent.queues[reader.queue]? with
      | none => (agent, [])
      | some ⟨[], closed⟩ =>
        (if closed then { agent with sessions := agent.sessions.modify session fun reader => { reader with stopped := true } } else agent, [])
      | some ⟨item :: _, _⟩ =>
        let taken := { agent with queues := agent.queues.modify reader.queue fun queue => { queue with items := queue.items.tail } }
        match item.onConsumed with
        | none => (taken, [])
        | some receipts => consumed turnIds session now receipts taken

end Turns

def observeAssistant (message : SDKMessage) (now : Int) (turn : ClaudeTurn) (agent : ClaudeAgent) : ClaudeAgent × List SinkEffect :=
  let code := RunnerCondition.classifyRunnerFailure message
  let failing := message.error.isSome || code ≠ .unknown
  let failed := if failing then { turn with failureCode := some code, receipts := [] } else turn
  let deferrals :=
    if failing then
      agent.control [degraded now code] ++ settleAll deferred cannotAct turn.receipts
    else []
  if message.contentTypes.contains "tool_use" && !failed.acted then
    ({ agent with turn := some { failed with acted := true, receipts := [] } },
      deferrals ++ settleAll acted ⟨none, some .toolCall, nofun⟩ failed.receipts)
  else ({ agent with turn := some failed }, deferrals)

def observeResult (message : SDKMessage) (now : Int) (turn : ClaudeTurn) (agent : ClaudeAgent) : ClaudeAgent × List SinkEffect :=
  let failed := message.subtype ≠ "success" || turn.failureCode.isSome || RunnerCondition.isUnactedClaudeFailure message turn.acted
  let outcome : TurnOutcome := if failed then .failed else if turn.acted then .acted else .noAction
  let settlements :=
    if failed then settleAll deferred failedTurn turn.receipts
    else settleAll handled ⟨none, none, nofun⟩ turn.receipts
  let conditions :=
    if failed then agent.control [degraded now (turn.failureCode.getD (RunnerCondition.classifyRunnerFailure message))] else []
  ({ agent with turn := none }, agent.control [.turn ⟨now, turn.id, .completed outcome⟩] ++ settlements ++ conditions)

def observe (message : SDKMessage) (now : Int) (agent : ClaudeAgent) : ClaudeAgent × List SinkEffect :=
  match message.type, agent.turn with
  | .assistant, some turn => agent.observeAssistant message now turn
  | .result, some turn => agent.observeResult message now turn
  | _, _ => (agent, [])

/-! ## Steps -/

def next (turnIds : Nat → String) : Transcript.Machine ClaudeAgent SinkInput (List SinkEffect) := fun agent input =>
  match input with
  | .deliver text receipt => ({ agent with buffer := agent.buffer ++ [⟨text, receipt⟩], timer := true }, [])
  | .timerFires => if agent.timer then agent.flush else (agent, [])
  | .flushNow => agent.flush
  | .attachControl now => ({ agent with sendControl := true }, [ready now])
  | .compactContext body => ((agent.push ⟨body, none⟩).getD agent, [])
  | .detachForRestart => ({ agent with queues := agent.queues ++ [⟨[], false⟩], queueRef := agent.queues.length }, [])
  | .spawn => ({ agent with sessions := agent.sessions ++ [⟨agent.queueRef, false⟩] }, [])
  | .closeQueue session =>
    (match agent.sessions[session]? with
      | none => agent
      | some reader => { agent with queues := agent.queues.modify reader.queue fun queue => { queue with closed := true } }, [])
  | .read session now => agent.read turnIds session now
  | .stop session => ({ agent with sessions := agent.sessions.modify session fun reader => { reader with stopped := true } }, [])
  | .observe _ message now => agent.observe message now

end ClaudeAgent

end CommandSuite

/-! ## Where a receipt of the claude runner is

A receipt that is delivered stays in the buffer, in a queue or in the turn until it is settled.
-/

namespace CommandSuite

open Library Forwarder

/-! ## Places -/

def QueueItem.receipts (item : QueueItem) : List Receipt := (item.onConsumed.getD []).reduceOption

def ClaudeMessageQueue.receipts (queue : ClaudeMessageQueue) : List Receipt := queue.items.flatMap QueueItem.receipts

def SinkInput.delivered? : SinkInput → Option Receipt
  | .deliver _ receipt => receipt
  | _ => none

def SinkEffect.settled? : SinkEffect → Option Receipt
  | .settled receipt _ _ => some receipt
  | _ => none

def settledOf (effects : List SinkEffect) : List Receipt := effects.filterMap SinkEffect.settled?

namespace ClaudeAgent

def buffered (agent : ClaudeAgent) : List Receipt := (agent.buffer.map BufferedEvent.receipt).reduceOption

def queued (agent : ClaudeAgent) : List Receipt := agent.queues.flatMap ClaudeMessageQueue.receipts

def inTurn (agent : ClaudeAgent) : List Receipt := (agent.turn.elim [] ClaudeTurn.receipts).reduceOption

def held (agent : ClaudeAgent) : List Receipt := agent.buffered ++ agent.queued ++ agent.inTurn

def mayBeRead (agent : ClaudeAgent) (queue : Nat) : Bool :=
  queue = agent.queueRef || agent.sessions.any fun session => session.queue = queue && !session.stopped

def waiting (agent : ClaudeAgent) : List Receipt :=
  agent.queues.zipIdx.flatMap fun entry => if agent.mayBeRead entry.2 then entry.1.receipts else []

/-! ## Counts -/

theorem settledOf_append (first second : List SinkEffect) : settledOf (first ++ second) = settledOf first ++ settledOf second :=
  List.filterMap_append

theorem settledOf_settleAll (disposition : TerminalDisposition) (options : SettleOptions) (receipts : List (Option Receipt)) :
    settledOf (settleAll disposition options receipts) = receipts.reduceOption := by
  rw [settledOf, settleAll, List.filterMap_filterMap, List.reduceOption]
  refine List.filterMap_congr fun receipt _ => ?_
  cases receipt <;> rfl

theorem settledOf_acceptAll (receipts : List (Option Receipt)) : settledOf (acceptAll receipts) = [] := by
  rw [settledOf, acceptAll, List.filterMap_filterMap]
  refine List.filterMap_eq_nil_iff.mpr fun receipt _ => ?_
  cases receipt <;> rfl

theorem settledOf_control (agent : ClaudeAgent) {frames : List SinkEffect} (h : settledOf frames = []) :
    settledOf (agent.control frames) = [] := by
  unfold control
  split
  · exact h
  · rfl

theorem count_queued_modify {queues : List ClaudeMessageQueue} {i : Nat} {queue : ClaudeMessageQueue} (h : queues[i]? = some queue)
    (change : ClaudeMessageQueue → ClaudeMessageQueue) (receipt : Receipt) :
    ((queues.modify i change).flatMap ClaudeMessageQueue.receipts).count receipt + queue.receipts.count receipt =
      (queues.flatMap ClaudeMessageQueue.receipts).count receipt + (change queue).receipts.count receipt := by
  induction queues generalizing i with
  | nil => cases h
  | cons head queues ih =>
    cases i with
    | zero =>
      obtain rfl := Option.some.inj h
      simp only [List.modify_zero_cons, List.flatMap_cons, List.count_append]
      omega
    | succ i =>
      have hRest := ih h
      simp only [List.modify_succ_cons, List.flatMap_cons, List.count_append]
      omega

section Steps

variable (turnIds : Nat → String) (agent : ClaudeAgent) (receipt : Receipt)

/-- What is held before, with what is delivered, is held behind or settled. -/
def Keeps (delivered : Nat) (result : ClaudeAgent × List SinkEffect) : Prop :=
  result.1.held.count receipt + (settledOf result.2).count receipt = agent.held.count receipt + delivered

theorem count_held : agent.held.count receipt =
    agent.buffered.count receipt + agent.queued.count receipt + agent.inTurn.count receipt := by
  rw [held, List.count_append, List.count_append]

theorem count_push {item : QueueItem} {pushed : ClaudeAgent} (h : agent.push item = some pushed) :
    pushed.held.count receipt = agent.held.count receipt + item.receipts.count receipt := by
  unfold push at h
  cases hQueue : agent.queues[agent.queueRef]? with
  | none => simp only [hQueue, reduceCtorEq] at h
  | some queue =>
    simp only [hQueue] at h
    split at h
    · cases h
    · obtain rfl := Option.some.inj h
      have hCount := count_queued_modify hQueue (fun queue => { queue with items := queue.items ++ [item] }) receipt
      have hItem : (ClaudeMessageQueue.mk (queue.items ++ [item]) queue.closed).receipts = queue.receipts ++ item.receipts := by
        simp only [ClaudeMessageQueue.receipts, List.flatMap_append, List.flatMap_singleton]
      rw [hItem, List.count_append] at hCount
      rw [count_held, count_held, queued, queued, buffered, buffered, inTurn, inTurn]
      dsimp only
      omega

theorem keeps_flush : Keeps agent receipt 0 agent.flush := by
  unfold flush Keeps
  dsimp only
  split
  · rfl
  · have hEmptied : ({ agent with timer := false, buffer := [] } : ClaudeAgent).held.count receipt + agent.buffered.count receipt =
        agent.held.count receipt := by
      simp only [count_held, buffered, queued, inTurn, List.map_nil, List.reduceOption_nil, List.count_nil]
      omega
    split
    · rename_i pushed hPush
      have hPushed := count_push _ receipt hPush
      have hItem : (QueueItem.mk ("\n".intercalate (agent.buffer.map BufferedEvent.text)) (some (agent.buffer.map BufferedEvent.receipt))).receipts =
        agent.buffered := rfl
      rw [hItem] at hPushed
      rw [hPushed, hEmptied]
      rfl
    · rw [settledOf_settleAll]
      exact hEmptied

theorem keeps_consumed (session : Nat) (now : Int) (receipts : List (Option Receipt)) :
    Keeps agent receipt (receipts.reduceOption.count receipt) (agent.consumed turnIds session now receipts) := by
  unfold consumed Keeps
  cases hTurn : agent.turn with
  | some turn =>
    dsimp only
    rw [settledOf_acceptAll, count_held, count_held, inTurn, inTurn, hTurn]
    simp only [Option.elim_some, List.reduceOption_append, List.count_append, List.count_nil]
    exact (Nat.add_assoc ..).symm
  | none =>
    dsimp only
    rw [settledOf_append, settledOf_acceptAll, settledOf_control agent rfl, count_held, count_held, inTurn, inTurn, hTurn]
    rfl

theorem keeps_read (session : Nat) (now : Int) : Keeps agent receipt 0 (agent.read turnIds session now) := by
  unfold read
  cases agent.sessions[session]? with
  | none => rfl
  | some reader =>
    dsimp only
    split
    · rfl
    · split
      · rfl
      · unfold Keeps
        dsimp only
        split <;> rfl
      · rename_i hQueue
        rename_i item rest closed
        have hCount := count_queued_modify hQueue (fun queue => { queue with items := queue.items.tail }) receipt
        have hItems : (ClaudeMessageQueue.mk (item :: rest) closed).receipts =
            item.receipts ++ (ClaudeMessageQueue.mk rest closed).receipts := List.flatMap_cons
        rw [hItems, List.count_append] at hCount
        dsimp only [List.tail_cons] at hCount
        have hTaken : ({ agent with
            queues := agent.queues.modify reader.queue fun queue => { queue with items := queue.items.tail } } : ClaudeAgent).held.count
              receipt + item.receipts.count receipt = agent.held.count receipt := by
          simp only [count_held, buffered, queued, inTurn]
          omega
        split
        · rename_i hNone
          rw [show item.receipts = [] by rw [QueueItem.receipts, hNone]; rfl] at hTaken
          exact hTaken
        · rename_i receipts hSome
          rw [show item.receipts = receipts.reduceOption by rw [QueueItem.receipts, hSome]; rfl] at hTaken
          have hConsumed := keeps_consumed turnIds { agent with
            queues := agent.queues.modify reader.queue fun queue => { queue with items := queue.items.tail } } receipt session now receipts
          exact hConsumed.trans hTaken

variable {turn : ClaudeTurn}

theorem keeps_turn (hTurn : agent.turn = some turn) {after : Option ClaudeTurn} {effects : List SinkEffect}
    (h : (after.elim [] ClaudeTurn.receipts).reduceOption.count receipt + (settledOf effects).count receipt =
      turn.receipts.reduceOption.count receipt) : Keeps agent receipt 0 ({ agent with turn := after }, effects) := by
  have hBefore : agent.inTurn = turn.receipts.reduceOption := by rw [inTurn, hTurn, Option.elim_some]
  unfold Keeps
  rw [count_held, count_held, hBefore, ← h]
  exact (Nat.add_assoc ..)

theorem settledOf_degraded (now : Int) (code : RunnerConditionCode) : settledOf (agent.control [degraded now code]) = [] :=
  settledOf_control agent rfl

theorem keeps_observeAssistant (message : SDKMessage) (now : Int) (hTurn : agent.turn = some turn) :
    Keeps agent receipt 0 (agent.observeAssistant message now turn) := by
  unfold observeAssistant
  dsimp only
  cases message.error.isSome || decide (RunnerCondition.classifyRunnerFailure message ≠ .unknown) with
  | true =>
    rw [if_pos rfl, if_pos rfl]
    split
    · refine keeps_turn agent receipt hTurn ?_
      rw [settledOf_append, settledOf_append, settledOf_degraded, settledOf_settleAll, settledOf_settleAll, Option.elim_some,
        List.reduceOption_nil, List.nil_append, List.append_nil, List.count_nil, Nat.zero_add]
    · refine keeps_turn agent receipt hTurn ?_
      rw [settledOf_append, settledOf_degraded, settledOf_settleAll, Option.elim_some, List.reduceOption_nil, List.nil_append,
        List.count_nil, Nat.zero_add]
  | false =>
    rw [if_neg Bool.false_ne_true, if_neg Bool.false_ne_true]
    split
    · refine keeps_turn agent receipt hTurn ?_
      rw [List.nil_append, settledOf_settleAll, Option.elim_some, List.reduceOption_nil, List.count_nil, Nat.zero_add]
    · exact keeps_turn agent receipt hTurn rfl

theorem keeps_observeResult (message : SDKMessage) (now : Int) (hTurn : agent.turn = some turn) :
    Keeps agent receipt 0 (agent.observeResult message now turn) := by
  have hCompleted (outcome : TurnOutcome) : settledOf (agent.control [.turn ⟨now, turn.id, .completed outcome⟩]) = [] :=
    settledOf_control agent rfl
  unfold observeResult
  refine keeps_turn agent receipt hTurn ?_
  rw [settledOf_append, settledOf_append, hCompleted, Option.elim_none, List.reduceOption_nil, List.count_nil, Nat.zero_add, List.nil_append]
  split
  · rw [settledOf_settleAll, settledOf_degraded, List.append_nil]
  · rw [settledOf_settleAll, settledOf, List.filterMap_nil, List.append_nil]

theorem keeps_observe (message : SDKMessage) (now : Int) : Keeps agent receipt 0 (agent.observe message now) := by
  unfold observe
  split
  · rename_i hTurn
    exact keeps_observeAssistant agent receipt message now hTurn
  · rename_i hTurn
    exact keeps_observeResult agent receipt message now hTurn
  · rfl

theorem keeps_next (input : SinkInput) : Keeps agent receipt (input.delivered?.toList.count receipt) (next turnIds agent input) := by
  cases input with
  | deliver text given =>
    unfold Keeps next
    simp only [count_held, buffered, queued, inTurn, List.map_append, List.reduceOption_append, List.count_append]
    cases given with
    | none => rfl
    | some given =>
      simp [settledOf, SinkInput.delivered?, List.reduceOption]
      omega
  | timerFires =>
    unfold next
    dsimp only
    split
    · exact keeps_flush agent receipt
    · rfl
  | flushNow => exact keeps_flush agent receipt
  | attachControl now => rfl
  | compactContext body =>
    unfold next Keeps
    dsimp only
    cases hPush : agent.push ⟨body, none⟩ with
    | none => rfl
    | some pushed => exact count_push agent receipt hPush
  | detachForRestart =>
    unfold next Keeps
    simp [count_held, buffered, queued, inTurn, settledOf, ClaudeMessageQueue.receipts, SinkInput.delivered?]
  | spawn => rfl
  | closeQueue session =>
    unfold next Keeps
    dsimp only
    split
    · rfl
    · rename_i reader _
      cases hQueue : agent.queues[reader.queue]? with
      | none =>
        rw [List.modify_eq_self (List.getElem?_eq_none_iff.mp hQueue)]
        rfl
      | some queue =>
        have hCount := count_queued_modify hQueue (fun queue => { queue with closed := true }) receipt
        have hSame : ({ queue with closed := true } : ClaudeMessageQueue).receipts = queue.receipts := rfl
        simp only [count_held, buffered, queued, inTurn, settledOf, SinkInput.delivered?, Option.toList_none, List.filterMap_nil,
          List.count_nil]
        rw [hSame] at hCount
        omega
  | read session now => exact keeps_read turnIds agent receipt session now
  | stop session => rfl
  | observe session message now => exact keeps_observe agent receipt message now

end Steps

end ClaudeAgent

end CommandSuite
