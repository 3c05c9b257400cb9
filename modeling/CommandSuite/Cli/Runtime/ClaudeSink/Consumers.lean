import CommandSuite.Cli.Runtime.ClaudeSink

/-! # Who settles a receipt of the claude runner

A receipt is settled acted or handled by a message that comes behind the read of its text, and by one of the session that has read it
as long as only one session works on a turn.
-/

namespace CommandSuite

open Library Forwarder Transcript

abbrev SinkStep := Step ClaudeAgent SinkInput (List SinkEffect)

def SinkStep.Consumes (step : SinkStep) (session : Nat) (receipt : Receipt) : Prop :=
  (∃ now, step.input = .read session now) ∧ .accepted receipt ∈ step.output

/-- A turn that is open is read into and observed by the session that has opened it. -/
def SinkStep.SameSession (step : SinkStep) : Prop := ∀ turn ∈ step.before.turn,
  match step.input with
  | .read session _ => session = turn.session
  | .observe session _ _ => session = turn.session
  | _ => True

namespace ClaudeAgent

/-! ## Turns -/

section Steps

variable (turnIds : Nat → String) (agent : ClaudeAgent)

/-- A receipt of the turn behind a step was in the turn before it, or is read in it. -/
def Explained (input : SinkInput) (result : ClaudeAgent × List SinkEffect) : Prop :=
  ∀ turn ∈ result.1.turn, ∀ receipt, some receipt ∈ turn.receipts →
    (∃ before ∈ agent.turn, before.session = turn.session ∧ some receipt ∈ before.receipts) ∨
      ∃ session now, input = .read session now ∧ .accepted receipt ∈ result.2 ∧ (∀ before ∈ agent.turn, before.session = turn.session) ∧
        (agent.turn = none → turn.session = session)

variable {input : SinkInput}

theorem explained_same {result : ClaudeAgent × List SinkEffect} (h : result.1.turn = agent.turn) :
    Explained agent input result := by
  intro turn hTurn receipt hReceipt
  exact .inl ⟨turn, h ▸ hTurn, rfl, hReceipt⟩

theorem turn_push {item : QueueItem} {pushed : ClaudeAgent} (h : agent.push item = some pushed) : pushed.turn = agent.turn := by
  unfold push at h
  split at h
  · cases h
  · split at h
    · cases h
    · obtain rfl := Option.some.inj h
      rfl

theorem turn_flush : agent.flush.1.turn = agent.turn := by
  unfold flush
  dsimp only
  split
  · rfl
  · split
    · rename_i pushed hPush
      exact (turn_push _ hPush).trans rfl
    · rfl

variable {receipt : Receipt} {receipts : List (Option Receipt)}

theorem mem_acceptAll (h : some receipt ∈ receipts) :
    .accepted receipt ∈ acceptAll receipts := List.mem_filterMap.mpr ⟨some receipt, h, rfl⟩

theorem explained_consumed (session : Nat) (now : Int) (receipts : List (Option Receipt)) :
    Explained agent (.read session now) (agent.consumed turnIds session now receipts) := by
  unfold consumed
  split
  · rename_i before hBefore
    intro turn hTurn receipt hReceipt
    obtain rfl := Option.some.inj hTurn
    rcases List.mem_append.mp hReceipt with hOld | hNew
    · exact .inl ⟨before, hBefore, rfl, hOld⟩
    · refine .inr ⟨session, now, rfl, mem_acceptAll hNew, fun found hFound => ?_, fun hNone => ?_⟩
      · rw [Option.some.inj (hBefore.symm.trans hFound)]
      · cases hBefore.symm.trans hNone
  · rename_i hNone
    intro turn hTurn receipt hReceipt
    obtain rfl := Option.some.inj hTurn
    refine .inr ⟨session, now, rfl, List.mem_append_left _ (mem_acceptAll hReceipt), fun found hFound => ?_, fun _ => rfl⟩
    cases hNone.symm.trans hFound

theorem explained_read (session : Nat) (now : Int) : Explained agent (.read session now) (agent.read turnIds session now) := by
  unfold read
  split
  · exact explained_same agent rfl
  · split
    · exact explained_same agent rfl
    · split
      · exact explained_same agent rfl
      · refine explained_same agent ?_
        dsimp only
        split <;> rfl
      · dsimp only
        split
        · exact explained_same agent rfl
        · rename_i receipts _
          exact explained_consumed turnIds { agent with queues := agent.queues.modify _ _ } session now receipts

theorem turn_observeAssistant (message : SDKMessage) (now : Int) (turn : ClaudeTurn) :
    ∃ after, (agent.observeAssistant message now turn).1.turn = some after ∧ after.session = turn.session ∧
      ∀ receipt ∈ after.receipts, receipt ∈ turn.receipts := by
  unfold observeAssistant
  dsimp only
  cases message.error.isSome || decide (RunnerCondition.classifyRunnerFailure message ≠ .unknown) with
  | true =>
    rw [if_pos rfl]
    split
    · exact ⟨_, rfl, rfl, by rintro _ ⟨⟩⟩
    · exact ⟨_, rfl, rfl, by rintro _ ⟨⟩⟩
  | false =>
    rw [if_neg Bool.false_ne_true]
    split
    · exact ⟨_, rfl, rfl, by rintro _ ⟨⟩⟩
    · exact ⟨_, rfl, rfl, fun _ h => h⟩

theorem explained_observe (session : Nat) (message : SDKMessage) (now : Int) :
    Explained agent (.observe session message now) (agent.observe message now) := by
  unfold observe
  split
  · rename_i before _ hBefore
    obtain ⟨after, hAfter, hSession, hReceipts⟩ := turn_observeAssistant agent message now before
    intro turn hTurn receipt hReceipt
    obtain rfl : after = turn := Option.some.inj (hAfter.symm.trans hTurn)
    exact .inl ⟨before, hBefore, hSession.symm, hReceipts _ hReceipt⟩
  · intro turn hTurn
    cases hTurn
  · exact explained_same agent rfl

theorem explained_next (input : SinkInput) : Explained agent input (next turnIds agent input) := by
  cases input with
  | timerFires =>
    unfold next
    dsimp only
    split
    · exact explained_same agent (turn_flush agent)
    · exact explained_same agent rfl
  | flushNow => exact explained_same agent (turn_flush agent)
  | compactContext body =>
    refine explained_same agent ?_
    unfold next
    dsimp only
    cases hPush : agent.push ⟨body, none⟩ with
    | none => rfl
    | some pushed => exact turn_push agent hPush
  | closeQueue session =>
    refine explained_same agent ?_
    unfold next
    dsimp only
    split <;> rfl
  | read session now => exact explained_read turnIds agent session now
  | observe session message now => exact explained_observe agent session message now
  | _ => exact explained_same agent rfl

/-! ## Settlements -/

/-- A settlement that is none of a deferral is one of a receipt in the turn that is open. -/
def SettlesTurn (effects : List SinkEffect) : Prop := ∀ receipt (disposition : TerminalDisposition) options,
  .settled receipt disposition options ∈ effects → disposition ≠ deferred → ∃ turn ∈ agent.turn, some receipt ∈ turn.receipts

theorem mem_settleAll {found disposition : TerminalDisposition} {options given : SettleOptions}
    (h : .settled receipt found given ∈ settleAll disposition options receipts) :
    some receipt ∈ receipts ∧ found = disposition := by
  obtain ⟨held, hHeld, hSettled⟩ := List.mem_filterMap.mp h
  cases held with
  | none => cases hSettled
  | some held =>
    cases hSettled
    exact ⟨hHeld, rfl⟩

variable {disposition : TerminalDisposition} {options : SettleOptions}

theorem not_mem_control {frames : List SinkEffect}
    (h : .settled receipt disposition options ∉ frames) : .settled receipt disposition options ∉ agent.control frames := by
  unfold control
  split
  · exact h
  · exact List.not_mem_nil

theorem settlesTurn_observe (message : SDKMessage) (now : Int) : SettlesTurn agent (agent.observe message now).2 := by
  unfold observe
  split
  · rename_i before _ hBefore
    intro receipt disposition options hSettled hOther
    refine ⟨before, hBefore, ?_⟩
    unfold observeAssistant at hSettled
    dsimp only at hSettled
    cases hFailing : message.error.isSome || decide (RunnerCondition.classifyRunnerFailure message ≠ .unknown) with
    | true =>
      rw [hFailing, if_pos rfl, if_pos rfl] at hSettled
      have hDeferred : .settled receipt disposition options ∉
          agent.control [degraded now (RunnerCondition.classifyRunnerFailure message)] ++ settleAll deferred cannotAct before.receipts := by
        intro hMem
        rcases List.mem_append.mp hMem with hMem | hMem
        · exact not_mem_control agent (by simp [degraded]) hMem
        · exact hOther (mem_settleAll hMem).2
      split at hSettled
      · rcases List.mem_append.mp hSettled with hMem | hMem
        · exact absurd hMem hDeferred
        · cases (mem_settleAll hMem).1
      · exact absurd hSettled hDeferred
    | false =>
      rw [hFailing, if_neg Bool.false_ne_true, if_neg Bool.false_ne_true] at hSettled
      split at hSettled
      · rw [List.nil_append] at hSettled
        exact (mem_settleAll hSettled).1
      · cases hSettled
  · rename_i before _ hBefore
    intro receipt disposition options hSettled _
    refine ⟨before, hBefore, ?_⟩
    unfold observeResult at hSettled
    dsimp only at hSettled
    rcases List.mem_append.mp hSettled with hSettled | hSettled
    · rcases List.mem_append.mp hSettled with hSettled | hSettled
      · exact absurd hSettled (not_mem_control agent (by simp))
      · split at hSettled
        · exact (mem_settleAll hSettled).1
        · exact (mem_settleAll hSettled).1
    · split at hSettled
      · exact absurd hSettled (not_mem_control agent (by simp [degraded]))
      · cases hSettled
  · intro receipt disposition options hSettled
    cases hSettled

theorem deferred_flush (h : .settled receipt disposition options ∈ agent.flush.2) : disposition = deferred := by
  unfold flush at h
  dsimp only at h
  split at h
  · cases h
  · split at h
    · cases h
    · exact (mem_settleAll h).2

theorem not_mem_acceptAll (receipts : List (Option Receipt)) : .settled receipt disposition options ∉ acceptAll receipts := by
  intro h
  obtain ⟨held, _, hHeld⟩ := List.mem_filterMap.mp h
  cases held <;> cases hHeld

theorem not_settled_read (session : Nat) (now : Int) :
    .settled receipt disposition options ∉ (agent.read turnIds session now).2 := by
  unfold read
  split
  · exact List.not_mem_nil
  · split
    · exact List.not_mem_nil
    · split
      · exact List.not_mem_nil
      · exact List.not_mem_nil
      · dsimp only
        split
        · exact List.not_mem_nil
        · rename_i receipts _
          unfold consumed
          split
          · exact not_mem_acceptAll receipts
          · intro hMem
            rcases List.mem_append.mp hMem with hMem | hMem
            · exact not_mem_acceptAll receipts hMem
            · exact not_mem_control _ (by simp [ready]) hMem

theorem settles_next (h : .settled receipt disposition options ∈ (next turnIds agent input).2) (hOther : disposition ≠ deferred) :
    (∃ session message now, input = .observe session message now) ∧ ∃ turn ∈ agent.turn, some receipt ∈ turn.receipts := by
  cases input with
  | observe session message now =>
    exact ⟨⟨session, message, now, rfl⟩, settlesTurn_observe agent message now receipt disposition options h hOther⟩
  | timerFires =>
    unfold next at h
    dsimp only at h
    split at h
    · exact absurd (deferred_flush agent h) hOther
    · cases h
  | flushNow => exact absurd (deferred_flush agent h) hOther
  | read session now => exact absurd h (not_settled_read turnIds agent session now)
  | attachControl now => simp [next, ready] at h
  | _ => cases h

end Steps

/-! ## Runs -/

section Runs

variable (turnIds : Nat → String)

def after (inputs : List SinkInput) : ClaudeAgent := final (next turnIds) create inputs

def steps (inputs : List SinkInput) : List SinkStep := run (next turnIds) create inputs

/-- A receipt of the turn has been read, and by the session of the turn if only that one has worked on it. -/
def TurnRead (agent : ClaudeAgent) (past : List SinkStep) : Prop := ∀ turn ∈ agent.turn, ∀ receipt, some receipt ∈ turn.receipts →
  ∃ earlier ∈ past, ∃ session, SinkStep.Consumes earlier session receipt ∧
    ((∀ step ∈ past, SinkStep.SameSession step) → session = turn.session)

theorem turnRead_next {agent : ClaudeAgent} {past : List SinkStep} (h : TurnRead agent past) (input : SinkInput) :
    TurnRead (next turnIds agent input).1 (past ++ [stepAt (next turnIds) agent input]) := by
  intro turn hTurn receipt hReceipt
  rcases explained_next turnIds agent input turn hTurn receipt hReceipt with
    ⟨before, hBefore, hSession, hHeld⟩ | ⟨session, now, rfl, hAccepted, hOpen, hClosed⟩
  · obtain ⟨earlier, hEarlier, session, hConsumes, hSame⟩ := h before hBefore receipt hHeld
    refine ⟨earlier, List.mem_append_left _ hEarlier, session, hConsumes, fun hSteps => (hSame fun step hStep => ?_).trans hSession⟩
    exact hSteps step (List.mem_append_left _ hStep)
  · refine ⟨_, List.mem_append_right _ (List.mem_singleton_self _), session, ⟨⟨now, rfl⟩, hAccepted⟩, fun hSteps => ?_⟩
    cases hTurnBefore : agent.turn with
    | none => exact (hClosed hTurnBefore).symm
    | some before =>
      have hSame : session = before.session := hSteps _ (List.mem_append_right _ (List.mem_singleton_self _)) before hTurnBefore
      exact hSame.trans (hOpen before hTurnBefore)

theorem turnRead_run (inputs : List SinkInput) : TurnRead (after turnIds inputs) (steps turnIds inputs) := by
  induction inputs using List.reverseRecOn with
  | nil =>
    intro turn hTurn
    cases hTurn
  | append_singleton inputs input ih =>
    rw [after, steps, run_append, final_append]
    exact turnRead_next turnIds ih input

theorem placed_run (inputs : List SinkInput) :
    ((after turnIds inputs).held ++ settledOf ((steps turnIds inputs).flatMap Step.output)).Perm
      (inputs.filterMap SinkInput.delivered?) := by
  refine List.perm_iff_count.mpr fun receipt => ?_
  induction inputs using List.reverseRecOn with
  | nil => rfl
  | append_singleton inputs input ih =>
    have hStep := keeps_next turnIds (after turnIds inputs) receipt input
    have hInput : ([input].filterMap SinkInput.delivered?).count receipt = input.delivered?.toList.count receipt := by
      rw [List.filterMap_cons]
      cases input.delivered? <;> rfl
    rw [List.count_append] at ih
    rw [List.filterMap_append, List.count_append, List.count_append, hInput, ← ih, after, steps, final_append,
      run_append, List.flatMap_append, settledOf_append, List.count_append, run_cons, List.flatMap_cons,
      run_nil, List.flatMap_nil, List.append_nil]
    unfold Keeps at hStep
    change (next turnIds (after turnIds inputs) input).1.held.count receipt +
      ((settledOf ((steps turnIds inputs).flatMap Step.output)).count receipt +
        (settledOf (next turnIds (after turnIds inputs) input).2).count receipt) =
      (after turnIds inputs).held.count receipt + (settledOf ((steps turnIds inputs).flatMap Step.output)).count receipt +
        input.delivered?.toList.count receipt
    omega

/-- A receipt is settled by a step as `disposition`, and not deferred. -/
def SinkStep.Answers (step : SinkStep) (receipt : Receipt) : Prop :=
  ∃ (disposition : TerminalDisposition) (options : SettleOptions), .settled receipt disposition options ∈ step.output ∧ disposition ≠ deferred

structure Settles (inputs : List SinkInput) : Prop where
  placed : ((after turnIds inputs).held ++ settledOf ((steps turnIds inputs).flatMap Step.output)).Perm
    (inputs.filterMap SinkInput.delivered?)
  truthful : ∀ past step rest, steps turnIds inputs = past ++ step :: rest → ∀ receipt, SinkStep.Answers step receipt →
    ∃ observer message now reader, step.input = .observe observer message now ∧
      (∃ earlier ∈ past, SinkStep.Consumes earlier reader receipt) ∧
      ((∀ taken ∈ past ++ [step], SinkStep.SameSession taken) → observer = reader)

theorem settles_receipts (inputs : List SinkInput) : Settles turnIds inputs where
  placed := placed_run turnIds inputs
  truthful past step rest hRun receipt hAnswers := by
    obtain ⟨disposition, options, hSettled, hOther⟩ := hAnswers
    obtain ⟨before, input, _, _, rfl, rfl, _⟩ := run_eq_append_cons _ hRun
    obtain ⟨⟨observer, message, now, rfl⟩, turn, hTurn, hHeld⟩ := settles_next turnIds _ hSettled hOther
    obtain ⟨earlier, hEarlier, reader, hConsumes, hReader⟩ := turnRead_run turnIds before turn hTurn receipt hHeld
    refine ⟨observer, message, now, reader, rfl, ⟨earlier, hEarlier, hConsumes⟩, fun hSame => ?_⟩
    have hObserver : observer = turn.session := hSame _ (List.mem_append_right _ (List.mem_singleton_self _)) turn hTurn
    exact hObserver.trans (hReader fun taken hTaken => hSame taken (List.mem_append_left _ hTaken)).symm

theorem unread_bundle_stranded : ¬ ∀ (turnIds : Nat → String) (inputs : List SinkInput),
    ((after turnIds inputs).buffered ++ (after turnIds inputs).waiting ++ (after turnIds inputs).inTurn ++
      settledOf ((steps turnIds inputs).flatMap Step.output)).Perm (inputs.filterMap SinkInput.delivered?) := by
  intro h
  let receipt : Receipt := ⟨0, "m1", by decide⟩
  have hPlaced := h (fun _ => "turn")
    [.spawn, .deliver "hi" (some receipt), .timerFires, .detachForRestart, .closeQueue 0, .stop 0, .spawn]
  revert hPlaced
  decide

end Runs

end ClaudeAgent

end CommandSuite
