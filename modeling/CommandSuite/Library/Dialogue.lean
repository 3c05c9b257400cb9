import Mathlib.Data.List.Basic
import Mathlib.Logic.Function.Iterate

/-! # A client and the party it asks

A client sends a request, waits for the answer, and then ends or sends the next one.
-/

namespace CommandSuite.Library

universe u v w x

structure Client (State : Type u) (Request : Type v) (Answer : Type w) (Result : Type x) where
  request : State → Request
  turn : State → Answer → Result ⊕ State

structure Dialogue (State : Type u) (Request : Type v) (Result : Type x) where
  sent : List Request
  now : Result ⊕ State

namespace Client

variable {State : Type u} {Request : Type v} {Answer : Type w} {Result : Type x}
  (client : Client State Request Answer Result) (party : List Request → Option Answer)

def start (state : State) : Dialogue State Request Result := ⟨[client.request state], .inr state⟩

def step (dialogue : Dialogue State Request Result) : Dialogue State Request Result :=
  match dialogue.now with
  | .inl _ => dialogue
  | .inr state =>
    match party dialogue.sent with
    | none => dialogue
    | some answer =>
      match client.turn state answer with
      | .inl result => ⟨dialogue.sent, .inl result⟩
      | .inr next => ⟨dialogue.sent ++ [client.request next], .inr next⟩

def run (state : State) (n : Nat) : Dialogue State Request Result := (client.step party)^[n] (client.start state)

theorem step_cases (dialogue : Dialogue State Request Result) :
    client.step party dialogue = dialogue ∨
      ∃ state answer, dialogue.now = .inr state ∧ party dialogue.sent = some answer ∧
        ((∃ result, client.turn state answer = .inl result ∧ client.step party dialogue = ⟨dialogue.sent, .inl result⟩) ∨
          ∃ next, client.turn state answer = .inr next ∧
            client.step party dialogue = ⟨dialogue.sent ++ [client.request next], .inr next⟩) := by
  cases hNow : dialogue.now with
  | inl result => exact .inl (by simp [step, hNow])
  | inr state =>
    cases hAnswer : party dialogue.sent with
    | none => exact .inl (by simp [step, hNow, hAnswer])
    | some answer =>
      refine .inr ⟨state, answer, rfl, rfl, ?_⟩
      cases hTurn : client.turn state answer with
      | inl result => exact .inl ⟨result, rfl, by simp [step, hNow, hAnswer, hTurn]⟩
      | inr next => exact .inr ⟨next, rfl, by simp [step, hNow, hAnswer, hTurn]⟩

variable {client party}

theorem run_succ (state : State) (n : Nat) : client.run party state (n + 1) = client.step party (client.run party state n) :=
  Function.iterate_succ_apply' _ _ _

theorem sent_ne_nil (state : State) (n : Nat) : (client.run party state n).sent ≠ [] := by
  induction n with
  | zero => exact List.cons_ne_nil _ _
  | succ n ih =>
    rw [run_succ]
    obtain hSame | ⟨_, _, -, -, hMoves⟩ := step_cases client party (client.run party state n)
    · rwa [hSame]
    · obtain ⟨_, -, hStep⟩ | ⟨_, -, hStep⟩ := hMoves
      · rwa [hStep]
      · simp [hStep]

theorem sent_of_invariant {I : State → Prop} {state : State} (hStart : I state)
    (hTurn : ∀ s answer next, I s → client.turn s answer = .inr next → I next) (n : Nat) :
    (∀ request ∈ (client.run party state n).sent, ∃ s, I s ∧ client.request s = request) ∧
      ∀ s, (client.run party state n).now = .inr s → I s := by
  induction n with
  | zero =>
    refine ⟨fun request hRequest => ?_, fun s hNow => ?_⟩
    · exact ⟨state, hStart, (List.mem_singleton.mp hRequest).symm⟩
    · obtain rfl := Sum.inr.inj hNow
      exact hStart
  | succ n ih =>
    rw [run_succ]
    obtain hSame | ⟨s, answer, hNow, -, hMoves⟩ := step_cases client party (client.run party state n)
    · rwa [hSame]
    · obtain ⟨result, -, hStep⟩ | ⟨next, hNext, hStep⟩ := hMoves
      · rw [hStep]
        exact ⟨ih.1, fun _ hEnded => by cases hEnded⟩
      · rw [hStep]
        have hInvariant : I next := hTurn s answer next (ih.2 s hNow) hNext
        refine ⟨fun request hRequest => ?_, fun s' hLater => ?_⟩
        · obtain hBefore | hLast := List.mem_append.mp hRequest
          · exact ih.1 request hBefore
          · exact ⟨next, hInvariant, (List.mem_singleton.mp hLast).symm⟩
        · obtain rfl := Sum.inr.inj hLater
          exact hInvariant

section Rank

variable {rank : State → Nat} (hRank : ∀ s answer next, client.turn s answer = .inr next → rank next < rank s)
include hRank

theorem rank_run (state : State) (n : Nat) :
    (client.run party state n).sent.length ≤ rank state + 1 ∧
      ∀ s, (client.run party state n).now = .inr s → (client.run party state n).sent.length + rank s ≤ rank state + 1 := by
  induction n with
  | zero =>
    refine ⟨Nat.le_add_left 1 _, fun s hNow => ?_⟩
    obtain rfl := Sum.inr.inj hNow
    exact Nat.le_of_eq (Nat.add_comm _ _)
  | succ n ih =>
    rw [run_succ]
    obtain hSame | ⟨s, answer, hNow, -, hMoves⟩ := step_cases client party (client.run party state n)
    · rwa [hSame]
    · obtain ⟨result, -, hStep⟩ | ⟨next, hNext, hStep⟩ := hMoves
      · rw [hStep]
        exact ⟨ih.1, fun _ hEnded => by cases hEnded⟩
      · rw [hStep]
        have hFewer := hRank s answer next hNext
        have hBefore := ih.2 s hNow
        have hLength : ((client.run party state n).sent ++ [client.request next]).length + rank next ≤ rank state + 1 := by
          rw [List.length_append, List.length_singleton]
          omega
        refine ⟨Nat.le_trans (Nat.le_add_right _ _) hLength, fun s' hLater => ?_⟩
        obtain rfl := Sum.inr.inj hLater
        exact hLength

variable (party) in
theorem length_sent_le (state : State) (n : Nat) : (client.run party state n).sent.length ≤ rank state + 1 :=
  (rank_run hRank state n).1

theorem ends {state : State} (hAnswers : ∀ n, (party (client.run party state n).sent).isSome = true) {n : Nat}
    (hn : rank state < n) : ∃ result, (client.run party state n).now = .inl result := by
  have hTurns : ∀ n, (∃ result, (client.run party state n).now = .inl result) ∨ (client.run party state n).sent.length = n + 1 := by
    intro n
    induction n with
    | zero => exact .inr rfl
    | succ n ih =>
      rw [run_succ]
      cases hNow : (client.run party state n).now with
      | inl result => exact .inl ⟨result, by simp only [step, hNow]⟩
      | inr s =>
        obtain ⟨answer, hAnswer⟩ := Option.isSome_iff_exists.mp (hAnswers n)
        cases hTurn : client.turn s answer with
        | inl result => exact .inl ⟨result, by simp only [step, hNow, hAnswer, hTurn]⟩
        | inr next =>
          obtain ⟨result, hEnded⟩ | hLength := ih
          · rw [hNow] at hEnded
            cases hEnded
          · refine .inr ?_
            simp only [step, hNow, hAnswer, hTurn, List.length_append, List.length_singleton, hLength]
  obtain hEnded | hLength := hTurns n
  · exact hEnded
  · have hBound := length_sent_le party hRank state n
    omega

end Rank

end Client

end CommandSuite.Library
