import Mathlib.Algebra.BigOperators.Group.List.Basic
import Mathlib.Tactic.Linarith

/-! # Transcripts of deterministic machines

A machine is a function from a state and an input to the next state and an output.
-/

namespace CommandSuite.Library

universe u v w x y

structure Step (σ : Type u) (ι : Type v) (ο : Type w) where
  before : σ
  input : ι
  output : ο
  after : σ

namespace Transcript

variable {σ : Type u} {ι : Type v} {ο : Type w}

abbrev Machine (σ : Type u) (ι : Type v) (ο : Type w) := σ → ι → σ × ο

def stepAt (next : Machine σ ι ο) (s : σ) (i : ι) : Step σ ι ο := ⟨s, i, (next s i).2, (next s i).1⟩

def final (next : Machine σ ι ο) : σ → List ι → σ
  | s, [] => s
  | s, i :: is => final next (next s i).1 is

def run (next : Machine σ ι ο) : σ → List ι → List (Step σ ι ο)
  | _, [] => []
  | s, i :: is => stepAt next s i :: run next (next s i).1 is

variable (next : Machine σ ι ο)

@[simp] theorem stepAt_before (s : σ) (i : ι) : (stepAt next s i).before = s := rfl
@[simp] theorem stepAt_input (s : σ) (i : ι) : (stepAt next s i).input = i := rfl
@[simp] theorem stepAt_output (s : σ) (i : ι) : (stepAt next s i).output = (next s i).2 := rfl
@[simp] theorem stepAt_after (s : σ) (i : ι) : (stepAt next s i).after = (next s i).1 := rfl

@[simp] theorem final_nil (s : σ) : final next s [] = s := rfl
@[simp] theorem final_cons (s : σ) (i : ι) (is : List ι) : final next s (i :: is) = final next (next s i).1 is := rfl
@[simp] theorem run_nil (s : σ) : run next s [] = [] := rfl
@[simp] theorem run_cons (s : σ) (i : ι) (is : List ι) : run next s (i :: is) = stepAt next s i :: run next (next s i).1 is := rfl

theorem final_append (s : σ) (is js : List ι) : final next s (is ++ js) = final next (final next s is) js := by
  induction is generalizing s with
  | nil => rfl
  | cons i is ih => exact ih _

theorem run_append (s : σ) (is js : List ι) : run next s (is ++ js) = run next s is ++ run next (final next s is) js := by
  induction is generalizing s with
  | nil => rfl
  | cons i is ih => simp [ih]

theorem map_input_run (s : σ) (is : List ι) : (run next s is).map Step.input = is := by
  induction is generalizing s with
  | nil => rfl
  | cons i is ih => exact congrArg (i :: ·) (ih _)

variable {first second : List (Step σ ι ο)}

theorem run_eq_append {s : σ} {is : List ι}
    (h : run next s is = first ++ second) :
    ∃ js ks, is = js ++ ks ∧ first = run next s js ∧ second = run next (final next s js) ks := by
  induction first generalizing s is with
  | nil => exact ⟨[], is, rfl, rfl, h.symm⟩
  | cons head tail ih =>
    cases is with
    | nil => cases h
    | cons i is =>
      obtain ⟨hHead, hTail⟩ := List.cons.inj h
      obtain ⟨js, ks, rfl, rfl, rfl⟩ := ih hTail
      exact ⟨i :: js, ks, rfl, by rw [run_cons, hHead], rfl⟩

theorem run_eq_append_cons {s : σ} {is : List ι}
    {step : Step σ ι ο} (h : run next s is = first ++ step :: second) :
    ∃ js i ks, is = js ++ i :: ks ∧ first = run next s js ∧ step = stepAt next (final next s js) i ∧
      second = run next step.after ks := by
  obtain ⟨js, ks, rfl, hFirst, hSecond⟩ := run_eq_append next h
  cases ks with
  | nil => cases hSecond
  | cons i ks =>
    obtain ⟨hStep, hRest⟩ := List.cons.inj hSecond
    exact ⟨js, i, ks, rfl, hFirst, hStep, by rw [hStep]; exact hRest⟩

section Invariants

variable {next} {P : σ → Prop} (preserved : ∀ s i, P s → P (next s i).1) {s : σ}

include preserved

theorem final_invariant (h : P s) (is : List ι) : P (final next s is) := by
  induction is generalizing s with
  | nil => exact h
  | cons i is ih => exact ih (preserved s i h)

variable {is : List ι}

theorem run_invariant (h : P s) {step : Step σ ι ο}
    (hStep : step ∈ run next s is) :
    P step.before ∧ step = stepAt next step.before step.input := by
  obtain ⟨first, second, hRun⟩ := List.append_of_mem hStep
  obtain ⟨js, i, _, _, _, rfl, _⟩ := run_eq_append_cons next hRun
  exact ⟨final_invariant preserved h js, rfl⟩

variable {C : σ → ι → Prop}

omit preserved in
theorem run_invariant_of (step : ∀ s i, P s → C s i → P (next s i).1) (h : P s)
    (hMeets : ∀ step ∈ run next s is, C step.before step.input) :
    ∀ step ∈ run next s is, P step.before ∧ step = stepAt next step.before step.input := by
  induction is generalizing s with
  | nil => simp
  | cons i is ih =>
    rw [run_cons] at hMeets ⊢
    obtain ⟨hFirst, hRest⟩ := List.forall_mem_cons.mp hMeets
    exact List.forall_mem_cons.mpr ⟨⟨h, rfl⟩, ih (step s i h hFirst) hRest⟩

omit preserved in
theorem final_invariant_of (step : ∀ s i, P s → C s i → P (next s i).1) (h : P s)
    (hMeets : ∀ step ∈ run next s is, C step.before step.input) : P (final next s is) := by
  induction is generalizing s with
  | nil => exact h
  | cons i is ih =>
    rw [run_cons] at hMeets
    obtain ⟨hFirst, hRest⟩ := List.forall_mem_cons.mp hMeets
    exact ih (step s i h hFirst) hRest

variable {G : σ → Prop} {D : Step σ ι ο → Prop}

/-- When a step of a kind keeps `G` exactly under a condition, a run of such steps stays in `G` exactly when all meet it. -/
theorem forall_after_iff_of (step : ∀ s i, P s → G s → D (stepAt next s i) → (G (next s i).1 ↔ C s i)) (h : P s) (hG : G s)
    (hSteps : ∀ step ∈ run next s is, D step) :
    (∀ step ∈ run next s is, G step.after) ↔ ∀ step ∈ run next s is, C step.before step.input := by
  induction is generalizing s with
  | nil => simp
  | cons i is ih =>
    obtain ⟨hFirst, hSteps⟩ := List.forall_mem_cons.mp hSteps
    have hStep := step s i h hG hFirst
    simp only [run_cons, List.forall_mem_cons, stepAt_after, stepAt_before, stepAt_input]
    constructor
    · rintro ⟨hNext, hRest⟩
      exact ⟨hStep.mp hNext, (ih (preserved s i h) hNext hSteps).mp hRest⟩
    · rintro ⟨hMeets, hRest⟩
      have hNext := hStep.mpr hMeets
      exact ⟨hNext, (ih (preserved s i h) hNext hSteps).mpr hRest⟩

theorem forall_after_iff (step : ∀ s i, P s → G s → (G (next s i).1 ↔ C s i))
    (h : P s) (hG : G s) (is : List ι) :
    (∀ step ∈ run next s is, G step.after) ↔ ∀ step ∈ run next s is, C step.before step.input :=
  forall_after_iff_of (D := fun _ => True) preserved (fun s i h hG _ => step s i h hG) h hG fun _ _ => trivial

omit preserved in
/-- A step that does what is asked keeps the relation, and does it exactly under a condition: so does a run. -/
theorem forall_step_iff {R : σ → Prop} {V : ι → Prop}
    (step : ∀ s i, R s → V i → (D (stepAt next s i) ↔ C s i)) (keeps : ∀ s i, R s → V i → D (stepAt next s i) → R (next s i).1)
    (h : R s) (hInputs : ∀ i ∈ is, V i) :
    (∀ step ∈ run next s is, D step) ↔ ∀ step ∈ run next s is, C step.before step.input := by
  induction is generalizing s with
  | nil => simp
  | cons i is ih =>
    obtain ⟨hInput, hInputs⟩ := List.forall_mem_cons.mp hInputs
    simp only [run_cons, List.forall_mem_cons, stepAt_before, stepAt_input]
    rw [step s i h hInput]
    exact and_congr_right fun hMeets => ih (keeps s i h hInput ((step s i h hInput).mpr hMeets)) hInputs

end Invariants

section Histories

variable {ε : Type w} {next : Machine σ ι (List ε)} {J : σ → List ε → Prop} {past : List ε} {s : σ}

/-- What steps that meet a condition keep about the state and all effects so far holds of a run. -/
theorem final_history_when {C : σ → ι → Prop}
    (step : ∀ s past i, C s i → J s past → J (next s i).1 (past ++ (next s i).2)) (h : J s past) {is : List ι}
    (hMeets : ∀ step ∈ run next s is, C step.before step.input) :
    J (final next s is) (past ++ (run next s is).flatMap Step.output) := by
  induction is generalizing s past with
  | nil => exact (List.append_nil past).symm ▸ h
  | cons i is ih =>
    obtain ⟨hFirst, hMeets⟩ := List.forall_mem_cons.mp hMeets
    have hRest := ih (step s past i hFirst h) hMeets
    rw [List.append_assoc] at hRest
    exact hRest

theorem final_history_of {C : ι → Prop} (step : ∀ s past i, C i → J s past → J (next s i).1 (past ++ (next s i).2))
    (h : J s past) {is : List ι} (hInputs : ∀ i ∈ is, C i) :
    J (final next s is) (past ++ (run next s is).flatMap Step.output) := by
  refine final_history_when (C := fun _ i => C i) step h fun taken hTaken => hInputs _ ?_
  rw [← map_input_run next s is]
  exact List.mem_map_of_mem hTaken

theorem final_history (step : ∀ s past i, J s past → J (next s i).1 (past ++ (next s i).2)) (h : J s past)
    (is : List ι) : J (final next s is) (past ++ (run next s is).flatMap Step.output) :=
  final_history_of (C := fun _ => True) (fun s past i _ => step s past i) h fun _ _ => trivial

end Histories

section Accounting

variable {next} {P : σ → Prop} (level : σ → Nat) (gain loss : Step σ ι ο → Nat)

/-- Double-entry accounting: what each step loses and keeps is what it had and gained,
so the same equation holds of a whole run. -/
theorem run_balance (preserved : ∀ s i, P s → P (next s i).1)
    (balance : ∀ s i, P s → loss (stepAt next s i) + level (next s i).1 = level s + gain (stepAt next s i))
    {s : σ} (h : P s) (is : List ι) :
    ((run next s is).map loss).sum + level (final next s is) = level s + ((run next s is).map gain).sum := by
  induction is generalizing s with
  | nil => simp
  | cons i is ih =>
    have hHead := balance s i h
    have hTail := ih (preserved s i h)
    simp only [run_cons, List.map_cons, List.sum_cons, final_cons]
    omega

end Accounting

section Lockstep

variable {τ : Type x} {ο' : Type y} {next} {other : Machine τ ι ο'}

/-- Two machines in lockstep. The relation may speak about the inputs still to come. -/
theorem lockstep {R : List ι → σ → τ → Prop} {Q : ι → ο → ο' → Prop}
    (simulates : ∀ i is s t, R (i :: is) s t → Q i (next s i).2 (other t i).2 ∧ R is (next s i).1 (other t i).1)
    {is : List ι} {s : σ} {t : τ} (h : R is s t) :
    List.Forall₂ (fun a b => Q a.input a.output b.output) (run next s is) (run other t is) ∧
      R [] (final next s is) (final other t is) := by
  induction is generalizing s t with
  | nil => exact ⟨.nil, h⟩
  | cons i is ih =>
    obtain ⟨hOutput, hRest⟩ := simulates i is s t h
    obtain ⟨hRun, hFinal⟩ := ih hRest
    exact ⟨.cons hOutput hRun, hFinal⟩

end Lockstep

section Simulation

variable {τ : Type x} {κ : Type y} {ο' ε : Type w} {next} {other : Machine τ κ ο'}

/-- A machine each of whose steps another one takes in some steps of its own, with the same effects. -/
theorem simulated (view : σ → τ) (effects : ο → List ε) (effects' : ο' → List ε)
    (hStep : ∀ s i, ∃ ks, final other (view s) ks = view (next s i).1 ∧
      (run other (view s) ks).flatMap (fun taken => effects' taken.output) = effects (next s i).2) (s : σ) (is : List ι) :
    ∃ ks, final other (view s) ks = view (final next s is) ∧
      (run other (view s) ks).flatMap (fun taken => effects' taken.output) =
        (run next s is).flatMap fun taken => effects taken.output := by
  induction is generalizing s with
  | nil => exact ⟨[], rfl, rfl⟩
  | cons i is ih =>
    obtain ⟨first, hFirst, hDone⟩ := hStep s i
    obtain ⟨rest, hRest, hEffects⟩ := ih (next s i).1
    refine ⟨first ++ rest, ?_, ?_⟩
    · rw [final_append, hFirst]
      exact hRest
    · rw [run_append, List.flatMap_append, hFirst, hDone, hEffects]
      rfl

end Simulation

end Transcript

end CommandSuite.Library
