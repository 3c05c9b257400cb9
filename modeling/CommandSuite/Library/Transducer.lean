import Mathlib.Data.List.Basic

/-! # Transducers

A machine that takes its input piece by piece and puts out what it has of it. What it puts out does not depend on how the input
was cut.
-/

namespace CommandSuite.Library

universe u v w x y

abbrev Transducer (σ : Type u) (α : Type v) (β : Type w) := σ → α → σ × List β

namespace Transducer

variable {σ : Type u} {α : Type v} {β : Type w} {τ : Type x} {γ : Type y} (t : Transducer σ α β) (u : Transducer τ β γ)

def feed : σ → List α → σ × List β
  | s, [] => (s, [])
  | s, a :: rest => ((feed (t s a).1 rest).1, (t s a).2 ++ (feed (t s a).1 rest).2)

def pipe : Transducer (σ × τ) α γ := fun s a => (((t s.1 a).1, (feed u s.2 (t s.1 a).2).1), (feed u s.2 (t s.1 a).2).2)

@[simp] theorem feed_nil (s : σ) : feed t s [] = (s, []) := rfl

theorem feed_append (s : σ) (first second : List α) : feed t s (first ++ second) =
    ((feed t (feed t s first).1 second).1, (feed t s first).2 ++ (feed t (feed t s first).1 second).2) := by
  induction first generalizing s with
  | nil => rfl
  | cons a first ih => simp only [List.cons_append, feed, ih, List.append_assoc]

theorem feed_pipe (s : σ) (r : τ) (input : List α) : feed (pipe t u) (s, r) input =
    (((feed t s input).1, (feed u r (feed t s input).2).1), (feed u r (feed t s input).2).2) := by
  induction input generalizing s r with
  | nil => rfl
  | cons a input ih => simp only [feed, pipe, ih, feed_append]

theorem feed_flatMap {ι : Type u} {s : σ} (piece : ι → List α) (output : ι → List β) (pieces : List ι)
    (h : ∀ i ∈ pieces, feed t s (piece i) = (s, output i)) : feed t s (pieces.flatMap piece) = (s, pieces.flatMap output) := by
  induction pieces with
  | nil => rfl
  | cons i pieces ih =>
    obtain ⟨hFirst, hRest⟩ := List.forall_mem_cons.mp h
    rw [List.flatMap_cons, feed_append, hFirst, ih hRest, List.flatMap_cons]

end Transducer

end CommandSuite.Library
