import Mathlib.Data.List.Basic

/-! # Programs with effects

A program takes a state to the next one and has effects in order. Its rules carry an invariant of
the states together with a property of the effects that holds of none and of any two in a row.
-/

namespace CommandSuite.Library

universe u v w

abbrev Program (σ : Type u) (ε : Type v) := σ → σ × List ε

namespace Program

variable {σ : Type u} {ε : Type v} {α : Type w}

def skip : Program σ ε := fun s => (s, [])

def emit (effect : ε) : Program σ ε := fun s => (s, [effect])

def update (f : σ → σ) : Program σ ε := fun s => (f s, [])

def andThen (first second : Program σ ε) : Program σ ε := fun s =>
  let (s, effects) := first s
  let (s, later) := second s
  (s, effects ++ later)

def each : List α → (α → Program σ ε) → Program σ ε
  | [], _ => skip
  | item :: items, f => (f item).andThen (each items f)

variable {items : List α} {f : α → Program σ ε}

@[simp] theorem skip_apply (s : σ) : (skip : Program σ ε) s = (s, []) := rfl
@[simp] theorem emit_apply (effect : ε) (s : σ) : emit effect s = (s, [effect]) := rfl
@[simp] theorem update_apply (f : σ → σ) (s : σ) : (update f : Program σ ε) s = (f s, []) := rfl

theorem mem_effects_each {item : α} {effect : ε}
    (hItem : item ∈ items) (h : ∀ s, effect ∈ (f item s).2) (s : σ) : effect ∈ (each items f s).2 := by
  induction items generalizing s with
  | nil => cases hItem
  | cons head items ih =>
    rcases List.mem_cons.mp hItem with rfl | hLater
    · exact List.mem_append_left _ (h s)
    · exact List.mem_append_right _ (ih hLater _)

structure Composes (Q : List ε → Prop) : Prop where
  nil : Q []
  append : ∀ {first second : List ε}, Q first → Q second → Q (first ++ second)

/-- The triple of a program at one state. -/
def KeepsAt (I : σ → Prop) (Q : List ε → Prop) (program : Program σ ε) (s : σ) : Prop := I s → I (program s).1 ∧ Q (program s).2

def Keeps (I : σ → Prop) (Q : List ε → Prop) (program : Program σ ε) : Prop := ∀ s, KeepsAt I Q program s

variable {I : σ → Prop} {Q : List ε → Prop} (composes : Composes Q)
include composes

theorem keeps_skip : Keeps I Q (skip : Program σ ε) := fun _ h => ⟨h, composes.nil⟩

theorem keeps_update {f : σ → σ} (h : ∀ s, I s → I (f s)) : Keeps I Q (update f : Program σ ε) :=
  fun s hInvariant => ⟨h s hInvariant, composes.nil⟩

omit composes in
theorem keeps_emit {effect : ε} (h : Q [effect]) : Keeps I Q (emit effect : Program σ ε) := fun _ hInvariant => ⟨hInvariant, h⟩

variable {first second : Program σ ε}

theorem KeepsAt.andThen {s : σ} (h : KeepsAt I Q first s)
    (h' : KeepsAt I Q second (first s).1) : KeepsAt I Q (first.andThen second) s := by
  intro hInvariant
  obtain ⟨hMiddle, hFirst⟩ := h hInvariant
  obtain ⟨hLast, hSecond⟩ := h' hMiddle
  exact ⟨hLast, composes.append hFirst hSecond⟩

theorem Keeps.andThen (h : Keeps I Q first) (h' : Keeps I Q second) :
    Keeps I Q (first.andThen second) :=
  fun s => (h s).andThen composes (h' _)

theorem keeps_each (h : ∀ item ∈ items, Keeps I Q (f item)) : Keeps I Q (each items f) := by
  induction items with
  | nil => exact keeps_skip composes
  | cons item items ih =>
    exact (h item List.mem_cons_self).andThen composes
      (ih fun other hOther => h other (List.mem_cons_of_mem item hOther))

omit composes

/-- What holds of the state and all effects so far holds after the program, too. -/
def Extends (J : σ → List ε → Prop) (program : Program σ ε) : Prop := ∀ s past, J s past → J (program s).1 (past ++ (program s).2)

section Extends

variable {J : σ → List ε → Prop}

theorem extends_skip : Extends J (skip : Program σ ε) := fun _ past h => (List.append_nil past).symm ▸ h

theorem extends_update {f : σ → σ} (h : ∀ s past, J s past → J (f s) past) : Extends J (update f : Program σ ε) :=
  fun s past hPast => (List.append_nil past).symm ▸ h s past hPast

theorem Extends.andThen {first second : Program σ ε} (h : Extends J first) (h' : Extends J second) :
    Extends J (first.andThen second) := by
  intro s past hPast
  have hBoth := h' _ _ (h s past hPast)
  rw [List.append_assoc] at hBoth
  exact hBoth

theorem extends_each {items : List α} {f : α → Program σ ε} (h : ∀ item ∈ items, Extends J (f item)) :
    Extends J (each items f) := by
  induction items with
  | nil => exact extends_skip
  | cons item items ih =>
    exact (h item List.mem_cons_self).andThen (ih fun other hOther => h other (List.mem_cons_of_mem item hOther))

end Extends

end Program

end CommandSuite.Library
