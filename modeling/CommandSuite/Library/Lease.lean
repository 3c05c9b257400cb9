import Mathlib.Data.Set.Insert

/-! # Lifecycles of leased work

A unit of work is inserted, leased to at most one owner at a time, given back any number of times, and closed once.
Owners that gave a lease back are remembered, and a remembered owner may close the work only under a new lease.
-/

namespace CommandSuite.Library

universe u

inductive Lease (Owner : Type u) where
  | absent
  | free (lost : Set Owner)
  | held (owner : Owner) (lost : Set Owner)
  | closed

namespace Lease

variable {Owner : Type u}

inductive Event (Owner : Type u) where
  | idle
  | insert
  | grant (owner : Owner)
  | giveBack (owner : Owner)
  | finish (owner : Owner)
  | finishUnleased (owner : Owner)
  | abandon
  | expire
  | purge

inductive Moves : Lease Owner → Event Owner → Lease Owner → Prop where
  | idle (lease : Lease Owner) : Moves lease .idle lease
  | insert (lost : Set Owner) : Moves .absent .insert (.free lost)
  | grant (owner : Owner) (lost : Set Owner) : Moves (.free lost) (.grant owner) (.held owner lost)
  | giveBack (owner : Owner) (lost : Set Owner) : Moves (.held owner lost) (.giveBack owner) (.free (Insert.insert owner lost))
  | finish (owner : Owner) (lost : Set Owner) : Moves (.held owner lost) (.finish owner) .closed
  | finishUnleased (owner : Owner) (lost : Set Owner) (fenced : owner ∉ lost) : Moves (.free lost) (.finishUnleased owner) .closed
  | abandon (lost : Set Owner) : Moves (.free lost) .abandon .closed
  | expireFree (lost : Set Owner) : Moves (.free lost) .expire .absent
  | expireHeld (owner : Owner) (lost : Set Owner) : Moves (.held owner lost) .expire .absent
  | purge : Moves .closed .purge .absent

def openCount : Lease Owner → Nat
  | .free _ | .held _ _ => 1
  | .absent | .closed => 0

def Event.outcomes : Event Owner → Nat
  | .finish _ | .finishUnleased _ | .abandon | .expire => 1
  | .idle | .insert | .grant _ | .giveBack _ | .purge => 0

def Event.insertions : Event Owner → Nat
  | .insert => 1
  | _ => 0

variable {before after : Lease Owner} {event : Event Owner}

theorem Moves.balance (h : Moves before event after) :
    event.outcomes + after.openCount = before.openCount + event.insertions := by
  cases h <;> simp [Event.outcomes, Event.insertions, openCount]

theorem Moves.openCount_of_insert (h : Moves before .insert after) : after.openCount = 1 := by
  cases h
  rfl

inductive Run : Lease Owner → List (Event Owner) → Lease Owner → Prop where
  | nil (lease : Lease Owner) : Run lease [] lease
  | cons {before middle after : Lease Owner} {event : Event Owner} {events : List (Event Owner)}
    (first : Moves before event middle) (rest : Run middle events after) :
    Run before (event :: events) after

theorem Run.split {first second : List (Event Owner)}
    (h : Run before (first ++ second) after) : ∃ middle, Run before first middle ∧ Run middle second after := by
  induction first generalizing before with
  | nil => exact ⟨before, .nil before, h⟩
  | cons event first ih =>
    cases h with
    | cons hMove hRest =>
      obtain ⟨middle, hFirst, hSecond⟩ := ih hRest
      exact ⟨middle, .cons hMove hFirst, hSecond⟩

/-- The owners that have lost a lease and may not close the work without a new one. -/
def Fenced (owner : Owner) : Lease Owner → Prop
  | .free lost => owner ∈ lost
  | .held holder lost => owner ∈ lost ∨ holder = owner
  | .absent | .closed => True

variable {owner : Owner}

theorem Moves.fenced (h : Moves before event after) (hFenced : Fenced owner before) (hInsert : event ≠ .insert) :
    Fenced owner after := by
  cases h with
  | idle => exact hFenced
  | insert => exact absurd rfl hInsert
  | grant => exact .inl hFenced
  | giveBack holder lost =>
    rcases hFenced with hLost | rfl
    · exact Set.mem_insert_of_mem holder hLost
    · exact Set.mem_insert holder lost
  | finish | finishUnleased | abandon | expireFree | expireHeld | purge => trivial

variable {events : List (Event Owner)}

theorem Run.fenced (h : Run before events after) (hFenced : Fenced owner before) (hInsert : .insert ∉ events) :
    Fenced owner after := by
  induction h with
  | nil => exact hFenced
  | cons hMove _ ih =>
    simp only [List.mem_cons, not_or] at hInsert
    obtain ⟨hFirst, hRest⟩ := hInsert
    exact ih (hMove.fenced hFenced (Ne.symm hFirst)) hRest

theorem Moves.fenced_of_giveBack (h : Moves before (.giveBack owner) after) : Fenced owner after := by
  cases h with
  | giveBack _ lost => exact Set.mem_insert owner lost

/-- The owner gave the lease back at some point since the work was last inserted. -/
def LostSinceInsert (owner : Owner) (events : List (Event Owner)) : Prop :=
  ∃ first second, events = first ++ .giveBack owner :: second ∧ .insert ∉ second

theorem Run.fenced_of_lost (h : Run before events after) (hLost : LostSinceInsert owner events) : Fenced owner after := by
  obtain ⟨first, second, rfl, hInsert⟩ := hLost
  obtain ⟨middle, _, hRest⟩ := h.split
  cases hRest with
  | cons hMove hSecond => exact hSecond.fenced hMove.fenced_of_giveBack hInsert

def Holds (owner : Owner) (lease : Lease Owner) : Prop := ∃ lost, lease = .held owner lost

theorem Moves.not_holds_of_giveBack (h : Moves before (.giveBack owner) after) : ¬ Holds owner after := by
  cases h with
  | giveBack _ lost =>
    rintro ⟨lost', hHeld⟩
    cases hHeld

theorem Run.not_holds (h : Run before events after) (hBefore : ¬ Holds owner before) (hGrant : .grant owner ∉ events) :
    ¬ Holds owner after := by
  induction h with
  | nil => exact hBefore
  | cons hMove _ ih =>
    simp only [List.mem_cons, not_or] at hGrant
    obtain ⟨hFirst, hRest⟩ := hGrant
    refine ih ?_ hRest
    rintro ⟨lost, rfl⟩
    cases hMove with
    | idle => exact hBefore ⟨lost, rfl⟩
    | grant => exact hFirst rfl

/-- The event ends a lease of the owner. -/
def Event.Ends (owner : Owner) : Event Owner → Prop
  | .giveBack holder | .finish holder => holder = owner
  | .expire => True
  | _ => False

/-- The owner was granted a lease, and nothing has ended it since. -/
def StaysGranted (owner : Owner) (events : List (Event Owner)) : Prop :=
  ∃ first second, events = first ++ .grant owner :: second ∧ ∀ event ∈ second, ¬event.Ends owner

theorem staysGranted_cons :
    StaysGranted owner (event :: events) ↔
      StaysGranted owner events ∨ (event = .grant owner ∧ ∀ later ∈ events, ¬later.Ends owner) := by
  constructor
  · rintro ⟨first, second, hEvents, hKept⟩
    cases first with
    | nil =>
      obtain ⟨rfl, rfl⟩ := List.cons.inj hEvents
      exact .inr ⟨rfl, hKept⟩
    | cons _ first => exact .inl ⟨first, second, (List.cons.inj hEvents).2, hKept⟩
  · rintro (⟨first, second, rfl, hKept⟩ | ⟨rfl, hKept⟩)
    · exact ⟨event :: first, second, rfl, hKept⟩
    · exact ⟨[], events, rfl, hKept⟩

theorem Moves.holds_iff (h : Moves before event after) :
    Holds owner after ↔ event = .grant owner ∨ (Holds owner before ∧ ¬event.Ends owner) := by
  cases h <;> simp [Holds, Event.Ends]

theorem Run.holds_iff (h : Run before events after) :
    Holds owner after ↔ StaysGranted owner events ∨ (Holds owner before ∧ ∀ event ∈ events, ¬event.Ends owner) := by
  induction h with
  | nil lease => simp [StaysGranted]
  | cons hMove _ ih =>
    rw [ih, hMove.holds_iff, staysGranted_cons, List.forall_mem_cons, or_and_right, or_assoc, and_assoc]

end Lease

end CommandSuite.Library
