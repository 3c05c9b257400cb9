import Mathlib.Data.List.Forall2

/-! # Stateful programs that may fail

What a program of `EStateM` changed before it fails stays changed, unless it ran in a transaction.
`Ends` says how a program ends, whether it returns or fails, and its rules follow the program.
-/

namespace CommandSuite.Library.Fallible

variable {ε σ α β : Type}

def reads (f : σ → α) : EStateM ε σ α := fun s => .ok (f s) s

def update (f : σ → σ) : EStateM ε σ Unit := fun s => .ok () (f s)

def fromExcept : Except ε α → EStateM ε σ α
  | .ok a => pure a
  | .error e => throw e

def require (condition : Bool) (error : ε) : EStateM ε σ Unit := if condition then pure () else throw error

def present (value : Option α) (error : ε) : EStateM ε σ α :=
  match value with
  | some a => pure a
  | none => throw error

/-- A program whose failure is rolled back, from the state before it and the one it failed in. -/
def transaction (rollback : σ → σ → σ) (program : EStateM ε σ α) : EStateM ε σ α := fun s =>
  match program s with
  | .ok a s' => .ok a s'
  | .error e s' => .error e (rollback s s')

variable {next : β → EStateM ε σ α}

/-- The program run at this state ends with an outcome and in a state of which `Q` holds. -/
def Ends (program : EStateM ε σ α) (s : σ) (Q : Except ε α → σ → Prop) : Prop :=
  match program s with
  | .ok a s' => Q (.ok a) s'
  | .error e s' => Q (.error e) s'

def run (program : EStateM ε σ α) (s : σ) : Except ε α × σ :=
  match program s with
  | .ok a s' => (.ok a, s')
  | .error e s' => (.error e, s')

variable {s : σ} {Q R : Except ε α → σ → Prop}

theorem ends_iff_run (program : EStateM ε σ α) : Ends program s Q ↔ Q (run program s).1 (run program s).2 := by
  unfold Ends run
  cases program s <;> rfl

variable {program : EStateM ε σ α}

theorem Ends.and (h : Ends program s Q) (h' : Ends program s R) :
    Ends program s fun outcome s' => Q outcome s' ∧ R outcome s' := by
  rw [ends_iff_run] at *
  exact ⟨h, h'⟩

theorem Ends.imp (h : Ends program s R) (hImp : ∀ outcome s', R outcome s' → Q outcome s') : Ends program s Q := by
  unfold Ends at *
  cases hRun : program s with
  | ok a s' =>
    rw [hRun] at h
    exact hImp _ _ h
  | error e s' =>
    rw [hRun] at h
    exact hImp _ _ h

@[simp] theorem ends_pure (a : α) : Ends (pure a : EStateM ε σ α) s Q ↔ Q (.ok a) s := Iff.rfl

@[simp] theorem ends_throw (e : ε) : Ends (throw e : EStateM ε σ α) s Q ↔ Q (.error e) s := Iff.rfl

@[simp] theorem ends_reads (f : σ → α) : Ends (reads f : EStateM ε σ α) s Q ↔ Q (.ok (f s)) s := Iff.rfl

@[simp] theorem ends_update (f : σ → σ) (Q : Except ε Unit → σ → Prop) : Ends (update f) s Q ↔ Q (.ok ()) (f s) := Iff.rfl

theorem ends_fromExcept (value : Except ε α) : Ends (fromExcept value : EStateM ε σ α) s Q ↔ Q value s := by
  cases value <;> rfl

theorem ends_bind (first : EStateM ε σ β) (second : β → EStateM ε σ α) :
    Ends (first >>= second) s Q ↔
      Ends first s fun outcome s' =>
        match outcome with
        | .ok b => Ends (second b) s' Q
        | .error e => Q (.error e) s' := by
  unfold Ends
  have hRun : (first >>= second) s = match first s with
      | .ok b s' => second b s'
      | .error e s' => .error e s' := rfl
  rw [hRun]
  cases first s <;> rfl

/-! A program whose next check passes goes on. -/

@[simp] theorem ends_reads_bind (f : σ → β) (next : β → EStateM ε σ α) :
    Ends (reads f >>= next) s Q ↔ Ends (next (f s)) s Q := Iff.rfl

@[simp] theorem ends_update_bind (f : σ → σ) (next : Unit → EStateM ε σ α) :
    Ends (update f >>= next) s Q ↔ Ends (next ()) (f s) Q := Iff.rfl

@[simp] theorem ends_fromExcept_ok (b : β) (next : β → EStateM ε σ α) :
    Ends (fromExcept (.ok b) >>= next) s Q ↔ Ends (next b) s Q := Iff.rfl

@[simp] theorem ends_require_true (error : ε) (next : Unit → EStateM ε σ α) :
    Ends (require true error >>= next) s Q ↔ Ends (next ()) s Q := Iff.rfl

@[simp] theorem ends_present_some (b : β) (error : ε) (next : β → EStateM ε σ α) :
    Ends (present (some b) error >>= next) s Q ↔ Ends (next b) s Q := Iff.rfl

theorem ends_transaction (rollback : σ → σ → σ) (program : EStateM ε σ α) :
    Ends (transaction rollback program) s Q ↔
      Ends program s fun outcome s' =>
        match outcome with
        | .ok a => Q (.ok a) s'
        | .error e => Q (.error e) (rollback s s') := by
  unfold Ends
  have hRun : transaction rollback program s = match program s with
      | .ok a s' => .ok a s'
      | .error e s' => .error e (rollback s s') := rfl
  rw [hRun]
  cases program s <;> rfl

variable {value : Except ε α}

theorem bind_eq_ok {next : α → Except ε β} {b : β} : (value >>= next) = .ok b ↔ ∃ a, value = .ok a ∧ next a = .ok b := by
  cases value <;> simp [bind, Except.bind]

variable {f : α → Except ε β} {as : List α} {bs : List β}

theorem mapM_eq_ok : as.mapM f = .ok bs ↔ List.Forall₂ (fun a b => f a = .ok b) as bs := by
  induction as generalizing bs with
  | nil => cases bs <;> simp [pure, Except.pure]
  | cons a as ih =>
    rw [List.mapM_cons]
    cases hFirst : f a with
    | error e => cases bs <;> simp [hFirst, bind, Except.bind]
    | ok first =>
      cases hRest : as.mapM f with
      | error e => cases bs <;> simp [← ih, hRest, hFirst, bind, Except.bind]
      | ok rest => cases bs <;> simp [← ih, hRest, hFirst, bind, Except.bind, pure, Except.pure]

theorem exists_of_mapM_eq_ok (h : as.mapM f = .ok bs) : ∀ a ∈ as, ∃ b, f a = .ok b := by
  have hEach := mapM_eq_ok.mp h
  clear h
  induction hEach with
  | nil => exact nofun
  | cons hFirst hRest ih => exact List.forall_mem_cons.mpr ⟨⟨_, hFirst⟩, ih⟩

theorem exists_mem_of_mapM_eq_ok (h : as.mapM f = .ok bs) : ∀ b ∈ bs, ∃ a ∈ as, f a = .ok b := by
  have hEach := mapM_eq_ok.mp h
  clear h
  induction hEach with
  | nil => exact nofun
  | cons hFirst hRest ih =>
    refine List.forall_mem_cons.mpr ⟨⟨_, List.mem_cons_self, hFirst⟩, fun b hMem => ?_⟩
    obtain ⟨a, hSource, hOk⟩ := ih b hMem
    exact ⟨a, List.mem_cons_of_mem _ hSource, hOk⟩

theorem mapM_eq_error {e : ε} :
    as.mapM f = .error e ↔ ∃ before a after, as = before ++ a :: after ∧ (∀ b ∈ before, ∃ c, f b = .ok c) ∧ f a = .error e := by
  constructor
  · intro h
    induction as with
    | nil => cases h
    | cons a as ih =>
      rw [List.mapM_cons] at h
      cases hFirst : f a with
      | error first =>
        rw [hFirst] at h
        obtain rfl := Except.error.inj h
        exact ⟨[], a, as, rfl, nofun, hFirst⟩
      | ok first =>
        cases hRest : as.mapM f with
        | error rest =>
          rw [hFirst, hRest] at h
          obtain rfl := Except.error.inj h
          obtain ⟨before, a', after, rfl, hBefore, hError⟩ := ih hRest
          exact ⟨a :: before, a', after, rfl, List.forall_mem_cons.mpr ⟨⟨first, hFirst⟩, hBefore⟩, hError⟩
        | ok rest =>
          rw [hFirst, hRest] at h
          cases h
  · rintro ⟨before, a, after, rfl, hBefore, hError⟩
    induction before with
    | nil =>
      rw [List.nil_append, List.mapM_cons, hError]
      rfl
    | cons b before ih =>
      obtain ⟨⟨c, hFirst⟩, hRest⟩ := List.forall_mem_cons.mp hBefore
      rw [List.cons_append, List.mapM_cons, hFirst]
      exact congrArg (fun rest => rest >>= fun cs => Except.ok (c :: cs)) (ih hRest)

theorem mapError_eq_ok {ε' : Type} {f : ε → ε'} {a : α} : value.mapError f = .ok a ↔ value = .ok a := by
  cases value <;> simp [Except.mapError]

/-! A check that may fail ends the program in the state it is in. -/

theorem ends_fromExcept_bind (value : Except ε β) (hError : ∀ e, Q (.error e) s)
    (h : ∀ b, value = .ok b → Ends (next b) s Q) : Ends (fromExcept value >>= next) s Q := by
  cases value with
  | ok b => exact h b rfl
  | error e => exact hError e

theorem ends_require_bind {condition : Bool} (error : ε) {next : Unit → EStateM ε σ α} (hError : ∀ e, Q (.error e) s)
    (h : condition = true → Ends (next ()) s Q) : Ends (require condition error >>= next) s Q := by
  cases condition with
  | true => exact h rfl
  | false => exact hError error

theorem ends_present_bind {value : Option β} (error : ε) (hError : ∀ e, Q (.error e) s)
    (h : ∀ b, value = some b → Ends (next b) s Q) : Ends (present value error >>= next) s Q := by
  cases value with
  | some b => exact h b rfl
  | none => exact hError error

/-- The states before and after are related, whether the program returns or fails, and `P` holds of what it returns. -/
def Keeps (K : σ → σ → Prop) (program : EStateM ε σ α) (s : σ) (P : α → σ → Prop) : Prop :=
  Ends program s fun outcome s' => K s s' ∧ ∀ a, outcome = .ok a → P a s'

section Keeps

variable {K : σ → σ → Prop} {P : α → σ → Prop} {M : β → σ → Prop}

theorem Keeps.mono {K' : σ → σ → Prop} {Q : α → σ → Prop} {program : EStateM ε σ α} (h : Keeps K program s P)
    (hK : ∀ s', K s s' → K' s s') (hP : ∀ a s', K s s' → P a s' → Q a s') : Keeps K' program s Q :=
  Ends.imp h fun _ s' ⟨hState, hValue⟩ => ⟨hK s' hState, fun a hOk => hP a s' hState (hValue a hOk)⟩

theorem keeps_update {f : σ → σ} {P : Unit → σ → Prop} (hK : K s (f s)) (hP : P () (f s)) :
    Keeps K (update f : EStateM ε σ Unit) s P :=
  ⟨hK, fun _ _ => hP⟩

theorem keeps_reads_bind (f : σ → β) (next : β → EStateM ε σ α) :
    Keeps K (reads f >>= next) s P ↔ Keeps K (next (f s)) s P := Iff.rfl

variable [Std.Refl K]

theorem keeps_pure {a : α} (h : P a s) : Keeps K (pure a : EStateM ε σ α) s P := by
  refine ⟨Std.Refl.refl s, ?_⟩
  rintro _ hOk
  cases hOk
  exact h

theorem keeps_throw (e : ε) : Keeps K (throw e : EStateM ε σ α) s P := by
  refine ⟨Std.Refl.refl s, ?_⟩
  rintro _ hOk
  cases hOk

theorem keeps_fromExcept_bind (value : Except ε β) {next : β → EStateM ε σ α}
    (h : ∀ b, value = .ok b → Keeps K (next b) s P) : Keeps K (fromExcept value >>= next) s P := by
  cases value with
  | ok b => exact h b rfl
  | error e => exact keeps_throw e

theorem keeps_require_bind {condition : Bool} (error : ε) {next : Unit → EStateM ε σ α}
    (h : condition = true → Keeps K (next ()) s P) : Keeps K (require condition error >>= next) s P := by
  cases condition with
  | true => exact h rfl
  | false => exact keeps_throw error

theorem keeps_present_bind {value : Option β} (error : ε) {next : β → EStateM ε σ α}
    (h : ∀ b, value = some b → Keeps K (next b) s P) : Keeps K (present value error >>= next) s P := by
  cases value with
  | some b => exact h b rfl
  | none => exact keeps_throw error

omit [Std.Refl K] in
theorem Keeps.transaction {rollback : σ → σ → σ} {program : EStateM ε σ α} (h : Keeps K program s P)
    (hRollback : ∀ failed, K s (rollback s failed)) : Keeps K (transaction rollback program) s P := by
  unfold Keeps
  rw [ends_transaction]
  refine Ends.imp h ?_
  rintro outcome s' ⟨hState, hValue⟩
  cases outcome with
  | ok a => exact ⟨hState, hValue⟩
  | error e =>
    refine ⟨hRollback s', ?_⟩
    rintro _ hOk
    cases hOk

variable [IsTrans σ K] {first : EStateM ε σ β} {second : β → EStateM ε σ α}

omit [Std.Refl K] in
theorem Keeps.bind (hFirst : Keeps K first s M)
    (hSecond : ∀ b s', K s s' → M b s' → Keeps K (second b) s' P) : Keeps K (first >>= second) s P := by
  unfold Keeps
  rw [ends_bind]
  refine Ends.imp hFirst ?_
  rintro outcome s' ⟨hState, hValue⟩
  cases outcome with
  | error e =>
    refine ⟨hState, ?_⟩
    rintro _ hOk
    cases hOk
  | ok b =>
    refine Ends.imp (hSecond b s' hState (hValue b rfl)) ?_
    rintro outcome s'' ⟨hLater, hResult⟩
    exact ⟨IsTrans.trans _ _ _ hState hLater, hResult⟩

omit [Std.Refl K] [IsTrans σ K] in
theorem Keeps.ends_bind (hFirst : Keeps K first s M)
    (hSecond : ∀ b s', K s s' → M b s' → Ends (second b) s' Q) (hError : ∀ e s', K s s' → Q (.error e) s') :
    Ends (first >>= second) s Q := by
  rw [Fallible.ends_bind]
  refine Ends.imp hFirst ?_
  rintro outcome s' ⟨hState, hValue⟩
  cases outcome with
  | ok b => exact hSecond b s' hState (hValue b rfl)
  | error e => exact hError e s' hState

end Keeps

/-- The relation that says nothing, for what holds of a program only where it returns. -/
def Anywhere (_ _ : σ) : Prop := True

instance : Std.Refl (Anywhere (σ := σ)) := ⟨fun _ => trivial⟩

instance : IsTrans σ Anywhere := ⟨fun _ _ _ _ _ => trivial⟩

end CommandSuite.Library.Fallible
