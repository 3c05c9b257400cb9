import CommandSuite.Library.Program
import CommandSuite.Library.Transcript
import Mathlib.Data.List.Chain
import Mathlib.Data.List.Nodup

/-! # The activity signal

`createActivitySignal` of `packages/cli/src/runtime/trace/busy.ts`. What the agent is doing is derived from the handles that are
not finished and from a flag. A handle is finished by its owner, by its timer or by `forceFinishAll`.
-/

namespace CommandSuite.Busy

open Library Program Transcript

inductive WorkState where
  | idle
  | working
  | blocked
  deriving DecidableEq

inductive ActivitySource where
  | turnActive
  | toolInflight
  deriving DecidableEq

def ALL_SOURCES : List ActivitySource := [.turnActive, .toolInflight]

inductive FinishReason where
  | normal
  | timeout
  | force
  deriving DecidableEq

/-! ## Ages -/

/-- A number, as far as `resolveMaxAge` tells numbers apart. -/
inductive Millis where
  | nan
  | infinity
  | negativeInfinity
  | finite (ms : Rat)

def DEFAULT_MAX_AGE_MS : ActivitySource → Rat
  | .turnActive => 30 * 60000
  | .toolInflight => 15 * 60000

def resolveMaxAge (source : ActivitySource) : Option Millis → Millis
  | some .infinity => .infinity
  | some (.finite ms) => .finite (if ms ≤ 0 then DEFAULT_MAX_AGE_MS source else ms)
  | none | some .nan | some .negativeInfinity => .finite (DEFAULT_MAX_AGE_MS source)

def timerOf : Millis → Option Rat
  | .finite ms => if ms > 0 then some ms else none
  | .nan | .infinity | .negativeInfinity => none

/-! ## The signal -/

/-- What `start` closes over. -/
structure InternalHandle where
  source : ActivitySource
  finished : Bool
  timer : Option Rat

/-- A handle is its place among those that were started. A listener is a function, told from others by its identity. -/
structure ActivitySignal where
  counts : ActivitySource → Nat
  listeners : List Nat
  handles : List InternalHandle
  liveHandles : List Nat
  blocked : Bool
  lastState : WorkState

namespace ActivitySignal

def created : ActivitySignal := ⟨fun _ => 0, [], [], [], false, .idle⟩

variable (signal : ActivitySignal)

def totalCount : Nat := (ALL_SOURCES.map signal.counts).sum

def deriveState : WorkState :=
  if signal.blocked then .blocked else if signal.totalCount > 0 then .working else .idle

end ActivitySignal

inductive Note where
  | welcomed (listener : Nat) (state : WorkState)
  | told (listener : Nat) (state : WorkState)
  | handleAutoFinished (source : ActivitySource) (reason : FinishReason)
  | forceFinished (drained : Nat)

abbrev Action := Program ActivitySignal Note

def emitIfChanged : Action := fun signal =>
  let next := signal.deriveState
  if next = signal.lastState then (signal, [])
  else ({ signal with lastState := next }, signal.listeners.map fun listener => .told listener next)

def started (source : ActivitySource) (signal : ActivitySignal) : ActivitySignal :=
  { signal with counts := Function.update signal.counts source (signal.counts source + 1) }

def listed (handle : InternalHandle) (signal : ActivitySignal) : ActivitySignal :=
  { signal with
    handles := signal.handles ++ [handle]
    liveHandles := signal.liveHandles ++ [signal.handles.length] }

def start (source : ActivitySource) (maxAgeMs : Option Millis) : Action :=
  (update (started source)).andThen
    (emitIfChanged.andThen (update (listed ⟨source, false, timerOf (resolveMaxAge source maxAgeMs)⟩)))

def ended (id : Nat) (handle : InternalHandle) (signal : ActivitySignal) : ActivitySignal :=
  { signal with
    handles := signal.handles.set id { handle with finished := true, timer := none }
    liveHandles := signal.liveHandles.erase id
    counts := Function.update signal.counts handle.source (signal.counts handle.source - 1) }

def finish (reason : FinishReason) (id : Nat) : Action := fun signal =>
  match signal.handles[id]? with
  | none => (signal, [])
  | some handle =>
    if handle.finished then (signal, [])
    else
      ((update (ended id handle)).andThen (emitIfChanged.andThen
        (if reason = .normal then skip else emit (.handleAutoFinished handle.source reason)))) signal

def timeout (id : Nat) : Action := fun signal =>
  if signal.handles[id]?.any fun handle => handle.timer.isSome then finish .timeout id signal else (signal, [])

def forceFinishAll : Action := fun signal =>
  if signal.liveHandles.isEmpty then (signal, [])
  else ((each signal.liveHandles (finish .force)).andThen (emit (.forceFinished signal.liveHandles.length))) signal

def setBlocked (next : Bool) : Action := fun signal =>
  if next = signal.blocked then (signal, [])
  else ((update fun signal => { signal with blocked := next }).andThen emitIfChanged) signal

def subscribe (listener : Nat) : Action :=
  (update fun signal =>
    { signal with listeners := if listener ∈ signal.listeners then signal.listeners else signal.listeners ++ [listener] }).andThen
    fun signal => (signal, [.welcomed listener signal.deriveState])

def unsubscribe (listener : Nat) : Action := update fun signal => { signal with listeners := signal.listeners.erase listener }

inductive Call where
  | start (source : ActivitySource) (maxAgeMs : Option Millis)
  | finish (id : Nat)
  | timeout (id : Nat)
  | forceFinishAll
  | setBlocked (next : Bool)
  | subscribe (listener : Nat)
  | unsubscribe (listener : Nat)

def Call.action : Call → Action
  | .start source maxAgeMs => Busy.start source maxAgeMs
  | .finish id => Busy.finish .normal id
  | .timeout id => Busy.timeout id
  | .forceFinishAll => Busy.forceFinishAll
  | .setBlocked next => Busy.setBlocked next
  | .subscribe listener => Busy.subscribe listener
  | .unsubscribe listener => Busy.unsubscribe listener

def next : Machine ActivitySignal Call (List Note) := fun signal call => call.action signal

/-! ## What a listener hears -/

structure Heard where
  state : WorkState
  welcome : Bool

def Note.heardBy (listener : Nat) : Note → Option Heard
  | .welcomed other state => if other = listener then some ⟨state, true⟩ else none
  | .told other state => if other = listener then some ⟨state, false⟩ else none
  | .handleAutoFinished _ _ | .forceFinished _ => none

def heard (listener : Nat) (notes : List Note) : List Heard := notes.filterMap (Note.heardBy listener)

def Differs (previous latest : Heard) : Prop := latest.welcome = true ∨ previous.state ≠ latest.state

theorem heard_append (listener : Nat) (notes later : List Note) :
    heard listener (notes ++ later) = heard listener notes ++ heard listener later := List.filterMap_append

theorem heard_told (listener : Nat) {listeners : List Nat} (hNodup : listeners.Nodup) (state : WorkState) :
    heard listener (listeners.map fun other => .told other state) = if listener ∈ listeners then [⟨state, false⟩] else [] := by
  induction listeners with
  | nil => rfl
  | cons other rest ih =>
    obtain ⟨hOther, hRest⟩ := List.nodup_cons.mp hNodup
    have hLater := ih hRest
    unfold heard at hLater ⊢
    rw [List.map_cons, List.filterMap_cons]
    by_cases hSame : other = listener
    · subst hSame
      rw [if_neg hOther] at hLater
      simp [Note.heardBy, hLater]
    · simp [Note.heardBy, hSame, Ne.symm hSame, hLater]

structure Informed (signal : ActivitySignal) (past : List Note) : Prop where
  distinct : signal.listeners.Nodup
  last : ∀ listener ∈ signal.listeners, (heard listener past).getLast?.map Heard.state = some signal.lastState
  differs : ∀ listener, (heard listener past).IsChain Differs

variable {past : List Note}

theorem Informed.congr {signal other : ActivitySignal} (h : Informed signal past)
    (hListeners : other.listeners = signal.listeners) (hLast : other.lastState = signal.lastState) : Informed other past := by
  obtain ⟨hDistinct, hHeard, hDiffers⟩ := h
  refine ⟨hListeners ▸ hDistinct, fun listener hListener => ?_, hDiffers⟩
  rw [hLast]
  exact hHeard listener (hListeners ▸ hListener)

variable {signal : ActivitySignal}

theorem Informed.emit (h : Informed signal past) {note : Note}
    (hNote : ∀ listener, note.heardBy listener = none) : Informed signal (past ++ [note]) := by
  have hSame : ∀ listener, heard listener (past ++ [note]) = heard listener past := by
    intro listener
    have hNone : heard listener [note] = [] := by rw [heard, List.filterMap_cons, hNote, List.filterMap_nil]
    rw [heard_append, hNone, List.append_nil]
  refine ⟨h.distinct, fun listener hListener => ?_, fun listener => ?_⟩
  · rw [hSame]
    exact h.last listener hListener
  · rw [hSame]
    exact h.differs listener

theorem emitIfChanged_fst (signal : ActivitySignal) : (emitIfChanged signal).1 = { signal with lastState := signal.deriveState } := by
  unfold emitIfChanged
  dsimp only
  split
  · rename_i hSame
    rw [hSame]
  · rfl

theorem informed_emitIfChanged : Extends Informed emitIfChanged := by
  intro signal past h
  unfold emitIfChanged
  dsimp only
  split
  · rw [List.append_nil]
    exact h
  · rename_i hChanged
    have hHeard : ∀ listener, heard listener (past ++ signal.listeners.map fun other => Note.told other signal.deriveState) =
        heard listener past ++ if listener ∈ signal.listeners then [⟨signal.deriveState, false⟩] else [] := by
      intro listener
      rw [heard_append, heard_told listener h.distinct]
    refine ⟨h.distinct, fun listener hListener => ?_, fun listener => ?_⟩
    · rw [hHeard, if_pos hListener, List.getLast?_append]
      rfl
    · rw [hHeard]
      split
      · rename_i hListener
        refine (h.differs listener).append (List.isChain_singleton _) fun previous hPrevious latest hLatest => ?_
        obtain rfl := Option.some.inj hLatest
        have hLast := h.last listener hListener
        rw [Option.mem_def.mp hPrevious] at hLast
        exact .inr fun hState => hChanged (hState.symm.trans (Option.some.inj hLast))
      · rw [List.append_nil]
        exact h.differs listener

/-! ## What is counted -/

def unfinished (source : ActivitySource) (handle : InternalHandle) : Bool := !handle.finished && handle.source = source

def Counted (signal : ActivitySignal) : Prop := ∀ source, signal.counts source = signal.handles.countP (unfinished source)

variable {id : Nat} {handle : InternalHandle}

theorem countP_set_of_getElem? {handles : List InternalHandle} (other : InternalHandle)
    (p : InternalHandle → Bool) (h : handles[id]? = some handle) : (handles.set id other).countP p + (if p handle then 1 else 0) =
      handles.countP p + if p other then 1 else 0 := by
  obtain ⟨hId, rfl⟩ := List.getElem?_eq_some_iff.mp h
  have hPositive : (if p handles[id] then 1 else 0) ≤ handles.countP p := by
    split
    · rename_i hHandle
      exact List.countP_pos_iff.mpr ⟨_, List.getElem_mem hId, hHandle⟩
    · exact Nat.zero_le _
  rw [List.countP_set hId]
  omega

theorem counted_ended (h : Counted signal)
    (hHandle : signal.handles[id]? = some handle) (hOpen : handle.finished = false) : Counted (ended id handle signal) := by
  intro source
  have hSet := countP_set_of_getElem? { handle with finished := true, timer := none } (unfinished source) hHandle
  have hEnded : unfinished source { handle with finished := true, timer := none } = false := rfl
  have hSource := h source
  rw [hEnded, if_neg Bool.false_ne_true] at hSet
  change Function.update signal.counts handle.source (signal.counts handle.source - 1) source = _
  by_cases hSame : source = handle.source
  · subst hSame
    rw [Function.update_self, hSource]
    rw [if_pos (by simp [unfinished, hOpen])] at hSet
    change _ = (signal.handles.set id _).countP _
    omega
  · rw [Function.update_of_ne hSame, hSource]
    rw [if_neg (by simp [unfinished, Ne.symm hSame])] at hSet
    exact hSet.symm

variable {source : ActivitySource}

theorem counted_listed {state : WorkState} {timer : Option Rat} (h : Counted signal) :
    Counted (listed ⟨source, false, timer⟩ { started source signal with lastState := state }) := by
  intro other
  change Function.update signal.counts source (signal.counts source + 1) other = (signal.handles ++ [_]).countP _
  rw [List.countP_append, List.countP_singleton, ← h other]
  by_cases hSame : other = source
  · subst hSame
    rw [Function.update_self, if_pos (by simp [unfinished])]
  · rw [Function.update_of_ne hSame, if_neg (by simp [unfinished, Ne.symm hSame]), Nat.add_zero]

structure Tracks (signal : ActivitySignal) (past : List Note) : Prop where
  counted : Counted signal
  settled : signal.lastState = signal.deriveState
  informed : Informed signal past

theorem tracks_emitIfChanged (hCounted : Counted signal) (h : Informed signal past) :
    Tracks (emitIfChanged signal).1 (past ++ (emitIfChanged signal).2) := by
  refine ⟨?_, ?_, informed_emitIfChanged signal past h⟩
  · rw [emitIfChanged_fst]
    exact hCounted
  · rw [emitIfChanged_fst]
    rfl

theorem tracks_finish (reason : FinishReason) (id : Nat) : Extends Tracks (finish reason id) := by
  intro signal past h
  unfold finish
  split
  · rw [List.append_nil]
    exact h
  · rename_i handle hHandle
    split
    · rw [List.append_nil]
      exact h
    · rename_i hOpen
      have hEnded : Tracks (emitIfChanged (ended id handle signal)).1 (past ++ (emitIfChanged (ended id handle signal)).2) :=
        tracks_emitIfChanged (counted_ended h.counted hHandle (Bool.eq_false_iff.mpr hOpen)) (h.informed.congr rfl rfl)
      by_cases hNormal : reason = .normal
      · rw [if_pos hNormal]
        change Tracks _ (past ++ ([] ++ (_ ++ [])))
        rw [List.append_nil, List.nil_append]
        exact hEnded
      · rw [if_neg hNormal]
        change Tracks _ (past ++ ([] ++ (_ ++ [_])))
        rw [List.nil_append, ← List.append_assoc]
        exact ⟨hEnded.counted, hEnded.settled, hEnded.informed.emit fun _ => rfl⟩

theorem tracks_start (source : ActivitySource) (maxAgeMs : Option Millis) : Extends Tracks (start source maxAgeMs) := by
  intro signal past h
  have hTold := informed_emitIfChanged (started source signal) past (h.informed.congr rfl rfl)
  change Tracks (listed _ (emitIfChanged (started source signal)).1) (past ++ ([] ++ (_ ++ [])))
  rw [List.append_nil, List.nil_append]
  rw [emitIfChanged_fst] at hTold ⊢
  exact ⟨counted_listed h.counted, rfl, hTold.congr rfl rfl⟩

theorem tracks_forceFinishAll : Extends Tracks forceFinishAll := by
  intro signal past h
  unfold forceFinishAll
  split
  · rw [List.append_nil]
    exact h
  · refine (extends_each fun id _ => tracks_finish .force id).andThen (fun ended past hEnded => ?_) signal past h
    exact ⟨hEnded.counted, hEnded.settled, hEnded.informed.emit fun _ => rfl⟩

theorem tracks_setBlocked (blocked : Bool) : Extends Tracks (setBlocked blocked) := by
  intro signal past h
  unfold setBlocked
  split
  · rw [List.append_nil]
    exact h
  · exact tracks_emitIfChanged h.counted (h.informed.congr rfl rfl)

theorem tracks_subscribe (listener : Nat) : Extends Tracks (subscribe listener) := by
  intro signal past h
  refine ⟨h.counted, h.settled, ?_, fun other hOther => ?_, fun other => ?_⟩
  · change (if listener ∈ signal.listeners then signal.listeners else signal.listeners ++ [listener]).Nodup
    split
    · exact h.informed.distinct
    · rename_i hNew
      exact List.nodup_append'.mpr ⟨h.informed.distinct, List.nodup_singleton _, List.disjoint_singleton.mpr hNew⟩
  · change other ∈ (if listener ∈ signal.listeners then signal.listeners else signal.listeners ++ [listener]) at hOther
    change (heard other (past ++ [.welcomed listener signal.deriveState])).getLast?.map Heard.state = some signal.lastState
    rw [heard_append]
    by_cases hSame : listener = other
    · subst hSame
      rw [show heard listener [.welcomed listener signal.deriveState] = [⟨signal.deriveState, true⟩] by simp [heard, Note.heardBy],
        List.getLast?_append, h.settled]
      rfl
    · rw [show heard other [.welcomed listener signal.deriveState] = [] by simp [heard, Note.heardBy, hSame], List.append_nil]
      refine h.informed.last other ?_
      split at hOther
      · exact hOther
      · exact (List.mem_append.mp hOther).resolve_right fun hNew => hSame (List.mem_singleton.mp hNew).symm
  · change (heard other (past ++ [.welcomed listener signal.deriveState])).IsChain Differs
    rw [heard_append]
    by_cases hSame : listener = other
    · subst hSame
      rw [show heard listener [.welcomed listener signal.deriveState] = [⟨signal.deriveState, true⟩] by simp [heard, Note.heardBy]]
      refine (h.informed.differs listener).append (List.isChain_singleton _) fun previous _ latest hLatest => ?_
      obtain rfl := Option.some.inj hLatest
      exact .inl rfl
    · rw [show heard other [.welcomed listener signal.deriveState] = [] by simp [heard, Note.heardBy, hSame], List.append_nil]
      exact h.informed.differs other

theorem tracks_unsubscribe (listener : Nat) : Extends Tracks (unsubscribe listener) := by
  refine extends_update fun signal past h => ⟨h.counted, h.settled, h.informed.distinct.erase listener, fun other hOther => ?_,
    h.informed.differs⟩
  exact h.informed.last other (List.mem_of_mem_erase hOther)

theorem tracks_action (call : Call) : Extends Tracks call.action := by
  cases call with
  | start source maxAgeMs => exact tracks_start source maxAgeMs
  | finish id => exact tracks_finish .normal id
  | timeout id =>
    intro signal past h
    change Tracks (timeout id signal).1 (past ++ (timeout id signal).2)
    unfold timeout
    split
    · exact tracks_finish .timeout id signal past h
    · rw [List.append_nil]
      exact h
  | forceFinishAll => exact tracks_forceFinishAll
  | setBlocked blocked => exact tracks_setBlocked blocked
  | subscribe listener => exact tracks_subscribe listener
  | unsubscribe listener => exact tracks_unsubscribe listener

/-! ## Every run -/

theorem totalCount_eq (signal : ActivitySignal) : signal.totalCount = signal.counts .turnActive + signal.counts .toolInflight := by
  simp [ActivitySignal.totalCount, ALL_SOURCES]

theorem Counted.totalCount_pos_iff (h : Counted signal) :
    signal.totalCount > 0 ↔ signal.handles.any (fun handle => !handle.finished) = true := by
  rw [totalCount_eq, h, h, gt_iff_lt, Nat.add_pos_iff_pos_or_pos, List.countP_pos_iff, List.countP_pos_iff, List.any_eq_true]
  constructor
  · rintro (⟨handle, hHandle, hOpen⟩ | ⟨handle, hHandle, hOpen⟩)
    · exact ⟨handle, hHandle, (Bool.and_eq_true_iff.mp hOpen).1⟩
    · exact ⟨handle, hHandle, (Bool.and_eq_true_iff.mp hOpen).1⟩
  · rintro ⟨handle, hHandle, hOpen⟩
    cases hSource : handle.source with
    | turnActive => exact .inl ⟨handle, hHandle, Bool.and_eq_true_iff.mpr ⟨hOpen, decide_eq_true hSource⟩⟩
    | toolInflight => exact .inr ⟨handle, hHandle, Bool.and_eq_true_iff.mpr ⟨hOpen, decide_eq_true hSource⟩⟩

theorem tracks_created : Tracks .created [] := ⟨fun source => by cases source <;> rfl, rfl, List.nodup_nil, nofun, fun _ => .nil⟩

def Open (source : ActivitySource) (signal : ActivitySignal) (id : Nat) : Prop := signal.handles[id]?.any (unfinished source) = true

theorem open_iff : Open source signal id ↔
    ∃ handle, signal.handles[id]? = some handle ∧ handle.finished = false ∧ handle.source = source := by
  unfold Open
  rw [Option.any_eq_true]
  simp only [unfinished, Bool.and_eq_true, Bool.not_eq_true', decide_eq_true_iff]

theorem handles_emitIfChanged (signal : ActivitySignal) : (emitIfChanged signal).1.handles = signal.handles := by
  rw [emitIfChanged_fst]

theorem handles_start (source : ActivitySource) (maxAgeMs : Option Millis) (signal : ActivitySignal) :
    (start source maxAgeMs signal).1.handles = signal.handles ++ [⟨source, false, timerOf (resolveMaxAge source maxAgeMs)⟩] := by
  change (emitIfChanged (started source signal)).1.handles ++ _ = _
  rw [handles_emitIfChanged]
  rfl

theorem open_start {source other : ActivitySource} {maxAgeMs : Option Millis} :
    Open other (start source maxAgeMs signal).1 id ↔ Open other signal id ∨ id = signal.handles.length ∧ source = other := by
  unfold Open
  rw [handles_start, List.getElem?_append]
  rcases Nat.lt_trichotomy id signal.handles.length with hBefore | rfl | hAfter
  · rw [if_pos hBefore]
    exact ⟨.inl, fun h => h.resolve_right fun hSame => Nat.ne_of_lt hBefore hSame.1⟩
  · rw [if_neg (Nat.lt_irrefl _), List.getElem?_eq_none (Nat.le_refl _), Nat.sub_self]
    simp [unfinished]
  · rw [if_neg (Nat.not_lt_of_gt hAfter), List.getElem?_eq_none (Nat.le_of_lt hAfter), List.getElem?_eq_none (Nat.sub_pos_of_lt hAfter)]
    simp [Nat.ne_of_gt hAfter]

theorem handles_finish (reason : FinishReason) (hHandle : signal.handles[id]? = some handle) (hOpen : handle.finished = false) :
    (finish reason id signal).1.handles = signal.handles.set id { handle with finished := true, timer := none } := by
  have hLast : ∀ signal : ActivitySignal, ((if reason = .normal then skip
      else emit (.handleAutoFinished handle.source reason) : Action) signal).1 = signal := by
    intro signal
    split <;> rfl
  unfold finish
  rw [hHandle]
  dsimp only
  rw [if_neg (Bool.eq_false_iff.mp hOpen)]
  change ((if reason = .normal then skip else emit (.handleAutoFinished handle.source reason) : Action)
    (emitIfChanged (ended id handle signal)).1).1.handles = _
  rw [hLast, handles_emitIfChanged]
  rfl

theorem length_finish (reason : FinishReason) (id : Nat) (signal : ActivitySignal) :
    (finish reason id signal).1.handles.length = signal.handles.length := by
  cases hHandle : signal.handles[id]? with
  | none => rw [finish, hHandle]
  | some handle =>
    cases hFinished : handle.finished with
    | true => rw [finish, hHandle]; dsimp only; rw [if_pos hFinished]
    | false => rw [handles_finish reason hHandle hFinished, List.length_set]

theorem length_each_finish (reason : FinishReason) (ids : List Nat) (signal : ActivitySignal) :
    (each ids (finish reason) signal).1.handles.length = signal.handles.length := by
  induction ids generalizing signal with
  | nil => rfl
  | cons id ids ih => exact (ih (finish reason id signal).1).trans (length_finish reason id signal)

theorem length_timeout (id : Nat) (signal : ActivitySignal) : (timeout id signal).1.handles.length = signal.handles.length := by
  unfold timeout
  split
  · exact length_finish .timeout id signal
  · rfl

theorem length_forceFinishAll (signal : ActivitySignal) : (forceFinishAll signal).1.handles.length = signal.handles.length := by
  unfold forceFinishAll
  split
  · rfl
  · exact length_each_finish .force _ signal

theorem open_finish {reason : FinishReason} {id other : Nat} :
    Open source (finish reason id signal).1 other ↔ Open source signal other ∧ other ≠ id := by
  have hKept : (finish reason id signal).1 = signal → ¬ Open source signal id →
      (Open source (finish reason id signal).1 other ↔ Open source signal other ∧ other ≠ id) := by
    intro hSame hClosed
    rw [hSame]
    exact ⟨fun hOpen => ⟨hOpen, fun hId => hClosed (hId ▸ hOpen)⟩, And.left⟩
  cases hHandle : signal.handles[id]? with
  | none =>
    refine hKept (by rw [finish, hHandle]) fun hOpen => ?_
    obtain ⟨handle, hSome, _⟩ := open_iff.mp hOpen
    rw [hHandle] at hSome
    cases hSome
  | some handle =>
    cases hFinished : handle.finished with
    | true =>
      refine hKept (by rw [finish, hHandle]; dsimp only; rw [if_pos hFinished]) fun hOpen => ?_
      obtain ⟨open', hSome, hNot, _⟩ := open_iff.mp hOpen
      rw [hHandle] at hSome
      obtain rfl := Option.some.inj hSome
      rw [hFinished] at hNot
      cases hNot
    | false =>
      unfold Open
      rw [handles_finish reason hHandle hFinished, List.getElem?_set]
      by_cases hId : id = other
      · subst hId
        rw [if_pos rfl]
        split <;> simp [unfinished]
      · rw [if_neg hId]
        exact ⟨fun hOpen => ⟨hOpen, Ne.symm hId⟩, And.left⟩

theorem open_each_finish {reason : FinishReason} {ids : List Nat} {other : Nat} :
    Open source (each ids (finish reason) signal).1 other ↔ Open source signal other ∧ other ∉ ids := by
  induction ids generalizing signal with
  | nil => exact ⟨fun hOpen => ⟨hOpen, List.not_mem_nil⟩, And.left⟩
  | cons id ids ih =>
    change Open source (each ids (finish reason) (finish reason id signal).1).1 other ↔ _
    rw [ih, open_finish, List.mem_cons, not_or, and_assoc]

theorem open_timeout {id other : Nat} (h : Open source (timeout id signal).1 other) : Open source signal other := by
  unfold timeout at h
  split at h
  · exact (open_finish.mp h).1
  · exact h

theorem open_forceFinishAll {other : Nat}
    (h : Open source (forceFinishAll signal).1 other) : Open source signal other := by
  unfold forceFinishAll at h
  split at h
  · exact h
  · exact (open_each_finish.mp h).1

theorem handles_setBlocked (next : Bool) (signal : ActivitySignal) : (setBlocked next signal).1.handles = signal.handles := by
  unfold setBlocked
  split
  · rfl
  · exact handles_emitIfChanged _

theorem not_idle_of_open (hCounted : Counted signal) (h : Open source signal id) : signal.deriveState ≠ .idle := by
  obtain ⟨handle, hHandle, hOpen, _⟩ := open_iff.mp h
  have hPositive : signal.totalCount > 0 :=
    hCounted.totalCount_pos_iff.mpr (List.any_eq_true.mpr ⟨handle, List.mem_of_getElem? hHandle, by rw [hOpen]; rfl⟩)
  unfold ActivitySignal.deriveState
  rw [if_pos hPositive]
  split <;> exact fun hIdle => nomatch hIdle

theorem idle_iff (h : Counted signal) :
    signal.deriveState = .idle ↔ signal.blocked = false ∧ ∀ source id, ¬ Open source signal id := by
  constructor
  · intro hIdle
    refine ⟨?_, fun source id hOpen => not_idle_of_open h hOpen hIdle⟩
    rw [← Bool.not_eq_true]
    intro hBlocked
    rw [ActivitySignal.deriveState, if_pos hBlocked] at hIdle
    cases hIdle
  · rintro ⟨hBlocked, hClosed⟩
    have hNone : ¬ signal.totalCount > 0 := by
      rw [h.totalCount_pos_iff, List.any_eq_true]
      rintro ⟨handle, hHandle, hOpen⟩
      obtain ⟨id, hId⟩ := List.mem_iff_getElem?.mp hHandle
      exact hClosed handle.source id (open_iff.mpr ⟨handle, hId, Bool.not_eq_true' _ ▸ hOpen, rfl⟩)
    rw [ActivitySignal.deriveState, hBlocked, if_neg Bool.false_ne_true, if_neg hNone]

theorem length_action_le (call : Call) (signal : ActivitySignal) : signal.handles.length ≤ (call.action signal).1.handles.length := by
  cases call with
  | start source maxAgeMs =>
    change _ ≤ (start source maxAgeMs signal).1.handles.length
    rw [handles_start, List.length_append]
    exact Nat.le_add_right _ _
  | finish id => exact (length_finish .normal id signal).ge
  | timeout id => exact (length_timeout id signal).ge
  | forceFinishAll => exact (length_forceFinishAll signal).ge
  | setBlocked next => exact (congrArg List.length (handles_setBlocked next signal)).ge
  | subscribe listener => exact Nat.le_refl _
  | unsubscribe listener => exact Nat.le_refl _

theorem open_action {call : Call} (h : Open source (call.action signal).1 id) : Open source signal id ∨ signal.handles.length ≤ id := by
  cases call with
  | start other maxAgeMs =>
    rcases open_start.mp h with hBefore | ⟨rfl, _⟩
    · exact .inl hBefore
    · exact .inr (Nat.le_refl _)
  | finish other => exact .inl (open_finish.mp h).1
  | timeout other => exact .inl (open_timeout h)
  | forceFinishAll => exact .inl (open_forceFinishAll h)
  | setBlocked next =>
    left
    unfold Open at h ⊢
    rwa [show (Call.setBlocked next).action signal = setBlocked next signal from rfl, handles_setBlocked] at h
  | subscribe listener => exact .inl h
  | unsubscribe listener => exact .inl h

/-! ## Who is told of idle -/

def Note.tellsIdle : Note → Bool
  | .welcomed _ state | .told _ state => state = .idle
  | .handleAutoFinished _ _ | .forceFinished _ => false

def IdleIfTold (signal : ActivitySignal) (past : List Note) : Prop := past.any Note.tellsIdle = true → signal.deriveState = .idle

theorem IdleIfTold.emit (h : IdleIfTold signal past) {note : Note}
    (hNote : note.tellsIdle = false) : IdleIfTold signal (past ++ [note]) := by
  intro hTold
  rw [List.any_append, List.any_cons, hNote, List.any_nil, Bool.or_false, Bool.or_false] at hTold
  exact h hTold

theorem idleIfTold_emitIfChanged : Extends IdleIfTold emitIfChanged := by
  intro signal past h hTold
  rw [emitIfChanged_fst]
  change signal.deriveState = .idle
  rw [List.any_append, Bool.or_eq_true] at hTold
  rcases hTold with hPast | hNow
  · exact h hPast
  · unfold emitIfChanged at hNow
    dsimp only at hNow
    split at hNow
    · cases hNow
    · obtain ⟨note, hNote, hIdle⟩ := List.any_eq_true.mp hNow
      obtain ⟨listener, _, rfl⟩ := List.mem_map.mp hNote
      exact of_decide_eq_true hIdle

theorem idle_ended (h : signal.deriveState = .idle) (id : Nat) (handle : InternalHandle) :
    (ended id handle signal).deriveState = .idle := by
  unfold ActivitySignal.deriveState at h ⊢
  change (if signal.blocked then WorkState.blocked else if (ended id handle signal).totalCount > 0 then .working else .idle) = .idle
  split at h
  · cases h
  · rename_i hBlocked
    rw [if_neg hBlocked]
    split at h
    · cases h
    · rename_i hNone
      rw [if_neg]
      have hLess : ∀ source, (ended id handle signal).counts source ≤ signal.counts source := by
        intro source
        change Function.update signal.counts handle.source (signal.counts handle.source - 1) source ≤ signal.counts source
        by_cases hSame : source = handle.source
        · subst hSame
          rw [Function.update_self]
          exact Nat.sub_le _ _
        · rw [Function.update_of_ne hSame]
      have hTurn := hLess .turnActive
      have hTool := hLess .toolInflight
      rw [totalCount_eq] at hNone ⊢
      omega

theorem idleIfTold_finish (reason : FinishReason) (id : Nat) : Extends IdleIfTold (finish reason id) := by
  intro signal past h
  unfold finish
  split
  · rw [List.append_nil]
    exact h
  · rename_i handle _
    split
    · rw [List.append_nil]
      exact h
    · refine Extends.andThen (J := IdleIfTold) (extends_update fun other past hOther hTold => ?_)
        (idleIfTold_emitIfChanged.andThen ?_) signal past h
      · exact idle_ended (hOther hTold) id handle
      · split
        · exact extends_skip
        · exact fun other past hOther => hOther.emit rfl

theorem idleIfTold_action (call : Call) (signal : ActivitySignal) : IdleIfTold (call.action signal).1 (call.action signal).2 := by
  have hNothing : ∀ signal, IdleIfTold signal [] := fun _ hTold => nomatch hTold
  cases call with
  | start source maxAgeMs =>
    have hTold := idleIfTold_emitIfChanged (started source signal) [] (hNothing _)
    change IdleIfTold (listed _ (emitIfChanged (started source signal)).1) ([] ++ ((emitIfChanged (started source signal)).2 ++ []))
    rw [List.append_nil]
    exact hTold
  | finish id => exact idleIfTold_finish .normal id signal [] (hNothing signal)
  | timeout id =>
    change IdleIfTold (timeout id signal).1 (timeout id signal).2
    unfold timeout
    split
    · exact idleIfTold_finish .timeout id signal [] (hNothing signal)
    · exact hNothing signal
  | forceFinishAll =>
    change IdleIfTold (forceFinishAll signal).1 (forceFinishAll signal).2
    unfold forceFinishAll
    split
    · exact hNothing signal
    · exact Extends.andThen (J := IdleIfTold) (extends_each fun id _ => idleIfTold_finish .force id)
        (fun other past hOther => hOther.emit rfl) signal [] (hNothing signal)
  | setBlocked next =>
    change IdleIfTold (setBlocked next signal).1 (setBlocked next signal).2
    unfold setBlocked
    split
    · exact hNothing signal
    · exact idleIfTold_emitIfChanged { signal with blocked := next } [] (hNothing _)
  | subscribe listener =>
    intro hTold
    change ((Note.welcomed listener signal.deriveState).tellsIdle || false) = true at hTold
    rw [Bool.or_false] at hTold
    exact of_decide_eq_true hTold
  | unsubscribe listener => exact hNothing _

end CommandSuite.Busy
