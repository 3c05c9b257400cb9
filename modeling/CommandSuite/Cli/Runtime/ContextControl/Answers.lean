import CommandSuite.Cli.Runtime.ContextControl
import Mathlib.Data.List.Nodup

/-! # Every control is answered once

What an action does to the coordinator, as a list of moves, and from it what a run keeps: where each call stands,
whose turn it is, and what has been reported.
-/

namespace CommandSuite.ContextControlCoordinator

open Library Forwarder Transcript

def Allowed (coordinator : ContextControlCoordinator) : ControlAction → Prop
  | .begin => coordinator.closed = true → ∀ call ∈ coordinator.waiting.head?, call.control.verb ≠ .compact
  | .gateRejects _ => ∀ call stage, coordinator.running = some (call, stage) →
      coordinator.bodies call = none ∨ ∃ error, coordinator.bodies call = some (.settled (some error))
  | _ => True

inductive Moves (c : ContextControlCoordinator) : List ControlEntry → ContextControlCoordinator → Prop where
  | skip : Moves c [] c
  | receive (call : ControlCall) (hNumber : call.number = c.received) :
      Moves c [.received call true] { c with received := c.received + 1, waiting := c.waiting ++ [call] }
  | refuse (call : ControlCall) (event : ActivityContextControl) (hNumber : call.number = c.received)
      (hId : event.requestId = call.control.requestId) :
      Moves c [.received call false, .reported call event, .returned call] { c with received := c.received + 1 }
  | close : Moves c [.closed] { c with closed := true }
  | ask (call : ControlCall) (rest : List ControlCall) (hook : ControlHook) (hFree : c.running = none)
      (hWaiting : c.waiting = call :: rest) (hOpen : c.closed = false) :
      Moves c [.began call, .started call hook] { c with waiting := rest, running := some (call, .compacting) }
  | enter (call : ControlCall) (rest : List ControlCall) (hFree : c.running = none) (hWaiting : c.waiting = call :: rest) :
      Moves c [.began call] { c with waiting := rest, running := some (call, .gating) }
  | answer (call : ControlCall) (stage : ControlStage) (event : ActivityContextControl) (hRunning : c.running = some (call, stage))
      (hBody : c.bodies call = none ∨ ∃ error, c.bodies call = some (.settled (some error)))
      (hId : event.requestId = call.control.requestId) : Moves c [.reported call event, .ended call] (finish call c)
  | finish (call : ControlCall) (hRunning : c.running = some (call, .gating)) (hBody : c.bodies call = some (.settled none)) :
      Moves c [.ended call] (finish call c)
  | called (call : ControlCall) (hRunning : c.running = some (call, .gating)) (hBody : c.bodies call = none) :
      Moves c [] (setBody call .idling c)
  | break (call : ControlCall) (before : GatedBody) (error : String) (hBody : c.bodies call = some before)
      (hLive : before.isLive = true) : Moves c [] (setBody call (.settled (some error)) c)
  | swap (call : ControlCall) (hook : ControlHook) (hBody : c.bodies call = some .idling) (hOpen : c.closed = false) :
      Moves c [.started call hook] (setBody call .swapping c)
  | report (call : ControlCall) (before : GatedBody) (event : ActivityContextControl) (hBody : c.bodies call = some before)
      (hLive : before.isLive = true) (hId : event.requestId = call.control.requestId) :
      Moves c [.reported call event] (setBody call (.settled none) c)
  | return (call : ControlCall) (hEnded : call ∈ c.ended) : Moves c [.returned call] { c with ended := c.ended.erase call }

def Housed (c : ContextControlCoordinator) : Prop := ∀ call body, c.bodies call = some body → c.running = some (call, .gating)

theorem ackAttempt_eq (now : Int) (call : ControlCall) (attempt : CompactAttempt) :
    ∃ event, ackAttempt now call attempt = .reported call event ∧ event.requestId = call.control.requestId := by
  cases attempt with
  | unsupported detail => exact ⟨_, rfl, rfl⟩
  | declined detail => exact ⟨_, rfl, rfl⟩
  | applied before after => cases before <;> cases after <;> exact ⟨_, rfl, rfl⟩

variable {c : ContextControlCoordinator}

theorem moves_apply (hHoused : Housed c) (now : Int) {action : ControlAction}
    (hAllowed : Allowed c action) : Moves c (apply c (now, action)).2 (apply c (now, action)).1 := by
  cases action with
  | handle control =>
    simp only [apply, handle]
    split
    · exact .refuse ⟨c.received, control⟩ _ rfl rfl
    · exact .receive ⟨c.received, control⟩ rfl
  | close => exact .close
  | begin =>
    simp only [apply, begin]
    split
    · rename_i call rest hFree hWaiting
      split
      · rename_i hCompact
        refine .ask call rest _ hFree hWaiting (Bool.eq_false_iff.mpr fun hClosed => ?_)
        exact hAllowed hClosed call (by rw [hWaiting]; rfl) hCompact
      · exact .enter call rest hFree hWaiting
    · exact .skip
  | compactSettles result =>
    simp only [apply, compactSettles]
    split
    · rename_i call hRunning
      have hBody : c.bodies call = none := by
        refine Option.eq_none_iff_forall_ne_some.mpr fun body hBody => ?_
        rw [hHoused call body hBody] at hRunning
        cases hRunning
      split
      · rename_i attempt
        obtain ⟨event, hEvent, hId⟩ := ackAttempt_eq now call attempt
        rw [hEvent]
        exact .answer call .compacting event hRunning (.inl hBody) hId
      · exact .answer call .compacting _ hRunning (.inl hBody) rfl
    · exact .skip
  | gateCalls =>
    simp only [apply, gateCalls]
    split
    · rename_i call hRunning
      split
      · rename_i hBody
        exact .called call hRunning hBody
      · exact .skip
    · exact .skip
  | gateSettles =>
    simp only [apply, gateSettles]
    split
    · rename_i call hRunning
      split
      · rename_i hBody
        exact .finish call hRunning hBody
      · rename_i error hBody
        exact .answer call .gating _ hRunning (.inr ⟨error, hBody⟩) rfl
      · exact .skip
    · exact .skip
  | gateRejects error =>
    simp only [apply, gateRejects]
    split
    · rename_i call hRunning
      exact .answer call .gating _ hRunning (hAllowed call .gating hRunning) rfl
    · exact .skip
  | idles call error =>
    simp only [apply, idles]
    split
    · rename_i hBody
      split
      · rename_i error
        exact .break call .idling error hBody rfl
      · split
        · exact .report call .idling _ hBody rfl rfl
        · rename_i hOpen
          exact .swap call _ hBody (Bool.eq_false_iff.mpr hOpen)
    · exact .skip
  | swapSettles call error =>
    simp only [apply, swapSettles]
    split
    · rename_i hBody
      split
      · rename_i error
        exact .break call .swapping error hBody rfl
      · exact .report call .swapping _ hBody rfl rfl
    · exact .skip
  | returns call =>
    simp only [apply, returns]
    split
    · rename_i hEnded
      exact .return call hEnded
    · exact .skip

/-! ## Bodies -/

variable {call : ControlCall}

theorem housed_setBody (h : Housed c) (hRunning : c.running = some (call, .gating))
    (body : GatedBody) : Housed (setBody call body c) := by
  intro other found hFound
  by_cases hOther : other = call
  · exact hOther ▸ hRunning
  · exact h other found (by rwa [bodies_setBody_of_ne hOther] at hFound)

theorem housed_finish (h : Housed c) {stage : ControlStage}
    (hRunning : c.running = some (call, stage)) (hBody : ∀ body, c.bodies call = some body → body.isLive = false) :
    Housed (finish call c) := by
  intro other found hFound
  obtain ⟨hFound, hKept⟩ := Option.filter_eq_some_iff.mp hFound
  have hOther := h other found hFound
  rw [hRunning] at hOther
  obtain ⟨rfl, -⟩ := Prod.mk.inj (Option.some.inj hOther)
  rw [hBody found hFound] at hKept
  simp at hKept

variable {c c' : ContextControlCoordinator} {entries : List ControlEntry}

theorem Moves.housed (h : Housed c) (hMoves : Moves c entries c') : Housed c' := by
  cases hMoves with
  | skip => exact h
  | receive call hNumber => exact h
  | refuse call event hNumber hId => exact h
  | close => exact h
  | ask call rest hook hFree hWaiting hOpen =>
    intro other body hBody
    have hOther := h other body hBody
    rw [hFree] at hOther
    cases hOther
  | enter call rest hFree hWaiting =>
    intro other body hBody
    have hOther := h other body hBody
    rw [hFree] at hOther
    cases hOther
  | answer call stage event hRunning hBody hId =>
    refine housed_finish h hRunning fun body hFound => ?_
    obtain hNone | ⟨error, hSettled⟩ := hBody
    · rw [hNone] at hFound
      cases hFound
    · rw [hSettled] at hFound
      cases hFound
      rfl
  | finish call hRunning hBody =>
    refine housed_finish h hRunning fun body hFound => ?_
    rw [hBody] at hFound
    cases hFound
    rfl
  | called call hRunning hBody => exact housed_setBody h hRunning _
  | «break» call before error hBody hLive => exact housed_setBody h (h call before hBody) _
  | swap call hook hBody hOpen => exact housed_setBody h (h call _ hBody) _
  | report call before event hBody hLive hId => exact housed_setBody h (h call before hBody) _
  | «return» call hEnded => exact h

/-! ## Whose turn it is -/

theorem Moves.serial (h : Housed c) (hMoves : Moves c entries c') :
    entries.foldlM track (c.running.map Prod.fst) = some (c'.running.map Prod.fst) := by
  cases hMoves with
  | skip => rfl
  | receive call hNumber => rfl
  | refuse call event hNumber hId => rfl
  | close => rfl
  | ask call rest hook hFree hWaiting hOpen =>
    rw [hFree, List.foldlM_cons, Option.map_none, track, if_pos rfl, Option.bind_eq_bind, Option.bind_some, List.foldlM_cons, track,
      if_pos rfl]
    rfl
  | enter call rest hFree hWaiting => rw [hFree, List.foldlM_cons, Option.map_none, track, if_pos rfl]; rfl
  | answer call stage event hRunning hBody hId =>
    rw [hRunning, List.foldlM_cons, track, Option.bind_eq_bind, Option.bind_some, List.foldlM_cons, Option.map_some, track, if_pos rfl]
    · rfl
    all_goals exact nofun
  | finish call hRunning hBody =>
    rw [hRunning, List.foldlM_cons, Option.map_some, track, if_pos rfl]
    rfl
  | called call hRunning hBody => rfl
  | «break» call before error hBody hLive => rfl
  | swap call hook hBody hOpen =>
    have hRunning := h call _ hBody
    rw [List.foldlM_cons, hRunning, Option.map_some, track, if_pos rfl]
    exact congrArg some (congrArg (Option.map Prod.fst) hRunning.symm)
  | report call before event hBody hLive hId => rfl
  | «return» call hEnded => rfl

/-! ## Closing -/

variable {log entries : List ControlEntry}

theorem nothingStartedAfterClose_append (h : NothingStartedAfterClose log)
    (hClosed : .closed ∈ log → ∀ call hook, .started call hook ∉ entries)
    (hEntries : NothingStartedAfterClose entries) : NothingStartedAfterClose (log ++ entries) := by
  intro before after hSplit call hook hStarted
  obtain ⟨middle, -, hRest⟩ | ⟨middle, hLog, hRest⟩ := List.append_eq_append_iff.mp hSplit
  · exact hEntries middle after hRest call hook hStarted
  · cases middle with
    | nil => exact hEntries [] after hRest.symm call hook hStarted
    | cons entry middle =>
      obtain ⟨rfl, rfl⟩ := List.cons.inj hRest
      obtain hMiddle | hNew := List.mem_append.mp hStarted
      · exact h before middle hLog call hook hMiddle
      · exact hClosed (by rw [hLog]; exact List.mem_append_right _ List.mem_cons_self) call hook hNew

theorem nothingStartedAfterClose_of_not_mem {entries : List ControlEntry} (h : .closed ∉ entries) : NothingStartedAfterClose entries := by
  intro before after hSplit
  rw [hSplit] at h
  exact absurd (List.mem_append_right _ List.mem_cons_self) h

def Closes (c : ContextControlCoordinator) (log : List ControlEntry) : Prop :=
  (.closed ∈ log → c.closed = true) ∧ NothingStartedAfterClose log

theorem Closes.append (h : Closes c log)
    (hSame : c'.closed = c.closed) (hEntries : .closed ∉ entries)
    (hStarted : c.closed = true → ∀ call hook, .started call hook ∉ entries) : Closes c' (log ++ entries) := by
  refine ⟨fun hClosed => ?_, nothingStartedAfterClose_append h.2 (fun hClosed => hStarted (h.1 hClosed))
    (nothingStartedAfterClose_of_not_mem hEntries)⟩
  obtain hLog | hNew := List.mem_append.mp hClosed
  · rw [hSame, h.1 hLog]
  · exact absurd hNew hEntries

theorem Moves.closes (h : Closes c log)
    (hMoves : Moves c entries c') : Closes c' (log ++ entries) := by
  cases hMoves with
  | skip => exact h.append rfl (by simp) (by simp)
  | receive call hNumber => exact h.append rfl (by simp) (by simp)
  | refuse call event hNumber hId => exact h.append rfl (by simp) (by simp)
  | close =>
    refine ⟨fun _ => rfl, nothingStartedAfterClose_append h.2 (by simp) fun before after hSplit => ?_⟩
    obtain ⟨rfl, hRest⟩ | ⟨middle, rfl, hRest⟩ := List.cons_eq_append_iff.mp hSplit
    · obtain ⟨-, rfl⟩ := List.cons.inj hRest
      exact nofun
    · simp at hRest
  | ask call rest hook hFree hWaiting hOpen => exact h.append rfl (by simp) (by simp [hOpen])
  | enter call rest hFree hWaiting => exact h.append rfl (by simp) (by simp)
  | answer call stage event hRunning hBody hId => exact h.append rfl (by simp) (by simp)
  | finish call hRunning hBody => exact h.append rfl (by simp) (by simp)
  | called call hRunning hBody => exact h.append rfl (by simp) (by simp)
  | «break» call before error hBody hLive => exact h.append rfl (by simp) (by simp)
  | swap call hook hBody hOpen => exact h.append rfl (by simp) (by simp [hOpen])
  | report call before event hBody hLive hId => exact h.append rfl (by simp) (by simp)
  | «return» call hEnded => exact h.append rfl (by simp) (by simp)

/-! ## Places -/

def receivedOf (log : List ControlEntry) : List ControlCall := log.filterMap fun
  | .received call _ => some call
  | _ => none

def returnedOf (log : List ControlEntry) : List ControlCall := log.filterMap fun
  | .returned call => some call
  | _ => none

def current (c : ContextControlCoordinator) : List ControlCall := (c.running.map Prod.fst).toList

/-- Every call that was received stands in one place, and those that were queued have begun in order or are waiting. -/
structure Placed (c : ContextControlCoordinator) (log : List ControlEntry) : Prop where
  numbered : ∀ call ∈ receivedOf log, call.number < c.received
  distinct : (receivedOf log).Nodup
  places : (c.waiting ++ current c ++ c.ended ++ returnedOf log).Perm (receivedOf log)
  inOrder : begunOf log ++ c.waiting = queuedOf log

section Placed

variable {c c' : ContextControlCoordinator} {log entries : List ControlEntry}

theorem Placed.move (h : Placed c log) (hReceived : c'.received = c.received) (hEntries : receivedOf entries = [])
    (hQueued : queuedOf entries = [])
    (hPlaces : (c'.waiting ++ current c' ++ c'.ended ++ returnedOf entries).Perm (c.waiting ++ current c ++ c.ended))
    (hOrder : begunOf entries ++ c'.waiting = c.waiting) : Placed c' (log ++ entries) := by
  have hSame : receivedOf (log ++ entries) = receivedOf log := by
    rw [receivedOf, List.filterMap_append, ← receivedOf, ← receivedOf, hEntries, List.append_nil]
  constructor
  · rw [hSame, hReceived]
    exact h.numbered
  · rw [hSame]
    exact h.distinct
  · rw [hSame, returnedOf, List.filterMap_append, ← returnedOf, ← returnedOf]
    refine (List.Perm.trans ?_ (hPlaces.append_right _)).trans h.places
    rw [List.append_assoc _ (returnedOf entries)]
    exact List.perm_append_comm.append_left _
  · rw [begunOf, queuedOf, List.filterMap_append, List.filterMap_append, ← begunOf, ← begunOf, ← queuedOf, ← queuedOf, hQueued,
      List.append_nil, List.append_assoc, hOrder, h.inOrder]

theorem Placed.stay (h : Placed c log) (hReceived : c'.received = c.received) (hWaiting : c'.waiting = c.waiting)
    (hRunning : c'.running = c.running) (hEnded : c'.ended = c.ended)
    (hEntries : receivedOf entries = [] ∧ queuedOf entries = [] ∧ returnedOf entries = [] ∧ begunOf entries = []) :
    Placed c' (log ++ entries) := by
  refine h.move hReceived hEntries.1 hEntries.2.1 ?_ ?_
  · rw [hEntries.2.2.1, List.append_nil, hWaiting, current, hRunning, hEnded]
    exact .refl _
  · rw [hEntries.2.2.2, List.nil_append, hWaiting]

variable {call : ControlCall}

theorem Placed.arrive (h : Placed c log) (hNumber : call.number = c.received)
    (hReceived : c'.received = c.received + 1) (hEntries : receivedOf entries = [call])
    (hPlaces : (c'.waiting ++ current c' ++ c'.ended ++ returnedOf entries).Perm (c.waiting ++ current c ++ c.ended ++ [call]))
    (hOrder : begunOf entries = []) (hQueued : c'.waiting = c.waiting ++ queuedOf entries) : Placed c' (log ++ entries) := by
  have hNew : receivedOf (log ++ entries) = receivedOf log ++ [call] := by
    rw [receivedOf, List.filterMap_append, ← receivedOf, ← receivedOf, hEntries]
  constructor
  · rw [hNew, hReceived]
    intro other hOther
    obtain hOld | hLast := List.mem_append.mp hOther
    · exact Nat.lt_succ_of_lt (h.numbered other hOld)
    · rw [List.mem_singleton.mp hLast, hNumber]
      exact Nat.lt_succ_self _
  · rw [hNew]
    refine List.nodup_append.mpr ⟨h.distinct, List.nodup_singleton _, fun other hOther last hLast hSame => ?_⟩
    have hOld := h.numbered other hOther
    rw [hSame, List.mem_singleton.mp hLast, hNumber] at hOld
    exact absurd hOld (Nat.lt_irrefl _)
  · rw [hNew, returnedOf, List.filterMap_append, ← returnedOf, ← returnedOf]
    refine List.Perm.trans ?_ (h.places.append_right [call])
    rw [List.append_assoc _ (returnedOf log)]
    refine List.Perm.trans (List.perm_append_comm.append_left _) ?_
    rw [← List.append_assoc]
    refine (hPlaces.append_right _).trans ?_
    rw [List.append_assoc _ [call]]
    exact (List.perm_append_comm.append_left _).trans (by rw [List.append_assoc])
  · rw [begunOf, queuedOf, List.filterMap_append, List.filterMap_append, ← begunOf, ← begunOf, ← queuedOf, ← queuedOf, hOrder,
      List.append_nil, hQueued, ← List.append_assoc, h.inOrder]

theorem Placed.begin (h : Placed c log) {rest : List ControlCall} (hFree : c.running = none)
    (hWaiting : c.waiting = call :: rest) (stage : ControlStage)
    (hEntries : receivedOf entries = [] ∧ queuedOf entries = [] ∧ returnedOf entries = [] ∧ begunOf entries = [call]) :
    Placed { c with waiting := rest, running := some (call, stage) } (log ++ entries) := by
  refine h.move rfl hEntries.1 hEntries.2.1 ?_ ?_
  · rw [hEntries.2.2.1, hWaiting, current, current, hFree, List.append_nil]
    change (rest ++ [call] ++ c.ended).Perm (call :: rest ++ [] ++ c.ended)
    rw [List.append_nil]
    exact (List.perm_append_singleton call rest).append_right _
  · rw [hEntries.2.2.2, hWaiting]
    rfl

theorem Placed.finish (h : Placed c log) {stage : ControlStage} (hRunning : c.running = some (call, stage))
    (hEntries : receivedOf entries = [] ∧ queuedOf entries = [] ∧ returnedOf entries = [] ∧ begunOf entries = []) :
    Placed (finish call c) (log ++ entries) := by
  refine h.move rfl hEntries.1 hEntries.2.1 ?_ ?_
  · rw [hEntries.2.2.1, current, current, hRunning, List.append_nil]
    change (c.waiting ++ [] ++ (c.ended ++ [call])).Perm (c.waiting ++ [call] ++ c.ended)
    rw [List.append_nil, List.append_assoc]
    exact List.perm_append_comm.append_left _
  · rw [hEntries.2.2.2]
    rfl

theorem Moves.placed (h : Placed c log) (hMoves : Moves c entries c') : Placed c' (log ++ entries) := by
  cases hMoves with
  | skip => exact h.stay rfl rfl rfl rfl ⟨rfl, rfl, rfl, rfl⟩
  | receive call hNumber =>
    refine h.arrive hNumber rfl rfl ?_ rfl rfl
    change (c.waiting ++ [call] ++ current c ++ c.ended ++ []).Perm (c.waiting ++ current c ++ c.ended ++ [call])
    rw [List.append_nil, List.append_assoc c.waiting, List.append_assoc c.waiting, List.append_assoc c.waiting,
      List.append_assoc c.waiting, List.append_assoc [call]]
    exact List.perm_append_comm.append_left _
  | refuse call event hNumber hId => exact h.arrive hNumber rfl rfl (.refl _) rfl (List.append_nil _).symm
  | close => exact h.stay rfl rfl rfl rfl ⟨rfl, rfl, rfl, rfl⟩
  | ask call rest hook hFree hWaiting hOpen => exact h.begin hFree hWaiting _ ⟨rfl, rfl, rfl, rfl⟩
  | enter call rest hFree hWaiting => exact h.begin hFree hWaiting _ ⟨rfl, rfl, rfl, rfl⟩
  | answer call stage event hRunning hBody hId => exact h.finish hRunning ⟨rfl, rfl, rfl, rfl⟩
  | finish call hRunning hBody => exact h.finish hRunning ⟨rfl, rfl, rfl, rfl⟩
  | called call hRunning hBody => exact h.stay rfl rfl rfl rfl ⟨rfl, rfl, rfl, rfl⟩
  | «break» call before error hBody hLive => exact h.stay rfl rfl rfl rfl ⟨rfl, rfl, rfl, rfl⟩
  | swap call hook hBody hOpen => exact h.stay rfl rfl rfl rfl ⟨rfl, rfl, rfl, rfl⟩
  | report call before event hBody hLive hId => exact h.stay rfl rfl rfl rfl ⟨rfl, rfl, rfl, rfl⟩
  | «return» call hEnded =>
    refine h.move rfl rfl rfl ?_ rfl
    change (c.waiting ++ current c ++ c.ended.erase call ++ [call]).Perm (c.waiting ++ current c ++ c.ended)
    rw [List.append_assoc _ _ [call]]
    exact ((List.perm_append_singleton _ _).trans (List.perm_cons_erase hEnded).symm).append_left _

end Placed

/-! ## Reports -/

def Owes (c : ContextControlCoordinator) (call : ControlCall) : Prop :=
  call ∈ c.waiting ∨ (call ∈ current c ∧ c.bodies call ≠ some (.settled none))

structure Reported (c : ContextControlCoordinator) (log : List ControlEntry) : Prop where
  silent : ∀ call, call ∉ receivedOf log ∨ Owes c call → reportsOf call log = []
  answered : ∀ call ∈ receivedOf log, ¬ Owes c call → ∃ event, reportsOf call log = [event] ∧ event.requestId = call.control.requestId

section Reported

variable {c c' : ContextControlCoordinator} {log entries : List ControlEntry}

theorem reportsOf_append (call : ControlCall) (log entries : List ControlEntry) :
    reportsOf call (log ++ entries) = reportsOf call log ++ reportsOf call entries := List.filterMap_append

theorem receivedOf_append (log entries : List ControlEntry) : receivedOf (log ++ entries) = receivedOf log ++ receivedOf entries :=
  List.filterMap_append

theorem reportsOf_of_ne {call other : ControlCall} (h : other ≠ call) (event : ActivityContextControl) (rest : List ControlEntry) :
    reportsOf other (.reported call event :: rest) = reportsOf other rest := by
  rw [reportsOf, List.filterMap_cons_none, reportsOf]
  exact if_neg fun hSame => h hSame.symm

theorem reportsOf_self (call : ControlCall) (event : ActivityContextControl) (rest : List ControlEntry) :
    reportsOf call (.reported call event :: rest) = event :: reportsOf call rest := by
  simp only [reportsOf, List.filterMap_cons, if_pos]

theorem Reported.stay (h : Reported c log) (hReceived : receivedOf entries = []) (hReports : ∀ call, reportsOf call entries = [])
    (hOwes : ∀ call, Owes c' call ↔ Owes c call) : Reported c' (log ++ entries) := by
  constructor
  · intro call hCall
    rw [receivedOf_append, hReceived, List.append_nil, hOwes] at hCall
    rw [reportsOf_append, hReports, List.append_nil, h.silent call hCall]
  · intro call hCall hDone
    rw [receivedOf_append, hReceived, List.append_nil] at hCall
    rw [hOwes] at hDone
    rw [reportsOf_append, hReports, List.append_nil]
    exact h.answered call hCall hDone

variable {call : ControlCall}

theorem Reported.answer (h : Reported c log) {event : ActivityContextControl}
    (hReceived : receivedOf entries = []) (hKnown : call ∈ receivedOf log) (hOwed : Owes c call) (hAnswered : ¬ Owes c' call)
    (hOthers : ∀ other, other ≠ call → (Owes c' other ↔ Owes c other)) (hReport : reportsOf call entries = [event])
    (hNoOther : ∀ other, other ≠ call → reportsOf other entries = []) (hId : event.requestId = call.control.requestId) :
    Reported c' (log ++ entries) := by
  constructor
  · intro other hOther
    rw [receivedOf_append, hReceived, List.append_nil] at hOther
    by_cases hCall : other = call
    · subst hCall
      obtain hNew | hOwes := hOther
      · exact absurd hKnown hNew
      · exact absurd hOwes hAnswered
    · rw [hOthers other hCall] at hOther
      rw [reportsOf_append, hNoOther other hCall, List.append_nil, h.silent other hOther]
  · intro other hOther hDone
    rw [receivedOf_append, hReceived, List.append_nil] at hOther
    by_cases hCall : other = call
    · subst hCall
      exact ⟨event, by rw [reportsOf_append, h.silent other (.inr hOwed), hReport, List.nil_append], hId⟩
    · rw [hOthers other hCall] at hDone
      rw [reportsOf_append, hNoOther other hCall, List.append_nil]
      exact h.answered other hOther hDone

theorem Reported.arrive (h : Reported c log) (hNew : call ∉ receivedOf log)
    (hReceived : receivedOf entries = [call]) (hOthers : ∀ other, other ≠ call → (Owes c' other ↔ Owes c other))
    (hNoOther : ∀ other, other ≠ call → reportsOf other entries = [])
    (hCall : Owes c' call ∧ reportsOf call entries = [] ∨
      ¬ Owes c' call ∧ ∃ event, reportsOf call entries = [event] ∧ event.requestId = call.control.requestId) :
    Reported c' (log ++ entries) := by
  have hBefore := h.silent call (.inl hNew)
  constructor
  · intro other hOther
    rw [receivedOf_append, hReceived, List.mem_append, List.mem_singleton] at hOther
    by_cases hSame : other = call
    · subst hSame
      obtain ⟨-, hNone⟩ | ⟨hDone, -⟩ := hCall
      · rw [reportsOf_append, hBefore, hNone, List.append_nil]
      · obtain hUnknown | hOwes := hOther
        · exact absurd (.inr rfl) hUnknown
        · exact absurd hOwes hDone
    · rw [hOthers other hSame, or_iff_left hSame] at hOther
      rw [reportsOf_append, hNoOther other hSame, List.append_nil, h.silent other hOther]
  · intro other hOther hDone
    rw [receivedOf_append, hReceived, List.mem_append, List.mem_singleton] at hOther
    by_cases hSame : other = call
    · subst hSame
      obtain ⟨hOwes, -⟩ | ⟨-, event, hEvent, hId⟩ := hCall
      · exact absurd hOwes hDone
      · exact ⟨event, by rw [reportsOf_append, hBefore, hEvent, List.nil_append], hId⟩
    · rw [hOthers other hSame] at hDone
      rw [reportsOf_append, hNoOther other hSame, List.append_nil]
      exact h.answered other ((or_iff_left hSame).mp hOther) hDone

theorem Placed.mem_received (h : Placed c log) (hCall : call ∈ c.waiting ∨ call ∈ current c) : call ∈ receivedOf log := by
  refine h.places.subset ?_
  rw [List.append_assoc, List.append_assoc, List.mem_append, List.mem_append]
  exact hCall.imp_right .inl

theorem Placed.not_waiting (h : Placed c log) (hCall : call ∈ current c) : call ∉ c.waiting := by
  have hNodup := h.places.nodup_iff.mpr h.distinct
  rw [List.append_assoc, List.append_assoc] at hNodup
  exact fun hWaiting => (List.nodup_append.mp hNodup).2.2 call hWaiting call (List.mem_append_left _ hCall) rfl

theorem Placed.is_new (h : Placed c log) (hNumber : call.number = c.received) : call ∉ receivedOf log := by
  intro hKnown
  have hOld := h.numbered call hKnown
  rw [hNumber] at hOld
  exact Nat.lt_irrefl _ hOld

variable {stage : ControlStage}

theorem mem_current_of_running (h : c.running = some (call, stage)) : current c = [call] := by
  rw [current, h]
  rfl

theorem owes_setBody {body : GatedBody} (hBefore : c.bodies call ≠ some (.settled none))
    (hBody : body ≠ .settled none) (other : ControlCall) : Owes (setBody call body c) other ↔ Owes c other := by
  refine or_congr Iff.rfl (and_congr Iff.rfl ?_)
  by_cases hSame : other = call
  · subst hSame
    rw [bodies_setBody_self]
    exact iff_of_true (fun hOver => hBody (Option.some.inj hOver)) hBefore
  · rw [bodies_setBody_of_ne hSame]

theorem owes_begin {rest : List ControlCall} (hHoused : Housed c) (hFree : c.running = none)
    (hWaiting : c.waiting = call :: rest) (stage : ControlStage) (other : ControlCall) :
    Owes { c with waiting := rest, running := some (call, stage) } other ↔ Owes c other := by
  have hNoBody : c.bodies call ≠ some (.settled none) := by
    intro hBody
    have hRunning := hHoused call _ hBody
    rw [hFree] at hRunning
    cases hRunning
  unfold Owes
  rw [hWaiting, current, current, hFree, List.mem_cons]
  constructor
  · rintro (hRest | ⟨hCurrent, -⟩)
    · exact .inl (.inr hRest)
    · exact .inl (.inl (List.mem_singleton.mp hCurrent))
  · rintro ((rfl | hRest) | ⟨hCurrent, -⟩)
    · exact .inr ⟨List.mem_singleton_self _, hNoBody⟩
    · exact .inl hRest
    · cases hCurrent

theorem owes_finish (call other : ControlCall) : Owes (ContextControlCoordinator.finish call c) other ↔ other ∈ c.waiting := by
  constructor
  · rintro (hWaiting | ⟨hCurrent, -⟩)
    · exact hWaiting
    · cases hCurrent
  · exact .inl

theorem owes_of_ne {call other : ControlCall} (hRunning : c.running = some (call, stage)) (h : other ≠ call) :
    Owes c other ↔ other ∈ c.waiting := by
  unfold Owes
  rw [mem_current_of_running hRunning, List.mem_singleton]
  exact or_iff_left fun hSame => h hSame.1

theorem Moves.reported (h : Reported c log) (hPlaced : Placed c log) (hHoused : Housed c) (hMoves : Moves c entries c') :
    Reported c' (log ++ entries) := by
  cases hMoves with
  | skip => exact h.stay rfl (fun _ => rfl) fun _ => Iff.rfl
  | receive call hNumber =>
    refine h.arrive (hPlaced.is_new hNumber) rfl (fun other hOther => ?_) (fun _ _ => rfl)
      (.inl ⟨.inl (List.mem_append_right _ (List.mem_singleton_self call)), rfl⟩)
    refine or_congr ?_ Iff.rfl
    rw [List.mem_append, List.mem_singleton, or_iff_left hOther]
  | refuse call event hNumber hId =>
    have hNew := hPlaced.is_new hNumber
    refine h.arrive hNew rfl (fun _ _ => Iff.rfl) (fun other hOther => ?_) (.inr ⟨?_, event, reportsOf_self call event _, hId⟩)
    · exact reportsOf_of_ne hOther event _
    · exact fun hOwes => hNew (hPlaced.mem_received (hOwes.imp_right And.left))
  | close => exact h.stay rfl (fun _ => rfl) fun _ => Iff.rfl
  | ask call rest hook hFree hWaiting hOpen => exact h.stay rfl (fun _ => rfl) (owes_begin hHoused hFree hWaiting _)
  | enter call rest hFree hWaiting => exact h.stay rfl (fun _ => rfl) (owes_begin hHoused hFree hWaiting _)
  | answer call stage event hRunning hBody hId =>
    have hCurrent : call ∈ current c := by rw [mem_current_of_running hRunning]; exact List.mem_singleton_self call
    have hOwes : Owes c call := by
      refine .inr ⟨hCurrent, fun hOver => ?_⟩
      obtain hNone | ⟨error, hFailed⟩ := hBody
      · rw [hNone] at hOver
        cases hOver
      · rw [hFailed] at hOver
        cases hOver
    refine h.answer rfl (hPlaced.mem_received (.inr hCurrent)) hOwes ?_ (fun other hOther => ?_) (reportsOf_self call event _)
      (fun other hOther => reportsOf_of_ne hOther event _) hId
    · rw [owes_finish]
      exact hPlaced.not_waiting hCurrent
    · rw [owes_finish, owes_of_ne hRunning hOther]
  | finish call hRunning hBody =>
    refine h.stay rfl (fun _ => rfl) fun other => ?_
    by_cases hSame : other = call
    · subst hSame
      have hCurrent : other ∈ current c := by rw [mem_current_of_running hRunning]; exact List.mem_singleton_self other
      rw [owes_finish]
      exact iff_of_false (hPlaced.not_waiting hCurrent) fun hOwes =>
        hOwes.elim (hPlaced.not_waiting hCurrent) fun hOpen => hOpen.2 hBody
    · rw [owes_finish, owes_of_ne hRunning hSame]
  | called call hRunning hBody => exact h.stay rfl (fun _ => rfl) (owes_setBody (by rw [hBody]; exact nofun) nofun)
  | «break» call before error hBody hLive =>
    refine h.stay rfl (fun _ => rfl) (owes_setBody (fun hOver => ?_) nofun)
    rw [hBody] at hOver
    cases hOver
    cases hLive
  | swap call hook hBody hOpen => exact h.stay rfl (fun _ => rfl) (owes_setBody (by rw [hBody]; exact nofun) nofun)
  | report call before event hBody hLive hId =>
    have hRunning := hHoused call before hBody
    have hCurrent : call ∈ current c := by rw [mem_current_of_running hRunning]; exact List.mem_singleton_self call
    have hOwes : Owes c call := by
      refine .inr ⟨hCurrent, fun hOver => ?_⟩
      rw [hBody] at hOver
      cases hOver
      cases hLive
    refine h.answer rfl (hPlaced.mem_received (.inr hCurrent)) hOwes ?_ (fun other hOther => ?_) (reportsOf_self call event [])
      (fun other hOther => reportsOf_of_ne hOther event []) hId
    · rintro (hWaiting | ⟨-, hOpen⟩)
      · exact hPlaced.not_waiting hCurrent hWaiting
      · exact hOpen (bodies_setBody_self call _ c)
    · rw [owes_of_ne hRunning hOther]
      exact owes_of_ne (c := setBody call (.settled none) c) hRunning hOther
  | «return» call hEnded => exact h.stay rfl (fun _ => rfl) fun _ => Iff.rfl

end Reported

/-! ## Runs -/

structure Sound (c : ContextControlCoordinator) (log : List ControlEntry) : Prop where
  housed : Housed c
  serial : log.foldlM track none = some (c.running.map Prod.fst)
  closes : Closes c log
  placed : Placed c log
  reported : Reported c log

theorem sound_create : Sound create [] where
  housed := nofun
  serial := rfl
  closes := ⟨nofun, nothingStartedAfterClose_of_not_mem List.not_mem_nil⟩
  placed := ⟨nofun, List.nodup_nil, .refl _, rfl⟩
  reported := ⟨fun _ _ => rfl, nofun⟩

theorem Sound.step {c : ContextControlCoordinator} {log : List ControlEntry} (h : Sound c log) {input : Int × ControlAction}
    (hAllowed : Allowed c input.2) :
    Sound (apply c input).1 (log ++ (apply c input).2) := by
  have hMoves := moves_apply h.housed input.1 hAllowed
  refine ⟨hMoves.housed h.housed, ?_, hMoves.closes h.closes, hMoves.placed h.placed,
    hMoves.reported h.reported h.placed h.housed⟩
  rw [List.foldlM_append, h.serial]
  exact hMoves.serial h.housed

theorem sound_run {actions : List (Int × ControlAction)}
    (hAllowed : ∀ step ∈ run apply create actions, Allowed step.before step.input.2) :
    Sound (final apply create actions) (logOf actions) := by
  have hRun := final_history_when (J := Sound) (C := fun c (input : Int × ControlAction) => Allowed c input.2)
    (fun _ _ _ hStep h => h.step hStep) sound_create hAllowed
  rwa [List.nil_append] at hRun

section Outcome

variable {c : ContextControlCoordinator} {log : List ControlEntry} {call : ControlCall}

theorem mem_receivedOf : call ∈ receivedOf log ↔ ∃ queued, .received call queued ∈ log := by
  simp only [receivedOf, List.mem_filterMap]
  constructor
  · rintro ⟨entry, hEntry, hCall⟩
    split at hCall
    · rename_i queued
      cases hCall
      exact ⟨queued, hEntry⟩
    · cases hCall
  · rintro ⟨queued, hEntry⟩
    exact ⟨_, hEntry, rfl⟩

theorem mem_returnedOf : call ∈ returnedOf log ↔ .returned call ∈ log := by
  simp only [returnedOf, List.mem_filterMap]
  constructor
  · rintro ⟨entry, hEntry, hCall⟩
    split at hCall
    · cases hCall
      exact hEntry
    · cases hCall
  · exact fun hEntry => ⟨_, hEntry, rfl⟩

theorem Sound.answered (h : Sound c log) (hReturned : .returned call ∈ log) :
    ∃ event, reportsOf call log = [event] ∧ event.requestId = call.control.requestId := by
  have hPlace := mem_returnedOf.mpr hReturned
  refine h.reported.answered call (h.placed.places.subset (List.mem_append_right _ hPlace)) fun hOwes => ?_
  have hNodup := h.placed.places.nodup_iff.mpr h.placed.distinct
  refine (List.nodup_append.mp hNodup).2.2 call ?_ call hPlace rfl
  rw [List.append_assoc, List.mem_append, List.mem_append]
  exact hOwes.imp_right fun hCurrent => .inl hCurrent.1

theorem running_of_quiescent (hQuiet : Quiescent c) : c.running = none := by
  refine Option.eq_none_iff_forall_ne_some.mpr fun ⟨call, stage⟩ hRunning => ?_
  cases stage with
  | compacting =>
    have hSettles := congrArg Prod.snd (hQuiet 0 (.compactSettles (.error "")) trivial)
    simp only [apply, compactSettles, hRunning, fail] at hSettles
    cases hSettles
  | gating =>
    cases hBody : c.bodies call with
    | none =>
      have hCalls := congrArg (fun next => next.1.bodies call) (hQuiet 0 .gateCalls trivial)
      simp only [apply, gateCalls, hRunning, hBody, if_pos, bodies_setBody_self] at hCalls
      cases hCalls
    | some body =>
      cases body with
      | idling =>
        have hIdles := congrArg Prod.snd (hQuiet 0 (.idles call none) trivial)
        simp only [apply, idles, hBody] at hIdles
        split at hIdles <;> cases hIdles
      | swapping =>
        have hSwaps := congrArg Prod.snd (hQuiet 0 (.swapSettles call none) trivial)
        simp only [apply, swapSettles, hBody] at hSwaps
        cases hSwaps
      | settled error =>
        have hSettles := congrArg Prod.snd (hQuiet 0 .gateSettles trivial)
        simp only [apply, gateSettles, hRunning, hBody] at hSettles
        cases error <;> cases hSettles

theorem Sound.complete (h : Sound c log) (hQuiet : Quiescent c) {queued : Bool}
    (hReceived : .received call queued ∈ log) : .returned call ∈ log := by
  have hFree := running_of_quiescent hQuiet
  have hWaiting : c.waiting = [] := by
    cases hQueue : c.waiting with
    | nil => rfl
    | cons next rest =>
      have hBegins := congrArg Prod.snd (hQuiet 0 .begin trivial)
      simp only [apply, begin, hFree, hQueue] at hBegins
      split at hBegins <;> cases hBegins
  have hEnded : c.ended = [] := by
    refine List.eq_nil_iff_forall_not_mem.mpr fun next hNext => ?_
    have hReturns := congrArg Prod.snd (hQuiet 0 (.returns next) trivial)
    simp only [apply, returns, if_pos hNext] at hReturns
    cases hReturns
  have hPlace := h.placed.places.symm.subset (mem_receivedOf.mpr ⟨queued, hReceived⟩)
  rw [hWaiting, hEnded, current, hFree] at hPlace
  exact mem_returnedOf.mp hPlace

theorem orderly_of_allowed (actions : List (Int × ControlAction))
    (hAllowed : ∀ step ∈ run apply create actions, Allowed step.before step.input.2) :
    Orderly (final apply create actions) (logOf actions) := by
  have hSound := sound_run hAllowed
  refine ⟨fun _ => hSound.answered, ?_, ?_, hSound.closes.2, fun hQuiet _ _ => hSound.complete hQuiet⟩
  · rw [hSound.serial]
    rfl
  · rw [← hSound.placed.inOrder]
    exact List.prefix_append _ _

end Outcome

section Examples

def compactControl : ContextControlEvent := ⟨"r1", .compact, "bob", "alice", none⟩

def clearControl : ContextControlEvent := ⟨"r2", .clear, "bob", "alice", some "full"⟩

/-- A `clear` behind a `compact` that fails, and `close` while the agent is not idle yet. -/
def closedBeforeClear : List (Int × ControlAction) :=
  [(1, .handle compactControl), (2, .handle clearControl), (3, .begin), (4, .compactSettles (.error "timeout")), (5, .begin),
    (6, .gateCalls), (7, .close), (8, .idles ⟨1, clearControl⟩ none), (9, .gateSettles), (10, .returns ⟨1, clearControl⟩)]

theorem orderly_closedBeforeClear : Orderly (final apply create closedBeforeClear) (logOf closedBeforeClear) := by
  refine orderly_of_allowed closedBeforeClear ?_
  refine List.forall_mem_cons.mpr ⟨trivial, List.forall_mem_cons.mpr ⟨trivial, ?_⟩⟩
  refine List.forall_mem_cons.mpr ⟨fun hClosed => absurd hClosed (by decide), List.forall_mem_cons.mpr ⟨trivial, ?_⟩⟩
  refine List.forall_mem_cons.mpr ⟨fun hClosed => absurd hClosed (by decide), ?_⟩
  refine List.forall_mem_cons.mpr ⟨trivial, List.forall_mem_cons.mpr ⟨trivial, List.forall_mem_cons.mpr ⟨trivial, ?_⟩⟩⟩
  exact List.forall_mem_cons.mpr ⟨trivial, List.forall_mem_cons.mpr ⟨trivial, fun _ hNone => absurd hNone List.not_mem_nil⟩⟩

/-- Two `compact` controls, and `close` while the first is under way. -/
def closedBetweenCompacts : List (Int × ControlAction) :=
  [(1, .handle compactControl), (2, .handle compactControl), (3, .begin), (4, .close),
    (5, .compactSettles (.ok (.applied none none))), (6, .begin)]

theorem compact_started_after_close :
    ¬ ∀ actions : List (Int × ControlAction), Orderly (final apply create actions) (logOf actions) := by
  intro h
  have hClosed := (h closedBetweenCompacts).closed
  refine hClosed [.received ⟨0, compactControl⟩ true, .received ⟨1, compactControl⟩ true, .began ⟨0, compactControl⟩,
    .started ⟨0, compactControl⟩ (.compact none)]
    [.reported ⟨0, compactControl⟩ ⟨5, "r1", .compact, .applied, "alice", none, none⟩, .ended ⟨0, compactControl⟩,
      .began ⟨1, compactControl⟩, .started ⟨1, compactControl⟩ (.compact none)] ?_ ⟨1, compactControl⟩ (.compact none) ?_
  · decide
  · decide

end Examples

end CommandSuite.ContextControlCoordinator
