import CommandSuite.Core.MessageDelivery.Ledger
import CommandSuite.Library.Utf16
import Mathlib.Data.List.Induction
import Mathlib.Data.List.Nodup

/-! # Receipts of the forwarder

`packages/cli/src/runtime/forwarder.ts`: what a sink says about a message goes out on the stream that is active, or waits for the
next one. A stream is what its frames are handed to; the loop that reads messages is left out up to the connects and ends of it.
-/

namespace CommandSuite.Forwarder

open Library Transcript

/-! ## Frames -/

inductive Evidence where
  | toolCall
  | outboundEffect
  deriving DecidableEq

structure DispositionFrame extends MessageDispositionFrame where
  evidence : Option Evidence

/-- What `MessageDispositionFrameSchema` asks of a detail: the parse in the stream would fail otherwise. -/
def AcceptedDetail (detail : String) : Prop :=
  detail ≠ "" ∧ detail.length ≤ 500 ∧ detail.toList.all fun char => ' ' ≤ char && char ≤ '~'

structure SettleOptions where
  reason : Option DispositionReason
  evidence : Option Evidence
  valid : ∀ given ∈ reason, AcceptedDetail given.detail

abbrev TerminalDisposition := { disposition : Disposition // disposition ≠ .accepted }

/-- A receipt of a message; two receipts of one message differ in their number. The bound is the one of the schema. -/
structure Receipt where
  number : Nat
  messageId : String
  bounded : messageId ≠ "" ∧ (Text.utf16 messageId).length ≤ 200
  deriving DecidableEq

def acceptedFrame (receipt : Receipt) (time : Int) : DispositionFrame := ⟨⟨receipt.messageId, .accepted, time, none⟩, none⟩

def settledFrame (receipt : Receipt) (disposition : TerminalDisposition) (options : SettleOptions) (time : Int) : DispositionFrame :=
  ⟨⟨receipt.messageId, disposition, time, options.reason⟩, options.evidence⟩

section Streams

variable {κ : Type}

/-- What is handed to a stream; `κ` are the control frames, which are passed on as they are. -/
inductive Frame (κ : Type) where
  | disposition (frame : DispositionFrame)
  | control (frame : κ)

structure Sent (κ : Type) where
  generation : Nat
  receipt : Option Receipt
  frame : Frame κ

inductive Action (κ : Type) where
  | accepted (receipt : Receipt)
  | settle (receipt : Receipt) (disposition : TerminalDisposition) (options : SettleOptions)
  | sendDisposition (receipt : Receipt) (frame : DispositionFrame)
  | sendControl (frame : κ)

/-- `clockReads` counts the calls of `Date.now`. -/
structure Streams (κ : Type) where
  activeStream : Option Nat
  streamGeneration : Nat
  pendingActions : List (Action κ)
  acceptedGeneration : Receipt → Option Nat
  clockReads : Nat

namespace Streams

def create : Streams κ := ⟨none, 0, [], fun _ => none, 0⟩

def push (action : Action κ) (streams : Streams κ) : Streams κ :=
  { streams with pendingActions := streams.pendingActions ++ [action] }

variable (clock : Nat → Int)

def sendDisposition (receipt : Receipt) (frame : DispositionFrame) (streams : Streams κ) : Streams κ × List (Sent κ) :=
  match streams.activeStream with
  | none => (streams.push (.sendDisposition receipt frame), [])
  | some generation => (streams, [⟨generation, some receipt, .disposition frame⟩])

def sendControl (frame : κ) (streams : Streams κ) : Streams κ × List (Sent κ) :=
  match streams.activeStream with
  | none => (streams.push (.sendControl frame), [])
  | some generation => (streams, [⟨generation, none, .control frame⟩])

def accepted (receipt : Receipt) (streams : Streams κ) : Streams κ × List (Sent κ) :=
  match streams.activeStream with
  | none => (streams.push (.accepted receipt), [])
  | some generation =>
    if streams.acceptedGeneration receipt = some generation then (streams, [])
    else
      ({ streams with
          acceptedGeneration := Function.update streams.acceptedGeneration receipt (some generation)
          clockReads := streams.clockReads + 1 },
        [⟨generation, some receipt, .disposition (acceptedFrame receipt (clock streams.clockReads))⟩])

def settle (receipt : Receipt) (disposition : TerminalDisposition) (options : SettleOptions) (streams : Streams κ) :
    Streams κ × List (Sent κ) :=
  match streams.activeStream with
  | none => (streams.push (.settle receipt disposition options), [])
  | some _ =>
    let (streams, first) := accepted clock receipt streams
    let (streams, second) := sendDisposition receipt (settledFrame receipt disposition options (clock streams.clockReads))
      { streams with clockReads := streams.clockReads + 1 }
    (streams, first ++ second)

def perform : Machine (Streams κ) (Action κ) (List (Sent κ)) := fun streams action =>
  match action with
  | .accepted receipt => accepted clock receipt streams
  | .settle receipt disposition options => settle clock receipt disposition options streams
  | .sendDisposition receipt frame => sendDisposition receipt frame streams
  | .sendControl frame => sendControl frame streams

def flushPendingFrames (streams : Streams κ) : Streams κ × List (Sent κ) :=
  match streams.activeStream with
  | none => (streams, [])
  | some _ =>
    let emptied := { streams with pendingActions := [] }
    (Transcript.final (perform clock) emptied streams.pendingActions,
      (Transcript.run (perform clock) emptied streams.pendingActions).flatMap Step.output)

end Streams

/-- What can come at a time: a call of a sink, a new stream, or the end of a pass of the loop. -/
inductive Event (κ : Type) where
  | accepted (receipt : Receipt)
  | settle (receipt : Receipt) (disposition : TerminalDisposition) (options : SettleOptions)
  | control (frame : κ)
  | connected
  | ended (generation : Option Nat)

namespace Streams

def next (clock : Nat → Int) : Machine (Streams κ) (Event κ) (List (Sent κ)) := fun streams event =>
  match event with
  | .accepted receipt => accepted clock receipt streams
  | .settle receipt disposition options => settle clock receipt disposition options streams
  | .control frame => sendControl frame streams
  | .connected =>
    flushPendingFrames clock
      { streams with activeStream := some (streams.streamGeneration + 1), streamGeneration := streams.streamGeneration + 1 }
  | .ended generation =>
    (if streams.activeStream.isSome ∧ streams.activeStream = generation then { streams with activeStream := none } else streams, [])

end Streams

end Streams

end CommandSuite.Forwarder

/-! ## The order of the frames of receipts

A settled receipt is accepted first on the stream it is settled on, and what waits for a stream goes out in the order it was asked
for.
-/

namespace CommandSuite.Forwarder

open Library

variable {κ : Type}

/-! ## Frames of a request -/

def Event.request? : Event κ → Option (Action κ)
  | .accepted receipt => some (.accepted receipt)
  | .settle receipt disposition options => some (.settle receipt disposition options)
  | .control frame => some (.sendControl frame)
  | _ => none

def sentAccepted (receipt : Receipt) (generation : Nat) (time : Int) : Sent κ :=
  ⟨generation, some receipt, .disposition (acceptedFrame receipt time)⟩

def sentSettled (receipt : Receipt) (disposition : TerminalDisposition) (options : SettleOptions) (generation : Nat) (time : Int) : Sent κ :=
  ⟨generation, some receipt, .disposition (settledFrame receipt disposition options time)⟩

inductive Serves : Action κ → List (Sent κ) → Prop where
  | acceptedBefore (receipt : Receipt) : Serves (.accepted receipt) []
  | accepted (receipt : Receipt) (generation : Nat) (time : Int) : Serves (.accepted receipt) [sentAccepted receipt generation time]
  | settled (receipt : Receipt) (disposition : TerminalDisposition) (options : SettleOptions) (generation : Nat) (time : Int) :
    Serves (.settle receipt disposition options) [sentSettled receipt disposition options generation time]
  | acceptedAndSettled (receipt : Receipt) (disposition : TerminalDisposition) (options : SettleOptions) (generation : Nat)
      (first second : Int) :
    Serves (.settle receipt disposition options)
      [sentAccepted receipt generation first, sentSettled receipt disposition options generation second]
  | control (frame : κ) (generation : Nat) : Serves (.sendControl frame) [⟨generation, none, .control frame⟩]

def Sent.acceptance? (sent : Sent κ) : Option (Nat × Receipt) :=
  match sent.receipt, sent.frame with
  | some receipt, .disposition frame => if frame.disposition = .accepted then some (sent.generation, receipt) else none
  | _, _ => none

def Sent.acceptedMessage? (sent : Sent κ) : Option (Nat × String) :=
  match sent.frame with
  | .disposition frame => if frame.disposition = .accepted then some (sent.generation, frame.messageId) else none
  | .control _ => none

def Sent.settledMessage? (sent : Sent κ) : Option (Nat × String) :=
  match sent.frame with
  | .disposition frame => if frame.disposition = .accepted then none else some (sent.generation, frame.messageId)
  | .control _ => none

/-- A message is accepted on a stream before it is settled there. -/
def Preceded (out : List (Sent κ)) : Prop :=
  ∀ before sent after, out = before ++ sent :: after → ∀ message ∈ sent.settledMessage?, message ∈ before.filterMap Sent.acceptedMessage?

theorem preceded_concat {out : List (Sent κ)} (h : Preceded out) {sent : Sent κ}
    (hSent : ∀ message ∈ sent.settledMessage?, message ∈ out.filterMap Sent.acceptedMessage?) : Preceded (out ++ [sent]) := by
  intro before found after hOut message hMessage
  rcases List.eq_nil_or_concat' after with rfl | ⟨rest, last, rfl⟩
  · obtain ⟨rfl, hFound⟩ := List.append_inj' hOut rfl
    obtain rfl := List.singleton_inj.mp hFound
    exact hSent message hMessage
  · rw [← List.cons_append, ← List.append_assoc] at hOut
    exact h before found rest (List.append_inj' hOut rfl).1 message hMessage

/-! ## What is kept -/

namespace Streams

structure Kept (streams : Streams κ) (out : List (Sent κ)) : Prop where
  preceded : Preceded out
  once : (out.filterMap Sent.acceptance?).Nodup
  bounded : ∀ sent ∈ out, sent.generation ≤ streams.streamGeneration
  current : ∀ generation ∈ streams.activeStream, generation ≤ streams.streamGeneration
  recorded : ∀ receipt, ∀ generation ∈ streams.acceptedGeneration receipt, ∃ time, sentAccepted receipt generation time ∈ out
  fresh : ∀ receipt, ∀ generation ∈ streams.activeStream, streams.acceptedGeneration receipt ≠ some generation →
    (generation, receipt) ∉ out.filterMap Sent.acceptance?

variable (clock : Nat → Int) {streams : Streams κ} {out : List (Sent κ)} {generation : Nat}

theorem acceptance_sentSettled (receipt : Receipt) (disposition : TerminalDisposition) (options : SettleOptions) (time : Int) :
    (sentSettled receipt disposition options generation time : Sent κ).acceptance? = none := if_neg disposition.2

theorem kept_create : Kept (create : Streams κ) [] where
  preceded before sent after h := absurd h (by simp)
  once := List.nodup_nil
  bounded := nofun
  current := nofun
  recorded := nofun
  fresh _ _ h := nomatch h

theorem Kept.send (h : Kept streams out) {sent : Sent κ} (hActive : streams.activeStream = some sent.generation)
    (hOther : sent.acceptance? = none) (hSettled : ∀ message ∈ sent.settledMessage?, message ∈ out.filterMap Sent.acceptedMessage?) :
    Kept streams (out ++ [sent]) := by
  have hSame : (out ++ [sent]).filterMap Sent.acceptance? = out.filterMap Sent.acceptance? := by
    rw [List.filterMap_append, List.filterMap_cons_none hOther, List.filterMap_nil, List.append_nil]
  refine ⟨preceded_concat h.preceded hSettled, hSame ▸ h.once, ?_, h.current, fun receipt found hFound => ?_, hSame ▸ h.fresh⟩
  · intro found hFound
    rcases List.mem_append.mp hFound with hFound | hFound
    · exact h.bounded found hFound
    · obtain rfl := List.mem_singleton.mp hFound
      exact h.current _ hActive
  · obtain ⟨time, hTime⟩ := h.recorded receipt found hFound
    exact ⟨time, List.mem_append_left _ hTime⟩

variable {receipt : Receipt}

theorem accepted_again (hActive : streams.activeStream = some generation)
    (hBefore : streams.acceptedGeneration receipt = some generation) : streams.accepted clock receipt = (streams, []) := by
  simp only [accepted, hActive, hBefore, if_true]

def afterAccepted (streams : Streams κ) (receipt : Receipt) (generation : Nat) : Streams κ :=
  { streams with
    acceptedGeneration := Function.update streams.acceptedGeneration receipt (some generation)
    clockReads := streams.clockReads + 1 }

theorem afterAccepted_self (receipt : Receipt) (generation : Nat) :
    (streams.afterAccepted receipt generation).acceptedGeneration receipt = some generation := Function.update_self ..

theorem afterAccepted_of_ne {other receipt : Receipt} (h : other ≠ receipt) (generation : Nat) :
    (streams.afterAccepted receipt generation).acceptedGeneration other = streams.acceptedGeneration other := Function.update_of_ne h ..

theorem accepted_first (hActive : streams.activeStream = some generation)
    (hBefore : streams.acceptedGeneration receipt ≠ some generation) :
    streams.accepted clock receipt =
      (streams.afterAccepted receipt generation, [sentAccepted receipt generation (clock streams.clockReads)]) := by
  unfold accepted
  split
  · rename_i hNone
    cases hActive.symm.trans hNone
  · rename_i found hFound
    obtain rfl : generation = found := Option.some.inj (hActive.symm.trans hFound)
    rw [if_neg hBefore]
    rfl

theorem kept_afterAccepted (h : Kept streams out) (hActive : streams.activeStream = some generation)
    (hBefore : streams.acceptedGeneration receipt ≠ some generation) (time : Int) :
    Kept (streams.afterAccepted receipt generation) (out ++ [sentAccepted receipt generation time]) := by
  have hAcceptances : (out ++ [sentAccepted receipt generation time]).filterMap Sent.acceptance? =
      out.filterMap Sent.acceptance? ++ [(generation, receipt)] := List.filterMap_append
  refine ⟨preceded_concat h.preceded nofun, ?_, ?_, h.current, ?_, ?_⟩
  · rw [hAcceptances, ← List.concat_eq_append]
    exact h.once.concat (h.fresh receipt generation hActive hBefore)
  · intro found hFound
    rcases List.mem_append.mp hFound with hFound | hFound
    · exact h.bounded found hFound
    · obtain rfl := List.mem_singleton.mp hFound
      exact h.current generation hActive
  · intro other found hFound
    by_cases hSame : other = receipt
    · subst hSame
      obtain rfl : generation = found := Option.some.inj ((afterAccepted_self other generation).symm.trans hFound)
      exact ⟨time, List.mem_append_right _ (List.mem_singleton_self _)⟩
    · obtain ⟨earlier, hEarlier⟩ := h.recorded other found ((afterAccepted_of_ne hSame generation).symm.trans hFound)
      exact ⟨earlier, List.mem_append_left _ hEarlier⟩
  · intro other found hFound hOther
    obtain rfl : generation = found := Option.some.inj (hActive.symm.trans hFound)
    by_cases hSame : other = receipt
    · subst hSame
      exact absurd (afterAccepted_self other generation) hOther
    · rw [afterAccepted_of_ne hSame] at hOther
      rw [hAcceptances, List.mem_append, List.mem_singleton, not_or]
      exact ⟨h.fresh other generation hActive hOther, fun hPair => hSame (congrArg Prod.snd hPair)⟩

/-! ## Requests -/

def Action.IsRequest : Action κ → Prop
  | .sendDisposition _ _ => False
  | _ => True

/-- What a request does on a stream: it is served, and nothing else of the streams changes. -/
structure Served (streams : Streams κ) (out : List (Sent κ)) (action : Action κ) (result : Streams κ × List (Sent κ)) : Prop where
  serves : Serves action result.2
  kept : Kept result.1 (out ++ result.2)
  active : result.1.activeStream = streams.activeStream
  pending : result.1.pendingActions = streams.pendingActions

theorem served_accepted (h : Kept streams out) (hActive : streams.activeStream = some generation) (receipt : Receipt) :
    Served streams out (.accepted receipt) (streams.accepted clock receipt) := by
  by_cases hBefore : streams.acceptedGeneration receipt = some generation
  · rw [accepted_again clock hActive hBefore]
    exact ⟨.acceptedBefore receipt, (List.append_nil out).symm ▸ h, rfl, rfl⟩
  · rw [accepted_first clock hActive hBefore]
    exact ⟨.accepted receipt generation _, kept_afterAccepted h hActive hBefore _, rfl, rfl⟩

theorem settledMessage_sentSettled (receipt : Receipt) (disposition : TerminalDisposition) (options : SettleOptions) (time : Int) :
    (sentSettled receipt disposition options generation time : Sent κ).settledMessage? = some (generation, receipt.messageId) :=
  if_neg disposition.2

theorem sendDisposition_active (streams : Streams κ) (hActive : streams.activeStream = some generation) (receipt : Receipt) (frame : DispositionFrame) :
    streams.sendDisposition receipt frame = (streams, [⟨generation, some receipt, .disposition frame⟩]) := by
  simp only [sendDisposition, hActive]

theorem kept_settled (h : Kept streams out) (hActive : streams.activeStream = some generation)
    (hAccepted : streams.acceptedGeneration receipt = some generation) (disposition : TerminalDisposition) (options : SettleOptions)
    (time : Int) (reads : Nat) :
    Kept { streams with clockReads := reads } (out ++ [sentSettled receipt disposition options generation time]) := by
  have hRead : Kept { streams with clockReads := reads } out := ⟨h.preceded, h.once, h.bounded, h.current, h.recorded, h.fresh⟩
  refine hRead.send hActive (acceptance_sentSettled receipt disposition options time) fun message hMessage => ?_
  obtain ⟨earlier, hEarlier⟩ := h.recorded receipt generation hAccepted
  rw [settledMessage_sentSettled] at hMessage
  obtain rfl := Option.some.inj hMessage
  exact List.mem_filterMap.mpr ⟨_, hEarlier, rfl⟩

theorem settle_active (hActive : streams.activeStream = some generation)
    (hStill : (streams.accepted clock receipt).1.activeStream = some generation) (disposition : TerminalDisposition)
    (options : SettleOptions) :
    streams.settle clock receipt disposition options =
      ({ (streams.accepted clock receipt).1 with clockReads := (streams.accepted clock receipt).1.clockReads + 1 },
        (streams.accepted clock receipt).2 ++
          [sentSettled receipt disposition options generation (clock (streams.accepted clock receipt).1.clockReads)]) := by
  have hSend := sendDisposition_active
    { (streams.accepted clock receipt).1 with clockReads := (streams.accepted clock receipt).1.clockReads + 1 } hStill receipt
    (settledFrame receipt disposition options (clock (streams.accepted clock receipt).1.clockReads))
  simp only [settle, hActive, hSend]
  rfl

theorem served_settle (h : Kept streams out) (hActive : streams.activeStream = some generation) (receipt : Receipt)
    (disposition : TerminalDisposition) (options : SettleOptions) :
    Served streams out (.settle receipt disposition options) (streams.settle clock receipt disposition options) := by
  by_cases hBefore : streams.acceptedGeneration receipt = some generation
  · have hAccepted := accepted_again clock hActive hBefore
    have hSettle := settle_active clock hActive (congrArg (fun result => result.1.activeStream) hAccepted |>.trans hActive) disposition options
    rw [hSettle, hAccepted]
    exact ⟨.settled receipt disposition options generation _, kept_settled h hActive hBefore disposition options _ _, rfl, rfl⟩
  · have hAccepted := accepted_first clock hActive hBefore
    have hSettle := settle_active clock hActive (congrArg (fun result => result.1.activeStream) hAccepted |>.trans hActive) disposition options
    rw [hSettle, hAccepted]
    refine ⟨.acceptedAndSettled receipt disposition options generation _ _, ?_, rfl, rfl⟩
    rw [← List.append_assoc]
    exact kept_settled (kept_afterAccepted h hActive hBefore _) hActive (afterAccepted_self receipt generation) disposition options _ _

theorem served_sendControl (h : Kept streams out) (hActive : streams.activeStream = some generation) (frame : κ) :
    Served streams out (.sendControl frame) (streams.sendControl frame) := by
  have hSend : streams.sendControl frame = (streams, [⟨generation, none, .control frame⟩]) := by
    simp only [sendControl, hActive]
  rw [hSend]
  exact ⟨.control frame generation, h.send hActive rfl nofun, rfl, rfl⟩

theorem served_perform (h : Kept streams out) (hActive : streams.activeStream = some generation) {action : Action κ}
    (hRequest : Action.IsRequest action) : Served streams out action (perform clock streams action) := by
  cases action with
  | accepted receipt => exact served_accepted clock h hActive receipt
  | settle receipt disposition options => exact served_settle clock h hActive receipt disposition options
  | sendDisposition receipt frame => exact hRequest.elim
  | sendControl frame => exact served_sendControl h hActive frame

/-- The requests have been served, in their order, by the frames that are sent. -/
def ServedBy (requests : List (Action κ)) (out : List (Sent κ)) : Prop :=
  ∃ parts, List.Forall₂ Serves requests parts ∧ out = parts.flatten

theorem ServedBy.append {first second : List (Action κ)} {out more : List (Sent κ)} (h : ServedBy first out) (hMore : ServedBy second more) :
    ServedBy (first ++ second) (out ++ more) := by
  obtain ⟨parts, hParts, rfl⟩ := h
  obtain ⟨others, hOthers, rfl⟩ := hMore
  exact ⟨parts ++ others, List.rel_append hParts hOthers, List.flatten_append.symm⟩

theorem ServedBy.single {action : Action κ} {out : List (Sent κ)} (h : Serves action out) : ServedBy [action] out :=
  ⟨[out], .cons h .nil, (List.append_nil out).symm⟩

theorem served_performAll (actions : List (Action κ)) (hRequests : ∀ action ∈ actions, Action.IsRequest action) (h : Kept streams out)
    (hActive : streams.activeStream = some generation) :
    ServedBy actions ((Transcript.run (perform clock) streams actions).flatMap Step.output) ∧
      Kept (Transcript.final (perform clock) streams actions)
        (out ++ (Transcript.run (perform clock) streams actions).flatMap Step.output) ∧
      (Transcript.final (perform clock) streams actions).activeStream = some generation ∧
      (Transcript.final (perform clock) streams actions).pendingActions = streams.pendingActions := by
  induction actions generalizing streams out with
  | nil => exact ⟨⟨[], .nil, rfl⟩, (List.append_nil out).symm ▸ h, hActive, rfl⟩
  | cons action actions ih =>
    obtain ⟨hRequest, hRequests⟩ := List.forall_mem_cons.mp hRequests
    have hFirst := served_perform clock h hActive hRequest
    obtain ⟨hServed, hKept, hStill, hPending⟩ := ih hRequests hFirst.kept (hFirst.active.trans hActive)
    rw [Transcript.run_cons, Transcript.final_cons, List.flatMap_cons, Transcript.stepAt_output, ← List.append_assoc]
    exact ⟨(ServedBy.single hFirst.serves).append hServed, hKept, hStill, hPending.trans hFirst.pending⟩

end Streams

/-! ## Runs -/

section Runs

open Streams

/-- What holds of the streams behind a run: the requests that wait are the last ones, and wait for a stream. -/
structure Sound (streams : Streams κ) (requests : List (Action κ)) (out : List (Sent κ)) : Prop where
  inOrder : ∃ served, requests = served ++ streams.pendingActions ∧ ServedBy served out
  atOnce : streams.activeStream.isSome → streams.pendingActions = []
  kept : Kept streams out
  areRequests : ∀ action ∈ streams.pendingActions, Action.IsRequest action

variable (clock : Nat → Int) {streams : Streams κ} {requests : List (Action κ)} {out : List (Sent κ)}

theorem sound_create : Sound (create : Streams κ) [] [] := ⟨⟨[], rfl, [], .nil, rfl⟩, fun _ => rfl, kept_create, nofun⟩

theorem perform_waits (hNone : streams.activeStream = none) {action : Action κ} (hRequest : Action.IsRequest action) :
    perform clock streams action = (streams.push action, []) := by
  cases action with
  | accepted receipt => simp only [perform, accepted, hNone]
  | settle receipt disposition options => simp only [perform, settle, hNone]
  | sendDisposition receipt frame => exact hRequest.elim
  | sendControl frame => simp only [perform, sendControl, hNone]

section

variable (h : Sound streams requests out)
include h

theorem Sound.request {action : Action κ} (hRequest : Action.IsRequest action) :
    Sound (perform clock streams action).1 (requests ++ [action]) (out ++ (perform clock streams action).2) := by
  obtain ⟨served, hRequests, hServed⟩ := h.inOrder
  cases hActive : streams.activeStream with
  | none =>
    rw [perform_waits clock hActive hRequest, List.append_nil]
    refine ⟨⟨served, ?_, hServed⟩, fun hSome => ?_,
      ⟨h.kept.preceded, h.kept.once, h.kept.bounded, h.kept.current, h.kept.recorded, h.kept.fresh⟩, ?_⟩
    · rw [hRequests, List.append_assoc]
      rfl
    · rw [push, hActive] at hSome
      cases hSome
    · intro other hOther
      rcases List.mem_append.mp hOther with hOther | hOther
      · exact h.areRequests other hOther
      · exact List.mem_singleton.mp hOther ▸ hRequest
  | some generation =>
    have hNow := served_perform clock h.kept hActive hRequest
    have hNothing := h.atOnce (hActive ▸ rfl)
    rw [hNothing, List.append_nil] at hRequests
    refine ⟨⟨requests ++ [action], ?_, ?_⟩, fun _ => hNow.pending.trans hNothing, hNow.kept, ?_⟩
    · rw [hNow.pending, hNothing, List.append_nil]
    · exact hRequests ▸ hServed.append (.single hNow.serves)
    · rw [hNow.pending, hNothing]
      nofun

theorem Sound.connected : Sound (next clock streams .connected).1 requests (out ++ (next clock streams .connected).2) := by
  obtain ⟨served, hRequests, hServed⟩ := h.inOrder
  let generation := streams.streamGeneration + 1
  let opened : Streams κ := { streams with activeStream := some generation, streamGeneration := generation, pendingActions := [] }
  have hOpened : Kept opened out := by
    refine ⟨h.kept.preceded, h.kept.once, fun sent hSent => (h.kept.bounded sent hSent).trans (Nat.le_succ _), ?_, h.kept.recorded, ?_⟩
    · intro found hFound
      exact (Option.some.inj hFound).ge
    · intro receipt found hFound _ hMem
      obtain rfl : generation = found := Option.some.inj hFound
      obtain ⟨sent, hSent, hAcceptance⟩ := List.mem_filterMap.mp hMem
      have hBound := h.kept.bounded sent hSent
      have hGeneration : sent.generation = generation := by
        unfold Sent.acceptance? at hAcceptance
        split at hAcceptance
        · split at hAcceptance
          · exact congrArg Prod.fst (Option.some.inj hAcceptance)
          · cases hAcceptance
        · cases hAcceptance
      omega
  obtain ⟨hNow, hKept, _, hPending⟩ := served_performAll clock streams.pendingActions h.areRequests hOpened rfl
  change Sound (Transcript.final (perform clock) opened streams.pendingActions) requests
    (out ++ (Transcript.run (perform clock) opened streams.pendingActions).flatMap Step.output)
  refine ⟨⟨requests, ?_, hRequests ▸ hServed.append hNow⟩, fun _ => hPending, hKept, ?_⟩
  · rw [hPending, List.append_nil]
  · rw [hPending]
    nofun

theorem Sound.ended (generation : Option Nat) :
    Sound (next clock streams (.ended generation)).1 requests (out ++ (next clock streams (.ended generation)).2) := by
  simp only [next, List.append_nil]
  split
  · exact ⟨h.inOrder, nofun, ⟨h.kept.preceded, h.kept.once, h.kept.bounded, nofun, h.kept.recorded, fun _ _ hNone => nomatch hNone⟩,
      h.areRequests⟩
  · exact h

theorem sound_next (event : Event κ) :
    Sound (next clock streams event).1 (requests ++ event.request?.toList) (out ++ (next clock streams event).2) := by
  cases event with
  | accepted receipt => exact h.request clock (show Action.IsRequest (.accepted receipt) from trivial)
  | settle receipt disposition options =>
    exact h.request clock (show Action.IsRequest (.settle receipt disposition options) from trivial)
  | control frame => exact h.request clock (show Action.IsRequest (.sendControl frame) from trivial)
  | connected => exact (List.append_nil requests).symm ▸ h.connected clock
  | ended generation => exact (List.append_nil requests).symm ▸ h.ended clock generation

end

def sentBy (events : List (Event κ)) : List (Sent κ) := (Transcript.run (next clock) create events).flatMap Step.output

theorem sound_run (events : List (Event κ)) :
    Sound (Transcript.final (next clock) create events) (events.filterMap Event.request?) (sentBy clock events) := by
  induction events using List.reverseRecOn with
  | nil => exact sound_create
  | append_singleton events event ih =>
    have hNext := sound_next clock ih event
    have hRequest : [event].filterMap Event.request? = event.request?.toList := by
      rw [List.filterMap_cons]
      cases event.request? <;> rfl
    rw [sentBy, Transcript.run_append, Transcript.final_append, List.flatMap_append, List.filterMap_append, hRequest, Transcript.run_cons, List.flatMap_cons, Transcript.run_nil, List.flatMap_nil, List.append_nil]
    exact hNext

end Runs

end CommandSuite.Forwarder
