import CommandSuite.Cli.Runtime.JsonRpc
import Mathlib.Data.List.Induction

/-! # The framing of messages

A message without a line separator in its text is one line, however its bytes are cut, and the lines are handed on in their order.
-/

namespace CommandSuite.JsonRpc

open Library Transducer Text

/-! ## Lines -/

namespace LineReader

def IsPlain (unit : Nat) : Prop := unit ≠ 10 ∧ unit ≠ 13 ∧ unit ≠ 0x2028 ∧ unit ≠ 0x2029

theorem step_plain {unit : Nat} (h : IsPlain unit) (reader : LineReader) : step reader unit = (⟨reader.line ++ [unit], false⟩, []) := by
  obtain ⟨hFeed, hReturn, hLine, hParagraph⟩ := h
  simp [step, hFeed, hReturn, hLine, hParagraph]

theorem feed_plain {text : JsString} (h : ∀ unit ∈ text, IsPlain unit) (line : JsString) :
    feed step ⟨line, false⟩ text = (⟨line ++ text, false⟩, []) := by
  induction text generalizing line with
  | nil => simp
  | cons unit text ih =>
    obtain ⟨hUnit, hText⟩ := List.forall_mem_cons.mp h
    simp only [feed, step_plain hUnit, ih hText, List.append_assoc, List.singleton_append, List.nil_append]

theorem line_begins (reader : LineReader) (text : JsString) :
    ((feed step reader text).2 = [] ∧ reader.line <+: (feed step reader text).1.line) ∨
      ∃ first more, (feed step reader text).2 = first :: more ∧ reader.line <+: first := by
  induction text generalizing reader with
  | nil => exact .inl ⟨rfl, List.prefix_refl _⟩
  | cons unit text ih =>
    have hStep : (step reader unit).2 = [] ∧ reader.line <+: (step reader unit).1.line ∨ (step reader unit).2 = [reader.line] := by
      unfold step
      split
      · split
        · exact .inl ⟨rfl, List.prefix_refl _⟩
        · exact .inr rfl
      · split
        · exact .inr rfl
        · split
          · exact .inr rfl
          · exact .inl ⟨rfl, List.prefix_append _ _⟩
    rw [feed]
    obtain ⟨hNone, hLine⟩ | hEnds := hStep
    · rw [hNone, List.nil_append]
      obtain ⟨hMore, hLater⟩ | ⟨first, more, hMore, hLater⟩ := ih (step reader unit).1
      · exact .inl ⟨hMore, hLine.trans hLater⟩
      · exact .inr ⟨first, more, hMore, hLine.trans hLater⟩
    · rw [hEnds]
      exact .inr ⟨reader.line, _, rfl, List.prefix_refl _⟩

end LineReader

/-! ## What the server writes -/

/-- An object and the line of JSON that the server writes for it. A part of the line is no other message. -/
structure Sent (parse : JsString → Option Json) where
  text : String
  value : Json
  message : Incoming
  crlf : Bool
  parsed : parse (utf16 text) = some value
  routed : route value = some message
  nonempty : utf16 text ≠ []
  oneLine : ∀ c ∈ text.toList, c ≠ '\n' ∧ c ≠ '\r'
  whole : ∀ part, part <+: utf16 text → (parse part).bind route = none ∨ (parse part).bind route = some message

variable {parse : JsString → Option Json}

namespace Sent

def line (object : Sent parse) : JsString := utf16 object.text

def ending (object : Sent parse) : String := if object.crlf then "\r\n" else "\n"

def wire (object : Sent parse) : List Nat := ((object.text ++ object.ending).toList.map Char.toNat).flatMap Utf8.encode

def Unseparated (object : Sent parse) : Prop := ∀ c ∈ object.text.toList, c.toNat ≠ 0x2028 ∧ c.toNat ≠ 0x2029

end Sent

theorem isScalar_toNat (c : Char) : Utf8.IsScalar c.toNat := by
  obtain hLow | ⟨hHigh, hTop⟩ := c.valid
  · exact .inl hLow
  · exact .inr ⟨hHigh, hTop⟩

theorem feed_units (points : List Nat) : (feed units () points).2 =
    points.flatMap fun point => if point < 0x10000 then [point] else [0xD800 + (point - 0x10000) / 0x400, 0xDC00 + (point - 0x10000) % 0x400] := by
  induction points with
  | nil => rfl
  | cons point points ih => simp only [feed, units, ih, List.flatMap_cons]

theorem feed_units_text (text : String) : (feed units () (text.toList.map Char.toNat)).2 = utf16 text := by
  rw [feed_units, List.flatMap_map]
  rfl

theorem feed_reader_text (text : String) (lines : LineReader) :
    feed reader (.initial, (), lines) ((text.toList.map Char.toNat).flatMap Utf8.encode) =
      ((.initial, (), (feed LineReader.step lines (utf16 text)).1), (feed LineReader.step lines (utf16 text)).2) := by
  have hScalar : ∀ point ∈ text.toList.map Char.toNat, Utf8.IsScalar point := by
    intro point hMem
    obtain ⟨c, -, rfl⟩ := List.mem_map.mp hMem
    exact isScalar_toNat c
  rw [reader, feed_pipe, Utf8.feed_flatMap_encode hScalar, feed_pipe, feed_units_text]

theorem isPlain_utf16 {text : String} (h : ∀ c ∈ text.toList, LineReader.IsPlain c.toNat) :
    ∀ unit ∈ utf16 text, LineReader.IsPlain unit := by
  intro unit hMem
  obtain ⟨c, hChar, hUnit⟩ := List.mem_flatMap.mp hMem
  split at hUnit
  · rw [List.mem_singleton.mp hUnit]
    exact h c hChar
  · unfold LineReader.IsPlain
    simp only [List.mem_cons, List.not_mem_nil, or_false] at hUnit
    omega

theorem isPlain_of_ne {c : Char} (hFeed : c ≠ '\n') (hReturn : c ≠ '\r') (hLine : c.toNat ≠ 0x2028) (hParagraph : c.toNat ≠ 0x2029) :
    LineReader.IsPlain c.toNat :=
  ⟨fun hSame => hFeed (Char.toNat_inj.mp hSame), fun hSame => hReturn (Char.toNat_inj.mp hSame), hLine, hParagraph⟩

theorem feed_line {text ending : String} (hPlain : ∀ c ∈ text.toList, LineReader.IsPlain c.toNat)
    (hEnding : feed LineReader.step ⟨utf16 text, false⟩ (utf16 ending) = (.initial, [utf16 text])) :
    feed reader (.initial, (), .initial) (((text ++ ending).toList.map Char.toNat).flatMap Utf8.encode) =
      ((.initial, (), .initial), [utf16 text]) := by
  have hText : feed LineReader.step .initial (utf16 text) = (⟨utf16 text, false⟩, []) :=
    LineReader.feed_plain (isPlain_utf16 hPlain) []
  have hUnits : utf16 (text ++ ending) = utf16 text ++ utf16 ending := by
    simp [utf16]
  rw [feed_reader_text, hUnits, feed_append, hText, hEnding]
  rfl

theorem feed_wire {object : Sent parse} (h : object.Unseparated) :
    feed reader (.initial, (), .initial) object.wire = ((.initial, (), .initial), [object.line]) := by
  have hPlain : ∀ c ∈ object.text.toList, LineReader.IsPlain c.toNat := fun c hMem => by
    obtain ⟨hFeed, hReturn⟩ := object.oneLine c hMem
    obtain ⟨hLine, hParagraph⟩ := h c hMem
    exact isPlain_of_ne hFeed hReturn hLine hParagraph
  refine feed_line hPlain ?_
  unfold Sent.ending
  split
  · rfl
  · rfl

theorem feed_stream {objects : List (Sent parse)} (h : ∀ object ∈ objects, object.Unseparated) :
    feed reader (.initial, (), .initial) (objects.flatMap Sent.wire) = ((.initial, (), .initial), objects.map Sent.line) := by
  have hFeed := feed_flatMap reader Sent.wire (fun object => [object.line]) objects fun object hMem => feed_wire (h object hMem)
  rwa [← List.map_eq_flatMap] at hFeed

/-! ## What is dispatched -/

def receive (parse : JsString → Option Json) (line : JsString) : Option Incoming := if line = [] then none else (parse line).bind route

theorem receive_line (object : Sent parse) : receive parse object.line = some object.message := by
  rw [receive, Sent.line, if_neg object.nonempty, object.parsed, Option.bind_some, object.routed]

def received : List RpcEvent → List Nat
  | [] => []
  | .chunk bytes :: events => bytes ++ received events
  | .stdoutEnd :: _ => []
  | _ :: events => received events

def RpcEvent.isEnd : RpcEvent → Bool
  | .stdoutEnd => true
  | _ => false

theorem received_append (events : List RpcEvent) (event : RpcEvent) :
    received (events ++ [event]) = received events ++ if events.any RpcEvent.isEnd then [] else received [event] := by
  induction events with
  | nil => rfl
  | cons first events ih => cases first <;> simp [received, RpcEvent.isEnd, ih]

namespace Client

def dispatched (client : Client) : List Incoming := client.log.filterMap fun entry =>
  match entry with
  | .received message => some message
  | _ => none

def linesOf (accepted : List Nat) (ended : Bool) : List JsString :=
  let fed := feed reader (.initial, (), .initial) accepted
  fed.2 ++ if ended && fed.1.2.2.line ≠ [] then [fed.1.2.2.line] else []

structure Framed (parse : JsString → Option Json) (accepted : List Nat) (client : Client) : Prop where
  input : client.input = (feed reader (.initial, (), .initial) accepted).1
  inOrder : client.dispatched ++ client.lines.filterMap (receive parse) = (linesOf accepted client.ended).filterMap (receive parse)

variable {number : Json → Option Rat} {accepted : List Nat} {client : Client}

section

variable (h : Framed parse accepted client)
include h

theorem Framed.unread {after : Client} (hInput : after.input = client.input)
    (hLines : after.lines = client.lines) (hEnded : after.ended = client.ended) (hLog : after.dispatched = client.dispatched) :
    Framed parse accepted after :=
  ⟨hInput.trans h.input, by rw [hLog, hLines, hEnded]; exact h.inOrder⟩

theorem Framed.replyTo (key : Nat) (id : Json) (outcome : Outcome) : Framed parse accepted (replyTo key id outcome client) := by
  obtain ⟨more, hReply⟩ := replyTo_eq key id outcome client
  rw [hReply]
  exact h.unread rfl rfl rfl rfl

theorem Framed.writeMessage (message : Outgoing) : Framed parse accepted (writeMessage message client) := by
  obtain ⟨more, hWritten⟩ := writeMessage_eq message client
  rw [hWritten]
  exact h.unread rfl rfl rfl rfl

theorem Framed.cleanup (reason : String) : Framed parse accepted (cleanup reason client) := by
  unfold Client.cleanup
  split
  · exact h
  · exact h.unread rfl rfl rfl (by simp [dispatched])

theorem Framed.nextLine : Framed parse accepted (nextLine parse number client) := by
  unfold Client.nextLine
  cases hLines : client.lines with
  | nil =>
    dsimp only
    split
    · exact h.cleanup _
    · exact h
  | cons line lines =>
    have hOrder := h.inOrder
    rw [hLines, List.filterMap_cons] at hOrder
    dsimp only
    unfold onLine
    split
    · rename_i hEmpty
      rw [receive, if_pos hEmpty] at hOrder
      exact ⟨h.input, hOrder⟩
    · rename_i hSome
      rw [receive, if_neg hSome] at hOrder
      split
      · rename_i hNone
        rw [hNone] at hOrder
        exact ⟨h.input, hOrder⟩
      · rename_i message hMessage
        rw [hMessage] at hOrder
        obtain ⟨pending, settled, running, written, hDispatch⟩ := dispatch_eq number message { client with lines := lines }
        rw [hDispatch]
        exact ⟨h.input, by simpa [dispatched] using hOrder⟩

end

def Reading (client : Client) : Prop := client.closedReason = none ∧ client.ended = false

section

variable (h : Framed parse accepted client)
include h

theorem Framed.onData (bytes : List Nat) (hReading : Reading client) :
    Framed parse (accepted ++ bytes) (onData bytes client) := by
  obtain ⟨hOpen, hEnded⟩ := hReading
  have hFed := feed_append reader (.initial, (), .initial) accepted bytes
  rw [← h.input] at hFed
  have hLines : linesOf (accepted ++ bytes) false = linesOf accepted false ++ (feed reader client.input bytes).2 := by
    simp [linesOf, hFed]
  have hOrder := h.inOrder
  rw [hEnded] at hOrder
  unfold Client.onData
  rw [hOpen, hEnded]
  refine ⟨by rw [hFed], ?_⟩
  dsimp only
  rw [hLines, List.filterMap_append, List.filterMap_append, ← hOrder, List.append_assoc]
  rfl

theorem Framed.onEnd : Framed parse accepted (onEnd client) := by
  unfold Client.onEnd
  split
  · rename_i hEnded
    have hLines : linesOf accepted true =
        linesOf accepted false ++ if client.input.2.2.line = [] then [] else [client.input.2.2.line] := by
      simp [linesOf, h.input]
    have hOrder := h.inOrder
    rw [hEnded] at hOrder
    refine ⟨h.input, ?_⟩
    dsimp only
    rw [hLines, List.filterMap_append, List.filterMap_append, ← hOrder, List.append_assoc]
    rfl
  · exact h

theorem Framed.settles (key : Nat) (outcome : Outcome) : Framed parse accepted (settles key outcome client) := by
  unfold Client.settles
  split
  · exact h
  · have hOver : Framed parse accepted { client with running := client.running.filter fun other => other.1 ≠ key } :=
      h.unread rfl rfl rfl rfl
    exact hOver.replyTo _ _ _

theorem Framed.request (method : String) (params : Member) : Framed parse accepted (request method params client) := by
  unfold Client.request
  split
  · exact h
  · obtain ⟨more, hWritten⟩ := writeMessage_eq (.request client.nextId method params)
      { client with nextId := client.nextId + 1, pending := client.pending ++ [client.nextId], log := client.log ++ [.made client.nextId] }
    rw [hWritten]
    exact h.unread rfl rfl rfl (by simp [dispatched])

end

/-- What is open after a step has been before, and its output goes on as before. -/
def Stays (client after : Client) : Prop := after.closedReason = none → client.closedReason = none ∧ after.ended = client.ended

theorem Stays.of_eq {after : Client} (hClosed : after.closedReason = client.closedReason) (hEnded : after.ended = client.ended) :
    Stays client after := fun hOpen => ⟨hClosed ▸ hOpen, hEnded⟩

theorem stays_writeMessage (message : Outgoing) : Stays client (writeMessage message client) := by
  obtain ⟨more, hWritten⟩ := writeMessage_eq message client
  rw [hWritten]
  exact .of_eq rfl rfl

theorem stays_cleanup (reason : String) : Stays client (cleanup reason client) := by
  unfold Client.cleanup
  split
  · exact .of_eq rfl rfl
  · exact fun hOpen => nomatch hOpen

theorem stays_onData (bytes : List Nat) : Stays client (onData bytes client) := by
  unfold Client.onData
  split
  · exact .of_eq rfl rfl
  · exact .of_eq rfl rfl

theorem stays_nextLine : Stays client (nextLine parse number client) := by
  unfold Client.nextLine
  split
  · split
    · exact stays_cleanup _
    · exact .of_eq rfl rfl
  · unfold onLine
    split
    · exact .of_eq rfl rfl
    · split
      · exact .of_eq rfl rfl
      · rename_i message _
        obtain ⟨pending, settled, running, written, hDispatch⟩ := dispatch_eq number message { client with lines := _ }
        rw [hDispatch]
        exact .of_eq rfl rfl

theorem stays_request (method : String) (params : Member) : Stays client (request method params client) := by
  unfold Client.request
  split
  · exact .of_eq rfl rfl
  · obtain ⟨more, hWritten⟩ := writeMessage_eq (.request client.nextId method params)
      { client with nextId := client.nextId + 1, pending := client.pending ++ [client.nextId], log := client.log ++ [.made client.nextId] }
    rw [hWritten]
    exact .of_eq rfl rfl

theorem stays_settles (key : Nat) (outcome : Outcome) : Stays client (settles key outcome client) := by
  unfold Client.settles
  split
  · exact .of_eq rfl rfl
  · obtain ⟨more, hReply⟩ := replyTo_eq _ _ outcome { client with running := client.running.filter fun other => other.1 ≠ key }
    rw [hReply]
    exact .of_eq rfl rfl

theorem open_of_next {event : RpcEvent} (h : (next parse number client event).1.closedReason = none) :
    client.closedReason = none ∧ (next parse number client event).1.ended = (client.ended || event.isEnd) := by
  have hStays (hEnd : event.isEnd = false) (hSame : Stays client (next parse number client event).1) :
      client.closedReason = none ∧ (next parse number client event).1.ended = (client.ended || event.isEnd) := by
    rw [hEnd, Bool.or_false]
    exact hSame h
  cases event with
  | chunk bytes => exact hStays rfl (stays_onData bytes)
  | stdoutEnd =>
    change (onEnd client).closedReason = none at h
    change client.closedReason = none ∧ (onEnd client).ended = (client.ended || true)
    rw [Bool.or_true]
    revert h
    unfold Client.onEnd
    split
    · exact fun hOpen => ⟨hOpen, rfl⟩
    · rename_i hOther
      exact fun hOpen => ⟨hOpen, (Bool.not_eq_false _).mp (hOther hOpen)⟩
  | streamError reason => exact hStays rfl (stays_cleanup reason)
  | close reason => exact hStays rfl (stays_cleanup reason)
  | line => exact hStays rfl stays_nextLine
  | request method params => exact hStays rfl (stays_request method params)
  | notify method params => exact hStays rfl (stays_writeMessage (.notification method params))
  | onRequest method handler => exact hStays rfl (.of_eq rfl rfl)
  | offRequest method handler =>
    refine hStays rfl ?_
    dsimp only [Client.next]
    split
    · exact .of_eq rfl rfl
    · exact .of_eq rfl rfl
  | settles key outcome => exact hStays rfl (stays_settles key outcome)

theorem Framed.next (h : Framed parse accepted client) (event : RpcEvent) :
    Framed parse accepted (next parse number client event).1 ∧ (client.closedReason = none → client.ended = false → received [event] = []) ∨
      Framed parse (accepted ++ received [event]) (next parse number client event).1 ∧ Reading client := by
  cases event with
  | chunk bytes =>
    by_cases hReading : Reading client
    · refine .inr ⟨?_, hReading⟩
      rw [received, received, List.append_nil]
      exact h.onData bytes hReading
    · refine .inl ⟨?_, fun hOpen hGoing => absurd ⟨hOpen, hGoing⟩ hReading⟩
      change Framed parse accepted (Client.onData bytes client)
      unfold Client.onData
      split
      · rename_i hOpen hEnded
        exact absurd ⟨hOpen, hEnded⟩ hReading
      · exact h
  | stdoutEnd => exact .inl ⟨h.onEnd, fun _ _ => rfl⟩
  | streamError reason => exact .inl ⟨h.cleanup reason, fun _ _ => rfl⟩
  | close reason => exact .inl ⟨h.cleanup reason, fun _ _ => rfl⟩
  | line => exact .inl ⟨h.nextLine, fun _ _ => rfl⟩
  | request method params => exact .inl ⟨h.request method params, fun _ _ => rfl⟩
  | notify method params => exact .inl ⟨h.writeMessage (.notification method params), fun _ _ => rfl⟩
  | onRequest method handler => exact .inl ⟨h.unread rfl rfl rfl rfl, fun _ _ => rfl⟩
  | offRequest method handler =>
    refine .inl ⟨?_, fun _ _ => rfl⟩
    dsimp only [Client.next]
    split
    · exact h.unread rfl rfl rfl rfl
    · exact h
  | settles key outcome => exact .inl ⟨h.settles key outcome, fun _ _ => rfl⟩

theorem framed_run (parse : JsString → Option Json) (number : Json → Option Rat) (events : List RpcEvent) :
    ∃ accepted, accepted <+: received events ∧ Framed parse accepted (run parse number events) ∧
      ((run parse number events).closedReason = none →
        accepted = received events ∧ (run parse number events).ended = events.any RpcEvent.isEnd) := by
  induction events using List.reverseRecOn with
  | nil => exact ⟨[], List.prefix_refl _, ⟨rfl, rfl⟩, fun _ => ⟨rfl, rfl⟩⟩
  | append_singleton events event ih =>
    obtain ⟨accepted, hPrefix, hFramed, hAll⟩ := ih
    have hRun : run parse number (events ++ [event]) = (next parse number (run parse number events) event).1 :=
      Transcript.final_append _ _ events [event]
    have hMore : received events <+: received (events ++ [event]) := by
      rw [received_append]
      exact List.prefix_append _ _
    have hAny : (events ++ [event]).any RpcEvent.isEnd = (events.any RpcEvent.isEnd || event.isEnd) := by simp
    rw [hRun, hAny]
    obtain ⟨hSame, hNothing⟩ | ⟨hRead, hOpen, hGoing⟩ := hFramed.next event
    · refine ⟨accepted, hPrefix.trans hMore, hSame, fun hAfter => ?_⟩
      obtain ⟨hOpen, hEnds⟩ := open_of_next hAfter
      obtain ⟨hBytes, hEnded⟩ := hAll hOpen
      refine ⟨?_, by rw [hEnds, hEnded]⟩
      rw [received_append, hBytes, ← hEnded]
      split
      · rw [List.append_nil]
      · rename_i hGoing
        rw [hNothing hOpen ((Bool.not_eq_true _).mp hGoing), List.append_nil]
    · obtain ⟨hBytes, hEnded⟩ := hAll hOpen
      have hReceived : received (events ++ [event]) = accepted ++ received [event] := by
        rw [received_append, ← hEnded, hGoing, if_neg Bool.false_ne_true, hBytes]
      rw [hReceived]
      refine ⟨_, List.prefix_refl _, hRead, fun hAfter => ⟨rfl, ?_⟩⟩
      obtain ⟨-, hEnds⟩ := open_of_next hAfter
      rw [hEnds, hEnded]

variable {objects : List (Sent parse)}

theorem receive_lines (objects : List (Sent parse)) : (objects.map Sent.line).filterMap (receive parse) = objects.map Sent.message := by
  induction objects with
  | nil => rfl
  | cons object objects ih => rw [List.map_cons, List.filterMap_cons_some (receive_line object), ih, List.map_cons]

theorem leftover_begins {rest : List Nat} {input : Utf8.Decoder × Unit × LineReader} {lines : List JsString}
    (h : feed reader input rest = ((.initial, (), .initial), lines)) (hSome : input.2.2.line ≠ []) :
    ∃ first more, lines = first :: more ∧ input.2.2.line <+: first := by
  obtain ⟨decoder, ⟨⟩, lineReader⟩ := input
  rw [reader, feed_pipe, feed_pipe] at h
  obtain ⟨hState, hOutput⟩ := Prod.mk.inj h
  have hInitial := congrArg (fun input : Utf8.Decoder × Unit × LineReader => input.2.2.line) hState
  dsimp only at hInitial hOutput
  obtain ⟨-, hNone⟩ | hNext := LineReader.line_begins lineReader (feed units () (feed Utf8.Decoder.step decoder rest).2).2
  · rw [hInitial] at hNone
    exact absurd (List.prefix_nil.mp hNone) hSome
  · rwa [hOutput] at hNext

theorem receive_linesOf (hPlain : ∀ object ∈ objects, object.Unseparated) (hPrefix : accepted <+: objects.flatMap Sent.wire) (ended : Bool) :
    (linesOf accepted ended).filterMap (receive parse) <+: objects.map Sent.message := by
  obtain ⟨rest, hStream⟩ := hPrefix
  have hFed := feed_stream hPlain
  rw [← hStream, feed_append] at hFed
  obtain ⟨hState, hOutput⟩ := Prod.mk.inj hFed
  have hFirst : ((feed reader (.initial, (), .initial) accepted).2).filterMap (receive parse) <+: objects.map Sent.message := by
    rw [← receive_lines, ← hOutput, List.filterMap_append]
    exact List.prefix_append _ _
  rw [linesOf]
  split
  · rename_i hLeft
    have hSome : (feed reader (.initial, (), .initial) accepted).1.2.2.line ≠ [] := by simpa using (Bool.and_eq_true_iff.mp hLeft).2
    have hRest : feed reader (feed reader (.initial, (), .initial) accepted).1 rest =
        ((.initial, (), .initial), (feed reader (feed reader (.initial, (), .initial) accepted).1 rest).2) := Prod.ext hState rfl
    obtain ⟨next, more, hMore, hNext⟩ := leftover_begins hRest hSome
    rw [hMore] at hOutput
    have hMem : next ∈ objects.map Sent.line := by
      rw [← hOutput]
      simp
    obtain ⟨object, -, hObject⟩ := List.mem_map.mp hMem
    rw [← hObject] at hNext
    obtain hNone | hWhole := object.whole _ hNext
    · rw [List.filterMap_append, List.filterMap_cons_none (by rw [receive, if_neg hSome, hNone]), List.filterMap_nil, List.append_nil]
      exact hFirst
    · rw [List.filterMap_append, List.filterMap_cons_some (by rw [receive, if_neg hSome, hWhole]), List.filterMap_nil,
        ← receive_lines, ← hOutput, ← hObject, List.filterMap_append, List.filterMap_cons_some (receive_line object)]
      exact (List.prefix_append_right_inj _).mpr (List.prefix_append [object.message] _)
  · rw [List.append_nil]
    exact hFirst

theorem dispatched_in_order (hPlain : ∀ object ∈ objects, object.Unseparated) {events : List RpcEvent}
    (hStream : received events <+: objects.flatMap Sent.wire) :
    (run parse number events).dispatched <+: objects.map Sent.message := by
  obtain ⟨accepted, hPrefix, hFramed, -⟩ := framed_run parse number events
  have hLines := receive_linesOf hPlain (hPrefix.trans hStream) (run parse number events).ended
  rw [← hFramed.inOrder] at hLines
  exact (List.prefix_append _ _).trans hLines

theorem dispatched_all {sent : List (Sent parse)} (hPlain : ∀ object ∈ sent, object.Unseparated) {events : List RpcEvent}
    (hSent : sent.flatMap Sent.wire <+: received events) (hOpen : (run parse number events).closedReason = none)
    (hLines : (run parse number events).lines = []) : sent.map Sent.message <+: (run parse number events).dispatched := by
  obtain ⟨accepted, -, hFramed, hAll⟩ := framed_run parse number events
  obtain ⟨rest, hReceived⟩ := hSent
  have hOrder := hFramed.inOrder
  rw [(hAll hOpen).1, ← hReceived, hLines, linesOf, feed_append, feed_stream hPlain, List.filterMap_nil, List.append_nil] at hOrder
  rw [hOrder, List.filterMap_append, List.filterMap_append, receive_lines, List.append_assoc]
  exact List.prefix_append _ _

end Client

end CommandSuite.JsonRpc
