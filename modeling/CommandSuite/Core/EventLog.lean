import CommandSuite.Core.Message
import CommandSuite.Library.Text
import Mathlib.Data.Rat.Floor

/-! # The event log

`packages/core/src/event-log.ts`: the append-only record of messages with the audience each was
delivered to, the predicate that decides what a viewer's default feed shows, and the in-memory log.
-/

namespace CommandSuite

open Library Text

structure StoredEvent where
  message : Message
  recipients : Option (List String)

namespace EventLog

def GENERAL_CHANNEL_ID : String := "general"
def CHANNEL_THREAD_PREFIX : String := "chan:"
def SECRET_THREAD_PREFIX : String := "secret:"
def OBJECTIVE_THREAD_PREFIX : String := "obj:"
def TOOL_THREAD_PREFIX : String := "tool:"
def VARIABLE_THREAD_PREFIX : String := "variable:"
def NOTIFICATION_THREAD_PREFIX : String := "hook:"

def channelThreadTag (channelId : String) : String := CHANNEL_THREAD_PREFIX ++ channelId

def SCOPED_UNTHREADED_KINDS : List String := ["instructions", "context_control"]

/-- `ev.data?.thread`. -/
def threadOf (ev : Message) : Option Json := ev.data.get "thread"

/-- `ev.data?.kind`. -/
def kindOf (ev : Message) : Option Json := ev.data.get "kind"

def isScopedThreadTag (tag : Option Json) : Bool :=
  match tag with
  | some (.string tag) =>
    if tag = "" then false
    else if startsWith tag SECRET_THREAD_PREFIX then true
    else if startsWith tag OBJECTIVE_THREAD_PREFIX then true
    else if startsWith tag TOOL_THREAD_PREFIX then true
    else if startsWith tag VARIABLE_THREAD_PREFIX then true
    else if startsWith tag NOTIFICATION_THREAD_PREFIX then true
    else if startsWith tag CHANNEL_THREAD_PREFIX then tag ≠ channelThreadTag GENERAL_CHANNEL_ID
    else false
  | _ => false

/-- The half of `isLegacyScopedEvent` that reads `kind`. -/
def isScopedKind (kind : Option Json) : Bool :=
  match kind with
  | some (.string kind) => kind ∈ SCOPED_UNTHREADED_KINDS
  | _ => false

def isLegacyScopedEvent (ev : Message) : Bool :=
  if isScopedThreadTag (threadOf ev) then true else isScopedKind (kindOf ev)

def isSecretThread (ev : Message) : Bool :=
  match threadOf ev with
  | some (.string tag) => startsWith tag SECRET_THREAD_PREFIX
  | _ => false

/-- Is `ev` part of the viewer's default feed? -/
def feedVisibleTo (ev : Message) (recipients : Option (List String)) (viewer : String) : Bool :=
  if isSecretThread ev then false
  else if ev.toName ≠ none ∧ ev.fromName ≠ some viewer ∧ ev.toName ≠ some viewer then false
  else if ev.fromName = some viewer then true
  else
    match recipients with
    | some recipients => viewer ∈ recipients
    | none =>
      if ev.toName ≠ none then ev.toName = some viewer
      else !isLegacyScopedEvent ev

def matchesChannel (ev : Message) (channelId : String) : Bool :=
  let expected := channelThreadTag channelId
  let untagged : Bool := if channelId = GENERAL_CHANNEL_ID then ev.toName = none else false
  match threadOf ev with
  | some (.string tag) => if tag ≠ "" then tag = expected else untagged
  | _ => untagged

def matchesViewer (ev : Message) (recipients : Option (List String)) (viewer : String)
    (withOther : Option String) : Bool :=
  match withOther with
  | some withOther =>
    if ev.toName = none then false
    else if ev.fromName = some viewer ∧ ev.toName = some withOther then true
    else ev.fromName = some withOther ∧ ev.toName = some viewer
  | none => feedVisibleTo ev recipients viewer

def DEFAULT_QUERY_LIMIT : Nat := 100
def MAX_QUERY_LIMIT : Nat := 1000

inductive Number where
  | finite (value : Rat)
  | nonFinite

def clampQueryLimit : Option Number → Nat
  | none | some .nonFinite => DEFAULT_QUERY_LIMIT
  | some (.finite raw) => if raw ≤ 0 then DEFAULT_QUERY_LIMIT else min ⌊raw⌋.toNat MAX_QUERY_LIMIT

structure QueryOptions where
  viewer : String
  withOther : Option String
  channel : Option String
  limit : Option Number
  before : Option Rat

/-- The loop of the in-memory `query`, over the events from newest to oldest. -/
def walk (selects : StoredEvent → Bool) (limit : Nat) : List Message → List StoredEvent → List Message
  | found, [] => found
  | found, entry :: older =>
    if selects entry then
      let found := found ++ [entry.message]
      if limit ≤ found.length then found else walk selects limit found older
    else walk selects limit found older

def selects (options : QueryOptions) (entry : StoredEvent) : Bool :=
  let ev := entry.message
  if options.before.any fun before => before ≤ (ev.ts : Rat) then false
  else
    match options.channel with
    | some channel => matchesChannel ev channel
    | none => matchesViewer ev entry.recipients options.viewer options.withOther

theorem mem_walk {p : StoredEvent → Bool} {limit : Nat} {found : List Message} {events : List StoredEvent}
    {message : Message} (h : message ∈ walk p limit found events) :
    message ∈ found ∨ ∃ entry ∈ events, entry.message = message ∧ p entry = true := by
  induction events generalizing found with
  | nil => exact .inl h
  | cons entry older ih =>
    have hLater : ∀ {found : List Message}, message ∈ walk p limit found older → message ∈ found ∨
        ∃ entry' ∈ entry :: older, entry'.message = message ∧ p entry' = true := by
      intro found hMem
      rcases ih hMem with hFound | ⟨entry', hEntry, hMessage, hSelects⟩
      · exact .inl hFound
      · exact .inr ⟨entry', List.mem_cons_of_mem entry hEntry, hMessage, hSelects⟩
    have hHere : message ∈ found ++ [entry.message] → p entry = true → message ∈ found ∨
        ∃ entry' ∈ entry :: older, entry'.message = message ∧ p entry' = true := by
      intro hMem hSelects
      rcases List.mem_append.mp hMem with hFound | hEntry
      · exact .inl hFound
      · exact .inr ⟨entry, List.mem_cons_self, (List.mem_singleton.mp hEntry).symm, hSelects⟩
    rw [walk] at h
    split at h
    · rename_i hSelects
      dsimp only at h
      split at h
      · exact hHere h hSelects
      · rcases hLater h with hMem | hOlder
        · exact hHere hMem hSelects
        · exact .inr hOlder
    · exact hLater h

end EventLog

/-- The part of the interface that delivery and history use. An append may be refused. -/
class EventLog (E : Type) where
  append : Message → Option (List String) → E → Option E
  query : EventLog.QueryOptions → E → List Message

structure InMemoryEventLog where
  stored : List StoredEvent

namespace InMemoryEventLog

open EventLog

def append (message : Message) (recipients : Option (List String)) (log : InMemoryEventLog) :
    InMemoryEventLog :=
  ⟨log.stored ++ [⟨message, recipients⟩]⟩

def query (options : QueryOptions) (log : InMemoryEventLog) : List Message :=
  walk (selects options) (clampQueryLimit options.limit) [] log.stored.reverse

instance : EventLog InMemoryEventLog where
  append message recipients log := some (append message recipients log)
  query := query

end InMemoryEventLog

end CommandSuite
