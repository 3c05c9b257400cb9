import CommandSuite.Cli.Runtime.JsonRpc.Framing
import Mathlib.Data.Bool.AllAny
import Mathlib.Data.List.Nodup

/-! # The exchanges

What becomes of the requests of the client, and of those of the server, over a run.
-/

namespace CommandSuite.JsonRpc

open Library Client Transcript

/-! ## The requests of the client -/

section

variable (number : Json → Option Rat)

/-- What an entry says of request `n`. -/
def verdict (n : Nat) : Entry → Option Settlement
  | .received (.response id error result) => if idNumber number id = some (n : Rat) then some (settlementOf error result) else none
  | .received _ | .made _ => none
  | .closed reason => some (.closed reason)

def settlement (n : Nat) : List Entry → Option Settlement
  | [] => none
  | .made m :: log => if m = n then log.findSome? (verdict number n) else settlement n log
  | .received _ :: log | .closed _ :: log => settlement n log

variable {number} {n : Nat} {log : List Entry}

theorem settlement_unmade (h : .made n ∉ log) : settlement number n log = none := by
  induction log with
  | nil => rfl
  | cons entry log ih =>
    rw [List.mem_cons, not_or] at h
    obtain ⟨hFirst, hRest⟩ := h
    cases entry with
    | made m => rw [settlement, if_neg fun hSame => hFirst (by rw [hSame]), ih hRest]
    | received message => exact ih hRest
    | closed reason => exact ih hRest

theorem settlement_append (h : .made n ∈ log) (entry : Entry) :
    settlement number n (log ++ [entry]) = (settlement number n log).or (verdict number n entry) := by
  induction log with
  | nil => cases h
  | cons first log ih =>
    obtain hFirst | hRest := List.mem_cons.mp h
    · subst hFirst
      rw [List.cons_append, settlement, settlement, if_pos rfl, if_pos rfl, List.findSome?_append, List.findSome?_singleton]
    · cases first with
      | made m =>
        rw [List.cons_append, settlement, settlement]
        split
        · rw [List.findSome?_append, List.findSome?_singleton]
        · exact ih hRest
      | received message => exact ih hRest
      | closed reason => exact ih hRest

theorem settlement_append_made (m : Nat) : settlement number n (log ++ [.made m]) = settlement number n log := by
  induction log with
  | nil => simp [settlement]
  | cons first log ih =>
    cases first with
    | made k =>
      rw [List.cons_append, settlement, settlement, List.findSome?_append, List.findSome?_singleton, verdict, Option.or_none, ih]
    | received message => exact ih
    | closed reason => exact ih

end

structure Settling (number : Json → Option Rat) (client : Client) : Prop where
  pending : ∀ n, n ∈ client.pending ↔ .made n ∈ client.log ∧ settlement number n client.log = none
  settled : ∀ n s, (n, s) ∈ client.settled ↔ settlement number n client.log = some s
  once : (client.settled.map Prod.fst).Nodup
  single : client.pending.Nodup
  fresh : ∀ n, .made n ∈ client.log → n < client.nextId
  closed : client.closedReason ≠ none → client.pending = []

namespace Settling

variable {number : Json → Option Rat} {client after : Client}

theorem create : Settling number create where
  pending n := by simp [Client.create]
  settled n s := by simp [Client.create, settlement]
  once := .nil
  single := .nil
  fresh n h := nomatch h
  closed _ := rfl

section

variable (h : Settling number client)
include h

theorem unsettled (hPending : after.pending = client.pending) (hSettled : after.settled = client.settled)
    (hLog : after.log = client.log) (hNext : after.nextId = client.nextId) (hClosed : after.closedReason = client.closedReason) :
    Settling number after where
  pending := by rw [hPending, hLog]; exact h.pending
  settled := by rw [hSettled, hLog]; exact h.settled
  once := by rw [hSettled]; exact h.once
  single := by rw [hPending]; exact h.single
  fresh := by rw [hLog, hNext]; exact h.fresh
  closed := by rw [hPending, hClosed]; exact h.closed

theorem entry {entry : Entry} (more : List (Nat × Settlement)) (hMade : ∀ n, entry ≠ .made n)
    (hLog : after.log = client.log ++ [entry]) (hPending : after.pending = client.pending.filter fun n => (verdict number n entry).isNone)
    (hSettled : after.settled = client.settled ++ more) (hOnce : (more.map Prod.fst).Nodup)
    (hMore : ∀ n s, (n, s) ∈ more ↔ n ∈ client.pending ∧ verdict number n entry = some s)
    (hNext : after.nextId = client.nextId) (hClosed : after.closedReason ≠ none → after.pending = []) : Settling number after := by
  have hMem (n : Nat) : .made n ∈ after.log ↔ .made n ∈ client.log := by
    rw [hLog, List.mem_append, List.mem_singleton]
    exact or_iff_left fun hSame => hMade n hSame.symm
  have hAfter (n : Nat) (h : .made n ∈ client.log) :
      settlement number n after.log = (settlement number n client.log).or (verdict number n entry) := by
    rw [hLog, settlement_append h]
  refine ⟨fun n => ?_, fun n s => ?_, ?_, ?_, fun n hHas => ?_, hClosed⟩
  · rw [hPending, List.mem_filter, h.pending, hMem, and_assoc, Option.isNone_iff_eq_none]
    refine and_congr_right fun hHas => ?_
    rw [hAfter n hHas, Option.or_eq_none_iff]
  · rw [hSettled, List.mem_append, h.settled, hMore, h.pending]
    by_cases hHas : .made n ∈ client.log
    · rw [hAfter n hHas, Option.or_eq_some_iff, and_iff_right hHas]
    · rw [settlement_unmade hHas, settlement_unmade (mt (hMem n).mp hHas)]
      simp [hHas]
  · rw [hSettled, List.map_append]
    refine List.nodup_append.mpr ⟨h.once, hOnce, ?_⟩
    rintro n hOld m hNew rfl
    obtain ⟨⟨_, s⟩, hSome, rfl⟩ := List.mem_map.mp hOld
    obtain ⟨⟨_, s'⟩, hOther, hSame⟩ := List.mem_map.mp hNew
    dsimp only at hSame
    subst hSame
    have hNone := ((h.pending _).mp ((hMore _ s').mp hOther).1).2
    rw [(h.settled _ s).mp hSome] at hNone
    cases hNone
  · rw [hPending]
    exact h.single.filter _
  · rw [hNext]
    exact h.fresh n ((hMem n).mp hHas)

theorem writeMessage (message : Outgoing) : Settling number (writeMessage message client) := by
  obtain ⟨more, hWritten⟩ := writeMessage_eq message client
  rw [hWritten]
  exact h.unsettled rfl rfl rfl rfl rfl

theorem replyTo (key : Nat) (id : Json) (outcome : Outcome) : Settling number (replyTo key id outcome client) := by
  obtain ⟨more, hReply⟩ := replyTo_eq key id outcome client
  rw [hReply]
  exact h.unsettled rfl rfl rfl rfl rfl

theorem received {message : Incoming} (hSilent : ∀ n, verdict number n (.received message) = none)
    (hLog : after.log = client.log ++ [.received message]) (hPending : after.pending = client.pending)
    (hSettled : after.settled = client.settled) (hNext : after.nextId = client.nextId)
    (hClosed : after.closedReason = client.closedReason) : Settling number after := by
  refine h.entry _ (by rintro n ⟨⟩) hLog ?_ (hSettled.trans (List.append_nil _).symm) .nil ?_ hNext ?_
  · simp [hPending, hSilent]
  · simp [hSilent]
  · rw [hClosed, hPending]
    exact h.closed

theorem handleResponse (id : Json) (error result : Option Json) :
    Settling number (handleResponse number id error result { client with log := client.log ++ [.received (.response id error result)] }) := by
  unfold Client.handleResponse
  dsimp only
  split
  · rename_i hNone
    have hOther : ∀ n ∈ client.pending, ¬idNumber number id = some (n : Rat) := by simpa using hNone
    refine h.entry [] (by rintro n ⟨⟩) rfl ?_ (List.append_nil _).symm .nil ?_ rfl h.closed
    · refine (List.filter_eq_self.mpr fun n hMem => ?_).symm
      rw [verdict, if_neg (hOther n hMem), Option.isNone_none]
    · intro n s
      refine iff_of_false List.not_mem_nil fun hSays => ?_
      rw [verdict, if_neg (hOther n hSays.1)] at hSays
      cases hSays.2
  · rename_i n hSome
    have hId : idNumber number id = some (n : Rat) := by simpa using List.find?_some hSome
    have hSame (m : Nat) : idNumber number id = some (m : Rat) ↔ m = n := by
      rw [hId, Option.some_inj, Nat.cast_inj, eq_comm]
    refine h.entry [(n, settlementOf error result)] (by rintro n ⟨⟩) rfl ?_ rfl
      (List.nodup_singleton _) ?_ rfl fun hClosed => ?_
    · dsimp only
      rw [h.single.erase_eq_filter]
      refine List.filter_congr fun m _ => ?_
      by_cases hEq : m = n <;> simp [verdict, hSame, hEq]
    · intro m s
      rw [List.mem_singleton, Prod.mk.injEq, verdict]
      by_cases hEq : m = n
      · rw [if_pos ((hSame m).mpr hEq), Option.some_inj, and_iff_right hEq, hEq, and_iff_right (List.mem_of_find?_eq_some hSome), eq_comm]
      · rw [if_neg (mt (hSame m).mp hEq)]
        exact iff_of_false (fun hBoth => hEq hBoth.1) fun hBoth => nomatch hBoth.2
    · rw [h.closed hClosed] at hSome
      cases hSome

theorem dispatch (message : Incoming) : Settling number (dispatch number message client) := by
  cases message with
  | request id method params =>
    obtain ⟨running, written, hRequest⟩ := handleServerRequest_eq client.serverRequests.length id method
      { client with log := client.log ++ [.received (.request id method params)] }
    dsimp only [Client.dispatch]
    rw [hRequest]
    exact h.received (fun _ => rfl) rfl rfl rfl rfl rfl
  | notification method params => exact h.received (fun _ => rfl) rfl rfl rfl rfl rfl
  | response id error result => exact h.handleResponse id error result

theorem cleanup (reason : String) : Settling number (cleanup reason client) := by
  unfold Client.cleanup
  split
  · exact h
  · refine h.entry _ (by rintro n ⟨⟩) rfl ?_ rfl ?_ ?_ rfl fun _ => rfl
    · simp [verdict]
    · rw [List.map_map]
      exact (List.map_id' client.pending).symm ▸ h.single
    · intro n s
      simp [verdict]

theorem request (method : String) (params : Member) : Settling number (request method params client) := by
  unfold Client.request
  split
  · exact h
  · rename_i hOpen
    have hFresh : .made client.nextId ∉ client.log := fun hMem => absurd (h.fresh _ hMem) (Nat.lt_irrefl _)
    have hMade : Settling number
        { client with nextId := client.nextId + 1, pending := client.pending ++ [client.nextId], log := client.log ++ [.made client.nextId] } := by
      refine ⟨fun n => ?_, fun n s => ?_, h.once, ?_, fun n hMem => ?_, fun hClosed => absurd hOpen hClosed⟩
      · dsimp only
        rw [settlement_append_made, List.mem_append, List.mem_append, h.pending, List.mem_singleton, List.mem_singleton, Entry.made.injEq,
          or_and_right]
        refine or_congr_right (iff_self_and.mpr fun hSame => ?_)
        rw [hSame, settlement_unmade hFresh]
      · dsimp only
        rw [settlement_append_made, h.settled]
      · refine List.nodup_append.mpr ⟨h.single, List.nodup_singleton _, ?_⟩
        rintro n hOld m hNew rfl
        rw [List.mem_singleton.mp hNew] at hOld
        exact hFresh ((h.pending _).mp hOld).1
      · obtain hOld | hNew := List.mem_append.mp hMem
        · exact Nat.lt_succ_of_lt (h.fresh n hOld)
        · obtain rfl := Entry.made.inj (List.mem_singleton.mp hNew)
          exact Nat.lt_succ_self _
    exact hMade.writeMessage _

theorem nextLine (parse : JsString → Option Json) : Settling number (nextLine parse number client) := by
  unfold Client.nextLine
  split
  · split
    · exact h.cleanup _
    · exact h
  · rename_i lines _
    have hRest : Settling number { client with lines := lines } := h.unsettled rfl rfl rfl rfl rfl
    unfold onLine
    split
    · exact hRest
    · split
      · exact hRest
      · exact hRest.dispatch _

theorem next (parse : JsString → Option Json) (event : RpcEvent) : Settling number (next parse number client event).1 := by
  cases event with
  | chunk bytes =>
    change Settling number (onData bytes client)
    unfold onData
    split
    · exact h.unsettled rfl rfl rfl rfl rfl
    · exact h
  | stdoutEnd =>
    change Settling number (onEnd client)
    unfold onEnd
    split
    · exact h.unsettled rfl rfl rfl rfl rfl
    · exact h
  | streamError reason => exact h.cleanup reason
  | close reason => exact h.cleanup reason
  | line => exact h.nextLine parse
  | request method params => exact h.request method params
  | notify method params => exact h.writeMessage (.notification method params)
  | onRequest method handler => exact h.unsettled rfl rfl rfl rfl rfl
  | offRequest method handler =>
    dsimp only [Client.next]
    split
    · exact h.unsettled rfl rfl rfl rfl rfl
    · exact h
  | settles key outcome =>
    change Settling number (settles key outcome client)
    unfold Client.settles
    split
    · exact h
    · have hFinished : Settling number { client with running := client.running.filter fun other => other.1 ≠ key } :=
        h.unsettled rfl rfl rfl rfl rfl
      exact hFinished.replyTo _ _ _

end

end Settling

theorem settling_run (parse : JsString → Option Json) (number : Json → Option Rat) (events : List RpcEvent) :
    Settling number (run parse number events) :=
  final_invariant (P := Settling number) (fun _ event h => h.next parse event) Settling.create events

/-! ## The requests of the server -/

def replyKeys (written : List Outgoing) : List Nat := written.filterMap fun message =>
  match message with
  | .reply key _ _ => some key
  | _ => none

theorem mem_replyKeys {written : List Outgoing} {key : Nat} : key ∈ replyKeys written ↔ ∃ id body, .reply key id body ∈ written := by
  rw [replyKeys, List.mem_filterMap]
  constructor
  · rintro ⟨message, hMem, hKey⟩
    split at hKey
    · rename_i id body
      cases hKey
      exact ⟨id, body, hMem⟩
    · cases hKey
  · rintro ⟨id, body, hMem⟩
    exact ⟨_, hMem, rfl⟩

def Outcome.answer : Outcome → Option ReplyBody
  | .returns (.written value) => some (.result value)
  | .throws (.rpc code message) => some (.error code message)
  | .throws (.error message) | .throws (.other (some message)) => some (.error (-32603) message)
  | .returns .omitted | .returns .refused | .throws (.other none) => none

def RpcEvent.Answers : RpcEvent → Prop
  | .settles _ outcome => outcome.answer ≠ none
  | _ => True

variable {body : ReplyBody}

theorem replyTo_answer {outcome : Outcome} (h : outcome.answer = some body) (key : Nat) (id : Json) (client : Client) :
    replyTo key id outcome client = writeMessage (.reply key id body) client ∧ body ≠ .neither := by
  unfold Outcome.answer at h
  split at h <;> cases h <;> exact ⟨rfl, fun hSame => nomatch hSame⟩

structure Matched (client : Client) : Prop where
  running : ∀ key id, (key, id) ∈ client.running → client.serverRequests[key]? = some id
  replies : ∀ key id body, .reply key id body ∈ client.written → client.serverRequests[key]? = some id ∧ body ≠ .neither
  handlers : (client.running.map Prod.fst).Nodup
  once : (replyKeys client.written).Nodup
  apart : ∀ key ∈ client.running.map Prod.fst, key ∉ replyKeys client.written

def Kept (client : Client) (key : Nat) : Prop := key ∈ client.running.map Prod.fst ∨ key ∈ replyKeys client.written

structure Replying (client : Client) : Prop extends Matched client where
  owed : client.closedReason = none → ∀ key < client.serverRequests.length, Kept client key

structure Owing (key : Nat) (id : Json) (client : Client) : Prop extends Matched client where
  owed : client.closedReason = none → ∀ other < client.serverRequests.length, other ≠ key → Kept client other
  request : client.serverRequests[key]? = some id
  finished : key ∉ client.running.map Prod.fst
  unreplied : key ∉ replyKeys client.written

theorem Owing.reply {key : Nat} {id : Json} {client : Client} (h : Owing key id client) (hSays : body ≠ .neither) :
    Replying (writeMessage (.reply key id body) client) := by
  unfold Client.writeMessage
  split
  · rename_i hClosed
    refine ⟨h.toMatched, fun hOpen => ?_⟩
    rw [hClosed] at hOpen
    cases hOpen
  · rename_i hOpen
    have hKeys : replyKeys (client.written ++ [.reply key id body]) = replyKeys client.written ++ [key] := List.filterMap_append
    dsimp only
    refine ⟨⟨h.running, fun other id' body' hMem => ?_, h.handlers, ?_, fun other hOther => ?_⟩, fun _ other hOther => ?_⟩
    · obtain hOld | hNew := List.mem_append.mp hMem
      · exact h.replies other id' body' hOld
      · cases List.mem_singleton.mp hNew
        exact ⟨h.request, hSays⟩
    · rw [hKeys, ← List.concat_eq_append]
      exact h.once.concat h.unreplied
    · rw [hKeys, List.mem_append, List.mem_singleton, not_or]
      exact ⟨h.apart other hOther, fun hSame => h.finished (hSame ▸ hOther)⟩
    · unfold Kept
      rw [hKeys, List.mem_append, List.mem_singleton, ← or_assoc]
      by_cases hSame : other = key
      · exact .inr hSame
      · exact .inl (h.owed hOpen other hOther hSame)

namespace Replying

variable {client after : Client}

theorem create : Replying create where
  running _ _ h := nomatch h
  replies _ _ _ h := nomatch h
  handlers := .nil
  once := .nil
  apart _ h := nomatch h
  owed _ key hKey := absurd hKey (Nat.not_lt_zero key)

section

variable (h : Replying client)
include h

theorem unreplied (hRunning : after.running = client.running) (hWritten : after.written = client.written)
    (hRequests : after.serverRequests = client.serverRequests) (hOpen : after.closedReason = none → client.closedReason = none) :
    Replying after := by
  refine ⟨⟨?_, ?_, ?_, ?_, ?_⟩, fun hAfter key hKey => ?_⟩
  · rw [hRunning, hRequests]
    exact h.running
  · rw [hWritten, hRequests]
    exact h.replies
  · rw [hRunning]
    exact h.handlers
  · rw [hWritten]
    exact h.once
  · rw [hRunning, hWritten]
    exact h.apart
  · rw [hRequests] at hKey
    rw [Kept, hRunning, hWritten]
    exact h.owed (hOpen hAfter) key hKey

variable {key : Nat}

theorem lt_of_running (hMem : key ∈ client.running.map Prod.fst) : key < client.serverRequests.length := by
  obtain ⟨⟨_, id⟩, hHandler, rfl⟩ := List.mem_map.mp hMem
  exact (List.getElem?_eq_some_iff.mp (h.running _ id hHandler)).1

theorem lt_of_reply (hMem : key ∈ replyKeys client.written) : key < client.serverRequests.length := by
  obtain ⟨id, body, hReply⟩ := mem_replyKeys.mp hMem
  exact (List.getElem?_eq_some_iff.mp (h.replies key id body hReply).1).1

theorem writeMessage {message : Outgoing} (hOther : ∀ key id body, message ≠ .reply key id body) :
    Replying (writeMessage message client) := by
  have hMore : ∃ more, Client.writeMessage message client = { client with written := client.written ++ more } ∧
      ∀ key id body, .reply key id body ∉ more := by
    unfold Client.writeMessage
    split
    · exact ⟨[], by rw [List.append_nil], fun _ _ _ => List.not_mem_nil⟩
    · split
      · exact ⟨[], by rw [List.append_nil], fun _ _ _ => List.not_mem_nil⟩
      · exact ⟨[], by rw [List.append_nil], fun _ _ _ => List.not_mem_nil⟩
      · exact ⟨[message], rfl, fun key id body hMem => hOther key id body (List.mem_singleton.mp hMem).symm⟩
  obtain ⟨more, hWritten, hNone⟩ := hMore
  have hKeys : replyKeys (client.written ++ more) = replyKeys client.written := by
    have hEmpty : replyKeys more = [] := List.eq_nil_iff_forall_not_mem.mpr fun key hKey => by
      obtain ⟨id, body, hReply⟩ := mem_replyKeys.mp hKey
      exact hNone key id body hReply
    rw [replyKeys, List.filterMap_append]
    exact (congrArg (replyKeys client.written ++ ·) hEmpty).trans (List.append_nil _)
  rw [hWritten]
  refine ⟨⟨h.running, fun key id body hReply => ?_, h.handlers, hKeys ▸ h.once, hKeys ▸ h.apart⟩, fun hOpen key hKey => ?_⟩
  · exact h.replies key id body ((List.mem_append.mp hReply).resolve_right (hNone key id body))
  · rw [Kept, hKeys]
    exact h.owed hOpen key hKey

theorem finished {id : Json} (hMem : (key, id) ∈ client.running) :
    Owing key id { client with running := client.running.filter fun other => other.1 ≠ key } := by
  have hRuns : key ∈ client.running.map Prod.fst := List.mem_map.mpr ⟨_, hMem, rfl⟩
  have hKept (other : Nat) : other ∈ (client.running.filter fun other => other.1 ≠ key).map Prod.fst ↔
      other ∈ client.running.map Prod.fst ∧ other ≠ key := by
    simp [List.mem_map, List.mem_filter]
  refine ⟨⟨?_, h.replies, ?_, h.once, ?_⟩, fun hOpen other hOther hNe => ?_, h.running key id hMem, ?_, h.apart key hRuns⟩
  · exact fun other id' hMem => h.running other id' (List.mem_filter.mp hMem).1
  · exact h.handlers.sublist (List.filter_sublist.map _)
  · exact fun other hMem => h.apart other ((hKept other).mp hMem).1
  · obtain hRunning | hReplied := h.owed hOpen other hOther
    · exact .inl ((hKept other).mpr ⟨hRunning, hNe⟩)
    · exact .inr hReplied
  · exact fun hMem => ((hKept key).mp hMem).2 rfl

theorem settles {outcome : Outcome} (hAnswers : outcome.answer ≠ none) : Replying (settles key outcome client) := by
  unfold Client.settles
  split
  · exact h
  · rename_i handler hFound
    obtain ⟨key', id⟩ := handler
    have hKey : key' = key := by simpa using List.find?_some hFound
    subst hKey
    obtain ⟨body, hBody⟩ := Option.ne_none_iff_exists'.mp hAnswers
    obtain ⟨hReply, hSays⟩ := replyTo_answer hBody key' id { client with running := client.running.filter fun other => other.1 ≠ key' }
    dsimp only
    rw [hReply]
    exact (h.finished (List.mem_of_find?_eq_some hFound)).reply hSays

theorem dispatch (number : Json → Option Rat) (message : Incoming) : Replying (dispatch number message client) := by
  cases message with
  | request id method params =>
    have hRequests : ({ client with log := client.log ++ [.received (.request id method params)] } : Client).serverRequests =
        client.serverRequests ++ [id] := List.filterMap_append
    have hOld {key : Nat} {id' : Json} (hKey : client.serverRequests[key]? = some id') :
        (client.serverRequests ++ [id])[key]? = some id' := by
      rw [List.getElem?_append_left (List.getElem?_eq_some_iff.mp hKey).1, hKey]
    have hNew : (client.serverRequests ++ [id])[client.serverRequests.length]? = some id := List.getElem?_concat_length
    have hLater {key : Nat} (hKey : key < (client.serverRequests ++ [id]).length) (hNe : key ≠ client.serverRequests.length) :
        key < client.serverRequests.length := by
      rw [List.length_append, List.length_singleton] at hKey
      omega
    have hFinished : client.serverRequests.length ∉ client.running.map Prod.fst := fun hMem => absurd (h.lt_of_running hMem) (Nat.lt_irrefl _)
    have hUnreplied : client.serverRequests.length ∉ replyKeys client.written := fun hMem => absurd (h.lt_of_reply hMem) (Nat.lt_irrefl _)
    have hReplies : ∀ key id' body, .reply key id' body ∈ client.written →
        (client.serverRequests ++ [id])[key]? = some id' ∧ body ≠ .neither := fun key id' body hMem =>
      ⟨hOld (h.replies key id' body hMem).1, (h.replies key id' body hMem).2⟩
    dsimp only [Client.dispatch]
    unfold handleServerRequest
    split
    · have hOwing : Owing client.serverRequests.length id { client with log := client.log ++ [.received (.request id method params)] } := by
        refine ⟨⟨?_, hRequests ▸ hReplies, h.handlers, h.once, h.apart⟩, ?_, hRequests ▸ hNew, hFinished, hUnreplied⟩
        · exact fun key id' hMem => hRequests ▸ hOld (h.running key id' hMem)
        · exact fun hOpen key hKey hNe => h.owed hOpen key (hLater (hRequests ▸ hKey) hNe)
      exact hOwing.reply fun hSame => nomatch hSame
    · have hMap : (client.running ++ [(client.serverRequests.length, id)]).map Prod.fst =
          client.running.map Prod.fst ++ [client.serverRequests.length] := List.map_append
      refine ⟨⟨fun key id' hMem => ?_, hRequests ▸ hReplies, ?_, h.once, ?_⟩, fun hOpen key hKey => ?_⟩
      · refine hRequests ▸ ?_
        obtain hRunning | hStarts := List.mem_append.mp hMem
        · exact hOld (h.running key id' hRunning)
        · cases List.mem_singleton.mp hStarts
          exact hNew
      · dsimp only
        rw [hMap, ← List.concat_eq_append]
        exact h.handlers.concat hFinished
      · dsimp only
        rw [hMap]
        intro key hMem
        obtain hRunning | hStarts := List.mem_append.mp hMem
        · exact h.apart key hRunning
        · rw [List.mem_singleton.mp hStarts]
          exact hUnreplied
      · dsimp only [Kept]
        rw [hMap, List.mem_append, List.mem_singleton, or_right_comm]
        by_cases hSame : key = client.serverRequests.length
        · exact .inr hSame
        · exact .inl (h.owed hOpen key (hLater (hRequests ▸ hKey) hSame))
  | notification method params =>
    dsimp only [Client.dispatch]
    exact h.unreplied rfl rfl (by simp [serverRequests]) fun hOpen => hOpen
  | response id error result =>
    dsimp only [Client.dispatch, Client.handleResponse]
    split
    · exact h.unreplied rfl rfl (by simp [serverRequests]) fun hOpen => hOpen
    · exact h.unreplied rfl rfl (by simp [serverRequests]) fun hOpen => hOpen

theorem cleanup (reason : String) : Replying (cleanup reason client) := by
  unfold Client.cleanup
  split
  · exact h
  · exact h.unreplied rfl rfl (by simp [serverRequests]) fun hOpen => nomatch hOpen

theorem next (parse : JsString → Option Json) (number : Json → Option Rat) {event : RpcEvent} (hAnswers : event.Answers) :
    Replying (next parse number client event).1 := by
  have hSame (hOpen : client.closedReason = none) : client.closedReason = none := hOpen
  cases event with
  | chunk bytes =>
    change Replying (onData bytes client)
    unfold onData
    split
    · exact h.unreplied rfl rfl rfl hSame
    · exact h
  | stdoutEnd =>
    change Replying (onEnd client)
    unfold onEnd
    split
    · exact h.unreplied rfl rfl rfl hSame
    · exact h
  | streamError reason => exact h.cleanup reason
  | close reason => exact h.cleanup reason
  | line =>
    change Replying (nextLine parse number client)
    unfold Client.nextLine
    split
    · split
      · exact h.cleanup _
      · exact h
    · rename_i lines _
      have hRest : Replying { client with lines := lines } := h.unreplied rfl rfl rfl hSame
      unfold onLine
      split
      · exact hRest
      · split
        · exact hRest
        · exact hRest.dispatch number _
  | request method params =>
    change Replying (request method params client)
    unfold Client.request
    split
    · exact h
    · have hMade : Replying
          { client with nextId := client.nextId + 1, pending := client.pending ++ [client.nextId], log := client.log ++ [.made client.nextId] } :=
        h.unreplied rfl rfl (by simp [serverRequests]) hSame
      exact hMade.writeMessage fun _ _ _ hReply => nomatch hReply
  | notify method params => exact h.writeMessage fun _ _ _ hReply => nomatch hReply
  | onRequest method handler => exact h.unreplied rfl rfl rfl hSame
  | offRequest method handler =>
    dsimp only [Client.next]
    split
    · exact h.unreplied rfl rfl rfl hSame
    · exact h
  | settles key outcome => exact h.settles hAnswers

end

end Replying

theorem replying_run (parse : JsString → Option Json) (number : Json → Option Rat) {events : List RpcEvent}
    (hAnswers : ∀ event ∈ events, event.Answers) : Replying (run parse number events) := by
  refine final_invariant_of (P := Replying) (C := fun _ event => event.Answers) (fun _ _ h hEvent => h.next parse number hEvent)
    Replying.create fun step hStep => ?_
  have hMem : step.input ∈ (Transcript.run (next parse number) Client.create events).map Step.input := List.mem_map_of_mem hStep
  rw [map_input_run] at hMem
  exact hAnswers _ hMem

/-! ## One text -/

/-- `JSON.parse`, as far as one text goes. -/
def parseText (text : String) (value : Json) : JsString → Option Json := fun line => if line = Text.utf16 text then some value else none

def Sent.ofText (text : String) (value : Json) (message : Incoming) (hRouted : route value = some message) (hNonempty : Text.utf16 text ≠ [])
    (hOneLine : ∀ c ∈ text.toList, c ≠ '\n' ∧ c ≠ '\r') : Sent (parseText text value) where
  text := text
  value := value
  message := message
  crlf := false
  parsed := if_pos rfl
  routed := hRouted
  nonempty := hNonempty
  oneLine := hOneLine
  whole part _ := by
    unfold parseText
    split
    · exact .inr hRouted
    · exact .inl rfl

def answerText : String := "\x7b\"id\":1,\"result\":null\x7d"

def answerValue : Json := .object [("id", .number 1), ("result", .null)]

def answer : Sent (parseText answerText answerValue) :=
  .ofText _ _ (.response (.number 1) none (some .null)) rfl (by decide) (List.all_iff_forall_prop.mp (by decide))

def separatedText : String := "\x7b\"id\":1,\"result\":\"\u2028\"\x7d"

def separatedValue : Json := .object [("id", .number 1), ("result", .string "\u2028")]

def separated : Sent (parseText separatedText separatedValue) :=
  .ofText _ _ (.response (.number 1) none (some (.string "\u2028"))) rfl (by decide) (List.all_iff_forall_prop.mp (by decide))

/-! ## The exchanges of a run -/

/-- The exchanges of a run are complete where no text holds a separator of Unicode and every handler comes to an answer. -/
theorem exchanges_complete {parse : JsString → Option Json} (number : Json → Option Rat) {objects : List (Sent parse)}
    (hPlain : ∀ object ∈ objects, object.Unseparated) {events : List RpcEvent} (hStream : received events <+: objects.flatMap Sent.wire)
    (hAnswers : ∀ event ∈ events, event.Answers) :
    let client := run parse number events
    client.dispatched <+: objects.map Sent.message ∧
    (client.closedReason = none → client.lines = [] → ∀ sent, sent <+: objects → sent.flatMap Sent.wire <+: received events →
      sent.map Sent.message <+: client.dispatched) ∧
    (∀ n s, (n, s) ∈ client.settled ↔ settlement number n client.log = some s) ∧
    (client.settled.map Prod.fst).Nodup ∧
    (∀ n, n ∈ client.pending ↔ .made n ∈ client.log ∧ ∀ s, (n, s) ∉ client.settled) ∧
    (client.closedReason ≠ none → client.pending = []) ∧
    (∀ key id body, .reply key id body ∈ client.written → client.serverRequests[key]? = some id ∧ body ≠ .neither) ∧
    (client.closedReason = none → ∀ key < client.serverRequests.length,
      (replyKeys client.written).count key = if key ∈ client.running.map Prod.fst then 0 else 1) := by
  have hSettling := settling_run parse number events
  have hReplying := replying_run parse number hAnswers
  refine ⟨dispatched_in_order hPlain hStream, fun hOpen hLines sent hSent hReceived => ?_, hSettling.settled, hSettling.once, fun n => ?_,
    hSettling.closed, hReplying.replies, fun hOpen key hKey => ?_⟩
  · exact dispatched_all (fun object hMem => hPlain object (hSent.subset hMem)) hReceived hOpen hLines
  · rw [hSettling.pending, Option.eq_none_iff_forall_ne_some]
    simp only [hSettling.settled, ne_eq]
  · split
    · rename_i hRuns
      exact List.count_eq_zero.mpr (hReplying.apart key hRuns)
    · rename_i hFinished
      exact List.count_eq_one_of_mem hReplying.once ((hReplying.owed hOpen key hKey).resolve_left hFinished)

theorem answer_resolves :
    (1, .resolved (some .null)) ∈ (run (parseText answerText answerValue) (fun _ => none)
      [.request "initialize" .omitted, .chunk (answer.wire.take 7), .chunk (answer.wire.drop 7), .line]).settled := by
  have hPlain : ∀ object ∈ [answer], object.Unseparated := by
    simp only [List.forall_mem_singleton]
    exact List.all_iff_forall_prop.mp (by decide)
  have hStream : received [.request "initialize" .omitted, .chunk (answer.wire.take 7), .chunk (answer.wire.drop 7), .line] <+:
      [answer].flatMap Sent.wire := by
    simp [received]
  have hAnswers : ∀ event ∈ [RpcEvent.request "initialize" .omitted, .chunk (answer.wire.take 7), .chunk (answer.wire.drop 7), .line],
      event.Answers := by
    simp [RpcEvent.Answers]
  obtain ⟨-, -, hSettled, -⟩ := exchanges_complete (fun _ => none) hPlain hStream hAnswers
  refine (hSettled 1 _).mpr ?_
  rfl

/-- The one response has come, and no line waits, but its request does. -/
theorem separator_leaves_pending :
    let client := run (parseText separatedText separatedValue) (fun _ => none)
      [.request "initialize" .omitted, .chunk separated.wire, .line, .line, .line]
    client.closedReason = none ∧ client.lines = [] ∧ client.dispatched = [] ∧ client.pending = [1] := by
  refine ⟨?_, ?_, ?_, ?_⟩
  · decide +kernel
  · decide +kernel
  · rfl
  · decide +kernel

end CommandSuite.JsonRpc
