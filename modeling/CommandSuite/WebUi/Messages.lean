import CommandSuite.Core.Message
import CommandSuite.Library.KeyedMap
import Mathlib.Data.List.Sort

/-! # The messages of a viewer's threads

`packages/web-ui/src/lib/messages.ts`: live messages and older pages are put into the list of their thread, each message
once and by its timestamp.
-/

namespace CommandSuite.Messages

open Library

def PRIMARY_THREAD : String := "primary"

def DM_PREFIX : String := "dm:"

def CHAN_PREFIX : String := "chan:"

def GENERAL_CHANNEL_ID : String := "general"

def GENERAL_THREAD : String := PRIMARY_THREAD

def dmThreadKey (other : String) : String := DM_PREFIX ++ other

def channelThreadKey (channelId : String) : String :=
  if channelId = GENERAL_CHANNEL_ID then GENERAL_THREAD else CHAN_PREFIX ++ channelId

/-- `data.thread`, when it is a string that is not empty. -/
def explicitThread (msg : Message) : Option String := ((msg.data.get "thread").bind Json.asString).filter fun thread => thread ≠ ""

def threadKeyOf (msg : Message) (self : String) : String :=
  match explicitThread msg with
  | some explicit =>
    if explicit = channelThreadKey GENERAL_CHANNEL_ID then GENERAL_THREAD
    else if explicit = CHAN_PREFIX ++ GENERAL_CHANNEL_ID then GENERAL_THREAD
    else explicit
  | none =>
    match msg.toName with
    | none => PRIMARY_THREAD
    | some toName =>
      if toName = self then
        match msg.fromName with
        | none => dmThreadKey "self"
        | some fromName => if fromName ≠ "" ∧ fromName ≠ self then dmThreadKey fromName else dmThreadKey "self"
      else dmThreadKey toName

abbrev MessagesByThread := KeyedMap String (List Message)

def sortByTs (msgs : List Message) : List Message := msgs.insertionSort fun a b => a.ts ≤ b.ts

def fresh (existing incoming : List Message) : List Message := sortByTs (incoming.filter fun m => m.id ∉ existing.map Message.id)

/-- The last of `first` is no later than the head of `second`. -/
def inOrder (first second : List Message) : Bool :=
  match first.getLast?, second.head? with
  | some last, some head => last.ts ≤ head.ts
  | _, _ => true

def joined (first second : List Message) : List Message :=
  if inOrder first second then first ++ second else sortByTs (first ++ second)

def appended (existing incoming : List Message) : Option (List Message) :=
  if fresh existing incoming = [] then none else some (joined existing (fresh existing incoming))

def prepended (existing incoming : List Message) : Option (List Message) :=
  if fresh existing incoming = [] then none else some (joined (fresh existing incoming) existing)

def bucketByThread (viewer : String) (msgs : List Message) : MessagesByThread := KeyedMap.group (threadKeyOf · viewer) msgs

def threadMessages (store : MessagesByThread) (key : String) : List Message := (store.get key).getD []

def mergeThread (merged : List Message → List Message → Option (List Message)) (next : MessagesByThread)
    (entry : String × List Message) : MessagesByThread :=
  match merged (threadMessages next entry.1) entry.2 with
  | none => next
  | some list => next.set entry.1 list

def appendMessages (viewer : String) (msgs : List Message) (store : MessagesByThread) : MessagesByThread :=
  if msgs = [] then store else (bucketByThread viewer msgs).rows.foldl (mergeThread appended) store

def prependMessages (viewer : String) (msgs : List Message) (store : MessagesByThread) : MessagesByThread :=
  if msgs = [] then store else (bucketByThread viewer msgs).rows.foldl (mergeThread prepended) store

inductive Call where
  | append (msgs : List Message)
  | prepend (msgs : List Message)

def Call.messages : Call → List Message
  | .append msgs => msgs
  | .prepend msgs => msgs

def Call.perform (viewer : String) (store : MessagesByThread) : Call → MessagesByThread
  | .append msgs => appendMessages viewer msgs store
  | .prepend msgs => prependMessages viewer msgs store

def run (viewer : String) (calls : List Call) : MessagesByThread := calls.foldl (Call.perform viewer) Table.empty

def passed (calls : List Call) : List Message := calls.flatMap Call.messages

/-! ## One merge -/

abbrev Ascending (msgs : List Message) : Prop := msgs.Pairwise fun a b => a.ts ≤ b.ts

theorem ascending_sortByTs (msgs : List Message) : Ascending (sortByTs msgs) := by
  exact List.pairwise_insertionSort _ msgs

theorem perm_sortByTs (msgs : List Message) : (sortByTs msgs).Perm msgs := List.perm_insertionSort _ _

theorem perm_joined (first second : List Message) : (joined first second).Perm (first ++ second) := by
  unfold joined
  split
  · exact .refl _
  · exact perm_sortByTs _

variable {first second : List Message}

theorem ascending_append (hFirst : Ascending first) (hSecond : Ascending second)
    (h : inOrder first second = true) : Ascending (first ++ second) := by
  refine List.pairwise_append.mpr ⟨hFirst, hSecond, fun a hA b hB => ?_⟩
  unfold inOrder at h
  cases hLast : first.getLast? with
  | none =>
    rw [List.getLast?_eq_none_iff.mp hLast] at hA
    cases hA
  | some last =>
    cases second with
    | nil => cases hB
    | cons head rest =>
      rw [hLast] at h
      have hMeet : last.ts ≤ head.ts := of_decide_eq_true h
      obtain ⟨before, rfl⟩ := List.getLast?_eq_some_iff.mp hLast
      have hHead : head.ts ≤ b.ts := (List.mem_cons.mp hB).elim (fun hSame => hSame ▸ le_rfl) (List.rel_of_pairwise_cons hSecond)
      have hEnd : a.ts ≤ last.ts := by
        rcases List.mem_append.mp hA with hBefore | hSame
        · exact (List.pairwise_append.mp hFirst).2.2 a hBefore last (List.mem_singleton_self _)
        · exact List.mem_singleton.mp hSame ▸ le_rfl
      exact hEnd.trans (hMeet.trans hHead)

theorem ascending_joined (hFirst : Ascending first) (hSecond : Ascending second) : Ascending (joined first second) := by
  unfold joined
  split
  · rename_i hOrder
    exact ascending_append hFirst hSecond hOrder
  · exact ascending_sortByTs _

/-- What is kept of a thread: the messages that were there and the fresh ones, in order. -/
structure Merges (merged : List Message → List Message → Option (List Message)) : Prop where
  nothing : ∀ existing, merged existing [] = none
  perm : ∀ existing incoming, ((merged existing incoming).getD existing).Perm (existing ++ fresh existing incoming)
  ascending : ∀ existing incoming, Ascending existing → Ascending ((merged existing incoming).getD existing)

theorem merges_appended : Merges appended := by
  constructor
  · exact fun existing => rfl
  · intro existing incoming
    unfold appended
    split
    · rename_i hNone
      rw [hNone, List.append_nil]
      exact .refl _
    · exact perm_joined _ _
  · intro existing incoming h
    unfold appended
    split
    · exact h
    · exact ascending_joined h (ascending_sortByTs _)

theorem merges_prepended : Merges prepended := by
  constructor
  · exact fun existing => rfl
  · intro existing incoming
    unfold prepended
    split
    · rename_i hNone
      rw [hNone, List.append_nil]
      exact .refl _
    · exact (perm_joined _ _).trans List.perm_append_comm
  · intro existing incoming h
    unfold prepended
    split
    · exact h
    · exact ascending_joined (ascending_sortByTs _) h

/-! ## One call -/

section Calls

variable {viewer : String} {store : MessagesByThread} {merged : List Message → List Message → Option (List Message)}

theorem get_mergeThread : KeyedMap.SetsOne (mergeThread merged) fun list incoming => (merged (list.getD []) incoming).or list := by
  intro next entry key
  unfold mergeThread threadMessages
  dsimp only
  split
  · rename_i hNone
    split
    · rename_i hKey
      rw [hKey] at hNone
      rw [hNone, Option.none_or]
    · rfl
  · rename_i list hSome
    rw [KeyedMap.get_set]
    split
    · rename_i hKey
      rw [hKey] at hSome
      rw [hSome, Option.some_or]
    · rfl

theorem threadMessages_foldl (hMerges : Merges merged) (msgs : List Message) (key : String) :
    threadMessages ((bucketByThread viewer msgs).rows.foldl (mergeThread merged) store) key =
      (merged (threadMessages store key) (msgs.filter fun m => threadKeyOf m viewer = key)).getD (threadMessages store key) := by
  unfold threadMessages
  rw [KeyedMap.get_foldl_rows get_mergeThread, bucketByThread, KeyedMap.get_group]
  split
  · rename_i hNone
    split at hNone
    · rename_i hEmpty
      rw [hEmpty, hMerges.nothing]
      rfl
    · cases hNone
  · rename_i incoming hSome
    split at hSome
    · cases hSome
    · cases hSome
      cases merged ((store.get key).getD []) (msgs.filter fun m => threadKeyOf m viewer = key) <;> rfl

def Identified (msgs : List Message) : Prop := ∀ m ∈ msgs, ∀ m' ∈ msgs, m.id = m'.id → m = m'

structure Kept (viewer key : String) (past list : List Message) : Prop where
  ascending : Ascending list
  once : (list.map Message.id).Nodup
  sound : ∀ m ∈ list, m ∈ past ∧ threadKeyOf m viewer = key
  complete : ∀ m ∈ past, threadKeyOf m viewer = key → m.id ∈ list.map Message.id

variable {key : String}

theorem Kept.merge {past list msgs : List Message} (h : Kept viewer key past list) (hMerges : Merges merged)
    (hIds : (msgs.map Message.id).Nodup) :
    Kept viewer key (past ++ msgs) ((merged list (msgs.filter fun m => threadKeyOf m viewer = key)).getD list) := by
  have hPerm := hMerges.perm list (msgs.filter fun m => threadKeyOf m viewer = key)
  have hFresh : ∀ m, m ∈ fresh list (msgs.filter fun m => threadKeyOf m viewer = key) ↔
      (m ∈ msgs ∧ threadKeyOf m viewer = key) ∧ m.id ∉ list.map Message.id := by
    intro m
    rw [fresh, (perm_sortByTs _).mem_iff, List.mem_filter, List.mem_filter, decide_eq_true_eq, decide_eq_true_eq]
  refine ⟨hMerges.ascending _ _ h.ascending, ?_, fun m hMem => ?_, fun m hPast hKey => ?_⟩
  · rw [(hPerm.map Message.id).nodup_iff, List.map_append]
    refine List.nodup_append'.mpr ⟨h.once, ?_, fun id hOld hNew => ?_⟩
    · rw [fresh, ((perm_sortByTs _).map Message.id).nodup_iff]
      exact hIds.sublist ((List.filter_sublist.trans List.filter_sublist).map _)
    · obtain ⟨m, hMem, rfl⟩ := List.mem_map.mp hNew
      exact ((hFresh m).mp hMem).2 hOld
  · rcases List.mem_append.mp (hPerm.mem_iff.mp hMem) with hOld | hNew
    · exact ⟨List.mem_append_left _ (h.sound m hOld).1, (h.sound m hOld).2⟩
    · obtain ⟨⟨hMsgs, hKey⟩, _⟩ := (hFresh m).mp hNew
      exact ⟨List.mem_append_right _ hMsgs, hKey⟩
  · rw [(hPerm.map Message.id).mem_iff, List.map_append, List.mem_append]
    rcases List.mem_append.mp hPast with hOld | hNew
    · exact .inl (h.complete m hOld hKey)
    · by_cases hThere : m.id ∈ list.map Message.id
      · exact .inl hThere
      · exact .inr (List.mem_map_of_mem ((hFresh m).mpr ⟨⟨hNew, hKey⟩, hThere⟩))

variable {past : List Message}

theorem Kept.perform (h : Kept viewer key past (threadMessages store key)) {call : Call}
    (hIds : (call.messages.map Message.id).Nodup) :
    Kept viewer key (past ++ call.messages) (threadMessages (call.perform viewer store) key) := by
  have hNone : ∀ {msgs : List Message}, msgs = [] → Kept viewer key (past ++ msgs) (threadMessages store key) := by
    rintro _ rfl
    rw [List.append_nil]
    exact h
  cases call with
  | append msgs =>
    rw [Call.perform, appendMessages]
    split
    · exact hNone ‹_›
    · rw [threadMessages_foldl merges_appended]
      exact h.merge merges_appended hIds
  | prepend msgs =>
    rw [Call.perform, prependMessages]
    split
    · exact hNone ‹_›
    · rw [threadMessages_foldl merges_prepended]
      exact h.merge merges_prepended hIds

variable {calls : List Call}

theorem Kept.run (h : Kept viewer key past (threadMessages store key))
    (hIds : ∀ call ∈ calls, (call.messages.map Message.id).Nodup) :
    Kept viewer key (past ++ passed calls) (threadMessages (calls.foldl (Call.perform viewer) store) key) := by
  induction calls generalizing store past with
  | nil => exact (List.append_nil past).symm ▸ h
  | cons call calls ih =>
    obtain ⟨hFirst, hRest⟩ := List.forall_mem_cons.mp hIds
    rw [passed, List.flatMap_cons, ← List.append_assoc]
    exact ih (h.perform hFirst) hRest

theorem kept_run (hIds : ∀ call ∈ calls, (call.messages.map Message.id).Nodup) (key : String) :
    Kept viewer key (passed calls) (threadMessages (Messages.run viewer calls) key) := by
  have hEmpty : Kept viewer key [] (threadMessages Table.empty key) :=
    ⟨.nil, List.nodup_nil, fun _ hMem => (nomatch hMem), fun _ hMem => (nomatch hMem)⟩
  exact hEmpty.run hIds

theorem Kept.mem_iff {past list : List Message} (h : Kept viewer key past list) (hSame : Identified past) (m : Message) :
    m ∈ list ↔ m ∈ past ∧ threadKeyOf m viewer = key := by
  refine ⟨h.sound m, fun ⟨hPast, hKey⟩ => ?_⟩
  obtain ⟨other, hOther, hId⟩ := List.mem_map.mp (h.complete m hPast hKey)
  rw [← hSame other (h.sound other hOther).1 m hPast hId]
  exact hOther

theorem Kept.same {past past' list list' : List Message} (h : Kept viewer key past list) (h' : Kept viewer key past' list')
    (hSame : Identified past) (hPast : ∀ m, m ∈ past ↔ m ∈ past') : list.Perm list' ∧ list.map Message.ts = list'.map Message.ts := by
  have hSame' : Identified past' := fun m hMem m' hMem' => hSame m ((hPast m).mpr hMem) m' ((hPast m').mpr hMem')
  have hPerm : list.Perm list' := by
    refine (List.perm_ext_iff_of_nodup h.once.of_map h'.once.of_map).mpr fun m => ?_
    rw [h.mem_iff hSame, h'.mem_iff hSame', hPast]
  refine ⟨hPerm, (hPerm.map Message.ts).eq_of_pairwise (fun _ _ _ _ => le_antisymm) ?_ ?_⟩
  · exact List.pairwise_map.mpr h.ascending
  · exact List.pairwise_map.mpr h'.ascending

end Calls

/-- After any calls the list of each thread is ascending, holds each id once and exactly what was passed to it, whatever the
batches and their order. -/
theorem threads_sorted_complete (viewer : String) (calls : List Call) (hIds : ∀ call ∈ calls, (call.messages.map Message.id).Nodup) :
    (∀ key, Kept viewer key (passed calls) (threadMessages (run viewer calls) key)) ∧
      (Identified (passed calls) →
        (∀ key m, m ∈ threadMessages (run viewer calls) key ↔ m ∈ passed calls ∧ threadKeyOf m viewer = key) ∧
        ∀ calls' : List Call, (∀ call ∈ calls', (call.messages.map Message.id).Nodup) → (∀ m, m ∈ passed calls ↔ m ∈ passed calls') →
          ∀ key, (threadMessages (run viewer calls) key).Perm (threadMessages (run viewer calls') key) ∧
            (threadMessages (run viewer calls) key).map Message.ts = (threadMessages (run viewer calls') key).map Message.ts) :=
  ⟨kept_run hIds, fun hSame => ⟨fun key => (kept_run hIds key).mem_iff hSame, fun _ hIds' hPast key =>
    (kept_run hIds key).same (kept_run hIds' key) hSame hPast⟩⟩

section Examples

/-- A message in the team's thread, or from `bob` to `ann`. -/
def posted (id : String) : Message where
  id := id
  ts := if id = "a" then 10 else if id = "b" then 20 else if id = "c" then 20 else 5
  toName := if id = "d" then some "ann" else none
  fromName := some "bob"
  title := none
  body := id
  level := .info
  data := []
  attachments := []

def crossing : List Call :=
  [.append [posted "b"], .prepend [posted "b", posted "a"], .append [posted "c", posted "d", posted "a"]]

def together : List Call := [.append [posted "d", posted "c", posted "b", posted "a"]]

theorem nodup_crossing : ∀ call ∈ crossing, (call.messages.map Message.id).Nodup := by decide

theorem identified_crossing : Identified (passed crossing) := by
  have hPosted : ∀ m ∈ passed crossing, m = posted m.id := by simp [passed, crossing, Call.messages, posted]
  intro m hMem m' hMem' hId
  rw [hPosted m hMem, hPosted m' hMem', hId]

theorem crossing_sorted_complete :
    (threadMessages (run "ann" crossing) "dm:bob" = [posted "d"] ∧
        threadMessages (run "ann" crossing) "primary" = [posted "a", posted "b", posted "c"]) ∧
      (∀ key, Kept "ann" key (passed crossing) (threadMessages (run "ann" crossing) key)) ∧
      (∀ key m, m ∈ threadMessages (run "ann" crossing) key ↔ m ∈ passed crossing ∧ threadKeyOf m "ann" = key) ∧
      ∀ key, (threadMessages (run "ann" crossing) key).Perm (threadMessages (run "ann" together) key) ∧
        (threadMessages (run "ann" crossing) key).map Message.ts = (threadMessages (run "ann" together) key).map Message.ts := by
  obtain ⟨hKept, hSame⟩ := threads_sorted_complete "ann" crossing nodup_crossing
  obtain ⟨hExact, hOther⟩ := hSame identified_crossing
  refine ⟨⟨rfl, rfl⟩, hKept, hExact, hOther together (by decide) fun m => ?_⟩
  simp [passed, crossing, together, Call.messages]
  tauto

end Examples

end CommandSuite.Messages
