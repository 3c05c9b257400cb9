import CommandSuite.Core.EventLogAgreement
import CommandSuite.Library.Keyset

/-! # What a query may return

A message that either log returns is one that was appended, and the condition of the query admits
it: a channel query looks at the thread tag alone, the others at the audience.
-/

namespace CommandSuite

open Library EventLog SqliteEventLog

namespace EventLog

/-- The viewer sent the entry, is its target, or is in the audience of a message to nobody. -/
def InAudience (viewer : String) (entry : StoredEvent) : Prop :=
  entry.message.fromName = some viewer ∨ entry.message.toName = some viewer ∨
    entry.message.toName = none ∧ ∀ recipients, entry.recipients = some recipients → viewer ∈ recipients

def isTagged (ev : Message) : Bool :=
  match threadOf ev with
  | some (.string tag) => tag ≠ ""
  | _ => false

def ShownInChannel (channel : String) (ev : Message) : Prop :=
  threadOf ev = some (.string (channelThreadTag channel)) ∨ channel = GENERAL_CHANNEL_ID ∧ ev.toName = none ∧ isTagged ev = false

def Shown (options : QueryOptions) (entry : StoredEvent) : Prop :=
  match options.channel with
  | some channel => ShownInChannel channel entry.message
  | none => InAudience options.viewer entry

variable {entry : StoredEvent} {viewer : String}

theorem inAudience_of_feedVisibleTo (h : feedVisibleTo entry.message entry.recipients viewer = true) : InAudience viewer entry := by
  unfold feedVisibleTo at h
  split at h
  · cases h
  · split at h
    · cases h
    · rename_i hEnds
      split at h
      · rename_i hFrom
        exact .inl hFrom
      · rename_i hFrom
        by_cases hTo : entry.message.toName = none
        · refine .inr (.inr ⟨hTo, ?_⟩)
          intro recipients hRecipients
          rw [hRecipients] at h
          exact of_decide_eq_true h
        · refine .inr (.inl ?_)
          by_contra hViewer
          exact hEnds ⟨hTo, hFrom, hViewer⟩

theorem inAudience_of_matchesViewer {withOther : Option String}
    (h : matchesViewer entry.message entry.recipients viewer withOther = true) : InAudience viewer entry := by
  unfold matchesViewer at h
  split at h
  · split at h
    · cases h
    · split at h
      · rename_i hSent
        exact .inl hSent.1
      · exact .inr (.inl (of_decide_eq_true h).2)
  · exact inAudience_of_feedVisibleTo h

theorem shownInChannel_of_matchesChannel {ev : Message} {channel : String} (h : matchesChannel ev channel = true) :
    ShownInChannel channel ev := by
  have hUntagged : ∀ untagged : Bool, untagged = (if channel = GENERAL_CHANNEL_ID then decide (ev.toName = none) else false) →
      untagged = true → isTagged ev = false → ShownInChannel channel ev := by
    rintro untagged rfl hTrue hTag
    split at hTrue
    · rename_i hGeneral
      exact .inr ⟨hGeneral, of_decide_eq_true hTrue, hTag⟩
    · cases hTrue
  unfold matchesChannel at h
  dsimp only at h
  split at h
  · rename_i tag hThread
    split at h
    · refine .inl ?_
      rw [hThread, of_decide_eq_true h]
    · rename_i hEmpty
      refine hUntagged _ rfl h ?_
      rw [isTagged, hThread]
      simpa using hEmpty
  · rename_i hThread
    refine hUntagged _ rfl h ?_
    unfold isTagged
    split
    · exact absurd ‹_› (hThread _)
    · rfl

end EventLog

/-- A log whose queries return only what was appended and what their condition admits. -/
class LawfulEventLog (E : Type) extends EventLog E where
  Stores : E → StoredEvent → Prop
  stores_append : ∀ log message recipients after entry, append message recipients log = some after →
    Stores after entry → Stores log entry ∨ entry = ⟨message, recipients⟩
  mem_query : ∀ log options message, message ∈ query options log →
    ∃ entry, Stores log entry ∧ entry.message = message ∧ Shown options entry

instance : LawfulEventLog InMemoryEventLog where
  Stores log entry := entry ∈ log.stored
  stores_append log message recipients after entry hAppend hStored := by
    cases hAppend
    simpa [InMemoryEventLog.append] using hStored
  mem_query log options message hMem := by
    rcases mem_walk hMem with hNil | ⟨entry, hEntry, hMessage, hSelects⟩
    · cases hNil
    · refine ⟨entry, List.mem_reverse.mp hEntry, hMessage, ?_⟩
      unfold selects at hSelects
      dsimp only at hSelects
      split at hSelects
      · cases hSelects
      · rw [Shown]
        cases hChannel : options.channel with
        | some channel =>
          rw [hChannel] at hSelects
          exact shownInChannel_of_matchesChannel hSelects
        | none =>
          rw [hChannel] at hSelects
          exact inAudience_of_matchesViewer hSelects

namespace SqliteEventLog

open Sql.Truth Sql.Value

variable (json : JsonText) {row : EventRow}

theorem inAudience_of_queryFeedStmt {viewer : String}
    (h : (queryFeedStmt json viewer row).accepts = true) :
    InAudience viewer ⟨rowToMessage row, row.recipients⟩ := by
  rw [accepts_queryFeedStmt] at h
  simp only [Bool.and_eq_true, Bool.or_eq_true, decide_eq_true_eq] at h
  obtain ⟨⟨hEnds, _⟩, hAudience⟩ := h
  rcases hEnds with (hTo | hFrom) | hTo
  · rcases hAudience with hFrom | hAudience
    · exact .inl hFrom
    · refine .inr (.inr ⟨hTo, ?_⟩)
      rintro recipients (hRecipients : row.recipients = some recipients)
      rw [hRecipients] at hAudience
      exact of_decide_eq_true hAudience
  · exact .inl hFrom
  · exact .inr (.inl hTo)

theorem inAudience_of_queryDmStmt {viewer withOther : String}
    (h : (queryDmStmt viewer withOther row).accepts = true) :
    InAudience viewer ⟨rowToMessage row, row.recipients⟩ := by
  simp only [queryDmStmt, accepts_and, accepts_or, accepts_eq_name, Bool.and_eq_true, Bool.or_eq_true, decide_eq_true_eq] at h
  rcases h.2 with hSent | hReceived
  · exact .inl hSent.1
  · exact .inr (.inl hReceived.2)

theorem shownInChannel_of_channelStatement {channel : String}
    (h : (channelStatement json channel row).accepts = true) : ShownInChannel channel (rowToMessage row) := by
  have hTag : (channelThreadTag channel).toList.head?.any Char.isAlpha = true := by
    rw [channelThreadTag, String.toList_append]
    rfl
  have hEqual := accepts_eq_text json row.data "thread" hTag
  unfold channelStatement at h
  dsimp only at h
  split at h
  · rename_i hGeneral
    rw [queryGeneralStmt, accepts_or, accepts_and, Bool.or_eq_true, Bool.and_eq_true] at h
    rcases h with hThread | ⟨hTo, hNull⟩
    · exact .inl (hEqual.mp hThread)
    · refine .inr ⟨hGeneral, ?_, ?_⟩
      · rw [accepts_isNull_name] at hTo
        exact of_decide_eq_true hTo
      · have hThread : threadOf (rowToMessage row) = none ∨ threadOf (rowToMessage row) = some .null :=
          (accepts_isNull_thread json row.data "thread").mp hNull
        rcases hThread with hThread | hThread <;> simp [isTagged, hThread]
  · exact .inl (hEqual.mp h)

theorem shown_of_statement {options : QueryOptions}
    (h : (statement json options row).accepts = true) : Shown options ⟨rowToMessage row, row.recipients⟩ := by
  unfold statement at h
  rw [Shown]
  cases hChannel : options.channel with
  | some channel =>
    rw [hChannel] at h
    exact shownInChannel_of_channelStatement json h
  | none =>
    rw [hChannel] at h
    dsimp only at h
    split at h
    · split at h
      · exact inAudience_of_queryDmStmt h
      · exact inAudience_of_queryFeedStmt json h
    · exact inAudience_of_queryFeedStmt json h

instance {json : JsonText} {plan : Sql.ScanPlan EventRow} : LawfulEventLog (SqliteEventLog json plan) where
  Stores log entry := ∃ row ∈ log.events.rows, entry = ⟨rowToMessage row, row.recipients⟩
  stores_append log message recipients after entry hAppend hStored := by
    obtain ⟨row, hRow, rfl⟩ := hStored
    change append message recipients log = some after at hAppend
    unfold append at hAppend
    split at hAppend
    · cases hAppend
    · rename_i hFresh
      obtain rfl := Option.some.inj hAppend
      have hNone : log.events.find (rowKey (toRow message recipients)) = none := Option.not_isSome_iff_eq_none.mp hFresh
      rw [Table.rows_insertOrIgnore, if_pos hNone] at hRow
      rcases List.mem_append.mp hRow with hOld | hNew
      · exact .inl ⟨row, hOld, rfl⟩
      · rw [List.mem_singleton.mp hNew, rowToMessage_toRow]
        exact .inr rfl
  mem_query log options message hMem := by
    obtain ⟨row, hRow, rfl⟩ := List.mem_map.mp hMem
    have hSelected := (plan.perm _).mem_iff.mp
      ((List.perm_insertionSort _ _).mem_iff.mp (List.mem_of_mem_take hRow))
    obtain ⟨hStored, hAccepts⟩ := (Table.mem_select _ _ row).mp hSelected
    simp only [Bool.and_eq_true] at hAccepts
    exact ⟨⟨rowToMessage row, row.recipients⟩, ⟨row, hStored, rfl⟩, rfl, shown_of_statement json hAccepts.2⟩

end SqliteEventLog

end CommandSuite

/-! ## Reading a history page by page

The client of `query`: each page is asked for what is older than the last message of the page before.
-/

namespace CommandSuite.SqliteEventLog

open Library Keyset
open EventLog (QueryOptions clampQueryLimit)

variable {json : JsonText} {plan : Sql.ScanPlan EventRow} (options : QueryOptions) (log : SqliteEventLog json plan)

def pagesBack : Nat → Option Rat → List Message
  | 0, _ => []
  | steps + 1, before =>
    let page := query { options with before := before } log
    match page.getLast? with
    | none => []
    | some last => page ++ pagesBack steps (some last.ts)

def matching : List Message := (log.events.select fun row => (statement json options row).accepts).map rowToMessage

def time (message : Message) : Rat := message.ts

def AtLeastOne : Prop := ∀ raw, options.limit = some (.finite raw) → 1 ≤ raw

variable {options log}

theorem clampQueryLimit_pos (h : AtLeastOne options) : 0 < clampQueryLimit options.limit := by
  unfold clampQueryLimit
  split
  · decide
  · decide
  · rename_i raw hRaw
    have hOne := h raw hRaw
    rw [if_neg (not_le.mpr (zero_lt_one.trans_le hOne))]
    have hFloor : 1 ≤ ⌊raw⌋ := Int.le_floor.mpr (by exact_mod_cast hOne)
    exact Nat.lt_min.mpr ⟨by omega, by decide⟩

theorem isPage_query (bound : Rat) :
    IsPage time (matching options log) (clampQueryLimit options.limit) bound (query { options with before := some bound } log) := by
  refine ⟨((plan.order (log.events.select fun row => (row.ts : Rat) < bound && (statement json options row).accepts)).insertionSort
    fun a b => b.ts ≤ a.ts).map rowToMessage, ?_, ?_, ?_⟩
  · have hSelect : below time (matching options log) bound =
        (log.events.select fun row => (row.ts : Rat) < bound && (statement json options row).accepts).map rowToMessage := by
      rw [below, matching, List.filter_map, Table.select, Table.select, List.filter_filter]
      rfl
    rw [hSelect]
    exact ((List.perm_insertionSort _ _).trans (plan.perm _)).map rowToMessage
  · refine List.pairwise_map.mpr ((List.pairwise_insertionSort _ _).imp fun h => ?_)
    exact Int.cast_le.mpr h
  · exact List.map_take

theorem pagesBack_some (steps : Nat) (bound : Rat) : pagesBack options log steps (some bound) =
    walk time (fun bound => query { options with before := some bound } log) steps bound := by
  induction steps generalizing bound with
  | zero => rfl
  | succ steps ih =>
    simp only [pagesBack, walk, ih]
    cases (query { options with before := some bound } log).getLast? with
    | none => rfl
    | some last => rfl

theorem pagesBack_none (steps : Nat) : pagesBack options log steps none = pagesBack options log steps (some MAX_SAFE_INTEGER) := by
  cases steps with
  | zero => rfl
  | succ steps => rfl

/-- Page by page, a history is read back completely exactly if no page ends between two messages of one time. -/
theorem history_read_back (options : QueryOptions) (log : SqliteEventLog json plan) (hLimit : AtLeastOne options)
    {steps : Nat} (hSteps : (matching options log).length ≤ steps) :
    (pagesBack options log steps none).Perm (matching options log) ↔
      (∀ message ∈ matching options log, time message < MAX_SAFE_INTEGER) ∧
        Unsplit (clampQueryLimit options.limit) (((matching options log).map time).insertionSort (· ≥ ·)) := by
  rw [pagesBack_none, pagesBack_some]
  by_cases hSafe : ∀ message ∈ matching options log, time message < MAX_SAFE_INTEGER
  · have hAll : below time (matching options log) MAX_SAFE_INTEGER = matching options log :=
      List.filter_eq_self.mpr fun message hMem => by simpa using hSafe message hMem
    have hWalk := walk_perm_iff isPage_query (clampQueryLimit_pos hLimit) (hAll.symm ▸ hSteps)
    rw [hAll] at hWalk
    rw [hWalk, and_iff_right hSafe]
  · refine iff_of_false (fun hSame => hSafe fun message hMem => ?_) fun hBoth => hSafe hBoth.1
    exact key_lt_of_mem_walk isPage_query (hSame.mem_iff.mpr hMem)

def threeBroadcasts : SqliteEventLog brackets ⟨id, fun rows => .refl rows⟩ where
  events :=
    { rows := [⟨"m1", 1, none, some "alice", none, "one", .info, [], none, none⟩,
        ⟨"m2", 1, none, some "alice", none, "two", .info, [], none, none⟩,
        ⟨"m3", 2, none, some "alice", none, "three", .info, [], none, none⟩]
      nodup := by decide }

def inTwos : QueryOptions := ⟨"bob", none, none, some (.finite 2), none⟩

theorem atLeastOne_inTwos : AtLeastOne inTwos := by
  intro raw hRaw
  obtain rfl : (2 : Rat) = raw := by simpa [inTwos] using hRaw
  decide

theorem tie_at_page_end_lost : ¬ ∀ (json : JsonText) (plan : Sql.ScanPlan EventRow) (options : QueryOptions) (log : SqliteEventLog json plan)
    (steps : Nat), AtLeastOne options → (matching options log).length ≤ steps →
      (pagesBack options log steps none).Perm (matching options log) := by
  intro hAll
  have hLength := (hAll brackets ⟨id, fun rows => .refl rows⟩ inTwos threeBroadcasts 3 atLeastOne_inTwos (by decide)).length_eq
  revert hLength
  decide

theorem one_page_read_back : (pagesBack ⟨"bob", none, none, none, none⟩ threeBroadcasts 3 none).Perm
    (matching ⟨"bob", none, none, none, none⟩ threeBroadcasts) := by
  refine (history_read_back _ threeBroadcasts (fun raw hRaw => by cases hRaw) (by decide)).mpr ⟨by decide, fun pages newer hNewer => ?_⟩
  cases pages with
  | zero => simp at hNewer
  | succ pages =>
    rw [List.drop_eq_nil_of_le]
    · exact fun older hOlder => absurd hOlder List.not_mem_nil
    · have hThree : (matching ⟨"bob", none, none, none, none⟩ threeBroadcasts).length ≤ clampQueryLimit none := by decide
      rw [List.length_insertionSort, List.length_map]
      exact hThree.trans (Nat.le_mul_of_pos_left _ (Nat.succ_pos pages))

end CommandSuite.SqliteEventLog
