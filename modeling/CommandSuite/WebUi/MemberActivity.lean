import CommandSuite.Core.ActivityStore.Agreement

/-! # The timeline of a member

`packages/web-ui/src/lib/member-activity.ts`: the rows of the member that is shown, oldest first. The answers of the
server are pages of its rows at some moment between a request and its completion.
-/

namespace CommandSuite.MemberTimeline

open Library ActivityStore Transcript

def INITIAL_RETRY_MS : Nat := 1000

def MAX_RETRY_MS : Nat := 30000

structure Timeline (P : Type) where
  rows : List (ActivityRow P)
  connected : Bool
  loading : Bool
  error : Option String
  name : String
  exhausted : Bool
  retryMs : Nat

inductive Note where
  | hydrateGenAiCalls (since : Option Nat)
  | extendGenAiCallsBack (since : Nat)
  | notifyExchangeArrived
  | reconnect (afterMs : Nat)
  | onError
  deriving DecidableEq

section Timeline

variable {P : Type}

def started (name : String) : Timeline P := ⟨[], false, true, none, name, false, INITIAL_RETRY_MS⟩

def hydrated (hydrationLimit : Nat) (rows : List (ActivityRow P)) (timeline : Timeline P) : Timeline P × List Note :=
  ({ timeline with
      rows := rows.reverse
      exhausted := timeline.exhausted || rows.length < hydrationLimit
      error := none
      loading := false },
    [.hydrateGenAiCalls (rows.reverse.head?.map fun row => row.event.ts)])

def hydrationFailed (message : String) (timeline : Timeline P) : Timeline P × List Note :=
  ({ timeline with error := some message, loading := false }, [.onError])

def mergeRow (rows : List (ActivityRow P)) (row : ActivityRow P) : List (ActivityRow P) :=
  if rows.any fun r => r.id = row.id then rows
  else if rows.getLast?.all fun newest => row.event.ts ≥ newest.event.ts then rows ++ [row]
  else
    match rows.findIdx? fun r => r.event.ts > row.event.ts with
    | none => rows ++ [row]
    | some idx => rows.insertIdx idx row

def arrive (row : ActivityRow P) (timeline : Timeline P) : Timeline P × List Note :=
  ({ timeline with rows := mergeRow timeline.rows row }, if row.event.kind = .llmExchange then [.notifyExchangeArrived] else [])

/-- The row that `loadOlder` asks behind, if it asks. -/
def oldestToLoad (timeline : Timeline P) : Option (ActivityRow P) :=
  if timeline.name = "" || timeline.exhausted then none else timeline.rows.head?

def dedupe (rows : List (ActivityRow P)) : List (ActivityRow P) := FirstSeen.firsts (fun row => some row.id) (fun _ => false) rows

/-- `rows` are those that were shown when the page was asked for. -/
def loadedOlder (limit : Nat) (rows olderDesc : List (ActivityRow P)) (timeline : Timeline P) : Timeline P × List Note :=
  if olderDesc.isEmpty then ({ timeline with exhausted := true, loading := false }, [])
  else
    ({ timeline with
        rows := dedupe (olderDesc.reverse ++ rows)
        exhausted := timeline.exhausted || olderDesc.length < limit
        loading := false },
      (olderDesc.reverse.head?.map fun row => Note.extendGenAiCallsBack row.event.ts).toList)

def loadOlderFailed (message : String) (timeline : Timeline P) : Timeline P × List Note :=
  ({ timeline with error := some message, loading := false }, [])

def opened (timeline : Timeline P) : Timeline P := { timeline with connected := true, retryMs := INITIAL_RETRY_MS }

def closed (timeline : Timeline P) : Timeline P × List Note :=
  ({ timeline with connected := false, retryMs := min (timeline.retryMs * 2) MAX_RETRY_MS }, [.reconnect timeline.retryMs])

/-! ## The requests and the server -/

inductive Query (P : Type) where
  | hydrate
  | loadOlder (rows : List (ActivityRow P)) (oldest : ActivityRow P)

def Query.cursor : Query P → Option ActivityCursor
  | .hydrate => none
  | .loadOlder _ oldest => some ⟨oldest.event.ts, oldest.id⟩

structure Request (P : Type) where
  query : Query P
  limit : Nat
  answer : Option (List (ActivityRow P))

def page (rows : List (ActivityRow P)) (cursor : Option ActivityCursor) (limit : Nat) : List (ActivityRow P) :=
  ((rows.filter fun row => cursor.all fun cursor => below cursor row).insertionSort newestFirst).take limit

structure World (P : Type) where
  timeline : Timeline P
  server : List (ActivityRow P)
  taken : List (ActivityRow P)
  requests : List (Request P)

inductive Input (P : Type) where
  | take (row : ActivityRow P)
  | prune (cutoffTs : Nat)
  | opened
  | closed
  | errored
  | arrived (index : Nat)
  | garbled
  | loadOlder (limit : Nat)
  | answered (index : Nat)
  | completed (index : Nat)
  | failed (index : Nat) (message : String)

def Request.complete (request : Request P) (rows : List (ActivityRow P)) : Timeline P → Timeline P × List Note :=
  match request.query with
  | .hydrate => hydrated request.limit rows
  | .loadOlder shown _ => loadedOlder request.limit shown rows

def Request.fail (request : Request P) (message : String) : Timeline P → Timeline P × List Note :=
  match request.query with
  | .hydrate => hydrationFailed message
  | .loadOlder _ _ => loadOlderFailed message

def World.show (world : World P) (shown : Timeline P × List Note) : World P × List Note :=
  ({ world with timeline := shown.1 }, shown.2)

def next (hydrationLimit : Nat) : Machine (World P) (Input P) (List Note) := fun world input =>
  match input with
  | .take row =>
    if row.id ∈ world.taken.map ActivityRow.id then (world, [])
    else ({ world with server := world.server ++ [row], taken := world.taken ++ [row] }, [])
  | .prune cutoffTs => ({ world with server := world.server.filter fun row => cutoffTs ≤ row.event.ts }, [])
  | .opened =>
    ({ world with timeline := opened world.timeline, requests := world.requests ++ [⟨.hydrate, hydrationLimit, none⟩] }, [])
  | .closed => world.show (closed world.timeline)
  | .errored => world.show ({ world.timeline with connected := false }, [])
  | .arrived index =>
    match world.taken[index]? with
    | none => (world, [])
    | some row => world.show (arrive row world.timeline)
  | .garbled => (world, [.onError])
  | .loadOlder limit =>
    match oldestToLoad world.timeline with
    | none => (world, [])
    | some oldest =>
      ({ world with
          timeline := { world.timeline with loading := true }
          requests := world.requests ++ [⟨.loadOlder world.timeline.rows oldest, limit, none⟩] }, [])
  | .answered index =>
    ({ world with
        requests := world.requests.modify index fun request =>
          { request with answer := some (request.answer.getD (page world.server request.query.cursor request.limit)) } }, [])
  | .completed index =>
    match world.requests[index]? with
    | some request =>
      match request.answer with
      | some rows => World.show { world with requests := world.requests.eraseIdx index } (request.complete rows world.timeline)
      | none => (world, [])
    | none => (world, [])
  | .failed index message =>
    match world.requests[index]? with
    | some request => World.show { world with requests := world.requests.eraseIdx index } (request.fail message world.timeline)
    | none => (world, [])

end Timeline

/-! ## What is asked of it -/

variable {P : Type}

def Ascending (rows : List (ActivityRow P)) : Prop := rows.Pairwise fun a b => a.event.ts ≤ b.event.ts

def Distinct (rows : List (ActivityRow P)) : Prop := (rows.map ActivityRow.id).Nodup

def NoneOlder (server : List (ActivityRow P)) (oldest : Option (ActivityRow P)) : Prop :=
  ∀ row, oldest = some row → ∀ other ∈ server, row.event.ts ≤ other.event.ts

def Exhaustive (world : World P) : Prop := world.timeline.exhausted = true → NoneOlder world.server world.timeline.rows.head?

structure Watched (P : Type) where
  world : World P
  seen : List (ActivityRow P)

def watch (hydrationLimit : Nat) : Machine (Watched P) (Input P) (List Note) := fun watched input =>
  (⟨(next hydrationLimit watched.world input).1,
    watched.seen ++ (next hydrationLimit watched.world input).1.timeline.rows⟩, (next hydrationLimit watched.world input).2)

structure Truthful (watched : Watched P) : Prop where
  ascending : Ascending watched.world.timeline.rows
  distinct : Distinct watched.world.timeline.rows
  kept : ∀ row ∈ watched.seen, row ∈ watched.world.timeline.rows
  exhausted : Exhaustive watched.world

/-- What may be shown of an answer: nothing that is shown is missing, and the end is not announced while the server holds an older
row. -/
def Request.Fits (request : Request P) (rows : List (ActivityRow P)) (world : World P) : Prop :=
  match request.query with
  | .hydrate =>
    (∀ row ∈ world.timeline.rows, row ∈ rows) ∧
      (world.timeline.exhausted = true ∨ rows.length < request.limit → NoneOlder world.server rows.getLast?)
  | .loadOlder shown _ =>
    (rows = [] → NoneOlder world.server world.timeline.rows.head?) ∧
      (rows ≠ [] → (∀ row ∈ world.timeline.rows, row ∈ rows ∨ row ∈ shown) ∧
        (world.timeline.exhausted = true ∨ rows.length < request.limit → NoneOlder world.server rows.getLast?))

variable {rows : List (ActivityRow P)}

/-- While the end is announced the server takes no row older than those shown, and the first row shown is no newer than the server's. -/
def Fits (world : World P) : Input P → Prop
  | .take row => row.id ∉ world.taken.map ActivityRow.id → world.timeline.exhausted = true →
    NoneOlder [row] world.timeline.rows.head?
  | .arrived index => world.timeline.exhausted = true → world.timeline.rows = [] → NoneOlder world.server world.taken[index]?
  | .completed index => ∀ request rows, world.requests[index]? = some request → request.answer = some rows → request.Fits rows world
  | _ => True

/-! ## Lists of rows -/

theorem insertIdx_eq (row : ActivityRow P) {idx : Nat} (h : idx ≤ rows.length) :
    rows.insertIdx idx row = rows.take idx ++ row :: rows.drop idx := by
  induction rows generalizing idx with
  | nil =>
    obtain rfl := Nat.le_zero.mp h
    rfl
  | cons first rows ih =>
    cases idx with
    | zero => rfl
    | succ idx =>
      rw [List.insertIdx_succ_cons, ih (Nat.le_of_succ_le_succ h)]
      rfl

variable {row : ActivityRow P}

theorem mergeRow_split (h : Ascending rows) (hNew : row.id ∉ rows.map ActivityRow.id) :
    ∃ first second, rows = first ++ second ∧ mergeRow rows row = first ++ row :: second ∧
      (∀ r ∈ first, r.event.ts ≤ row.event.ts) ∧ ∀ r ∈ second, row.event.ts < r.event.ts := by
  have hAny : ¬ (rows.any fun r => r.id = row.id) = true := by
    rw [List.any_eq_true]
    rintro ⟨r, hR, hSame⟩
    exact hNew (of_decide_eq_true hSame ▸ List.mem_map_of_mem hR)
  unfold mergeRow
  rw [if_neg hAny]
  split
  · rename_i hLast
    refine ⟨rows, [], (List.append_nil rows).symm, rfl, fun r hR => ?_, fun _ hNone => nomatch hNone⟩
    obtain ⟨first, newest, rfl⟩ := (List.eq_nil_or_concat rows).resolve_left (List.ne_nil_of_mem hR)
    rw [List.concat_eq_append] at h hLast hR
    rw [List.getLast?_concat, Option.all_some, decide_eq_true_eq] at hLast
    rcases List.mem_append.mp hR with hFirst | hNewest
    · exact ((List.pairwise_append.mp h).2.2 r hFirst newest (List.mem_singleton_self newest)).trans hLast
    · rw [List.mem_singleton.mp hNewest]
      exact hLast
  · cases hIdx : rows.findIdx? fun r => r.event.ts > row.event.ts with
    | none =>
      rw [List.findIdx?_eq_none_iff] at hIdx
      refine ⟨rows, [], (List.append_nil rows).symm, rfl, fun r hR => ?_, fun _ hNone => nomatch hNone⟩
      simpa using hIdx r hR
    | some idx =>
      obtain ⟨hLess, hAt, hBefore⟩ := List.findIdx?_eq_some_iff_getElem.mp hIdx
      refine ⟨rows.take idx, rows.drop idx, (List.take_append_drop idx rows).symm,
        insertIdx_eq row (Nat.le_of_lt hLess), fun r hR => ?_, fun r hR => ?_⟩
      · obtain ⟨j, hJ, rfl⟩ := List.mem_take_iff_getElem.mp hR
        simpa using hBefore j (Nat.lt_of_lt_of_le hJ (Nat.min_le_left _ _))
      · rw [List.drop_eq_getElem_cons hLess] at hR
        have hTail : Ascending (rows.drop idx) := h.sublist (List.drop_sublist idx rows)
        rw [Ascending, List.drop_eq_getElem_cons hLess, List.pairwise_cons] at hTail
        have hStart : row.event.ts < rows[idx].event.ts := of_decide_eq_true hAt
        rcases List.mem_cons.mp hR with rfl | hLater
        · exact hStart
        · exact hStart.trans_le (hTail.1 r hLater)

theorem mergeRow_known (h : row.id ∈ rows.map ActivityRow.id) : mergeRow rows row = rows := by
  obtain ⟨known, hKnown, hSame⟩ := List.mem_map.mp h
  exact if_pos (List.any_eq_true.mpr ⟨known, hKnown, decide_eq_true hSame⟩)

theorem ascending_mergeRow (h : Ascending rows) (row : ActivityRow P) : Ascending (mergeRow rows row) := by
  by_cases hKnown : row.id ∈ rows.map ActivityRow.id
  · rw [mergeRow_known hKnown]
    exact h
  · obtain ⟨first, second, rfl, hMerged, hFirst, hSecond⟩ := mergeRow_split h hKnown
    obtain ⟨hBefore, hBehind, hAcross⟩ := List.pairwise_append.mp h
    rw [hMerged]
    refine List.pairwise_append.mpr ⟨hBefore, List.pairwise_cons.mpr ⟨fun r hR => (hSecond r hR).le, hBehind⟩, fun a hA b hB => ?_⟩
    rcases List.mem_cons.mp hB with rfl | hLater
    · exact hFirst a hA
    · exact hAcross a hA b hLater

theorem mergeRow_perm (h : Ascending rows) (hNew : row.id ∉ rows.map ActivityRow.id) :
    (mergeRow rows row).Perm (row :: rows) := by
  obtain ⟨first, second, rfl, hMerged, _⟩ := mergeRow_split h hNew
  rw [hMerged]
  exact List.perm_middle

theorem distinct_mergeRow (h : Ascending rows) (hDistinct : Distinct rows) (row : ActivityRow P) :
    Distinct (mergeRow rows row) := by
  by_cases hKnown : row.id ∈ rows.map ActivityRow.id
  · rw [mergeRow_known hKnown]
    exact hDistinct
  · have hPerm := (mergeRow_perm h hKnown).map ActivityRow.id
    exact hPerm.nodup_iff.mpr (List.nodup_cons.mpr ⟨hKnown, hDistinct⟩)

theorem mem_mergeRow (h : Ascending rows) {row other : ActivityRow P} :
    other ∈ mergeRow rows row ↔ other ∈ rows ∨ other = row ∧ row.id ∉ rows.map ActivityRow.id := by
  by_cases hKnown : row.id ∈ rows.map ActivityRow.id
  · rw [mergeRow_known hKnown]
    exact ⟨.inl, fun hOther => hOther.resolve_right fun hNew => hNew.2 hKnown⟩
  · rw [(mergeRow_perm h hKnown).mem_iff, List.mem_cons, or_comm]
    exact or_congr_right (and_iff_left hKnown).symm

theorem distinct_dedupe (rows : List (ActivityRow P)) : Distinct (dedupe rows) := by
  have hNodup := (FirstSeen.keys_firsts (fun row : ActivityRow P => some row.id) (fun _ => false) rows).1
  rwa [show (fun row : ActivityRow P => some row.id) = some ∘ ActivityRow.id from rfl, List.filterMap_eq_map] at hNodup

theorem dedupe_sublist (rows : List (ActivityRow P)) : (dedupe rows).Sublist rows := FirstSeen.firsts_sublist _ _ rows

theorem mem_dedupe (hSame : ∀ a ∈ rows, ∀ b ∈ rows, a.id = b.id → a = b) : row ∈ dedupe rows ↔ row ∈ rows := by
  refine ⟨fun hRow => (dedupe_sublist rows).subset hRow, fun hRow => ?_⟩
  rcases FirstSeen.known_or_kept (fun row : ActivityRow P => some row.id) (fun _ => false) hRow rfl with hKnown | hKept
  · cases hKnown
  · obtain ⟨kept, hMem, hId⟩ := List.mem_filterMap.mp hKept
    rw [hSame row hRow kept ((dedupe_sublist rows).subset hMem) (Option.some.inj hId).symm]
    exact hMem

theorem dedupe_cons (row : ActivityRow P) (rows : List (ActivityRow P)) : (dedupe (row :: rows)).head? = some row := by
  have hFirst : dedupe (row :: rows) = row :: FirstSeen.firsts (fun row => some row.id) (fun other => false || other = row.id) rows :=
    FirstSeen.firsts_cons_new (fun row : ActivityRow P => some row.id) rfl rfl rows
  rw [hFirst]
  rfl

/-! ## Pages -/

theorem mem_page {cursor : Option ActivityCursor} {limit : Nat}
    (h : row ∈ page rows cursor limit) : row ∈ rows ∧ cursor.all (fun cursor => below cursor row) = true :=
  List.mem_filter.mp ((List.mem_insertionSort _).mp (List.mem_of_mem_take h))

theorem ascending_page (rows : List (ActivityRow P)) (cursor : Option ActivityCursor) (limit : Nat) :
    Ascending (page rows cursor limit).reverse := by
  refine List.pairwise_reverse.mpr (((List.pairwise_insertionSort newestFirst _).sublist (List.take_sublist _ _)).imp ?_)
  intro newer older hOrder
  rcases hOrder with hLess | ⟨hSame, _⟩
  · exact hLess.le
  · exact hSame.le

theorem distinct_page (h : Distinct rows) (cursor : Option ActivityCursor) (limit : Nat) : Distinct (page rows cursor limit) := by
  have hFiltered : Distinct (rows.filter fun row => cursor.all fun cursor => below cursor row) :=
    h.sublist (List.filter_sublist.map ActivityRow.id)
  have hSorted : Distinct ((rows.filter fun row => cursor.all fun cursor => below cursor row).insertionSort newestFirst) :=
    ((List.perm_insertionSort newestFirst _).map ActivityRow.id).nodup_iff.mpr hFiltered
  exact hSorted.sublist ((List.take_sublist _ _).map ActivityRow.id)

theorem le_of_mem_page {rows shown : List (ActivityRow P)} {oldest row : ActivityRow P} {limit : Nat}
    (h : row ∈ page rows (Query.loadOlder shown oldest).cursor limit) : row.event.ts ≤ oldest.event.ts := by
  have hBelow := (mem_page h).2
  simp only [Query.cursor, Option.all_some, below, Bool.or_eq_true, Bool.and_eq_true, decide_eq_true_iff] at hBelow
  rcases hBelow with hLess | ⟨hSame, _⟩
  · exact (Nat.cast_lt.mp hLess).le
  · exact (Nat.cast_injective hSame).le

/-! ## What holds in every world -/

structure Request.Sound (request : Request P) (taken : List (ActivityRow P)) : Prop where
  answer : ∀ rows, request.answer = some rows → Ascending rows.reverse ∧ Distinct rows ∧ ∀ row ∈ rows, row ∈ taken
  older : ∀ shown oldest, request.query = .loadOlder shown oldest → Ascending shown ∧ shown.head? = some oldest ∧
    (∀ row ∈ shown, row ∈ taken) ∧ ∀ rows, request.answer = some rows → ∀ row ∈ rows, row.event.ts ≤ oldest.event.ts

structure World.Sound (world : World P) : Prop where
  taken : Distinct world.taken
  server : world.server.Sublist world.taken
  shown : ∀ row ∈ world.timeline.rows, row ∈ world.taken
  ascending : Ascending world.timeline.rows
  distinct : Distinct world.timeline.rows
  requests : ∀ request ∈ world.requests, request.Sound world.taken

variable {world : World P}

theorem World.Sound.same (h : world.Sound) {a b : ActivityRow P} (hA : a ∈ world.taken) (hB : b ∈ world.taken)
    (hId : a.id = b.id) : a = b :=
  List.inj_on_of_nodup_map h.taken hA hB hId

variable {request : Request P}

theorem Request.Sound.mono {taken later : List (ActivityRow P)} (h : request.Sound taken)
    (hTaken : ∀ row ∈ taken, row ∈ later) : request.Sound later := by
  refine ⟨fun rows hRows => ?_, fun shown oldest hQuery => ?_⟩
  · obtain ⟨hAscending, hDistinct, hMem⟩ := h.answer rows hRows
    exact ⟨hAscending, hDistinct, fun row hRow => hTaken row (hMem row hRow)⟩
  · obtain ⟨hAscending, hHead, hMem, hBelow⟩ := h.older shown oldest hQuery
    exact ⟨hAscending, hHead, fun row hRow => hTaken row (hMem row hRow), hBelow⟩

theorem World.Sound.show (h : world.Sound) {shown : Timeline P × List Note} (hShown : ∀ row ∈ shown.1.rows, row ∈ world.taken)
    (hAscending : Ascending shown.1.rows) (hDistinct : Distinct shown.1.rows) : (world.show shown).1.Sound :=
  ⟨h.taken, h.server, hShown, hAscending, hDistinct, h.requests⟩

theorem sound_arrive (h : world.Sound) (hRow : row ∈ world.taken) : (world.show (arrive row world.timeline)).1.Sound := by
  refine h.show (fun other hOther => ?_) (ascending_mergeRow h.ascending row) (distinct_mergeRow h.ascending h.distinct row)
  rcases (mem_mergeRow h.ascending).mp hOther with hKnown | ⟨rfl, _⟩
  · exact h.shown other hKnown
  · exact hRow

def Request.rowsShown (request : Request P) (rows shown : List (ActivityRow P)) : List (ActivityRow P) :=
  match request.query with
  | .hydrate => rows.reverse
  | .loadOlder captured _ => if rows.isEmpty then shown else dedupe (rows.reverse ++ captured)

theorem rows_complete (request : Request P) (rows : List (ActivityRow P)) (timeline : Timeline P) :
    (request.complete rows timeline).1.rows = request.rowsShown rows timeline.rows := by
  unfold Request.complete Request.rowsShown
  cases request.query with
  | hydrate => rfl
  | loadOlder captured oldest =>
    change (loadedOlder request.limit captured rows timeline).1.rows = _
    unfold loadedOlder
    dsimp only
    split <;> rfl

theorem exhausted_complete (request : Request P) (rows : List (ActivityRow P)) (timeline : Timeline P) :
    (request.complete rows timeline).1.exhausted =
      match request.query with
      | .hydrate => timeline.exhausted || rows.length < request.limit
      | .loadOlder _ _ => rows.isEmpty || (timeline.exhausted || rows.length < request.limit) := by
  unfold Request.complete
  cases request.query with
  | hydrate => rfl
  | loadOlder captured oldest =>
    change (loadedOlder request.limit captured rows timeline).1.exhausted = _
    unfold loadedOlder
    cases rows with
    | nil => rfl
    | cons row rows => rfl

theorem rows_fail (request : Request P) (message : String) (timeline : Timeline P) :
    (request.fail message timeline).1.rows = timeline.rows ∧ (request.fail message timeline).1.exhausted = timeline.exhausted := by
  unfold Request.fail
  cases request.query <;> exact ⟨rfl, rfl⟩

theorem Request.Sound.mem_rowsShown (h : world.Sound) (hRequest : request.Sound world.taken)
    (hRows : request.answer = some rows) :
    row ∈ request.rowsShown rows world.timeline.rows ↔
      match request.query with
      | .hydrate => row ∈ rows
      | .loadOlder captured _ => if rows = [] then row ∈ world.timeline.rows else row ∈ rows ∨ row ∈ captured := by
  obtain ⟨_, _, hTaken⟩ := hRequest.answer rows hRows
  unfold Request.rowsShown
  cases hQuery : request.query with
  | hydrate => exact List.mem_reverse
  | loadOlder captured oldest =>
    obtain ⟨_, _, hCaptured, _⟩ := hRequest.older captured oldest hQuery
    cases rows with
    | nil => rfl
    | cons first rest =>
      have hBoth : ∀ a ∈ (first :: rest).reverse ++ captured, a ∈ world.taken := by
        intro a hA
        rcases List.mem_append.mp hA with hPage | hShown
        · exact hTaken a (List.mem_reverse.mp hPage)
        · exact hCaptured a hShown
      change row ∈ dedupe ((first :: rest).reverse ++ captured) ↔ row ∈ first :: rest ∨ row ∈ captured
      rw [mem_dedupe fun a hA b hB => h.same (hBoth a hA) (hBoth b hB), List.mem_append, List.mem_reverse]

theorem ordered_rowsShown (h : world.Sound) (hRequest : request.Sound world.taken)
    (hRows : request.answer = some rows) :
    Ascending (request.rowsShown rows world.timeline.rows) ∧ Distinct (request.rowsShown rows world.timeline.rows) := by
  obtain ⟨hAscending, hDistinct, _⟩ := hRequest.answer rows hRows
  unfold Request.rowsShown
  cases hQuery : request.query with
  | hydrate =>
    refine ⟨hAscending, ?_⟩
    change (rows.reverse.map ActivityRow.id).Nodup
    rw [List.map_reverse, List.nodup_reverse]
    exact hDistinct
  | loadOlder captured oldest =>
    dsimp only
    split
    · exact ⟨h.ascending, h.distinct⟩
    · obtain ⟨hCaptured, hHead, _, hOlder⟩ := hRequest.older captured oldest hQuery
      refine ⟨List.Pairwise.sublist (dedupe_sublist _) (List.pairwise_append.mpr ⟨hAscending, hCaptured, fun a hA b hB => ?_⟩),
        distinct_dedupe _⟩
      have hBelow : a.event.ts ≤ oldest.event.ts := hOlder rows hRows a (List.mem_reverse.mp hA)
      obtain ⟨rest, rfl⟩ := List.head?_eq_some_iff.mp hHead
      rcases List.mem_cons.mp hB with rfl | hLater
      · exact hBelow
      · exact hBelow.trans ((List.pairwise_cons.mp hCaptured).1 b hLater)

theorem sound_complete (h : world.Sound) {index : Nat}
    (hRequest : world.requests[index]? = some request) (hRows : request.answer = some rows) :
    (World.show { world with requests := world.requests.eraseIdx index } (request.complete rows world.timeline)).1.Sound := by
  have hSound := h.requests request (List.mem_of_getElem? hRequest)
  obtain ⟨hAscending, hDistinct⟩ := ordered_rowsShown h hSound hRows
  have hErased : (World.mk world.timeline world.server world.taken (world.requests.eraseIdx index)).Sound :=
    ⟨h.taken, h.server, h.shown, h.ascending, h.distinct, fun other hOther => h.requests other (List.mem_of_mem_eraseIdx hOther)⟩
  refine hErased.show (fun row hRow => ?_) ?_ ?_
  · rw [rows_complete, hSound.mem_rowsShown h hRows] at hRow
    obtain ⟨_, _, hTaken⟩ := hSound.answer rows hRows
    split at hRow
    · exact hTaken row hRow
    · rename_i captured oldest hQuery
      split at hRow
      · exact h.shown row hRow
      · rcases hRow with hPage | hShown
        · exact hTaken row hPage
        · exact (hSound.older captured oldest hQuery).2.2.1 row hShown
  · rw [rows_complete]
    exact hAscending
  · rw [rows_complete]
    exact hDistinct

theorem sound_answered (h : world.Sound) (hRequest : request.Sound world.taken) :
    Request.Sound { request with answer := some (request.answer.getD (page world.server request.query.cursor request.limit)) } world.taken := by
  obtain ⟨query, limit, answer⟩ := request
  cases answer with
  | some rows => exact hRequest
  | none =>
    constructor
    · rintro rows ⟨⟩
      exact ⟨ascending_page _ _ _, distinct_page (h.taken.sublist (h.server.map ActivityRow.id)) _ _,
        fun row hRow => h.server.subset (mem_page hRow).1⟩
    · intro shown oldest hQuery
      obtain ⟨hAscending, hHead, hMem, _⟩ := hRequest.older shown oldest hQuery
      refine ⟨hAscending, hHead, hMem, ?_⟩
      rintro rows ⟨⟩ row hRow
      change query = .loadOlder shown oldest at hQuery
      subst hQuery
      exact le_of_mem_page hRow

theorem completed_cases (hydrationLimit : Nat) (world : World P) (index : Nat) :
    ((next hydrationLimit world (.completed index)).1 = world ∧
        ∀ request rows, world.requests[index]? = some request → request.answer ≠ some rows) ∨
      ∃ request rows, world.requests[index]? = some request ∧ request.answer = some rows ∧
        (next hydrationLimit world (.completed index)).1 =
          (World.show { world with requests := world.requests.eraseIdx index } (request.complete rows world.timeline)).1 := by
  have hNext : next hydrationLimit world (.completed index) =
      match world.requests[index]? with
      | some request =>
        match request.answer with
        | some rows => World.show { world with requests := world.requests.eraseIdx index } (request.complete rows world.timeline)
        | none => (world, [])
      | none => (world, []) := rfl
  rw [hNext]
  cases world.requests[index]? with
  | none => exact .inl ⟨rfl, fun _ _ hNone => nomatch hNone⟩
  | some request =>
    cases hRows : request.answer with
    | none =>
      refine .inl ⟨by dsimp only; rw [hRows], fun other rows hOther hSome => ?_⟩
      cases hOther
      rw [hRows] at hSome
      cases hSome
    | some rows => exact .inr ⟨request, rows, rfl, hRows, by dsimp only; rw [hRows]⟩

theorem sound_next (h : world.Sound) (hydrationLimit : Nat) (input : Input P) : (next hydrationLimit world input).1.Sound := by
  cases input with
  | take row =>
    change (if row.id ∈ world.taken.map ActivityRow.id then (world, ([] : List Note)) else _).1.Sound
    split
    · exact h
    · rename_i hNew
      have hMore : ∀ other ∈ world.taken, other ∈ world.taken ++ [row] := fun other hOther => List.mem_append_left _ hOther
      refine ⟨?_, h.server.append (List.Sublist.refl _), fun other hOther => hMore other (h.shown other hOther), h.ascending, h.distinct,
        fun request hRequest => (h.requests request hRequest).mono hMore⟩
      change ((world.taken ++ [row]).map ActivityRow.id).Nodup
      rw [List.map_append, List.map_singleton, List.nodup_append]
      refine ⟨h.taken, List.nodup_singleton _, fun a hA b hB hSame => hNew ?_⟩
      rwa [← List.mem_singleton.mp hB, ← hSame]
  | prune cutoffTs => exact ⟨h.taken, List.filter_sublist.trans h.server, h.shown, h.ascending, h.distinct, h.requests⟩
  | opened =>
    refine ⟨h.taken, h.server, h.shown, h.ascending, h.distinct, fun request hRequest => ?_⟩
    rcases List.mem_append.mp hRequest with hEarlier | hLast
    · exact h.requests request hEarlier
    · rw [List.mem_singleton.mp hLast]
      exact ⟨fun rows hNone => (nomatch hNone), fun shown oldest hNone => nomatch hNone⟩
  | closed => exact h.show h.shown h.ascending h.distinct
  | errored => exact h.show h.shown h.ascending h.distinct
  | arrived index =>
    change (match world.taken[index]? with | none => (world, []) | some row => world.show (arrive row world.timeline)).1.Sound
    cases hRow : world.taken[index]? with
    | none => exact h
    | some row => exact sound_arrive h (List.mem_of_getElem? hRow)
  | garbled => exact h
  | loadOlder limit =>
    change (match oldestToLoad world.timeline with | none => (world, []) | some oldest => _).1.Sound
    cases hOldest : oldestToLoad world.timeline with
    | none => exact h
    | some oldest =>
      refine ⟨h.taken, h.server, h.shown, h.ascending, h.distinct, fun request hRequest => ?_⟩
      rcases List.mem_append.mp hRequest with hEarlier | hLast
      · exact h.requests request hEarlier
      · rw [List.mem_singleton.mp hLast]
        refine ⟨fun rows hNone => (nomatch hNone), fun shown other hQuery => ?_⟩
        cases hQuery
        refine ⟨h.ascending, ?_, h.shown, fun rows hNone => nomatch hNone⟩
        unfold oldestToLoad at hOldest
        split at hOldest
        · cases hOldest
        · exact hOldest
  | answered index =>
    refine ⟨h.taken, h.server, h.shown, h.ascending, h.distinct, fun request hRequest => ?_⟩
    obtain ⟨place, hPlace⟩ := List.mem_iff_getElem?.mp hRequest
    change (world.requests.modify index _)[place]? = some request at hPlace
    rw [List.getElem?_modify] at hPlace
    obtain ⟨earlier, hEarlier, rfl⟩ := Option.map_eq_some_iff.mp hPlace
    have hSound := h.requests earlier (List.mem_of_getElem? hEarlier)
    split
    · exact sound_answered h hSound
    · exact hSound
  | completed index =>
    rcases completed_cases hydrationLimit world index with ⟨hSame, _⟩ | ⟨request, rows, hRequest, hRows, hNext⟩
    · rw [hSame]
      exact h
    · rw [hNext]
      exact sound_complete h hRequest hRows
  | failed index message =>
    change (match world.requests[index]? with
      | some request => World.show { world with requests := world.requests.eraseIdx index } (request.fail message world.timeline)
      | none => (world, [])).1.Sound
    cases hRequest : world.requests[index]? with
    | none => exact h
    | some request =>
      have hErased : (World.mk world.timeline world.server world.taken (world.requests.eraseIdx index)).Sound :=
        ⟨h.taken, h.server, h.shown, h.ascending, h.distinct, fun other hOther => h.requests other (List.mem_of_mem_eraseIdx hOther)⟩
      have hSame := (rows_fail request message world.timeline).1
      exact hErased.show (hSame ▸ h.shown) (hSame ▸ h.ascending) (hSame ▸ h.distinct)

/-! ## Steps and runs -/

structure Watched.Sound (watched : Watched P) : Prop where
  world : watched.world.Sound
  seen : ∀ row ∈ watched.world.timeline.rows, row ∈ watched.seen

variable {watched : Watched P}

theorem Watched.Sound.next (h : watched.Sound) (hydrationLimit : Nat) (input : Input P) :
    (watch hydrationLimit watched input).1.Sound :=
  ⟨sound_next h.world hydrationLimit input, fun _ hRow => List.mem_append_right _ hRow⟩

theorem truthful_watch_iff (h : watched.Sound) (hTruthful : Truthful watched) (hydrationLimit : Nat)
    (input : Input P) : Truthful (watch hydrationLimit watched input).1 ↔
      (∀ row ∈ watched.world.timeline.rows, row ∈ (next hydrationLimit watched.world input).1.timeline.rows) ∧
        Exhaustive (next hydrationLimit watched.world input).1 := by
  have hSound := sound_next h.world hydrationLimit input
  constructor
  · rintro ⟨_, _, hKept, hExhausted⟩
    exact ⟨fun row hRow => hKept row (List.mem_append_left _ (h.seen row hRow)), hExhausted⟩
  · rintro ⟨hKept, hExhausted⟩
    refine ⟨hSound.ascending, hSound.distinct, fun row hRow => ?_, hExhausted⟩
    rcases List.mem_append.mp hRow with hEarlier | hLater
    · exact hKept row (hTruthful.kept row hEarlier)
    · exact hLater

theorem keeps_of_same {world other : World P} (h : Exhaustive world) (hRows : other.timeline.rows = world.timeline.rows)
    (hExhausted : other.timeline.exhausted = world.timeline.exhausted) (hServer : ∀ row ∈ other.server, row ∈ world.server) :
    (∀ row ∈ world.timeline.rows, row ∈ other.timeline.rows) ∧ Exhaustive other := by
  unfold Exhaustive NoneOlder at *
  rw [hRows, hExhausted]
  exact ⟨fun _ hRow => hRow, fun hEnd row hRow later hLater => h hEnd row hRow later (hServer later hLater)⟩

theorem fits_arrived_iff (h : world.Sound) (hExhaustive : Exhaustive world) (row : ActivityRow P) :
    (∀ other ∈ world.timeline.rows, other ∈ mergeRow world.timeline.rows row) ∧
        (world.timeline.exhausted = true → NoneOlder world.server (mergeRow world.timeline.rows row).head?) ↔
      (world.timeline.exhausted = true → world.timeline.rows = [] → NoneOlder world.server (some row)) := by
  have hKept : ∀ other ∈ world.timeline.rows, other ∈ mergeRow world.timeline.rows row :=
    fun other hOther => (mem_mergeRow h.ascending).mpr (.inl hOther)
  refine (and_iff_right hKept).trans ⟨fun hAfter hEnd hNone => ?_, fun hFits hEnd => ?_⟩
  · have hEnd := hAfter hEnd
    rw [hNone] at hEnd
    exact hEnd
  · cases hRows : world.timeline.rows with
    | nil => exact hFits hEnd hRows
    | cons oldest rest =>
      have hOldest : world.timeline.rows.head? = some oldest := by rw [hRows]; rfl
      intro first hFirst other hOther
      have hAscending := ascending_mergeRow h.ascending row
      have hMem := hKept oldest (List.mem_of_mem_head? hOldest)
      rw [hRows] at hAscending hMem
      obtain ⟨later, hLater⟩ := List.head?_eq_some_iff.mp hFirst
      rw [hLater] at hAscending hMem
      refine le_trans ?_ (hExhaustive hEnd oldest hOldest other hOther)
      rcases List.mem_cons.mp hMem with rfl | hBehind
      · exact le_refl _
      · exact (List.pairwise_cons.mp hAscending).1 oldest hBehind

theorem fits_complete_iff (h : world.Sound) (hRequest : request.Sound world.taken)
    (hRows : request.answer = some rows) :
    (∀ row ∈ world.timeline.rows, row ∈ request.rowsShown rows world.timeline.rows) ∧
        ((request.complete rows world.timeline).1.exhausted = true →
          NoneOlder world.server (request.rowsShown rows world.timeline.rows).head?) ↔ request.Fits rows world := by
  simp only [hRequest.mem_rowsShown h hRows]
  rw [exhausted_complete]
  unfold Request.Fits Request.rowsShown
  cases request.query with
  | hydrate =>
    dsimp only
    rw [List.head?_reverse, Bool.or_eq_true, decide_eq_true_iff]
  | loadOlder captured oldest =>
    cases rows with
    | nil => simp
    | cons first rest =>
      have hHead : (dedupe ((first :: rest).reverse ++ captured)).head? = (first :: rest).getLast? := by
        cases hReverse : (first :: rest).reverse with
        | nil => cases List.reverse_eq_nil_iff.mp hReverse
        | cons last others =>
          rw [List.cons_append, dedupe_cons, ← List.head?_reverse, hReverse]
          rfl
      simp only [List.isEmpty_cons, Bool.false_eq_true, if_false, hHead, reduceCtorEq, Bool.false_or, Bool.or_eq_true,
        decide_eq_true_iff, ne_eq, not_false_eq_true, true_imp_iff, false_imp_iff, true_and]

theorem truthful_iff_fits (h : watched.Sound) (hTruthful : Truthful watched) (hydrationLimit : Nat)
    (input : Input P) : Truthful (watch hydrationLimit watched input).1 ↔ Fits watched.world input := by
  rw [truthful_watch_iff h hTruthful]
  obtain ⟨world, seen⟩ := watched
  have hExhaustive : Exhaustive world := hTruthful.exhausted
  have hWorld : world.Sound := h.world
  change (∀ row ∈ world.timeline.rows, row ∈ (next hydrationLimit world input).1.timeline.rows) ∧
    Exhaustive (next hydrationLimit world input).1 ↔ Fits world input
  cases input with
  | take row =>
    have hNext : next hydrationLimit world (.take row) = if row.id ∈ world.taken.map ActivityRow.id then (world, [])
        else ({ world with server := world.server ++ [row], taken := world.taken ++ [row] }, []) := rfl
    rw [hNext]
    by_cases hKnown : row.id ∈ world.taken.map ActivityRow.id
    · rw [if_pos hKnown]
      exact iff_of_true (keeps_of_same hExhaustive rfl rfl fun _ hRow => hRow) fun hNew => absurd hKnown hNew
    · rw [if_neg hKnown]
      refine (and_iff_right fun _ hRow => hRow).trans ⟨fun hAfter _ hEnd oldest hOldest other hOther => ?_, fun hFits hEnd oldest hOldest => ?_⟩
      · exact hAfter hEnd oldest hOldest other (List.mem_append_right _ hOther)
      · intro other hOther
        rcases List.mem_append.mp hOther with hHeld | hTaken
        · exact hExhaustive hEnd oldest hOldest other hHeld
        · exact hFits hKnown hEnd oldest hOldest other hTaken
  | prune cutoffTs => exact iff_of_true (keeps_of_same hExhaustive rfl rfl fun row hRow => (List.mem_filter.mp hRow).1) trivial
  | opened => exact iff_of_true (keeps_of_same hExhaustive rfl rfl fun _ hRow => hRow) trivial
  | closed => exact iff_of_true (keeps_of_same hExhaustive rfl rfl fun _ hRow => hRow) trivial
  | errored => exact iff_of_true (keeps_of_same hExhaustive rfl rfl fun _ hRow => hRow) trivial
  | garbled => exact iff_of_true (keeps_of_same hExhaustive rfl rfl fun _ hRow => hRow) trivial
  | answered index => exact iff_of_true (keeps_of_same hExhaustive rfl rfl fun _ hRow => hRow) trivial
  | arrived index =>
    have hNext : next hydrationLimit world (.arrived index) =
        match world.taken[index]? with | none => (world, []) | some row => world.show (arrive row world.timeline) := rfl
    rw [hNext, Fits]
    cases world.taken[index]? with
    | none =>
      exact iff_of_true (keeps_of_same hExhaustive rfl rfl fun _ hRow => hRow) fun _ _ _ hNone => nomatch hNone
    | some row => exact fits_arrived_iff hWorld hExhaustive row
  | loadOlder limit =>
    refine iff_of_true ?_ trivial
    have hNext : next hydrationLimit world (.loadOlder limit) =
        match oldestToLoad world.timeline with
        | none => (world, [])
        | some oldest =>
          ({ world with
              timeline := { world.timeline with loading := true }
              requests := world.requests ++ [⟨.loadOlder world.timeline.rows oldest, limit, none⟩] }, []) := rfl
    rw [hNext]
    cases oldestToLoad world.timeline with
    | none => exact keeps_of_same hExhaustive rfl rfl fun _ hRow => hRow
    | some oldest => exact keeps_of_same hExhaustive rfl rfl fun _ hRow => hRow
  | completed index =>
    rcases completed_cases hydrationLimit world index with ⟨hSame, hNone⟩ | ⟨request, rows, hRequest, hRows, hNext⟩
    · rw [hSame]
      exact iff_of_true (keeps_of_same hExhaustive rfl rfl fun _ hRow => hRow)
        fun request rows hRequest hRows => absurd hRows (hNone request rows hRequest)
    · have hRequestSound := hWorld.requests request (List.mem_of_getElem? hRequest)
      have hFits := fits_complete_iff hWorld hRequestSound hRows
      rw [hNext]
      unfold Exhaustive
      change (∀ row ∈ world.timeline.rows, row ∈ (request.complete rows world.timeline).1.rows) ∧
        ((request.complete rows world.timeline).1.exhausted = true →
          NoneOlder world.server (request.complete rows world.timeline).1.rows.head?) ↔ _
      rw [rows_complete, hFits]
      refine ⟨fun hFits other later hOther hLater => ?_, fun hAll => hAll request rows hRequest hRows⟩
      obtain rfl := Option.some.inj (hRequest.symm.trans hOther)
      obtain rfl := Option.some.inj (hRows.symm.trans hLater)
      exact hFits
  | failed index message =>
    refine iff_of_true ?_ trivial
    have hNext : next hydrationLimit world (.failed index message) =
        match world.requests[index]? with
        | some request => World.show { world with requests := world.requests.eraseIdx index } (request.fail message world.timeline)
        | none => (world, []) := rfl
    rw [hNext]
    cases world.requests[index]? with
    | none => exact keeps_of_same hExhaustive rfl rfl fun _ hRow => hRow
    | some request =>
      obtain ⟨hRows, hExhausted⟩ := rows_fail request message world.timeline
      exact keeps_of_same hExhaustive hRows hExhausted fun _ hRow => hRow

def opening (name : String) : Watched P := ⟨⟨started name, [], [], []⟩, []⟩

theorem sound_opening (name : String) : (opening name : Watched P).Sound :=
  ⟨⟨List.nodup_nil, List.Sublist.refl _, fun _ hNone => (nomatch hNone), List.Pairwise.nil, List.nodup_nil, fun _ hNone => nomatch hNone⟩,
    fun _ hNone => nomatch hNone⟩

/-- The timeline is truthful in every state of a run exactly when every step fits. -/
theorem timeline_truthful_iff (hydrationLimit : Nat) (name : String) (inputs : List (Input P)) :
    (∀ step ∈ run (watch hydrationLimit) (opening name) inputs, Truthful step.after) ↔
      ∀ step ∈ run (watch hydrationLimit) (opening name) inputs, Fits step.before.world step.input :=
  forall_after_iff (P := Watched.Sound) (C := fun watched input => Fits watched.world input) (fun _ input h => h.next hydrationLimit input)
    (fun _ input h hTruthful => truthful_iff_fits h hTruthful hydrationLimit input) (sound_opening name)
    (show Truthful (opening name) from ⟨List.Pairwise.nil, List.nodup_nil, fun _ hNone => (nomatch hNone), fun hEnd => nomatch hEnd⟩) inputs

def toolRow (id : Nat) : ActivityRow Unit := ⟨id, "builder", ⟨.toolAction, id, none, ()⟩, 0⟩

def lateHydration : List (Input Unit) := [.take (toolRow 1), .opened, .answered 0, .take (toolRow 2), .arrived 1, .completed 0]

theorem row_dropped_by_hydration :
    (final (watch 200) (opening "builder") lateHydration).world.timeline.rows = [toolRow 1] ∧
      toolRow 2 ∈ (final (watch 200) (opening "builder") lateHydration).seen ∧
      ¬ Truthful (final (watch 200) (opening "builder") lateHydration) := by
  have hRows : (final (watch 200) (opening "builder") lateHydration).world.timeline.rows = [toolRow 1] := by decide +kernel
  have hSeen : toolRow 2 ∈ (final (watch 200) (opening "builder") lateHydration).seen := by decide +kernel
  refine ⟨hRows, hSeen, fun hTruthful => ?_⟩
  have hKept := hTruthful.kept (toolRow 2) hSeen
  rw [hRows] at hKept
  exact absurd hKept (by decide)

end CommandSuite.MemberTimeline
