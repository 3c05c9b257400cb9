import CommandSuite.Core.MemberActivity
import CommandSuite.Library.FirstSeen

/-! # Replayed activity

A batch uses up one key for each of its events, and the events that land are the first of their source.
-/

namespace CommandSuite

open Library FirstSeen ActivityStore InMemoryActivityStore Transcript Function

namespace InMemoryActivityStore

variable {P : Type}

theorem map_event_numbered (memberName : String) (now : Int) (id : Nat) (events : List (ActivityEvent P)) :
    (numbered memberName now id events).map ActivityRow.event = events := by
  induction events generalizing id with
  | nil => rfl
  | cons event events ih => exact congrArg (event :: ·) (ih (id + 1))

theorem length_numbered (memberName : String) (now : Int) (id : Nat) (events : List (ActivityEvent P)) :
    (numbered memberName now id events).length = events.length := by
  rw [← List.length_map ActivityRow.event, map_event_numbered]

theorem mem_numbered {memberName : String} {now : Int} {id : Nat} {events : List (ActivityEvent P)} {row : ActivityRow P}
    (h : row ∈ numbered memberName now id events) :
    row.memberName = memberName ∧ row.createdAt = now ∧ id ≤ row.id ∧ row.id < id + events.length := by
  induction events generalizing id with
  | nil => cases h
  | cons event events ih =>
    rw [List.length_cons]
    rcases List.mem_cons.mp h with rfl | hLater
    · refine ⟨rfl, rfl, Nat.le_refl id, ?_⟩
      dsimp only
      omega
    · obtain ⟨hMember, hNow, hLower, hUpper⟩ := ih hLater
      exact ⟨hMember, hNow, by omega, by omega⟩

theorem ascending_numbered (memberName : String) (now : Int) (id : Nat) (events : List (ActivityEvent P)) :
    (numbered memberName now id events).Pairwise fun a b => a.id < b.id := by
  induction events generalizing id with
  | nil => exact .nil
  | cons event events ih =>
    refine List.pairwise_cons.mpr ⟨fun row hRow => ?_, ih (id + 1)⟩
    exact (mem_numbered hRow).2.2.1

end InMemoryActivityStore

namespace SqliteActivityStore

variable {P : Type}

/-- The row of `member_activity` behind a row that `append` returns. -/
def ofActivity (row : ActivityRow P) : MemberActivityRow P := toRaw row.memberName row.event row.createdAt row.id

def known (store : SqliteActivityStore P) (memberName sourceId : String) : Bool := store.conflicts memberName (some sourceId)

theorem known_iff (store : SqliteActivityStore P) (memberName sourceId : String) :
    store.known memberName sourceId = true ↔ ∃ row ∈ store.rows, row.memberName = memberName ∧ row.sourceId = some sourceId := by
  simp [known, conflicts, List.any_eq_true]

def passOver (store : SqliteActivityStore P) : SqliteActivityStore P := { store with memberActivity := store.memberActivity.pass }

def takeIn (memberName : String) (event : ActivityEvent P) (now : Int) (store : SqliteActivityStore P) :
    SqliteActivityStore P :=
  { store with
    memberActivity := store.memberActivity.insert (toRaw memberName event now) .refl
    lastInsertRowid := store.memberActivity.sequence + 1 }

@[simp] theorem sequence_passOver (store : SqliteActivityStore P) :
    (passOver store).memberActivity.sequence = store.memberActivity.sequence + 1 := rfl

variable {event : ActivityEvent P}

@[simp] theorem sequence_takeIn (memberName : String) (event : ActivityEvent P) (now : Int) (store : SqliteActivityStore P) :
    (takeIn memberName event now store).memberActivity.sequence = store.memberActivity.sequence + 1 := rfl

theorem known_takeIn {memberName sourceId : String} (h : event.sourceId = some sourceId) (now : Int)
    (store : SqliteActivityStore P) :
    (takeIn memberName event now store).known memberName = fun other => store.known memberName other || other = sourceId := by
  funext other
  rw [Bool.eq_iff_iff, Bool.or_eq_true, decide_eq_true_eq, known_iff, known_iff]
  constructor
  · rintro ⟨row, hRow, hMember, hSource⟩
    rcases List.mem_append.mp hRow with hOld | hNew
    · exact .inl ⟨row, hOld, hMember, hSource⟩
    · rw [List.mem_singleton.mp hNew] at hSource
      exact .inr (Option.some.inj (hSource.symm.trans h))
  · rintro (⟨row, hRow, hMember, hSource⟩ | rfl)
    · exact ⟨row, List.mem_append_left _ hRow, hMember, hSource⟩
    · exact ⟨_, List.mem_append_right _ List.mem_cons_self, rfl, h⟩

theorem known_takeIn_of_none (h : event.sourceId = none) (memberName : String) (now : Int)
    (store : SqliteActivityStore P) : (takeIn memberName event now store).known memberName = store.known memberName := by
  funext other
  rw [Bool.eq_iff_iff, known_iff, known_iff]
  constructor
  · rintro ⟨row, hRow, hMember, hSource⟩
    rcases List.mem_append.mp hRow with hOld | hNew
    · exact ⟨row, hOld, hMember, hSource⟩
    · rw [List.mem_singleton.mp hNew] at hSource
      cases h.symm.trans hSource
  · rintro ⟨row, hRow, hMember, hSource⟩
    exact ⟨row, List.mem_append_left _ hRow, hMember, hSource⟩

def landing (store : SqliteActivityStore P) (memberName : String) (now : Int) (events : List (ActivityEvent P)) :
    List (ActivityRow P) :=
  firsts (fun row => row.event.sourceId) (store.known memberName)
    (numbered memberName now (store.memberActivity.sequence + 1) events)

variable {store : SqliteActivityStore P} {memberName : String}

theorem landing_cons_conflict (h : store.conflicts memberName event.sourceId = true) (now : Int) (events : List (ActivityEvent P)) :
    store.landing memberName now (event :: events) = (passOver store).landing memberName now events := by
  cases hSource : event.sourceId with
  | none =>
    rw [hSource] at h
    cases h
  | some sourceId =>
    rw [hSource] at h
    exact firsts_cons_known (fun row : ActivityRow P => row.event.sourceId) hSource h _

theorem landing_cons_new (h : store.conflicts memberName event.sourceId = false) (now : Int) (events : List (ActivityEvent P)) :
    store.landing memberName now (event :: events) =
      ⟨store.memberActivity.sequence + 1, memberName, event, now⟩ ::
        (takeIn memberName event now store).landing memberName now events := by
  cases hSource : event.sourceId with
  | none =>
    rw [landing, landing, known_takeIn_of_none hSource]
    exact firsts_cons_none (fun row : ActivityRow P => row.event.sourceId) hSource _ _
  | some sourceId =>
    rw [hSource] at h
    rw [landing, landing, known_takeIn hSource]
    exact firsts_cons_new (fun row : ActivityRow P => row.event.sourceId) hSource h _

structure Landed (memberName : String) (now : Int) (events : List (ActivityEvent P)) (store : SqliteActivityStore P)
    (result : List (ActivityRow P) × SqliteActivityStore P) : Prop where
  inserted : result.1 = store.landing memberName now events
  rows : result.2.rows = store.rows ++ result.1.map ofActivity
  sequence : result.2.memberActivity.sequence = store.memberActivity.sequence + events.length
  listeners : result.2.listenersByMember = store.listenersByMember

theorem landed_insertAll (memberName : String) (now : Int) (events : List (ActivityEvent P)) (store : SqliteActivityStore P) :
    Landed memberName now events store (insertAll memberName now events store) := by
  induction events generalizing store with
  | nil => exact ⟨rfl, (List.append_nil _).symm, rfl, rfl⟩
  | cons event events ih =>
    cases hConflict : store.conflicts memberName event.sourceId with
    | true =>
      have hStep : insertAll memberName now (event :: events) store = insertAll memberName now events (passOver store) := by
        rw [insertAll, insertStmt, if_pos hConflict]
        rfl
      have h := ih (passOver store)
      rw [hStep]
      refine ⟨h.inserted.trans (landing_cons_conflict hConflict now events).symm, h.rows, ?_, h.listeners⟩
      rw [h.sequence, List.length_cons, sequence_passOver]
      omega
    | false =>
      have hStep : insertAll memberName now (event :: events) store =
          (⟨store.memberActivity.sequence + 1, memberName, event, now⟩ ::
            (insertAll memberName now events (takeIn memberName event now store)).1,
            (insertAll memberName now events (takeIn memberName event now store)).2) := by
        rw [insertAll, insertStmt, if_neg (by simp [hConflict])]
        rfl
      have h := ih (takeIn memberName event now store)
      rw [hStep]
      refine ⟨?_, ?_, ?_, h.listeners⟩
      · rw [landing_cons_new hConflict, h.inserted]
      · rw [h.rows, List.map_cons, List.append_cons]
        rfl
      · rw [h.sequence, List.length_cons, sequence_takeIn]
        omega

theorem landed_append (memberName : String) (now : Int) (events : List (ActivityEvent P)) (store : SqliteActivityStore P) :
    Landed memberName now events store
      ((append memberName events now store).1.1, (append memberName events now store).2) := by
  unfold append
  split
  · rename_i hEmpty
    subst hEmpty
    exact ⟨rfl, (List.append_nil _).symm, rfl, rfl⟩
  · exact landed_insertAll memberName now events store

variable {now : Int} {events : List (ActivityEvent P)}

theorem mem_landing {row : ActivityRow P} (h : row ∈ store.landing memberName now events) :
    row.memberName = memberName ∧ row.createdAt = now ∧ store.memberActivity.sequence < row.id ∧
      row.id ≤ store.memberActivity.sequence + events.length := by
  obtain ⟨hMember, hNow, hLower, hUpper⟩ := mem_numbered ((firsts_sublist _ _ _).mem h)
  exact ⟨hMember, hNow, hLower, by omega⟩

theorem map_event_landing (store : SqliteActivityStore P) (memberName : String) (now : Int) (events : List (ActivityEvent P)) :
    (store.landing memberName now events).map ActivityRow.event =
      firsts ActivityEvent.sourceId (store.known memberName) events := by
  rw [landing, firsts_map, map_event_numbered]

variable {result : List (ActivityRow P) × SqliteActivityStore P}

theorem known_of_landed (h : Landed memberName now events store result)
    (member sourceId : String) : result.2.known member sourceId = true ↔ store.known member sourceId = true ∨
      memberName = member ∧
        sourceId ∈ (firsts ActivityEvent.sourceId (store.known memberName) events).filterMap ActivityEvent.sourceId := by
  rw [known_iff, known_iff, h.rows, ← map_event_landing store memberName now events, ← h.inserted, List.filterMap_map]
  have hMember : ∀ row ∈ result.1, row.memberName = memberName := by
    intro row hRow
    rw [h.inserted] at hRow
    exact (mem_landing hRow).1
  constructor
  · rintro ⟨row, hRow, hName, hSource⟩
    rcases List.mem_append.mp hRow with hOld | hNew
    · exact .inl ⟨row, hOld, hName, hSource⟩
    · obtain ⟨landed, hLanded, rfl⟩ := List.mem_map.mp hNew
      exact .inr ⟨(hMember landed hLanded).symm.trans hName, List.mem_filterMap.mpr ⟨landed, hLanded, hSource⟩⟩
  · rintro (⟨row, hRow, hName, hSource⟩ | ⟨rfl, hKept⟩)
    · exact ⟨row, List.mem_append_left _ hRow, hName, hSource⟩
    · obtain ⟨landed, hLanded, hSource⟩ := List.mem_filterMap.mp hKept
      exact ⟨ofActivity landed, List.mem_append_right _ (List.mem_map_of_mem hLanded), hMember landed hLanded, hSource⟩

def carrying (store : SqliteActivityStore P) (memberName sourceId : String) : Nat :=
  store.rows.countP fun row => row.memberName = memberName ∧ row.sourceId = some sourceId

def OncePerSource (store : SqliteActivityStore P) : Prop := ∀ memberName sourceId, store.carrying memberName sourceId ≤ 1

theorem OncePerSource.eq (h : store.OncePerSource) {a b : MemberActivityRow P}
    (ha : a ∈ store.rows) (hb : b ∈ store.rows) (hMember : a.memberName = b.memberName) {sourceId : String}
    (hFirst : a.sourceId = some sourceId) (hSecond : b.sourceId = some sourceId) : a = b := by
  have hCount := h b.memberName sourceId
  rw [carrying, List.countP_eq_length_filter] at hCount
  have hFirstMem : a ∈ store.rows.filter fun row => row.memberName = b.memberName ∧ row.sourceId = some sourceId :=
    List.mem_filter.mpr ⟨ha, decide_eq_true ⟨hMember, hFirst⟩⟩
  have hSecondMem : b ∈ store.rows.filter fun row => row.memberName = b.memberName ∧ row.sourceId = some sourceId :=
    List.mem_filter.mpr ⟨hb, decide_eq_true ⟨rfl, hSecond⟩⟩
  obtain ⟨row, hRow⟩ := List.length_eq_one_iff.mp (Nat.le_antisymm hCount (List.length_pos_of_mem hFirstMem))
  rw [hRow] at hFirstMem hSecondMem
  exact (List.mem_singleton.mp hFirstMem).trans (List.mem_singleton.mp hSecondMem).symm

theorem carrying_eq_zero {memberName sourceId : String}
    (h : store.known memberName sourceId = false) : store.carrying memberName sourceId = 0 := by
  rw [carrying, List.countP_eq_zero]
  intro row hRow hCarries
  have hKnown := (known_iff store memberName sourceId).mpr ⟨row, hRow, by simpa using hCarries⟩
  rw [h] at hKnown
  cases hKnown

theorem carrying_landing {memberName sourceId : String}
    :
    ((store.landing memberName now events).map ofActivity).countP
        (fun row => row.memberName = memberName ∧ row.sourceId = some sourceId) =
      ((store.landing memberName now events).filterMap fun row => row.event.sourceId).count sourceId := by
  rw [List.countP_map, List.count_filterMap]
  refine List.countP_congr fun row hRow => ?_
  have hMember := (mem_landing hRow).1
  simp [ofActivity, toRaw, hMember]

theorem oncePerSource_of_landed (h : Landed memberName now events store result) (hOnce : store.OncePerSource) : result.2.OncePerSource := by
  intro member sourceId
  have hSum : result.2.carrying member sourceId = store.carrying member sourceId +
      ((store.landing memberName now events).map ofActivity).countP
        (fun row => row.memberName = member ∧ row.sourceId = some sourceId) := by
    rw [carrying, h.rows, h.inserted, List.countP_append]
    rfl
  by_cases hMember : member = memberName
  · subst hMember
    obtain ⟨hNodup, hFresh⟩ := keys_firsts (fun row : ActivityRow P => row.event.sourceId) (store.known member)
      (numbered member now (store.memberActivity.sequence + 1) events)
    have hCount := List.nodup_iff_count_le_one.mp hNodup sourceId
    rw [hSum, carrying_landing]
    cases hKnown : store.known member sourceId with
    | true =>
      have hNone : ((store.landing member now events).filterMap fun row => row.event.sourceId).count sourceId = 0 := by
        rw [List.count_eq_zero]
        intro hMem
        rw [hFresh sourceId hMem] at hKnown
        cases hKnown
      rw [hNone]
      exact hOnce member sourceId
    | false =>
      rw [carrying_eq_zero hKnown, Nat.zero_add]
      exact hCount
  · have hNone : ((store.landing memberName now events).map ofActivity).countP
        (fun row => row.memberName = member ∧ row.sourceId = some sourceId) = 0 := by
      rw [List.countP_eq_zero]
      intro row hRow
      obtain ⟨landed, hLanded, rfl⟩ := List.mem_map.mp hRow
      have hOther := (mem_landing hLanded).1
      simp [ofActivity, toRaw, hOther, Ne.symm hMember]
    rw [hSum, hNone]
    exact hOnce member sourceId

/-- The rows a batch reports are the rows it stores, and the live tail gets each of them once. -/
structure Reported (memberName : String) (events : List (ActivityEvent P)) (now : Int) (before : SqliteActivityStore P)
    (inserted : List (ActivityRow P)) (told : List (ActivityListener × ActivityRow P)) (after : SqliteActivityStore P) :
    Prop where
  stored : after.rows = before.rows ++ inserted.map ofActivity
  ofMember : ∀ row ∈ inserted, row.memberName = memberName ∧ row.createdAt = now
  inOrder : (inserted.map ActivityRow.event).Sublist events
  fresh : ∀ row ∈ inserted, before.memberActivity.sequence < row.id
  ascending : inserted.Pairwise fun a b => a.id < b.id
  unnamed : (inserted.map ActivityRow.event).filter (fun event => event.sourceId = none) =
    events.filter fun event => event.sourceId = none
  named : ∀ event ∈ events, ∀ sourceId, event.sourceId = some sourceId → after.known memberName sourceId = true
  toldOnce : told.Nodup
  told : ∀ listener row, (listener, row) ∈ told ↔ listener ∈ before.listenersByMember memberName ∧ row ∈ inserted

theorem reported_of_landed (h : Landed memberName now events store result) (hListeners : (store.listenersByMember memberName).Nodup) :
    Reported memberName events now store result.1 (deliver memberName result.1 result.2) result.2 := by
  have hAscending : result.1.Pairwise fun a b => a.id < b.id := by
    rw [h.inserted]
    exact (ascending_numbered memberName now _ events).sublist (firsts_sublist _ _ _)
  have hEvents : result.1.map ActivityRow.event = firsts ActivityEvent.sourceId (store.known memberName) events := by
    rw [h.inserted, map_event_landing]
  refine ⟨h.rows, ?_, ?_, ?_, hAscending, ?_, ?_, ?_, ?_⟩
  · intro row hRow
    rw [h.inserted] at hRow
    exact ⟨(mem_landing hRow).1, (mem_landing hRow).2.1⟩
  · rw [hEvents]
    exact firsts_sublist _ _ _
  · intro row hRow
    rw [h.inserted] at hRow
    exact (mem_landing hRow).2.2.1
  · rw [hEvents]
    exact filter_none_firsts _ _ _
  · intro event hEvent sourceId hSource
    rw [known_of_landed h]
    exact (known_or_kept _ (store.known memberName) hEvent hSource).imp_right fun hKept => ⟨rfl, hKept⟩
  · rw [deliver, h.listeners]
    refine List.nodup_flatMap.mpr ⟨fun row _ => ?_, ?_⟩
    · exact hListeners.map fun a b hSame => (Prod.mk.inj hSame).1
    · refine hAscending.imp fun {a b} hLess => ?_
      intro call hFirst hSecond
      obtain ⟨_, _, rfl⟩ := List.mem_map.mp hFirst
      obtain ⟨_, _, hSame⟩ := List.mem_map.mp hSecond
      rw [(Prod.mk.inj hSame).2] at hLess
      exact Nat.lt_irrefl _ hLess
  · intro listener row
    rw [deliver, h.listeners, List.mem_flatMap]
    constructor
    · rintro ⟨other, hOther, hCall⟩
      obtain ⟨_, hListener, hSame⟩ := List.mem_map.mp hCall
      cases hSame
      exact ⟨hListener, hOther⟩
    · rintro ⟨hListener, hRow⟩
      exact ⟨row, hRow, List.mem_map_of_mem hListener⟩

end SqliteActivityStore

namespace SqliteActivityStore

variable {P : Type} (schema : ActivityEvent P → Option (ActivityEvent P))

inductive TailCall (P : Type) where
  | call (call : Call P)
  | subscribe (memberName : String) (listener : ActivityListener)
  | unsubscribe (memberName : String) (listener : ActivityListener)

structure TailAnswer (P : Type) where
  returned : Option (Answer P)
  told : List (ActivityListener × ActivityRow P)

def serve : Machine (SqliteActivityStore P) (TailCall P) (TailAnswer P)
  | store, .call (.append memberName events now) =>
    let ((inserted, told), store) := append memberName events now store
    (store, ⟨some (.rows inserted), told⟩)
  | store, .call call =>
    let (store, answer) := apply schema store call
    (store, ⟨some answer, []⟩)
  | store, .subscribe memberName listener => (subscribe memberName listener store, ⟨none, []⟩)
  | store, .unsubscribe memberName listener => (unsubscribe memberName listener store, ⟨none, []⟩)

/-- An `append` reports what it stores. The other calls store nothing and tell nobody. -/
def Accounted (step : Step (SqliteActivityStore P) (TailCall P) (TailAnswer P)) : Prop :=
  match step.input with
  | .call (.append memberName events now) => ∃ inserted, step.output.returned = some (.rows inserted) ∧
      Reported memberName events now step.before inserted step.output.told step.after
  | _ => step.after.rows.Sublist step.before.rows ∧ step.output.told = []

/-- The rows that a step's `append` returned. -/
def landedRows (step : Step (SqliteActivityStore P) (TailCall P) (TailAnswer P)) : List (ActivityRow P) :=
  match step.input, step.output.returned with
  | .call (.append _ _ _), some (.rows inserted) => inserted
  | _, _ => []

structure Sound (store : SqliteActivityStore P) : Prop where
  sources : store.OncePerSource
  listeners : ∀ memberName, (store.listenersByMember memberName).Nodup

theorem sound_empty : (empty : SqliteActivityStore P).Sound := ⟨fun _ _ => Nat.zero_le 1, fun _ => List.nodup_nil⟩

theorem Sound.of_sublist {store after : SqliteActivityStore P} (h : store.Sound) (hRows : after.rows.Sublist store.rows)
    (hListeners : ∀ memberName, (after.listenersByMember memberName).Nodup) : after.Sound :=
  ⟨fun memberName sourceId => (hRows.countP_le).trans (h.sources memberName sourceId), hListeners⟩

variable {store : SqliteActivityStore P}

theorem reported_append (h : store.Sound) (memberName : String)
    (events : List (ActivityEvent P)) (now : Int) :
    Reported memberName events now store (append memberName events now store).1.1 (append memberName events now store).1.2
      (append memberName events now store).2 ∧ (append memberName events now store).2.Sound := by
  unfold append
  split
  · rename_i hEmpty
    subst hEmpty
    refine ⟨⟨(List.append_nil _).symm, by simp, List.Sublist.refl _, by simp, .nil, rfl, by simp, List.nodup_nil, by simp⟩, h⟩
  · have hLanded := landed_insertAll memberName now events store
    refine ⟨reported_of_landed hLanded (h.listeners memberName), oncePerSource_of_landed hLanded h.sources, ?_⟩
    intro member
    rw [hLanded.listeners]
    exact h.listeners member

theorem accounted_serve (h : store.Sound) (call : TailCall P) :
    Accounted (stepAt (serve schema) store call) ∧ (serve schema store call).1.Sound := by
  cases call with
  | call call =>
    cases call with
    | append memberName events now =>
      obtain ⟨hReported, hSound⟩ := reported_append h memberName events now
      exact ⟨⟨_, rfl, hReported⟩, hSound⟩
    | prune cutoffTs =>
      have hRows : (prune cutoffTs store).2.rows.Sublist store.rows := List.filter_sublist
      exact ⟨⟨hRows, rfl⟩, h.of_sublist hRows h.listeners⟩
    | list filter => exact ⟨⟨List.Sublist.refl _, rfl⟩, h⟩
  | subscribe memberName listener =>
    refine ⟨⟨List.Sublist.refl _, rfl⟩, h.of_sublist (List.Sublist.refl _) fun other => ?_⟩
    change (update store.listenersByMember memberName _ other).Nodup
    by_cases hOther : other = memberName
    · subst hOther
      rw [update_self]
      split
      · exact h.listeners other
      · rename_i hNew
        exact List.nodup_append'.mpr ⟨h.listeners other, List.nodup_singleton _, by simpa using hNew⟩
    · rw [update_of_ne hOther]
      exact h.listeners other
  | unsubscribe memberName listener =>
    refine ⟨⟨List.Sublist.refl _, rfl⟩, h.of_sublist (List.Sublist.refl _) fun other => ?_⟩
    change (update store.listenersByMember memberName _ other).Nodup
    by_cases hOther : other = memberName
    · subst hOther
      rw [update_self]
      exact (h.listeners other).filter _
    · rw [update_of_ne hOther]
      exact h.listeners other

theorem sequence_le_serve (store : SqliteActivityStore P) (call : TailCall P) :
    store.memberActivity.sequence ≤ (serve schema store call).1.memberActivity.sequence := by
  cases call with
  | call call =>
    cases call with
    | append memberName events now =>
      change _ ≤ (append memberName events now store).2.memberActivity.sequence
      unfold append
      split
      · exact Nat.le_refl _
      · rw [(landed_insertAll memberName now events store).sequence]
        exact Nat.le_add_right _ _
    | prune | list => exact Nat.le_refl _
  | subscribe | unsubscribe => exact Nat.le_refl _

theorem ids_landedRows (h : store.Sound) (call : TailCall P) :
    (landedRows (stepAt (serve schema) store call)).Pairwise (fun a b => a.id < b.id) ∧
      ∀ row ∈ landedRows (stepAt (serve schema) store call), store.memberActivity.sequence < row.id ∧
        row.id ≤ (serve schema store call).1.memberActivity.sequence := by
  cases call with
  | call call =>
    cases call with
    | append memberName events now =>
      obtain ⟨hReported, _⟩ := reported_append h memberName events now
      refine ⟨hReported.ascending, fun row hRow => ⟨hReported.fresh row hRow, ?_⟩⟩
      refine (append memberName events now store).2.memberActivity.given (ofActivity row) ?_
      have hStored := hReported.stored
      rw [rows] at hStored
      rw [hStored]
      exact List.mem_append_right _ (List.mem_map_of_mem hRow)
    | prune | list => exact ⟨.nil, by simp [landedRows]⟩
  | subscribe | unsubscribe => exact ⟨.nil, by simp [landedRows]⟩

theorem ids_ascending (h : store.Sound) (calls : List (TailCall P)) :
    (((run (serve schema) store calls).flatMap landedRows).map ActivityRow.id).Pairwise (· < ·) ∧
      ∀ row ∈ (run (serve schema) store calls).flatMap landedRows, store.memberActivity.sequence < row.id := by
  induction calls generalizing store with
  | nil => simp
  | cons call calls ih =>
    obtain ⟨hLater, hAbove⟩ := ih (accounted_serve schema h call).2
    obtain ⟨hFirst, hIds⟩ := ids_landedRows schema h call
    rw [run_cons, List.flatMap_cons, List.map_append]
    refine ⟨List.pairwise_append.mpr ⟨List.pairwise_map.mpr hFirst, hLater, ?_⟩, ?_⟩
    · intro id hId other hOther
      obtain ⟨row, hRow, rfl⟩ := List.mem_map.mp hId
      obtain ⟨later, hLaterRow, rfl⟩ := List.mem_map.mp hOther
      exact (hIds row hRow).2.trans_lt (hAbove later hLaterRow)
    · intro row hRow
      rcases List.mem_append.mp hRow with hNow | hLaterRow
      · exact (hIds row hNow).1
      · exact (sequence_le_serve schema store call).trans_lt (hAbove row hLaterRow)

/-- Every source has one row at most, every batch is accounted for, and no id is given twice. -/
theorem replayed_lands_once (calls : List (TailCall P)) :
    (∀ step ∈ run (serve schema) empty calls, step.after.OncePerSource ∧ Accounted step) ∧
      (((run (serve schema) empty calls).flatMap landedRows).map ActivityRow.id).Pairwise (· < ·) := by
  refine ⟨fun step hStep => ?_, (ids_ascending schema sound_empty calls).1⟩
  obtain ⟨hBefore, hEq⟩ := run_invariant (P := Sound)
    (fun store call h => (accounted_serve schema h call).2) sound_empty hStep
  obtain ⟨hAccounted, hSound⟩ := accounted_serve schema hBefore step.input
  rw [hEq]
  exact ⟨hSound.sources, hAccounted⟩

end SqliteActivityStore

end CommandSuite
