import CommandSuite.Core.Notifications
import CommandSuite.Library.Transcript

/-! # Receipts

An insert evicts the receipts of its endpoint that are beyond the newest, and whatever refers to them in the queue.
-/

namespace CommandSuite.Notifications

open Library Table Transcript

instance : Std.Total Store.newer where
  total left right := by
    unfold Store.newer
    rcases lt_trichotomy left.receivedAt right.receivedAt with hBefore | hSame | hAfter
    · exact .inr (.inl hBefore)
    · rcases le_total left.id right.id with hId | hId
      · exact .inr (.inr ⟨hSame.symm, hId⟩)
      · exact .inl (.inr ⟨hSame, hId⟩)
    · exact .inl (.inl hAfter)

instance : IsTrans DeliveryRecord Store.newer where
  trans first second third := by
    rintro (hFirst | ⟨hFirst, hId⟩) (hSecond | ⟨hSecond, hId'⟩)
    · exact .inl (lt_trans hSecond hFirst)
    · exact .inl (hSecond ▸ hFirst)
    · exact .inl (hFirst ▸ hSecond)
    · exact .inr ⟨hFirst.trans hSecond, hId'.trans hId⟩

structure Sound (store : Store) : Prop where
  capped : ∀ endpointId, (store.receipts endpointId).length ≤ DELIVERY_RETENTION_PER_ENDPOINT
  refers : ∀ row ∈ store.pending.rows, ∀ id ∈ row.deliveryIds,
    ∃ record ∈ store.deliveries.rows, record.id = id ∧ record.endpointId = row.endpointId
  nonempty : ∀ row ∈ store.pending.rows, row.deliveryIds ≠ []

/-! ## Eviction -/

section Evict

variable {store : Store} {endpointId : String} {record : DeliveryRecord}

theorem mem_receipts : record ∈ store.receipts endpointId ↔ record ∈ store.deliveries.rows ∧ record.endpointId = endpointId := by
  rw [Store.receipts, mem_select, decide_eq_true_eq]

theorem id_injective {left right : DeliveryRecord} (hLeft : left ∈ store.deliveries.rows) (hRight : right ∈ store.deliveries.rows)
    (h : left.id = right.id) : left = right :=
  List.inj_on_of_nodup_map store.deliveries.nodup hLeft hRight h

theorem strict_receipts : Retention.Strict Store.newer (store.receipts endpointId) := by
  refine ⟨(List.Nodup.of_map _ store.deliveries.nodup).filter _, fun left hLeft right hRight hNewer hOlder => ?_⟩
  refine id_injective (mem_receipts.mp hLeft).1 (mem_receipts.mp hRight).1 ?_
  rcases hNewer with hAfter | ⟨_, hId⟩
  · rcases hOlder with hBefore | ⟨hSame, _⟩ <;> omega
  · rcases hOlder with hBefore | ⟨_, hId'⟩
    · omega
    · exact le_antisymm hId' hId

theorem mem_beyondRetention (h : record ∈ store.receipts endpointId) :
    record.id ∈ Store.beyondRetention (store.receipts endpointId) ↔
      DELIVERY_RETENTION_PER_ENDPOINT ≤ Retention.rank Store.newer (store.receipts endpointId) record := by
  rw [Store.beyondRetention, List.mem_map]
  constructor
  · rintro ⟨other, hOther, hId⟩
    have hMem := (mem_receipts.mp (Retention.mem_of_mem_beyond _ hOther)).1
    rw [← id_injective hMem (mem_receipts.mp h).1 hId]
    exact ((Retention.mem_beyond_iff strict_receipts _ _).mp hOther).2
  · intro hRank
    exact ⟨record, (Retention.mem_beyond_iff strict_receipts _ _).mpr ⟨h, hRank⟩, rfl⟩

theorem endpointId_of_beyondRetention (hMem : record ∈ store.deliveries.rows)
    (h : record.id ∈ Store.beyondRetention (store.receipts endpointId)) : record.endpointId = endpointId := by
  obtain ⟨other, hOther, hId⟩ := List.mem_map.mp h
  obtain ⟨hStored, hEndpoint⟩ := mem_receipts.mp (Retention.mem_of_mem_beyond _ hOther)
  rw [← id_injective hStored hMem hId]
  exact hEndpoint

theorem mem_trimDeliveries : record ∈ (store.trimDeliveries endpointId).deliveries.rows ↔
    record ∈ store.deliveries.rows ∧ (record.endpointId = endpointId →
      Retention.rank Store.newer (store.receipts endpointId) record < DELIVERY_RETENTION_PER_ENDPOINT) := by
  rw [Store.trimDeliveries, Store.evict, delete, List.mem_filter]
  refine and_congr_right fun hMem => ?_
  rw [Bool.not_eq_true', decide_eq_false_iff_not]
  constructor
  · intro hKept hEndpoint
    rw [mem_beyondRetention (mem_receipts.mpr ⟨hMem, hEndpoint⟩)] at hKept
    exact not_le.mp hKept
  · intro hRank hEvicted
    have hEndpoint := endpointId_of_beyondRetention hMem hEvicted
    exact absurd ((mem_beyondRetention (mem_receipts.mpr ⟨hMem, hEndpoint⟩)).mp hEvicted) (not_le.mpr (hRank hEndpoint))

theorem length_receipts_trimDeliveries :
    ((store.trimDeliveries endpointId).receipts endpointId).length ≤ DELIVERY_RETENTION_PER_ENDPOINT := by
  let records := store.receipts endpointId
  let kept : DeliveryRecord → Bool := fun record => record.id ∉ Store.beyondRetention records
  have hKept : (store.trimDeliveries endpointId).receipts endpointId = records.filter kept := by
    rw [Store.receipts, select, Store.trimDeliveries, Store.evict, delete, List.filter_filter]
    refine (List.filter_congr fun record _ => Bool.and_comm _ _).trans ?_
    rw [← List.filter_filter]
    exact List.filter_congr fun record _ => by simp [kept, records]
  have hSorted : (records.filter kept).length = ((records.insertionSort Store.newer).filter kept).length :=
    ((List.perm_insertionSort Store.newer records).filter kept).length_eq.symm
  have hDropped : ((records.insertionSort Store.newer).drop DELIVERY_RETENTION_PER_ENDPOINT).filter kept = [] := by
    rw [List.filter_eq_nil_iff]
    intro record hRecord
    have hBeyond : record.id ∈ Store.beyondRetention records := List.mem_map_of_mem hRecord
    simpa [kept] using hBeyond
  rw [hKept, hSorted, ← List.take_append_drop DELIVERY_RETENTION_PER_ENDPOINT (records.insertionSort Store.newer),
    List.filter_append, hDropped, List.append_nil]
  exact (List.length_filter_le _ _).trans (List.length_take_le _ _)

theorem receipts_trimDeliveries_sublist (other : String) :
    ((store.trimDeliveries endpointId).receipts other).Sublist (store.receipts other) :=
  List.filter_sublist.filter _

theorem mem_pending_evict {evicted : List String} {row : PendingRecord} (h : row ∈ (store.evict endpointId evicted).pending.rows) :
    ∃ old ∈ store.pending.rows, row.endpointId = old.endpointId ∧ row.deliveryIds ⊆ old.deliveryIds ∧
      (row = old ∨ row.deliveryIds ≠ []) ∧ (old.endpointId = endpointId → ∀ id ∈ row.deliveryIds, id ∉ evicted) := by
  obtain ⟨old, hOld, rfl⟩ := List.mem_map.mp h
  obtain ⟨hStored, hKept⟩ := List.mem_filter.mp hOld
  refine ⟨old, hStored, ?_⟩
  split
  · rename_i hRefers
    have hLeft : (Store.keep evicted old).deliveryIds ≠ [] := by simpa [hRefers] using hKept
    refine ⟨rfl, List.filter_sublist.subset, .inr hLeft, fun _ id hId => ?_⟩
    exact of_decide_eq_true (List.mem_filter.mp hId).2
  · rename_i hRefers
    refine ⟨rfl, List.Subset.refl _, .inl rfl, fun hEndpoint id hId hEvicted => hRefers ?_⟩
    exact Bool.and_eq_true_iff.mpr ⟨decide_eq_true hEndpoint, List.any_eq_true.mpr ⟨id, hId, decide_eq_true hEvicted⟩⟩

end Evict

def Store.inserted (store : Store) (record : DeliveryRecord) : Store :=
  { store with deliveries := store.deliveries.insertOrIgnore record }

theorem insertDelivery_eq_some {store after : Store} {record : DeliveryRecord} (h : store.insertDelivery record = some after) :
    after = (store.inserted record).trimDeliveries record.endpointId := by
  unfold Store.insertDelivery at h
  split at h
  · cases h
  · exact (Option.some.inj h).symm

/-! ## Calls -/

inductive StoreCall where
  | insertDelivery (record : DeliveryRecord)
  | insertPending (row : PendingRecord)
  | deletePending (ids : List Nat)
  | updateDelivery (id : String) (patch : DeliveryPatch)
  | delete (endpointId : String)

def StoreCall.perform (store : Store) : StoreCall → Store
  | .insertDelivery record => (store.insertDelivery record).getD store
  | .insertPending row => store.insertPending row
  | .deletePending ids => store.deletePending ids
  | .updateDelivery id patch => (store.updateDelivery id patch).getD store
  | .delete endpointId => store.delete endpointId

def StoreCall.machine : Machine Store StoreCall Unit := fun store call => (call.perform store, ())

/-- A row is queued for deliveries of its endpoint that exist, and for one at least. -/
def StoreCall.Admissible (store : Store) : StoreCall → Prop
  | .insertPending row => row.deliveryIds ≠ [] ∧ ∀ id ∈ row.deliveryIds,
      ∃ record ∈ store.deliveries.rows, record.id = id ∧ record.endpointId = row.endpointId
  | _ => True

section Sound

variable {store : Store}

theorem Sound.trim (hRefers : ∀ row ∈ store.pending.rows, ∀ id ∈ row.deliveryIds,
      ∃ record ∈ store.deliveries.rows, record.id = id ∧ record.endpointId = row.endpointId)
    (hNonempty : ∀ row ∈ store.pending.rows, row.deliveryIds ≠ []) {endpointId : String}
    (hOthers : ∀ other ≠ endpointId, (store.receipts other).length ≤ DELIVERY_RETENTION_PER_ENDPOINT) :
    Sound (store.trimDeliveries endpointId) := by
  refine ⟨fun other => ?_, fun row hRow id hId => ?_, fun row hRow => ?_⟩
  · by_cases hSame : other = endpointId
    · rw [hSame]
      exact length_receipts_trimDeliveries
    · exact (receipts_trimDeliveries_sublist other).length_le.trans (hOthers other hSame)
  · obtain ⟨old, hOld, hEndpoint, hSubset, _, hKept⟩ := mem_pending_evict hRow
    obtain ⟨record, hRecord, rfl, hBelongs⟩ := hRefers old hOld id (hSubset hId)
    refine ⟨record, List.mem_filter.mpr ⟨hRecord, ?_⟩, rfl, hBelongs.trans hEndpoint.symm⟩
    rw [Bool.not_eq_true', decide_eq_false_iff_not]
    intro hEvicted
    have hOwner := endpointId_of_beyondRetention hRecord hEvicted
    exact hKept (hBelongs.symm.trans hOwner) _ hId hEvicted
  · obtain ⟨old, hOld, _, _, hSame | hLeft, _⟩ := mem_pending_evict hRow
    · rw [hSame]
      exact hNonempty old hOld
    · exact hLeft

theorem mem_insertOrIgnore {record other : DeliveryRecord} (h : other ∈ (store.deliveries.insertOrIgnore record).rows) :
    other ∈ store.deliveries.rows ∨ other = record := by
  rw [rows_insertOrIgnore] at h
  split at h
  · simpa using h
  · exact .inl h

theorem subset_insertOrIgnore (record : DeliveryRecord) : store.deliveries.rows ⊆ (store.deliveries.insertOrIgnore record).rows := by
  rw [rows_insertOrIgnore]
  split
  · exact List.subset_append_left _ _
  · exact List.Subset.refl _

theorem receipts_inserted {record : DeliveryRecord} {other : String} (h : other ≠ record.endpointId) :
    (store.inserted record).receipts other = store.receipts other := by
  rw [Store.receipts, Store.receipts, select, select, Store.inserted]
  dsimp only
  rw [rows_insertOrIgnore]
  split
  · rw [List.filter_append]
    simp [h.symm]
  · rfl

theorem Sound.insertDelivery (h : Sound store) {record : DeliveryRecord} {after : Store}
    (hInsert : store.insertDelivery record = some after) : Sound after := by
  rw [insertDelivery_eq_some hInsert]
  apply Sound.trim
  · intro row hRow id hId
    obtain ⟨known, hKnown, hSame⟩ := h.refers row hRow id hId
    exact ⟨known, subset_insertOrIgnore record hKnown, hSame⟩
  · exact h.nonempty
  · intro other hOther
    rw [receipts_inserted hOther]
    exact h.capped other

theorem Sound.insertPending (h : Sound store) {row : PendingRecord} (hRow : (StoreCall.insertPending row).Admissible store) :
    Sound (store.insertPending row) := by
  have hRows : ∀ other ∈ (store.insertPending row).pending.rows,
      other ∈ store.pending.rows ∨ other = { row with id := store.nextPending } := by
    intro other hOther
    rw [Store.insertPending, rows_insertOrIgnore] at hOther
    split at hOther
    · simpa using hOther
    · exact .inl hOther
  refine ⟨h.capped, fun other hOther => ?_, fun other hOther => ?_⟩
  · rcases hRows other hOther with hOld | rfl
    · exact h.refers other hOld
    · exact hRow.2
  · rcases hRows other hOther with hOld | rfl
    · exact h.nonempty other hOld
    · exact hRow.1

theorem Sound.deletePending (h : Sound store) (ids : List Nat) : Sound (store.deletePending ids) :=
  ⟨h.capped, fun row hRow => h.refers row (List.mem_filter.mp hRow).1, fun row hRow => h.nonempty row (List.mem_filter.mp hRow).1⟩

theorem receipts_patchDelivery (id : String) (patch : DeliveryPatch) (endpointId : String) :
    ∃ f : DeliveryRecord → DeliveryRecord, (store.patchDelivery id patch).receipts endpointId =
      (store.receipts endpointId).map f := by
  refine ⟨fun record => if record.id = id then patch.apply record else record, ?_⟩
  refine (List.filter_map ..).trans (congrArg₂ List.map ?_ (List.filter_congr fun record _ => ?_))
  · funext record
    simp
  · rw [Function.comp_apply]
    split <;> rfl

theorem Sound.updateDelivery (h : Sound store) (id : String) (patch : DeliveryPatch) : Sound (store.patchDelivery id patch) := by
  refine ⟨fun endpointId => ?_, fun row hRow other hOther => ?_, h.nonempty⟩
  · obtain ⟨f, hSame⟩ := receipts_patchDelivery id patch endpointId
    rw [hSame, List.length_map]
    exact h.capped endpointId
  · obtain ⟨record, hRecord, hId, hEndpoint⟩ := h.refers row hRow other hOther
    refine ⟨_, List.mem_map_of_mem hRecord, ?_, ?_⟩
    · split
      · exact hId
      · exact hId
    · split
      · exact hEndpoint
      · exact hEndpoint

theorem Sound.delete (h : Sound store) (endpointId : String) : Sound (store.delete endpointId) := by
  refine ⟨fun other => ?_, fun row hRow id hId => ?_, fun row hRow => h.nonempty row (List.mem_filter.mp hRow).1⟩
  · exact (List.filter_sublist.filter _).length_le.trans (h.capped other)
  · obtain ⟨hStored, hOther⟩ := List.mem_filter.mp hRow
    obtain ⟨record, hRecord, hId, hBelongs⟩ := h.refers row hStored id hId
    refine ⟨record, List.mem_filter.mpr ⟨hRecord, ?_⟩, hId, hBelongs⟩
    dsimp only at hOther ⊢
    rw [hBelongs]
    exact hOther

theorem Sound.perform (h : Sound store) {call : StoreCall} (hCall : call.Admissible store) : Sound (call.perform store) := by
  cases call with
  | insertDelivery record =>
    cases hInsert : store.insertDelivery record with
    | none =>
      rw [StoreCall.perform, hInsert]
      exact h
    | some after =>
      rw [StoreCall.perform, hInsert]
      exact h.insertDelivery hInsert
  | insertPending row => exact h.insertPending hCall
  | deletePending ids => exact h.deletePending ids
  | updateDelivery id patch =>
    rw [StoreCall.perform, Store.updateDelivery]
    split
    · exact h
    · exact h.updateDelivery id patch
  | delete endpointId => exact h.delete endpointId

theorem sound_empty : Sound .empty where
  capped _ := Nat.zero_le _
  refers _ hRow := nomatch hRow
  nonempty _ hRow := nomatch hRow

end Sound

/-- The receipts after an insert are those that fewer than the retained number of receipts of their endpoint are newer than. -/
def KeepsNewest (before : Store) (record : DeliveryRecord) (after : Store) : Prop :=
  ∀ other, other ∈ after.deliveries.rows ↔ other ∈ (before.inserted record).deliveries.rows ∧
    (other.endpointId = record.endpointId → Retention.rank Store.newer ((before.inserted record).receipts record.endpointId) other <
      DELIVERY_RETENTION_PER_ENDPOINT)

/-- In every run of calls from the empty store the receipts are capped, the queue refers to receipts that exist, and an
insert evicts what is beyond the newest. -/
theorem queue_referentially_sound (calls : List StoreCall)
    (hCalls : ∀ step ∈ run StoreCall.machine .empty calls, step.input.Admissible step.before) :
    ∀ step ∈ run StoreCall.machine .empty calls, Sound step.after ∧
      ∀ record after, step.input = .insertDelivery record → step.before.insertDelivery record = some after →
        step.after = after ∧ KeepsNewest step.before record after := by
  intro step hStep
  obtain ⟨hSound, hSame⟩ := run_invariant_of (C := fun store (call : StoreCall) => call.Admissible store)
    (fun _ _ h hCall => Sound.perform h hCall) sound_empty hCalls step hStep
  have hAfter := Sound.perform hSound (hCalls step hStep)
  rw [hSame]
  refine ⟨hAfter, fun record after hInput hInsert => ⟨?_, fun other => ?_⟩⟩
  · change step.input.perform step.before = after
    change step.input = _ at hInput
    rw [hInput, StoreCall.perform]
    exact (congrArg (Option.getD · step.before) hInsert)
  · rw [insertDelivery_eq_some hInsert]
    exact mem_trimDeliveries

section Example

def receipt (id : String) (receivedAt : Int) : DeliveryRecord :=
  ⟨id, "e", "ci", receivedAt, .pending, none, none, [], "{}", none, "", .info, none, none, none, none⟩

def queuedRow : PendingRecord := ⟨0, "e", "ann", .offline, ["d"], .info, none, 0, 1000⟩

def queuedThenTaken : List StoreCall := [.insertDelivery (receipt "d" 0), .insertPending queuedRow, .deletePending [0]]

theorem queued_then_taken_sound : queuedThenTaken.length = 3 ∧
    ∀ step ∈ run StoreCall.machine .empty queuedThenTaken, Sound step.after ∧
      ∀ record after, step.input = .insertDelivery record → step.before.insertDelivery record = some after →
        step.after = after ∧ KeepsNewest step.before record after := by
  refine ⟨rfl, queue_referentially_sound queuedThenTaken ?_⟩
  refine List.forall_mem_cons.mpr ⟨trivial, List.forall_mem_cons.mpr ⟨⟨List.cons_ne_nil _ _, ?_⟩, ?_⟩⟩
  · change ∀ id ∈ ["d"], ∃ record ∈ [receipt "d" 0], record.id = id ∧ record.endpointId = "e"
    decide
  · exact List.forall_mem_singleton.mpr trivial

end Example

end CommandSuite.Notifications
