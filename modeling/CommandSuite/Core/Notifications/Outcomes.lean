import CommandSuite.Core.Notifications.Rewrites

/-! # Outcomes of deliveries

What becomes of the dispositions of the messages that a dispatch has pushed.
-/

namespace CommandSuite.Notifications

open Library Transcript Table

def Fresh (desk : Desk) (call : World × Event) : Prop := ∀ id ∈ call.2.draws, desk.store.getDeliveryRecord id = none

/-! ## A delivered receipt -/

/-- No message of a delivered receipt is refused, and what finishes read a delivered receipt as delivered. The newest of a
group may also be acknowledged by one of its pushes. -/
def Spares (desk : Desk) (call : World × Event) : Prop :=
  (∀ frame, call.2 = .disposition frame → frame.disposition = .refused →
    ∀ record ∈ desk.store.findDeliveriesByMessageId frame.messageId, record.status ≠ .delivered) ∧
  ∀ job, call.2.finishing call.1 desk = some job → Reached desk.store.deliveries (fun index delivery row =>
    row.status = .delivered → delivery.status = .delivered ∨
      (index = 0 ∧ 0 < job.acknowledged ∧ delivery.status ≠ .coalesced)) 0 job.newest

def Settled (before : Store) (fresh : List String) (after : Store) : Prop :=
  ∀ record ∈ after.deliveries.rows, record.id ∈ fresh ∨
    ∃ old ∈ before.deliveries.rows, old.id = record.id ∧ (old.status = .delivered → record.status = .delivered)

def Settling (before : Store) (fresh : List String) (id : String) (patch : DeliveryPatch) : Prop :=
  id ∈ fresh ∨ ∀ old ∈ before.deliveries.rows, old.id = id → old.status = .delivered → patch.status.getD .delivered = .delivered

section Settled

variable {before store : Store} {fresh buffered : List String}

theorem settled_refl (store : Store) : Settled store fresh store := fun record hRecord => .inr ⟨record, hRecord, rfl, id⟩

variable {delivery : DeliveryRecord}

theorem Settled.read (h : Settled before fresh store) (hDelivery : delivery ∈ store.deliveries.rows) :
    delivery.id ∈ fresh ∨ ∀ old ∈ before.deliveries.rows, old.id = delivery.id → old.status = .delivered →
      delivery.status = .delivered := by
  rcases h delivery hDelivery with hFresh | ⟨known, hKnown, hId, hStatus⟩
  · exact .inl hFresh
  · refine .inr fun old hOld hSame hDelivered => hStatus ?_
    rw [id_injective hKnown hOld (hId.trans hSame.symm)]
    exact hDelivered

theorem rowStatus_of_delivered {job : Job} {index : Nat} (h : delivery.status = .delivered) :
    job.rowStatus index delivery = .delivered := by
  rw [Job.rowStatus, if_pos (.inl h), h]

theorem mem_inserted {record other : DeliveryRecord} (h : other ∈ (store.inserted record).deliveries.rows) :
    other ∈ store.deliveries.rows ∨ other = record := mem_insertOrIgnore h

theorem mem_patchDelivery {id : String} {patch : DeliveryPatch} {record : DeliveryRecord}
    (h : record ∈ (store.patchDelivery id patch).deliveries.rows) :
    ∃ old ∈ store.deliveries.rows, (old.id = id ∧ record = patch.apply old) ∨ (old.id ≠ id ∧ record = old) := by
  obtain ⟨old, hOld, rfl⟩ := List.mem_map.mp h
  refine ⟨old, hOld, ?_⟩
  split
  · rename_i hId
    exact .inl ⟨of_decide_eq_true hId, rfl⟩
  · rename_i hId
    exact .inr ⟨fun hSame => hId (decide_eq_true hSame), rfl⟩

theorem stable_settled (before : Store) : Stable True fresh buffered (Settling before fresh) (Settled before fresh) where
  less hLess h := fun record hRecord => h record (hLess hRecord)
  inserted h hFresh _ := by
    intro other hOther
    rcases mem_inserted hOther with hOld | rfl
    · exact h other hOld
    · exact .inl hFresh
  patched h hSafe := by
    intro record hRecord
    obtain ⟨old, hOld, ⟨rfl, rfl⟩ | ⟨_, rfl⟩⟩ := mem_patchDelivery hRecord
    · rcases hSafe with hFresh | hKeeps
      · exact .inl hFresh
      · rcases h old hOld with hFresh | ⟨known, hKnown, hId, hStatus⟩
        · exact .inl hFresh
        · refine .inr ⟨known, hKnown, hId, fun hDelivered => ?_⟩
          have hWritten := hKeeps known hKnown hId hDelivered
          rw [DeliveryPatch.apply]
          dsimp only
          rw [hStatus hDelivered]
          exact hWritten
    · exact h _ hOld
  drawn hFresh _ := .inl hFresh
  lapsed h hDelivery hPending _ _ := by
    refine (h.read hDelivery).imp_right fun hRead old hOld hId hDelivered => ?_
    rw [hRead old hOld hId hDelivered] at hPending
    cases hPending
  read h hDelivery _ _ _ := by
    refine (h.read hDelivery).imp_right fun hRead old hOld hId hDelivered => ?_
    exact rowStatus_of_delivered (hRead old hOld hId hDelivered)

end Settled

variable {content : Content} {call : World × Event} {desk : Desk}

theorem settled_perform (hSpares : Spares desk call) : Settled desk.store call.2.draws (serve content desk call).1.store := by
  have hStable : Stable True call.2.draws (desk.buffers.rows.flatMap DebounceBuffer.deliveryIds)
      (Settling desk.store call.2.draws) (Settled desk.store call.2.draws) := stable_settled desk.store
  refine hStable.perform (settled_refl desk.store) (fun _ => trivial) (fun _ hId => hId) ?_ (fun job hJob => ?_) fun frame hFrame => ?_
  · exact fun buffer hBuffer id hId => .inr (List.mem_flatMap.mpr ⟨buffer, hBuffer, hId⟩)
  · refine (hSpares.2 job hJob).mono fun index delivery _ row hRow hKeeps => .inr fun old hOld hId hDelivered => ?_
    have hSame : row = old := id_injective (mem_of_find hRow) hOld ((key_of_find hRow).trans hId.symm)
    rcases hKeeps (hSame ▸ hDelivered) with hRead | ⟨hFirst, hAcknowledged, hSettled⟩
    · exact rowStatus_of_delivered hRead
    · change job.rowStatus index delivery = .delivered
      rw [Job.rowStatus, Job.status, if_pos hAcknowledged, hFirst]
      split
      · rename_i hTerminal
        exact hTerminal.resolve_right hSettled
      · simp
  · have hHeard := hSpares.1 frame hFrame
    unfold onMessageDisposition
    cases hDisposition : frame.disposition with
    | acted => exact hStable.foldl_updateDelivery (fun _ _ => .inr fun _ _ _ _ => rfl) (settled_refl desk.store)
    | handled => exact hStable.foldl_updateDelivery (fun _ _ => .inr fun _ _ _ _ => rfl) (settled_refl desk.store)
    | refused =>
      refine hStable.foldl_updateDelivery (fun record hRecord => .inr fun old hOld hId hDelivered => ?_) (settled_refl desk.store)
      have hStored := ((mem_select _ _ _).mp hRecord).1
      rw [id_injective hOld hStored hId] at hDelivered
      exact absurd hDelivered (hHeard hDisposition record hRecord)
    | accepted => exact settled_refl desk.store
    | deferred => exact settled_refl desk.store

/-- A delivered receipt stays delivered in every step of a run that spares it. -/
theorem delivered_stays_delivered (content : Content) (desk : Desk) (calls : List (World × Event))
    (hFresh : ∀ step ∈ run (serve content) desk calls, Fresh step.before step.input)
    (hSpares : ∀ step ∈ run (serve content) desk calls, Spares step.before step.input) :
    ∀ step ∈ run (serve content) desk calls, ∀ record ∈ step.before.store.deliveries.rows, record.status = .delivered →
      ∀ after ∈ step.after.store.deliveries.rows, after.id = record.id → after.status = .delivered := by
  intro step hStep record hRecord hDelivered after hAfter hId
  obtain ⟨_, hSame⟩ := run_invariant (P := fun _ => True) (fun _ _ _ => trivial) trivial hStep
  have hSettled : Settled step.before.store step.input.2.draws (serve content step.before step.input).1.store :=
    settled_perform (hSpares step hStep)
  rw [hSame] at hAfter
  rcases hSettled after hAfter with hDrawn | ⟨old, hOld, hOldId, hStatus⟩
  · have hNone := hFresh step hStep after.id hDrawn
    exact absurd hId.symm ((find_eq_none_iff _ _).mp hNone record hRecord)
  · rw [id_injective hOld hRecord (hOldId.trans hId)] at hStatus
    exact hStatus hDelivered

/-! ## A message that was acted on -/

def Event.acts : Event → Option String
  | .disposition frame => if frame.disposition = .acted ∨ frame.disposition = .handled then some frame.messageId else none
  | _ => none

def witnessed (content : Content) : Machine (Desk × List String) (World × Event) Output := fun state call =>
  let served := serve content state.1 call
  ((served.1, state.2 ++ call.2.acts.toList), served.2)

/-- One of the messages of a receipt was acted on. A receipt has the messages of the dispatches of it that have finished. -/
def ActedOn (acted : List String) (record : DeliveryRecord) : Prop := ∃ messageId ∈ record.messageIds, messageId ∈ acted

abbrev Terminal (status : NotificationDeliveryStatus) : Prop := status = .delivered ∨ status = .coalesced

/-- What finishes was not acted on before, or is not written as pending: it was read as terminal, a push was acknowledged, it
is an older one of a group that was pushed, or nothing was pushed or queued. What a buffer holds was not acted on, or is
terminal. -/
def InTime (acted : List String) (desk : Desk) (call : World × Event) : Prop :=
  (∀ job, call.2.finishing call.1 desk = some job → Reached desk.store.deliveries (fun index delivery row =>
    ActedOn acted row ∨ (∃ messageId ∈ job.messageIds, messageId ∈ acted) →
      Terminal delivery.status ∨ 0 < job.acknowledged ∨ (job.messageIds ≠ [] ∧ 0 < index) ∨ (job.messageIds = [] ∧ job.queued = 0))
    0 job.newest) ∧
  ∀ buffer ∈ desk.buffers.rows, ∀ id ∈ buffer.deliveryIds, ∀ row, desk.store.deliveries.find id = some row →
    ActedOn acted row → Terminal row.status

def Answered (acted : List String) (store : Store) : Prop :=
  ∀ record ∈ store.deliveries.rows, ActedOn acted record → record.status ≠ .pending

/-- What a call leaves of the receipts, before it is heard of a message: `job` is what it finishes of what was read before. -/
structure Answers (acted : List String) (before : Store) (job : Option Job) (fresh : List String) (after : Store) : Prop where
  answered : Answered acted after
  known : ∀ record ∈ after.deliveries.rows, ActedOn acted record →
    (∃ last ∈ job, ∃ messageId ∈ last.messageIds, messageId ∈ acted) ∨ ∃ old ∈ before.deliveries.rows, old.id = record.id ∧ ActedOn acted old
  keeps : ∀ record ∈ after.deliveries.rows, ∀ old ∈ before.deliveries.rows, old.id = record.id → ActedOn acted old → ActedOn acted record
  terminal : job = none → ∀ record ∈ after.deliveries.rows, ∀ old ∈ before.deliveries.rows, old.id = record.id →
    Terminal old.status → Terminal record.status

structure Answering (acted : List String) (before : Store) (job : Option Job) (id : String) (patch : DeliveryPatch) : Prop where
  added : (∃ messageId ∈ patch.addMessageIds, messageId ∈ acted) →
    (∃ last ∈ job, ∃ messageId ∈ last.messageIds, messageId ∈ acted) ∧ patch.status ≠ none
  pending : patch.status = some .pending → (¬∃ last ∈ job, ∃ messageId ∈ last.messageIds, messageId ∈ acted) ∧
    ∀ old ∈ before.deliveries.rows, old.id = id → ¬ActedOn acted old
  terminal : job = none → ∀ old ∈ before.deliveries.rows, old.id = id → Terminal old.status →
    ∀ status, patch.status = some status → Terminal status

section Answered

variable {acted : List String} {before store : Store} {job : Option Job} {fresh buffered : List String}

theorem answers_refl (h : Answered acted store) : Answers acted store job fresh store where
  answered := h
  known record hRecord hActed := .inr ⟨record, hRecord, rfl, hActed⟩
  keeps _ hRecord _ hOld hId hActed := id_injective hOld hRecord hId ▸ hActed
  terminal _ _ hRecord _ hOld hId hTerminal := id_injective hOld hRecord hId ▸ hTerminal

variable {patch : DeliveryPatch} {record : DeliveryRecord}

theorem actedOn_apply (h : ActedOn acted (patch.apply record)) :
    ActedOn acted record ∨ ∃ messageId ∈ patch.addMessageIds, messageId ∈ acted := by
  obtain ⟨messageId, hMem, hActed⟩ := h
  rcases List.mem_append.mp hMem with hOld | hNew
  · exact .inl ⟨messageId, hOld, hActed⟩
  · exact .inr ⟨messageId, hNew, hActed⟩

theorem ActedOn.apply (h : ActedOn acted record) (patch : DeliveryPatch) : ActedOn acted (patch.apply record) := by
  obtain ⟨messageId, hMem, hActed⟩ := h
  exact ⟨messageId, List.mem_append_left _ hMem, hActed⟩

theorem Answers.patched (h : Answers acted before job fresh store) {id : String}
    (hSafe : Answering acted before job id patch) : Answers acted before job fresh (store.patchDelivery id patch) := by
  refine ⟨fun _ hRecord hActed => ?_, fun _ hRecord hActed => ?_, fun _ hRecord old hOld hId hActed => ?_,
    fun hQuiet _ hRecord old hOld hId hTerminal => ?_⟩ <;>
    obtain ⟨known, hKnown, ⟨hKey, rfl⟩ | ⟨_, rfl⟩⟩ := mem_patchDelivery hRecord
  · change patch.status.getD known.status ≠ .pending
    cases hStatus : patch.status with
    | none =>
      rcases actedOn_apply hActed with hBefore | hAdded
      · exact h.answered known hKnown hBefore
      · exact absurd hStatus (hSafe.added hAdded).2
    | some status =>
      rintro rfl
      obtain ⟨hNoMessage, hNotBefore⟩ := hSafe.pending hStatus
      rcases actedOn_apply hActed with hBefore | hAdded
      · rcases h.known known hKnown hBefore with hMessage | ⟨old, hOld, hId, hOldActed⟩
        · exact hNoMessage hMessage
        · exact hNotBefore old hOld (hId.trans hKey) hOldActed
      · exact hNoMessage (hSafe.added hAdded).1
  · exact h.answered _ hKnown hActed
  · rcases actedOn_apply hActed with hBefore | hAdded
    · exact h.known known hKnown hBefore
    · exact .inl (hSafe.added hAdded).1
  · exact h.known _ hKnown hActed
  · exact (h.keeps known hKnown old hOld hId hActed).apply patch
  · exact h.keeps _ hKnown old hOld hId hActed
  · change Terminal (patch.status.getD known.status)
    cases hStatus : patch.status with
    | none => exact h.terminal hQuiet known hKnown old hOld hId hTerminal
    | some status => exact hSafe.terminal hQuiet old hOld (hId.trans hKey) hTerminal status hStatus
  · exact h.terminal hQuiet _ hKnown old hOld hId hTerminal

theorem Answers.inserted (h : Answers acted before job fresh store) (hBlank : record.messageIds = [])
    (hNew : ∀ old ∈ before.deliveries.rows, old.id ≠ record.id) : Answers acted before job fresh (store.inserted record) := by
  have hNotActed : ¬ActedOn acted record := by
    rintro ⟨messageId, hMem, _⟩
    rw [hBlank] at hMem
    cases hMem
  refine ⟨fun other hOther hActed => ?_, fun other hOther hActed => ?_, fun other hOther old hOld hId hActed => ?_,
    fun hQuiet other hOther old hOld hId hTerminal => ?_⟩ <;>
    rcases mem_inserted hOther with hKnown | rfl
  · exact h.answered other hKnown hActed
  · exact absurd hActed hNotActed
  · exact h.known other hKnown hActed
  · exact absurd hActed hNotActed
  · exact h.keeps other hKnown old hOld hId hActed
  · exact absurd hId (hNew old hOld)
  · exact h.terminal hQuiet other hKnown old hOld hId hTerminal
  · exact absurd hId (hNew old hOld)

variable {delivery : DeliveryRecord}

theorem rowStatus_of_terminal {job : Job} {index : Nat} (h : Terminal delivery.status) :
    job.rowStatus index delivery = delivery.status := by
  rw [Job.rowStatus, if_pos h]

theorem of_rowStatus_pending {job : Job} {index : Nat} (h : job.rowStatus index delivery = .pending) :
    ¬Terminal delivery.status ∧ job.acknowledged = 0 ∧ (job.messageIds = [] ∨ index = 0) ∧ (job.messageIds ≠ [] ∨ 0 < job.queued) := by
  unfold Job.rowStatus Job.status at h
  have hNotTerminal : ¬Terminal delivery.status := by
    intro hTerminal
    rw [if_pos hTerminal] at h
    rcases hTerminal with hStatus | hStatus <;> rw [hStatus] at h <;> cases h
  rw [if_neg hNotTerminal] at h
  split at h
  · cases h
  · rename_i hFirst
    split at h
    · cases h
    · rename_i hUnacknowledged
      split at h
      · rename_i hPending
        simp only [Bool.and_eq_true, decide_eq_true_eq, not_and, Bool.or_eq_true, List.length_pos_iff] at hFirst hPending
        refine ⟨hNotTerminal, Nat.eq_zero_of_not_pos hUnacknowledged, ?_, hPending⟩
        by_cases hMessages : job.messageIds = []
        · exact .inl hMessages
        · exact .inr (Nat.eq_zero_of_not_pos (hFirst hMessages))
      · cases h

theorem stable_answers (hFresh : ∀ id ∈ fresh, ∀ old ∈ before.deliveries.rows, old.id ≠ id) (hQuiet : fresh ≠ [] → job = none)
    (hBuffered : ∀ id ∈ buffered, ∀ old ∈ before.deliveries.rows, old.id = id → ActedOn acted old → Terminal old.status) :
    Stable (job = none) fresh buffered (Answering acted before job) (Answers acted before job fresh) where
  less hLess h := ⟨fun record hRecord => h.answered record (hLess hRecord), fun record hRecord => h.known record (hLess hRecord),
    fun record hRecord => h.keeps record (hLess hRecord), fun hNone record hRecord => h.terminal hNone record (hLess hRecord)⟩
  inserted h hMem hBlank := h.inserted hBlank (hFresh _ hMem)
  patched h hSafe := h.patched hSafe
  drawn := by
    intro id patch hMem hBlank
    refine ⟨fun hAdded => ?_, fun _ => ⟨?_, fun old hOld hId => absurd hId (hFresh id hMem old hOld)⟩,
      fun _ old hOld hId => absurd hId (hFresh id hMem old hOld)⟩
    · obtain ⟨messageId, hMessage, _⟩ := hAdded
      rw [hBlank] at hMessage
      cases hMessage
    · rintro ⟨last, hLast, _⟩
      rw [hQuiet (List.ne_nil_of_mem hMem)] at hLast
      cases hLast
  lapsed := by
    intro store delivery patch h hDelivery hPending hStatus hBlank
    refine ⟨fun hAdded => ?_, fun hWritten => ?_, fun hNone old hOld hId hTerminal => ?_⟩
    · obtain ⟨messageId, hMessage, _⟩ := hAdded
      rw [hBlank] at hMessage
      cases hMessage
    · rw [hStatus] at hWritten
      cases hWritten
    · rcases h.terminal hNone delivery hDelivery old hOld hId hTerminal with hSame | hSame <;> rw [hPending] at hSame <;> cases hSame
  read := by
    intro store delivery last now index h hDelivery hBlank hUnacknowledged hWhy
    refine ⟨fun hAdded => ?_, fun hWritten => ?_, fun hNone old hOld hId hTerminal status hWritten => ?_⟩
    · obtain ⟨messageId, hMessage, _⟩ := hAdded
      change messageId ∈ last.messageIds at hMessage
      rw [hBlank] at hMessage
      cases hMessage
    · obtain ⟨hNotTerminal, _, _, hQueued⟩ := of_rowStatus_pending (Option.some.inj hWritten)
      have hSome := hQueued.resolve_left (not_not.mpr hBlank)
      obtain ⟨hNone, hRead⟩ := hWhy.resolve_left (Nat.ne_of_gt hSome)
      refine ⟨?_, fun old hOld hId hActed => ?_⟩
      · rintro ⟨other, hOther, _⟩
        rw [hNone] at hOther
        cases hOther
      · rcases hRead with hHeld | hPending
        · exact hNotTerminal (h.terminal hNone delivery hDelivery old hOld hId (hBuffered _ hHeld old hOld hId hActed))
        · exact h.answered delivery hDelivery (h.keeps delivery hDelivery old hOld hId hActed) hPending
    · have hRead := h.terminal hNone delivery hDelivery old hOld hId hTerminal
      have hSame : last.rowStatus index delivery = status := Option.some.inj hWritten
      rw [← hSame, rowStatus_of_terminal hRead]
      exact hRead

theorem mem_foldl_updateDelivery {status : NotificationDeliveryStatus} (hStatus : patch.status = some status)
    (hBlank : patch.addMessageIds = []) {deliveries : List DeliveryRecord}
    (h : record ∈ (deliveries.foldl (fun store delivery => (store.updateDelivery delivery.id patch).getD store) store).deliveries.rows) :
    ∃ old ∈ store.deliveries.rows, old.id = record.id ∧ record.messageIds = old.messageIds ∧
      (record.status = status ∨ (record.status = old.status ∧ ∀ delivery ∈ deliveries, delivery.id ≠ old.id)) := by
  induction deliveries generalizing store with
  | nil => exact ⟨record, h, rfl, rfl, .inr ⟨rfl, fun _ hDelivery => nomatch hDelivery⟩⟩
  | cons delivery deliveries ih =>
    obtain ⟨middle, hMiddle, hId, hMessages, hWritten⟩ := ih h
    change middle ∈ ((store.updateDelivery delivery.id patch).getD store).deliveries.rows at hMiddle
    unfold Store.updateDelivery at hMiddle
    cases hRow : store.getDeliveryRecord delivery.id with
    | none =>
      rw [hRow] at hMiddle
      refine ⟨middle, hMiddle, hId, hMessages, hWritten.imp_right fun hSame => ⟨hSame.1, List.forall_mem_cons.mpr ⟨fun hKey => ?_, hSame.2⟩⟩⟩
      exact (find_eq_none_iff _ _).mp hRow middle hMiddle hKey.symm
    | some row =>
      rw [hRow] at hMiddle
      obtain ⟨old, hOld, ⟨hKey, rfl⟩ | ⟨hKey, rfl⟩⟩ := mem_patchDelivery hMiddle
      · refine ⟨old, hOld, hId, ?_, .inl ?_⟩
        · rw [hMessages, DeliveryPatch.apply]
          dsimp only
          rw [hBlank, List.append_nil]
        · rcases hWritten with hSame | ⟨hSame, _⟩
          · exact hSame
          · rw [hSame, DeliveryPatch.apply]
            dsimp only
            rw [hStatus, Option.getD_some]
      · exact ⟨_, hOld, hId, hMessages, hWritten.imp_right fun hSame =>
          ⟨hSame.1, List.forall_mem_cons.mpr ⟨fun hOther => hKey hOther.symm, hSame.2⟩⟩⟩

theorem answered_heard (h : Answered acted store) (messageId : String) (status : NotificationDeliveryStatus) (patch : DeliveryPatch)
    (hStatus : patch.status = some status) (hBlank : patch.addMessageIds = []) (hWritten : status ≠ .pending) :
    Answered (acted ++ [messageId]) ((store.findDeliveriesByMessageId messageId).foldl
      (fun store delivery => (store.updateDelivery delivery.id patch).getD store) store) := by
  intro record hRecord hActed
  obtain ⟨old, hOld, hId, hMessages, hSame | ⟨hSame, hOthers⟩⟩ := mem_foldl_updateDelivery hStatus hBlank hRecord
  · rw [hSame]
    exact hWritten
  · rw [hSame]
    refine h old hOld ?_
    obtain ⟨message, hMessage, hMem⟩ := hActed
    rw [hMessages] at hMessage
    rcases List.mem_append.mp hMem with hBefore | hNow
    · exact ⟨message, hMessage, hBefore⟩
    · rw [List.mem_singleton.mp hNow] at hMessage
      have hFound : old ∈ store.findDeliveriesByMessageId messageId := (mem_select _ _ _).mpr ⟨hOld, decide_eq_true hMessage⟩
      exact absurd rfl (hOthers old hFound)

theorem Answered.mono {more : List String} (h : Answered (acted ++ more) store) : Answered acted store := by
  intro record hRecord hActed
  obtain ⟨messageId, hMessage, hMem⟩ := hActed
  exact h record hRecord ⟨messageId, hMessage, List.mem_append_left _ hMem⟩

theorem answered_onMessageDisposition (h : Answered acted store) (frame : MessageDispositionFrame) :
    Answered (acted ++ (Event.disposition frame).acts.toList) (onMessageDisposition store frame) := by
  obtain ⟨messageId, disposition, at_, reason⟩ := frame
  cases disposition with
  | acted => exact answered_heard h messageId .delivered ⟨_, some none, [], none, some at_⟩ rfl rfl (by decide)
  | handled => exact answered_heard h messageId .delivered ⟨_, some none, [], none, some at_⟩ rfl rfl (by decide)
  | refused =>
    have hRefused := answered_heard h messageId .dropped
      ⟨_, some (some ((reason.map DispositionReason.detail).getD "subscriber refused delivery")), [], none, none⟩ rfl rfl (by decide)
    change Answered (acted ++ []) _
    rw [List.append_nil]
    exact hRefused.mono
  | accepted =>
    change Answered (acted ++ []) _
    rw [List.append_nil]
    exact h
  | deferred =>
    change Answered (acted ++ []) _
    rw [List.append_nil]
    exact h

end Answered

variable {acted : List String}

theorem answered_unheard (h : Answered acted desk.store)
    (hFresh : Fresh desk call) (hInTime : InTime acted desk call) (hUnheard : ∀ frame, call.2 ≠ .disposition frame) :
    Answered acted (serve content desk call).1.store := by
  have hNew : ∀ id ∈ call.2.draws, ∀ old ∈ desk.store.deliveries.rows, old.id ≠ id := fun id hId =>
    (find_eq_none_iff _ _).mp (hFresh id hId)
  have hQuiet : call.2.draws ≠ [] → call.2.finishing call.1 desk = none := by
    obtain ⟨world, event⟩ := call
    cases event with
    | pushed => exact fun hDraws => absurd rfl hDraws
    | proceed => exact fun hDraws => absurd rfl hDraws
    | _ => exact fun _ => rfl
  have hBuffered : ∀ id ∈ desk.buffers.rows.flatMap DebounceBuffer.deliveryIds, ∀ old ∈ desk.store.deliveries.rows, old.id = id →
      ActedOn acted old → Terminal old.status := by
    intro id hId old hOld hKey
    obtain ⟨buffer, hBuffer, hMem⟩ := List.mem_flatMap.mp hId
    exact hInTime.2 buffer hBuffer id hMem old ((find_eq_some_iff _ _ _).mpr ⟨hOld, hKey⟩)
  have hStable := stable_answers hNew hQuiet hBuffered
  refine (hStable.perform (answers_refl h) id (fun _ hId => hId) ?_ (fun job hJob => ?_) fun frame hFrame => ?_).answered
  · exact fun buffer hBuffer id hId => .inr (List.mem_flatMap.mpr ⟨buffer, hBuffer, hId⟩)
  · refine (hInTime.1 job hJob).mono fun index delivery _ row hRow hReached => ?_
    refine ⟨fun hAdded => ⟨⟨job, hJob, hAdded⟩, fun hNone => by cases hNone⟩, fun hWritten => ?_, fun hNone => ?_⟩
    · obtain ⟨hNotTerminal, hUnacknowledged, hFirst, hQueued⟩ := of_rowStatus_pending (Option.some.inj hWritten)
      have hNotActed : ¬(ActedOn acted row ∨ ∃ messageId ∈ job.messageIds, messageId ∈ acted) := by
        intro hActed
        rcases hReached hActed with hTerminal | hAcknowledged | ⟨hPushed, hOlder⟩ | ⟨hNothing, hNone⟩
        · exact hNotTerminal hTerminal
        · exact absurd hUnacknowledged (Nat.ne_of_gt hAcknowledged)
        · exact hFirst.elim hPushed (Nat.ne_of_gt hOlder)
        · exact hQueued.elim (fun hPushed => hPushed hNothing) (Nat.ne_of_gt · hNone)
      refine ⟨?_, fun old hOld hId hActed => hNotActed (.inl ?_)⟩
      · rintro ⟨last, hLast, hMessage⟩
        rw [hJob] at hLast
        cases hLast
        exact hNotActed (.inr hMessage)
      · rw [id_injective (mem_of_find hRow) hOld ((key_of_find hRow).trans hId.symm)]
        exact hActed
    · rw [hJob] at hNone
      cases hNone
  · exact absurd hFrame (hUnheard frame)

theorem answered_perform (h : Answered acted desk.store)
    (hFresh : Fresh desk call) (hInTime : InTime acted desk call) :
    Answered (acted ++ call.2.acts.toList) (serve content desk call).1.store := by
  by_cases hHeard : ∃ frame, call.2 = .disposition frame
  · obtain ⟨frame, hFrame⟩ := hHeard
    obtain ⟨world, event⟩ := call
    cases hFrame
    exact answered_onMessageDisposition h frame
  · have hUnheard : ∀ frame, call.2 ≠ .disposition frame := fun frame hFrame => hHeard ⟨frame, hFrame⟩
    have hActs : call.2.acts = none := by
      obtain ⟨world, event⟩ := call
      cases event with
      | disposition frame => exact absurd rfl (hUnheard frame)
      | _ => rfl
    rw [hActs, Option.toList_none, List.append_nil]
    exact answered_unheard h hFresh hInTime hUnheard

/-- In a run in which what finishes is in time, no receipt of a finished dispatch is pending once one of its messages was
acted on. -/
theorem acted_never_pending (content : Content) (desk : Desk) (calls : List (World × Event))
    (hFresh : ∀ step ∈ run (witnessed content) (desk, []) calls, Fresh step.before.1 step.input)
    (hInTime : ∀ step ∈ run (witnessed content) (desk, []) calls, InTime step.before.2 step.before.1 step.input) :
    ∀ step ∈ run (witnessed content) (desk, []) calls, Answered step.after.2 step.after.1.store := by
  intro step hStep
  have hStart : Answered [] desk.store := fun _ _ ⟨_, _, hActed⟩ => nomatch hActed
  obtain ⟨hBefore, hSame⟩ := run_invariant_of (P := fun state => Answered state.2 state.1.store)
    (C := fun state call => Fresh state.1 call ∧ InTime state.2 state.1 call) (fun _ _ h hMeets => answered_perform h hMeets.1 hMeets.2)
    (s := (desk, [])) hStart (fun step hStep => ⟨hFresh step hStep, hInTime step hStep⟩) step hStep
  rw [hSame]
  exact answered_perform hBefore (hFresh step hStep) (hInTime step hStep)

section Example

def everybody : World := ⟨0, fun _ => true, fun _ => true, fun _ => false, none⟩

def passing : Content := ⟨fun _ _ => none, fun _ body => body, fun _ => ""⟩

def annAndBob : NotificationEndpoint :=
  ⟨"e", "ci", "ci", true, [⟨some "ann", none⟩, ⟨some "bob", none⟩], .info, none, none, [], ⟨.queue, .now, 0, 10, 1000, 1000⟩, none⟩

def request : IngestInput := ⟨annAndBob, "{}", 2, none, fun _ => none, none, none⟩

def opened : Desk := ⟨⟨⟨[annAndBob], by decide⟩, .empty, .empty, 0⟩, .empty, []⟩

def disposed (messageId : String) (disposition : Disposition) : World × Event :=
  (everybody, .disposition ⟨messageId, disposition, 1, none⟩)

def annActs : List (World × Event) :=
  [(everybody, .ingest request "d"), (everybody, .pushed 0 (some ("m", false))), (everybody, .pushed 0 (some ("n", false))),
    disposed "m" .acted]

def bobRefuses : List (World × Event) := annActs ++ [disposed "n" .refused]

theorem refused_after_acted_regresses :
    (∀ step ∈ run (serve passing) opened bobRefuses, Fresh step.before step.input) ∧
      ¬∀ step ∈ run (serve passing) opened bobRefuses, ∀ record ∈ step.before.store.deliveries.rows,
        record.status = .delivered → ∀ after ∈ step.after.store.deliveries.rows, after.id = record.id → after.status = .delivered := by
  unfold Fresh
  decide

theorem ann_acts_settled :
    (∀ step ∈ run (serve passing) opened annActs, Fresh step.before step.input ∧ Spares step.before step.input) ∧
      ∀ step ∈ run (serve passing) opened annActs, ∀ record ∈ step.before.store.deliveries.rows,
        record.status = .delivered → ∀ after ∈ step.after.store.deliveries.rows, after.id = record.id → after.status = .delivered := by
  have hFresh : ∀ step ∈ run (serve passing) opened annActs, Fresh step.before step.input := by
    unfold Fresh
    decide
  have hSpares : ∀ step ∈ run (serve passing) opened annActs, Spares step.before step.input := by
    refine List.forall_mem_cons.mpr ⟨?_, List.forall_mem_cons.mpr ⟨?_, List.forall_mem_cons.mpr ⟨?_, List.forall_mem_singleton.mpr ?_⟩⟩⟩
    · exact ⟨fun frame hFrame => (by cases hFrame), fun job hJob => (by cases hJob)⟩
    · exact ⟨fun frame hFrame => (by cases hFrame), fun job hJob => (by cases hJob)⟩
    · refine ⟨fun frame hFrame => (by cases hFrame), fun job hJob => ?_⟩
      cases hJob
      exact ⟨fun hDelivered => (by cases hDelivered), trivial⟩
    · refine ⟨fun frame hFrame hRefused => ?_, fun job hJob => (by cases hJob)⟩
      cases hFrame
      cases hRefused
  exact ⟨fun step hStep => ⟨hFresh step hStep, hSpares step hStep⟩, delivered_stays_delivered passing opened annActs hFresh hSpares⟩

def annActsFirst : List (World × Event) :=
  [(everybody, .ingest request "d"), (everybody, .pushed 0 (some ("m", false))), disposed "m" .acted,
    (everybody, .pushed 0 (some ("n", false)))]

theorem acted_first_still_pending :
    (∀ step ∈ run (witnessed passing) (opened, []) annActsFirst, Fresh step.before.1 step.input) ∧
      ¬∀ step ∈ run (witnessed passing) (opened, []) annActsFirst, Answered step.after.2 step.after.1.store := by
  unfold Fresh Answered ActedOn
  decide

theorem ann_acts_answered :
    (∀ step ∈ run (witnessed passing) (opened, []) annActs,
      Fresh step.before.1 step.input ∧ InTime step.before.2 step.before.1 step.input) ∧
      ∀ step ∈ run (witnessed passing) (opened, []) annActs, Answered step.after.2 step.after.1.store := by
  have hFresh : ∀ step ∈ run (witnessed passing) (opened, []) annActs, Fresh step.before.1 step.input := by
    unfold Fresh
    decide
  have hInTime : ∀ step ∈ run (witnessed passing) (opened, []) annActs,
      InTime step.before.2 step.before.1 step.input := by
    refine List.forall_mem_cons.mpr ⟨?_, List.forall_mem_cons.mpr ⟨?_, List.forall_mem_cons.mpr ⟨?_, List.forall_mem_singleton.mpr ?_⟩⟩⟩ <;>
      refine ⟨fun job hJob => ?_, fun _ hBuffer => nomatch hBuffer⟩ <;> cases hJob
    refine ⟨fun hActed => ?_, trivial⟩
    rcases hActed with ⟨_, _, hActed⟩ | ⟨_, _, hActed⟩ <;> cases hActed
  exact ⟨fun step hStep => ⟨hFresh step hStep, hInTime step hStep⟩, acted_never_pending passing opened annActs hFresh hInTime⟩

end Example

end CommandSuite.Notifications
