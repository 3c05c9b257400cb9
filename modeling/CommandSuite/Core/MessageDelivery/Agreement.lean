import CommandSuite.Core.MessageDelivery.InMemory
import CommandSuite.Core.MessageDelivery.SqliteLawful

/-! # Lawful ledgers agree

Two ledgers that act row by row give the same results as long as no message id is tracked twice for one recipient.
-/

namespace CommandSuite.MessageDelivery

open Library MessageDeliveryLedger LawfulLedger Transcript

/-- The same rows in the same order, up to the order of rows with equal message timestamps. -/
def SameUpToTies (left right : List PendingMessageDelivery) : Prop :=
  left.Perm right ∧ left.Pairwise (fun a b => a.message.ts ≤ b.message.ts) ∧ right.Pairwise fun a b => a.message.ts ≤ b.message.ts

def Result.Agrees : Result → Result → Prop
  | .unit, .unit => True
  | .settled left, .settled right => left = right
  | .released left, .released right => left = right
  | .rows left, .rows right => SameUpToTies left right
  | .expired left, .expired right => left.Perm right
  | _, _ => False

variable {key : MessageKey}

theorem rowAfter_congr {released released' : String → Bool} {row : Option DeliveryView}
    (h : row ≠ none → released = released') (op : Op) :
    rowAfter released key op row = rowAfter released' key op row := by
  cases row with
  | some view => rw [h (Option.some_ne_none view)]
  | none => cases op <;> rfl

variable {L R : Type} [LawfulLedger L] [LawfulLedger R]

/-- What is known of two ledgers that have agreed so far, with the operations still to come. -/
structure InStep (rest : List Op) (left : L) (right : R) : Prop where
  leftLeased : WellLeased left
  rightLeased : WellLeased right
  rows : ∀ key, rowAt left key = rowAt right key
  lost : ∀ key owner, rowAt left key ≠ none → LawfulLedger.lost left key owner = LawfulLedger.lost right key owner
  fresh : Fresh rest
  future : ∀ key ∈ rest.filterMap trackedKey, rowAt left key = none ∧
    ∀ owner, LawfulLedger.lost left key owner = false ∧ LawfulLedger.lost right key owner = false

theorem InStep.start {ops : List Op} (h : Fresh ops) : InStep ops (empty : L) (empty : R) where
  leftLeased := wellLeased_empty
  rightLeased := wellLeased_empty
  rows key := (rowAt_empty key).trans (rowAt_empty key).symm
  lost key _ hRow := absurd (rowAt_empty key) hRow
  fresh := h
  future key _ := ⟨rowAt_empty key, fun owner => ⟨lost_empty key owner, lost_empty key owner⟩⟩

variable {rest : List Op} {left : L} {right : R}

theorem InStep.symm (h : InStep rest left right) :
    InStep rest right left where
  leftLeased := h.rightLeased
  rightLeased := h.leftLeased
  rows key := (h.rows key).symm
  lost key owner hRow := (h.lost key owner (h.rows key ▸ hRow)).symm
  fresh := h.fresh
  future key hKey := ⟨(h.rows key).symm.trans (h.future key hKey).1, fun owner => ((h.future key hKey).2 owner).symm⟩

variable {op : Op}

section

variable (h : InStep (op :: rest) left right)
include h

theorem InStep.rows_apply (key : MessageKey) : rowAt (apply left op).1 key = rowAt (apply right op).1 key := by
  rw [rowAt_apply left op key h.leftLeased, rowAt_apply right op key h.rightLeased, ← h.rows key]
  apply rowAfter_congr
  intro hRow
  funext owner
  exact h.lost key owner hRow

theorem InStep.lost_le {owner : String}
    (hRow : rowAt (apply left op).1 key ≠ none) (hLost : LawfulLedger.lost (apply left op).1 key owner = true) :
    LawfulLedger.lost (apply right op).1 key owner = true := by
  have hRow' : rowAt (apply right op).1 key ≠ none := h.rows_apply key ▸ hRow
  have hSource := lost_of_apply left op key owner hLost
  cases hView : rowAt left key with
  | none =>
    -- The operation has just inserted the row, so nobody has lost a lease on it.
    rw [rowAt_apply left op key h.leftLeased, hView] at hRow
    have hTracked := trackedKey_of_inserted hRow
    have hFuture := h.future key (List.mem_filterMap.mpr ⟨op, List.mem_cons_self, hTracked⟩)
    rw [(hFuture.2 owner).1, hView] at hSource
    simp at hSource
  | some view =>
    have hView' : rowAt right key = some view := (h.rows key).symm.trans hView
    refine lost_apply right op key view owner hView' hRow' ?_
    rcases hSource with hBefore | ⟨view', hSame, hLoses⟩
    · rw [← h.lost key owner (by simp [hView])]
      exact .inl hBefore
    · rw [hView] at hSame
      cases hSame
      exact .inr hLoses

theorem InStep.absent_of_future (hKey : key ∈ rest.filterMap trackedKey) :
    rowAt (apply left op).1 key = none ∧ ∀ owner, LawfulLedger.lost (apply left op).1 key owner = false := by
  have hLater : key ∈ (op :: rest).filterMap trackedKey := by
    obtain ⟨other, hMem, hTracked⟩ := List.mem_filterMap.mp hKey
    exact List.mem_filterMap.mpr ⟨other, List.mem_cons_of_mem op hMem, hTracked⟩
  have hFuture := h.future key hLater
  refine ⟨?_, ?_⟩
  · rw [rowAt_apply left op key h.leftLeased, hFuture.1]
    apply rowAfter_of_not_tracked
    intro hTracked
    have hFresh := h.fresh
    simp only [Fresh, List.filterMap_cons, hTracked, List.nodup_cons] at hFresh
    exact hFresh.1 hKey
  · intro owner
    cases hLost : LawfulLedger.lost (apply left op).1 key owner with
    | false => rfl
    | true =>
      have hSource := lost_of_apply left op key owner hLost
      rw [(hFuture.2 owner).1, hFuture.1] at hSource
      simp at hSource

theorem InStep.apply :
    InStep rest (apply left op).1 (MessageDelivery.apply right op).1 where
  leftLeased := wellLeased_apply left op h.leftLeased
  rightLeased := wellLeased_apply right op h.rightLeased
  rows := h.rows_apply
  lost key owner hRow := by
    have hRow' : rowAt (MessageDelivery.apply right op).1 key ≠ none := h.rows_apply key ▸ hRow
    exact Bool.eq_iff_iff.mpr ⟨h.lost_le hRow, h.symm.lost_le hRow'⟩
  fresh := by
    have hFresh := h.fresh
    unfold Fresh at hFresh
    rw [List.filterMap_cons] at hFresh
    split at hFresh
    · exact hFresh
    · exact hFresh.of_cons
  future key hKey := ⟨(h.absent_of_future hKey).1, fun owner =>
    ⟨(h.absent_of_future hKey).2 owner, (h.symm.absent_of_future hKey).2 owner⟩⟩

end

theorem nodup_of_keys {α : Type} {f : α → MessageKey} {rows : List α} (h : (rows.map f).Nodup) : rows.Nodup :=
  List.Nodup.of_map f h

theorem InStep.agrees (h : InStep (op :: rest) left right) :
    (MessageDelivery.apply left op).2.Agrees (MessageDelivery.apply right op).2 := by
  have hLeft := result_apply left op h.leftLeased
  have hRight := result_apply right op h.rightLeased
  cases op with
  | track | noteSent | markUnreported => trivial
  | settle recipient frame owner requireAcceptance =>
    refine Eq.trans hLeft (Eq.trans ?_ (Eq.symm hRight))
    rw [← h.rows]
    cases hRow : rowAt left ⟨frame.messageId, recipient⟩ with
    | none => rfl
    | some view =>
      have hLost := h.lost ⟨frame.messageId, recipient⟩ owner (by simp [hRow])
      rw [Option.bind_some, Option.bind_some, hLost]
  | releaseOwner recipient owner =>
    obtain ⟨keys, hNodup, hLength, hKeys⟩ := hLeft
    obtain ⟨keys', hNodup', hLength', hKeys'⟩ := hRight
    have hPerm : keys.Perm keys' := by
      rw [List.perm_ext_iff_of_nodup hNodup hNodup']
      intro key
      rw [hKeys, hKeys', h.rows]
    exact hLength.symm.trans (hPerm.length_eq.trans hLength')
  | pending recipient now =>
    obtain ⟨hNodup, hSorted, hRows⟩ := hLeft
    obtain ⟨hNodup', hSorted', hRows'⟩ := hRight
    refine ⟨?_, hSorted, hSorted'⟩
    rw [List.perm_ext_iff_of_nodup (nodup_of_keys hNodup) (nodup_of_keys hNodup')]
    intro row
    rw [hRows, hRows', h.rows]
  | expire now =>
    obtain ⟨hNodup, hRows⟩ := hLeft
    obtain ⟨hNodup', hRows'⟩ := hRight
    refine (List.perm_ext_iff_of_nodup (nodup_of_keys hNodup) (nodup_of_keys hNodup')).mpr ?_
    intro row
    rw [hRows, hRows', h.rows]

theorem lawful_agree {ops : List Op} (h : Fresh ops) :
    List.Forall₂ (fun left right => left.output.Agrees right.output)
      (run apply (empty : L) ops) (run apply (empty : R) ops) := by
  have hStep : ∀ op rest (left : L) (right : R), InStep (op :: rest) left right →
      (MessageDelivery.apply left op).2.Agrees (MessageDelivery.apply right op).2 ∧
        InStep rest (MessageDelivery.apply left op).1 (MessageDelivery.apply right op).1 :=
    fun op rest left right hInStep => ⟨hInStep.agrees, hInStep.apply⟩
  exact (lockstep hStep (InStep.start h)).1

theorem ledgers_agree (plan : SqliteMessageDeliveryLedger.ScanPlan) (ops : List Op) (h : Fresh ops) :
    List.Forall₂ (fun memory sqlite => memory.output.Agrees sqlite.output)
      (run apply (empty : InMemoryMessageDeliveryLedger) ops)
      (run apply (empty : SqliteMessageDeliveryLedger plan) ops) :=
  lawful_agree h

def backwards : SqliteMessageDeliveryLedger.ScanPlan := ⟨List.reverse, List.reverse_perm⟩

def bob : Name := ⟨"bob", .refl true⟩

def note (id : String) (ts : Int) : Message := ⟨id, ts, some "bob", some "alice", none, "hello", .info, [], []⟩

def frame (messageId : String) (disposition : Disposition) : MessageDispositionFrame := ⟨messageId, disposition, 5, none⟩

def takeover : List Op :=
  [.track (note "m1" 1) bob 1, .track (note "m2" 1) bob 1, .settle bob (frame "m1" .accepted) "laptop" true,
    .releaseOwner bob "laptop", .pending bob 3, .settle bob (frame "m1" .accepted) "server" true,
    .settle bob (frame "m1" .acted) "laptop" false, .settle bob (frame "m1" .acted) "server" false,
    .expire MESSAGE_DELIVERY_TTL_MS, .expire (1 + MESSAGE_DELIVERY_TTL_MS)]

theorem ledgers_agree_takeover :
    Fresh takeover ∧ List.Forall₂ (fun memory sqlite => memory.output.Agrees sqlite.output)
      (run apply (empty : InMemoryMessageDeliveryLedger) takeover)
      (run apply (empty : SqliteMessageDeliveryLedger backwards) takeover) :=
  ⟨by decide, ledgers_agree backwards takeover (by decide)⟩

end CommandSuite.MessageDelivery
