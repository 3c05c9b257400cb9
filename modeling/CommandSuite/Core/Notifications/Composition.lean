import CommandSuite.Core.Notifications.Provenance
import CommandSuite.Library.Packing

/-! # What a body holds

The budget of a body is that of its blocks: what is said about omitted deliveries comes on top, and a delivery that does
not fit is passed by for an older one that does.
-/

namespace CommandSuite.Notifications

open Library Library.Packing Text

def RENDERED_MAX : Nat := 8 * 1024

/-- What is said about `n` deliveries that are left out. -/
def noteOf (n : Nat) : JsString :=
  40 :: number n ++ utf16 " older " ++ utf16 (if n = 1 then "delivery" else "deliveries") ++
    utf16 " omitted — see the delivery receipts)"

section

variable (opts : ComposeOptions)

def cost (delivery : RenderedDelivery) : Nat := (block opts delivery).length + 2

def budget : Int := COMPOSED_MAX - (header opts).length

/-- The body stays under its cap, and has the newest deliveries whole and the number of the older ones. -/
structure Accounted : Prop where
  capped : (composeBody opts).length ≤ COMPOSED_MAX
  whole : composeBody opts = (header opts ++ [10]) ++ (blocks opts (shown opts) ++ trailer opts)
  older : ∃ older, opts.deliveries = shown opts ++ older ∧ older.length = omitted opts

/-- The blocks of the first `n` deliveries fit together, behind them none does, and the note has room. -/
structure HasRoom (n : Nat) : Prop where
  bound : n ≤ opts.deliveries.length
  stops : Stops (cost opts) (budget opts) opts.deliveries n
  note : n < opts.deliveries.length → (header opts).length + 1 + (blocks opts (opts.deliveries.take n)).length +
    ((noteOf (opts.deliveries.length - n)).length + 1) ≤ COMPOSED_MAX

theorem included_eq_pack (left : Int) (deliveries : List RenderedDelivery) :
    included opts left deliveries = pack (cost opts) left deliveries := by
  induction deliveries generalizing left with
  | nil => rfl
  | cons delivery deliveries ih =>
    rw [included, pack, ih, ih]
    rfl

theorem shown_eq_pack : shown opts = pack (cost opts) (budget opts) opts.deliveries := included_eq_pack opts _ _

theorem length_blocks (deliveries : List RenderedDelivery) :
    (blocks opts deliveries).length + deliveries.length = total (cost opts) deliveries := by
  induction deliveries with
  | nil => rfl
  | cons delivery deliveries ih =>
    rw [total_cons, ← ih, blocks, List.flatMap_cons, List.length_append, List.length_cons, List.length_cons, cost, blocks]
    omega

theorem length_composeBody :
    (composeBody opts).length = (header opts).length + 1 + (blocks opts (shown opts)).length + (trailer opts).length := by
  rw [composeBody_eq, List.length_append, List.length_append, List.length_append, List.length_singleton, Nat.add_assoc _ _ (trailer opts).length]

theorem length_trailer : (trailer opts).length = if 0 < omitted opts then (noteOf (omitted opts)).length + 1 else 0 := by
  unfold trailer
  split
  · rfl
  · rfl

variable {opts}

theorem shown_of_hasRoom {n : Nat} (h : HasRoom opts n) : shown opts = opts.deliveries.take n := by
  rw [shown_eq_pack]
  exact pack_of_stops h.stops

theorem omitted_of_take {n : Nat} (hBound : n ≤ opts.deliveries.length) (h : shown opts = opts.deliveries.take n) :
    omitted opts = opts.deliveries.length - n := by
  rw [omitted, h, List.length_take_of_le hBound]

theorem length_framed_le (hHeader : (header opts).length < COMPOSED_MAX) :
    (header opts).length + 1 + (blocks opts (shown opts)).length ≤ COMPOSED_MAX := by
  have hBudget : 0 ≤ budget opts := by
    unfold budget
    omega
  have hTotal : total (cost opts) (pack (cost opts) (budget opts) opts.deliveries) ≤ budget opts := total_pack_le hBudget _
  rw [← shown_eq_pack, ← length_blocks, budget] at hTotal
  cases hShown : shown opts with
  | nil =>
    change (header opts).length + 1 + 0 ≤ COMPOSED_MAX
    omega
  | cons delivery deliveries =>
    rw [hShown, List.length_cons] at hTotal
    omega

end

/-- A body accounts for its deliveries exactly if they fit up to some point, none fits behind it, and the note about those has room. -/
theorem body_accounts_for_deliveries (opts : ComposeOptions) (hHeader : (header opts).length < COMPOSED_MAX) :
    Accounted opts ↔ ∃ n, HasRoom opts n := by
  have hBudget : 0 ≤ budget opts := by
    unfold budget
    omega
  constructor
  · intro h
    obtain ⟨older, hOlder, -⟩ := h.older
    have hFirst : pack (cost opts) (budget opts) opts.deliveries <+: opts.deliveries := by
      rw [← shown_eq_pack]
      exact ⟨older, hOlder.symm⟩
    obtain ⟨n, hBound, hStops⟩ := (pack_prefix_iff hBudget).mp hFirst
    have hShown : shown opts = opts.deliveries.take n := (shown_eq_pack opts).trans (pack_of_stops hStops)
    refine ⟨n, hBound, hStops, fun hLeft => ?_⟩
    have hCapped := h.capped
    rw [length_composeBody, length_trailer, omitted_of_take hBound hShown, if_pos (Nat.sub_pos_of_lt hLeft), hShown] at hCapped
    exact hCapped
  · rintro ⟨n, h⟩
    have hShown := shown_of_hasRoom h
    have hOmitted := omitted_of_take h.bound hShown
    refine ⟨?_, composeBody_eq opts, opts.deliveries.drop n, ?_, ?_⟩
    · rw [length_composeBody, length_trailer]
      split
      · rename_i hSome
        rw [hOmitted] at hSome ⊢
        rw [hShown]
        exact h.note (by omega)
      · rw [Nat.add_zero]
        exact length_framed_le hHeader
    · rw [hShown, List.take_append_drop]
    · rw [hOmitted, List.length_drop]

set_option maxRecDepth 4000 in
theorem single_delivery_accounted : Accounted escaping := by
  have hBehind : escaping.deliveries.drop 1 = [] := rfl
  refine (body_accounts_for_deliveries escaping (by decide)).mpr ⟨1, by decide, ⟨by decide, ?_⟩, by decide⟩
  rw [hBehind]
  exact List.forall_mem_nil _

/-! ## A delivery that is passed by -/

theorem length_block (opts : ComposeOptions) (delivery : RenderedDelivery) :
    (block opts delivery).length = (block opts { delivery with rendered := [] }).length + delivery.rendered.length := by
  have hSame : provenance opts { delivery with rendered := [] } = provenance opts delivery := rfl
  simp only [block, hSame, List.length_append, List.length_cons, List.length_nil]
  omega

def longDelivery : RenderedDelivery := ⟨utf16 "0", 0, List.replicate 8100 120, (by decide : ∀ unit ∈ [48], isUuidUnit unit)⟩

def shortDelivery : RenderedDelivery := ⟨utf16 "1", 0, utf16 "ok", by decide⟩

def burst : ComposeOptions where
  endpointSlug := utf16 "ci"
  displayName := []
  deliveries := [longDelivery, longDelivery, longDelivery, shortDelivery]
  queuedMs := none
  queuedReason := none
  slug := (by decide : ∀ unit ∈ [99, 105], isSlugUnit unit)

theorem length_longDelivery : longDelivery.rendered.length = 8100 := List.length_replicate

theorem cost_longDelivery : cost burst longDelivery = cost burst { longDelivery with rendered := [] } + 8100 := by
  have hBlock := length_block burst longDelivery
  rw [length_longDelivery] at hBlock
  rw [cost, hBlock]
  rfl

set_option maxRecDepth 4000 in
theorem newer_delivery_left_out : ¬ ∀ opts : ComposeOptions, (header opts).length < COMPOSED_MAX →
    (∀ delivery ∈ opts.deliveries, delivery.rendered.length ≤ RENDERED_MAX) → Accounted opts := by
  intro hAll
  have hCaps : ∀ delivery ∈ burst.deliveries, delivery.rendered.length ≤ RENDERED_MAX := by
    have hLong : longDelivery.rendered.length ≤ RENDERED_MAX := length_longDelivery.trans_le (by decide)
    refine List.forall_mem_cons.mpr ⟨hLong, List.forall_mem_cons.mpr ⟨hLong, List.forall_mem_cons.mpr ⟨hLong, ?_⟩⟩⟩
    exact List.forall_mem_singleton.mpr (by decide)
  obtain ⟨-, -, older, hOlder, -⟩ := hAll burst (by decide) hCaps
  have hShown : shown burst = [longDelivery, longDelivery, shortDelivery] := by
    have hCost := cost_longDelivery
    have hLong : cost burst { longDelivery with rendered := [] } = 101 := by decide
    have hShort : cost burst shortDelivery = 103 := by decide
    have hBudget : budget burst = 24340 := by decide
    rw [shown_eq_pack, hBudget]
    rw [hLong] at hCost
    change pack (cost burst) 24340 [longDelivery, longDelivery, longDelivery, shortDelivery] = _
    simp only [pack, hCost, hShort]
    rfl
  rw [hShown] at hOlder
  have hThird : longDelivery.rendered = shortDelivery.rendered :=
    congrArg RenderedDelivery.rendered (List.cons.inj (List.cons.inj (List.cons.inj hOlder).2).2).1
  have hLength := congrArg List.length hThird
  rw [length_longDelivery] at hLength
  exact absurd hLength (by decide)

end CommandSuite.Notifications
