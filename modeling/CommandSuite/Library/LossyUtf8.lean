import CommandSuite.Library.Utf8

/-! # What lossy decoding makes of bytes

The decoder puts out code points. They take as many bytes as they came from, but for the replacements: these take three
bytes each and stand for one to three.
-/

namespace CommandSuite.Library.Utf8

open Transducer Decoder

def width (point : Nat) : Nat := (encode point).length

theorem width_eq (point : Nat) :
    width point = if point < 0x80 then 1 else if point < 0x800 then 2 else if point < 0x10000 then 3 else 4 := by
  unfold width encode
  split_ifs <;> rfl

/-- With every byte that may follow, and `n` after it, a code point is complete that takes as many bytes as it came from. -/
def Completes : Nat → Nat → Nat → Nat → Nat → Prop
  | 0, held, point, lower, upper => ∀ byte, lower ≤ byte ∧ byte ≤ upper →
    IsScalar (point * 0x40 + (byte - 0x80)) ∧ width (point * 0x40 + (byte - 0x80)) = held + 1
  | n + 1, held, point, lower, upper => ∀ byte, lower ≤ byte ∧ byte ≤ upper →
    Completes n (held + 1) (point * 0x40 + (byte - 0x80)) 0x80 0xBF

/-- The decoder has so many bytes of a code point. -/
def Decoder.Holds (held : Nat) (decoder : Decoder) : Prop :=
  match decoder.needed with
  | 0 => held = 0
  | n + 1 => Completes n held decoder.point decoder.lower decoder.upper

theorem holds_initial : Holds 0 initial := rfl

/-! ## Replacements -/

def Decoder.rejects (decoder : Decoder) (byte : Nat) : Bool := decoder.needed ≠ 0 && (byte < decoder.lower || decoder.upper < byte)

def isLead (byte : Nat) : Bool := byte < 0x80 || (0xC2 ≤ byte && byte < 0xF5)

def heldAfter (held : Nat) (decoder : Decoder) (byte : Nat) : Nat :=
  if (step decoder byte).1.needed = 0 then 0 else if decoder.needed = 0 || decoder.rejects byte then 1 else held + 1

def replacedBy (held : Nat) (decoder : Decoder) (byte : Nat) : List Nat :=
  (if decoder.rejects byte then [held] else []) ++
    if (decoder.needed = 0 || decoder.rejects byte) && !isLead byte then [1] else []

def replaced : Nat → Decoder → List Nat → List Nat
  | held, decoder, [] => if decoder.needed = 0 then [] else [held]
  | held, decoder, byte :: bytes =>
    replacedBy held decoder byte ++ replaced (heldAfter held decoder byte) (step decoder byte).1 bytes

def illFormed (bytes : List Nat) : List Nat := replaced 0 initial bytes

/-! ## Bytes -/

section Steps

theorem isScalar_replacement : IsScalar 0xFFFD := .inr ⟨by omega, by omega⟩

variable {byte : Nat}

theorem completes_two (h : 0xC2 ≤ byte ∧ byte < 0xE0) : Completes 0 1 (byte - 0xC0) 0x80 0xBF := by
  intro second hSecond
  unfold IsScalar
  rw [width_eq, if_neg (by omega), if_pos (by omega)]
  omega

theorem completes_three (h : 0xE0 ≤ byte ∧ byte < 0xF0) : Completes 1 1 (byte - 0xE0)
    (if byte = 0xE0 then 0xA0 else 0x80) (if byte = 0xED then 0x9F else 0xBF) := by
  intro second hSecond third hThird
  have hBounds : 0x80 ≤ second ∧ second ≤ 0xBF ∧ (byte = 0xE0 → 0xA0 ≤ second) ∧ (byte = 0xED → second ≤ 0x9F) := by
    split_ifs at hSecond <;> omega
  unfold IsScalar
  rw [width_eq, if_neg (by omega), if_neg (by omega), if_pos (by omega)]
  omega

theorem completes_four (h : 0xF0 ≤ byte ∧ byte < 0xF5) : Completes 2 1 (byte - 0xF0)
    (if byte = 0xF0 then 0x90 else 0x80) (if byte = 0xF4 then 0x8F else 0xBF) := by
  intro second hSecond third hThird fourth hFourth
  have hBounds : 0x80 ≤ second ∧ second ≤ 0xBF ∧ (byte = 0xF0 → 0x90 ≤ second) ∧ (byte = 0xF4 → second ≤ 0x8F) := by
    split_ifs at hSecond <;> omega
  unfold IsScalar
  rw [width_eq, if_neg (by omega), if_neg (by omega), if_neg (by omega)]
  omega

structure Accounted (held : Nat) (decoder : Decoder) (output : List Nat) (replacements : List Nat) (taken : Nat) : Prop where
  holds : Holds held decoder
  scalars : ∀ point ∈ output, IsScalar point
  lengths : (output.flatMap encode).length + replacements.sum + held = taken + 3 * replacements.length

theorem accounted_first (byte : Nat) : Accounted (if (first byte).1.needed = 0 then 0 else 1) (first byte).1 (first byte).2
    (if !isLead byte then [1] else []) 1 := by
  unfold first
  split
  · rename_i hAscii
    have hLead : isLead byte = true := by simp [isLead, hAscii]
    rw [hLead]
    refine ⟨holds_initial, List.forall_mem_singleton.mpr (.inl (by omega)), ?_⟩
    rw [List.flatMap_singleton, show (encode byte).length = 1 from (width_eq byte).trans (if_pos hAscii)]
    rfl
  · split
    · have hLead : isLead byte = false := by simp [isLead]; omega
      rw [hLead]
      exact ⟨holds_initial, List.forall_mem_singleton.mpr isScalar_replacement, rfl⟩
    · split
      · have hLead : isLead byte = true := by simp [isLead]; omega
        rw [hLead]
        exact ⟨completes_two (by omega), nofun, rfl⟩
      · split
        · have hLead : isLead byte = true := by simp [isLead]; omega
          rw [hLead]
          exact ⟨completes_three (by omega), nofun, rfl⟩
        · split
          · have hLead : isLead byte = true := by simp [isLead]; omega
            rw [hLead]
            exact ⟨completes_four (by omega), nofun, rfl⟩
          · have hLead : isLead byte = false := by simp [isLead]; omega
            rw [hLead]
            exact ⟨holds_initial, List.forall_mem_singleton.mpr isScalar_replacement, rfl⟩

variable {decoder : Decoder}

theorem accounted_step {held : Nat} (h : Holds held decoder) (byte : Nat) :
    Accounted (heldAfter held decoder byte) (step decoder byte).1 (step decoder byte).2 (replacedBy held decoder byte) (held + 1) := by
  have hFirst := accounted_first byte
  obtain ⟨needed, point, lower, upper⟩ := decoder
  cases needed with
  | zero =>
    obtain rfl : held = 0 := h
    simpa [heldAfter, replacedBy, rejects, step] using hFirst
  | succ n =>
    by_cases hReject : (byte < lower || upper < byte) = true
    · have hStep : step ⟨n + 1, point, lower, upper⟩ byte = ((first byte).1, 0xFFFD :: (first byte).2) := by
        simp only [step, if_pos hReject]
      have hRejects : rejects ⟨n + 1, point, lower, upper⟩ byte = true := by
        simpa [rejects] using hReject
      have hLengths := hFirst.lengths
      rw [heldAfter, replacedBy, hStep, hRejects]
      simp only [Bool.or_true, Bool.true_and, if_true]
      refine ⟨hFirst.holds, List.forall_mem_cons.mpr ⟨isScalar_replacement, hFirst.scalars⟩, ?_⟩
      rw [List.flatMap_cons, List.length_append, show (encode 0xFFFD).length = 3 from rfl, List.sum_append, List.length_append,
        List.sum_singleton, List.length_singleton]
      omega
    · have hInside : lower ≤ byte ∧ byte ≤ upper := by
        simp only [Bool.or_eq_true, decide_eq_true_eq, not_or, Nat.not_lt] at hReject
        exact hReject
      have hRejects : rejects ⟨n + 1, point, lower, upper⟩ byte = false := by
        simpa [rejects] using hReject
      cases n with
      | zero =>
        obtain ⟨hScalar, hWidth⟩ := h byte hInside
        rw [heldAfter, replacedBy, step_last hInside, hRejects]
        refine ⟨holds_initial, List.forall_mem_singleton.mpr hScalar, ?_⟩
        have hNeeded : initial.needed = 0 := rfl
        simpa [hNeeded, width] using hWidth
      | succ n =>
        have hCompletes := h byte hInside
        rw [heldAfter, replacedBy, step_inner hInside, hRejects]
        refine ⟨hCompletes, by rintro _ ⟨⟩, ?_⟩
        simp

theorem accounted_decode {held : Nat} (h : Holds held decoder) (bytes : List Nat) :
    Accounted 0 initial ((feed step decoder bytes).2 ++ flush (feed step decoder bytes).1) (replaced held decoder bytes)
      (held + bytes.length) := by
  induction bytes generalizing held decoder with
  | nil =>
    obtain ⟨needed, point, lower, upper⟩ := decoder
    cases needed with
    | zero =>
      obtain rfl : held = 0 := h
      exact ⟨holds_initial, nofun, rfl⟩
    | succ n =>
      refine ⟨holds_initial, List.forall_mem_singleton.mpr isScalar_replacement, ?_⟩
      simp [replaced, flush, encode, Nat.add_comm]
  | cons byte bytes ih =>
    have hByte := accounted_step h byte
    have hRest := ih hByte.holds
    have hByteLengths := hByte.lengths
    have hRestLengths := hRest.lengths
    refine ⟨holds_initial, ?_, ?_⟩
    · simp only [feed, List.append_assoc]
      exact List.forall_mem_append.mpr ⟨hByte.scalars, hRest.scalars⟩
    · simp only [feed, List.append_assoc]
      rw [List.flatMap_append, List.length_append, replaced, List.sum_append, List.length_append, List.length_cons]
      omega

end Steps

variable {bytes : List Nat}

theorem isScalar_of_mem_decode {point : Nat} (h : point ∈ decode bytes) : IsScalar point :=
  (accounted_decode holds_initial bytes).scalars point h

theorem length_decode (bytes : List Nat) : ((decode bytes).flatMap encode).length + (illFormed bytes).sum =
    bytes.length + 3 * (illFormed bytes).length := by
  have hLengths := (accounted_decode holds_initial bytes).lengths
  rw [Nat.add_zero, Nat.zero_add] at hLengths
  exact hLengths

theorem decode_of_invalid (h : ∀ byte ∈ bytes, 0xF5 ≤ byte) : decode bytes = List.replicate bytes.length 0xFFFD := by
  have hFeed : feed step initial bytes = (initial, List.replicate bytes.length 0xFFFD) := by
    induction bytes with
    | nil => rfl
    | cons byte bytes ih =>
      obtain ⟨hByte, hRest⟩ := List.forall_mem_cons.mp h
      have hFirst : first byte = (initial, [0xFFFD]) := by
        rw [first, if_neg (by omega), if_neg (by omega), if_neg (by omega), if_neg (by omega), if_neg (by omega)]
      rw [feed, step_first initial rfl, hFirst, ih hRest]
      rfl
  rw [decode, hFeed]
  exact List.append_nil _

/-! ## A cut -/

def fitting : Nat → List Nat → List Nat
  | _, [] => []
  | n, point :: points => if width point ≤ n then point :: fitting (n - width point) points else []

def cutInto : Nat → List Nat → Nat
  | _, [] => 0
  | n, point :: points => if width point ≤ n then cutInto (n - width point) points else n

theorem decode_take_encode {point n : Nat} (h : IsScalar point) (hPos : 0 < n) (hCut : n < width point) :
    decode ((encode point).take n) = [0xFFFD] := by
  unfold IsScalar at h
  rw [width_eq] at hCut
  unfold encode
  split
  · rename_i hOne
    rw [if_pos hOne] at hCut
    omega
  · rename_i hOne
    rw [if_neg hOne] at hCut
    split
    · rename_i hTwo
      rw [if_pos hTwo] at hCut
      obtain rfl : n = 1 := by omega
      simp only [List.take_succ_cons, List.take_zero, decode, feed, step_first initial rfl]
      rw [first_of_two (by omega)]
      rfl
    · rename_i hTwo
      rw [if_neg hTwo] at hCut
      split
      · rename_i hThree
        rw [if_pos hThree] at hCut
        obtain rfl | rfl : n = 1 ∨ n = 2 := by omega
        · simp only [List.take_succ_cons, List.take_zero, decode, feed, step_first initial rfl]
          rw [first_of_three (by omega)]
          rfl
        · simp only [List.take_succ_cons, List.take_zero, decode, feed, step_first initial rfl]
          rw [first_of_three (by omega), step_inner (by split <;> split <;> omega)]
          rfl
      · rename_i hThree
        rw [if_neg hThree] at hCut
        obtain rfl | rfl | rfl : n = 1 ∨ n = 2 ∨ n = 3 := by omega
        · simp only [List.take_succ_cons, List.take_zero, decode, feed, step_first initial rfl]
          rw [first_of_four (by omega)]
          rfl
        · simp only [List.take_succ_cons, List.take_zero, decode, feed, step_first initial rfl]
          rw [first_of_four (by omega), step_inner (by split <;> split <;> omega)]
          rfl
        · simp only [List.take_succ_cons, List.take_zero, decode, feed, step_first initial rfl]
          rw [first_of_four (by omega), step_inner (by split <;> split <;> omega), step_inner (by omega)]
          rfl

theorem decode_encode_append {point : Nat} (h : IsScalar point) (rest : List Nat) :
    decode (encode point ++ rest) = point :: decode rest := by
  unfold decode
  rw [feed_append, feed_encode h]
  rfl

variable {points : List Nat}

theorem decode_take (h : ∀ point ∈ points, IsScalar point) (n : Nat) :
    decode ((points.flatMap encode).take n) = fitting n points ++ if cutInto n points = 0 then [] else [0xFFFD] := by
  induction points generalizing n with
  | nil => simp [fitting, cutInto, decode, flush, initial]
  | cons point points ih =>
    obtain ⟨hPoint, hRest⟩ := List.forall_mem_cons.mp h
    rw [List.flatMap_cons, fitting, cutInto]
    by_cases hFits : width point ≤ n
    · rw [if_pos hFits, if_pos hFits, List.take_append, List.take_of_length_le hFits, decode_encode_append hPoint, ih hRest]
      rfl
    · rw [if_neg hFits, if_neg hFits, List.take_append_of_le_length (Nat.le_of_not_ge hFits)]
      obtain rfl | hPos := Nat.eq_zero_or_pos n
      · rfl
      · rw [decode_take_encode hPoint hPos (not_le.mp hFits), if_neg (Nat.pos_iff_ne_zero.mp hPos)]
        rfl

theorem length_fitting {n : Nat} (h : n ≤ (points.flatMap encode).length) :
    ((fitting n points).flatMap encode).length + cutInto n points = n := by
  induction points generalizing n with
  | nil => simpa [fitting, cutInto, eq_comm] using h
  | cons point points ih =>
    rw [List.flatMap_cons, List.length_append] at h
    rw [fitting, cutInto]
    split
    · rename_i hFits
      have hRest := ih (n := n - width point) (Nat.sub_le_iff_le_add'.mpr h)
      rw [List.flatMap_cons, List.length_append]
      unfold width at hFits hRest ⊢
      omega
    · rw [List.flatMap_nil, List.length_nil, Nat.zero_add]

theorem cutInto_lt (n : Nat) (points : List Nat) : cutInto n points < 4 := by
  induction points generalizing n with
  | nil => exact Nat.zero_lt_succ _
  | cons point points ih =>
    rw [cutInto]
    split
    · exact ih _
    · rename_i hCut
      rw [width_eq] at hCut
      split_ifs at hCut <;> omega

end CommandSuite.Library.Utf8
