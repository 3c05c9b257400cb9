import CommandSuite.Library.Text
import CommandSuite.Library.Transducer

/-! # UTF-8

Code points as bytes, and the decoder that takes one byte after another. What is not UTF-8 it replaces by U+FFFD.
-/

namespace CommandSuite.Library.Utf8

/-- A code point that is no surrogate. -/
def IsScalar (point : Nat) : Prop := point < 0xD800 ∨ 0xE000 ≤ point ∧ point < 0x110000

def encode (point : Nat) : List Nat :=
  if point < 0x80 then [point]
  else if point < 0x800 then [0xC0 + point / 0x40, 0x80 + point % 0x40]
  else if point < 0x10000 then [0xE0 + point / 0x1000, 0x80 + point / 0x40 % 0x40, 0x80 + point % 0x40]
  else [0xF0 + point / 0x40000, 0x80 + point / 0x1000 % 0x40, 0x80 + point / 0x40 % 0x40, 0x80 + point % 0x40]

/-- The bytes that are missing, what there is of the point, and where the next byte may lie. -/
structure Decoder where
  needed : Nat
  point : Nat
  lower : Nat
  upper : Nat
  deriving DecidableEq

namespace Decoder

def initial : Decoder := ⟨0, 0, 0x80, 0xBF⟩

def first (byte : Nat) : Decoder × List Nat :=
  if byte < 0x80 then (initial, [byte])
  else if byte < 0xC2 then (initial, [0xFFFD])
  else if byte < 0xE0 then (⟨1, byte - 0xC0, 0x80, 0xBF⟩, [])
  else if byte < 0xF0 then (⟨2, byte - 0xE0, if byte = 0xE0 then 0xA0 else 0x80, if byte = 0xED then 0x9F else 0xBF⟩, [])
  else if byte < 0xF5 then (⟨3, byte - 0xF0, if byte = 0xF0 then 0x90 else 0x80, if byte = 0xF4 then 0x8F else 0xBF⟩, [])
  else (initial, [0xFFFD])

def step : Transducer Decoder Nat Nat := fun decoder byte =>
  match decoder.needed with
  | 0 => first byte
  | needed + 1 =>
    if byte < decoder.lower || decoder.upper < byte then ((first byte).1, 0xFFFD :: (first byte).2)
    else
      let point := decoder.point * 0x40 + (byte - 0x80)
      if needed = 0 then (initial, [point]) else (⟨needed, point, 0x80, 0xBF⟩, [])

end Decoder

open Transducer Decoder Text

theorem step_last {point lower upper byte : Nat} (h : lower ≤ byte ∧ byte ≤ upper) :
    step ⟨1, point, lower, upper⟩ byte = (initial, [point * 0x40 + (byte - 0x80)]) := by
  have hInside : ¬ (byte < lower || upper < byte) = true := by
    simp only [Bool.or_eq_true, decide_eq_true_eq]
    omega
  simp only [step, if_neg hInside]
  rfl

theorem step_inner {needed point lower upper byte : Nat} (h : lower ≤ byte ∧ byte ≤ upper) :
    step ⟨needed + 2, point, lower, upper⟩ byte = (⟨needed + 1, point * 0x40 + (byte - 0x80), 0x80, 0xBF⟩, []) := by
  have hInside : ¬ (byte < lower || upper < byte) = true := by
    simp only [Bool.or_eq_true, decide_eq_true_eq]
    omega
  simp only [step, if_neg hInside]
  rfl

theorem step_first {byte : Nat} (decoder : Decoder) (h : decoder.needed = 0) : step decoder byte = first byte := by
  simp only [step, h]

variable {bits : Nat}

theorem first_of_two (h : 2 ≤ bits ∧ bits < 0x20) : first (0xC0 + bits) = (⟨1, bits, 0x80, 0xBF⟩, []) := by
  rw [first, if_neg (by omega), if_neg (by omega), if_pos (by omega), Nat.add_sub_cancel_left]

theorem first_of_three (h : bits < 0x10) :
    first (0xE0 + bits) = (⟨2, bits, if bits = 0 then 0xA0 else 0x80, if bits = 13 then 0x9F else 0xBF⟩, []) := by
  rw [first, if_neg (by omega), if_neg (by omega), if_neg (by omega), if_pos (by omega), Nat.add_sub_cancel_left]
  have hLast : 0xE0 + bits = 0xED ↔ bits = 13 := by omega
  simp [hLast]

theorem first_of_four (h : bits < 5) :
    first (0xF0 + bits) = (⟨3, bits, if bits = 0 then 0x90 else 0x80, if bits = 4 then 0x8F else 0xBF⟩, []) := by
  rw [first, if_neg (by omega), if_neg (by omega), if_neg (by omega), if_neg (by omega), if_pos (by omega), Nat.add_sub_cancel_left]
  have hLast : 0xF0 + bits = 0xF4 ↔ bits = 4 := by omega
  simp [hLast]

theorem feed_encode {point : Nat} (h : IsScalar point) : feed step initial (encode point) = (initial, [point]) := by
  unfold IsScalar at h
  unfold encode
  split
  · rename_i hOne
    simp [feed, step, initial, first, hOne]
  · split
    · simp only [feed, step_first initial rfl]
      rw [first_of_two (by omega), step_last (by omega)]
      simp only [List.append_nil, List.nil_append, Prod.mk.injEq, List.cons.injEq, and_true, true_and]
      omega
    · split
      · simp only [feed, step_first initial rfl]
        rw [first_of_three (by omega), step_inner (by split <;> split <;> omega), step_last (by omega)]
        simp only [List.append_nil, List.nil_append, Prod.mk.injEq, List.cons.injEq, and_true, true_and]
        omega
      · simp only [feed, step_first initial rfl]
        rw [first_of_four (by omega), step_inner (by split <;> split <;> omega), step_inner (by omega), step_last (by omega)]
        simp only [List.append_nil, List.nil_append, Prod.mk.injEq, List.cons.injEq, and_true, true_and]
        omega

theorem feed_flatMap_encode {points : List Nat} (h : ∀ point ∈ points, IsScalar point) :
    feed step initial (points.flatMap encode) = (initial, points) := by
  have hFeed := feed_flatMap step encode (fun point => [point]) points fun point hMem => feed_encode (h point hMem)
  rwa [List.flatMap_singleton'] at hFeed

/-! ## Whole texts -/

def flush (decoder : Decoder) : List Nat := if decoder.needed = 0 then [] else [0xFFFD]

def decode (bytes : List Nat) : List Nat := (feed step initial bytes).2 ++ flush (feed step initial bytes).1

/-- Bytes below `0x80` come from themselves alone: what is missing lies above them, and no longer encoding is one of them. -/
def Sound (decoder : Decoder) : Prop :=
  decoder.needed ≠ 0 → 0x80 ≤ decoder.lower ∧ (decoder.needed = 1 → 2 ≤ decoder.point) ∧ 2 ≤ decoder.point * 0x40 + (decoder.lower - 0x80)

theorem sound_initial : Sound initial := fun h => absurd rfl h

theorem sound_first (byte : Nat) : Sound (first byte).1 := by
  unfold first
  split
  · exact sound_initial
  · split
    · exact sound_initial
    · split
      · intro _
        dsimp only
        omega
      · split
        · intro _
          dsimp only
          split <;> omega
        · split
          · intro _
            dsimp only
            split <;> omega
          · exact sound_initial

theorem mem_first {byte stop : Nat} (hStop : stop < 0x80) (h : stop ∈ (first byte).2) : stop = byte := by
  unfold first at h
  split at h
  · exact List.mem_singleton.mp h
  · split at h
    · have hSame := List.mem_singleton.mp h
      omega
    · split at h
      · cases h
      · split at h
        · cases h
        · split at h
          · cases h
          · have hSame := List.mem_singleton.mp h
            omega

variable {decoder : Decoder}

theorem step_sound (h : Sound decoder) (byte : Nat) :
    Sound (step decoder byte).1 ∧ ∀ stop < 0x80, stop ∈ (step decoder byte).2 → stop = byte := by
  obtain ⟨needed, point, lower, upper⟩ := decoder
  cases needed with
  | zero => exact ⟨sound_first byte, fun stop hStop => mem_first hStop⟩
  | succ needed =>
    obtain ⟨hLower, hPoint, hNext⟩ := h (Nat.succ_ne_zero needed)
    dsimp only at hLower hPoint hNext
    unfold step
    dsimp only
    split
    · refine ⟨sound_first byte, fun stop hStop hMem => ?_⟩
      obtain hReplaced | hFirst := List.mem_cons.mp hMem
      · omega
      · exact mem_first hStop hFirst
    · rename_i hInside
      simp only [Bool.or_eq_true, decide_eq_true_eq, not_or, Nat.not_lt] at hInside
      split
      · rename_i hLast
        subst hLast
        refine ⟨sound_initial, fun stop hStop hMem => ?_⟩
        have hSame := List.mem_singleton.mp hMem
        have hTwo := hPoint rfl
        omega
      · constructor
        · intro _
          dsimp only
          omega
        · intro stop _ hMem
          cases hMem

theorem feed_sound (h : Sound decoder) (bytes : List Nat) :
    Sound (feed step decoder bytes).1 ∧ ∀ stop < 0x80, stop ∈ (feed step decoder bytes).2 → stop ∈ bytes := by
  induction bytes generalizing decoder with
  | nil => exact ⟨h, fun _ _ hMem => hMem⟩
  | cons byte bytes ih =>
    obtain ⟨hSound, hByte⟩ := step_sound h byte
    obtain ⟨hEnd, hBytes⟩ := ih hSound
    refine ⟨hEnd, fun stop hStop hMem => ?_⟩
    obtain hFirst | hRest := List.mem_append.mp hMem
    · rw [hByte stop hStop hFirst]
      exact List.mem_cons_self
    · exact List.mem_cons_of_mem byte (hBytes stop hStop hRest)

variable {bytes : List Nat} {stop : Nat}

theorem mem_of_mem_decode (hStop : stop < 0x80) (h : stop ∈ decode bytes) : stop ∈ bytes := by
  obtain hFed | hLeft := List.mem_append.mp h
  · exact (feed_sound sound_initial bytes).2 stop hStop hFed
  · unfold flush at hLeft
    split at hLeft
    · cases hLeft
    · have hSame := List.mem_singleton.mp hLeft
      omega

theorem step_stop (h : Sound decoder) (hStop : stop < 0x80) : step decoder stop = (initial, flush decoder ++ [stop]) := by
  have hFirst : first stop = (initial, [stop]) := by rw [first, if_pos hStop]
  obtain ⟨needed, point, lower, upper⟩ := decoder
  cases needed with
  | zero => exact hFirst
  | succ needed =>
    obtain ⟨hLower, -⟩ := h (Nat.succ_ne_zero needed)
    dsimp only at hLower
    have hOutside : (stop < lower || upper < stop) = true := by
      rw [Bool.or_eq_true, decide_eq_true_eq]
      exact .inl (by omega)
    simp only [step, hOutside, if_true, hFirst, flush, Nat.add_eq_zero_iff, Nat.one_ne_zero, and_false, if_false, List.cons_append, List.nil_append]

theorem decode_append_cons (hStop : stop < 0x80) (before rest : List Nat) :
    decode (before ++ stop :: rest) = decode before ++ stop :: decode rest := by
  have hSound := (feed_sound sound_initial before).1
  unfold decode
  rw [feed_append, feed, step_stop hSound hStop]
  simp only [List.append_assoc, List.cons_append, List.nil_append]

def toString (bytes : List Nat) : String := String.ofList ((decode bytes).map Char.ofNat)

theorem ofNat_eq_newline {point : Nat} (h : Char.ofNat point = '\n') : point = 10 := by
  by_cases hValid : point.isValidChar
  · exact congrArg Char.toNat ((dif_pos hValid).symm.trans h)
  · cases (dif_neg hValid).symm.trans h

theorem toString_append_newline (before rest : List Nat) :
    toString (before ++ 10 :: rest) = toString before ++ (String.singleton '\n' ++ toString rest) := by
  rw [← String.toList_inj]
  simp only [toString, decode_append_cons (show 10 < 0x80 by omega), List.map_append, List.map_cons, String.toList_append,
    String.toList_ofList, String.toList_singleton, List.cons_append, List.nil_append]

theorem newline_not_mem_toString (h : 10 ∉ bytes) : '\n' ∉ (toString bytes).toList := by
  intro hMem
  rw [toString, String.toList_ofList] at hMem
  obtain ⟨point, hPoint, hNewline⟩ := List.mem_map.mp hMem
  rw [ofNat_eq_newline hNewline] at hPoint
  exact h (mem_of_mem_decode (by omega) hPoint)

theorem split_toString (bytes : List Nat) : split '\n' (toString bytes) = (bytes.splitOn 10).map toString := by
  induction hLength : bytes.length using Nat.strong_induction_on generalizing bytes with
  | _ length ih =>
    by_cases hMem : 10 ∈ bytes
    · obtain ⟨before, rest, rfl, hBefore⟩ := List.eq_append_cons_of_mem hMem
      rw [toString_append_newline, split_append, split_of_not_mem _ (newline_not_mem_toString hBefore),
        List.splitOn_append_cons_self, List.splitOn_eq_singleton hBefore, List.map_append, List.map_singleton,
        ih rest.length (by rw [← hLength, List.length_append, List.length_cons]; omega) rest rfl]
    · rw [split_of_not_mem _ (newline_not_mem_toString hMem), List.splitOn_eq_singleton hMem, List.map_singleton]

end CommandSuite.Library.Utf8
