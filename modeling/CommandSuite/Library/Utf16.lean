import CommandSuite.Library.LossyUtf8

/-! # UTF-16

Texts of code units, and what encoding them as UTF-8 and decoding UTF-8 makes of them. A surrogate without its other half
is replaced like bytes that are not UTF-8, and a byte order mark is left out.
-/

namespace CommandSuite.Library.Utf16

open Utf8

def units (point : Nat) : List Nat :=
  if point < 0x10000 then [point] else [0xD800 + (point - 0x10000) / 0x400, 0xDC00 + (point - 0x10000) % 0x400]

def isHigh (unit : Nat) : Bool := 0xD800 ≤ unit && unit < 0xDC00

def isLow (unit : Nat) : Bool := 0xDC00 ≤ unit && unit < 0xE000

def pointOf (unit : Nat) : Nat := if unit < 0xD800 || (0xE000 ≤ unit && unit < 0x10000) then unit else 0xFFFD

def points : List Nat → List Nat
  | [] => []
  | [unit] => [pointOf unit]
  | unit :: next :: rest =>
    if isHigh unit && isLow next then (0x10000 + (unit - 0xD800) * 0x400 + (next - 0xDC00)) :: points rest
    else pointOf unit :: points (next :: rest)

def encode (text : List Nat) : List Nat := (points text).flatMap Utf8.encode

def dropMark : List Nat → List Nat
  | 0xFEFF :: points => points
  | points => points

def decode (bytes : List Nat) : List Nat := (dropMark (Utf8.decode bytes)).flatMap units

theorem pointOf_eq {unit : Nat} (h : IsScalar unit) (hUnit : unit < 0x10000) : pointOf unit = unit := by
  unfold IsScalar at h
  refine if_pos ?_
  simp only [Bool.or_eq_true, Bool.and_eq_true, decide_eq_true_eq]
  omega

theorem isScalar_pointOf (unit : Nat) : IsScalar (pointOf unit) := by
  unfold pointOf
  split
  · rename_i hScalar
    simp only [Bool.or_eq_true, Bool.and_eq_true, decide_eq_true_eq] at hScalar
    unfold IsScalar
    omega
  · exact isScalar_replacement

variable {text : List Nat}

theorem isScalar_points : ∀ point ∈ points text, IsScalar point := by
  induction text using points.induct with
  | case1 => exact nofun
  | case2 unit => exact List.forall_mem_singleton.mpr (isScalar_pointOf unit)
  | case3 unit next rest hPair ih =>
    rw [points, if_pos hPair]
    simp only [isHigh, isLow, Bool.and_eq_true, decide_eq_true_eq] at hPair
    exact List.forall_mem_cons.mpr ⟨.inr (by omega), ih⟩
  | case4 unit next rest hAlone ih =>
    rw [points, if_neg hAlone]
    exact List.forall_mem_cons.mpr ⟨isScalar_pointOf unit, ih⟩

theorem points_cons {unit : Nat} (h : isHigh unit = false) (text : List Nat) : points (unit :: text) = pointOf unit :: points text := by
  cases text with
  | nil => rfl
  | cons next rest => rw [points, h, Bool.false_and, if_neg Bool.false_ne_true]

theorem points_units {point : Nat} (h : IsScalar point) (text : List Nat) : points (units point ++ text) = point :: points text := by
  unfold IsScalar at h
  unfold units
  split
  · rename_i hOne
    have hHigh : isHigh point = false := by
      simp only [isHigh, Bool.and_eq_false_iff, decide_eq_false_iff_not]
      omega
    rw [List.singleton_append, points_cons hHigh, pointOf_eq h hOne]
  · rename_i hTwo
    have hPair : (isHigh (0xD800 + (point - 0x10000) / 0x400) && isLow (0xDC00 + (point - 0x10000) % 0x400)) = true := by
      simp only [isHigh, isLow, Bool.and_eq_true, decide_eq_true_eq]
      omega
    have hPoint : 0x10000 + (0xD800 + (point - 0x10000) / 0x400 - 0xD800) * 0x400 + (0xDC00 + (point - 0x10000) % 0x400 - 0xDC00) =
        point := by omega
    rw [List.cons_append, List.cons_append, List.nil_append, points, if_pos hPair, hPoint]

theorem points_flatMap_units {ps : List Nat} (h : ∀ point ∈ ps, IsScalar point) : points (ps.flatMap units) = ps := by
  induction ps with
  | nil => rfl
  | cons point ps ih =>
    obtain ⟨hPoint, hRest⟩ := List.forall_mem_cons.mp h
    rw [List.flatMap_cons, points_units hPoint, ih hRest]

theorem isScalar_toNat (c : Char) : IsScalar c.toNat := by
  obtain hLow | hHigh := c.valid
  · exact .inl hLow
  · exact .inr ⟨hHigh.1, hHigh.2⟩

theorem points_utf16 (text : String) : points (Text.utf16 text) = text.toList.map Char.toNat := by
  have hUnits : Text.utf16 text = (text.toList.map Char.toNat).flatMap units := by
    rw [List.flatMap_map]
    rfl
  rw [hUnits, points_flatMap_units]
  exact List.forall_mem_map.mpr fun c _ => isScalar_toNat c

theorem utf16_injective : Function.Injective Text.utf16 := by
  intro first second h
  have hPoints : first.toList.map Char.toNat = second.toList.map Char.toNat := by rw [← points_utf16, ← points_utf16, h]
  exact String.toList_inj.mp (List.map_injective_iff.mpr (fun _ _ => Char.toNat_inj.mp) hPoints)

theorem mem_of_mem_dropMark {ps : List Nat} {point : Nat} (h : point ∈ dropMark ps) : point ∈ ps := by
  unfold dropMark at h
  split at h
  · exact List.mem_cons_of_mem _ h
  · exact h

theorem encode_decode (bytes : List Nat) : encode (decode bytes) = (dropMark (Utf8.decode bytes)).flatMap Utf8.encode := by
  rw [encode, decode, points_flatMap_units fun point hMem => isScalar_of_mem_decode (mem_of_mem_dropMark hMem)]

theorem decode_encode (text : List Nat) : Utf8.decode (encode text) = points text := by
  rw [encode, Utf8.decode, feed_flatMap_encode isScalar_points]
  exact List.append_nil _

theorem lt_of_mem_encode : ∀ byte ∈ encode text, byte < 256 := by
  intro byte hByte
  obtain ⟨point, hPoint, hByte⟩ := List.mem_flatMap.mp hByte
  have hScalar := isScalar_points point hPoint
  unfold IsScalar at hScalar
  unfold Utf8.encode at hByte
  split_ifs at hByte <;> simp only [List.mem_cons, List.not_mem_nil, or_false] at hByte <;> omega

/-- `text.toWellFormed()`: a surrogate without its other half becomes U+FFFD. -/
def toWellFormed (text : List Nat) : List Nat := (points text).flatMap units

theorem decode_of_head {bytes : List Nat} (h : ((Utf8.decode bytes).flatMap units).head? ≠ some 0xFEFF) :
    decode bytes = (Utf8.decode bytes).flatMap units := by
  unfold decode dropMark
  split
  · rename_i rest hBytes
    rw [hBytes] at h
    exact absurd rfl h
  · rfl

theorem head_toWellFormed (h : text.head? ≠ some 0xFEFF) : (toWellFormed text).head? ≠ some 0xFEFF := by
  unfold toWellFormed
  have hAlone {unit : Nat} {rest : List Nat} (hUnit : unit ≠ 0xFEFF) : ((pointOf unit :: rest).flatMap units).head? ≠ some 0xFEFF := by
    have hPoint : pointOf unit < 0x10000 ∧ pointOf unit ≠ 0xFEFF := by
      unfold pointOf
      split
      · rename_i hScalar
        simp only [Bool.or_eq_true, Bool.and_eq_true, decide_eq_true_eq] at hScalar
        omega
      · omega
    rw [List.flatMap_cons, units, if_pos hPoint.1, List.singleton_append, List.head?_cons]
    exact fun hMark => hPoint.2 (Option.some.inj hMark)
  induction text using points.induct with
  | case1 => exact nofun
  | case2 unit => exact hAlone fun hUnit => h (congrArg some hUnit)
  | case3 unit next rest hPair ih =>
    simp only [isHigh, isLow, Bool.and_eq_true, decide_eq_true_eq] at hPair
    rw [points, if_pos (by simpa only [isHigh, isLow, Bool.and_eq_true, decide_eq_true_eq] using hPair), List.flatMap_cons, units,
      if_neg (by omega), List.cons_append, List.head?_cons]
    intro hMark
    have hUnit := Option.some.inj hMark
    omega
  | case4 unit next rest hSingle ih =>
    rw [points, if_neg hSingle]
    exact hAlone fun hUnit => h (congrArg some hUnit)

theorem length_dropMark (ps : List Nat) : ((dropMark ps).flatMap Utf8.encode).length + (if ps.head? = some 0xFEFF then 3 else 0) =
    (ps.flatMap Utf8.encode).length := by
  unfold dropMark
  split
  · rw [List.head?_cons, if_pos rfl, List.flatMap_cons, List.length_append, show (Utf8.encode 0xFEFF).length = 3 from rfl]
    omega
  · rename_i hOther
    rw [if_neg, Nat.add_zero]
    intro hHead
    obtain ⟨rest, rfl⟩ := List.head?_eq_some_iff.mp hHead
    exact hOther rest rfl

theorem length_encode_decode (bytes : List Nat) :
    (encode (decode bytes)).length + (if (Utf8.decode bytes).head? = some 0xFEFF then 3 else 0) + (illFormed bytes).sum =
      bytes.length + 3 * (illFormed bytes).length := by
  rw [encode_decode, length_dropMark, length_decode]

theorem length_encode_decode_take {n : Nat} (h : n ≤ (encode text).length) :
    (encode (decode ((encode text).take n))).length +
        (if (fitting n (points text) ++ if cutInto n (points text) = 0 then [] else [0xFFFD]).head? = some 0xFEFF then 3 else 0) +
        cutInto n (points text) = n + if cutInto n (points text) = 0 then 0 else 3 := by
  rw [encode_decode, encode, decode_take fun point => isScalar_points point, length_dropMark, List.flatMap_append, List.length_append]
  have hFitting := length_fitting h
  split
  · rw [List.flatMap_nil, List.length_nil]
    omega
  · rw [List.flatMap_singleton, show (Utf8.encode 0xFFFD).length = 3 from rfl]
    omega

end CommandSuite.Library.Utf16
