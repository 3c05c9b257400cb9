import CommandSuite.Library.Text
import Mathlib.Data.List.DropRight

/-! # Base64url

Bytes as digits of six bits, without padding.
-/

namespace CommandSuite.Library.Base64Url

def digitUnit (digit : Nat) : Nat :=
  if digit < 26 then 65 + digit
  else if digit < 52 then 71 + digit
  else if digit < 62 then digit - 4
  else if digit = 62 then 45
  else 95

def readDigit (unit : Nat) : Option Nat := (List.range 64).find? fun digit => digitUnit digit = unit

def digits : List Nat → List Nat
  | [] => []
  | [b0] => [b0 / 4, b0 % 4 * 16]
  | [b0, b1] => [b0 / 4, b0 % 4 * 16 + b1 / 16, b1 % 16 * 4]
  | b0 :: b1 :: b2 :: bytes => b0 / 4 :: (b0 % 4 * 16 + b1 / 16) :: (b1 % 16 * 4 + b2 / 64) :: b2 % 64 :: digits bytes

def encode (bytes : List Nat) : JsString := (digits bytes).map digitUnit

/-- The bytes of digits, with the bits that were read and are not yet a byte. Bits at the end that are no byte are let go. -/
def collect : List Nat → Nat → Nat → List Nat
  | [], _, _ => []
  | digit :: digits, acc, bits =>
    let acc := acc * 64 + digit
    if bits + 6 ≥ 8 then acc / 2 ^ (bits + 6 - 8) % 256 :: collect digits acc (bits + 6 - 8)
    else collect digits acc (bits + 6)

def IsPadding (unit : Nat) : Bool := unit = 61

def trimPadding (text : JsString) : JsString := text.rdropWhile IsPadding

def decode (text : JsString) : Option (List Nat) := ((trimPadding text).mapM readDigit).map fun digits => collect digits 0 0

def readEither (unit : Nat) : Option Nat :=
  if unit = 43 then some 62 else if unit = 47 then some 63 else readDigit unit

def decodeLenient (text : JsString) : List Nat := collect (text.filterMap readEither) 0 0

/-! ## Digits -/

theorem readDigit_digitUnit {digit : Nat} (h : digit < 64) : readDigit (digitUnit digit) = some digit := by
  have hAll : ∀ digit : Fin 64, readDigit (digitUnit digit) = some digit.val := by decide
  exact hAll ⟨digit, h⟩

theorem digitUnit_of_readDigit {unit digit : Nat} (h : readDigit unit = some digit) : digit < 64 ∧ digitUnit digit = unit := by
  unfold readDigit at h
  exact ⟨List.mem_range.mp (List.mem_of_find?_eq_some h), by simpa only [decide_eq_true_eq] using List.find?_some h⟩

theorem readEither_of_readDigit {unit digit : Nat} (h : readDigit unit = some digit) : readEither unit = some digit := by
  obtain ⟨hDigit, rfl⟩ := digitUnit_of_readDigit h
  have hPlus : digitUnit digit ≠ 43 := by unfold digitUnit; split_ifs <;> omega
  have hSlash : digitUnit digit ≠ 47 := by unfold digitUnit; split_ifs <;> omega
  rw [readEither, if_neg hPlus, if_neg hSlash, h]

theorem digitUnit_mem (digit : Nat) : 45 ≤ digitUnit digit ∧ digitUnit digit ≠ 58 ∧ digitUnit digit ≠ 61 ∨ 64 ≤ digit := by
  unfold digitUnit
  split_ifs <;> omega

variable {bytes : List Nat}

theorem digits_lt (h : ∀ byte ∈ bytes, byte < 256) : ∀ digit ∈ digits bytes, digit < 64 := by
  induction bytes using digits.induct with
  | case1 => exact nofun
  | case2 b0 =>
    have h0 := h b0 List.mem_cons_self
    simp only [digits, List.forall_mem_cons]
    exact ⟨by omega, by omega, nofun⟩
  | case3 b0 b1 =>
    obtain ⟨h0, hRest⟩ := List.forall_mem_cons.mp h
    have h1 := hRest b1 List.mem_cons_self
    simp only [digits, List.forall_mem_cons]
    exact ⟨by omega, by omega, by omega, nofun⟩
  | case4 b0 b1 b2 bytes ih =>
    simp only [List.forall_mem_cons] at h
    simp only [digits, List.forall_mem_cons]
    exact ⟨by omega, by omega, by omega, by omega, ih h.2.2.2⟩

section Collect

variable (digit : Nat) (rest : List Nat) (acc : Nat)

theorem collect_none : collect (digit :: rest) acc 0 = collect rest (acc * 64 + digit) 6 := rfl

theorem collect_six : collect (digit :: rest) acc 6 = (acc * 64 + digit) / 16 % 256 :: collect rest (acc * 64 + digit) 4 := rfl

theorem collect_four : collect (digit :: rest) acc 4 = (acc * 64 + digit) / 4 % 256 :: collect rest (acc * 64 + digit) 2 := rfl

theorem collect_two : collect (digit :: rest) acc 2 = (acc * 64 + digit) / 1 % 256 :: collect rest (acc * 64 + digit) 0 := rfl

end Collect

theorem collect_digits (h : ∀ byte ∈ bytes, byte < 256) (acc : Nat) : collect (digits bytes) acc 0 = bytes := by
  induction bytes using digits.induct generalizing acc with
  | case1 => rfl
  | case2 b0 =>
    have h0 := h b0 List.mem_cons_self
    rw [digits, collect_none, collect_six]
    exact congrArg₂ List.cons (by omega) rfl
  | case3 b0 b1 =>
    obtain ⟨h0, hRest⟩ := List.forall_mem_cons.mp h
    have h1 := hRest b1 List.mem_cons_self
    rw [digits, collect_none, collect_six, collect_four]
    exact congrArg₂ List.cons (by omega) (congrArg₂ List.cons (by omega) rfl)
  | case4 b0 b1 b2 bytes ih =>
    simp only [List.forall_mem_cons] at h
    rw [digits, collect_none, collect_six, collect_four, collect_two]
    exact congrArg₂ List.cons (by omega) (congrArg₂ List.cons (by omega) (congrArg₂ List.cons (by omega) (ih h.2.2.2 _)))

/-! ## Texts -/

theorem mapM_readDigit {ds : List Nat} (h : ∀ digit ∈ ds, digit < 64) : (ds.map digitUnit).mapM readDigit = some ds := by
  induction ds with
  | nil => rfl
  | cons digit ds ih =>
    obtain ⟨hDigit, hRest⟩ := List.forall_mem_cons.mp h
    rw [List.map_cons, List.mapM_cons, readDigit_digitUnit hDigit, ih hRest]
    rfl

section

variable (h : ∀ byte ∈ bytes, byte < 256)
include h

theorem unit_of_mem_encode {unit : Nat} (hUnit : unit ∈ encode bytes) : unit ≠ 58 ∧ unit ≠ 61 := by
  obtain ⟨digit, hDigit, rfl⟩ := List.mem_map.mp hUnit
  have hSmall := digits_lt h digit hDigit
  obtain hDigitUnit | hLarge := digitUnit_mem digit
  · exact hDigitUnit.2
  · omega

theorem trimPadding_encode : trimPadding (encode bytes) = encode bytes := by
  refine List.rdropWhile_eq_self_iff.mpr fun hSome => ?_
  have hLast := (unit_of_mem_encode h (List.getLast_mem hSome)).2
  simpa only [IsPadding, decide_eq_true_eq] using hLast

theorem decode_encode : decode (encode bytes) = some bytes := by
  rw [decode, trimPadding_encode h, encode, mapM_readDigit (digits_lt h), Option.map_some, collect_digits h]

end

theorem filterMap_readEither {text ds : List Nat} (h : text.mapM readDigit = some ds) : text.filterMap readEither = ds := by
  induction text generalizing ds with
  | nil => exact Option.some.inj h
  | cons unit text ih =>
    rw [List.mapM_cons] at h
    obtain ⟨digit, hDigit, hRest⟩ := Option.bind_eq_some_iff.mp h
    obtain ⟨digits, hDigits, hAll⟩ := Option.bind_eq_some_iff.mp hRest
    obtain rfl := Option.some.inj hAll
    rw [List.filterMap_cons_some (readEither_of_readDigit hDigit), ih hDigits]

theorem decodeLenient_of_decode {text : JsString} (h : decode text = some bytes) : decodeLenient text = bytes := by
  obtain ⟨digits, hDigits, rfl⟩ := Option.map_eq_some_iff.mp h
  have hPadding : (text.rtakeWhile IsPadding).filterMap readEither = [] := by
    refine List.filterMap_eq_nil_iff.mpr fun unit hUnit => ?_
    have hPad := List.mem_rtakeWhile_imp hUnit
    rw [of_decide_eq_true hPad]
    rfl
  have hText : text = trimPadding text ++ text.rtakeWhile IsPadding := (List.rdropWhile_append_rtakeWhile ..).symm
  rw [decodeLenient, hText, List.filterMap_append, hPadding, List.append_nil, filterMap_readEither hDigits]

end CommandSuite.Library.Base64Url
