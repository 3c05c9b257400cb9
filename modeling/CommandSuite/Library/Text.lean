import Mathlib.Algebra.Order.BigOperators.Group.List
import Mathlib.Algebra.Order.Ring.Nat

/-! # Strings as lists of characters

String tests that the modelled programs make, read on the characters so that they compute.
-/

/-- A JavaScript string as its code units. It may hold lone surrogates. -/
abbrev CommandSuite.JsString := List Nat

instance : LawfulBEq CommandSuite.JsString := inferInstance

namespace CommandSuite.Library.Text

universe u

variable {α : Type u}

theorem append_cons_inj {first second rest rest' : List α} {separator : α}
    (hFirst : separator ∉ first) (hSecond : separator ∉ second)
    (h : first ++ separator :: rest = second ++ separator :: rest') : first = second ∧ rest = rest' := by
  induction first generalizing second with
  | nil =>
    cases second with
    | nil => exact ⟨rfl, (List.cons.inj h).2⟩
    | cons c second =>
      obtain ⟨rfl, _⟩ := List.cons.inj h
      exact absurd List.mem_cons_self hSecond
  | cons c first ih =>
    cases second with
    | nil =>
      obtain ⟨rfl, _⟩ := List.cons.inj h
      exact absurd List.mem_cons_self hFirst
    | cons c' second =>
      obtain ⟨rfl, hRest⟩ := List.cons.inj h
      simp only [List.mem_cons, not_or] at hFirst hSecond
      obtain ⟨rfl, rfl⟩ := ih hFirst.2 hSecond.2 hRest
      exact ⟨rfl, rfl⟩

def startsWith (text start : String) : Bool := start.toList.isPrefixOf text.toList

theorem startsWith_iff (text start : String) :
    startsWith text start = true ↔ start.toList <+: text.toList :=
  List.isPrefixOf_iff_prefix

theorem startsWith_append (start rest : String) : startsWith (start ++ rest) start = true := by
  rw [startsWith_iff, String.toList_append]
  exact List.prefix_append _ _

def afterPrefix (text start : String) : Option String :=
  if startsWith text start then some (String.ofList (text.toList.drop start.toList.length)) else none

theorem afterPrefix_eq_some_iff (text start rest : String) : afterPrefix text start = some rest ↔ text = start ++ rest := by
  unfold afterPrefix
  constructor
  · intro h
    split at h
    · rename_i hStart
      obtain ⟨suffix, hSuffix⟩ := (startsWith_iff text start).mp hStart
      rw [← hSuffix, List.drop_left, Option.some.injEq] at h
      rw [← h, ← String.toList_inj, String.toList_append, String.toList_ofList, hSuffix]
    · cases h
  · rintro rfl
    rw [if_pos (startsWith_append start rest), String.toList_append, List.drop_left, String.ofList_toList]

def utf16 (text : String) : List Nat :=
  text.toList.flatMap fun c =>
    if c.toNat < 0x10000 then [c.toNat]
    else [0xD800 + (c.toNat - 0x10000) / 0x400, 0xDC00 + (c.toNat - 0x10000) % 0x400]

def units (text : String) : Nat := (utf16 text).length

@[simp] theorem units_append (first second : String) : units (first ++ second) = units first + units second := by
  simp [units, utf16]

/-- The characters that fit into a number of code units. A pair that does not fit whole is left out. -/
def takeUnits : Nat → List Char → List Char
  | _, [] => []
  | limit, c :: text =>
    let width := units (String.ofList [c])
    if width ≤ limit then c :: takeUnits (limit - width) text else []

def isSpace (c : Char) : Bool :=
  (0x2000 ≤ c.toNat && c.toNat ≤ 0x200A) ||
    [0x09, 0x0A, 0x0B, 0x0C, 0x0D, 0x20, 0xA0, 0x1680, 0x2028, 0x2029, 0x202F, 0x205F, 0x3000, 0xFEFF].contains c.toNat

def trim (text : String) : String := String.ofList ((text.toList.dropWhile isSpace).reverse.dropWhile isSpace).reverse

def split (separator : Char) (text : String) : List String := (text.toList.splitOn separator).map String.ofList

def join (separator : Char) (parts : List String) : String := String.ofList ([separator].intercalate (parts.map String.toList))

section Split

variable (separator : Char)

@[simp] theorem join_nil : join separator [] = "" := rfl

@[simp] theorem join_singleton (part : String) : join separator [part] = part := by
  simp [join]

theorem join_cons_cons (part next : String) (parts : List String) :
    join separator (part :: next :: parts) = part ++ (String.singleton separator ++ join separator (next :: parts)) := by
  rw [← String.toList_inj]
  simp [join]

theorem join_append {first second : List String} (hFirst : first ≠ []) (hSecond : second ≠ []) :
    join separator (first ++ second) = join separator first ++ (String.singleton separator ++ join separator second) := by
  induction first with
  | nil => exact absurd rfl hFirst
  | cons part first ih =>
    cases first with
    | nil =>
      cases second with
      | nil => exact absurd rfl hSecond
      | cons next second => rw [List.singleton_append, join_cons_cons, join_singleton]
    | cons next first =>
      rw [List.cons_append, List.cons_append, join_cons_cons, ← List.cons_append, ih (by simp), join_cons_cons]
      simp only [String.append_assoc]

theorem split_append (first second : String) :
    split separator (first ++ (String.singleton separator ++ second)) = split separator first ++ split separator second := by
  simp only [split, String.toList_append, String.toList_singleton, List.singleton_append,
    List.splitOn_append_cons_self, List.map_append]

theorem split_of_not_mem {text : String} (h : separator ∉ text.toList) : split separator text = [text] := by
  rw [split, List.splitOn_eq_singleton h, List.map_singleton, String.ofList_toList]

theorem split_join {parts : List String} (hParts : ∀ part ∈ parts, separator ∉ part.toList) (hSome : parts ≠ []) :
    split separator (join separator parts) = parts := by
  induction parts with
  | nil => exact absurd rfl hSome
  | cons part parts ih =>
    cases parts with
    | nil => rw [join_singleton, split_of_not_mem separator (hParts part List.mem_cons_self)]
    | cons next parts =>
      rw [join_cons_cons, split_append, split_of_not_mem separator (hParts part List.mem_cons_self),
        ih (fun other hOther => hParts other (List.mem_cons_of_mem part hOther)) (by simp), List.singleton_append]

theorem join_split (text : String) : join separator (split separator text) = text := by
  simp [join, split, Function.comp_def]

theorem not_mem_of_mem_split {text part : String} (h : part ∈ split separator text) : separator ∉ part.toList := by
  obtain ⟨chars, hChars, rfl⟩ := List.mem_map.mp h
  rw [String.toList_ofList]
  clear h
  generalize text.toList = text at hChars
  induction text generalizing chars with
  | nil =>
    rw [List.splitOn_nil, List.mem_singleton] at hChars
    rw [hChars]
    exact List.not_mem_nil
  | cons c text ih =>
    rw [List.splitOn_cons_eq_if_modifyHead] at hChars
    split at hChars
    · rcases List.mem_cons.mp hChars with rfl | hRest
      · exact List.not_mem_nil
      · exact ih chars hRest
    · rename_i hOther
      cases hParts : text.splitOn separator with
      | nil => exact absurd hParts (List.splitOn_ne_nil separator text)
      | cons head tail =>
        rw [hParts] at hChars ih
        rcases List.mem_cons.mp hChars with rfl | hRest
        · rw [List.mem_cons, not_or]
          exact ⟨fun hSame => hOther (by simp [hSame]), ih head List.mem_cons_self⟩
        · exact ih chars (List.mem_cons_of_mem head hRest)

theorem mem_join {c : Char} {parts : List String} (h : c ∈ (join separator parts).toList) :
    c = separator ∨ ∃ part ∈ parts, c ∈ part.toList := by
  induction parts with
  | nil => cases h
  | cons part parts ih =>
    cases parts with
    | nil => exact .inr ⟨part, List.mem_cons_self, by rwa [join_singleton] at h⟩
    | cons next parts =>
      rw [join_cons_cons, String.toList_append, String.toList_append, List.mem_append, List.mem_append] at h
      rcases h with hPart | hSeparator | hRest
      · exact .inr ⟨part, List.mem_cons_self, hPart⟩
      · exact .inl (by simpa using hSeparator)
      · exact (ih hRest).imp_right fun ⟨other, hOther, hMem⟩ => ⟨other, List.mem_cons_of_mem part hOther, hMem⟩

theorem units_join (parts : List String) :
    units (join separator parts) = (parts.map units).sum + (parts.length - 1) * units (String.singleton separator) := by
  induction parts with
  | nil => simp [units, utf16]
  | cons part parts ih =>
    cases parts with
    | nil => simp
    | cons next parts =>
      rw [join_cons_cons, units_append, units_append, ih]
      simp only [List.map_cons, List.sum_cons, List.length_cons, Nat.add_sub_cancel, Nat.succ_mul]
      omega

theorem units_join_le {parts kept : List String} (h : kept.Sublist parts) :
    units (join separator kept) ≤ units (join separator parts) := by
  rw [units_join, units_join]
  have hSum : (kept.map units).sum ≤ (parts.map units).sum := (h.map units).sum_le_sum fun _ _ => Nat.zero_le _
  have hLength := Nat.mul_le_mul_right (units (String.singleton separator)) (Nat.sub_le_sub_right h.length_le 1)
  omega

end Split

end CommandSuite.Library.Text
