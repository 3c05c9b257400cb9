import CommandSuite.Library.Text
import Mathlib.Data.List.Infix
import Mathlib.Data.Rat.Defs

/-! # SQL conditions

Values, three-valued logic and the comparison operators of a `WHERE` clause. A row is selected
when its condition is true, not when it is unknown. `LIKE` ignores the case of ASCII letters.
-/

namespace CommandSuite.Library.Sql

inductive Value where
  | null
  | number (value : Rat)
  | text (value : String)
  deriving DecidableEq

/-- The order in which a statement without `ORDER BY` returns the rows it selects. -/
structure ScanPlan (ρ : Type) where
  order : List ρ → List ρ
  perm : ∀ rows, (order rows).Perm rows

/-- True, false or unknown. -/
abbrev Truth := Option Bool

namespace Truth

def not : Truth → Truth := Option.map Bool.not

def and : Truth → Truth → Truth
  | some false, _ | _, some false => some false
  | some true, some true => some true
  | _, _ => none

def or (a b : Truth) : Truth := ((a.not).and b.not).not

def accepts (condition : Truth) : Bool := condition = some true

def rejects (condition : Truth) : Bool := condition = some false

variable (a b : Truth)

@[simp] theorem accepts_some (b : Bool) : accepts (some b) = b := by cases b <;> rfl
@[simp] theorem accepts_none : accepts none = false := rfl
@[simp] theorem rejects_some (b : Bool) : rejects (some b) = !b := by cases b <;> rfl
@[simp] theorem accepts_not : accepts a.not = rejects a := by rcases a with _ | _ | _ <;> rfl
@[simp] theorem accepts_and : accepts (a.and b) = (accepts a && accepts b) := by
  rcases a with _ | _ | _ <;> rcases b with _ | _ | _ <;> rfl

@[simp] theorem accepts_or : accepts (a.or b) = (accepts a || accepts b) := by
  rcases a with _ | _ | _ <;> rcases b with _ | _ | _ <;> rfl

end Truth

namespace Value

def ofOption : Option String → Value
  | none => .null
  | some value => .text value

def isNull (value : Value) : Truth := some (value = .null)

def isNotNull (value : Value) : Truth := value.isNull.not

def eq : Value → Value → Truth
  | .null, _ | _, .null => none
  | a, b => some (a = b)

def isIn (value : Value) (choices : List String) : Truth :=
  if value = .null then none else some (choices.any fun choice => value = .text choice)

end Value

def caseWhen : List (Truth × Truth) → Truth → Truth
  | [], otherwise => otherwise
  | (condition, result) :: branches, otherwise =>
    if condition.accepts then result else caseWhen branches otherwise

def foldCase (c : Char) : Char := c.toLower

/-- A pattern of `LIKE` against a text: `%` stands for any text, `_` for any character. -/
def matchLike : List Char → List Char → Bool
  | [], text => text.isEmpty
  | '%' :: pattern, text => text.tails.any (matchLike pattern)
  | '_' :: pattern, text =>
    match text with
    | [] => false
    | _ :: text => matchLike pattern text
  | p :: pattern, text =>
    match text with
    | [] => false
    | c :: text => foldCase p == foldCase c && matchLike pattern text

/-- A character that `LIKE` takes literally. -/
def isLiteral (c : Char) : Bool := c ≠ '%' && c ≠ '_'

theorem matchLike_literal {p : Char} (h : isLiteral p = true) (pattern : List Char) (c : Char) (text : List Char) :
    matchLike (p :: pattern) (c :: text) = (foldCase p == foldCase c && matchLike pattern text) := by
  simp only [isLiteral, ne_eq, decide_not, Bool.and_eq_true, Bool.not_eq_true', decide_eq_false_iff_not] at h
  simp [matchLike, h]

theorem matchLike_literal_nil {p : Char} (h : isLiteral p = true) (pattern : List Char) :
    matchLike (p :: pattern) [] = false := by
  simp only [isLiteral, ne_eq, decide_not, Bool.and_eq_true, Bool.not_eq_true', decide_eq_false_iff_not] at h
  simp [matchLike, h]

theorem matchLike_any (text : List Char) : matchLike ['%'] text = true := by
  simp only [matchLike, List.any_eq_true, List.mem_tails]
  exact ⟨[], List.nil_suffix, rfl⟩

theorem matchLike_append_self {start : List Char} (h : '%' ∉ start) {pattern text : List Char} (hRest : matchLike pattern text = true) :
    matchLike (start ++ pattern) (start ++ text) = true := by
  induction start with
  | nil => exact hRest
  | cons p start ih =>
    obtain ⟨hHead, hTail⟩ := List.ne_and_not_mem_of_not_mem_cons h
    by_cases hOne : p = '_'
    · subst hOne
      exact ih hTail
    · have hLiteral : isLiteral p = true := by simp [isLiteral, hHead.symm, hOne]
      rw [List.cons_append, List.cons_append, matchLike_literal hLiteral, beq_self_eq_true, Bool.true_and]
      exact ih hTail

theorem matchLike_extend {start text : List Char} (h : matchLike (start ++ ['%']) text = true) (rest : List Char) :
    matchLike (start ++ ['%']) (text ++ rest) = true := by
  induction start generalizing text with
  | nil => exact matchLike_any _
  | cons p start ih =>
    by_cases hAny : p = '%'
    · subst hAny
      simp only [List.cons_append, matchLike, List.any_eq_true, List.mem_tails] at h ⊢
      obtain ⟨tail, ⟨head, hSuffix⟩, hTail⟩ := h
      exact ⟨tail ++ rest, ⟨head, by rw [← hSuffix, List.append_assoc]⟩, ih hTail⟩
    · by_cases hOne : p = '_'
      · subst hOne
        cases text with
        | nil => cases h
        | cons c text => exact ih h
      · have hLiteral : isLiteral p = true := by simp [isLiteral, hAny, hOne]
        cases text with
        | nil =>
          rw [List.cons_append, matchLike_literal_nil hLiteral] at h
          cases h
        | cons c text =>
          rw [List.cons_append, matchLike_literal hLiteral, Bool.and_eq_true] at h
          rw [List.cons_append, List.cons_append, matchLike_literal hLiteral, Bool.and_eq_true]
          exact ⟨h.1, ih h.2⟩

theorem matchLike_prefix {start : List Char} (h : start.all isLiteral = true) (text : List Char) :
    matchLike (start ++ ['%']) text = true ↔ start.map foldCase <+: text.map foldCase := by
  induction start generalizing text with
  | nil => simp [matchLike_any]
  | cons p start ih =>
    simp only [List.all_cons, Bool.and_eq_true] at h
    obtain ⟨hHead, hTail⟩ := h
    cases text with
    | nil => simp [matchLike_literal_nil hHead]
    | cons c text =>
      rw [List.cons_append, matchLike_literal hHead, Bool.and_eq_true, beq_iff_eq, ih hTail]
      simp only [List.map_cons, List.cons_prefix_cons]

def startsWithFolded (text start : String) : Bool := (start.toList.map foldCase).isPrefixOf (text.toList.map foldCase)

theorem startsWithFolded_of_startsWith {text start : String} (h : Text.startsWith text start = true) :
    startsWithFolded text start = true := by
  rw [Text.startsWith_iff] at h
  rw [startsWithFolded, List.isPrefixOf_iff_prefix]
  exact h.map foldCase

theorem matchLike_start {start : String} (h : start.toList.all isLiteral = true) (text : String) :
    matchLike (start.toList ++ ['%']) text.toList = startsWithFolded text start := by
  rw [Bool.eq_iff_iff, matchLike_prefix h, startsWithFolded, List.isPrefixOf_iff_prefix]

theorem head_of_startsWithFolded {text start : String} (hStart : start.toList ≠ [])
    (h : startsWithFolded text start = true) :
    (text.toList.map foldCase).head? = (start.toList.map foldCase).head? := by
  rw [startsWithFolded, List.isPrefixOf_iff_prefix] at h
  obtain ⟨rest, hRest⟩ := h
  rw [← hRest, List.head?_append_of_ne_nil]
  simpa using hStart

end CommandSuite.Library.Sql
