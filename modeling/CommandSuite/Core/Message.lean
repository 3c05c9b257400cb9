import Mathlib.Data.Rat.Defs
import Mathlib.Data.List.Basic

/-! # Messages and member names

The wire types of `packages/sdk/src/types.ts` and the name rule of `NameSchema`.
A member name carries its own validity, so no ledger row or registry entry can hold another.
-/

namespace CommandSuite

inductive Json where
  | null
  | bool (value : Bool)
  | number (value : Rat)
  | string (value : String)
  | array (items : List Json)
  | object (members : List (String × Json))

/-- The members of a JSON object in order. A property read takes the first of its key. -/
abbrev JsonObject := List (String × Json)

namespace JsonObject

def get (object : JsonObject) (property : String) : Option Json := object.lookup property

end JsonObject

/-- `typeof value === 'string'`, with the string. -/
def Json.asString : Json → Option String
  | .string value => some value
  | _ => none

@[simp] theorem Json.asString_eq_some (value : Json) (text : String) : value.asString = some text ↔ value = .string text := by
  cases value <;> simp [Json.asString]

inductive LogLevel where
  | debug | info | notice | warning | error | critical
  deriving DecidableEq

inductive ContextControlVerb where
  | compact | clear | reload
  deriving DecidableEq

namespace ContextControlVerb

def text : ContextControlVerb → String
  | .compact => "compact"
  | .clear => "clear"
  | .reload => "reload"

def ofText (text : String) : Option ContextControlVerb :=
  [ContextControlVerb.compact, .clear, .reload].find? fun verb => verb.text = text

@[simp] theorem ofText_text (verb : ContextControlVerb) : ofText verb.text = some verb := by
  cases verb <;> rfl

end ContextControlVerb

inductive Permission where
  | teamManage | membersManage | membersContext | objectivesCreate | objectivesCancel | objectivesReassign
  | objectivesWatch | activityRead | toolsManage | secretsManage | notificationsManage | channelsManage
  | teamProcessManage
  deriving DecidableEq

def hasPermission (permissions : List Permission) (required : Permission) : Bool := required ∈ permissions

structure Attachment where
  path : String
  name : String
  size : Nat
  mimeType : String
  deriving DecidableEq

/-- `toName` and `fromName` are the fields `to` and `from`, called as the event log's columns are. -/
structure Message where
  id : String
  ts : Int
  toName : Option String
  fromName : Option String
  title : Option String
  body : String
  level : LogLevel
  data : JsonObject
  attachments : List Attachment

def nameCharacter (c : Char) : Bool := c.isAlphanum || c == '.' || c == '_' || c == '-'

/-- `NameSchema`: one to 128 characters out of letters, digits, `.`, `_` and `-`. -/
def nameSchema (text : String) : Bool := 1 ≤ text.length && text.length ≤ 128 && text.toList.all nameCharacter

structure Name where
  text : String
  valid : nameSchema text = true
  deriving DecidableEq

namespace Name

theorem ext {left right : Name} (h : left.text = right.text) : left = right := by
  cases left
  cases right
  cases h
  rfl

theorem nameCharacter_of_mem (name : Name) {c : Char} (h : c ∈ name.text.toList) : nameCharacter c = true := by
  have hValid := name.valid
  simp only [nameSchema, Bool.and_eq_true, List.all_eq_true] at hValid
  exact hValid.2 c h

theorem not_mem_of_not_nameCharacter (name : Name) {c : Char} (h : nameCharacter c = false) : c ∉ name.text.toList := by
  intro hMem
  rw [nameCharacter_of_mem name hMem] at h
  cases h

theorem text_ne_empty (name : Name) : name.text ≠ "" := by
  intro h
  have hValid := name.valid
  rw [h] at hValid
  revert hValid
  decide

def parse (text : String) : Option Name :=
  if h : nameSchema text = true then some ⟨text, h⟩ else none

theorem parse_eq_some_iff (text : String) (name : Name) : parse text = some name ↔ name.text = text := by
  constructor
  · intro h
    unfold parse at h
    split at h
    · cases h; rfl
    · cases h
  · rintro rfl
    simp [parse, name.valid]

end Name

end CommandSuite
