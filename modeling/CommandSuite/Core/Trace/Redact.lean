import CommandSuite.Core.ToolSources.Template
import CommandSuite.Library.Rewriting
import CommandSuite.Library.Spans
import CommandSuite.Library.Transcript

/-! # Secret redaction

`packages/core/src/trace/redact.ts`: known key shapes and registered literal values are replaced in a text. Headers, which
only hand their strings on, are left out.
-/

namespace CommandSuite.Redact

open Library Template Transcript

/-- A regular expression: a start of fixed length, and as many units of one class as there are. -/
structure SecretPattern where
  start : List (Nat → Bool)
  run : Nat → Bool
  atLeast : Nat
  atMost : Option Nat

/-- `includes` position by position. -/
def startsLike : List (Nat → Bool) → JsString → Bool
  | [], _ => true
  | _ :: _, [] => false
  | accepts :: start, unit :: text => accepts unit && startsLike start text

def SecretPattern.find (pattern : SecretPattern) (text : JsString) : Nat :=
  let run := (text.drop pattern.start.length).takeWhile pattern.run
  let length := min run.length (pattern.atMost.getD run.length)
  if startsLike pattern.start text && pattern.atLeast ≤ length then pattern.start.length + length else 0

def literally (text : String) : List (Nat → Bool) := (Text.utf16 text).map fun unit other => other = unit

def isAlphanumeric (unit : Nat) : Bool := isLetter unit || isDigit unit

def isUpperOrDigit (unit : Nat) : Bool := isDigit unit || 65 ≤ unit && unit ≤ 90

def isOneOf (units : String) (unit : Nat) : Bool := unit ∈ Text.utf16 units

def SECRET_PATTERNS : List SecretPattern :=
  [⟨literally "sk-ant-", fun unit => isAlphanumeric unit || isOneOf "_-" unit, 20, none⟩,
    ⟨literally "sk-", isAlphanumeric, 20, none⟩,
    ⟨literally "AKIA", isUpperOrDigit, 16, some 16⟩,
    ⟨literally "ghp_", isAlphanumeric, 20, none⟩,
    ⟨literally "xox" ++ [isOneOf "baprs"] ++ literally "-", fun unit => isAlphanumeric unit || isOneOf "-" unit, 10, none⟩]

def REDACTED : JsString := Text.utf16 "[REDACTED]"

/-! ## Registered values -/

def MIN_REGISTERED_VALUE_LENGTH : Nat := 6

/-- `registeredValues`. Longer ones come first. -/
structure RegisteredValues where
  values : List JsString
  long : ∀ value ∈ values, MIN_REGISTERED_VALUE_LENGTH ≤ value.length
  longestFirst : values.Pairwise fun a b => b.length ≤ a.length
  nodup : values.Nodup

def RegisteredValues.none : RegisteredValues := ⟨[], nofun, .nil, .nil⟩

def addValue (merged : List JsString) (value : JsString) : List JsString := if value ∈ merged then merged else merged ++ [value]

def mergeValue (merged : List JsString) (value : JsString) : Except ToolError (List JsString) :=
  if value.length < MIN_REGISTERED_VALUE_LENGTH then .ok merged
  else (encodeURIComponent value).map fun encoded =>
    if encoded ≠ value then addValue (addValue merged value) encoded else addValue merged value

theorem nodup_addValue {merged : List JsString} (h : merged.Nodup) (value : JsString) : (addValue merged value).Nodup := by
  unfold addValue
  split
  · exact h
  · rename_i hNew
    exact List.nodup_append.mpr ⟨h, List.nodup_singleton _, fun x hX y hY hSame =>
      hNew (by rwa [hSame, List.mem_singleton.mp hY] at hX)⟩

theorem mem_addValue_iff {merged : List JsString} {value other : JsString} :
    other ∈ addValue merged value ↔ other ∈ merged ∨ other = value := by
  unfold addValue
  split
  · rename_i hOld
    exact ⟨.inl, fun h => h.elim id fun hSame => hSame ▸ hOld⟩
  · rw [List.mem_append, List.mem_singleton]

theorem length_le_of_codePoints {text : JsString} {points : List Nat} (h : codePoints text = some points)
    (encode : Nat → JsString) (hOne : ∀ point, 1 ≤ (encode point).length) (hTwo : ∀ point, 0x10000 ≤ point → 2 ≤ (encode point).length) :
    text.length ≤ (points.flatMap encode).length := by
  induction text using codePoints.induct generalizing points with
  | case1 => exact Nat.zero_le _
  | case2 unit hLone =>
    rw [codePoints, if_pos hLone] at h
    cases h
  | case3 unit hPlain =>
    rw [codePoints, if_neg hPlain] at h
    obtain rfl := Option.some.inj h
    rw [List.flatMap_singleton]
    exact hOne unit
  | case4 unit next rest hHigh hLow ih =>
    rw [codePoints, if_pos hHigh, if_pos hLow] at h
    obtain ⟨points, hRest, rfl⟩ := Option.map_eq_some_iff.mp h
    have hPair := hTwo (0x10000 + (unit - 0xD800) * 0x400 + (next - 0xDC00)) (by omega)
    have hTail := ih hRest
    rw [List.flatMap_cons, List.length_append, List.length_cons, List.length_cons]
    omega
  | case5 unit next rest hHigh hLow =>
    rw [codePoints, if_pos hHigh, if_neg hLow] at h
    cases h
  | case6 unit next rest hHigh hLow =>
    rw [codePoints, if_neg hHigh, if_pos hLow] at h
    cases h
  | case7 unit next rest hHigh hLow ih =>
    rw [codePoints, if_neg hHigh, if_neg hLow] at h
    obtain ⟨points, hRest, rfl⟩ := Option.map_eq_some_iff.mp h
    have hHead := hOne unit
    have hTail := ih hRest
    rw [List.flatMap_cons, List.length_append, List.length_cons]
    omega

theorem length_le_encodeURIComponent {value encoded : JsString} (h : encodeURIComponent value = .ok encoded) :
    value.length ≤ encoded.length := by
  unfold encodeURIComponent at h
  split at h
  · cases h
  · rename_i points hPoints
    rw [← Except.ok.inj h]
    have hPercent : ∀ byte, (percentEncode byte).length = 3 := fun _ => rfl
    have hBytes : ∀ point, 3 ≤ ((utf8 point).flatMap percentEncode).length := by
      intro point
      unfold utf8
      split_ifs <;> simp [hPercent]
    refine length_le_of_codePoints hPoints _ (fun point => ?_) fun point hLarge => ?_
    · split
      · exact le_refl 1
      · exact Nat.le_of_succ_le (Nat.le_of_succ_le (hBytes point))
    · split
      · rename_i hSafe
        have hUnits : ∀ unit ∈ Text.utf16 "-_.!~*'()", unit < 0x10000 := by decide
        simp only [isLetter, isDigit, Bool.or_eq_true, Bool.and_eq_true, decide_eq_true_eq] at hSafe
        obtain (hLetter | hDigit) | hMark := hSafe
        · omega
        · omega
        · exact absurd (hUnits point hMark) (by omega)
      · exact Nat.le_of_succ_le (hBytes point)

theorem mergeValue_keeps {merged next : List JsString} {value : JsString} (h : mergeValue merged value = .ok next)
    (hNodup : merged.Nodup) (hLong : ∀ value ∈ merged, MIN_REGISTERED_VALUE_LENGTH ≤ value.length) :
    next.Nodup ∧ ∀ value ∈ next, MIN_REGISTERED_VALUE_LENGTH ≤ value.length := by
  unfold mergeValue at h
  split at h
  · obtain rfl := Except.ok.inj h
    exact ⟨hNodup, hLong⟩
  · rename_i hNotShort
    cases hEncoded : encodeURIComponent value with
    | error error => rw [hEncoded] at h; cases h
    | ok encoded =>
      rw [hEncoded] at h
      have hNext : (if encoded ≠ value then addValue (addValue merged value) encoded else addValue merged value) = next :=
        Except.ok.inj h
      rw [← hNext]
      have hValue : MIN_REGISTERED_VALUE_LENGTH ≤ value.length := Nat.le_of_not_lt hNotShort
      have hForm := hValue.trans (length_le_encodeURIComponent hEncoded)
      have hAdded : ∀ other ∈ addValue merged value, MIN_REGISTERED_VALUE_LENGTH ≤ other.length := by
        intro other hOther
        obtain hOld | rfl := mem_addValue_iff.mp hOther
        · exact hLong other hOld
        · exact hValue
      split
      · refine ⟨nodup_addValue (nodup_addValue hNodup _) _, fun other hOther => ?_⟩
        obtain hOld | rfl := mem_addValue_iff.mp hOther
        · exact hAdded other hOld
        · exact hForm
      · exact ⟨nodup_addValue hNodup _, hAdded⟩

theorem mergeValues_keeps {values merged next : List JsString} (h : values.foldlM mergeValue merged = .ok next)
    (hNodup : merged.Nodup) (hLong : ∀ value ∈ merged, MIN_REGISTERED_VALUE_LENGTH ≤ value.length) :
    next.Nodup ∧ ∀ value ∈ next, MIN_REGISTERED_VALUE_LENGTH ≤ value.length := by
  induction values generalizing merged with
  | nil =>
    rw [← Except.ok.inj h]
    exact ⟨hNodup, hLong⟩
  | cons value values ih =>
    rw [List.foldlM_cons] at h
    cases hMerged : mergeValue merged value with
    | error error => rw [hMerged] at h; cases h
    | ok more =>
      rw [hMerged] at h
      obtain ⟨hNodup', hLong'⟩ := mergeValue_keeps hMerged hNodup hLong
      exact ih h hNodup' hLong'

/-- A value that is long enough, or its URL-encoded form. -/
def IsForm (value other : JsString) : Prop :=
  MIN_REGISTERED_VALUE_LENGTH ≤ value.length ∧ (other = value ∨ encodeURIComponent value = .ok other)

theorem mem_mergeValue_iff {merged next : List JsString} {value : JsString} (h : mergeValue merged value = .ok next) (other : JsString) :
    other ∈ next ↔ other ∈ merged ∨ IsForm value other := by
  unfold mergeValue at h
  split at h
  · rename_i hShort
    obtain rfl := Except.ok.inj h
    simp [IsForm, Nat.not_le.mpr hShort]
  · rename_i hNotShort
    cases hEncoded : encodeURIComponent value with
    | error error => rw [hEncoded] at h; cases h
    | ok encoded =>
      rw [hEncoded] at h
      obtain rfl : (if encoded ≠ value then addValue (addValue merged value) encoded else addValue merged value) = next :=
        Except.ok.inj h
      split <;> grind [IsForm, mem_addValue_iff]

theorem mem_mergeValues_iff {values merged next : List JsString} (h : values.foldlM mergeValue merged = .ok next) (other : JsString) :
    other ∈ next ↔ other ∈ merged ∨ ∃ value ∈ values, IsForm value other := by
  induction values generalizing merged with
  | nil => simp [← Except.ok.inj h]
  | cons value values ih =>
    rw [List.foldlM_cons] at h
    cases hMerged : mergeValue merged value with
    | error error => rw [hMerged] at h; cases h
    | ok more =>
      rw [hMerged] at h
      simp only [ih h, mem_mergeValue_iff hMerged, List.mem_cons, exists_eq_or_imp, or_assoc]

/-- `[...merged].sort((a, b) => b.length - a.length)`. -/
def sortByLength (merged : List JsString) (hNodup : merged.Nodup)
    (hLong : ∀ value ∈ merged, MIN_REGISTERED_VALUE_LENGTH ≤ value.length) : RegisteredValues where
  values := merged.insertionSort fun a b => b.length ≤ a.length
  long value hValue := hLong value ((List.perm_insertionSort _ merged).mem_iff.mp hValue)
  longestFirst := List.pairwise_insertionSort (fun a b : JsString => b.length ≤ a.length) merged
  nodup := (List.perm_insertionSort _ merged).nodup_iff.mpr hNodup

def registerSecretValues (values : List JsString) (registered : RegisteredValues) : Except ToolError RegisteredValues :=
  match h : values.foldlM mergeValue registered.values with
  | .error error => .error error
  | .ok merged =>
    have hKept := mergeValues_keeps h registered.nodup registered.long
    .ok (sortByLength merged hKept.1 hKept.2)

/-- A call that throws leaves what is registered. -/
def register : Machine RegisteredValues (List JsString) Bool := fun registered values =>
  match registerSecretValues values registered with
  | .error _ => (registered, false)
  | .ok next => (next, true)

/-- What is registered after any calls are the forms of the values of those that did not throw. -/
theorem registered_exactly (calls : List (List JsString)) (registered : RegisteredValues) (other : JsString) :
    other ∈ (final register registered calls).values ↔ other ∈ registered.values ∨
      ∃ step ∈ run register registered calls, step.output = true ∧ ∃ value ∈ step.input, IsForm value other := by
  induction calls generalizing registered with
  | nil => simp
  | cons values calls ih =>
    have hStep : other ∈ (register registered values).1.values ↔ other ∈ registered.values ∨
        (register registered values).2 = true ∧ ∃ value ∈ values, IsForm value other := by
      unfold register registerSecretValues
      split
      · simp
      · rename_i next hNext
        split at hNext
        · cases hNext
        · rename_i merged hMerged
          rw [← Except.ok.inj hNext, sortByLength, List.mem_insertionSort, mem_mergeValues_iff hMerged, eq_self, true_and]
    simp only [final_cons, run_cons, ih, hStep, List.mem_cons, exists_eq_or_imp, or_assoc, stepAt_output, stepAt_input]

/-! ## Redaction -/

def includes (text value : JsString) : Bool := text.tails.any value.isPrefixOf

def findValue (value text : JsString) : Nat := if value.isPrefixOf text then value.length else 0

/-- `redactSecrets(input)`: the patterns, then the registered values. -/
def redactPlain (registered : RegisteredValues) (input : JsString) : JsString :=
  let out := SECRET_PATTERNS.foldl (fun out pattern => Rewriting.replaceAll pattern.find REDACTED out) input
  registered.values.foldl (fun out value =>
    if includes out value then REDACTED.intercalate (Rewriting.split (findValue value) out) else out) out

/-- From `start` on. -/
def indexOf (input exemption : JsString) (start : Nat) : Option Nat :=
  ((input.drop start).tails.findIdx? exemption.isPrefixOf).map (start + ·)

def findSpans (input exemption : JsString) : Nat → Nat → List (Nat × Nat)
  | 0, _ => []
  | rounds + 1, start =>
    if start + exemption.length ≤ input.length then
      match indexOf input exemption start with
      | none => []
      | some found => (found, found + exemption.length) :: findSpans input exemption rounds (found + exemption.length)
    else []

def foundSpans (input : JsString) (exemptions : List JsString) : List (Nat × Nat) :=
  (exemptions.filter fun exemption => exemption ≠ []).flatMap fun exemption => findSpans input exemption (input.length + 1) 0

def redactSecrets (registered : RegisteredValues) (input : JsString) (exemptions : List JsString) : JsString :=
  let spans := foundSpans input exemptions
  if spans = [] then redactPlain registered input
  else Spans.spare (redactPlain registered) input 0 (Spans.merge (Spans.sort spans))

def containsRegisteredSecretValue (registered : RegisteredValues) (input : JsString) : Bool :=
  registered.values.any (includes input)

end CommandSuite.Redact

/-! ## Redaction of JSON values

Every string of a value is redacted, the keys of its objects are not.
-/

namespace CommandSuite.Redact

open Library

variable (registered : RegisteredValues)

mutual

def redactJson : JsValue → JsValue
  | .string text => .string (redactSecrets registered text [])
  | .array items => .array (redactItems items)
  | .object members => .object (redactMembers members)
  | value => value

def redactItems : List JsValue → List JsValue
  | [] => []
  | item :: items => redactJson item :: redactItems items

/-- To set `__proto__` gives an object no member. -/
def redactMembers : List (JsString × JsValue) → List (JsString × JsValue)
  | [] => []
  | (key, value) :: members =>
    if key = Text.utf16 "__proto__" then redactMembers members else (key, redactJson value) :: redactMembers members

end

end CommandSuite.Redact
