import CommandSuite.Core.ToolSources.Template
import CommandSuite.Library.Fallible

/-! # JSON body templates

What the expansion of a JSON template is for, by recursion over the template: a text that is one placeholder becomes its
argument, and any other text has its placeholders replaced.
-/

namespace CommandSuite.Template

open Library Text

variable (host : TemplateHost) (args : List (JsString × JsValue))

/-! ## What a template stands for -/

def scalarText (name : JsString) : Option JsString :=
  match args.lookup name with
  | some (.string text) => some text
  | some (.number n) => some (host.numberText n)
  | some (.bool true) => some (utf16 "true")
  | some (.bool false) => some (utf16 "false")
  | _ => none

def isMissing : JsValue → Bool
  | .string text => (wholeToken text).any fun name => (args.lookup name).isNone
  | _ => false

def tokenText : Token → Option JsString
  | .unit unit => some [unit]
  | .arg name => scalarText host args name

def interpolated (text : JsString) : JsString := (tokens text).flatMap fun token => (tokenText host args token).getD []

def lacksScalar (text : JsString) : Bool := (tokens text).any fun token => (tokenText host args token).isNone

mutual

def fails : JsValue → Bool
  | .string text => (wholeToken text).isNone && lacksScalar host args text
  | .array items => failsIn items
  | .object members => failsAt members
  | _ => false

def failsIn : List JsValue → Bool
  | [] => false
  | item :: items => isMissing args item || fails item || failsIn items

def failsAt : List (JsString × JsValue) → Bool
  | [] => false
  | (_, value) :: members => fails value || failsAt members

end

def stays (drops : JsString → Bool) (member : JsString × JsValue) : Bool := !drops member.1 && !isMissing args member.2

mutual

def expanded (drops : JsString → Bool) : JsValue → JsValue
  | .string text =>
    match wholeToken text with
    | some name => (args.lookup name).getD .null
    | none => .string (interpolated host args text)
  | .array items => .array (expandedItems drops items)
  | .object members => .object (expandedMembers drops members)
  | value => value

def expandedItems (drops : JsString → Bool) : List JsValue → List JsValue
  | [] => []
  | item :: items => expanded drops item :: expandedItems drops items

def expandedMembers (drops : JsString → Bool) : List (JsString × JsValue) → List (JsString × JsValue)
  | [] => []
  | (key, value) :: members =>
    if stays args drops (key, value) then (key, expanded drops value) :: expandedMembers drops members
    else expandedMembers drops members

end

def documented (template : JsValue) : JsValue := expanded host args (fun _ => false) template

mutual

def loses (drops : JsString → Bool) : JsValue → Bool
  | .array items => losesIn drops items
  | .object members => losesAt drops members
  | _ => false

def losesIn (drops : JsString → Bool) : List JsValue → Bool
  | [] => false
  | item :: items => loses drops item || losesIn drops items

def losesAt (drops : JsString → Bool) : List (JsString × JsValue) → Bool
  | [] => false
  | (key, value) :: members => drops key && !isMissing args value || loses drops value || losesAt drops members

end

def isProto (key : JsString) : Bool := key = utf16 "__proto__"

/-- The template fails just where an argument is wanting, and expands to what it stands for elsewhere. -/
structure AsDocumented (template : JsValue) : Prop where
  error : fails host args template || isMissing args template →
    ∃ message, expandJsonTemplate host args template = .error (.template message)
  value : fails host args template = false → isMissing args template = false →
    expandJsonTemplate host args template = .ok (documented host args template)

/-! ## Results -/

/-- A `TemplateError` where it has failed, and otherwise this value. -/
structure Yields {α : Type} (result : Except ToolError α) (failed : Bool) (value : α) : Prop where
  error : failed = true → ∃ message, result = .error (.template message)
  value : failed = false → result = .ok value

theorem yields_ok {α : Type} (value : α) : Yields (.ok value) false value := ⟨nofun, fun _ => rfl⟩

theorem Yields.map {α β : Type} {result : Except ToolError α} {failed : Bool} {value : α} (h : Yields result failed value) (f : α → β) :
    Yields (result.map f) failed (f value) where
  error hFailed := by
    obtain ⟨message, rfl⟩ := h.error hFailed
    exact ⟨message, rfl⟩
  value hValue := by
    rw [h.value hValue]
    rfl

theorem Yields.bind {α β : Type} {result : Except ToolError α} {next : α → Except ToolError β} {failed failedNext : Bool} {value : α}
    {last : β} (h : Yields result failed value) (hNext : failed = false → Yields (next value) failedNext last) :
    Yields (result >>= next) (failed || failedNext) last where
  error hFailed := by
    cases failed with
    | true =>
      obtain ⟨message, rfl⟩ := h.error rfl
      exact ⟨message, rfl⟩
    | false =>
      rw [h.value rfl]
      exact (hNext rfl).error hFailed
  value hValue := by
    obtain ⟨rfl, hLast⟩ := Bool.or_eq_false_iff.mp hValue
    rw [h.value rfl]
    exact (hNext rfl).value hLast

theorem Yields.mapM {α β : Type} {f : α → Except ToolError β} {failed : α → Bool} {g : α → β} {xs : List α}
    (h : ∀ x ∈ xs, Yields (f x) (failed x) (g x)) : Yields (xs.mapM f) (xs.any failed) (xs.map g) := by
  induction xs with
  | nil => exact yields_ok []
  | cons x xs ih =>
    obtain ⟨hFirst, hRest⟩ := List.forall_mem_cons.mp h
    rw [List.mapM_cons, List.any_cons, ← Bool.or_false (xs.any failed)]
    exact hFirst.bind fun _ => (ih hRest).bind fun _ => yields_ok _

/-! ## Texts -/

variable {host args}

variable (host args) in
def AsksScalar (name : JsString) (result : Except ToolError JsString) : Prop :=
  Yields result (scalarText host args name).isNone ((scalarText host args name).getD [])

theorem asksScalar_scalarArg (name missing illTyped : JsString) :
    AsksScalar host args name (scalarArg host args name missing illTyped) := by
  unfold AsksScalar scalarText scalarArg
  cases args.lookup name with
  | none => exact ⟨fun _ => ⟨_, rfl⟩, nofun⟩
  | some value =>
    cases value with
    | null | array _ | object _ => exact ⟨fun _ => ⟨_, rfl⟩, nofun⟩
    | string _ | number _ => exact yields_ok _
    | bool b => cases b <;> exact yields_ok _

def placed (value : JsString → Except ToolError JsString) : Token → Except ToolError JsString
  | .unit unit => .ok [unit]
  | .arg name => value name

theorem replacePlaceholders_eq (text : JsString) (value : JsString → Except ToolError JsString) :
    replacePlaceholders text value = (tokens text).mapM (placed value) >>= fun parts => .ok parts.flatten := by
  unfold replacePlaceholders
  congr 2

theorem yields_replacePlaceholders {value : JsString → Except ToolError JsString} (h : ∀ name, AsksScalar host args name (value name))
    (text : JsString) : Yields (replacePlaceholders text value) (lacksScalar host args text) (interpolated host args text) := by
  have hTokens : ∀ token ∈ tokens text,
      Yields (placed value token) (tokenText host args token).isNone ((tokenText host args token).getD []) := by
    rintro (unit | name) -
    · exact yields_ok [unit]
    · exact h name
  rw [replacePlaceholders_eq, lacksScalar, interpolated, List.flatMap_def, ← Bool.or_false ((tokens text).any _)]
  exact (Yields.mapM hTokens).bind fun _ => yields_ok _

/-! ## Values -/

theorem asksScalar_bodyArg (path name : JsString) : AsksScalar host args name (bodyArg host args path name) :=
  asksScalar_scalarArg name _ _

mutual

theorem yields_expandJsonNode (path : JsString) : ∀ template : JsValue, Yields (expandJsonNode host args path template)
    (fails host args template) (if isMissing args template then none else some (expanded host args isProto template))
  | .null | .bool _ | .number _ => yields_ok _
  | .string text => by
    rw [expandJsonNode, fails, isMissing, expanded]
    cases wholeToken text with
    | none => exact (yields_replacePlaceholders (asksScalar_bodyArg path) text).map fun text => some (JsValue.string text)
    | some name =>
      have hRead : ∀ arg : Option JsValue, (if arg.isNone then none else some (arg.getD .null)) = arg := by
        rintro (_ | value) <;> rfl
      rw [Option.any_some, hRead]
      exact yields_ok _
  | .array items => by
    rw [expandJsonNode, fails, expanded]
    exact (yields_expandItems path 0 items).map fun items => some (JsValue.array items)
  | .object members => by
    rw [expandJsonNode, fails, expanded]
    exact (yields_expandMembers path members).map fun members => some (JsValue.object members)

theorem yields_expandItems (path : JsString) (i : Nat) : ∀ items : List JsValue,
    Yields (expandItems host args path i items) (failsIn host args items) (expandedItems host args isProto items)
  | [] => yields_ok []
  | item :: items => by
    rw [expandItems, failsIn, expandedItems, Bool.or_comm (isMissing args item), Bool.or_assoc]
    refine (yields_expandJsonNode _ item).bind fun _ => ?_
    cases isMissing args item with
    | true => exact ⟨fun _ => ⟨_, rfl⟩, nofun⟩
    | false => exact (yields_expandItems path (i + 1) items).map fun items => expanded host args isProto item :: items

theorem yields_expandMembers (path : JsString) : ∀ members : List (JsString × JsValue),
    Yields (expandMembers host args path members) (failsAt host args members) (expandedMembers host args isProto members)
  | [] => yields_ok []
  | (key, value) :: members => by
    rw [expandMembers, failsAt, expandedMembers]
    refine (yields_expandJsonNode _ value).bind fun _ => ?_
    have hMembers : (if stays args isProto (key, value) then (key, expanded host args isProto value) :: expandedMembers host args isProto members
        else expandedMembers host args isProto members) = if key = utf16 "__proto__" then expandedMembers host args isProto members
        else ((if isMissing args value then none else some (expanded host args isProto value)).toList.map fun value => (key, value)) ++
          expandedMembers host args isProto members := by
      rw [stays, isProto]
      cases isMissing args value <;> by_cases hProto : key = utf16 "__proto__" <;> simp [hProto]
    rw [hMembers, ← Bool.or_false (failsAt host args members)]
    exact (yields_expandMembers path members).bind fun _ => yields_ok _

end

theorem yields_expandJsonTemplate (template : JsValue) : Yields (expandJsonTemplate host args template)
    (fails host args template || isMissing args template) (expanded host args isProto template) := by
  rw [expandJsonTemplate]
  refine (yields_expandJsonNode _ template).bind fun _ => ?_
  cases isMissing args template with
  | true => exact ⟨fun _ => ⟨_, rfl⟩, nofun⟩
  | false => exact yields_ok _

/-! ## Dropped members -/

theorem loses_of_isMissing {drops : JsString → Bool} {template : JsValue} (h : isMissing args template = true) :
    loses args drops template = false := by
  cases template with
  | array _ | object _ => cases h
  | null | bool _ | number _ | string _ => rfl

theorem length_expandedMembers_le (drops : JsString → Bool) (members : List (JsString × JsValue)) :
    (expandedMembers host args drops members).length ≤ (expandedMembers host args (fun _ => false) members).length := by
  induction members with
  | nil => exact Nat.le_refl 0
  | cons member members ih =>
    obtain ⟨key, value⟩ := member
    rw [expandedMembers, expandedMembers, stays, stays]
    cases isMissing args value <;> cases drops key <;> simp <;> omega

mutual

theorem expanded_eq_iff (drops : JsString → Bool) : ∀ template : JsValue,
    expanded host args drops template = documented host args template ↔ loses args drops template = false
  | .null | .bool _ | .number _ => iff_of_true rfl rfl
  | .string text => by
    rw [documented, expanded, expanded]
    exact iff_of_true rfl rfl
  | .array items => by
    rw [documented, expanded, expanded, loses, JsValue.array.injEq]
    exact expandedItems_eq_iff drops items
  | .object members => by
    rw [documented, expanded, expanded, loses, JsValue.object.injEq]
    exact expandedMembers_eq_iff drops members

theorem expandedItems_eq_iff (drops : JsString → Bool) : ∀ items : List JsValue,
    expandedItems host args drops items = expandedItems host args (fun _ => false) items ↔ losesIn args drops items = false
  | [] => iff_of_true rfl rfl
  | item :: items => by
    rw [expandedItems, expandedItems, losesIn, List.cons.injEq, Bool.or_eq_false_iff]
    exact and_congr (expanded_eq_iff drops item) (expandedItems_eq_iff drops items)

theorem expandedMembers_eq_iff (drops : JsString → Bool) : ∀ members : List (JsString × JsValue),
    expandedMembers host args drops members = expandedMembers host args (fun _ => false) members ↔ losesAt args drops members = false
  | [] => iff_of_true rfl rfl
  | (key, value) :: members => by
    have hRest := expandedMembers_eq_iff drops members
    have hFewer : (expandedMembers host args drops members).length ≤ (expandedMembers host args (fun _ => false) members).length :=
      length_expandedMembers_le drops members
    rw [expandedMembers, expandedMembers, losesAt, stays, stays]
    cases hMissing : isMissing args value with
    | true => simpa [loses_of_isMissing hMissing] using hRest
    | false =>
      cases drops key with
      | true =>
        refine iff_of_false (fun hSame => ?_) (by simp)
        have hLengths := congrArg List.length hSame
        simp only [Bool.not_true, Bool.not_false, Bool.and_true, if_true, Bool.false_eq_true, if_false, List.length_cons] at hLengths
        omega
      | false =>
        have hValue := expanded_eq_iff drops value
        simpa [documented, ← hValue] using fun _ => hRest

end

/-- The expansion is the documented one except where assignment to `__proto__` has taken a member away. -/
theorem as_documented_iff (host : TemplateHost) (args : List (JsString × JsValue)) (template : JsValue) :
    AsDocumented host args template ↔
      fails host args template = true ∨ isMissing args template = true ∨ loses args isProto template = false := by
  have hYields : Yields (expandJsonTemplate host args template) (fails host args template || isMissing args template)
    (expanded host args isProto template) := yields_expandJsonTemplate template
  constructor
  · intro h
    cases hFails : fails host args template with
    | true => exact .inl rfl
    | false =>
      cases hMissing : isMissing args template with
      | true => exact .inr (.inl rfl)
      | false =>
        have hCode := hYields.value (Bool.or_eq_false_iff.mpr ⟨hFails, hMissing⟩)
        exact .inr (.inr ((expanded_eq_iff isProto template).mp (Except.ok.inj (hCode.symm.trans (h.value hFails hMissing)))))
  · intro h
    refine ⟨hYields.error, fun hFails hMissing => ?_⟩
    have hKept : loses args isProto template = false := by
      obtain hFailed | hAbsent | hKept := h
      · exact absurd hFailed (Bool.eq_false_iff.mp hFails)
      · exact absurd hAbsent (Bool.eq_false_iff.mp hMissing)
      · exact hKept
    rw [← (expanded_eq_iff isProto template).mpr hKept]
    exact hYields.value (Bool.or_eq_false_iff.mpr ⟨hFails, hMissing⟩)

/-- A filter for the key `__proto__`, as JSON may hold it. -/
def protoTemplate : JsValue := .object [(utf16 "filter", .object [(utf16 "__proto__", .string (utf16 "x"))])]

/-- The member is not in the body that is sent. -/
theorem proto_member_lost :
    ¬∀ (host : TemplateHost) (args : List (JsString × JsValue)) (template : JsValue), AsDocumented host args template := by
  intro hAll
  have hValue := (hAll ⟨fun _ _ => none, fun _ => [], id⟩ [] protoTemplate).value rfl rfl
  have hSent : expandJsonTemplate ⟨fun _ _ => none, fun _ => [], id⟩ [] protoTemplate =
    .ok (.object [(utf16 "filter", .object [])]) := rfl
  have hDocumented : documented ⟨fun _ _ => none, fun _ => [], id⟩ [] protoTemplate =
    .object [(utf16 "filter", .object [(utf16 "__proto__", .string (utf16 "x"))])] := rfl
  rw [hSent, hDocumented] at hValue
  cases hValue

end CommandSuite.Template
