import CommandSuite.Core.ToolSources.BodyTemplates
import CommandSuite.Core.ToolSources.PinnedOrigin
import CommandSuite.Core.ToolSources.ToolResponses

/-! # What a tool call throws

A `TemplateError` is a result of the call. Two exceptions are not caught: the one of `encodeURIComponent`, and the one of
`Headers`.
-/

namespace CommandSuite.CustomExecutor

open Library Library.Fallible Template Headers Text

variable (host : TemplateHost)

/-! ## What is sent as it is -/

def fillsUrl (args : List (JsString × JsValue)) : Token → Bool
  | .unit _ => true
  | .arg name => (scalarText host args name).any fun text => (codePoints text).isSome

/-- Of the placeholders that cannot be filled in, the first one has no scalar. -/
def UrlEncodes (args : List (JsString × JsValue)) (urlTemplate : JsString) : Prop :=
  ∀ name, (tokens urlTemplate).find? (fun token => !fillsUrl host args token) = some (.arg name) → scalarText host args name = none

def isLatin1 (text : JsString) : Bool := text.all fun unit => unit ≤ 255

def acceptsValue (value : JsString) : Bool := isValue (normalizeValue value)

def fitsHeader (args : List (JsString × JsValue)) (template : JsString) : Bool :=
  (tokens template).all fun token => isLatin1 ((tokenText host args token).getD [])

def acceptsCredential : Option DecryptedCredential → Bool
  | none => true
  | some (.bearer secret) => acceptsValue (utf16 "Bearer " ++ secret)
  | some (.header (some headerName) secret) => headerName = [] || isName headerName && acceptsValue secret
  | some (.header none _) => true

structure Sendable (input : ExecuteCustomToolInput) : Prop where
  headers : ∀ header ∈ input.binding.headers, fitsHeader host input.args header.2 = true
  contentType : ∀ contentType, input.binding.contentType = some contentType → acceptsValue contentType = true
  credential : acceptsCredential input.credential = true

def urlText (args : List (JsString × JsValue)) : Token → JsString
  | .unit unit => [unit]
  | .arg name =>
    match encodeURIComponent ((scalarText host args name).getD []) with
    | .ok text => text
    | .error _ => []

def failsHeader (args : List (JsString × JsValue)) (header : JsString × JsString) : Bool :=
  lacksScalar host args header.2 || (interpolated host args header.2).any isControl

def filledHeader (args : List (JsString × JsValue)) (header : JsString × JsString) : JsString × JsString :=
  (header.1, interpolated host args header.2)

def failsBody (args : List (JsString × JsValue)) : Option JsValue → Bool
  | none => false
  | some (.string text) => lacksScalar host args text
  | some template => fails host args template || isMissing args template

def filledBody (args : List (JsString × JsValue)) : Option JsValue → Option RequestBody
  | none => none
  | some (.string text) => some (.text (interpolated host args text))
  | some template => some (.json (expanded host args isProto template))

/-- The binding is expanded: the URL keeps to its origin, and the headers and the body are filled in. -/
structure Expands (args : List (JsString × JsValue)) (binding : CustomToolBinding) : Prop where
  url : (tokens binding.urlTemplate).all (fillsUrl host args) = true
  origin : ∃ url, host.parseUrl ((tokens binding.urlTemplate).flatMap (urlText host args)) none = some url ∧
    staticOriginOf host binding.urlTemplate = .ok url.origin
  headers : binding.headers.any (failsHeader host args) = false
  body : failsBody host args binding.bodyTemplate = false

variable {header : JsString × JsString} {value : JsString}

/-- An exception is a `TemplateError`. -/
def OnlyTemplate {α : Type} (result : Except ToolError α) : Prop := ∀ error, result = .error error → ∃ message, error = .template message

def isFailure : FetchEnd ResponseRest → Bool
  | .response res => !isOk res.status
  | _ => true

structure NeverThrows (responseHost : ResponseHost) (input : ExecuteCustomToolInput) : Prop where
  expands : OnlyTemplate (expandBinding host input.binding input.args)
  settles : ∀ upstream n error,
    (executeCustomTool host (present responseHost input.binding.resultPath) upstream input n).settled ≠ some (.error error)
  template : ∀ message, expandBinding host input.binding input.args = .error (.template message) → ∀ upstream n,
    executeCustomTool host (present responseHost input.binding.resultPath) upstream input n = ⟨[], some (.ok (errorResult message))⟩
  fetches : ∀ expanded first, firstHop host input = .ok (expanded, first) → ∀ upstream n ended,
    ((fetchWithPinnedOrigin host expanded.origin).run upstream first n).now = .inl ended →
      ∃ result, (executeCustomTool host (present responseHost input.binding.resultPath) upstream input n).settled = some (.ok result) ∧
        result.isError = isFailure ended

variable {host}

/-! ## Exceptions of a template -/

theorem onlyTemplate_ok {α : Type} (value : α) : OnlyTemplate (.ok value) := nofun

theorem onlyTemplate_error {α : Type} (message : JsString) : OnlyTemplate (.error (.template message) : Except ToolError α) :=
  fun _ h => ⟨message, (Except.error.inj h).symm⟩

theorem OnlyTemplate.of_yields {α : Type} {result : Except ToolError α} {failed : Bool} {value : α} (h : Yields result failed value) :
    OnlyTemplate result := by
  intro error hError
  cases failed with
  | true =>
    obtain ⟨message, hMessage⟩ := h.error rfl
    exact ⟨message, Except.error.inj (hError.symm.trans hMessage)⟩
  | false => cases hError.symm.trans (h.value rfl)

theorem onlyTemplate_bind {α β : Type} {result : Except ToolError α} {next : α → Except ToolError β}
    (hNext : ∀ value, result = .ok value → OnlyTemplate (next value)) : OnlyTemplate (result >>= next) ↔ OnlyTemplate result := by
  cases result with
  | error error => exact ⟨fun h e hError => h e (congrArg Except.error (Except.error.inj hError)), fun h e hError => h e (congrArg Except.error (Except.error.inj hError))⟩
  | ok value => exact iff_of_true (hNext value rfl) (onlyTemplate_ok value)

/-! ## The URL -/

def urlArg (host : TemplateHost) (args : List (JsString × JsValue)) (name : JsString) : Except ToolError JsString := do
  encodeURIComponent (← requiredArg host args (utf16 "URL") name)

variable {args : List (JsString × JsValue)} {urlTemplate : JsString}

theorem asksScalar_requiredArg (context name : JsString) : AsksScalar host args name (requiredArg host args context name) :=
  asksScalar_scalarArg name _ _

variable {name : JsString}

theorem urlArg_of_none (h : scalarText host args name = none) :
    ∃ message, urlArg host args name = .error (.template message) := by
  have hAsked : AsksScalar host args name (requiredArg host args (utf16 "URL") name) := asksScalar_requiredArg _ _
  obtain ⟨message, hMessage⟩ := hAsked.error (by rw [h]; rfl)
  exact ⟨message, by rw [urlArg, hMessage]; rfl⟩

theorem urlArg_of_some {name text : JsString} (h : scalarText host args name = some text) :
    urlArg host args name = encodeURIComponent text := by
  have hAsked : AsksScalar host args name (requiredArg host args (utf16 "URL") name) := asksScalar_requiredArg _ _
  rw [AsksScalar, h] at hAsked
  rw [urlArg, hAsked.value rfl]
  rfl

variable (host args) in
theorem placed_cases (token : Token) :
    (fillsUrl host args token = true ∧ placed (urlArg host args) token = .ok (urlText host args token)) ∨
      ∃ name, token = .arg name ∧ fillsUrl host args token = false ∧
        ((scalarText host args name = none ∧ ∃ message, placed (urlArg host args) token = .error (.template message)) ∨
          ((scalarText host args name).isSome = true ∧ placed (urlArg host args) token = .error .uriError)) := by
  cases token with
  | unit unit => exact .inl ⟨rfl, rfl⟩
  | arg name =>
    rw [fillsUrl, placed, urlText]
    cases hScalar : scalarText host args name with
    | none => exact .inr ⟨name, rfl, rfl, .inl ⟨hScalar, urlArg_of_none hScalar⟩⟩
    | some text =>
      rw [urlArg_of_some hScalar, Option.getD_some, encodeURIComponent, Option.any_some]
      cases codePoints text with
      | none => exact .inr ⟨name, rfl, rfl, .inr ⟨by rw [hScalar]; rfl, rfl⟩⟩
      | some points => exact .inl ⟨rfl, rfl⟩

theorem onlyTemplate_url : OnlyTemplate (replacePlaceholders urlTemplate (urlArg host args)) ↔ UrlEncodes host args urlTemplate := by
  rw [replacePlaceholders_eq, onlyTemplate_bind fun parts _ => onlyTemplate_ok _]
  constructor
  · intro h name hFirst
    obtain ⟨hNot, before, after, hTokens, hBefore⟩ := List.find?_eq_some_iff_append.mp hFirst
    have hPlaced : ∀ token ∈ before, ∃ text, placed (urlArg host args) token = .ok text := by
      intro token hToken
      obtain ⟨-, hText⟩ | ⟨_, -, hFills, -⟩ := placed_cases host args token
      · exact ⟨_, hText⟩
      · exact absurd hFills (by simpa using hBefore token hToken)
    obtain ⟨hFills, -⟩ | ⟨_, hName, -, hMissing | hThrows⟩ := placed_cases host args (.arg name)
    · rw [hFills] at hNot
      cases hNot
    · rw [Token.arg.inj hName]
      exact hMissing.1
    · obtain ⟨message, hMessage⟩ := h .uriError (mapM_eq_error.mpr ⟨before, .arg name, after, hTokens, hPlaced, hThrows.2⟩)
      cases hMessage
  · intro h error hError
    obtain ⟨before, token, after, hTokens, hBefore, hThrows⟩ := mapM_eq_error.mp hError
    obtain ⟨-, hText⟩ | ⟨name, rfl, hFills, hHow⟩ := placed_cases host args token
    · cases hText.symm.trans hThrows
    · have hFirst : (tokens urlTemplate).find? (fun token => !fillsUrl host args token) = some (.arg name) := by
        refine List.find?_eq_some_iff_append.mpr ⟨by rw [hFills]; rfl, before, after, hTokens, fun earlier hEarlier => ?_⟩
        obtain ⟨text, hText⟩ := hBefore earlier hEarlier
        obtain ⟨hFine, -⟩ | ⟨_, -, -, ⟨-, message, hMessage⟩ | ⟨-, hUri⟩⟩ := placed_cases host args earlier
        · rw [hFine]
          rfl
        · cases hMessage.symm.trans hText
        · cases hUri.symm.trans hText
      obtain ⟨-, message, hMessage⟩ | ⟨hSome, -⟩ := hHow
      · exact ⟨message, Except.error.inj (hThrows.symm.trans hMessage)⟩
      · rw [h name hFirst] at hSome
        cases hSome

theorem url_eq_ok {url : JsString} : replacePlaceholders urlTemplate (urlArg host args) = .ok url ↔
    (tokens urlTemplate).all (fillsUrl host args) = true ∧ url = (tokens urlTemplate).flatMap (urlText host args) := by
  rw [replacePlaceholders_eq, List.flatMap_def]
  have hFilled : (tokens urlTemplate).all (fillsUrl host args) = true →
      (tokens urlTemplate).mapM (placed (urlArg host args)) = .ok ((tokens urlTemplate).map (urlText host args)) := by
    intro hFills
    have hEach : ∀ token ∈ tokens urlTemplate, Yields (placed (urlArg host args) token) false (urlText host args token) := by
      intro token hToken
      obtain ⟨-, hText⟩ | ⟨_, -, hNot, -⟩ := placed_cases host args token
      · rw [hText]
        exact yields_ok _
      · exact absurd (List.all_eq_true.mp hFills token hToken) (Bool.eq_false_iff.mp hNot)
    exact (Yields.mapM hEach).value (List.any_eq_false.mpr fun _ _ => Bool.false_ne_true)
  constructor
  · intro h
    obtain ⟨parts, hParts, hUrl⟩ := bind_eq_ok.mp h
    have hFills : (tokens urlTemplate).all (fillsUrl host args) = true := by
      refine List.all_eq_true.mpr fun token hToken => ?_
      obtain ⟨text, hText⟩ := exists_of_mapM_eq_ok hParts token hToken
      obtain ⟨hFine, -⟩ | ⟨_, -, -, ⟨-, message, hMessage⟩ | ⟨-, hUri⟩⟩ := placed_cases host args token
      · exact hFine
      · cases hMessage.symm.trans hText
      · cases hUri.symm.trans hText
    obtain rfl := Except.ok.inj (hParts.symm.trans (hFilled hFills))
    exact ⟨hFills, (Except.ok.inj hUrl).symm⟩
  · rintro ⟨hFills, rfl⟩
    rw [hFilled hFills]
    rfl

theorem expandUrl_eq_ok_iff : (∃ expanded, expandUrl host args urlTemplate = .ok expanded) ↔
    (tokens urlTemplate).all (fillsUrl host args) = true ∧
      ∃ url, host.parseUrl ((tokens urlTemplate).flatMap (urlText host args)) none = some url ∧
        staticOriginOf host urlTemplate = .ok url.origin := by
  constructor
  · rintro ⟨expanded, h⟩
    obtain ⟨origin, hStatic, h⟩ := bind_eq_ok.mp h
    obtain ⟨text, hText, h⟩ := bind_eq_ok.mp h
    obtain ⟨hFills, rfl⟩ := url_eq_ok.mp hText
    refine ⟨hFills, ?_⟩
    split at h
    · cases h
    · rename_i url hUrl
      split at h
      · cases h
      · rename_i hOrigin
        exact ⟨url, hUrl, by rw [hStatic, not_not.mp hOrigin]⟩
  · rintro ⟨hFills, url, hUrl, hStatic⟩
    refine ⟨(url.href, url.origin), ?_⟩
    rw [expandUrl, hStatic]
    change (replacePlaceholders urlTemplate (urlArg host args) >>= _) = _
    rw [url_eq_ok.mpr ⟨hFills, rfl⟩]
    dsimp only [bind, Except.bind]
    rw [hUrl]
    exact if_neg (not_not.mpr rfl)

variable {origin : JsString}

theorem onlyTemplate_expandUrl (hStatic : staticOriginOf host urlTemplate = .ok origin) :
    OnlyTemplate (expandUrl host args urlTemplate) ↔ UrlEncodes host args urlTemplate := by
  rw [expandUrl, hStatic, ← onlyTemplate_url]
  change OnlyTemplate (replacePlaceholders urlTemplate (urlArg host args) >>= _) ↔ _
  refine onlyTemplate_bind fun url _ => ?_
  split
  · exact onlyTemplate_error _
  · split
    · exact onlyTemplate_error _
    · exact onlyTemplate_ok _

/-! ## Headers and bodies -/

theorem yields_expandHeader (header : JsString × JsString) :
    Yields (expandHeader host args header) (failsHeader host args header) (filledHeader host args header) := by
  refine (yields_replacePlaceholders (asksScalar_requiredArg _) header.2).bind fun _ => ?_
  cases hControl : (interpolated host args header.2).any isControl with
  | true => exact ⟨fun _ => ⟨_, rfl⟩, nofun⟩
  | false => exact yields_ok _

theorem yields_expandBody (template : Option JsValue) :
    Yields (expandBody host args template) (failsBody host args template) (filledBody host args template) := by
  cases template with
  | none => exact yields_ok _
  | some template =>
    have hJson : Yields ((expandJsonTemplate host args template).map fun value => some (RequestBody.json value))
        (fails host args template || isMissing args template) (some (.json (expanded host args isProto template))) :=
      (yields_expandJsonTemplate template).map _
    cases template with
    | string text => exact (yields_replacePlaceholders (asksScalar_requiredArg _) text).map _
    | null | bool _ | number _ | array _ | object _ => exact hJson

variable (host args) in
theorem expandBinding_eq (binding : CustomToolBinding) : ∃ rest : JsString × JsString → Except ToolError ExpandedRequest,
    expandBinding host binding args = expandUrl host args binding.urlTemplate >>= rest ∧
      ∀ url, Yields (rest url) (binding.headers.any (failsHeader host args) || failsBody host args binding.bodyTemplate)
        { url := url.1
          origin := url.2
          headers := (binding.headers.map (filledHeader host args)).filter fun header => header.1 ≠ utf16 "__proto__"
          body := filledBody host args binding.bodyTemplate
          contentType := binding.contentType.or ((filledBody host args binding.bodyTemplate).map defaultContentType)
          timeoutMs := min (max (binding.timeoutMs.getD DEFAULT_TIMEOUT_MS) MIN_TIMEOUT_MS) MAX_TIMEOUT_MS } := by
  refine ⟨_, rfl, fun url => ?_⟩
  rw [← Bool.or_false (failsBody host args binding.bodyTemplate)]
  refine (Yields.mapM fun header _ => yields_expandHeader header).bind fun _ => ?_
  exact (yields_expandBody binding.bodyTemplate).bind fun _ => yields_ok _

variable {binding : CustomToolBinding}

theorem onlyTemplate_expandBinding
    (hStatic : staticOriginOf host binding.urlTemplate = .ok origin) :
    OnlyTemplate (expandBinding host binding args) ↔ UrlEncodes host args binding.urlTemplate := by
  obtain ⟨rest, hBinding, hRest⟩ := expandBinding_eq host args binding
  rw [hBinding, ← onlyTemplate_expandUrl hStatic]
  exact onlyTemplate_bind fun url _ => .of_yields (hRest url)

variable {expanded : ExpandedRequest}

theorem expandBinding_eq_ok (h : expandBinding host binding args = .ok expanded) :
    Expands host args binding ∧
      expanded.headers = ((binding.headers.map (filledHeader host args)).filter fun header => header.1 ≠ utf16 "__proto__") ∧
      expanded.contentType = binding.contentType.or ((filledBody host args binding.bodyTemplate).map defaultContentType) := by
  obtain ⟨rest, hBinding, hRest⟩ := expandBinding_eq host args binding
  obtain ⟨url, hUrl, hExpanded⟩ := bind_eq_ok.mp (hBinding.symm.trans h)
  obtain ⟨hFills, hOrigin⟩ := expandUrl_eq_ok_iff.mp ⟨url, hUrl⟩
  cases hFailed : binding.headers.any (failsHeader host args) || failsBody host args binding.bodyTemplate with
  | true =>
    obtain ⟨message, hMessage⟩ := (hRest url).error hFailed
    cases hMessage.symm.trans hExpanded
  | false =>
    obtain ⟨hHeaders, hBody⟩ := Bool.or_eq_false_iff.mp hFailed
    obtain rfl := Except.ok.inj (hExpanded.symm.trans ((hRest url).value hFailed))
    exact ⟨⟨hFills, hOrigin, hHeaders, hBody⟩, rfl, rfl⟩

theorem Expands.eq_ok (h : Expands host args binding) : ∃ expanded, expandBinding host binding args = .ok expanded := by
  obtain ⟨rest, hBinding, hRest⟩ := expandBinding_eq host args binding
  obtain ⟨url, hUrl⟩ := expandUrl_eq_ok_iff.mpr ⟨h.url, h.origin⟩
  rw [hBinding, hUrl]
  exact ⟨_, (hRest url).value (Bool.or_eq_false_iff.mpr ⟨h.headers, h.body⟩)⟩

/-! ## `Headers` -/

theorem mem_normalizeValue {unit : Nat} (h : unit ∈ normalizeValue value) : unit ∈ value := by
  have hInner := (List.dropWhile_sublist _).mem (List.mem_reverse.mp h)
  exact (List.dropWhile_sublist _).mem (List.mem_reverse.mp hInner)

theorem mem_dropWhile {p : Nat → Bool} {text : JsString} {unit : Nat} (h : unit ∈ text) (hNot : p unit = false) :
    unit ∈ text.dropWhile p := by
  rw [← List.takeWhile_append_dropWhile (p := p) (l := text)] at h
  obtain hTaken | hLeft := List.mem_append.mp h
  · exact absurd (List.all_eq_true.mp List.all_takeWhile unit hTaken) (Bool.eq_false_iff.mp hNot)
  · exact hLeft

def IsClean (value : JsString) : Prop := ∀ unit ∈ value, unit ≠ 0 ∧ unit ≠ 10 ∧ unit ≠ 13

theorem isValue_iff (value : JsString) : isValue value = true ↔ IsClean value ∧ isLatin1 value = true := by
  simp only [isValue, IsClean, isLatin1, List.all_eq_true, ← forall₂_and, Bool.and_eq_true, decide_eq_true_eq]
  exact forall₂_congr fun _ _ => by tauto

theorem acceptsValue_of_clean (h : IsClean value) : acceptsValue value = isLatin1 value := by
  have hInner : IsClean (normalizeValue value) := fun unit hUnit => h unit (mem_normalizeValue hUnit)
  rw [Bool.eq_iff_iff, acceptsValue, isValue_iff, and_iff_right hInner, isLatin1, isLatin1, List.all_eq_true, List.all_eq_true]
  constructor
  · intro hLatin unit hUnit
    cases hBlank : isBlank unit with
    | true =>
      simp only [isBlank, Bool.or_eq_true, decide_eq_true_eq] at hBlank ⊢
      omega
    | false => exact hLatin unit (List.mem_reverse.mpr (mem_dropWhile (List.mem_reverse.mpr (mem_dropWhile hUnit hBlank)) hBlank))
  · exact fun hLatin unit hUnit => hLatin unit (mem_normalizeValue hUnit)

def Stored (headers : Headers) : Prop := ∀ header ∈ headers, isValue header.2 = true

variable {headers : Headers}

theorem set_of_accepted {name value : JsString} (hStored : Stored headers) (hName : isName name = true)
    (h : acceptsValue value = true) : ∃ after, headers.set name value = .ok after ∧ Stored after := by
  refine ⟨_, if_pos (by rw [hName]; exact h), fun header hHeader => ?_⟩
  obtain hOld | hNew := List.mem_append.mp hHeader
  · exact hStored header (List.mem_filter.mp hOld).1
  · rw [List.mem_singleton.mp hNew]
    exact h

theorem set_of_refused {name value : JsString} (h : acceptsValue value = false) : headers.set name value = .error .typeError := by
  refine if_neg ?_
  rw [acceptsValue] at h
  rw [h, Bool.and_false]
  exact Bool.false_ne_true

theorem append_cases {name value : JsString} (hStored : Stored headers) (hName : isName name = true)
    (hClean : IsClean value) :
    (isLatin1 value = true ∧ ∃ after, headers.append name value = .ok after ∧ Stored after) ∨
      (isLatin1 value = false ∧ headers.append name value = .error .typeError) := by
  have hJoined : ∀ joined, IsClean joined → isLatin1 joined = isLatin1 value → headers.append name value = headers.set name joined →
      (isLatin1 value = true ∧ ∃ after, headers.append name value = .ok after ∧ Stored after) ∨
        (isLatin1 value = false ∧ headers.append name value = .error .typeError) := by
    intro joined hJoinedClean hLatin hSame
    have hAccepts := acceptsValue_of_clean hJoinedClean
    rw [hLatin] at hAccepts
    rw [hSame]
    cases hValue : isLatin1 value with
    | true => exact .inl ⟨rfl, set_of_accepted hStored hName (hAccepts.trans hValue)⟩
    | false => exact .inr ⟨rfl, set_of_refused (hAccepts.trans hValue)⟩
  cases hBefore : List.lookup (asciiLower name) headers with
  | none => exact hJoined value hClean rfl (by rw [append, hBefore])
  | some before =>
    obtain ⟨first, rest, hHeaders, -⟩ := List.lookup_eq_some_iff.mp hBefore
    obtain ⟨hClean', hLatin'⟩ := (isValue_iff before).mp (hStored (_, before) (hHeaders ▸ List.mem_append_right _ List.mem_cons_self))
    have hComma : ∀ unit ∈ utf16 ", ", unit ≠ 0 ∧ unit ≠ 10 ∧ unit ≠ 13 := by decide
    have hCommaLatin : isLatin1 (utf16 ", ") = true := by decide
    refine hJoined (before ++ utf16 ", " ++ value) ?_ ?_ (by rw [append, hBefore])
    · exact List.forall_mem_append.mpr ⟨List.forall_mem_append.mpr ⟨hClean', hComma⟩, hClean⟩
    · rw [isLatin1] at hLatin' hCommaLatin
      rw [isLatin1, List.all_append, List.all_append, hLatin', hCommaLatin]
      rfl

theorem ofRecord_cases {record : List (JsString × JsString)} (hStored : Stored headers)
    (hNames : ∀ header ∈ record, isName header.1 = true) (hClean : ∀ header ∈ record, IsClean header.2) :
    ((∀ header ∈ record, isLatin1 header.2 = true) ∧
        ∃ after, record.foldlM (fun headers header => append headers header.1 header.2) headers = .ok after ∧ Stored after) ∨
      ((∃ header ∈ record, isLatin1 header.2 = false) ∧
        record.foldlM (fun headers header => append headers header.1 header.2) headers = .error .typeError) := by
  induction record generalizing headers with
  | nil => exact .inl ⟨nofun, headers, rfl, hStored⟩
  | cons header record ih =>
    obtain ⟨hName, hNames⟩ := List.forall_mem_cons.mp hNames
    obtain ⟨hFirst, hRest⟩ := List.forall_mem_cons.mp hClean
    rw [List.foldlM_cons]
    obtain ⟨hLatin, next, hNext, hStored'⟩ | ⟨hNot, hThrows⟩ := append_cases hStored hName hFirst
    · rw [hNext]
      obtain ⟨hAll, hAfter⟩ | ⟨⟨other, hOther, hNot⟩, hThrows⟩ := ih hStored' hNames hRest
      · exact .inl ⟨List.forall_mem_cons.mpr ⟨hLatin, hAll⟩, hAfter⟩
      · exact .inr ⟨⟨other, List.mem_cons_of_mem _ hOther, hNot⟩, hThrows⟩
    · rw [hThrows]
      exact .inr ⟨⟨header, List.mem_cons_self, hNot⟩, rfl⟩

/-! ## The request -/

theorem validateHeader_name {reserved : List JsString}
    (h : validateHeader host reserved header = .ok ()) : isHeaderName header.1 = true := by
  unfold validateHeader at h
  cases hName : isHeaderName header.1 with
  | true => rfl
  | false =>
    rw [hName] at h
    cases h

theorem forM_eq_ok {α : Type} {f : α → Except ToolError Unit} {xs : List α} (h : xs.forM f = .ok ()) : ∀ x ∈ xs, f x = .ok () := by
  induction xs with
  | nil => exact nofun
  | cons x xs ih =>
    obtain ⟨_, hFirst, hRest⟩ := bind_eq_ok.mp h
    exact List.forall_mem_cons.mpr ⟨hFirst, ih hRest⟩

theorem headerNames_of_validated {credentialHeaderName : Option JsString}
    (h : validateBinding host credentialHeaderName binding = .ok ()) : ∀ header ∈ binding.headers, isHeaderName header.1 = true := by
  obtain ⟨_, -, h⟩ := bind_eq_ok.mp h
  obtain ⟨_, hHeaders, -⟩ := bind_eq_ok.mp h
  exact fun header hHeader => validateHeader_name (forM_eq_ok hHeaders header hHeader)

theorem isName_of_isHeaderName (h : isHeaderName name = true) : isName name = true := by
  rw [isHeaderName, Bool.and_eq_true, List.all_eq_true] at h
  rw [isName, Bool.and_eq_true, List.all_eq_true]
  refine ⟨h.1, fun unit hUnit => ?_⟩
  have hUnit := h.2 unit hUnit
  rw [Bool.or_eq_true] at hUnit ⊢
  obtain hAlphanumeric | hDash := hUnit
  · exact .inl hAlphanumeric
  · rw [of_decide_eq_true hDash]
    exact .inr (by decide)

theorem not_proto_of_isHeaderName (h : isHeaderName name = true) : name ≠ utf16 "__proto__" := by
  rintro rfl
  exact absurd h (by decide)

theorem isClean_of_not_fails (h : failsHeader host args header = false) : IsClean (filledHeader host args header).2 := by
  intro unit hUnit
  have hNot : isControl unit = false := by
    simpa using List.any_eq_false.mp (Bool.or_eq_false_iff.mp h).2 unit hUnit
  simp only [isControl, Bool.or_eq_false_iff, decide_eq_false_iff_not] at hNot
  omega

theorem isLatin1_interpolated (template : JsString) : isLatin1 (interpolated host args template) = fitsHeader host args template := by
  rw [isLatin1, interpolated, List.all_flatMap]
  rfl

theorem set_cases (headers : Headers) (value : JsString) (hName : isName name = true) :
    (acceptsValue value = true ∧ ∃ after, headers.set name value = .ok after) ∨
      (acceptsValue value = false ∧ headers.set name value = .error .typeError) := by
  cases hValue : acceptsValue value with
  | true => exact .inl ⟨rfl, _, if_pos (by rw [hName]; exact hValue)⟩
  | false => exact .inr ⟨rfl, set_of_refused hValue⟩

theorem injectCredential_cases (headers : Headers) (credential : Option DecryptedCredential) :
    (acceptsCredential credential = true ∧ ∃ after, injectCredential headers credential = .ok after) ∨
      (acceptsCredential credential = false ∧ injectCredential headers credential = .error .typeError) := by
  cases credential with
  | none => exact .inl ⟨rfl, headers, rfl⟩
  | some credential =>
    cases credential with
    | bearer secret => exact set_cases headers _ (by decide)
    | header headerName secret =>
      cases headerName with
      | none => exact .inl ⟨rfl, headers, rfl⟩
      | some headerName =>
        by_cases hEmpty : headerName = []
        · exact .inl ⟨by rw [acceptsCredential, hEmpty]; rfl, headers, if_pos hEmpty⟩
        · rw [acceptsCredential, decide_eq_false hEmpty, Bool.false_or, injectCredential, if_neg hEmpty]
          cases hName : isName headerName with
          | true => exact set_cases headers _ hName
          | false => exact .inr ⟨rfl, if_neg (by rw [hName]; exact Bool.false_ne_true)⟩

theorem acceptsValue_default (body : RequestBody) : acceptsValue (defaultContentType body) = true := by
  cases body with
  | text text =>
    rw [defaultContentType]
    decide
  | json value =>
    rw [defaultContentType]
    decide

def setContentType (headers : Headers) : Option JsString → Except ToolError Headers
  | some contentType => headers.set (utf16 "Content-Type") contentType
  | none => .ok headers

theorem requestHeaders_eq (expanded : ExpandedRequest) (credential : Option DecryptedCredential) :
    requestHeaders expanded credential = (do
      let headers ← ofRecord expanded.headers
      let headers ← setContentType headers expanded.contentType
      injectCredential headers credential) := by
  unfold requestHeaders setContentType
  cases expanded.contentType <;> rfl

theorem setContentType_cases (headers : Headers) (declared : Option JsString) (body : Option RequestBody) :
    ((∀ contentType, declared = some contentType → acceptsValue contentType = true) ∧
        ∃ after, setContentType headers (declared.or (body.map defaultContentType)) = .ok after) ∨
      (¬(∀ contentType, declared = some contentType → acceptsValue contentType = true) ∧
        setContentType headers (declared.or (body.map defaultContentType)) = .error .typeError) := by
  have hName : isName (utf16 "Content-Type") = true := by decide
  cases declared with
  | some contentType =>
    obtain ⟨hAccepts, hSet⟩ | ⟨hRefused, hThrows⟩ := set_cases headers contentType hName
    · exact .inl ⟨fun _ h => Option.some.inj h ▸ hAccepts, hSet⟩
    · exact .inr ⟨fun hAll => Bool.eq_false_iff.mp hRefused (hAll contentType rfl), hThrows⟩
  | none =>
    refine .inl ⟨nofun, ?_⟩
    cases body with
    | none => exact ⟨headers, rfl⟩
    | some body =>
      obtain ⟨-, hSet⟩ | ⟨hRefused, -⟩ := set_cases headers (defaultContentType body) hName
      · exact hSet
      · exact absurd (acceptsValue_default body) (Bool.eq_false_iff.mp hRefused)

theorem requestHeaders_cases {input : ExecuteCustomToolInput}
    (hNames : ∀ header ∈ input.binding.headers, isHeaderName header.1 = true)
    (h : expandBinding host input.binding input.args = .ok expanded) :
    (Sendable host input ∧ ∃ headers, requestHeaders expanded input.credential = .ok headers) ∨
      (¬Sendable host input ∧ requestHeaders expanded input.credential = .error .typeError) := by
  obtain ⟨hExpands, hFiltered, hContentType⟩ := expandBinding_eq_ok h
  have hHeaders : expanded.headers = input.binding.headers.map (filledHeader host input.args) := by
    rw [hFiltered, List.filter_eq_self, List.forall_mem_map]
    exact fun header hHeader => decide_eq_true (not_proto_of_isHeaderName (hNames header hHeader))
  have hExpandedNames : ∀ header ∈ expanded.headers, isName header.1 = true := by
    rw [hHeaders]
    exact List.forall_mem_map.mpr fun header hHeader => isName_of_isHeaderName (hNames header hHeader)
  have hClean : ∀ header ∈ expanded.headers, IsClean header.2 := by
    rw [hHeaders, List.forall_mem_map]
    exact fun header hHeader => isClean_of_not_fails (Bool.eq_false_iff.mpr (List.any_eq_false.mp hExpands.headers header hHeader))
  have hFits : (∀ header ∈ expanded.headers, isLatin1 header.2 = true) ↔
      ∀ header ∈ input.binding.headers, fitsHeader host input.args header.2 = true := by
    rw [hHeaders, List.forall_mem_map]
    exact forall₂_congr fun header _ => by rw [filledHeader, isLatin1_interpolated]
  rw [requestHeaders_eq, hContentType, ofRecord]
  obtain ⟨hAll, record, hRecord, -⟩ | ⟨⟨header, hHeader, hNot⟩, hThrows⟩ := ofRecord_cases (show Stored [] from nofun) hExpandedNames hClean
  · rw [hRecord]
    obtain ⟨hType, typed, hTyped⟩ | ⟨hType, hThrows⟩ := setContentType_cases record input.binding.contentType
      (filledBody host input.args input.binding.bodyTemplate)
    · change (_ ∧ ∃ headers, (setContentType record _ >>= fun headers => injectCredential headers input.credential) = .ok headers) ∨
        (_ ∧ (setContentType record _ >>= fun headers => injectCredential headers input.credential) = .error .typeError)
      rw [hTyped]
      obtain ⟨hCredential, hInjected⟩ | ⟨hCredential, hThrows⟩ := injectCredential_cases typed input.credential
      · exact .inl ⟨⟨hFits.mp hAll, hType, hCredential⟩, hInjected⟩
      · exact .inr ⟨fun hSendable => Bool.eq_false_iff.mp hCredential hSendable.credential, hThrows⟩
    · refine .inr ⟨fun hSendable => hType hSendable.contentType, ?_⟩
      change (setContentType record _ >>= fun headers => injectCredential headers input.credential) = .error .typeError
      rw [hThrows]
      rfl
  · refine .inr ⟨fun hSendable => ?_, ?_⟩
    · rw [hFits.mpr hSendable.headers header hHeader] at hNot
      cases hNot
    · rw [hThrows]
      rfl

/-! ## The call -/

variable (host) in
theorem firstHop_eq (input : ExecuteCustomToolInput) :
    firstHop host input = (do
      let expanded ← expandBinding host input.binding input.args
      let headers ← requestHeaders expanded input.credential
      return (expanded, ⟨0, ⟨expanded.url, input.binding.method, headers, expanded.body⟩⟩)) := rfl

section Call

variable {responseHost : ResponseHost} {input : ExecuteCustomToolInput}

theorem settles_iff :
    (∀ upstream n error, (executeCustomTool host (present responseHost input.binding.resultPath) upstream input n).settled ≠
        some (.error error)) ↔
      OnlyTemplate (firstHop host input) := by
  constructor
  · intro h error hError
    cases error with
    | template message => exact ⟨message, rfl⟩
    | bindingValidation | uriError | typeError => exact absurd (by rw [executeCustomTool, hError]) (h (fun _ => none) 0 _)
  · intro h upstream n error hSettled
    rw [executeCustomTool] at hSettled
    cases hFirst : firstHop host input with
    | error first =>
      obtain ⟨message, rfl⟩ := h first hFirst
      rw [hFirst] at hSettled
      cases hSettled
    | ok hop =>
      rw [hFirst] at hSettled
      dsimp only at hSettled
      split at hSettled <;> cases hSettled

theorem conclude_isError (timeoutMs : Int) (ended : FetchEnd ResponseRest) :
    (conclude (present responseHost input.binding.resultPath) timeoutMs ended).isError = isFailure ended := by
  cases ended with
  | response res => exact present_isError responseHost _ res
  | originEscape | timedOut | failed => rfl

/-- A call throws just when a lone surrogate is to be encoded into the URL, or a header is refused. -/
theorem never_throws_iff (credentialHeaderName : Option JsString)
    (hValid : validateBinding host credentialHeaderName input.binding = .ok ()) :
    NeverThrows host responseHost input ↔
      UrlEncodes host input.args input.binding.urlTemplate ∧ (Expands host input.args input.binding → Sendable host input) := by
  obtain ⟨origin, hStatic⟩ := staticOriginOf_of_validated hValid
  have hNames := headerNames_of_validated hValid
  have hExpands : OnlyTemplate (expandBinding host input.binding input.args) ↔ _ := onlyTemplate_expandBinding hStatic
  constructor
  · intro h
    refine ⟨hExpands.mp h.expands, fun hAll => ?_⟩
    obtain ⟨expanded, hExpanded⟩ := hAll.eq_ok
    obtain ⟨hSendable, -⟩ | ⟨-, hThrows⟩ := requestHeaders_cases hNames hExpanded
    · exact hSendable
    · have hFirst : firstHop host input = .error .typeError := by
        rw [firstHop_eq, hExpanded]
        change (requestHeaders expanded input.credential >>= _) = _
        rw [hThrows]
        rfl
      obtain ⟨message, hMessage⟩ := settles_iff.mp h.settles .typeError hFirst
      cases hMessage
  · rintro ⟨hUrl, hSendable⟩
    refine ⟨hExpands.mpr hUrl, settles_iff.mpr ?_, ?_, ?_⟩
    · rw [firstHop_eq]
      refine (onlyTemplate_bind fun expanded hExpanded => ?_).mpr (hExpands.mpr hUrl)
      obtain ⟨-, headers, hHeaders⟩ | ⟨hNot, -⟩ := requestHeaders_cases hNames hExpanded
      · rw [hHeaders]
        exact onlyTemplate_ok _
      · exact absurd (hSendable (expandBinding_eq_ok hExpanded).1) hNot
    · intro message hMessage upstream n
      have hFirst : firstHop host input = .error (.template message) := by
        rw [firstHop_eq, hMessage]
        rfl
      rw [executeCustomTool, hFirst]
    · intro expanded first hFirst upstream n ended hEnded
      rw [executeCustomTool, hFirst]
      dsimp only
      rw [hEnded]
      exact ⟨_, rfl, conclude_isError _ ended⟩

end Call

/-! ## A lone surrogate -/

def plainResponses : ResponseHost where
  decode bytes := bytes
  encode text := text
  parse _ := none
  stringify _ := []
  number _ := none
  trim text := ((text.dropWhile isBlank).reverse.dropWhile isBlank).reverse
  toLowerCase := asciiLower

open OneUpstream in
def surrogateInput : ExecuteCustomToolInput := { input with args := [(utf16 "q", .string [0xD800])] }

open OneUpstream in
theorem lone_surrogate_throws :
    validateBinding apiHost none surrogateInput.binding = .ok () ∧
      expandBinding apiHost surrogateInput.binding surrogateInput.args = .error .uriError ∧
      ¬NeverThrows apiHost plainResponses surrogateInput := by
  have hThrows : expandBinding apiHost surrogateInput.binding surrogateInput.args = .error .uriError := by rfl
  refine ⟨by rfl, hThrows, fun h => ?_⟩
  obtain ⟨message, hMessage⟩ := h.expands .uriError hThrows
  cases hMessage

open OneUpstream in
theorem plain_text_is_sent :
    NeverThrows apiHost plainResponses input ↔
      UrlEncodes apiHost input.args input.binding.urlTemplate ∧ (Expands apiHost input.args input.binding → Sendable apiHost input) :=
  never_throws_iff none (by rfl)

end CommandSuite.CustomExecutor
