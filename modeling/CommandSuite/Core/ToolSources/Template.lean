import CommandSuite.Library.Text
import Mathlib.Data.Rat.Defs

/-! # Binding templates

`packages/core/src/tool-sources/template.ts`: the placeholders of a custom tool's binding, what is checked when a
binding is saved, and its expansion with the arguments of a call.
-/

namespace CommandSuite

open Library Text

inductive JsValue where
  | null
  | bool (value : Bool)
  | number (value : Rat)
  | string (value : JsString)
  | array (items : List JsValue)
  | object (members : List (JsString × JsValue))

inductive HttpMethod where
  | get | post | put | patch | delete
  deriving DecidableEq

structure CustomToolBinding where
  method : HttpMethod
  urlTemplate : JsString
  headers : List (JsString × JsString)
  bodyTemplate : Option JsValue
  contentType : Option JsString
  resultPath : Option JsString
  timeoutMs : Option Int

/-- The properties of a parsed `URL` that are read. -/
structure Url where
  href : JsString
  origin : JsString
  protocol : JsString
  hostname : JsString

/-- `none` of `parseUrl` is the exception of `new URL(text, base)`. -/
structure TemplateHost where
  parseUrl : JsString → Option JsString → Option Url
  numberText : Rat → JsString
  toLowerCase : JsString → JsString

inductive ToolError where
  | bindingValidation (message : JsString)
  | template (message : JsString)
  | uriError
  | typeError

namespace Template

/-! ## The grammar of placeholders -/

def braces : JsString := utf16 "\x7b\x7b"

def isLetter (unit : Nat) : Bool := 65 ≤ unit && unit ≤ 90 || 97 ≤ unit && unit ≤ 122

def isDigit (unit : Nat) : Bool := 48 ≤ unit && unit ≤ 57

def isNameStart (unit : Nat) : Bool := isLetter unit || unit = 95

def isNameUnit (unit : Nat) : Bool := isNameStart unit || isDigit unit

def placeholderName (text : JsString) : Option JsString :=
  let opening := utf16 "\x7b\x7bargs."
  if opening.isPrefixOf text then
    let name := (text.drop opening.length).takeWhile isNameUnit
    if name.head?.any isNameStart && (utf16 "\x7d\x7d").isPrefixOf (text.drop (opening.length + name.length)) then some name
    else none
  else none

inductive Token where
  | unit (unit : Nat)
  | arg (name : JsString)

/-- The matches of `PLACEHOLDER` from the left, with the units between them. The first units may belong to a match. -/
def tokensFrom : Nat → JsString → List Token
  | _, [] => []
  | inside + 1, _ :: rest => tokensFrom inside rest
  | 0, unit :: rest =>
    match placeholderName (unit :: rest) with
    | some name => .arg name :: tokensFrom (name.length + 8) rest
    | none => .unit unit :: tokensFrom 0 rest

def tokens (template : JsString) : List Token := tokensFrom 0 template

/-- `template.replace(PLACEHOLDER, …)`. The first exception ends it. -/
def replacePlaceholders (template : JsString) (value : JsString → Except ToolError JsString) : Except ToolError JsString := do
  let parts ← (tokens template).mapM fun token =>
    match token with
    | .unit unit => pure [unit]
    | .arg name => value name
  return parts.flatten

/-- `STRAY_BRACES.test(template)`. -/
def hasStrayBraces (template : JsString) : Bool :=
  template.tails.any fun rest => braces.isPrefixOf rest && (placeholderName rest).isNone

def assertWellFormedTokens (template context : JsString) : Except ToolError Unit :=
  if hasStrayBraces template then
    .error (.bindingValidation (context ++
      utf16 ": malformed placeholder — only `\x7b\x7bargs.<name>\x7d\x7d` tokens are supported"))
  else .ok ()

/-! ## The static origin -/

variable (host : TemplateHost)

/-- What stands before the first `{{`. -/
def beforeBraces (template : JsString) : Option JsString :=
  (template.tails.findIdx? fun rest => braces.isPrefixOf rest).map fun firstToken => template.take firstToken

def originMoves : ToolError :=
  .bindingValidation (utf16 "urlTemplate: placeholders may not appear in the URL origin (scheme/host/port)")

def staticOriginOf (urlTemplate : JsString) : Except ToolError JsString := do
  let neutralized ← replacePlaceholders urlTemplate fun _ => .ok (utf16 "x")
  match host.parseUrl neutralized none with
  | none => .error (.bindingValidation (utf16 "urlTemplate is not a valid absolute URL: " ++ urlTemplate))
  | some parsed =>
    match beforeBraces urlTemplate with
    | none => .ok parsed.origin
    | some before =>
      match host.parseUrl before none with
      | none => .error originMoves
      | some ahead => if ahead.origin = parsed.origin then .ok parsed.origin else .error originMoves

/-! ## What is checked when a binding is saved -/

def isLoopbackHost (hostname : JsString) : Bool :=
  [utf16 "localhost", utf16 "127.0.0.1", utf16 "::1", utf16 "[::1]"].contains hostname || (utf16 "127.").isPrefixOf hostname

def validateUrl (urlTemplate : JsString) : Except ToolError Unit := do
  assertWellFormedTokens urlTemplate (utf16 "urlTemplate")
  let origin ← staticOriginOf host urlTemplate
  match host.parseUrl origin none with
  | none => .error .typeError
  | some originUrl =>
    if originUrl.protocol ≠ utf16 "https:" && !isLoopbackHost originUrl.hostname then
      .error (.bindingValidation (utf16 "urlTemplate: must use https (http is allowed for loopback hosts only)"))
    else .ok ()

def isHeaderName (name : JsString) : Bool := name ≠ [] && name.all fun unit => isLetter unit || isDigit unit || unit = 45

def validateHeader (reserved : List JsString) (header : JsString × JsString) : Except ToolError Unit :=
  if !isHeaderName header.1 then
    .error (.bindingValidation (utf16 "headers: invalid header name \"" ++ header.1 ++ utf16 "\""))
  else if host.toLowerCase header.1 ∈ reserved then
    .error (.bindingValidation (utf16 "headers: \"" ++ header.1 ++
      utf16 "\" is injected from the source credential and cannot be templated"))
  else assertWellFormedTokens header.2 (utf16 "headers." ++ header.1)

def pathTo (path key : JsString) : JsString := if path = [] then key else path ++ utf16 "." ++ key

mutual

/-- `walkJsonTemplate` with `assertWellFormedTokens`. -/
def walkJsonTemplate (path : JsString) : JsValue → Except ToolError Unit
  | .string text => assertWellFormedTokens text (utf16 "bodyTemplate." ++ path)
  | .array items => walkItems path 0 items
  | .object members => walkMembers path members
  | _ => .ok ()

def walkItems (path : JsString) (i : Nat) : List JsValue → Except ToolError Unit
  | [] => .ok ()
  | item :: items => do
    walkJsonTemplate (pathTo path (utf16 (toString i))) item
    walkItems path (i + 1) items

def walkMembers (path : JsString) : List (JsString × JsValue) → Except ToolError Unit
  | [] => .ok ()
  | (key, value) :: members => do
    walkJsonTemplate (pathTo path key) value
    walkMembers path members

end

def HttpMethod.text : HttpMethod → String
  | .get => "GET"
  | .post => "POST"
  | .put => "PUT"
  | .patch => "PATCH"
  | .delete => "DELETE"

def validateBody (method : HttpMethod) : Option JsValue → Except ToolError Unit
  | none => .ok ()
  | some body =>
    if method = .get || method = .delete then
      .error (.bindingValidation (utf16 "bodyTemplate is not allowed with method " ++ utf16 (HttpMethod.text method)))
    else
      match body with
      | .string text => assertWellFormedTokens text (utf16 "bodyTemplate")
      | body => walkJsonTemplate [] body

def isResultPathSegment (segment : JsString) : Bool :=
  segment ≠ [] && segment.all fun unit => isNameUnit unit || unit = 36 || unit = 45

def validateResultPath : Option JsString → Except ToolError Unit
  | none => .ok ()
  | some resultPath =>
    if (resultPath.splitOn 46).all isResultPathSegment then .ok ()
    else .error (.bindingValidation (utf16
      "resultPath: must be a dot-path of alphanumeric/_/$/- segments (array indexes as digits)"))

def DEFAULT_TIMEOUT_MS : Int := 30000

def MIN_TIMEOUT_MS : Int := 1000

def MAX_TIMEOUT_MS : Int := 120000

def validateTimeout : Option Int → Except ToolError Unit
  | none => .ok ()
  | some timeoutMs =>
    if timeoutMs < MIN_TIMEOUT_MS || MAX_TIMEOUT_MS < timeoutMs then
      .error (.bindingValidation (Text.utf16 "timeoutMs: must be between 1000 and 120000"))
    else .ok ()

def validateBinding (credentialHeaderName : Option JsString) (binding : CustomToolBinding) : Except ToolError Unit := do
  validateUrl host binding.urlTemplate
  let reserved := Text.utf16 "authorization" :: ((credentialHeaderName.filter fun name => name ≠ []).map host.toLowerCase).toList
  binding.headers.forM (validateHeader host reserved)
  validateBody binding.method binding.bodyTemplate
  validateResultPath binding.resultPath
  validateTimeout binding.timeoutMs

/-! ## Expansion -/

/-- `String(v)` of the argument, if there is one and it is a scalar. -/
def scalarArg (args : List (JsString × JsValue)) (name missing illTyped : JsString) : Except ToolError JsString :=
  let error (prose : JsString) : ToolError :=
    .template (utf16 "template error: \x7b\x7bargs." ++ name ++ utf16 "\x7d\x7d " ++ prose)
  match args.lookup name with
  | none => .error (error missing)
  | some (.string text) => .ok text
  | some (.number n) => .ok (host.numberText n)
  | some (.bool true) => .ok (utf16 "true")
  | some (.bool false) => .ok (utf16 "false")
  | some _ => .error (error illTyped)

def requiredArg (args : List (JsString × JsValue)) (context name : JsString) : Except ToolError JsString :=
  scalarArg host args name (utf16 "is required by this tool's " ++ context ++ utf16 " but was not provided")
    (utf16 "in the " ++ context ++ utf16 " must be a string, number, or boolean")

def codePoints : JsString → Option (List Nat)
  | [] => some []
  | [unit] => if 0xD800 ≤ unit && unit < 0xE000 then none else some [unit]
  | unit :: next :: rest =>
    if 0xD800 ≤ unit && unit < 0xDC00 then
      if 0xDC00 ≤ next && next < 0xE000 then
        (codePoints rest).map fun points => (0x10000 + (unit - 0xD800) * 0x400 + (next - 0xDC00)) :: points
      else none
    else if 0xDC00 ≤ unit && unit < 0xE000 then none
    else (codePoints (next :: rest)).map fun points => unit :: points

def utf8 (point : Nat) : List Nat :=
  if point < 0x80 then [point]
  else if point < 0x800 then [0xC0 + point / 0x40, 0x80 + point % 0x40]
  else if point < 0x10000 then [0xE0 + point / 0x1000, 0x80 + point / 0x40 % 0x40, 0x80 + point % 0x40]
  else [0xF0 + point / 0x40000, 0x80 + point / 0x1000 % 0x40, 0x80 + point / 0x40 % 0x40, 0x80 + point % 0x40]

def percentEncode (byte : Nat) : JsString :=
  let hexDigit (digit : Nat) : Nat := if digit < 10 then 48 + digit else 55 + digit
  [37, hexDigit (byte / 16), hexDigit (byte % 16)]

def encodeURIComponent (text : JsString) : Except ToolError JsString :=
  match codePoints text with
  | none => .error .uriError
  | some points => .ok (points.flatMap fun point =>
      if isLetter point || isDigit point || point ∈ utf16 "-_.!~*'()" then [point] else (utf8 point).flatMap percentEncode)

def isControl (unit : Nat) : Bool := unit = 13 || unit = 10 || unit ≤ 8 || unit = 11 || unit = 12 || 14 ≤ unit && unit ≤ 31 || unit = 127

def expandHeader (args : List (JsString × JsValue)) (header : JsString × JsString) : Except ToolError (JsString × JsString) := do
  let context := utf16 "\"" ++ header.1 ++ utf16 "\" header"
  let value ← replacePlaceholders header.2 (requiredArg host args context)
  if value.any isControl then
    .error (.template (utf16 "template error: expanded value for header \"" ++ header.1 ++
      utf16 "\" contains control characters"))
  else .ok (header.1, value)

def wholeToken (text : JsString) : Option JsString :=
  match tokens text with
  | [.arg name] => some name
  | _ => none

def bodyArg (args : List (JsString × JsValue)) (path name : JsString) : Except ToolError JsString :=
  scalarArg host args name (utf16 "at body " ++ path ++ utf16 " was not provided")
    (utf16 "at body " ++ path ++ utf16 " must be a string, number, or boolean")

mutual

/-- `none` is `OMIT`. -/
def expandJsonNode (args : List (JsString × JsValue)) (path : JsString) : JsValue → Except ToolError (Option JsValue)
  | .string text =>
    match wholeToken text with
    | some name => .ok (args.lookup name)
    | none => (replacePlaceholders text (bodyArg host args path)).map fun text => some (.string text)
  | .array items => (expandItems args path 0 items).map fun items => some (.array items)
  | .object members => (expandMembers args path members).map fun members => some (.object members)
  | value => .ok (some value)

def expandItems (args : List (JsString × JsValue)) (path : JsString) (i : Nat) : List JsValue → Except ToolError (List JsValue)
  | [] => .ok []
  | item :: items => do
    let itemPath := path ++ utf16 "." ++ utf16 (toString i)
    match ← expandJsonNode args itemPath item with
    | none => .error (.template (utf16 "template error: a required argument at body " ++ itemPath ++
        utf16 " was not provided (array entries cannot be omitted)"))
    | some expanded => (expandItems args path (i + 1) items).map fun items => expanded :: items

def expandMembers (args : List (JsString × JsValue)) (path : JsString) :
    List (JsString × JsValue) → Except ToolError (List (JsString × JsValue))
  | [] => .ok []
  | (key, value) :: members => do
    let expanded ← expandJsonNode args (path ++ utf16 "." ++ key) value
    let members ← expandMembers args path members
    -- `out['__proto__'] = …` sets no property.
    return (if key = utf16 "__proto__" then members else (expanded.toList.map fun value => (key, value)) ++ members)

end

def expandJsonTemplate (args : List (JsString × JsValue)) (template : JsValue) : Except ToolError JsValue := do
  match ← expandJsonNode host args (utf16 "root") template with
  | none => .error (.template (utf16 "template error: the entire body resolved to a missing argument"))
  | some expanded => .ok expanded

/-- `json` is the text of `JSON.stringify`. -/
inductive RequestBody where
  | text (text : JsString)
  | json (value : JsValue)

structure ExpandedRequest where
  url : JsString
  origin : JsString
  headers : List (JsString × JsString)
  body : Option RequestBody
  contentType : Option JsString
  timeoutMs : Int

def expandUrl (args : List (JsString × JsValue)) (urlTemplate : JsString) : Except ToolError (JsString × JsString) := do
  let staticOrigin ← staticOriginOf host urlTemplate
  let url ← replacePlaceholders urlTemplate fun name => do
    encodeURIComponent (← requiredArg host args (utf16 "URL") name)
  match host.parseUrl url none with
  | none => .error (.template (utf16 "template error: expanded URL is not valid"))
  | some finalUrl =>
    if finalUrl.origin ≠ staticOrigin then .error (.template (utf16 "template error: expanded URL escaped the configured origin"))
    else .ok (finalUrl.href, staticOrigin)

def expandBody (args : List (JsString × JsValue)) : Option JsValue → Except ToolError (Option RequestBody)
  | none => .ok none
  | some (.string text) => (replacePlaceholders text (requiredArg host args (utf16 "body"))).map fun text => some (.text text)
  | some template => (expandJsonTemplate host args template).map fun value => some (.json value)

def defaultContentType : RequestBody → JsString
  | .text _ => utf16 "text/plain; charset=utf-8"
  | .json _ => utf16 "application/json"

def expandBinding (binding : CustomToolBinding) (args : List (JsString × JsValue)) : Except ToolError ExpandedRequest := do
  let (url, origin) ← expandUrl host args binding.urlTemplate
  let headers ← binding.headers.mapM (expandHeader host args)
  let body ← expandBody host args binding.bodyTemplate
  return {
    url, origin, body
    headers := headers.filter fun header => header.1 ≠ utf16 "__proto__"
    contentType := binding.contentType.or (body.map defaultContentType)
    timeoutMs := min (max (binding.timeoutMs.getD DEFAULT_TIMEOUT_MS) MIN_TIMEOUT_MS) MAX_TIMEOUT_MS }

end Template

end CommandSuite
