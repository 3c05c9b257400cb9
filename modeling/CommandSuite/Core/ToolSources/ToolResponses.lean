import CommandSuite.Core.ToolSources.CustomExecutor

/-! # What a tool call makes of a response

The end of `executeCustomTool` in `packages/core/src/tool-sources/custom-executor.ts`: the body is read up to a cap, and the
part of it that the binding asks for is taken. Every exception on the way is caught.
-/

namespace CommandSuite

open Library Text

/-- One `reader.read()` before the stream is done. -/
inductive BodyRead where
  | chunk (value : List Nat)
  | noValue
  | failed

/-- The properties of a `Response` that are read, besides its status and its location. -/
structure ResponseRest where
  statusText : JsString
  contentType : Option JsString
  body : Option (List BodyRead)

/-- `none` of `parse` is the exception of `JSON.parse`. `number` is `Number(segment)`, where that is an integer. -/
structure ResponseHost where
  decode : List Nat → JsString
  encode : JsString → List Nat
  parse : JsString → Option JsValue
  stringify : JsValue → JsString
  number : JsString → Option Int
  trim : JsString → JsString
  toLowerCase : JsString → JsString

namespace CustomExecutor

def TOOL_RESULT_MAX_BYTES : Nat := 65536

def TRUNCATION_MARKER (cap : Nat) : JsString := utf16 s!"\n[csuite: response truncated at {cap} bytes]"

def readBodyCapped (cap : Nat) : List Nat → List BodyRead → List Nat × Bool
  | bytes, [] => (bytes, false)
  | bytes, .noValue :: reads => readBodyCapped cap bytes reads
  | bytes, .failed :: _ => (bytes, true)
  | bytes, .chunk value :: reads =>
    if cap < bytes.length + value.length then (bytes ++ value.take (cap - bytes.length), true)
    else readBodyCapped cap (bytes ++ value) reads

/-- A value that a path has led to. Objects have inherited properties too. -/
inductive Walked where
  | json (value : JsValue)
  | objectPrototype
  | inherited

def inheritedNames : List JsString :=
  ["constructor", "hasOwnProperty", "isPrototypeOf", "propertyIsEnumerable", "toLocaleString", "toString", "valueOf",
    "__defineGetter__", "__defineSetter__", "__lookupGetter__", "__lookupSetter__"].map utf16

def inheritedProperty (segment : JsString) : Option Walked := if segment ∈ inheritedNames then some .inherited else none

variable (host : ResponseHost)

/-- One segment of the path. `none` is `undefined`. -/
def walkSegment (current : Walked) (segment : JsString) : Option Walked :=
  match current with
  | .json (.array items) =>
    match host.number segment with
    | none => none
    | some idx => if idx < 0 then none else items[idx.toNat]?.map .json
  | .json (.object members) =>
    match members.lookup segment with
    | some value => some (.json value)
    | none => if segment = utf16 "__proto__" then some .objectPrototype else inheritedProperty segment
  | .objectPrototype => if segment = utf16 "__proto__" then some (.json .null) else inheritedProperty segment
  | _ => none

def walkResultPath (value : JsValue) (resultPath : JsString) : Option Walked :=
  (resultPath.splitOn 46).foldlM (walkSegment host) (.json value)

/-- The text of an extracted value. `JSON.stringify` has none for a function. -/
def extractedText : Walked → JsString
  | .json (.string text) => text
  | .json value => host.stringify value
  | .objectPrototype => host.stringify (.object [])
  | .inherited => []

/-- The text of the result. Where `JSON.parse` throws it is the raw text. -/
def resultText (resultPath : Option JsString) (isJson truncated : Bool) (rawText : JsString) : JsString :=
  if isJson && !truncated then
    match host.parse rawText, resultPath.filter fun path => path ≠ [] with
    | some parsed, some path =>
      match walkResultPath host parsed path with
      | none => utf16 "[resultPath '" ++ path ++ utf16 "' did not match; returning full response]\n" ++ rawText
      | some extracted => extractedText host extracted
    | _, _ => rawText
  else rawText

def mimeOf (contentType : Option JsString) : JsString :=
  host.toLowerCase (host.trim ((contentType.getD []).takeWhile fun unit => unit ≠ 59))

def endsWith (text suffix : JsString) : Bool := suffix.isSuffixOf text

def isOk (status : Nat) : Bool := 200 ≤ status && status ≤ 299

def present (resultPath : Option JsString) (res : HttpResponse ResponseRest) : ToolCallResult :=
  let (bytes, truncated) := readBodyCapped TOOL_RESULT_MAX_BYTES [] (res.rest.body.getD [])
  let rawText := host.decode bytes
  let mime := mimeOf host res.rest.contentType
  let isJson := mime = utf16 "application/json" || endsWith mime (utf16 "+json")
  let isTextLike := isJson || (utf16 "text/").isPrefixOf mime || mime = []
  if !isOk res.status then
    errorResult (utf16 s!"upstream returned HTTP {res.status} " ++ res.rest.statusText ++
      (if isTextLike && rawText ≠ [] then 10 :: rawText else []) ++ (if truncated then TRUNCATION_MARKER TOOL_RESULT_MAX_BYTES else []))
  else if !isTextLike then
    ⟨utf16 "[binary response: " ++ mime ++ utf16 s!", {rawText.length} bytes — not relayed]", false⟩
  else if res.status = 204 || rawText = [] then ⟨utf16 s!"[no content — HTTP {res.status}]", false⟩
  else
    let text := resultText host resultPath isJson truncated rawText
    let tooLong := TOOL_RESULT_MAX_BYTES < (host.encode text).length
    let capped := if tooLong then host.decode ((host.encode text).take TOOL_RESULT_MAX_BYTES) else text
    ⟨capped ++ (if truncated || tooLong then TRUNCATION_MARKER TOOL_RESULT_MAX_BYTES else []), false⟩

theorem present_isError (resultPath : Option JsString) (res : HttpResponse ResponseRest) :
    (present host resultPath res).isError = !isOk res.status := by
  unfold present
  dsimp only
  cases isOk res.status with
  | false => rfl
  | true =>
    rw [Bool.not_true, if_neg Bool.false_ne_true]
    split_ifs <;> rfl

end CustomExecutor

end CommandSuite
