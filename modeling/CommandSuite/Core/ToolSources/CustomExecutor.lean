import CommandSuite.Core.ToolSources.Template
import CommandSuite.Library.Dialogue

/-! # The custom tool executor

`packages/core/src/tool-sources/custom-executor.ts`: the request of a tool call and its redirects. What is made of the
response in the end is a parameter.
-/

namespace CommandSuite

open Library Template Text

/-! ## Header lists -/

abbrev Headers := List (JsString × JsString)

namespace Headers

def asciiLower (text : JsString) : JsString := text.map fun unit => if 65 ≤ unit && unit ≤ 90 then unit + 32 else unit

def isName (name : JsString) : Bool :=
  name ≠ [] && name.all fun unit => isLetter unit || isDigit unit || unit ∈ utf16 "!#$%&'*+-.^_`|~"

def isBlank (unit : Nat) : Bool := unit = 9 || unit = 10 || unit = 13 || unit = 32

def normalizeValue (value : JsString) : JsString := ((value.dropWhile isBlank).reverse.dropWhile isBlank).reverse

def isValue (value : JsString) : Bool := value.all fun unit => unit ≤ 255 && unit ≠ 0 && unit ≠ 10 && unit ≠ 13

def set (headers : Headers) (name value : JsString) : Except ToolError Headers :=
  if isName name && isValue (normalizeValue value) then
    .ok (headers.filter (fun header => header.1 ≠ asciiLower name) ++ [(asciiLower name, normalizeValue value)])
  else .error .typeError

def append (headers : Headers) (name value : JsString) : Except ToolError Headers :=
  set headers name (match headers.lookup (asciiLower name) with
    | some before => before ++ utf16 ", " ++ value
    | none => value)

def ofRecord (record : List (JsString × JsString)) : Except ToolError Headers :=
  record.foldlM (fun headers header => append headers header.1 header.2) []

def delete (headers : Headers) (name : JsString) : Headers := headers.filter fun header => header.1 ≠ name

end Headers

/-! ## The fetches of a call -/

inductive DecryptedCredential where
  | bearer (secret : JsString)
  | header (headerName : Option JsString) (secret : JsString)

structure ToolCallResult where
  text : JsString
  isError : Bool

structure HttpRequest where
  url : JsString
  method : HttpMethod
  headers : Headers
  body : Option RequestBody

structure HttpResponse (R : Type) where
  status : Nat
  location : Option JsString
  rest : R

inductive Fetched (R : Type) where
  | response (response : HttpResponse R)
  | timedOut
  | failed (message : JsString)

inductive FetchEnd (R : Type) where
  | response (response : HttpResponse R)
  | originEscape (message : JsString)
  | timedOut
  | failed (message : JsString)

structure ExecuteCustomToolInput where
  binding : CustomToolBinding
  credential : Option DecryptedCredential
  args : List (JsString × JsValue)

namespace CustomExecutor

variable (host : TemplateHost) {R : Type}

def MAX_REDIRECTS : Nat := 5

def isRedirectStatus (status : Nat) : Bool := status ∈ [301, 302, 303, 307, 308]

def originEscape (source target : JsString) : FetchEnd R :=
  .originEscape (utf16 "upstream redirected off the configured origin (" ++ source ++ utf16 " → " ++ target ++
    utf16 "); the request was not followed and no credential was sent")

structure Hop where
  hop : Nat
  request : HttpRequest

def switchesToGet (status : Nat) (method : HttpMethod) : Bool :=
  status = 303 && method ≠ .get || (status = 301 || status = 302) && method = .post

def bodyHeaders : List JsString :=
  [utf16 "content-encoding", utf16 "content-language", utf16 "content-location", utf16 "content-type"]

def redirected (request : HttpRequest) (status : Nat) (url : JsString) : HttpRequest :=
  if switchesToGet status request.method then
    { url := url, method := .get, headers := bodyHeaders.foldl Headers.delete request.headers, body := none }
  else { request with url := url }

def follow (origin : JsString) (hop : Hop) (res : HttpResponse R) : FetchEnd R ⊕ Hop :=
  if !isRedirectStatus res.status then .inl (.response res)
  else
    match res.location with
    | none => .inl (.response res)
    | some location =>
      if hop.hop ≥ MAX_REDIRECTS then .inl (originEscape hop.request.url (location ++ utf16 " (after 5 redirects)"))
      else
        match host.parseUrl location (some hop.request.url) with
        | none => .inl (originEscape hop.request.url location)
        | some next =>
          if next.origin ≠ origin then .inl (originEscape hop.request.url next.origin)
          else .inr ⟨hop.hop + 1, redirected hop.request res.status next.href⟩

def fetchWithPinnedOrigin (origin : JsString) : Client Hop HttpRequest (Fetched R) (FetchEnd R) where
  request hop := hop.request
  turn hop
    | .response res => follow host origin hop res
    | .timedOut => .inl .timedOut
    | .failed message => .inl (.failed message)

def injectCredential (headers : Headers) : Option DecryptedCredential → Except ToolError Headers
  | none => .ok headers
  | some (.bearer secret) => headers.set (utf16 "Authorization") (utf16 "Bearer " ++ secret)
  | some (.header (some headerName) secret) => if headerName = [] then .ok headers else headers.set headerName secret
  | some (.header none _) => .ok headers

def requestHeaders (expanded : ExpandedRequest) (credential : Option DecryptedCredential) : Except ToolError Headers := do
  let headers ← Headers.ofRecord expanded.headers
  let headers ← match expanded.contentType with
    | some contentType => headers.set (utf16 "Content-Type") contentType
    | none => .ok headers
  injectCredential headers credential

def firstHop (input : ExecuteCustomToolInput) : Except ToolError (ExpandedRequest × Hop) := do
  let expanded ← expandBinding host input.binding input.args
  let headers ← requestHeaders expanded input.credential
  return (expanded, ⟨0, ⟨expanded.url, input.binding.method, headers, expanded.body⟩⟩)

structure Execution where
  issued : List HttpRequest
  settled : Option (Except ToolError ToolCallResult)

def errorResult (text : JsString) : ToolCallResult := ⟨text, true⟩

/-- The result of the fetches. `present` is what is made of a response. -/
def conclude (present : HttpResponse R → ToolCallResult) (timeoutMs : Int) : FetchEnd R → ToolCallResult
  | .response res => present res
  | .originEscape message => errorResult message
  | .timedOut => errorResult (utf16 s!"upstream request timed out after {timeoutMs}ms")
  | .failed message => errorResult (utf16 "upstream request failed: " ++ message)

/-- The call after `n` turns of its loop. A `TemplateError` is a result, any other exception rejects. -/
def executeCustomTool (present : HttpResponse R → ToolCallResult) (upstream : List HttpRequest → Option (Fetched R))
    (input : ExecuteCustomToolInput) (n : Nat) : Execution :=
  match firstHop host input with
  | .error (.template message) => ⟨[], some (.ok (errorResult message))⟩
  | .error error => ⟨[], some (.error error)⟩
  | .ok (expanded, first) =>
    let dialogue := (fetchWithPinnedOrigin host expanded.origin).run upstream first n
    match dialogue.now with
    | .inl ended => ⟨dialogue.sent, some (.ok (conclude present expanded.timeoutMs ended))⟩
    | .inr _ => ⟨dialogue.sent, none⟩

end CustomExecutor

end CommandSuite
