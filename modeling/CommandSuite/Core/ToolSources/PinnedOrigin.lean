import CommandSuite.Core.ToolSources.CustomExecutor
import CommandSuite.Library.Fallible

/-! # The pinned origin

Whatever the arguments of a call are and whatever the upstream answers, no request leaves the origin of the binding,
and a call sends a bounded number of them.
-/

namespace CommandSuite.CustomExecutor

open Library Library.Fallible Template Text Client

section Origins

variable (host : TemplateHost)

def originOf (url : JsString) : Option JsString := (host.parseUrl url none).map Url.origin

/-- The serialization of a URL that was parsed is read again as one of the same origin. -/
def Reparses : Prop := ∀ text base url, host.parseUrl text base = some url → originOf host url.href = some url.origin

end Origins

variable {host : TemplateHost} {R : Type}

/-! ## Templates -/

theorem staticOriginOf_of_validated {credentialHeaderName : Option JsString} {binding : CustomToolBinding}
    (h : validateBinding host credentialHeaderName binding = .ok ()) : ∃ origin, staticOriginOf host binding.urlTemplate = .ok origin := by
  obtain ⟨_, hUrl, -⟩ := bind_eq_ok.mp h
  obtain ⟨_, -, hUrl⟩ := bind_eq_ok.mp hUrl
  obtain ⟨origin, hOrigin, -⟩ := bind_eq_ok.mp hUrl
  exact ⟨origin, hOrigin⟩

theorem expandUrl_origin (hReparse : Reparses host) {args : List (JsString × JsValue)} {urlTemplate url origin : JsString}
    (h : expandUrl host args urlTemplate = .ok (url, origin)) :
    staticOriginOf host urlTemplate = .ok origin ∧ originOf host url = some origin := by
  obtain ⟨staticOrigin, hStatic, h⟩ := bind_eq_ok.mp h
  obtain ⟨expanded, -, h⟩ := bind_eq_ok.mp h
  split at h
  · cases h
  · rename_i finalUrl hParsed
    split at h
    · cases h
    · rename_i hOrigin
      obtain ⟨rfl, rfl⟩ := Prod.mk.inj (Except.ok.inj h)
      exact ⟨hStatic, (hReparse _ _ _ hParsed).trans (congrArg some (not_not.mp hOrigin))⟩

theorem firstHop_origin (hReparse : Reparses host) {input : ExecuteCustomToolInput} {expanded : ExpandedRequest} {first : Hop}
    (h : firstHop host input = .ok (expanded, first)) :
    staticOriginOf host input.binding.urlTemplate = .ok expanded.origin ∧
      originOf host first.request.url = some expanded.origin ∧ first.hop = 0 := by
  obtain ⟨_, hExpanded, h⟩ := bind_eq_ok.mp h
  obtain ⟨_, -, h⟩ := bind_eq_ok.mp h
  obtain ⟨rfl, rfl⟩ := Prod.mk.inj (Except.ok.inj h)
  obtain ⟨⟨url, origin⟩, hUrl, hExpanded⟩ := bind_eq_ok.mp hExpanded
  obtain ⟨_, -, hExpanded⟩ := bind_eq_ok.mp hExpanded
  obtain ⟨_, -, hExpanded⟩ := bind_eq_ok.mp hExpanded
  obtain rfl := Except.ok.inj hExpanded
  obtain ⟨hStatic, hOrigin⟩ := expandUrl_origin hReparse hUrl
  exact ⟨hStatic, hOrigin, rfl⟩

/-! ## The loop -/

variable {origin : JsString} {hop next : Hop}

theorem redirected_url (request : HttpRequest) (status : Nat) (url : JsString) : (redirected request status url).url = url := by
  unfold redirected
  split <;> rfl

theorem follow_cases {res : HttpResponse R} (h : follow host origin hop res = .inr next) :
    ∃ location url, host.parseUrl location (some hop.request.url) = some url ∧ url.origin = origin ∧
      next.request.url = url.href ∧ hop.hop < MAX_REDIRECTS ∧ next.hop = hop.hop + 1 := by
  unfold follow at h
  split at h
  · cases h
  · split at h
    · cases h
    · rename_i location _
      split at h
      · cases h
      · rename_i hHop
        split at h
        · cases h
        · rename_i url hParsed
          split at h
          · cases h
          · rename_i hOrigin
            obtain rfl := Sum.inr.inj h
            exact ⟨location, url, hParsed, not_not.mp hOrigin, redirected_url _ _ _, not_le.mp hHop, rfl⟩

variable {answer : Fetched R}

theorem turn_cases (h : (fetchWithPinnedOrigin host origin).turn hop answer = .inr next) :
    ∃ res, answer = .response res ∧ follow host origin hop res = .inr next := by
  cases answer with
  | response res => exact ⟨res, rfl, h⟩
  | timedOut => cases h
  | failed message => cases h

theorem turn_origin (hReparse : Reparses host)
    (h : (fetchWithPinnedOrigin host origin).turn hop answer = .inr next) : originOf host next.request.url = some origin := by
  obtain ⟨res, -, hFollow⟩ := turn_cases h
  obtain ⟨location, url, hParsed, hOrigin, hUrl, -⟩ := follow_cases hFollow
  rw [hUrl, hReparse _ _ _ hParsed, hOrigin]

theorem turn_rank (h : (fetchWithPinnedOrigin host origin).turn hop answer = .inr next) :
    MAX_REDIRECTS - next.hop < MAX_REDIRECTS - hop.hop := by
  obtain ⟨res, -, hFollow⟩ := turn_cases h
  obtain ⟨_, _, -, -, -, hFewer, hNext⟩ := follow_cases hFollow
  omega

/-! ## The call -/

section Call

variable (present : HttpResponse R → ToolCallResult) (upstream : List HttpRequest → Option (Fetched R)) (input : ExecuteCustomToolInput)

variable (host) in
theorem executeCustomTool_cases :
    (∀ n, (executeCustomTool host present upstream input n).issued = [] ∧
        (executeCustomTool host present upstream input n).settled.isSome = true) ∨
      ∃ expanded first, firstHop host input = .ok (expanded, first) ∧ ∀ n,
        let dialogue := (fetchWithPinnedOrigin host expanded.origin).run upstream first n
        (executeCustomTool host present upstream input n).issued = dialogue.sent ∧
          ((executeCustomTool host present upstream input n).settled.isSome = true ↔ ∃ ended, dialogue.now = .inl ended) := by
  cases hFirst : firstHop host input with
  | error error =>
    refine .inl fun n => ?_
    cases error <;> simp [executeCustomTool, hFirst]
  | ok hop =>
    obtain ⟨expanded, first⟩ := hop
    refine .inr ⟨expanded, first, rfl, fun n => ?_⟩
    simp only [executeCustomTool, hFirst]
    cases hNow : ((fetchWithPinnedOrigin host expanded.origin).run upstream first n).now <;> simp

/-- Every request of a call goes to the origin of its binding, there are at most six, and the call settles when its
fetches do. -/
theorem stays_on_pinned_origin (hReparse : Reparses host) (credentialHeaderName : Option JsString)
    (hValid : validateBinding host credentialHeaderName input.binding = .ok ()) (n : Nat) :
    ∃ origin, staticOriginOf host input.binding.urlTemplate = .ok origin ∧
      (∀ request ∈ (executeCustomTool host present upstream input n).issued, originOf host request.url = some origin) ∧
      (executeCustomTool host present upstream input n).issued.length ≤ 6 ∧
      ((∀ n, (executeCustomTool host present upstream input n).issued ≠ [] →
          (upstream (executeCustomTool host present upstream input n).issued).isSome = true) →
        6 ≤ n → (executeCustomTool host present upstream input n).settled.isSome = true) := by
  obtain ⟨origin, hStatic⟩ := staticOriginOf_of_validated hValid
  refine ⟨origin, hStatic, ?_⟩
  obtain hNothing | ⟨expanded, first, hFirst, hRuns⟩ := executeCustomTool_cases host present upstream input
  · obtain ⟨hIssued, hSettled⟩ := hNothing n
    rw [hIssued]
    exact ⟨fun _ hRequest => absurd hRequest List.not_mem_nil, Nat.zero_le 6, fun _ _ => hSettled⟩
  · obtain ⟨hPinned, hOrigin, hHop⟩ := firstHop_origin hReparse hFirst
    obtain rfl : expanded.origin = origin := Except.ok.inj (hPinned.symm.trans hStatic)
    obtain ⟨hIssued, hSettled⟩ := hRuns n
    have hRank : ∀ hop (answer : Fetched R) next, (fetchWithPinnedOrigin host expanded.origin).turn hop answer = .inr next →
        MAX_REDIRECTS - next.hop < MAX_REDIRECTS - hop.hop := fun _ _ _ => turn_rank
    have hFirstRank : MAX_REDIRECTS - first.hop = 5 := by rw [hHop]; rfl
    refine ⟨fun request hRequest => ?_, ?_, fun hFetches hn => hSettled.mpr ?_⟩
    · rw [hIssued] at hRequest
      obtain ⟨hop, hHopOrigin, rfl⟩ := (sent_of_invariant (I := fun hop => originOf host hop.request.url = some expanded.origin)
        hOrigin (fun _ _ _ _ => turn_origin hReparse) n).1 request hRequest
      exact hHopOrigin
    · rw [hIssued]
      have hLength := length_sent_le upstream hRank first n
      omega
    · refine ends hRank (fun m => ?_) (by omega)
      have hAnswers := hFetches m
      rw [(hRuns m).1] at hAnswers
      exact hAnswers (sent_ne_nil _ _)

end Call

/-! ## One upstream -/

namespace OneUpstream

def apiOrigin : JsString := utf16 "https://api.test"

def apiUrl (path : JsString) : Url := ⟨apiOrigin ++ path, apiOrigin, utf16 "https:", utf16 "api.test"⟩

def parseUrl (text : JsString) (base : Option JsString) : Option Url :=
  if text = apiOrigin then some (apiUrl (utf16 "/"))
  else if (apiOrigin ++ utf16 "/").isPrefixOf text then some (apiUrl (text.drop apiOrigin.length))
  else if base.isSome && (utf16 "/").isPrefixOf text && !(utf16 "//").isPrefixOf text then some (apiUrl text)
  else none

def apiHost : TemplateHost where
  parseUrl := parseUrl
  numberText n := utf16 (toString n.num)
  toLowerCase := Headers.asciiLower

theorem parseUrl_slash (path : JsString) : parseUrl (apiOrigin ++ (47 :: path)) none = some (apiUrl (47 :: path)) := by
  have hOther : apiOrigin ++ (47 :: path) ≠ apiOrigin := by simp
  have hPrefix : (apiOrigin ++ utf16 "/").isPrefixOf (apiOrigin ++ (47 :: path)) = true := by
    rw [List.isPrefixOf_iff_prefix]
    exact ⟨path, List.append_assoc _ _ _⟩
  rw [parseUrl, if_neg hOther, if_pos hPrefix, List.drop_left]

theorem parseUrl_eq {text : JsString} {base : Option JsString} {url : Url} (h : parseUrl text base = some url) :
    ∃ path, url = apiUrl (47 :: path) := by
  unfold parseUrl at h
  split at h
  · exact ⟨[], (Option.some.inj h).symm⟩
  · split at h
    · rename_i hPrefix
      obtain ⟨path, rfl⟩ := List.isPrefixOf_iff_prefix.mp hPrefix
      rw [List.append_assoc, List.drop_left] at h
      exact ⟨path, (Option.some.inj h).symm⟩
    · split at h
      · rename_i hRelative
        simp only [Bool.and_eq_true] at hRelative
        obtain ⟨path, rfl⟩ := List.isPrefixOf_iff_prefix.mp hRelative.1.2
        exact ⟨path, (Option.some.inj h).symm⟩
      · cases h

theorem reparses : Reparses apiHost := by
  intro text base url hParsed
  obtain ⟨path, rfl⟩ := parseUrl_eq hParsed
  exact congrArg (Option.map Url.origin) (parseUrl_slash path)

def input : ExecuteCustomToolInput where
  binding :=
    { method := .get
      urlTemplate := utf16 "https://api.test/\x7b\x7bargs.q\x7d\x7d"
      headers := []
      bodyTemplate := none
      contentType := none
      resultPath := none
      timeoutMs := none }
  credential := some (.header (some (utf16 "X-API-Key")) (utf16 "secret"))
  args := [(utf16 "q", .string (utf16 "a b"))]

def upstream (sent : List HttpRequest) : Option (Fetched Unit) :=
  if sent.length = 1 then some (.response ⟨302, some (utf16 "/next"), ()⟩) else some (.response ⟨200, none, ()⟩)

example : ((executeCustomTool apiHost (fun _ => ⟨[], false⟩) upstream input 6).issued.map HttpRequest.url) =
    [utf16 "https://api.test/a%20b", utf16 "https://api.test/next"] := by decide

end OneUpstream

open OneUpstream in
theorem redirect_stays_on_origin :
    ∃ origin, staticOriginOf apiHost input.binding.urlTemplate = .ok origin ∧
      (∀ request ∈ (executeCustomTool apiHost (fun _ => ⟨[], false⟩) upstream input 6).issued,
        originOf apiHost request.url = some origin) ∧
      (executeCustomTool apiHost (fun _ => ⟨[], false⟩) upstream input 6).issued.length ≤ 6 ∧
      ((∀ n, (executeCustomTool apiHost (fun _ => ⟨[], false⟩) upstream input n).issued ≠ [] →
          (upstream (executeCustomTool apiHost (fun _ => ⟨[], false⟩) upstream input n).issued).isSome = true) →
        6 ≤ 6 → (executeCustomTool apiHost (fun _ => ⟨[], false⟩) upstream input 6).settled.isSome = true) :=
  stays_on_pinned_origin (fun _ => ⟨[], false⟩) upstream input reparses none (by rfl) 6

end CommandSuite.CustomExecutor
