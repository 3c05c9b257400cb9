import CommandSuite.Library.PercentEncoding
import Mathlib.Data.List.TakeWhile

/-! # Routes and URLs

`packages/web-ui/src/lib/routes.ts`: the view that a pathname names, and the pathname of a view. A pathname may carry the
team it is for.
-/

namespace CommandSuite.Routes

open Library Text

inductive ProfileTab where
  | overview | activity | objectives | files | manage
  deriving DecidableEq

def ProfileTab.text : ProfileTab → String
  | .overview => "overview"
  | .activity => "activity"
  | .objectives => "objectives"
  | .files => "files"
  | .manage => "manage"

def PROFILE_TABS : List ProfileTab := [.overview, .activity, .objectives, .files, .manage]

inductive Kind where
  | home
  | inbox
  | account
  | threadChannel (slug : String)
  | threadDm (name : String)
  | channelsBrowse
  | channelCreate
  | objectivesList
  | objectiveCreate
  | objectiveDetail (id : String)
  | members
  | memberProfile (name : String) (tab : ProfileTab)
  | toolSources
  | toolSourceDetail (slug : String)
  | environment
  | secretDetail (slug : String)
  | variableDetail (slug : String)
  | notifications
  | notificationDetail (slug : String)
  | files (path : String)
  deriving DecidableEq

structure Route where
  kind : Kind
  team : Option String
  deriving DecidableEq

def unreserved (c : Char) : Bool := c.isAlphanum || "-_.!~*'()".toList.contains c

def encodeURIComponent (text : String) : String := PercentEncoding.encode unreserved text

def safeDecode (segment : String) : String := (PercentEncoding.decode segment).getD segment

def isProfileTab (value : String) : Option ProfileTab := PROFILE_TABS.find? fun tab => tab.text = value

def trimSlashes (pathname : String) : String :=
  String.ofList ((pathname.toList.dropWhile (· = '/')).reverse.dropWhile (· = '/')).reverse

def nonEmpty (parts : List String) : List String := parts.filter fun part => part ≠ ""

def filesPath (segments : List String) : String := if segments = [] then "" else "/" ++ join '/' segments

/-- A segment that begins with `@` names a member. -/
def profileOf (head : String) (rest : List String) : Kind :=
  match head.toList, rest with
  | '@' :: c :: name, [] => .memberProfile (String.ofList (c :: name)) .overview
  | '@' :: c :: name, [tabSegment] =>
    match isProfileTab tabSegment with
    | some tab => .memberProfile (String.ofList (c :: name)) tab
    | none => .home
  | _, _ => .home

def withParameter (kind : String → Kind) (parameter : String) : Kind := if parameter = "" then .home else kind parameter

def listOr (list : Kind) (detail : String → Kind) : List String → Kind
  | [] => list
  | [parameter] => detail parameter
  | _ => .home

def kindOf (head : String) (rest : List String) : Kind :=
  if head = "inbox" then listOr .inbox (fun _ => .home) rest
  else if head = "account" then listOr .account (fun _ => .home) rest
  else if head = "c" then listOr .home (withParameter .threadChannel) rest
  else if head = "channels" then listOr .channelsBrowse (fun action => if action = "new" then .channelCreate else .home) rest
  else if head = "dm" then listOr .home (withParameter .threadDm) rest
  else if head = "objectives" then
    listOr .objectivesList (fun id => if id = "new" then .objectiveCreate else withParameter .objectiveDetail id) rest
  else if head = "members" then listOr .members (fun _ => .home) rest
  else if head = "tools" then listOr .toolSources (withParameter .toolSourceDetail) rest
  else if head = "environment" then
    match rest with
    | [] => .environment
    | [store, slug] =>
      if store = "secrets" then withParameter .secretDetail slug
      else if store = "variables" then withParameter .variableDetail slug
      else .home
    | _ => .home
  else if head = "notifications" then listOr .notifications (withParameter .notificationDetail) rest
  else if head = "files" then .files (filesPath (nonEmpty rest))
  else profileOf head rest

def segmentsOf (pathname : String) : Option String × List String :=
  if trimSlashes pathname = "" then (none, [])
  else
    match (split '/' (trimSlashes pathname)).map safeDecode with
    | first :: team :: parts => if first = "t" ∧ team ≠ "" then (some team, parts) else (none, first :: team :: parts)
    | parts => (none, parts)

def parseRoute (pathname : String) : Route :=
  match segmentsOf pathname with
  | (team, []) => ⟨.home, team⟩
  | (team, head :: rest) => ⟨kindOf head rest, team⟩

def baseFor : Kind → String
  | .home => "/"
  | .inbox => "/inbox"
  | .account => "/account"
  | .threadChannel slug => "/c/" ++ encodeURIComponent slug
  | .threadDm name => "/dm/" ++ encodeURIComponent name
  | .channelsBrowse => "/channels"
  | .channelCreate => "/channels/new"
  | .objectivesList => "/objectives"
  | .objectiveCreate => "/objectives/new"
  | .objectiveDetail id => "/objectives/" ++ encodeURIComponent id
  | .members => "/members"
  | .toolSources => "/tools"
  | .toolSourceDetail slug => "/tools/" ++ encodeURIComponent slug
  | .environment => "/environment"
  | .secretDetail slug => "/environment/secrets/" ++ encodeURIComponent slug
  | .variableDetail slug => "/environment/variables/" ++ encodeURIComponent slug
  | .notifications => "/notifications"
  | .notificationDetail slug => "/notifications/" ++ encodeURIComponent slug
  | .memberProfile name tab =>
    if tab = .overview then "/@" ++ encodeURIComponent name else "/@" ++ encodeURIComponent name ++ "/" ++ tab.text
  | .files path =>
    if path = "" ∨ path = "/" then "/files"
    else "/files/" ++ join '/' ((nonEmpty (split '/' path)).map encodeURIComponent)

def formatRoute (route : Route) : String :=
  match route.team with
  | none => baseFor route.kind
  | some team =>
    if baseFor route.kind = "/" then "/t/" ++ encodeURIComponent team
    else "/t/" ++ encodeURIComponent team ++ baseFor route.kind

def routesEqual (a b : Route) : Bool := formatRoute a = formatRoute b

/-! ## What is asked of it -/

def Segments (segments : List String) : Prop := ∀ segment ∈ segments, segment ≠ "" ∧ '/' ∉ segment.toList

/-- The parameters of a view are not empty, and an objective is not called `new`. -/
def Kind.Sound : Kind → Prop
  | .threadChannel slug | .threadDm slug | .toolSourceDetail slug | .secretDetail slug | .variableDetail slug
  | .notificationDetail slug | .memberProfile slug _ => slug ≠ ""
  | .objectiveDetail id => id ≠ "" ∧ id ≠ "new"
  | _ => True

def Kind.Tidy : Kind → Prop
  | .files path => ∃ segments, Segments segments ∧ path = filesPath segments
  | _ => True

structure Route.Sound (route : Route) : Prop where
  kind : route.kind.Sound
  team : route.team ≠ some ""

/-- Behind `files` no segment hides an empty one: none begins or ends with a slash that was escaped, or has two in a row. -/
def Unambiguous (pathname : String) : Prop :=
  ∀ rest, (segmentsOf pathname).2 = "files" :: rest → ∀ segment ∈ nonEmpty rest, "" ∉ split '/' segment

/-! ## Segments -/

theorem slash_not_mem_encode (text : String) : '/' ∉ (encodeURIComponent text).toList := by
  intro hMem
  rcases PercentEncoding.mem_encode hMem with hLeft | hPercent | ⟨digit, hDigit, hSame⟩
  · exact absurd hLeft (by decide)
  · exact absurd hPercent (by decide)
  · have hAll : ∀ digit : Fin 16, '/' ≠ PercentEncoding.hexDigit digit := by decide
    exact hAll ⟨digit, hDigit⟩ hSame

theorem encode_ne_empty {text : String} (h : text ≠ "") : encodeURIComponent text ≠ "" :=
  fun hEmpty => h ((PercentEncoding.encode_eq_empty_iff (by decide)).mp hEmpty)

theorem safeDecode_encode (text : String) : safeDecode (encodeURIComponent text) = text := by
  rw [safeDecode, encodeURIComponent, PercentEncoding.decode_encode (by decide), Option.getD_some]

theorem safeDecode_profile (name : String) : safeDecode ("@" ++ encodeURIComponent name) = "@" ++ name := by
  rw [safeDecode, encodeURIComponent, PercentEncoding.decode_append_encode (by decide) (by decide), Option.getD_some]

theorem safeDecode_plain {text : String} (h : '%' ∉ text.toList) : safeDecode text = text := by
  rw [safeDecode, PercentEncoding.decode_plain h, Option.getD_some]

theorem trimSlashes_eq {text slashes : List Char} (hHead : ∀ c ∈ text.head?, c ≠ '/') (hLast : ∀ c ∈ text.getLast?, c ≠ '/')
    (hSlashes : ∀ c ∈ slashes, c = '/') : trimSlashes (String.ofList ('/' :: (text ++ slashes))) = String.ofList text := by
  unfold trimSlashes
  rw [String.toList_ofList, List.dropWhile_cons_of_pos (by decide)]
  cases text with
  | nil =>
    have hNone : slashes.dropWhile (· = '/') = [] := List.dropWhile_eq_nil_iff.mpr fun c hC => decide_eq_true (hSlashes c hC)
    rw [List.nil_append, hNone]
    rfl
  | cons c text =>
    rw [List.cons_append, List.dropWhile_cons_of_neg (by simpa using hHead c rfl), ← List.cons_append, List.reverse_append,
      List.dropWhile_append_of_pos fun c hC => decide_eq_true (hSlashes c (List.mem_reverse.mp hC))]
    have hStart : ∀ d ∈ (c :: text).reverse.head?, d ≠ '/' := by
      rw [List.head?_reverse]
      exact hLast
    cases hReverse : (c :: text).reverse with
    | nil => cases List.reverse_eq_nil_iff.mp hReverse
    | cons d rest =>
      rw [hReverse] at hStart
      rw [List.dropWhile_cons_of_neg (by simpa using hStart d rfl), ← hReverse, List.reverse_reverse]

theorem join_eq_empty_iff {segments : List String} (h : Segments segments) : join '/' segments = "" ↔ segments = [] := by
  constructor
  · intro hEmpty
    cases segments with
    | nil => rfl
    | cons segment rest =>
      have hSplit := split_join '/' (fun part hPart => (h part hPart).2) (List.cons_ne_nil segment rest)
      rw [hEmpty, split_of_not_mem '/' List.not_mem_nil] at hSplit
      exact absurd (List.cons.inj hSplit).1.symm (h segment List.mem_cons_self).1
  · rintro rfl
    rfl

theorem toList_ne_nil {text : String} (h : text ≠ "") : text.toList ≠ [] := fun hNil => h (String.toList_inj.mp hNil)

theorem join_ends {segments : List String} (h : Segments segments) :
    (∀ c ∈ (join '/' segments).toList.head?, c ≠ '/') ∧ ∀ c ∈ (join '/' segments).toList.getLast?, c ≠ '/' := by
  induction segments with
  | nil => exact ⟨fun _ hC => (nomatch hC), fun _ hC => (nomatch hC)⟩
  | cons segment rest ih =>
    obtain ⟨⟨hSome, hSlash⟩, hRest⟩ := List.forall_mem_cons.mp h
    have hEach : ∀ c ∈ segment.toList, c ≠ '/' := fun c hC hSame => hSlash (hSame ▸ hC)
    cases rest with
    | nil =>
      rw [join_singleton]
      exact ⟨fun c hC => hEach c (List.mem_of_mem_head? hC), fun c hC => hEach c (List.mem_of_mem_getLast? hC)⟩
    | cons next rest =>
      have hLater : join '/' (next :: rest) ≠ "" := fun hEmpty => List.cons_ne_nil _ _ ((join_eq_empty_iff hRest).mp hEmpty)
      rw [join_cons_cons, String.toList_append, String.toList_append]
      constructor
      · rw [List.head?_append_of_ne_nil _ (toList_ne_nil hSome)]
        exact fun c hC => hEach c (List.mem_of_mem_head? hC)
      · rw [List.getLast?_append_of_ne_nil _ (List.append_ne_nil_of_right_ne_nil _ (toList_ne_nil hLater)),
          List.getLast?_append_of_ne_nil _ (toList_ne_nil hLater)]
        exact (ih hRest).2

theorem segments_of_path {segments : List String} (h : Segments segments) {pathname : String}
    (hPath : pathname = "/" ++ join '/' segments ∨ pathname = "/" ++ join '/' segments ++ "/") :
    trimSlashes pathname = join '/' segments := by
  obtain ⟨hHead, hLast⟩ := join_ends h
  have hTrim : ∀ slashes : List Char, (∀ c ∈ slashes, c = '/') →
      trimSlashes (String.ofList ('/' :: ((join '/' segments).toList ++ slashes))) = join '/' segments := by
    intro slashes hSlashes
    rw [trimSlashes_eq hHead hLast hSlashes, String.ofList_toList]
  rcases hPath with hPath | hPath
  · have hText : pathname = String.ofList ('/' :: ((join '/' segments).toList ++ [])) := by
      rw [hPath, ← String.toList_inj]
      simp
    rw [hText, hTrim [] fun _ hC => nomatch hC]
  · have hText : pathname = String.ofList ('/' :: ((join '/' segments).toList ++ ['/'])) := by
      rw [hPath, ← String.toList_inj]
      simp
    rw [hText, hTrim ['/'] fun c hC => List.mem_singleton.mp hC]

/-! ## The pathname of a view -/

def Kind.segments : Kind → List String
  | .home => []
  | .inbox => ["inbox"]
  | .account => ["account"]
  | .threadChannel slug => ["c", encodeURIComponent slug]
  | .threadDm name => ["dm", encodeURIComponent name]
  | .channelsBrowse => ["channels"]
  | .channelCreate => ["channels", "new"]
  | .objectivesList => ["objectives"]
  | .objectiveCreate => ["objectives", "new"]
  | .objectiveDetail id => ["objectives", encodeURIComponent id]
  | .members => ["members"]
  | .toolSources => ["tools"]
  | .toolSourceDetail slug => ["tools", encodeURIComponent slug]
  | .environment => ["environment"]
  | .secretDetail slug => ["environment", "secrets", encodeURIComponent slug]
  | .variableDetail slug => ["environment", "variables", encodeURIComponent slug]
  | .notifications => ["notifications"]
  | .notificationDetail slug => ["notifications", encodeURIComponent slug]
  | .memberProfile name tab =>
    if tab = .overview then ["@" ++ encodeURIComponent name] else ["@" ++ encodeURIComponent name, tab.text]
  | .files path => "files" :: (nonEmpty (split '/' path)).map encodeURIComponent

def Kind.normal : Kind → Kind
  | .files path => .files (filesPath (nonEmpty (split '/' path)))
  | kind => kind

theorem segments_encode {texts : List String} (h : ∀ text ∈ texts, text ≠ "") : Segments (texts.map encodeURIComponent) := by
  intro segment hSegment
  obtain ⟨text, hText, rfl⟩ := List.mem_map.mp hSegment
  exact ⟨encode_ne_empty (h text hText), slash_not_mem_encode text⟩

theorem nonEmpty_ne_empty {parts : List String} {part : String} (h : part ∈ nonEmpty parts) : part ≠ "" := by
  simpa using (List.mem_filter.mp h).2

theorem segments_profile (name : String) : "@" ++ encodeURIComponent name ≠ "" ∧ '/' ∉ ("@" ++ encodeURIComponent name).toList := by
  constructor
  · intro hEmpty
    have hChars := congrArg String.toList hEmpty
    rw [String.toList_append] at hChars
    cases hChars
  · rw [String.toList_append, List.mem_append, not_or]
    exact ⟨by decide, slash_not_mem_encode name⟩

theorem segments_tab (tab : ProfileTab) : tab.text ≠ "" ∧ '/' ∉ tab.text.toList := by
  cases tab <;> decide

theorem Kind.Sound.segments {kind : Kind} (h : kind.Sound) : Segments kind.segments := by
  have hPlain : ∀ words : List String, (words.all fun word => word ≠ "" && !word.toList.contains '/') = true → Segments words := by
    intro words hWords word hWord
    simpa using List.all_eq_true.mp hWords word hWord
  have hParameter : ∀ (words : List String) {parameter : String}, (words.all fun word => word ≠ "" && !word.toList.contains '/') = true →
      parameter ≠ "" → Segments (words ++ [encodeURIComponent parameter]) := by
    intro words parameter hWords hSome segment hSegment
    rcases List.mem_append.mp hSegment with hWord | hLast
    · exact hPlain words hWords segment hWord
    · rw [List.mem_singleton.mp hLast]
      exact ⟨encode_ne_empty hSome, slash_not_mem_encode parameter⟩
  cases kind with
  | threadChannel slug => exact hParameter ["c"] (by decide) h
  | threadDm name => exact hParameter ["dm"] (by decide) h
  | objectiveDetail id => exact hParameter ["objectives"] (by decide) h.1
  | toolSourceDetail slug => exact hParameter ["tools"] (by decide) h
  | secretDetail slug => exact hParameter ["environment", "secrets"] (by decide) h
  | variableDetail slug => exact hParameter ["environment", "variables"] (by decide) h
  | notificationDetail slug => exact hParameter ["notifications"] (by decide) h
  | memberProfile name tab =>
    rw [Kind.segments]
    split
    · exact List.forall_mem_cons.mpr ⟨segments_profile name, fun _ hNone => nomatch hNone⟩
    · exact List.forall_mem_cons.mpr ⟨segments_profile name, List.forall_mem_cons.mpr ⟨segments_tab tab, fun _ hNone => nomatch hNone⟩⟩
  | files path =>
    exact List.forall_mem_cons.mpr ⟨by decide, segments_encode fun part hPart => nonEmpty_ne_empty hPart⟩
  | _ => exact hPlain _ (by decide)

theorem path_of_word {text word : String} (h : text = "/" ++ word ++ "/") (parameter : String) :
    text ++ parameter = "/" ++ join '/' [word, parameter] := by
  rw [h, join_cons_cons, join_singleton, String.append_assoc, String.append_assoc]
  rfl

theorem path_of_words {text first second : String} (h : text = "/" ++ first ++ "/" ++ second ++ "/") (parameter : String) :
    text ++ parameter = "/" ++ join '/' [first, second, parameter] := by
  rw [h, join_cons_cons, join_cons_cons, join_singleton]
  simp only [String.append_assoc]
  rfl

theorem baseFor_eq (kind : Kind) : baseFor kind = "/" ++ join '/' kind.segments ∨
    baseFor kind = "/" ++ join '/' kind.segments ++ "/" := by
  cases kind with
  | threadChannel slug | threadDm slug | objectiveDetail slug | toolSourceDetail slug | notificationDetail slug =>
    exact .inl (path_of_word (by simp) _)
  | secretDetail slug | variableDetail slug => exact .inl (path_of_words (by simp) _)
  | memberProfile name tab =>
    left
    have hBase : baseFor (.memberProfile name tab) =
        if tab = .overview then "/@" ++ encodeURIComponent name else "/@" ++ encodeURIComponent name ++ "/" ++ tab.text := rfl
    rw [hBase, Kind.segments]
    split
    · rw [join_singleton, ← String.append_assoc]
      rfl
    · rw [join_cons_cons, join_singleton]
      simp only [← String.append_assoc]
      rfl
  | files path =>
    have hBase : baseFor (.files path) = if path = "" ∨ path = "/" then "/files"
        else "/files/" ++ join '/' ((nonEmpty (split '/' path)).map encodeURIComponent) := rfl
    rw [hBase, Kind.segments]
    split
    · rename_i hRoot
      have hNone : nonEmpty (split '/' path) = [] := by
        rcases hRoot with rfl | rfl <;> decide
      rw [hNone]
      exact .inl (by decide)
    · cases (nonEmpty (split '/' path)).map encodeURIComponent with
      | nil => exact .inr (by decide)
      | cons part parts =>
        left
        rw [join_cons_cons]
        simp only [← String.append_assoc]
        rfl
  | _ => exact .inl (by decide)

theorem baseFor_eq_slash_iff {kind : Kind} (h : kind.Sound) : baseFor kind = "/" ↔ kind.segments = [] := by
  constructor
  · intro hSlash
    rcases baseFor_eq kind with hBase | hBase
    · rw [hSlash] at hBase
      have hLength := congrArg String.length hBase
      refine (join_eq_empty_iff h.segments).mp (String.length_eq_zero_iff.mp ?_)
      rw [String.length_append] at hLength
      exact (Nat.add_left_cancel (m := 0) hLength).symm
    · rw [hSlash] at hBase
      have hLength := congrArg String.length hBase
      rw [String.length_append, String.length_append] at hLength
      change 1 = 1 + _ + 1 at hLength
      omega
  · intro hNone
    cases kind with
    | home => rfl
    | memberProfile name tab =>
      rw [Kind.segments] at hNone
      split at hNone <;> cases hNone
    | _ => cases hNone

theorem at_ne {name word : String} (h : word.toList.head? ≠ some '@') : "@" ++ name ≠ word := by
  rintro rfl
  exact h (by rw [String.toList_append]; rfl)

theorem kindOf_profile (name : String) (rest : List String) : kindOf ("@" ++ name) rest = profileOf ("@" ++ name) rest := by
  unfold kindOf
  rw [if_neg (at_ne (by decide)), if_neg (at_ne (by decide)), if_neg (at_ne (by decide)), if_neg (at_ne (by decide)),
    if_neg (at_ne (by decide)), if_neg (at_ne (by decide)), if_neg (at_ne (by decide)), if_neg (at_ne (by decide)),
    if_neg (at_ne (by decide)), if_neg (at_ne (by decide)), if_neg (at_ne (by decide))]

theorem profileOf_at {name : String} (h : name ≠ "") :
    profileOf ("@" ++ name) [] = .memberProfile name .overview ∧
      ∀ tab : ProfileTab, profileOf ("@" ++ name) [tab.text] = .memberProfile name tab := by
  have hChars : ("@" ++ name).toList = '@' :: name.toList := String.toList_append
  cases hName : name.toList with
  | nil => exact absurd hName (toList_ne_nil h)
  | cons c chars =>
    have hSame : String.ofList (c :: chars) = name := by rw [← hName, String.ofList_toList]
    unfold profileOf
    rw [hChars, hName]
    constructor
    · exact congrArg (Kind.memberProfile · .overview) hSame
    · intro tab
      cases tab <;> exact congrArg (Kind.memberProfile · _) hSame

theorem map_safeDecode_encode (texts : List String) : (texts.map encodeURIComponent).map safeDecode = texts := by
  induction texts with
  | nil => rfl
  | cons text texts ih => rw [List.map_cons, List.map_cons, safeDecode_encode, ih]

theorem nonEmpty_nonEmpty (parts : List String) : nonEmpty (nonEmpty parts) = nonEmpty parts :=
  List.filter_eq_self.mpr fun _ hPart => decide_eq_true (nonEmpty_ne_empty hPart)

theorem kindOf_segments {kind : Kind} (h : kind.Sound) {head : String} {rest : List String} (hSegments : kind.segments = head :: rest) :
    kindOf (safeDecode head) (rest.map safeDecode) = kind.normal ∧ safeDecode head ≠ "t" := by
  cases kind with
  | home => cases hSegments
  | threadChannel slug | threadDm slug | toolSourceDetail slug | notificationDetail slug =>
    cases hSegments
    rw [safeDecode_plain (by decide), List.map_singleton, safeDecode_encode]
    refine ⟨?_, by simp⟩
    simp only [Kind.Sound] at h
    simp [kindOf, listOr, withParameter, h, Kind.normal]
  | objectiveDetail id =>
    cases hSegments
    rw [safeDecode_plain (by decide), List.map_singleton, safeDecode_encode]
    refine ⟨?_, by simp⟩
    simp only [Kind.Sound] at h
    simp [kindOf, listOr, withParameter, h, Kind.normal]
  | secretDetail slug | variableDetail slug =>
    cases hSegments
    rw [safeDecode_plain (by decide), List.map_cons, List.map_singleton, safeDecode_plain (by decide), safeDecode_encode]
    refine ⟨?_, by simp⟩
    simp only [Kind.Sound] at h
    simp [kindOf, withParameter, h, Kind.normal]
  | memberProfile name tab =>
    rw [Kind.segments] at hSegments
    split at hSegments <;> cases hSegments <;> rw [safeDecode_profile]
    · rename_i hTab
      rw [hTab, List.map_nil, kindOf_profile]
      exact ⟨(profileOf_at h).1, at_ne (by decide)⟩
    · rw [List.map_singleton, safeDecode_plain (show '%' ∉ tab.text.toList by cases tab <;> decide), kindOf_profile]
      exact ⟨(profileOf_at h).2 tab, at_ne (by decide)⟩
  | files path =>
    cases hSegments
    rw [safeDecode_plain (by decide), map_safeDecode_encode]
    refine ⟨?_, by simp⟩
    simp [kindOf, Kind.normal, nonEmpty_nonEmpty]
  | channelCreate | objectiveCreate =>
    cases hSegments
    rw [safeDecode_plain (by decide), List.map_singleton, safeDecode_plain (by decide)]
    refine ⟨?_, by simp⟩
    simp [kindOf, listOr, Kind.normal]
  | _ =>
    cases hSegments
    rw [safeDecode_plain (by decide), List.map_nil]
    refine ⟨?_, by simp⟩
    simp [kindOf, listOr, Kind.normal]

theorem formatRoute_team {kind : Kind} (h : kind.Sound) (team : String) :
    formatRoute ⟨kind, some team⟩ = "/" ++ join '/' ("t" :: encodeURIComponent team :: kind.segments) ∨
      formatRoute ⟨kind, some team⟩ = "/" ++ join '/' ("t" :: encodeURIComponent team :: kind.segments) ++ "/" := by
  have hFormat : formatRoute ⟨kind, some team⟩ =
      if baseFor kind = "/" then "/t/" ++ encodeURIComponent team else "/t/" ++ encodeURIComponent team ++ baseFor kind := rfl
  rw [hFormat]
  by_cases hNone : kind.segments = []
  · rw [if_pos ((baseFor_eq_slash_iff h).mpr hNone), hNone]
    exact .inl (path_of_word (by simp) _)
  · rw [if_neg fun hBase => hNone ((baseFor_eq_slash_iff h).mp hBase)]
    have hJoin : "/" ++ join '/' ("t" :: encodeURIComponent team :: kind.segments) =
        "/t/" ++ encodeURIComponent team ++ ("/" ++ join '/' kind.segments) := by
      have hAppend := join_append '/' (List.cons_ne_nil "t" [encodeURIComponent team]) hNone
      rw [join_cons_cons, join_singleton] at hAppend
      refine (congrArg ("/" ++ ·) hAppend).trans ?_
      simp only [← String.append_assoc]
      rfl
    rw [hJoin]
    rcases baseFor_eq kind with hBase | hBase
    · exact .inl (by rw [hBase])
    · exact .inr (by rw [hBase, ← String.append_assoc])

theorem segmentsOf_formatRoute {route : Route} (h : route.Sound) :
    segmentsOf (formatRoute route) = (route.team, route.kind.segments.map safeDecode) := by
  obtain ⟨kind, team⟩ := route
  obtain ⟨hKind, hTeam⟩ := h
  dsimp only at hKind hTeam ⊢
  cases team with
  | none =>
    have hTrim := segments_of_path hKind.segments (baseFor_eq kind)
    change segmentsOf (baseFor kind) = _
    unfold segmentsOf
    rw [hTrim]
    cases hSegments : kind.segments with
    | nil => rfl
    | cons head rest =>
      have hSegmentsAre := hKind.segments
      rw [hSegments] at hSegmentsAre
      have hHead := (kindOf_segments hKind hSegments).2
      rw [if_neg fun hEmpty => List.cons_ne_nil _ _ ((join_eq_empty_iff hSegmentsAre).mp hEmpty),
        split_join '/' (fun part hPart => (hSegmentsAre part hPart).2) (List.cons_ne_nil _ _)]
      cases rest with
      | nil => rfl
      | cons next rest => exact if_neg fun hTeam => hHead hTeam.1
  | some team =>
    have hSome : team ≠ "" := fun hEmpty => hTeam (congrArg some hEmpty)
    have hAll : Segments ("t" :: encodeURIComponent team :: kind.segments) :=
      List.forall_mem_cons.mpr ⟨by decide, List.forall_mem_cons.mpr ⟨⟨encode_ne_empty hSome, slash_not_mem_encode team⟩, hKind.segments⟩⟩
    have hPath := formatRoute_team hKind team
    unfold segmentsOf
    rw [segments_of_path hAll hPath, if_neg fun hEmpty => List.cons_ne_nil _ _ ((join_eq_empty_iff hAll).mp hEmpty),
      split_join '/' (fun part hPart => (hAll part hPart).2) (List.cons_ne_nil _ _), List.map_cons, List.map_cons,
      safeDecode_plain (show '%' ∉ "t".toList by decide), safeDecode_encode]
    exact if_pos ⟨rfl, hSome⟩

theorem parse_format {route : Route} (h : route.Sound) : parseRoute (formatRoute route) = ⟨route.kind.normal, route.team⟩ := by
  unfold parseRoute
  rw [segmentsOf_formatRoute h]
  cases hSegments : route.kind.segments with
  | nil =>
    cases hKind : route.kind with
    | home => rfl
    | memberProfile name tab =>
      rw [hKind, Kind.segments] at hSegments
      split at hSegments <;> cases hSegments
    | _ =>
      rw [hKind] at hSegments
      cases hSegments
  | cons head rest => exact congrArg (Route.mk · route.team) (kindOf_segments h.kind hSegments).1

/-! ## The view of a pathname -/

def Kind.Plain (kind : Kind) : Prop := kind.Sound ∧ kind.normal = kind

theorem plain_ite {condition : Prop} [Decidable condition] {kind other : Kind} (h : condition → kind.Plain)
    (hNot : ¬ condition → other.Plain) : (if condition then kind else other).Plain := by
  split
  · rename_i hCondition
    exact h hCondition
  · rename_i hCondition
    exact hNot hCondition

theorem plain_withParameter {kind : String → Kind} (h : ∀ parameter, parameter ≠ "" → (kind parameter).Plain) (parameter : String) :
    (withParameter kind parameter).Plain :=
  plain_ite (fun _ => ⟨trivial, rfl⟩) fun hSome => h parameter hSome

theorem plain_listOr {list : Kind} {detail : String → Kind} (hList : list.Plain) (hDetail : ∀ parameter, (detail parameter).Plain)
    (rest : List String) : (listOr list detail rest).Plain := by
  unfold listOr
  split
  · exact hList
  · exact hDetail _
  · exact ⟨trivial, rfl⟩

theorem plain_profileOf (head : String) (rest : List String) : (profileOf head rest).Plain := by
  have hName : ∀ (c : Char) (name : List Char), String.ofList (c :: name) ≠ "" := by
    intro c name hEmpty
    cases String.ofList_injective hEmpty
  unfold profileOf
  split
  · exact ⟨hName _ _, rfl⟩
  · split
    · exact ⟨hName _ _, rfl⟩
    · exact ⟨trivial, rfl⟩
  · exact ⟨trivial, rfl⟩

theorem plain_kindOf {head : String} (hFiles : head ≠ "files") (rest : List String) : (kindOf head rest).Plain := by
  have hHome : Kind.home.Plain := ⟨trivial, rfl⟩
  have hChannels : Kind.channelsBrowse.Plain := ⟨trivial, rfl⟩
  have hCreate : Kind.channelCreate.Plain := ⟨trivial, rfl⟩
  have hObjectives : Kind.objectivesList.Plain := ⟨trivial, rfl⟩
  have hCreateObjective : Kind.objectiveCreate.Plain := ⟨trivial, rfl⟩
  have hAlone : ∀ list : Kind, list.Plain → (listOr list (fun _ => .home) rest).Plain :=
    fun list hList => plain_listOr hList (fun _ => hHome) rest
  have hDetail : ∀ (list : Kind) (detail : String → Kind), list.Plain → (∀ parameter, parameter ≠ "" → (detail parameter).Plain) →
      (listOr list (withParameter detail) rest).Plain :=
    fun list detail hList hDetail => plain_listOr hList (plain_withParameter hDetail) rest
  unfold kindOf
  refine plain_ite (fun _ => hAlone .inbox ⟨trivial, rfl⟩) fun _ => ?_
  refine plain_ite (fun _ => hAlone .account ⟨trivial, rfl⟩) fun _ => ?_
  refine plain_ite (fun _ => hDetail .home .threadChannel hHome fun _ hSome => ⟨hSome, rfl⟩) fun _ => ?_
  refine plain_ite (fun _ => plain_listOr hChannels (fun action => ?_) rest) fun _ => ?_
  · exact plain_ite (fun _ => hCreate) fun _ => hHome
  refine plain_ite (fun _ => hDetail .home .threadDm hHome fun _ hSome => ⟨hSome, rfl⟩) fun _ => ?_
  refine plain_ite (fun _ => plain_listOr hObjectives (fun id => ?_) rest) fun _ => ?_
  · exact plain_ite (fun _ => hCreateObjective) fun hNew => plain_ite (fun _ => hHome) fun hSome => ⟨⟨hSome, hNew⟩, rfl⟩
  refine plain_ite (fun _ => hAlone .members ⟨trivial, rfl⟩) fun _ => ?_
  refine plain_ite (fun _ => hDetail .toolSources .toolSourceDetail ⟨trivial, rfl⟩ fun _ hSome => ⟨hSome, rfl⟩) fun _ => ?_
  refine plain_ite (fun _ => ?_) fun _ => ?_
  · split
    · exact ⟨trivial, rfl⟩
    · rename_i slug
      refine plain_ite (fun _ => ?_) fun _ => plain_ite (fun _ => ?_) fun _ => hHome
      · exact plain_ite (fun _ => hHome) fun hSome => ⟨hSome, rfl⟩
      · exact plain_ite (fun _ => hHome) fun hSome => ⟨hSome, rfl⟩
    · exact hHome
  refine plain_ite (fun _ => hDetail .notifications .notificationDetail ⟨trivial, rfl⟩ fun _ hSome => ⟨hSome, rfl⟩) fun _ => ?_
  exact plain_ite (fun hFile => absurd hFile hFiles) fun _ => plain_profileOf head rest

theorem kindOf_files (rest : List String) : kindOf "files" rest = .files (filesPath (nonEmpty rest)) := by
  simp [kindOf]

theorem sound_kindOf (head : String) (rest : List String) : (kindOf head rest).Sound := by
  by_cases hFiles : head = "files"
  · rw [hFiles, kindOf_files]
    trivial
  · exact (plain_kindOf hFiles rest).1

theorem team_segmentsOf (pathname : String) : (segmentsOf pathname).1 ≠ some "" := by
  unfold segmentsOf
  split
  · exact fun hSome => nomatch hSome
  · split
    · split
      · rename_i hTeam
        exact fun hSome => hTeam.2 (Option.some.inj hSome)
      · exact fun hSome => nomatch hSome
    · exact fun hSome => nomatch hSome

theorem parseRoute_eq (pathname : String) : parseRoute pathname =
    ⟨match (segmentsOf pathname).2 with
      | [] => .home
      | head :: rest => kindOf head rest, (segmentsOf pathname).1⟩ := by
  unfold parseRoute
  rcases segmentsOf pathname with ⟨team, _ | ⟨head, rest⟩⟩ <;> rfl

theorem sound_parseRoute (pathname : String) : (parseRoute pathname).Sound := by
  rw [parseRoute_eq]
  refine ⟨?_, team_segmentsOf pathname⟩
  dsimp only
  split
  · trivial
  · exact sound_kindOf _ _

/-! ## Paths of files -/

theorem mem_split_join {part : String} {segments : List String} (h : segments ≠ []) :
    part ∈ split '/' (join '/' segments) ↔ ∃ segment ∈ segments, part ∈ split '/' segment := by
  induction segments with
  | nil => exact absurd rfl h
  | cons segment rest ih =>
    cases rest with
    | nil => simp
    | cons next rest =>
      rw [join_cons_cons, split_append, List.mem_append, ih (List.cons_ne_nil _ _)]
      simp only [List.exists_mem_cons_iff]

theorem split_ne_nil (text : String) : split '/' text ≠ [] := by
  simp [split]

theorem normal_filesPath_iff (segments : List String) :
    filesPath (nonEmpty (split '/' (filesPath segments))) = filesPath segments ↔
      ∀ segment ∈ segments, "" ∉ split '/' segment := by
  cases segments with
  | nil => exact ⟨fun _ _ hNone => (nomatch hNone), fun _ => by decide⟩
  | cons first rest =>
    have hPath : filesPath (first :: rest) = "/" ++ join '/' (first :: rest) := rfl
    have hParts : nonEmpty (split '/' (filesPath (first :: rest))) = nonEmpty (split '/' (join '/' (first :: rest))) := by
      have hSplit := split_append '/' "" (join '/' (first :: rest))
      rw [String.empty_append] at hSplit
      rw [hPath]
      change nonEmpty (split '/' (String.singleton '/' ++ _)) = _
      rw [hSplit, nonEmpty, List.filter_append]
      rfl
    have hMem : (∀ segment ∈ first :: rest, "" ∉ split '/' segment) ↔ "" ∉ split '/' (join '/' (first :: rest)) := by
      rw [mem_split_join (List.cons_ne_nil first rest)]
      simp only [not_exists, not_and]
    rw [hParts, hMem]
    generalize hText : join '/' (first :: rest) = text
    rw [hText] at hPath
    have hKept : nonEmpty (split '/' text) = split '/' text ↔ "" ∉ split '/' text := by
      unfold nonEmpty
      rw [List.filter_eq_self]
      exact ⟨fun hAll hEmpty => (of_decide_eq_true (hAll "" hEmpty)) rfl,
        fun hNone part hPart => decide_eq_true fun hEmpty => hNone (hEmpty ▸ hPart)⟩
    rw [← hKept, hPath]
    constructor
    · intro hSame
      unfold filesPath at hSame
      split at hSame
      · have hLength := congrArg String.length hSame
        rw [String.length_append] at hLength
        change 0 = 1 + _ at hLength
        omega
      · rename_i hSome
        have hJoin := String.toList_inj.mpr hSame
        rw [String.toList_append, String.toList_append] at hJoin
        have hText := String.toList_inj.mp (List.append_cancel_left hJoin)
        have hSplit := congrArg (split '/') hText
        have hParts : ∀ part ∈ nonEmpty (split '/' text), '/' ∉ part.toList :=
          fun part hPart => not_mem_of_mem_split '/' (List.mem_filter.mp hPart).1
        rwa [split_join '/' hParts hSome] at hSplit
    · intro hSame
      rw [hSame, filesPath, if_neg (split_ne_nil text), join_split]

theorem normal_of_tidy {kind : Kind} (h : kind.Tidy) : kind.normal = kind := by
  cases kind with
  | files path =>
    obtain ⟨segments, hSegments, rfl⟩ := h
    refine congrArg Kind.files ((normal_filesPath_iff segments).mpr fun segment hSegment hEmpty => ?_)
    obtain ⟨hSome, hSlash⟩ := hSegments segment hSegment
    rw [split_of_not_mem '/' hSlash, List.mem_singleton] at hEmpty
    exact hSome hEmpty.symm
  | _ => rfl

theorem normal_kindOf_iff (head : String) (rest : List String) :
    (kindOf head rest).normal = kindOf head rest ↔ (head = "files" → ∀ segment ∈ nonEmpty rest, "" ∉ split '/' segment) := by
  by_cases hFiles : head = "files"
  · subst hFiles
    rw [kindOf_files, ← normal_filesPath_iff]
    exact ⟨fun hSame _ => Kind.files.inj hSame, fun hSame => congrArg Kind.files (hSame rfl)⟩
  · exact iff_of_true (plain_kindOf hFiles rest).2 fun hSame => absurd hSame hFiles

theorem unambiguous_iff (pathname : String) : (parseRoute pathname).kind.normal = (parseRoute pathname).kind ↔ Unambiguous pathname := by
  rw [parseRoute_eq, Unambiguous]
  cases (segmentsOf pathname).2 with
  | nil => exact iff_of_true rfl fun _ hNone => nomatch hNone
  | cons head rest =>
    refine (normal_kindOf_iff head rest).trans ⟨fun h other hSame => ?_, fun h hFiles => ?_⟩
    · cases hSame
      exact h rfl
    · exact h rest (congrArg (· :: rest) hFiles)

/-- A view comes back from its pathname. What a pathname was parsed as comes back exactly when no segment behind `files` hides an
empty one. -/
theorem routes_correspond (route : Route) (pathname : String) :
    (route.Sound → route.kind.Tidy → parseRoute (formatRoute route) = route) ∧
      (parseRoute (formatRoute (parseRoute pathname)) = parseRoute pathname ↔ Unambiguous pathname) := by
  constructor
  · intro hSound hTidy
    rw [parse_format hSound, normal_of_tidy hTidy]
  · rw [parse_format (sound_parseRoute pathname), ← unambiguous_iff]
    generalize parseRoute pathname = route
    exact ⟨fun hSame => congrArg Route.kind hSame, fun hKind => congrArg (Route.mk · route.team) hKind⟩

theorem report_corresponds :
    parseRoute (formatRoute ⟨.files "/q3 report/%2F.md", some "ops"⟩) = ⟨.files "/q3 report/%2F.md", some "ops"⟩ ∧
      Unambiguous "/t/ops/files//q3%20report/%2" := by
  have hSegments : (segmentsOf "/t/ops/files//q3%20report/%2").2 = ["files", "", "q3 report", "%2"] := by decide +kernel
  refine ⟨(routes_correspond ⟨.files "/q3 report/%2F.md", some "ops"⟩ "/").1 ⟨trivial, by decide⟩
    ⟨["q3 report", "%2F.md"], ?_, by decide⟩, fun rest hRest => ?_⟩
  · unfold Segments
    decide
  · rw [hSegments] at hRest
    cases hRest
    decide +kernel

/-- A slash that was escaped becomes a path of files, which is formatted as no path at all. -/
theorem escaped_slash_lost :
    parseRoute "/files/%2F" = ⟨.files "//", none⟩ ∧ formatRoute (parseRoute "/files/%2F") = "/files/" ∧
      parseRoute (formatRoute (parseRoute "/files/%2F")) = ⟨.files "", none⟩ ∧
      parseRoute (formatRoute (parseRoute "/files/%2F")) ≠ parseRoute "/files/%2F" := by
  decide +kernel

end CommandSuite.Routes
