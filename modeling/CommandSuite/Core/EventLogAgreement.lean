import CommandSuite.Core.SqliteEventLog

/-! # The feed in SQL and the feed in TypeScript

`LIKE` ignores the case of the thread prefixes, the TypeScript predicates do not, and the general channel treats an
empty or non-string thread differently.
-/

namespace CommandSuite.SqliteEventLog

open Library EventLog Sql.Truth Sql.Value Sql

variable (json : JsonText)

def scopedPrefixes : List String :=
  [SECRET_THREAD_PREFIX, OBJECTIVE_THREAD_PREFIX, TOOL_THREAD_PREFIX, VARIABLE_THREAD_PREFIX,
    NOTIFICATION_THREAD_PREFIX, CHANNEL_THREAD_PREFIX]

def likePrefix (tag : Option Json) (start : String) : Bool :=
  match tag with
  | some (.string tag) => startsWithFolded tag start
  | _ => false

def exactPrefix (tag : Option Json) (start : String) : Bool :=
  match tag with
  | some (.string tag) => Text.startsWith tag start
  | _ => false

def caseVariant (tag : Option Json) (start : String) : Bool := likePrefix tag start && !exactPrefix tag start

variable {tag : Option Json} {start : String}

theorem likePrefix_of_exact (h : exactPrefix tag start = true) : likePrefix tag start = true := by
  unfold exactPrefix at h
  split at h
  · exact startsWithFolded_of_startsWith h
  · cases h

theorem likePrefix_unique {start other : String} (hStart : start ∈ scopedPrefixes)
    (hOther : other ∈ scopedPrefixes) (h : likePrefix tag start = true) (h' : likePrefix tag other = true) :
    start = other := by
  -- The six prefixes start with six different letters.
  have hLetters : ∀ start ∈ scopedPrefixes, ∀ other ∈ scopedPrefixes,
      (start.toList.map foldCase).head? = (other.toList.map foldCase).head? → start = other := by decide
  have hNonempty : ∀ start ∈ scopedPrefixes, start.toList ≠ [] := by decide
  unfold likePrefix at h h'
  split at h
  · have hHead := head_of_startsWithFolded (hNonempty start hStart) h
    have hHead' := head_of_startsWithFolded (hNonempty other hOther) h'
    exact hLetters start hStart other hOther (hHead.symm.trans hHead')
  · cases h

def isGeneral (tag : Option Json) : Bool :=
  match tag with
  | some (.string tag) => tag = channelThreadTag GENERAL_CHANNEL_ID
  | _ => false

theorem isScopedThreadTag_eq (tag : Option Json) :
    isScopedThreadTag tag = (scopedPrefixes.any (exactPrefix tag) && !isGeneral tag) := by
  unfold isScopedThreadTag
  split
  · rename_i tag
    by_cases hEmpty : tag = ""
    · subst hEmpty
      rfl
    · rw [if_neg hEmpty]
      by_cases hGeneral : tag = channelThreadTag GENERAL_CHANNEL_ID
      · subst hGeneral
        rfl
      · simp only [scopedPrefixes, List.any_cons, List.any_nil, exactPrefix, isGeneral, hGeneral, decide_false]
        grind
  · rename_i hTag
    have hNone : ∀ start, exactPrefix tag start = false := by
      intro start
      unfold exactPrefix
      split
      · exact absurd rfl (hTag _)
      · rfl
    simp [hNone]

theorem isAlpha_of_foldCase {c : Char} (h : (foldCase c).isAlpha = true) : c.isAlpha = true := by
  unfold foldCase Char.toLower at h
  split at h
  · rename_i hUpper
    exact Bool.or_eq_true_iff.mpr (.inl (decide_eq_true hUpper))
  · exact h

theorem not_startsWithFolded_render {value : Json} (h : value.asString = none)
    (hStart : start ∈ scopedPrefixes) : startsWithFolded (json.render value) start = false := by
  have hLetter : ∀ start ∈ scopedPrefixes, start.toList ≠ [] ∧
      ((start.toList.map foldCase).head?.any Char.isAlpha) = true := by decide
  obtain ⟨hNonempty, hAlpha⟩ := hLetter start hStart
  cases hLike : startsWithFolded (json.render value) start with
  | false => rfl
  | true =>
    rw [← head_of_startsWithFolded hNonempty hLike] at hAlpha
    cases hText : (json.render value).toList with
    | nil =>
      rw [hText] at hAlpha
      cases hAlpha
    | cons c rest =>
      rw [hText] at hAlpha
      have hHead := json.head value c rest h hText
      rw [isAlpha_of_foldCase hAlpha] at hHead
      cases hHead

theorem accepts_notLike (data : JsonObject) (property : String) (hStart : start ∈ scopedPrefixes) :
    ((isNull (jsonExtract json data property)).or (notLike json (jsonExtract json data property) (start ++ "%"))).accepts =
      !likePrefix (data.get property) start := by
  have hLiteral : ∀ start ∈ scopedPrefixes, start.toList.all isLiteral = true := by decide
  have hMatch : ∀ text : String,
      matchLike (start.toList ++ ['%']) text.toList = startsWithFolded text start :=
    matchLike_start (hLiteral start hStart)
  have hNumber : ∀ value, startsWithFolded (json.render (.number value)) start = false :=
    fun _ => not_startsWithFolded_render json rfl hStart
  have hArray : ∀ items, startsWithFolded (json.render (.array items)) start = false :=
    fun _ => not_startsWithFolded_render json rfl hStart
  have hObject : ∀ members, startsWithFolded (json.render (.object members)) start = false :=
    fun _ => not_startsWithFolded_render json rfl hStart
  unfold jsonExtract
  cases data.get property with
  | none => rfl
  | some value =>
    cases value with
    | null => rfl
    | bool value => cases value <;> simp [isNull, notLike, like, likeText, likePrefix, hMatch, hNumber]
    | number => simp [isNull, notLike, like, likeText, likePrefix, hMatch, hNumber]
    | string => simp [isNull, notLike, like, likeText, likePrefix, hMatch]
    | array => simp [isNull, notLike, like, likeText, likePrefix, hMatch, hArray]
    | object => simp [isNull, notLike, like, likeText, likePrefix, hMatch, hObject]

theorem render_ne {value : Json} (h : value.asString = none) {word : String}
    (hWord : (word.toList.head?.any Char.isAlpha) = true) : json.render value ≠ word := by
  intro hEqual
  cases hText : word.toList with
  | nil =>
    rw [hText] at hWord
    cases hWord
  | cons c rest =>
    have hHead := json.head value c rest h (hEqual ▸ hText)
    rw [hText] at hWord
    simp [hHead] at hWord

theorem accepts_notIn (data : JsonObject) (property : String) :
    ((isNull (jsonExtract json data property)).or
      (notIn (jsonExtract json data property) ["instructions", "context_control"])).accepts =
      !isScopedKind (data.get property) := by
  unfold jsonExtract
  cases data.get property with
  | none => rfl
  | some value =>
    cases value with
    | null => rfl
    | bool value => cases value <;> rfl
    | number => rfl
    | string text => simp [isNull, notIn, isIn, isScopedKind, SCOPED_UNTHREADED_KINDS]
    | array items =>
      have h : json.render (.array items) ≠ "instructions" := render_ne json rfl (by decide)
      have h' : json.render (.array items) ≠ "context_control" := render_ne json rfl (by decide)
      simp [isNull, notIn, isIn, isScopedKind, h, h']
    | object members =>
      have h : json.render (.object members) ≠ "instructions" := render_ne json rfl (by decide)
      have h' : json.render (.object members) ≠ "context_control" := render_ne json rfl (by decide)
      simp [isNull, notIn, isIn, isScopedKind, h, h']

theorem accepts_eq_text (data : JsonObject) (property : String) {word : String}
    (hWord : (word.toList.head?.any Char.isAlpha) = true) :
    (eq (jsonExtract json data property) (.text word)).accepts = true ↔ data.get property = some (.string word) := by
  unfold jsonExtract
  cases data.get property with
  | none => simp [eq]
  | some value =>
    cases value with
    | null => simp [eq]
    | bool value => cases value <;> simp [eq]
    | number => simp [eq]
    | string text => simp [eq]
    | array items =>
      have h : json.render (.array items) ≠ word := render_ne json rfl hWord
      simp [eq, h]
    | object members =>
      have h : json.render (.object members) ≠ word := render_ne json rfl hWord
      simp [eq, h]

theorem accepts_eq_general (data : JsonObject) (property : String) :
    (eq (jsonExtract json data property) (.text "chan:general")).accepts = isGeneral (data.get property) := by
  rw [Bool.eq_iff_iff, accepts_eq_text json data property (by decide)]
  unfold isGeneral
  split
  · rename_i tag hTag
    rw [hTag, Option.some.injEq, Json.string.injEq]
    exact decide_eq_true_iff.symm
  · rename_i hTag
    simp only [Bool.false_eq_true, iff_false]
    exact fun h => hTag _ h

theorem accepts_eq_name (name : Option String) (viewer : String) :
    (eq (ofOption name) (.text viewer)).accepts = decide (name = some viewer) := by
  cases name <;> simp [ofOption, eq]

theorem accepts_isNull_name (name : Option String) : (isNull (ofOption name)).accepts = decide (name = none) := by
  cases name <;> rfl

theorem accepts_existsRecipient (recipients : Option (List String)) (viewer : String) :
    (existsRecipient recipients viewer).accepts = decide (viewer ∈ recipients.getD []) := by
  simp only [existsRecipient, eq, accepts_some, text.injEq, List.any_eq, decide_eq_true_eq, decide_eq_decide]
  simp

theorem accepts_unscoped (data : JsonObject) :
    ((isNull (jsonExtract json data "thread")).or <|
      (eq (jsonExtract json data "thread") (.text "chan:general")).or <|
      (notLike json (jsonExtract json data "thread") "chan:%").and <|
      (notLike json (jsonExtract json data "thread") "obj:%").and <|
      (notLike json (jsonExtract json data "thread") "tool:%").and <|
      (notLike json (jsonExtract json data "thread") "variable:%").and
        (notLike json (jsonExtract json data "thread") "hook:%")).accepts =
      (isGeneral (data.get "thread") ||
        !(["chan:", "obj:", "tool:", "variable:", "hook:"].any (likePrefix (data.get "thread")))) := by
  have hClause : ∀ start ∈ scopedPrefixes, _ := fun start hStart => accepts_notLike json data "thread" hStart
  have hChan := hClause "chan:" (by decide)
  have hObj := hClause "obj:" (by decide)
  have hTool := hClause "tool:" (by decide)
  have hVariable := hClause "variable:" (by decide)
  have hHook := hClause "hook:" (by decide)
  have hGeneral := accepts_eq_general json data "thread"
  simp only [accepts_or, accepts_and, List.any_cons, List.any_nil, Bool.or_false, Bool.not_or] at *
  rw [← hChan, ← hObj, ← hTool, ← hVariable, ← hHook, ← hGeneral]
  simp only [String.reduceAppend]
  cases (isNull (jsonExtract json data "thread")).accepts <;> simp

theorem accepts_queryFeedStmt (viewer : String) (row : EventRow) :
    (queryFeedStmt json viewer row).accepts =
      ((row.toName = none || row.fromName = some viewer || row.toName = some viewer) &&
        !likePrefix (row.data.get "thread") "secret:" &&
        (row.fromName = some viewer ||
          match row.recipients with
          | some recipients => viewer ∈ recipients
          | none =>
            if row.toName ≠ none then row.toName = some viewer
            else !isScopedKind (row.data.get "kind") &&
              (isGeneral (row.data.get "thread") ||
                !(["chan:", "obj:", "tool:", "variable:", "hook:"].any (likePrefix (row.data.get "thread")))))) := by
  have hSecret := accepts_notLike json row.data "thread" (show "secret:" ∈ scopedPrefixes by decide)
  have hKind := accepts_notIn json row.data "kind"
  have hUnscoped := accepts_unscoped json row.data
  have hAddressed : (isNotNull (ofOption row.toName)).accepts = decide (row.toName ≠ none) := by
    cases row.toName <;> rfl
  have hReduce : "secret:" ++ "%" = "secret:%" := rfl
  rw [hReduce] at hSecret
  unfold queryFeedStmt
  dsimp only
  rw [accepts_and, accepts_and, hSecret, accepts_or, accepts_or, accepts_isNull_name, accepts_eq_name,
    accepts_eq_name, accepts_or, accepts_eq_name, Bool.and_assoc, Bool.or_assoc]
  congr 3
  cases hRecipients : row.recipients with
  | some recipients =>
    have hExists := accepts_existsRecipient (some recipients) viewer
    simpa [caseWhen] using hExists
  | none =>
    simp only [caseWhen, ne_eq, not_true_eq_false, decide_false, accepts_some, Bool.false_eq_true, if_false]
    rw [hAddressed]
    by_cases hTo : row.toName = none
    · simp only [hTo, ne_eq, not_true_eq_false, decide_false, Bool.false_eq_true, if_false]
      rw [accepts_and, hKind, hUnscoped]
    · simp only [hTo, ne_eq, not_false_eq_true, decide_true, if_true]
      exact accepts_eq_name row.toName viewer

theorem caseVariant_iff (tag : Option Json) :
    (∃ start ∈ scopedPrefixes, caseVariant tag start = true) ↔
      scopedPrefixes.any (likePrefix tag) = true ∧ scopedPrefixes.any (exactPrefix tag) = false := by
  simp only [caseVariant, Bool.and_eq_true, Bool.not_eq_true', List.any_eq_true, List.any_eq_false]
  constructor
  · rintro ⟨start, hStart, hLike, hNot⟩
    refine ⟨⟨start, hStart, hLike⟩, ?_⟩
    intro other hOther hExact
    obtain rfl := likePrefix_unique hStart hOther hLike (likePrefix_of_exact hExact)
    rw [hNot] at hExact
    cases hExact
  · rintro ⟨⟨start, hStart, hLike⟩, hNone⟩
    exact ⟨start, hStart, hLike, by simpa using hNone start hStart⟩

theorem isSecretThread_eq (ev : Message) : isSecretThread ev = exactPrefix (threadOf ev) "secret:" := rfl

theorem exact_of_isGeneral {tag : Option Json} (h : isGeneral tag = true) :
    scopedPrefixes.any (exactPrefix tag) = true ∧ likePrefix tag "secret:" = false := by
  unfold isGeneral at h
  split at h
  · have hTag := of_decide_eq_true h
    subst hTag
    decide
  · cases h

theorem exact_secret (hLike : likePrefix tag "secret:" = true)
    (hExact : scopedPrefixes.any (exactPrefix tag) = true) : exactPrefix tag "secret:" = true := by
  obtain ⟨start, hStart, hExact⟩ := List.any_eq_true.mp hExact
  obtain rfl := likePrefix_unique (show "secret:" ∈ scopedPrefixes by decide) hStart hLike (likePrefix_of_exact hExact)
  exact hExact

/-- The secret prefix in another letter case, on a row that is otherwise the viewer's. -/
def MisspeltSecret (event : StoredEvent) (viewer : String) : Prop :=
  caseVariant (threadOf event.message) "secret:" = true ∧
    (event.message.fromName = some viewer ∨
      match event.recipients with
      | some recipients => viewer ∈ recipients ∧ (event.message.toName = none ∨ event.message.toName = some viewer)
      | none => event.message.toName = some viewer)

/-- A scoped prefix in another letter case, on a row without audience, addressee or scoped kind
that somebody else sent. -/
def MisspeltScope (event : StoredEvent) (viewer : String) : Prop :=
  (∃ start ∈ scopedPrefixes, caseVariant (threadOf event.message) start = true) ∧
    event.message.fromName ≠ some viewer ∧ event.recipients = none ∧ event.message.toName = none ∧
      isScopedKind (kindOf event.message) = false

/-- The general channel, and a row to nobody whose tag is there but no string or empty. -/
def UntaggedGeneral (event : StoredEvent) (channelId : String) : Prop :=
  channelId = GENERAL_CHANNEL_ID ∧ event.message.toName = none ∧
    ∃ tag, threadOf event.message = some tag ∧ tag ≠ .null ∧ ∀ text, tag = .string text → text = ""

theorem unscoped_agree_iff : ∀ {likeSecret exactSecret likeOther exactAny general : Bool},
    (exactSecret = true → likeSecret = true) → (exactAny = true → likeSecret = true ∨ likeOther = true) →
    (likeSecret = true → exactAny = true → exactSecret = true) → (exactSecret = true → exactAny = true) →
    (general = true → exactAny = true ∧ likeSecret = false) →
    ((!likeSecret && (general || !likeOther)) = (!exactSecret && !(exactAny && !general)) ↔
      ¬((likeSecret || likeOther) = true ∧ exactAny = false)) := by
  decide

theorem feed_agrees_iff (event : StoredEvent) (viewer : String) :
    (queryFeedStmt json viewer (toRow event.message event.recipients)).accepts =
        feedVisibleTo event.message event.recipients viewer ↔
      ¬MisspeltSecret event viewer ∧ ¬MisspeltScope event viewer := by
  obtain ⟨ev, recipients⟩ := event
  have hExact : exactPrefix (threadOf ev) "secret:" = true → likePrefix (threadOf ev) "secret:" = true := likePrefix_of_exact
  have hSplit : scopedPrefixes.any (likePrefix (threadOf ev)) = (likePrefix (threadOf ev) "secret:" ||
      ["chan:", "obj:", "tool:", "variable:", "hook:"].any (likePrefix (threadOf ev))) := by
    have hSame : ∀ start, start ∈ scopedPrefixes ↔
        start = "secret:" ∨ start ∈ ["chan:", "obj:", "tool:", "variable:", "hook:"] := by
      intro start
      simp only [scopedPrefixes, List.mem_cons, List.not_mem_nil, or_false, SECRET_THREAD_PREFIX,
        OBJECTIVE_THREAD_PREFIX, TOOL_THREAD_PREFIX, VARIABLE_THREAD_PREFIX, NOTIFICATION_THREAD_PREFIX,
        CHANNEL_THREAD_PREFIX]
      tauto
    rw [Bool.eq_iff_iff, Bool.or_eq_true, List.any_eq_true, List.any_eq_true]
    simp only [hSame]
    constructor
    · rintro ⟨start, rfl | hStart, hLike⟩
      · exact .inl hLike
      · exact .inr ⟨start, hStart, hLike⟩
    · rintro (hLike | ⟨start, hStart, hLike⟩)
      · exact ⟨"secret:", .inl rfl, hLike⟩
      · exact ⟨start, .inr hStart, hLike⟩
  rw [accepts_queryFeedStmt, MisspeltScope, caseVariant_iff, hSplit, MisspeltSecret, caseVariant]
  simp only [toRow, feedVisibleTo, isSecretThread_eq, isLegacyScopedEvent, isScopedThreadTag_eq]
  change _ = _ ↔ _
  have hAny : scopedPrefixes.any (exactPrefix (threadOf ev)) = true → likePrefix (threadOf ev) "secret:" = true ∨
      ["chan:", "obj:", "tool:", "variable:", "hook:"].any (likePrefix (threadOf ev)) = true := by
    intro hAny
    rw [← Bool.or_eq_true, ← hSplit]
    obtain ⟨start, hStart, hStartExact⟩ := List.any_eq_true.mp hAny
    exact List.any_eq_true.mpr ⟨start, hStart, likePrefix_of_exact hStartExact⟩
  have hUnscoped := unscoped_agree_iff hExact hAny exact_secret
    (fun hSecret => List.any_eq_true.mpr ⟨"secret:", by decide, hSecret⟩) (@exact_of_isGeneral (threadOf ev))
  have hThread : ev.data.get "thread" = threadOf ev := rfl
  have hKind : ev.data.get "kind" = kindOf ev := rfl
  rw [hThread, hKind]
  generalize likePrefix (threadOf ev) "secret:" = likeSecret at *
  generalize exactPrefix (threadOf ev) "secret:" = exactSecret at *
  generalize ["chan:", "obj:", "tool:", "variable:", "hook:"].any (likePrefix (threadOf ev)) = likeOther at *
  generalize scopedPrefixes.any (exactPrefix (threadOf ev)) = exactAny at *
  generalize isGeneral (threadOf ev) = general at *
  clear hSplit hAny
  by_cases hFrom : ev.fromName = some viewer
  · cases likeSecret <;> cases exactSecret <;> simp_all
  · by_cases hTo : ev.toName = none
    · cases recipients with
      | some recipients =>
        by_cases hMem : viewer ∈ recipients <;> cases likeSecret <;> cases exactSecret <;> simp_all
      | none =>
        cases isScopedKind (kindOf ev) with
        | true => simp [hFrom, hTo]
        | false => simpa [hFrom, hTo] using hUnscoped
    · by_cases hViewer : ev.toName = some viewer
      · cases recipients with
        | some recipients =>
          by_cases hMem : viewer ∈ recipients <;> cases likeSecret <;> cases exactSecret <;> simp_all
        | none => cases likeSecret <;> cases exactSecret <;> simp_all
      · cases recipients <;> simp_all

theorem accepts_isNull_thread (data : JsonObject) (property : String) :
    (isNull (jsonExtract json data property)).accepts = true ↔ data.get property = none ∨ data.get property = some .null := by
  unfold jsonExtract
  cases data.get property with
  | none => simp [isNull]
  | some value => cases value <;> simp [isNull]

theorem channel_agrees_iff (event : StoredEvent) (channelId : String) :
    (channelStatement json channelId (toRow event.message event.recipients)).accepts =
        matchesChannel event.message channelId ↔ ¬UntaggedGeneral event channelId := by
  obtain ⟨ev, recipients⟩ := event
  have hTag : (channelThreadTag channelId).toList.head?.any Char.isAlpha = true := by
    rw [channelThreadTag, String.toList_append]
    rfl
  have hEqual := accepts_eq_text json ev.data "thread" hTag
  have hNull := accepts_isNull_thread json ev.data "thread"
  have hThread : ev.data.get "thread" = threadOf ev := rfl
  have hTagged : channelThreadTag channelId ≠ "" := by
    intro hEmpty
    rw [hEmpty] at hTag
    cases hTag
  rw [hThread] at hEqual hNull
  unfold channelStatement matchesChannel UntaggedGeneral
  dsimp only
  by_cases hGeneral : channelId = GENERAL_CHANNEL_ID
  · have hTo : (isNull (ofOption (toRow ev recipients).toName)).accepts = true ↔ ev.toName = none := by
      rw [accepts_isNull_name, decide_eq_true_iff]
      rfl
    rw [if_pos hGeneral, if_pos hGeneral, queryGeneralStmt, accepts_or, accepts_and, Bool.eq_iff_iff, Bool.or_eq_true,
      Bool.and_eq_true, hTo]
    refine Iff.trans (iff_congr (or_congr hEqual (and_congr_right' hNull)) Iff.rfl) ?_
    simp only [hGeneral, true_and]
    cases hTag : threadOf ev with
    | none => simp
    | some tag =>
      cases tag with
      | null => simp
      | string text =>
        by_cases hEmpty : text = ""
        · subst hEmpty
          simp [hGeneral ▸ hTagged.symm]
        · simp [hEmpty]
      | bool | number | array | object => simp
  · rw [if_neg hGeneral, if_neg hGeneral, queryChannelStmt, Bool.eq_iff_iff]
    simp only [hGeneral, false_and, not_false_eq_true, iff_true]
    refine Iff.trans hEqual ?_
    split
    · rename_i text hText
      by_cases hEmpty : text = ""
      · simp [hText, hEmpty, hTagged.symm]
      · simp [hText, hEmpty]
    · rename_i hNone
      simp only [Bool.false_eq_true, iff_false]
      exact hNone _

/-- The statements and the in-memory predicates accept the same rows. -/
def StatementsAgree (event : StoredEvent) (viewer channelId : String) : Prop :=
  (queryFeedStmt json viewer (toRow event.message event.recipients)).accepts =
      feedVisibleTo event.message event.recipients viewer ∧
    (channelStatement json channelId (toRow event.message event.recipients)).accepts = matchesChannel event.message channelId

theorem statements_agree_iff (event : StoredEvent) (viewer channelId : String) :
    StatementsAgree json event viewer channelId ↔
      ¬MisspeltSecret event viewer ∧ ¬MisspeltScope event viewer ∧ ¬UntaggedGeneral event channelId := by
  rw [StatementsAgree, feed_agrees_iff, channel_agrees_iff, and_assoc]

def brackets : JsonText where
  render _ := "["
  head value c rest _ hText := by
    cases hText
    decide

def shouted : StoredEvent where
  message := ⟨"m1", 1, none, some "alice", none, "hello", .info, [("thread", .string "OBJ:1")], []⟩
  recipients := none

theorem shouted_disagree :
    ¬∀ (json : JsonText) (event : StoredEvent) (viewer channelId : String),
      StatementsAgree json event viewer channelId := by
  intro h
  have hFeed := (h brackets shouted "bob" "general").1
  revert hFeed
  decide

end CommandSuite.SqliteEventLog
