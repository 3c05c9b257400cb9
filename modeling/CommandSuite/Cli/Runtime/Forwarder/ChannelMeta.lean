import CommandSuite.Cli.Runtime.ChannelFormat
import CommandSuite.Cli.Runtime.Forwarder
import CommandSuite.Core.Notifications.Render
import CommandSuite.Core.PushDispatch
import CommandSuite.Library.Utf16

/-! # What an agent is told of a message

`forwardMessage` of `packages/cli/src/runtime/forwarder.ts`: the meta map of a channel event.
-/

namespace CommandSuite.Forwarder

open Library Text Notifications

/-! ## The meta map -/

inductive ThreadType where
  | primary | dm | channel
  deriving DecidableEq

def ThreadType.text : ThreadType → JsString
  | .primary => utf16 "primary"
  | .dm => utf16 "dm"
  | .channel => utf16 "channel"

def levelText : LogLevel → JsString
  | .debug => utf16 "debug"
  | .info => utf16 "info"
  | .notice => utf16 "notice"
  | .warning => utf16 "warning"
  | .error => utf16 "error"
  | .critical => utf16 "critical"

def RESERVED_META_KEYS : List JsString :=
  ["msg_id", "level", "ts", "ts_ms", "thread", "from", "title", "target", "channel", "channel_slug"].map utf16

/-- A time that no calendar day has shows as `NaN`, of which `slice(-2)` leaves two letters. -/
def formatAgentTimestamp (ms : Int) : JsString :=
  if MAX_TIME < ms.natAbs then utf16 "NaN/NaN/aN NaN:NaN:NaN UTC"
  else
    let seconds := ms / 1000
    let (year, month, day) := civil (seconds / 86400)
    let yearText := number year
    pad month ++ 47 :: pad day ++ 47 :: yearText.drop (yearText.length - 2) ++
      32 :: pad (seconds / 3600 % 24) ++ 58 :: pad (seconds / 60 % 60) ++
      58 :: pad (seconds % 60) ++ utf16 " UTC"

def extractChannelId (data : JsonObject) : Option String := do
  let tag ← (data.get "thread").bind Json.asString
  let id ← afterPrefix tag EventLog.CHANNEL_THREAD_PREFIX
  if id = "" ∨ id = EventLog.GENERAL_CHANNEL_ID then none else some id

def sanitizeMetaKey (key : JsString) : JsString :=
  let clean := key.map fun unit => if ChannelFormat.isWord unit then unit else 95
  if clean.head?.any fun unit => 48 ≤ unit && unit ≤ 57 then [] else clean

/-- `meta[key] = value`. A key that is there keeps its place. -/
def setMeta (metaMap : List (JsString × JsString)) (key value : JsString) : List (JsString × JsString) :=
  if key ∈ metaMap.map Prod.fst then metaMap.map fun entry => if entry.1 = key then (key, value) else entry
  else metaMap ++ [(key, value)]

section Meta

variable (resolveChannelSlug : String → Option String) (numberText : Rat → JsString)

def flatText : Json → Option JsString
  | .string value => some (utf16 value)
  | .number value => some (numberText value)
  | .bool value => some (utf16 (toString value))
  | _ => none

/-- What one member of the data does to the map. Setting `__proto__` to a string adds nothing to an object. -/
def addMember (metaMap : List (JsString × JsString)) (member : String × Json) : List (JsString × JsString) :=
  let key := sanitizeMetaKey (utf16 member.1)
  if key = [] ∨ key ∈ RESERVED_META_KEYS ∨ key = utf16 "__proto__" then metaMap
  else ((flatText numberText member.2).map (setMeta metaMap key)).getD metaMap

def stamped (message : Message) (channelId : Option String) : List (JsString × JsString) :=
  let thread : ThreadType := if channelId.isSome then .channel else if message.toName.isNone then .primary else .dm
  [(utf16 "msg_id", utf16 message.id), (utf16 "level", levelText message.level), (utf16 "ts", formatAgentTimestamp message.ts),
    (utf16 "ts_ms", utf16 (toString message.ts)), (utf16 "thread", thread.text)] ++
    (Broker.truthy message.fromName).toList.map (fun name => (utf16 "from", utf16 name)) ++
    (Broker.truthy message.title).toList.map (fun title => (utf16 "title", utf16 title)) ++
    ((Broker.truthy message.toName).filter fun _ => thread = .dm).toList.map (fun name => (utf16 "target", utf16 name)) ++
    channelId.toList.map (fun id => (utf16 "channel", utf16 id)) ++
    (channelId.bind resolveChannelSlug).toList.map fun slug => (utf16 "channel_slug", utf16 slug)

/-- `resolveChannelSlug` gives the slug that is known for a channel, `numberText` is `String(value)` of a number. -/
def metaOf (message : Message) : List (JsString × JsString) :=
  message.data.foldl (addMember numberText) (stamped resolveChannelSlug message (extractChannelId message.data))

end Meta

/-! ## Its keys -/

theorem stamped_keys (resolveChannelSlug : String → Option String) (message : Message) (channelId : Option String) :
    ((stamped resolveChannelSlug message channelId).map Prod.fst).Sublist RESERVED_META_KEYS := by
  have hOption {α : Type} (value : Option α) (key : JsString) (text : α → JsString) :
      ((value.toList.map fun found => (key, text found)).map Prod.fst).Sublist [key] := by
    cases value with
    | none => exact List.nil_sublist _
    | some found => exact List.Sublist.refl _
  unfold stamped
  simp only [List.map_append]
  exact (((((List.Sublist.refl _).append (hOption _ _ _)).append (hOption _ _ _)).append (hOption _ _ _)).append
    (hOption _ _ _)).append (hOption _ _ _)

variable {key : JsString}

theorem identifier_of_sanitize (h : sanitizeMetaKey key ≠ []) : ChannelFormat.isIdentifier (sanitizeMetaKey key) = true := by
  unfold sanitizeMetaKey at h ⊢
  dsimp only at h ⊢
  split at h
  · exact absurd rfl h
  · rename_i hDigit
    rw [if_neg hDigit]
    have hWord : ∀ unit ∈ key.map fun unit => if ChannelFormat.isWord unit then unit else 95, ChannelFormat.isWord unit = true := by
      refine List.forall_mem_map.mpr fun unit _ => ?_
      split
      · assumption
      · rfl
    simp only [ChannelFormat.isIdentifier, Bool.and_eq_true, decide_eq_true_eq, List.all_eq_true, Bool.not_eq_true']
    exact ⟨⟨h, hWord⟩, Bool.eq_false_iff.mpr hDigit⟩

def WellFormed (metaMap : List (JsString × JsString)) : Prop :=
  (metaMap.map Prod.fst).Nodup ∧ ∀ entry ∈ metaMap, ChannelFormat.isIdentifier entry.1 = true

theorem wellFormed_stamped (resolveChannelSlug : String → Option String) (message : Message) (channelId : Option String) :
    WellFormed (stamped resolveChannelSlug message channelId) := by
  have hKeys := stamped_keys resolveChannelSlug message channelId
  have hReserved : RESERVED_META_KEYS.Nodup ∧ ∀ key ∈ RESERVED_META_KEYS, ChannelFormat.isIdentifier key = true := by decide
  exact ⟨hKeys.nodup hReserved.1, fun entry hEntry => hReserved.2 _ (hKeys.subset (List.mem_map_of_mem hEntry))⟩

variable {metaMap : List (JsString × JsString)}

theorem wellFormed_setMeta (h : WellFormed metaMap)
    (hKey : ChannelFormat.isIdentifier key = true) (value : JsString) : WellFormed (setMeta metaMap key value) := by
  unfold setMeta
  split
  · have hSame : (metaMap.map fun entry => if entry.1 = key then (key, value) else entry).map Prod.fst = metaMap.map Prod.fst := by
      rw [List.map_map]
      refine List.map_congr_left fun entry _ => ?_
      simp only [Function.comp_apply]
      split
      · rename_i hEntry
        exact hEntry.symm
      · rfl
    refine ⟨hSame ▸ h.1, fun entry hEntry => ?_⟩
    obtain ⟨before, hBefore, rfl⟩ := List.mem_map.mp hEntry
    split
    · exact hKey
    · exact h.2 before hBefore
  · rename_i hNew
    rw [WellFormed, List.map_append, List.map_singleton, List.nodup_append]
    refine ⟨⟨h.1, List.nodup_singleton _, fun other hOther found hFound hSame => ?_⟩, List.forall_mem_append.mpr ⟨h.2, ?_⟩⟩
    · have hKeyFound : other = key := hSame.trans (List.mem_singleton.mp hFound)
      rw [hKeyFound] at hOther
      exact hNew hOther
    · exact List.forall_mem_singleton.mpr hKey

theorem wellFormed_addMember {numberText : Rat → JsString} (h : WellFormed metaMap)
    (member : String × Json) : WellFormed (addMember numberText metaMap member) := by
  unfold addMember
  dsimp only
  split
  · exact h
  · rename_i hKey
    cases flatText numberText member.2 with
    | none => exact h
    | some text => exact wellFormed_setMeta h (identifier_of_sanitize fun hEmpty => hKey (.inl hEmpty)) text

theorem wellFormed_metaOf (resolveChannelSlug : String → Option String) (numberText : Rat → JsString) (message : Message) :
    WellFormed (metaOf resolveChannelSlug numberText message) :=
  List.foldlRecOn message.data _ (wellFormed_stamped resolveChannelSlug message _) fun _ h member _ => wellFormed_addMember h member

/-! ## The event -/

section Event

variable (resolveChannelSlug : String → Option String) (numberText : Rat → JsString)

def channelEvent (message : Message) : ChannelEvent where
  content := utf16 message.body
  metaMap := metaOf resolveChannelSlug numberText message
  distinct := (wellFormed_metaOf resolveChannelSlug numberText message).1
  identifiers := (wellFormed_metaOf resolveChannelSlug numberText message).2

def forwardMessage (rejects : ChannelEvent → Bool) (message : Message) : ChannelEvent × Option Settlement :=
  let event := channelEvent resolveChannelSlug numberText message
  (event, if rejects event then some ⟨.deferred, some ⟨.turnFailed, "channel sink rejected delivery"⟩⟩ else none)

end Event

/-! ## Reserved keys -/

section Reserved

variable {resolveChannelSlug : String → Option String} {numberText : Rat → JsString}

theorem lookup_setMeta {metaMap : List (JsString × JsString)} {key other : JsString} (h : other ≠ key) (value : JsString) :
    (setMeta metaMap key value).lookup other = metaMap.lookup other := by
  unfold setMeta
  split
  · rename_i hThere
    clear hThere
    induction metaMap with
    | nil => rfl
    | cons entry metaMap ih =>
      rw [List.map_cons, List.lookup_cons, List.lookup_cons, ih]
      by_cases hEntry : entry.1 = key
      · rw [if_pos hEntry, hEntry, beq_eq_false_iff_ne.mpr h]
      · rw [if_neg hEntry]
  · rw [List.lookup_append, List.lookup_singleton, if_neg (by simpa only [beq_iff_eq] using h), Option.or_none]

theorem lookup_addMember (metaMap : List (JsString × JsString)) (member : String × Json) {key : JsString}
    (h : key ∈ RESERVED_META_KEYS) : (addMember numberText metaMap member).lookup key = metaMap.lookup key := by
  unfold addMember
  dsimp only
  split
  · rfl
  · rename_i hOther
    cases flatText numberText member.2 with
    | none => rfl
    | some text =>
      refine lookup_setMeta (fun hSame => hOther (.inr (.inl ?_))) text
      rwa [← hSame]

theorem lookup_metaOf (message : Message) {key : JsString} (h : key ∈ RESERVED_META_KEYS) :
    (metaOf resolveChannelSlug numberText message).lookup key =
      (stamped resolveChannelSlug message (extractChannelId message.data)).lookup key :=
  List.foldlRecOn message.data (addMember numberText)
    (motive := fun metaMap =>
      metaMap.lookup key = (stamped resolveChannelSlug message (extractChannelId message.data)).lookup key) rfl
    fun metaMap hMap member _ => (lookup_addMember metaMap member h).trans hMap

theorem lookup_stamped_channel (message : Message) (channelId : Option String) :
    (stamped resolveChannelSlug message channelId).lookup (utf16 "channel") = channelId.map utf16 := by
  have hOption {α : Type} (value : Option α) (key : JsString) (text : α → JsString) (h : utf16 "channel" ≠ key) :
      (value.toList.map fun found => (key, text found)).lookup (utf16 "channel") = none := by
    cases value with
    | none => rfl
    | some found => rw [Option.toList_some, List.map_singleton, List.lookup_singleton, if_neg (by simpa only [beq_iff_eq] using h)]
  have hStart (id level ts tsMs thread : JsString) : ([(utf16 "msg_id", id), (utf16 "level", level), (utf16 "ts", ts),
      (utf16 "ts_ms", tsMs), (utf16 "thread", thread)] : List (JsString × JsString)).lookup (utf16 "channel") = none := rfl
  unfold stamped
  simp only [List.lookup_append, hStart]
  rw [hOption _ (utf16 "from") _ (by decide), hOption _ (utf16 "title") _ (by decide), hOption _ (utf16 "target") _ (by decide),
    hOption _ (utf16 "channel_slug") _ (by decide)]
  cases channelId with
  | none => rfl
  | some id => rfl

theorem reserved_agree_iff_channel (message : Message) (data : JsonObject) :
    (∀ key ∈ RESERVED_META_KEYS, (metaOf resolveChannelSlug numberText message).lookup key =
      (metaOf resolveChannelSlug numberText { message with data := data }).lookup key) ↔
      extractChannelId message.data = extractChannelId data := by
  constructor
  · intro h
    have hChannel := h (utf16 "channel") (by decide)
    rw [lookup_metaOf _ (by decide), lookup_metaOf _ (by decide), lookup_stamped_channel, lookup_stamped_channel] at hChannel
    exact Option.map_injective Utf16.utf16_injective hChannel
  · intro h key hKey
    rw [lookup_metaOf _ hKey, lookup_metaOf _ hKey, h]
    rfl

end Reserved

end CommandSuite.Forwarder
