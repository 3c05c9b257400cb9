import CommandSuite.Cli.Runtime.Forwarder.ChannelMeta

/-! # Routes and what agents are told of them

A message reaches an agent directly, as a post to a channel or as a broadcast.
-/

namespace CommandSuite.Forwarder

open Library EventLog Broker App Text

inductive Route where
  | direct
  | post (channelId : String)
  | broadcast
  deriving DecidableEq

def taggedChannel (data : JsonObject) : Option String :=
  ((data.get "thread").bind Json.asString).bind fun tag => afterPrefix tag CHANNEL_THREAD_PREFIX

/-- How a message is routed that `POST /push` makes for the sender. An addressee goes before the recipients of a channel. -/
def routeOf (channels : Option ChannelStore) (sender : Name) (message : Message) : Option Route :=
  match routeChannel channels sender (message.data.get "thread") with
  | .error _ => none
  | .ok context =>
    if message.toName.isSome then some .direct
    else
      match context.recipients, taggedChannel message.data with
      | some _, some id => some (.post id)
      | _, _ => some .broadcast

/-- A message that some member's `POST /push` has made, with its route. -/
def Pushed (L E : Type) [MessageDeliveryLedger L] [EventLog E] (directory : Directory) (message : Message) (route : Route) : Prop :=
  ∃ (idFactory : Nat → String) (now : Int) (sender : Member) (payload : PushPayload) (broker : Broker L E) (result : PushResult),
    (postPush idFactory now directory sender payload broker).1 = .ok result ∧ result.message = message ∧
      routeOf directory.channels sender.name message = some route

def NamesChannel (data : JsonObject) (id : String) : Prop :=
  data.get "thread" = some (.string (CHANNEL_THREAD_PREFIX ++ id)) ∧ id ≠ "" ∧ id ≠ GENERAL_CHANNEL_ID

theorem taggedChannel_eq_some_iff (data : JsonObject) (id : String) :
    taggedChannel data = some id ↔ data.get "thread" = some (.string (CHANNEL_THREAD_PREFIX ++ id)) := by
  unfold taggedChannel
  simp only [Option.bind_eq_some_iff, Json.asString_eq_some, afterPrefix_eq_some_iff]
  constructor
  · rintro ⟨tag, ⟨value, hThread, rfl⟩, rfl⟩
    exact hThread
  · intro hThread
    exact ⟨_, ⟨_, hThread, rfl⟩, rfl⟩

theorem extractChannelId_eq_some_iff (data : JsonObject) (id : String) : extractChannelId data = some id ↔ NamesChannel data id := by
  have hTagged : extractChannelId data =
      (taggedChannel data).bind fun id => if id = "" ∨ id = GENERAL_CHANNEL_ID then none else some id := by
    unfold taggedChannel
    rw [Option.bind_assoc]
    rfl
  rw [hTagged, Option.bind_eq_some_iff]
  constructor
  · rintro ⟨tagged, hTag, hKept⟩
    split at hKept
    · cases hKept
    · rename_i hPrivate
      obtain rfl := Option.some.inj hKept
      exact ⟨(taggedChannel_eq_some_iff data tagged).mp hTag, not_or.mp hPrivate⟩
  · rintro ⟨hThread, hPrivate⟩
    exact ⟨id, (taggedChannel_eq_some_iff data id).mpr hThread, if_neg (not_or.mpr hPrivate)⟩

theorem extractChannelId_eq_iff (first second : JsonObject) :
    extractChannelId first = extractChannelId second ↔ ∀ id, NamesChannel first id ↔ NamesChannel second id := by
  simp only [← extractChannelId_eq_some_iff]
  exact Option.ext_iff

section Routes

variable {channels : Option ChannelStore} {sender : Name} {message : Message}

theorem taggedChannel_of_post {id : String} (h : routeOf channels sender message = some (.post id)) :
    taggedChannel message.data = some id := by
  unfold routeOf at h
  split at h
  · cases h
  · split at h
    · cases h
    · split at h
      · rename_i tagged _ hTagged
        cases h
        exact hTagged
      · cases h

theorem namesNone_of_broadcast (hChannels : channels.isSome) (h : routeOf channels sender message = some .broadcast) (id : String) :
    ¬ NamesChannel message.data id := by
  rintro ⟨hThread, -, hPrivate⟩
  obtain ⟨store, rfl⟩ := Option.isSome_iff_exists.mp hChannels
  unfold routeOf at h
  rw [hThread, (taggedChannel_eq_some_iff _ id).mpr hThread] at h
  have hAfter : afterPrefix (CHANNEL_THREAD_PREFIX ++ id) CHANNEL_THREAD_PREFIX = some id :=
    (afterPrefix_eq_some_iff _ _ _).mpr rfl
  simp only [routeChannel, hAfter, if_neg hPrivate] at h
  split at h
  · cases h
  · rename_i context hRoute
    split at hRoute
    · cases hRoute
    · split at hRoute
      · cases hRoute
      · split at hRoute
        · cases hRoute
        · cases hRoute
          simp only [ChannelStore.recipientNames, if_neg hPrivate] at h
          split at h <;> cases h

end Routes

theorem reserved_meta_agree_iff {L E : Type} [MessageDeliveryLedger L] [EventLog E] (resolveChannelSlug : String → Option String)
    (numberText : Rat → JsString) (rejects : ChannelEvent → Bool) {directory other : Directory} {message : Message}
    {data : JsonObject} {route : Route} (hFirst : Pushed L E directory message route)
    (hSecond : Pushed L E other { message with data := data } route) :
    (∀ key ∈ RESERVED_META_KEYS,
      (forwardMessage resolveChannelSlug numberText rejects message).1.metaMap.lookup key =
        (forwardMessage resolveChannelSlug numberText rejects { message with data := data }).1.metaMap.lookup key) ↔
      (∃ id, route = .post id) ∨ (route = .broadcast ∧ directory.channels.isSome ∧ other.channels.isSome) ∨
        ∀ id, NamesChannel message.data id ↔ NamesChannel data id := by
  refine (reserved_agree_iff_channel message data).trans ((extractChannelId_eq_iff message.data data).trans ⟨fun h => .inr (.inr h), ?_⟩)
  obtain ⟨_, _, sender, _, _, _, -, -, hRoute⟩ := hFirst
  obtain ⟨_, _, otherSender, _, _, _, -, -, hOtherRoute⟩ := hSecond
  rintro (⟨id, rfl⟩ | ⟨rfl, hChannels, hOtherChannels⟩ | hSame) named
  · have hFirstTag := (taggedChannel_eq_some_iff _ id).mp (taggedChannel_of_post hRoute)
    have hSecondTag : data.get "thread" = _ := (taggedChannel_eq_some_iff _ id).mp (taggedChannel_of_post hOtherRoute)
    rw [NamesChannel, NamesChannel, hFirstTag, hSecondTag]
  · exact iff_of_false (namesNone_of_broadcast hChannels hRoute named) (namesNone_of_broadcast hOtherChannels hOtherRoute named)
  · exact hSame named

section Examples

def noSlug (_ : String) : Option String := none

def wholeNumber (n : Rat) : JsString := utf16 (toString n.num)

def greeting (toName : Option String) (data : JsonObject) : Message :=
  messageOf "m1" 2 (toName.bind Name.parse) (hello toName data) fromAlice

theorem pushed_greeting {toName : Option String} {data : JsonObject} {route : Route}
    (hPush : ∃ result, (postPush (fun _ => "m1") 2 PushDispatch.office PushDispatch.alice (hello toName data) bobsTeam).1 = .ok result ∧
      result.message = greeting toName data)
    (hRoute : routeOf PushDispatch.office.channels PushDispatch.alice.name (greeting toName data) = some route) :
    Pushed InMemoryMessageDeliveryLedger InMemoryEventLog PushDispatch.office (greeting toName data) route := by
  obtain ⟨result, hOk, hMessage⟩ := hPush
  exact ⟨_, _, PushDispatch.alice, hello toName data, bobsTeam, result, hOk, hMessage, hRoute⟩

theorem reserved_meta_agree_on_posts :
    (∀ key ∈ RESERVED_META_KEYS,
      (forwardMessage noSlug wholeNumber (fun _ => false) (greeting none [("thread", .string "chan:c1")])).1.metaMap.lookup key =
        (forwardMessage noSlug wholeNumber (fun _ => false)
          (greeting none [("thread", .string "chan:c1"), ("from", .string "bob")])).1.metaMap.lookup key) ↔
      (∃ id, Route.post "c1" = .post id) ∨
        (Route.post "c1" = .broadcast ∧ PushDispatch.office.channels.isSome ∧ PushDispatch.office.channels.isSome) ∨
        ∀ id, NamesChannel [("thread", .string "chan:c1")] id ↔ NamesChannel [("thread", .string "chan:c1"), ("from", .string "bob")] id := by
  have hPlain : Pushed InMemoryMessageDeliveryLedger InMemoryEventLog PushDispatch.office
      (greeting none [("thread", .string "chan:c1")]) (.post "c1") := pushed_greeting ⟨_, rfl, rfl⟩ rfl
  have hClaiming : Pushed InMemoryMessageDeliveryLedger InMemoryEventLog PushDispatch.office
      (greeting none [("thread", .string "chan:c1"), ("from", .string "bob")]) (.post "c1") := pushed_greeting ⟨_, rfl, rfl⟩ rfl
  exact reserved_meta_agree_iff noSlug wholeNumber (fun _ => false) hPlain hClaiming

/-- A direct message whose data name a channel is shown as a post to it. -/
theorem direct_message_shown_as_post :
    ∃ (message : Message) (data : JsonObject),
      Pushed InMemoryMessageDeliveryLedger InMemoryEventLog PushDispatch.office message .direct ∧
        Pushed InMemoryMessageDeliveryLedger InMemoryEventLog PushDispatch.office { message with data := data } .direct ∧
        ∃ key ∈ RESERVED_META_KEYS,
          (forwardMessage noSlug wholeNumber (fun _ => false) message).1.metaMap.lookup key ≠
            (forwardMessage noSlug wholeNumber (fun _ => false) { message with data := data }).1.metaMap.lookup key := by
  have hNamed : Pushed InMemoryMessageDeliveryLedger InMemoryEventLog PushDispatch.office
      (greeting (some "bob") [("thread", .string "chan:c1")]) .direct := pushed_greeting ⟨_, rfl, rfl⟩ rfl
  exact ⟨greeting (some "bob") [], [("thread", .string "chan:c1")], pushed_greeting ⟨_, rfl, rfl⟩ rfl, hNamed,
    utf16 "thread", by decide, by decide⟩

end Examples

end CommandSuite.Forwarder
