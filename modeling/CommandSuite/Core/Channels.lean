import CommandSuite.Core.EventLog
import CommandSuite.Library.Autoincrement
import CommandSuite.Library.FirstOfName
import CommandSuite.Library.Table
import CommandSuite.Library.Transcript
import Mathlib.Data.List.Sort

/-! # The channel store

`packages/core/src/channels.ts`: the tables of channels and of their members, and the questions
that routes ask of them. Everybody is in the general channel without a row.
-/

namespace CommandSuite

open Library EventLog Table

inductive ChannelMemberRole where
  | admin | member
  deriving DecidableEq

structure Channel where
  id : String
  slug : String
  description : String
  createdBy : String
  createdAt : Int
  archivedAt : Option Int

structure ChannelMember where
  channelId : String
  memberName : String
  role : ChannelMemberRole
  joinedAt : Int

abbrev Channel.key (channel : Channel) : String := channel.id

abbrev ChannelMember.key (member : ChannelMember) : String × String := (member.channelId, member.memberName)

structure ChannelStore where
  channels : Table Channel.key
  members : Table ChannelMember.key

namespace ChannelStore

def get (store : ChannelStore) (id : String) : Option Channel := store.channels.find id

/-- Archived channels keep their slug, so there may be several; the first row is returned. -/
def getBySlug (store : ChannelStore) (slug : String) : Option Channel :=
  store.channels.rows.find? fun channel => channel.slug = slug

def isMember (store : ChannelStore) (channelId memberName : String) : Bool :=
  if channelId = GENERAL_CHANNEL_ID then true else (store.members.find (channelId, memberName)).isSome

/-- `CASE role WHEN 'admin' THEN 0 ELSE 1 END, joined_at ASC`. -/
def listsBefore (left right : ChannelMember) : Bool :=
  let rank (member : ChannelMember) : Nat := if member.role = .admin then 0 else 1
  rank left < rank right || rank left = rank right && left.joinedAt ≤ right.joinedAt

def recipientNames (store : ChannelStore) (channelId : String) : Option (List String) :=
  if channelId = GENERAL_CHANNEL_ID then none
  else
    some (((store.members.select fun member => member.channelId = channelId).insertionSort fun left right =>
      listsBefore left right = true).map ChannelMember.memberName)

end ChannelStore

end CommandSuite

/-! ## The calls of the channel store

`SqliteChannelStore` of `packages/core/src/channels.ts`, with the audit of every change. A live channel keeps others
from its slug; an archived one keeps its own, and a look up by slug returns the first row.
-/

namespace CommandSuite

open Library EventLog

inductive ChannelsErrorCode where
  | notFound | invalidInput | slugTaken | forbidden | alreadyMember | notMember | reserved | archived
  deriving DecidableEq

structure ChannelsError where
  code : ChannelsErrorCode
  message : String

inductive ChannelsFailure where
  | channels (error : ChannelsError)
  | constraint
  | vanished

structure ChannelAuditEntry where
  id : Nat
  channelId : String
  actor : String
  action : String
  at' : Int
  details : List (String × Option String)

structure SqliteChannelStore extends ChannelStore where
  audit : Autoincrement ChannelAuditEntry.id

namespace SqliteChannelStore

def GENERAL_CHANNEL_SLUG : String := "general"
def SYSTEM_ACTOR : String := "__system__"
def SLUG_MAX : Nat := 32

/-! ## Slugs -/

def isSlugLetter (c : Char) : Bool := c.isLower || c.isDigit

def slugTail : List Char → Bool
  | [] => false
  | [c] => isSlugLetter c
  | c :: next :: rest => (isSlugLetter c || c = '-' && next ≠ '-') && slugTail (next :: rest)

def slugPattern : List Char → Bool
  | [] => false
  | [c] => isSlugLetter c
  | c :: rest => isSlugLetter c && slugTail rest

def validateSlug (slug : String) : Except ChannelsError Unit :=
  if slug = "" then .error ⟨.invalidInput, "slug is required"⟩
  else if SLUG_MAX < Text.units slug then .error ⟨.invalidInput, s!"slug too long (max {SLUG_MAX})"⟩
  else if slugPattern slug.toList then .ok ()
  else .error ⟨.invalidInput, "slug must be lowercase letters/digits/dashes, no consecutive dashes, no leading/trailing dash"⟩

def quoted (slug : String) : String := "\"" ++ slug ++ "\""

def slugReserved (slug : String) : ChannelsError := ⟨.reserved, "slug " ++ quoted slug ++ " is reserved"⟩

def slugTaken (slug : String) : ChannelsError := ⟨.slugTaken, "a channel called " ++ quoted slug ++ " already exists"⟩

def notFound (id : String) : ChannelsError := ⟨.notFound, s!"channel {id} not found"⟩

/-! ## Statements -/

variable (store : SqliteChannelStore)

abbrev rows : List Channel := store.channels.rows

/-- The channels the partial index `channels_slug_active_idx` has under the slug. -/
def active (slug : String) : List Channel := store.rows.filter fun channel => channel.slug = slug && channel.archivedAt.isNone

def insertChannelStmt (channel : Channel) : Option SqliteChannelStore :=
  if (store.get channel.id).isSome || !(store.active channel.slug).isEmpty then none
  else some { store with channels := store.channels.insertOrIgnore channel }

def updateSlugStmt (slug description id : String) : Option SqliteChannelStore :=
  if (store.active slug).any fun channel => channel.id ≠ id then none
  else
    let write : Channel → Channel := fun channel => { channel with slug := slug, description := description }
    some { store with channels := store.channels.update (fun channel => channel.id = id) write fun _ => rfl }

def archiveStmt (at' : Int) (id : String) : SqliteChannelStore :=
  let write : Channel → Channel := fun channel => { channel with archivedAt := some at' }
  { store with channels := store.channels.update (fun channel => channel.id = id) write fun _ => rfl }

def insertMemberStmt (channelId memberName : String) (role : ChannelMemberRole) (now : Int) : SqliteChannelStore :=
  { store with members := store.members.insertOrIgnore ⟨channelId, memberName, role, now⟩ }

def deleteMemberStmt (channelId memberName : String) : SqliteChannelStore :=
  { store with members := store.members.delete fun member => member.channelId = channelId && member.memberName = memberName }

def insertAuditStmt (channelId actor action : String) (now : Int) (details : List (String × Option String)) : SqliteChannelStore :=
  { store with audit := store.audit.insert (fun id => ⟨id, channelId, actor, action, now, details⟩) fun _ => rfl }

/-! ## Calls -/

/-- The drawn `id` and the clock are arguments. -/
structure CreateChannel where
  slug : String
  description : String
  creator : String
  id : String
  now : Int

structure UpdateChannel where
  slug : Option String
  description : Option String

/-- The checks of `create` before the one for a taken slug. -/
def createGuard (slug : String) : Except ChannelsError Unit :=
  match validateSlug slug with
  | .error error => .error error
  | .ok () => if slug = GENERAL_CHANNEL_SLUG then .error (slugReserved slug) else .ok ()

def create (input : CreateChannel) : SqliteChannelStore × Except ChannelsFailure Channel :=
  match createGuard input.slug with
  | .error error => (store, .error (.channels error))
  | .ok () =>
    if (store.getBySlug input.slug).any fun existing => existing.archivedAt.isNone then
      (store, .error (.channels (slugTaken input.slug)))
    else
      match store.insertChannelStmt ⟨input.id, input.slug, input.description, input.creator, input.now, none⟩ with
      | none => (store, .error .constraint)
      | some inserted =>
        let after := (inserted.insertMemberStmt input.id input.creator .member input.now).insertAuditStmt input.id
          input.creator "create" input.now [("slug", some input.slug), ("description", some input.description)]
        (after, match after.get input.id with
          | none => .error .vanished
          | some created => .ok created)

/-- The checks of `update` before it compares the slugs, and the channel they let through. -/
def updateGuard (id : String) (input : UpdateChannel) : Except ChannelsError Channel :=
  match (input.slug.map validateSlug).getD (.ok ()) with
  | .error error => .error error
  | .ok () =>
    if id = GENERAL_CHANNEL_ID then .error ⟨.reserved, "general cannot be renamed"⟩
    else if input.slug = some GENERAL_CHANNEL_SLUG then .error (slugReserved GENERAL_CHANNEL_SLUG)
    else
      match store.get id with
      | none => .error (notFound id)
      | some channel =>
        if channel.archivedAt.isSome then .error ⟨.archived, "cannot rename an archived channel"⟩ else .ok channel

def auditUpdate (channel : Channel) (slug description actor : String) (now : Int) : SqliteChannelStore :=
  let renamed := if channel.slug = slug then store
    else store.insertAuditStmt channel.id actor "rename" now [("from", some channel.slug), ("to", some slug)]
  if channel.description = description then renamed
  else renamed.insertAuditStmt channel.id actor "description" now [("from", some channel.description), ("to", some description)]

def update (id : String) (input : UpdateChannel) (actor : String) (now : Int) :
    SqliteChannelStore × Except ChannelsFailure (Option Channel) :=
  match store.updateGuard id input with
  | .error error => (store, .error (.channels error))
  | .ok channel =>
    let nextSlug := input.slug.getD channel.slug
    let nextDescription := input.description.getD channel.description
    if channel.slug = nextSlug ∧ channel.description = nextDescription then (store, .ok (some channel))
    else if (store.getBySlug nextSlug).any fun collide => collide.id ≠ id && collide.archivedAt.isNone then
      (store, .error (.channels (slugTaken nextSlug)))
    else
      match store.updateSlugStmt nextSlug nextDescription id with
      | none => (store, .error .constraint)
      | some updated =>
        let after := updated.auditUpdate channel nextSlug nextDescription actor now
        (after, .ok (after.get id))

def rename (id newSlug actor : String) (now : Int) : SqliteChannelStore × Except ChannelsFailure (Option Channel) :=
  store.update id ⟨some newSlug, none⟩ actor now

def archive (id actor : String) (now : Int) : SqliteChannelStore × Except ChannelsFailure (Option Channel) :=
  if id = GENERAL_CHANNEL_ID then (store, .error (.channels ⟨.reserved, "general cannot be archived"⟩))
  else
    match store.get id with
    | none => (store, .error (.channels (notFound id)))
    | some channel =>
      if channel.archivedAt.isSome then (store, .ok (some channel))
      else
        let after := (store.archiveStmt now id).insertAuditStmt id actor "archive" now [("slug", some channel.slug)]
        (after, .ok (after.get id))

def roleOf (channelId memberName : String) : Option ChannelMemberRole :=
  if channelId = GENERAL_CHANNEL_ID then some .member
  else (store.members.find (channelId, memberName)).map ChannelMember.role

def ChannelMemberRole.text : ChannelMemberRole → String
  | .admin => "admin"
  | .member => "member"

def addMember (channelId memberName : String) (role : ChannelMemberRole) (actor : String) (now : Int) :
    SqliteChannelStore × Except ChannelsFailure Unit :=
  if channelId = GENERAL_CHANNEL_ID then (store, .ok ())
  else
    match store.get channelId with
    | none => (store, .error (.channels (notFound channelId)))
    | some channel =>
      if channel.archivedAt.isSome then (store, .error (.channels ⟨.archived, "cannot add members to an archived channel"⟩))
      else
        let prior := store.roleOf channelId memberName
        let freed := if prior.isSome then store.deleteMemberStmt channelId memberName else store
        let after := (freed.insertMemberStmt channelId memberName role now).insertAuditStmt channelId actor
          (if prior.isSome then "member_role" else "member_add") now
          [("member", some memberName), ("from", prior.map ChannelMemberRole.text), ("to", some (ChannelMemberRole.text role))]
        (after, .ok ())

def removeMember (channelId memberName actor : String) (now : Int) : SqliteChannelStore × Except ChannelsFailure Unit :=
  if channelId = GENERAL_CHANNEL_ID then
    (store, .error (.channels ⟨.reserved, "general membership is implicit and cannot be modified"⟩))
  else
    match store.get channelId, store.members.find (channelId, memberName) with
    | none, _ => (store, .error (.channels (notFound channelId)))
    | some _, none => (store, .error (.channels ⟨.notMember, s!"{memberName} is not in this channel"⟩))
    | some _, some member =>
      let after := (store.deleteMemberStmt channelId memberName).insertAuditStmt channelId actor "member_remove" now
        [("member", some memberName), ("role", some (ChannelMemberRole.text member.role))]
      (after, .ok ())

inductive Call where
  | create (input : CreateChannel)
  | update (id : String) (input : UpdateChannel) (actor : String) (now : Int)
  | archive (id actor : String) (now : Int)
  | addMember (channelId memberName : String) (role : ChannelMemberRole) (actor : String) (now : Int)
  | removeMember (channelId memberName actor : String) (now : Int)

theorem updateGuard_eq_ok {store : SqliteChannelStore} {id : String} {input : UpdateChannel} {channel : Channel}
    (h : store.updateGuard id input = .ok channel) :
    id ≠ GENERAL_CHANNEL_ID ∧ store.get id = some channel ∧ channel.archivedAt = none := by
  unfold updateGuard at h
  split at h
  · cases h
  split at h
  · cases h
  rename_i hId
  split at h
  · cases h
  split at h
  · cases h
  rename_i found hGet
  split at h
  · cases h
  rename_i hLive
  cases h
  exact ⟨hId, hGet, by simpa using hLive⟩

/-- What a call answers with: a channel, or `none` where it returns nothing. -/
def apply : SqliteChannelStore → Call → SqliteChannelStore × Except ChannelsFailure (Option Channel)
  | store, .create input => ((store.create input).1, (store.create input).2.map some)
  | store, .update id input actor now => store.update id input actor now
  | store, .archive id actor now => store.archive id actor now
  | store, .addMember channelId memberName role actor now =>
    let (after, outcome) := store.addMember channelId memberName role actor now
    (after, outcome.map fun _ => none)
  | store, .removeMember channelId memberName actor now =>
    let (after, outcome) := store.removeMember channelId memberName actor now
    (after, outcome.map fun _ => none)

/-- `ensureGeneral`, on a database without channels. -/
def start (now : Int) : SqliteChannelStore where
  channels := (Table.empty : Table Channel.key).insertOrIgnore ⟨GENERAL_CHANNEL_ID, GENERAL_CHANNEL_SLUG, "", SYSTEM_ACTOR, now, none⟩
  members := .empty
  audit := .empty

end SqliteChannelStore

end CommandSuite
