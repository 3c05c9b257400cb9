import CommandSuite.Core.Channels

/-! # The audit of a channel

The entries of the audit of a channel, read in their order, tell what is stored of it.
-/

namespace CommandSuite.SqliteChannelStore

open Library EventLog Transcript Table Function SqliteChannelStore

def listAudit (store : SqliteChannelStore) (id : String) : List ChannelAuditEntry :=
  store.audit.select fun entry => entry.channelId = id

/-- A channel without its times. -/
@[ext] structure Standing where
  slug : String
  description : String
  archived : Bool
  roles : String → Option ChannelMemberRole

namespace Standing

def detail (entry : ChannelAuditEntry) (key : String) : Option String := (entry.details.lookup key).join

def roleNamed (text : String) : Option ChannelMemberRole :=
  [ChannelMemberRole.admin, .member].find? fun role => ChannelMemberRole.text role = text

/-- What an entry makes of the channel. -/
def replay (state : Option Standing) (entry : ChannelAuditEntry) : Option Standing :=
  if entry.action = "create" then
    some ⟨(detail entry "slug").getD "", (detail entry "description").getD "", false,
      Function.update (fun _ => none) entry.actor (some .member)⟩
  else
    state.map fun state =>
      if entry.action = "rename" then { state with slug := (detail entry "to").getD state.slug }
      else if entry.action = "description" then { state with description := (detail entry "to").getD state.description }
      else if entry.action = "archive" then { state with archived := true }
      else if entry.action = "member_add" ∨ entry.action = "member_role" then
        { state with
          roles := Function.update state.roles ((detail entry "member").getD "") ((detail entry "to").bind roleNamed) }
      else if entry.action = "member_remove" then
        { state with roles := Function.update state.roles ((detail entry "member").getD "") none }
      else state

end Standing

def rolesOf (store : SqliteChannelStore) (id : String) (name : String) : Option ChannelMemberRole :=
  (store.members.find (id, name)).map ChannelMember.role

def standing (store : SqliteChannelStore) (id : String) : Option Standing :=
  (store.get id).map fun channel => ⟨channel.slug, channel.description, channel.archivedAt.isSome, store.rolesOf id⟩

/-- A call as the interface has it. A `join` is an `addMember` without a role. -/
inductive Request where
  | call (made : Call)
  | join (channelId memberName actor : String) (now : Int)

def Request.toCall : Request → Call
  | .call made => made
  | .join channelId memberName actor now => .addMember channelId memberName .member actor now

def serve (store : SqliteChannelStore) (request : Request) : SqliteChannelStore × Except ChannelsFailure (Option Channel) :=
  apply store request.toCall

/-- What the audit of a channel tells. -/
def told (store : SqliteChannelStore) (id : String) : Option Standing := (store.listAudit id).foldl Standing.replay none

/-- A `join` of a member that is there leaves its row. -/
def JoinKeeps (before after : SqliteChannelStore) : Request → Prop
  | .join channelId memberName _ _ => ∀ member, before.members.find (channelId, memberName) = some member →
      after.members.find (channelId, memberName) = some member
  | .call _ => True

/-- Where a live channel has the member, its role is the default one, and it joins at the time at which it had joined. -/
def JoinIsIdle (before : SqliteChannelStore) : Request → Prop
  | .join channelId memberName _ now => ∀ channel member, before.get channelId = some channel → channel.archivedAt = none →
      before.members.find (channelId, memberName) = some member → member.role = .member ∧ member.joinedAt = now
  | .call _ => True

/-! ## What one call does -/

theorem told_insertAuditStmt (store : SqliteChannelStore) (channelId actor action : String) (now : Int)
    (details : List (String × Option String)) (id : String) :
    (store.insertAuditStmt channelId actor action now details).told id =
      if channelId = id then Standing.replay (store.told id) ⟨store.audit.sequence + 1, channelId, actor, action, now, details⟩
      else store.told id := by
  unfold told listAudit Autoincrement.select insertAuditStmt
  rw [Autoincrement.rows_insert, List.filter_append]
  by_cases hSame : channelId = id
  · subst hSame
    simp [List.foldl_append]
  · simp [hSame]

/-- Only a channel that is there has members. The general one has none, and no audit. -/
structure Sound (store : SqliteChannelStore) : Prop where
  told : ∀ id, id ≠ GENERAL_CHANNEL_ID → store.told id = store.standing id
  members : ∀ id name, store.get id = none ∨ id = GENERAL_CHANNEL_ID → store.members.find (id, name) = none
  general : (store.get GENERAL_CHANNEL_ID).isSome = true

/-- A call writes one channel, its members and its audit. -/
structure Writes (store after : SqliteChannelStore) (id : String) : Prop where
  ordinary : id ≠ GENERAL_CHANNEL_ID
  there : (after.get id).isSome = true
  own : after.told id = after.standing id
  told : ∀ other, other ≠ id → after.told other = store.told other
  channels : ∀ other, other ≠ id → after.get other = store.get other
  members : ∀ other name, other ≠ id → after.members.find (other, name) = store.members.find (other, name)

theorem Writes.sound {store after : SqliteChannelStore} {id : String} (h : Writes store after id) (hSound : Sound store) : Sound after where
  told other hOther := by
    by_cases hSame : other = id
    · rw [hSame]
      exact h.own
    · rw [h.told other hSame, hSound.told other hOther]
      unfold standing rolesOf
      simp only [h.channels other hSame, h.members other _ hSame]
  members other name hNone := by
    by_cases hSame : other = id
    · subst hSame
      rcases hNone with hNone | hGeneral
      · exact absurd hNone (Option.isSome_iff_ne_none.mp h.there)
      · exact absurd hGeneral h.ordinary
    · rw [h.channels other hSame] at hNone
      rw [h.members other name hSame]
      exact hSound.members other name hNone
  general := by
    rw [h.channels _ (Ne.symm h.ordinary)]
    exact hSound.general

/-- A call leaves the store, and does if it throws, or it writes a channel. -/
def Tells (store : SqliteChannelStore) {α : Type} (answer : SqliteChannelStore × Except ChannelsFailure α) : Prop :=
  answer.1 = store ∨ (∃ value, answer.2 = .ok value) ∧ ∃ id, Writes store answer.1 id

section Calls

variable {store : SqliteChannelStore} (h : Sound store)

include h in
theorem tells_create (input : CreateChannel) : Tells store (store.create input) := by
  unfold create
  split
  · exact .inl rfl
  split
  · exact .inl rfl
  split
  · exact .inl rfl
  rename_i inserted hInserted
  unfold insertChannelStmt at hInserted
  split at hInserted
  · cases hInserted
  rename_i hFree
  obtain rfl := Option.some.inj hInserted
  have hNone : store.get input.id = none := by
    simp only [Bool.or_eq_true, not_or, Bool.not_eq_true, Option.isSome_eq_false_iff, Option.isNone_iff_eq_none] at hFree
    exact hFree.1
  have hGet : ∀ other, (store.channels.insertOrIgnore ⟨input.id, input.slug, input.description, input.creator, input.now, none⟩).find
      other = if input.id = other then some ⟨input.id, input.slug, input.description, input.creator, input.now, none⟩
        else store.get other := by
    intro other
    rw [find_insertOrIgnore]
    by_cases hSame : input.id = other
    · subst hSame
      change (store.get input.id).or _ = _
      rw [hNone, Option.none_or]
    · rw [if_neg hSame, if_neg hSame, Option.or_none]
      rfl
  have hId : input.id ≠ GENERAL_CHANNEL_ID := fun hSame => by
    have hGeneral := h.general
    rw [← hSame, hNone] at hGeneral
    cases hGeneral
  have hOwn := (hGet input.id).trans (if_pos rfl)
  refine .inr ⟨⟨⟨input.id, input.slug, input.description, input.creator, input.now, none⟩, ?_⟩, input.id, hId, Option.isSome_of_eq_some hOwn, ?_, fun other hOther => ?_, fun other hOther => ?_,
    fun other name hOther => ?_⟩
  · dsimp only [ChannelStore.get, insertAuditStmt, insertMemberStmt]
    rw [hOwn]
  · rw [told_insertAuditStmt, if_pos rfl]
    change _ = Option.map _ ((store.channels.insertOrIgnore _).find input.id)
    rw [hOwn]
    refine congrArg some (Standing.ext rfl rfl rfl (funext fun name => ?_))
    change Function.update (fun _ => none) input.creator (some ChannelMemberRole.member) name = ((store.members.insertOrIgnore _).find _).map _
    rw [find_insertOrIgnore, h.members input.id name (.inl hNone), Option.none_or]
    by_cases hName : name = input.creator
    · subst hName
      rw [update_self, if_pos rfl]
      rfl
    · rw [update_of_ne hName, if_neg fun hKey => hName (congrArg Prod.snd hKey).symm]
      rfl
  · rw [told_insertAuditStmt, if_neg (Ne.symm hOther)]
    rfl
  · exact (hGet other).trans (if_neg (Ne.symm hOther))
  · change (store.members.insertOrIgnore _).find _ = _
    rw [find_insertOrIgnore, if_neg fun hKey => hOther (congrArg Prod.fst hKey).symm, Option.or_none]

theorem find_deleteMemberStmt (channelId memberName : String) (key : String × String) :
    (store.deleteMemberStmt channelId memberName).members.find key =
      if (channelId, memberName) = key then none else store.members.find key := by
  change (store.members.delete _).find key = _
  rw [find_delete]
  cases hFind : store.members.find key with
  | none => simp
  | some member =>
    have hKey : member.key = key := key_of_find hFind
    subst hKey
    have hSame : (channelId, memberName) = member.key ↔ member.channelId = channelId ∧ member.memberName = memberName := by
      rw [Prod.ext_iff, eq_comm, eq_comm (a := memberName)]
    rw [Option.filter_some]
    by_cases hOwn : member.channelId = channelId ∧ member.memberName = memberName
    · rw [if_pos (hSame.mpr hOwn), if_neg (by simp [hOwn])]
    · rw [if_neg fun hKey => hOwn (hSame.mp hKey), if_pos (by simpa [imp_iff_not_or] using hOwn)]

theorem find_update_row {id : String} {channel : Channel} (hGet : store.get id = some channel) (write : Channel → Channel)
    (keeps : ∀ channel, (write channel).key = channel.key) (other : String) :
    (store.channels.update (fun channel => channel.id = id) write keeps).find other =
      if other = id then some (write channel) else store.get other := by
  rw [find_update]
  by_cases hSame : other = id
  · subst hSame
    have hKey : channel.id = other := key_of_find hGet
    rw [if_pos rfl, show store.channels.find other = some channel from hGet, Option.map_some, if_pos (decide_eq_true hKey)]
  · rw [if_neg hSame]
    change Option.map _ (store.get other) = store.get other
    cases hOther : store.get other with
    | none => rfl
    | some found =>
      have hKey : found.id = other := key_of_find hOther
      rw [Option.map_some, if_neg (by simpa [hKey] using hSame)]

theorem told_auditUpdate (channel : Channel) (slug description actor : String) (now : Int) (id : String) :
    (store.auditUpdate channel slug description actor now).told id =
      if channel.id = id then (store.told id).map fun state =>
        { state with
          slug := if channel.slug = slug then state.slug else slug
          description := if channel.description = description then state.description else description }
      else store.told id := by
  unfold auditUpdate
  by_cases hSlug : channel.slug = slug <;> by_cases hDescription : channel.description = description <;>
    by_cases hId : channel.id = id <;>
    simp only [hSlug, hDescription, hId, if_true, if_false, told_insertAuditStmt] <;> cases store.told id <;> rfl

include h in
theorem tells_update (id : String) (input : UpdateChannel) (actor : String) (now : Int) :
    Tells store (store.update id input actor now) := by
  unfold update
  cases hGuard : store.updateGuard id input with
  | error error => exact .inl rfl
  | ok channel =>
    dsimp only
    split
    · exact .inl rfl
    split
    · exact .inl rfl
    split
    · exact .inl rfl
    rename_i updated hUpdated
    obtain ⟨hId, hGet, hLive⟩ := updateGuard_eq_ok hGuard
    have hKey : channel.id = id := key_of_find hGet
    unfold updateSlugStmt at hUpdated
    split at hUpdated
    · cases hUpdated
    obtain rfl := Option.some.inj hUpdated
    generalize input.slug.getD channel.slug = slug
    generalize input.description.getD channel.description = description
    generalize hWritten : mk _ _ = written
    have hAfter := find_update_row hGet (fun channel => { channel with slug := slug, description := description }) fun _ => rfl
    have hChannels : ∀ other, (written.auditUpdate channel slug description actor now).get other =
        if other = id then some { channel with slug := slug, description := description } else store.get other := by
      intro other
      rw [← hAfter, ← hWritten]
      unfold auditUpdate
      dsimp only
      split <;> split <;> rfl
    have hMembers : (written.auditUpdate channel slug description actor now).members = store.members := by
      rw [← hWritten]
      unfold auditUpdate
      dsimp only
      split <;> split <;> rfl
    have hTold : ∀ other, written.told other = store.told other := by
      rw [← hWritten]
      exact fun _ => rfl
    refine .inr ⟨⟨_, rfl⟩, id, hId, ?_, ?_, fun other hOther => ?_, fun other hOther => ?_, fun other name _ => ?_⟩
    · rw [hChannels, if_pos rfl]
      rfl
    · rw [told_auditUpdate, if_pos hKey, hTold, h.told id hId]
      unfold standing rolesOf
      rw [hChannels, if_pos rfl, hGet, hMembers]
      refine congrArg some (Standing.ext ?_ ?_ rfl rfl)
      · exact ite_eq_right_iff.mpr fun hSame => hSame
      · exact ite_eq_right_iff.mpr fun hSame => hSame
    · rw [told_auditUpdate, if_neg (hKey ▸ Ne.symm hOther), hTold]
    · rw [hChannels, if_neg hOther]
    · rw [hMembers]

include h in
theorem tells_archive (id actor : String) (now : Int) : Tells store (store.archive id actor now) := by
  unfold archive
  split
  · exact .inl rfl
  rename_i hId
  split
  · exact .inl rfl
  rename_i channel hGet
  split
  · exact .inl rfl
  have hAfter := find_update_row hGet (fun channel => { channel with archivedAt := some now }) fun _ => rfl
  have hOwn : ((store.archiveStmt now id).insertAuditStmt id actor "archive" now [("slug", some channel.slug)]).get id =
      some { channel with archivedAt := some now } := (hAfter id).trans (if_pos rfl)
  have hTold : (store.archiveStmt now id).told id = store.told id := rfl
  refine .inr ⟨⟨_, rfl⟩, id, hId, Option.isSome_of_eq_some hOwn, ?_, fun other hOther => ?_, fun other hOther => ?_,
    fun other name _ => rfl⟩
  · rw [told_insertAuditStmt, if_pos rfl, hTold, h.told id hId]
    unfold standing
    rw [hOwn, hGet]
    rfl
  · rw [told_insertAuditStmt, if_neg (Ne.symm hOther)]
    rfl
  · exact (hAfter other).trans (if_neg hOther)

theorem find_rejoined (channelId memberName : String) (role : ChannelMemberRole) (now : Int) (key : String × String) :
    (((if (store.rolesOf channelId memberName).isSome then store.deleteMemberStmt channelId memberName else store).insertMemberStmt
      channelId memberName role now).members.find key) =
      if (channelId, memberName) = key then some ⟨channelId, memberName, role, now⟩ else store.members.find key := by
  have hFreed : ∀ key, (if (store.rolesOf channelId memberName).isSome then store.deleteMemberStmt channelId memberName
      else store).members.find key = if (channelId, memberName) = key then none else store.members.find key := by
    intro key
    unfold rolesOf
    cases hPrior : store.members.find (channelId, memberName) with
    | none =>
      rw [Option.map_none, Option.isSome_none, if_neg Bool.false_ne_true]
      split
      · rename_i hKey
        rw [← hKey, hPrior]
      · rfl
    | some prior =>
      rw [Option.map_some, Option.isSome_some, if_pos rfl]
      exact find_deleteMemberStmt channelId memberName key
  change (insertOrIgnore _ _).find key = _
  rw [find_insertOrIgnore, hFreed]
  split
  · exact Option.none_or
  · exact Option.or_none

include h in
theorem tells_addMember (channelId memberName : String) (role : ChannelMemberRole) (actor : String) (now : Int) :
    Tells store (store.addMember channelId memberName role actor now) := by
  unfold addMember
  split
  · exact .inl rfl
  rename_i hId
  split
  · exact .inl rfl
  rename_i channel hGet
  split
  · exact .inl rfl
  rename_i hLive
  have hRole : store.roleOf channelId memberName = store.rolesOf channelId memberName := if_neg hId
  rw [hRole]
  have hFreed : ∀ {p : Bool} {key : String},
      ((if p then store.deleteMemberStmt channelId memberName else store).insertMemberStmt channelId memberName role now).get key =
        store.get key ∧
      ((if p then store.deleteMemberStmt channelId memberName else store).insertMemberStmt channelId memberName role now).told key =
        store.told key := by
    intro p key
    cases p <;> exact ⟨rfl, rfl⟩
  refine .inr ⟨⟨_, rfl⟩, channelId, hId, ?_, ?_, fun other hOther => ?_, fun other _ => hFreed.1, fun other name hOther => ?_⟩
  · exact Option.isSome_of_eq_some (hFreed.1.trans hGet)
  · rw [told_insertAuditStmt, if_pos rfl, hFreed.2, h.told channelId hId]
    unfold standing
    have hThere : ∀ entry : String × List (String × Option String), ((insertMemberStmt
        (if (store.rolesOf channelId memberName).isSome then store.deleteMemberStmt channelId memberName else store) channelId memberName
        role now).insertAuditStmt channelId actor entry.1 now entry.2).get channelId = some channel := fun _ => hFreed.1.trans hGet
    rw [hGet, hThere (_, _)]
    have hRoles : (fun name => Option.map ChannelMember.role ((((if (store.rolesOf channelId memberName).isSome then
        store.deleteMemberStmt channelId memberName else store).insertMemberStmt channelId memberName role now).members.find
        (channelId, name)))) = Function.update (store.rolesOf channelId) memberName (some role) := by
      funext name
      rw [find_rejoined]
      by_cases hName : name = memberName
      · subst hName
        rw [if_pos rfl, update_self]
        rfl
      · rw [if_neg fun hKey => hName (congrArg Prod.snd hKey).symm, update_of_ne hName]
        rfl
    refine Eq.trans ?_ (congrArg (fun roles => some (Standing.mk channel.slug channel.description channel.archivedAt.isSome roles)) hRoles.symm)
    cases hPrior : store.rolesOf channelId memberName <;> cases role <;> rfl
  · rw [told_insertAuditStmt, if_neg (Ne.symm hOther)]
    exact hFreed.2
  · exact (find_rejoined channelId memberName role now (other, name)).trans (if_neg fun hKey => hOther (congrArg Prod.fst hKey).symm)

include h in
theorem tells_removeMember (channelId memberName actor : String) (now : Int) :
    Tells store (store.removeMember channelId memberName actor now) := by
  unfold removeMember
  split
  · exact .inl rfl
  rename_i hId
  split
  · exact .inl rfl
  · exact .inl rfl
  rename_i channel member hGet hMember
  refine .inr ⟨⟨_, rfl⟩, channelId, hId, ?_, ?_, fun other hOther => ?_, fun _ _ => rfl, fun other name hOther => ?_⟩
  · exact Option.isSome_of_eq_some hGet
  · rw [told_insertAuditStmt, if_pos rfl]
    change Standing.replay (store.told channelId) _ = Option.map _ (store.get channelId)
    rw [h.told channelId hId]
    unfold standing
    rw [hGet]
    refine congrArg some (Standing.ext rfl rfl rfl (funext fun name => ?_))
    change Function.update (store.rolesOf channelId) memberName none name = ((store.deleteMemberStmt channelId memberName).members.find _).map _
    rw [find_deleteMemberStmt]
    by_cases hName : name = memberName
    · subst hName
      rw [update_self, if_pos rfl]
      rfl
    · rw [update_of_ne hName, if_neg fun hKey => hName (congrArg Prod.snd hKey).symm]
      rfl
  · rw [told_insertAuditStmt, if_neg (Ne.symm hOther)]
    rfl
  · exact (find_deleteMemberStmt channelId memberName (other, name)).trans (if_neg fun hKey => hOther (congrArg Prod.fst hKey).symm)

include h in
theorem tells_serve (request : Request) : Tells store (store.serve request) := by
  unfold serve
  cases request.toCall with
  | create input =>
    rcases tells_create h input with hSame | ⟨⟨value, hValue⟩, hWrites⟩
    · exact .inl hSame
    · exact .inr ⟨⟨some value, congrArg (Except.map some) hValue⟩, hWrites⟩
  | update id input actor now => exact tells_update h id input actor now
  | archive id actor now => exact tells_archive h id actor now
  | addMember channelId memberName role actor now =>
    rcases tells_addMember h channelId memberName role actor now with hSame | ⟨⟨value, hValue⟩, hWrites⟩
    · exact .inl hSame
    · exact .inr ⟨⟨none, congrArg (Except.map fun _ => none) hValue⟩, hWrites⟩
  | removeMember channelId memberName actor now =>
    rcases tells_removeMember h channelId memberName actor now with hSame | ⟨⟨value, hValue⟩, hWrites⟩
    · exact .inl hSame
    · exact .inr ⟨⟨none, congrArg (Except.map fun _ => none) hValue⟩, hWrites⟩

include h in
theorem sound_serve (request : Request) : Sound (store.serve request).1 := by
  rcases tells_serve h request with hSame | ⟨-, id, hWrites⟩
  · rw [hSame]
    exact h
  · exact hWrites.sound h

include h in
theorem joinKeeps_iff (request : Request) : JoinKeeps store (store.serve request).1 request ↔ JoinIsIdle store request := by
  cases request with
  | call made => exact Iff.rfl
  | join channelId memberName actor now =>
    change (∀ member, _ → (store.addMember channelId memberName .member actor now).1.members.find _ = _) ↔
      ∀ channel member, _ → _ → _ → _
    unfold addMember
    split
    · rename_i hId
      have hNone := h.members channelId memberName (.inr hId)
      simp [hNone]
    rename_i hId
    split
    · rename_i hGet
      simp [hGet]
    rename_i channel hGet
    split
    · rename_i hArchived
      refine iff_of_true (fun member hMember => hMember) fun other member hOther hLive => ?_
      obtain rfl := Option.some.inj (hGet.symm.trans hOther)
      rw [hLive] at hArchived
      cases hArchived
    · rename_i hLive
      have hRole : store.roleOf channelId memberName = store.rolesOf channelId memberName := if_neg hId
      rw [hRole]
      refine ⟨fun hKeeps other member hOther _ hMember => ?_, fun hIdle member hMember => ?_⟩
      · have hAfter := hKeeps member hMember
        change find (insertMemberStmt _ _ _ _ _).members _ = _ at hAfter
        rw [find_rejoined, if_pos rfl] at hAfter
        obtain rfl := Option.some.inj hAfter
        exact ⟨rfl, rfl⟩
      · change find (insertMemberStmt _ _ _ _ _).members _ = _
        obtain ⟨hMemberRole, hJoined⟩ := hIdle channel member hGet (by simpa using hLive) hMember
        have hKey : member.key = (channelId, memberName) := key_of_find hMember
        rw [find_rejoined, if_pos rfl, ← hMemberRole, ← hJoined, ← (Prod.mk.inj hKey).1, ← (Prod.mk.inj hKey).2]

end Calls

/-! ## Runs -/

theorem sound_start (now : Int) : Sound (start now) where
  told id hId := by
    have hNone : (start now).get id = none := (find_insertOrIgnore _ _ id).trans ((Option.none_or).trans (if_neg (Ne.symm hId)))
    unfold standing
    rw [hNone]
    rfl
  members _ _ _ := rfl
  general := rfl

/-- The audit tells what is stored of every channel but the general one, a call that throws changes nothing, and a `join` leaves
the members that are there. -/
structure Determines (now : Int) (requests : List Request) : Prop where
  told : ∀ id, id ≠ GENERAL_CHANNEL_ID →
    (final serve (start now) requests).told id = (final serve (start now) requests).standing id
  refused : ∀ step ∈ run serve (start now) requests, (∃ failure, step.output = .error failure) → step.after = step.before
  joins : ∀ step ∈ run serve (start now) requests, JoinKeeps step.before step.after step.input

/-- The audit determines the channel in every run, and `addMember` is idle on the members that are there exactly under its condition. -/
theorem audit_determines_iff (now : Int) (requests : List Request) :
    Determines now requests ↔ ∀ step ∈ run serve (start now) requests, JoinIsIdle step.before step.input := by
  have hSteps : ∀ step ∈ run serve (start now) requests, Sound step.before ∧ step = stepAt serve step.before step.input :=
    fun _ hStep => run_invariant (P := Sound) (fun _ request hSound => sound_serve hSound request) (sound_start now) hStep
  refine ⟨fun h step hStep => ?_, fun h => ⟨?_, fun step hStep hRefused => ?_, fun step hStep => ?_⟩⟩
  · obtain ⟨hSound, hAt⟩ := hSteps step hStep
    have hKeeps := h.joins step hStep
    rw [hAt] at hKeeps
    exact (joinKeeps_iff hSound step.input).mp hKeeps
  · exact (final_invariant (P := Sound) (fun store request hSound => sound_serve hSound request) (sound_start now) requests).told
  · obtain ⟨hSound, hAt⟩ := hSteps step hStep
    obtain ⟨failure, hFailure⟩ := hRefused
    rw [hAt] at hFailure ⊢
    rcases tells_serve hSound step.input with hSame | ⟨⟨value, hValue⟩, -⟩
    · exact hSame
    · rw [stepAt_output, hValue] at hFailure
      cases hFailure
  · obtain ⟨hSound, hAt⟩ := hSteps step hStep
    rw [hAt]
    exact (joinKeeps_iff hSound step.input).mpr (h step hStep)

theorem join_demotes : ¬Determines 0 [.call (.create ⟨"ops", "", "ann", "c1", 0⟩), .call (.addMember "c1" "bob" .admin "ann" 1),
    .join "c1" "bob" "bob" 2] := by
  intro h
  have hKeeps := h.joins _ (List.mem_of_getElem? (i := 2) rfl) ⟨"c1", "bob", .admin, 1⟩ (by rfl)
  cases hKeeps

end CommandSuite.SqliteChannelStore
