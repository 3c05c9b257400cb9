import CommandSuite.Core.Channels
import Mathlib.Data.List.TakeWhile

/-! # What a slug resolves to

A slug resolves to its live channel as long as no channel claims a slug that an archived channel with an earlier row
still carries.
-/

namespace CommandSuite.SqliteChannelStore

open Library EventLog Transcript Table

abbrev isLive (channel : Channel) : Bool := channel.archivedAt.isNone

def asked : Call → Option (Option String × String)
  | .create input => some (none, input.slug)
  | .update id input _ _ => input.slug.map fun slug => (some id, slug)
  | _ => none

section Model

variable (store : SqliteChannelStore)

def heldByAnother (self : Option String) (slug : String) : Bool := (store.active slug).any fun channel => some channel.id ≠ self

def guards : Call → Except ChannelsError Unit
  | .create input => createGuard input.slug
  | .update id input _ _ => (store.updateGuard id input).map fun _ => ()
  | _ => .ok ()

def refusal (call : Call) (slug : String) : ChannelsError :=
  match store.guards call with
  | .error error => error
  | .ok () => slugTaken slug

def claimedByCreate (input : CreateChannel) : Option (String × String) :=
  match createGuard input.slug with
  | .error _ => none
  | .ok () => if (store.active input.slug).isEmpty && (store.get input.id).isNone then some (input.id, input.slug) else none

def claimedByUpdate (id : String) (input : UpdateChannel) : Option (String × String) :=
  match store.updateGuard id input with
  | .error _ => none
  | .ok channel =>
    let slug := input.slug.getD channel.slug
    if channel.slug = slug ∧ channel.description = input.description.getD channel.description then none
    else if store.heldByAnother (some id) slug then none
    else some (id, slug)

def claimed : Call → Option (String × String)
  | .create input => store.claimedByCreate input
  | .update id input _ _ => store.claimedByUpdate id input
  | _ => none

/-- No row before that of the channel carries the slug it comes to have. -/
def Unshadowed (call : Call) : Prop :=
  ∀ id slug, store.claimed call = some (id, slug) → ∀ channel ∈ store.rows.takeWhile fun row => row.id ≠ id, channel.slug ≠ slug

def Resolves : Prop := FirstOfName.Resolves Channel.slug isLive store.rows

end Model

structure ResolvesSlugs (step : Step SqliteChannelStore Call (Except ChannelsFailure (Option Channel))) : Prop where
  unique : FirstOfName.Distinct Channel.slug isLive step.after.rows
  resolves : ∀ channel ∈ step.after.rows, isLive channel → step.after.getBySlug channel.slug = some channel
  taken : ∀ self slug, asked step.input = some (self, slug) → step.before.heldByAnother self slug →
    step.after = step.before ∧ step.output = .error (.channels (step.before.refusal step.input slug))

/-! ## What a call does to the rows -/

inductive Change (rows : List Channel) : Option (String × String) → List Channel → Prop where
  | same : Change rows none rows
  | archived {before after : List Channel} {channel : Channel} (at' : Int) (hRows : rows = before ++ channel :: after)
      (hOnce : channel ∉ before ++ after) (hLive : isLive channel) :
      Change rows none (before ++ { channel with archivedAt := some at' } :: after)
  | created (channel : Channel) (hLive : isLive channel) (hFresh : ∀ other ∈ rows, other.id ≠ channel.id)
      (hFree : ∀ other ∈ rows, isLive other → other.slug ≠ channel.slug) :
      Change rows (some (channel.id, channel.slug)) (rows ++ [channel])
  | renamed {before after : List Channel} {channel : Channel} (slug description : String) (hRows : rows = before ++ channel :: after)
      (hOnce : channel ∉ before ++ after) (hLive : isLive channel) (hBefore : ∀ other ∈ before, other.id ≠ channel.id)
      (hFree : ∀ other ∈ before ++ after, isLive other → other.slug ≠ slug) :
      Change rows (some (channel.id, slug)) (before ++ { channel with slug := slug, description := description } :: after)

section Calls

variable {store : SqliteChannelStore}

theorem mem_active_iff (slug : String) (channel : Channel) :
    channel ∈ store.active slug ↔ channel ∈ store.rows ∧ channel.slug = slug ∧ isLive channel := by
  simp [active]

theorem heldByAnother_iff (self : Option String) (slug : String) :
    store.heldByAnother self slug = true ↔
      ∃ channel ∈ store.rows, channel.slug = slug ∧ isLive channel ∧ some channel.id ≠ self := by
  simp only [heldByAnother, List.any_eq_true, mem_active_iff, decide_eq_true_eq, and_assoc]

@[simp] theorem channels_auditUpdate (store : SqliteChannelStore) (channel : Channel) (slug description actor : String) (now : Int) :
    (store.auditUpdate channel slug description actor now).channels = store.channels := by
  unfold auditUpdate
  split <;> split <;> rfl

theorem insertChannelStmt_cases (store : SqliteChannelStore) (channel : Channel) :
    ((store.active channel.slug).isEmpty && (store.get channel.id).isNone) = false ∧ store.insertChannelStmt channel = none ∨
      store.active channel.slug = [] ∧ store.get channel.id = none ∧
        ∃ inserted, store.insertChannelStmt channel = some inserted ∧ inserted.rows = store.rows ++ [channel] := by
  unfold insertChannelStmt
  cases hActive : store.active channel.slug with
  | cons holder others => exact .inl ⟨rfl, by simp⟩
  | nil =>
    cases hGet : store.get channel.id with
    | some found => exact .inl ⟨rfl, by simp⟩
    | none => exact .inr ⟨rfl, rfl, _, rfl, (rows_insertOrIgnore _ _).trans (if_pos hGet)⟩

theorem getBySlug_isSome_of_active {slug : String} {channel : Channel} (h : store.getBySlug slug = some channel) (hLive : isLive channel) :
    channel ∈ store.active slug := by
  refine (mem_active_iff slug channel).mpr ⟨List.mem_of_find?_eq_some h, ?_, hLive⟩
  exact FirstOfName.name_of_lookup h

theorem change_create (store : SqliteChannelStore) (input : CreateChannel) :
    Change store.rows (store.claimedByCreate input) (store.create input).1.rows := by
  unfold create claimedByCreate
  cases createGuard input.slug with
  | error error => exact .same
  | ok =>
    simp only
    obtain ⟨hTaken, hInsert⟩ | ⟨hActive, hGet, inserted, hInsert, hRows⟩ :=
      store.insertChannelStmt_cases ⟨input.id, input.slug, input.description, input.creator, input.now, none⟩
    · rw [hInsert]
      simp only [hTaken, Bool.false_eq_true, if_false]
      split <;> exact .same
    · have hFree : (store.getBySlug input.slug).any (fun existing => existing.archivedAt.isNone) = false := by
        cases hFirst : store.getBySlug input.slug with
        | none => rfl
        | some first =>
          rw [Option.any_some, Bool.eq_false_iff]
          intro hLive
          have hMem := getBySlug_isSome_of_active hFirst hLive
          rw [hActive] at hMem
          cases hMem
      have hChange : Change store.rows (some (input.id, input.slug)) inserted.rows := by
        rw [hRows]
        refine .created ⟨input.id, input.slug, input.description, input.creator, input.now, none⟩ rfl (fun other hOther hSame => ?_)
          fun other hOther hLive hSame => ?_
        · exact (find_eq_none_iff _ _).mp hGet other hOther hSame
        · have hMem := (mem_active_iff input.slug other).mpr ⟨hOther, hSame, hLive⟩
          rw [hActive] at hMem
          cases hMem
      rw [hInsert]
      simp only [hFree, hActive, hGet, Bool.false_eq_true, if_false]
      exact hChange

theorem updateSlugStmt_eq (store : SqliteChannelStore) (slug description id : String) :
    store.updateSlugStmt slug description id =
      if store.heldByAnother (some id) slug then none
      else
        let write : Channel → Channel := fun channel => { channel with slug := slug, description := description }
        some { store with channels := store.channels.update (fun channel => channel.id = id) write fun _ => rfl } := by
  simp [updateSlugStmt, heldByAnother]

theorem change_update (store : SqliteChannelStore) (id : String) (input : UpdateChannel) (actor : String) (now : Int) :
    Change store.rows (store.claimedByUpdate id input) (store.update id input actor now).1.rows := by
  unfold update claimedByUpdate
  cases hGuard : store.updateGuard id input with
  | error error => exact .same
  | ok channel =>
    simp only
    by_cases hSame : channel.slug = input.slug.getD channel.slug ∧ channel.description = input.description.getD channel.description
    · rw [if_pos hSame, if_pos hSame]
      exact .same
    rw [if_neg hSame, if_neg hSame]
    generalize input.slug.getD channel.slug = slug
    generalize input.description.getD channel.description = description
    rw [updateSlugStmt_eq]
    by_cases hHeld : store.heldByAnother (some id) slug = true
    · rw [if_pos hHeld, if_pos hHeld]
      split <;> exact .same
    rw [if_neg hHeld, if_neg hHeld]
    obtain ⟨-, hGet, hNone⟩ := updateGuard_eq_ok hGuard
    have hLive : isLive channel := Option.isNone_iff_eq_none.mpr hNone
    have hOthers : ∀ other ∈ store.rows, isLive other → other.slug = slug → other.id = id := by
      intro other hOther hOtherLive hSlug
      by_contra hOtherId
      exact hHeld ((heldByAnother_iff _ _).mpr ⟨other, hOther, hSlug, hOtherLive, by simpa using hOtherId⟩)
    have hFree : (store.getBySlug slug).any (fun collide => collide.id ≠ id && collide.archivedAt.isNone) = false := by
      cases hFirst : store.getBySlug slug with
      | none => rfl
      | some first =>
        rw [Option.any_some, Bool.eq_false_iff]
        intro hCollides
        obtain ⟨hOtherId, hFirstLive⟩ := Bool.and_eq_true_iff.mp hCollides
        obtain ⟨hRow, hSlug, _⟩ := (mem_active_iff slug first).mp (getBySlug_isSome_of_active hFirst hFirstLive)
        exact of_decide_eq_true hOtherId (hOthers first hRow hFirstLive hSlug)
    obtain ⟨before, after, hRows, hOnce, hBefore, hUpdate⟩ :=
      exists_update_of_find hGet (fun channel => { channel with slug := slug, description := description }) fun _ => rfl
    obtain rfl : channel.id = id := key_of_find hGet
    have hRest : ∀ other ∈ before ++ after, isLive other → other.slug ≠ slug := by
      intro other hOther hOtherLive hSlug
      have hRow : other ∈ store.rows := by
        rw [rows, hRows]
        simp only [List.mem_append, List.mem_cons] at hOther ⊢
        tauto
      have hSame := hOthers other hRow hOtherLive hSlug
      have hChannel : channel ∈ store.rows := mem_of_find hGet
      obtain rfl : other = channel := List.inj_on_of_nodup_map store.channels.nodup hRow hChannel hSame
      exact hOnce hOther
    simp only [hFree, Bool.false_eq_true, if_false, rows, channels_auditUpdate]
    have hChange := Change.renamed slug description hRows hOnce hLive hBefore hRest
    rw [← hUpdate] at hChange
    exact hChange

theorem change_archive (store : SqliteChannelStore) (id actor : String) (now : Int) :
    Change store.rows none (store.archive id actor now).1.rows := by
  unfold archive
  split
  · exact .same
  split
  · exact .same
  rename_i channel hGet
  split
  · exact .same
  rename_i hLive
  obtain ⟨before, after, hRows, hOnce, _, hUpdate⟩ :=
    exists_update_of_find hGet (fun channel => { channel with archivedAt := some now }) fun _ => rfl
  change Change _ none (store.archiveStmt now id).rows
  rw [show (store.archiveStmt now id).rows = _ from hUpdate]
  exact .archived now hRows hOnce (by simpa using hLive)

theorem change_addMember (store : SqliteChannelStore) (channelId memberName : String) (role : ChannelMemberRole) (actor : String)
    (now : Int) : Change store.rows none (store.addMember channelId memberName role actor now).1.rows := by
  unfold addMember
  split
  · exact .same
  split
  · exact .same
  split
  · exact .same
  simp only
  split <;> exact .same

theorem change_removeMember (store : SqliteChannelStore) (channelId memberName actor : String) (now : Int) :
    Change store.rows none (store.removeMember channelId memberName actor now).1.rows := by
  unfold removeMember
  repeat' split
  all_goals exact .same

theorem change_apply (store : SqliteChannelStore) (call : Call) : Change store.rows (store.claimed call) (apply store call).1.rows := by
  cases call with
  | create input => exact store.change_create input
  | update id input actor now => exact store.change_update id input actor now
  | archive id actor now => exact store.change_archive id actor now
  | addMember channelId memberName role actor now => exact store.change_addMember channelId memberName role actor now
  | removeMember channelId memberName actor now => exact store.change_removeMember channelId memberName actor now

end Calls

/-! ## One step -/

theorem resolves_change_iff {rows rows' : List Channel} {claimed : Option (String × String)} (h : Change rows claimed rows')
    (hResolves : FirstOfName.Resolves Channel.slug isLive rows) :
    FirstOfName.Resolves Channel.slug isLive rows' ↔
      ∀ id slug, claimed = some (id, slug) → ∀ channel ∈ rows.takeWhile fun row => row.id ≠ id, channel.slug ≠ slug := by
  cases h with
  | same => simpa using hResolves
  | @archived before after channel at' hRows hOnce hLive =>
    rw [hRows] at hResolves
    have hOthers : ∀ other ∈ before ++ after, isLive other = true → other.slug ≠ channel.slug := by
      intro other hOther hOtherLive hSlug
      have hRow : other ∈ before ++ channel :: after := by
        simp only [List.mem_append, List.mem_cons] at hOther ⊢
        tauto
      obtain rfl := hResolves.distinct other hRow channel (List.mem_append_right _ List.mem_cons_self) hOtherLive hLive hSlug
      exact hOnce hOther
    simpa using (hResolves.erase hOnce).insert_dead { channel with archivedAt := some at' } rfl hOthers
  | created channel hLive hFresh hFree =>
    have hAll : rows.takeWhile (fun row => row.id ≠ channel.id) = rows := by
      rw [List.takeWhile_eq_self_iff]
      simpa using hFresh
    have hRows : FirstOfName.Resolves Channel.slug isLive (rows ++ []) := by simpa using hResolves
    rw [hRows.insert_live_iff channel hLive (by simpa using hFree)]
    constructor
    · rintro hUnshadowed id slug hClaimed
      cases hClaimed
      rwa [hAll]
    · intro hUnshadowed
      have hBefore := hUnshadowed channel.id channel.slug rfl
      rwa [hAll] at hBefore
  | @renamed before after channel slug description hRows hOnce hLive hBefore hFree =>
    have hCut : rows.takeWhile (fun row => row.id ≠ channel.id) = before := by
      rw [hRows, List.takeWhile_append_of_pos (by simpa using hBefore), List.takeWhile_cons_of_neg (by simp), List.append_nil]
    rw [hRows] at hResolves
    rw [(hResolves.erase hOnce).insert_live_iff { channel with slug := slug, description := description } hLive hFree]
    constructor
    · rintro hUnshadowed id slug hClaimed
      cases hClaimed
      rwa [hCut]
    · intro hUnshadowed
      have hNone := hUnshadowed channel.id slug rfl
      rwa [hCut] at hNone

variable {store : SqliteChannelStore}

theorem resolves_apply_iff (h : store.Resolves) (call : Call) :
    (apply store call).1.Resolves ↔ store.Unshadowed call :=
  resolves_change_iff (store.change_apply call) h

theorem apply_of_held (h : store.Resolves) {call : Call} {self : Option String} {slug : String}
    (hAsked : asked call = some (self, slug)) (hHeld : store.heldByAnother self slug = true) :
    apply store call = (store, .error (.channels (store.refusal call slug))) := by
  obtain ⟨holder, hRow, hSlug, hLive, hOther⟩ := (heldByAnother_iff self slug).mp hHeld
  have hFound : store.getBySlug slug = some holder := hSlug ▸ h holder hRow hLive
  cases call with
  | create input =>
    cases hAsked
    simp only [apply, create, refusal, guards]
    cases createGuard input.slug with
    | error error => rfl
    | ok =>
      simp only [hFound, Option.any_some]
      rw [if_pos hLive]
      rfl
  | update id input actor now =>
    obtain ⟨asked, hInput, hAsked⟩ := Option.map_eq_some_iff.mp hAsked
    cases hAsked
    have hOther : holder.id ≠ id := by simpa using hOther
    simp only [apply, update, refusal, guards]
    cases hGuard : store.updateGuard id input with
    | error error => rfl
    | ok channel =>
      obtain ⟨-, hGet, hNone⟩ := updateGuard_eq_ok hGuard
      have hChannelLive : isLive channel := Option.isNone_iff_eq_none.mpr hNone
      have hChanges : ¬(channel.slug = slug ∧ channel.description = input.description.getD channel.description) := by
        rintro ⟨hSame, _⟩
        obtain rfl := h.distinct holder hRow channel (mem_of_find hGet) hLive hChannelLive (hSlug.trans hSame.symm)
        exact hOther (key_of_find hGet)
      simp only [hInput, Option.getD_some, hFound, Option.any_some, Except.map]
      rw [if_neg hChanges, if_pos (by simpa [hOther] using hLive)]
  | archive id actor now => cases hAsked
  | addMember channelId memberName role actor now => cases hAsked
  | removeMember channelId memberName actor now => cases hAsked

theorem resolvesSlugs_iff (h : store.Resolves) (call : Call) :
    ResolvesSlugs (stepAt apply store call) ↔ store.Unshadowed call := by
  rw [← resolves_apply_iff h]
  constructor
  · exact fun hStep => hStep.resolves
  · intro hAfter
    refine ⟨hAfter.distinct, hAfter, ?_⟩
    intro self slug hAsked hHeld
    have hApply := apply_of_held h hAsked hHeld
    exact ⟨congrArg Prod.fst hApply, congrArg Prod.snd hApply⟩

theorem distinct_change {rows rows' : List Channel} {claimed : Option (String × String)} (h : Change rows claimed rows')
    (hDistinct : FirstOfName.Distinct Channel.slug isLive rows) : FirstOfName.Distinct Channel.slug isLive rows' := by
  have hRest : ∀ {before after : List Channel} {channel : Channel}, rows = before ++ channel :: after →
      FirstOfName.Distinct Channel.slug isLive (before ++ after) := by
    rintro before after channel rfl
    exact hDistinct.mono (List.append_subset.mpr ⟨List.subset_append_left _ _, fun _ h => List.mem_append_right _ (List.mem_cons_of_mem _ h)⟩)
  cases h with
  | same => exact hDistinct
  | archived at' hRows hOnce hLive => exact (hRest hRows).insert fun hDead => by cases hDead
  | created channel hLive hFresh hFree =>
    have hRows : FirstOfName.Distinct Channel.slug isLive (rows ++ []) := by simpa using hDistinct
    exact hRows.insert fun _ => by simpa using hFree
  | renamed slug description hRows hOnce hLive hBefore hFree => exact (hRest hRows).insert fun _ => hFree

/-! ## Every sequence of calls -/

theorem resolves_start (now : Int) : (start now).Resolves := by
  intro channel hChannel _
  obtain rfl := List.mem_singleton.mp hChannel
  rfl

/-- Slugs resolve to live channels after every call, and a slug that is held is refused, exactly if every channel that
comes to have a slug comes to have one that no row before its own carries. -/
theorem slugs_resolve_iff (now : Int) (calls : List Call) :
    (∀ step ∈ run apply (start now) calls, ResolvesSlugs step) ↔
      ∀ step ∈ run apply (start now) calls, step.before.Unshadowed step.input :=
  forall_step_iff (R := Resolves) (V := fun _ => True) (fun _ call h _ => resolvesSlugs_iff h call)
    (fun _ _ _ _ hStep => hStep.resolves) (resolves_start now) fun _ _ => trivial

theorem live_channels_distinct (now : Int) (calls : List Call) :
    FirstOfName.Distinct Channel.slug isLive (final apply (start now) calls).rows :=
  final_invariant (P := fun store : SqliteChannelStore => FirstOfName.Distinct Channel.slug isLive store.rows)
    (fun store call hDistinct => distinct_change (store.change_apply call) hDistinct) (resolves_start now).distinct calls

/-- A channel that is created under the slug of an archived one is not found by it, and the next create of the slug runs
into the index instead of the check. -/
theorem reclaimed_slug_finds_archived :
    let calls : List Call := [.create ⟨"ops", "", "alice", "1", 1⟩, .archive "1" "alice" 2, .create ⟨"ops", "", "bob", "2", 3⟩]
    let store := final apply (start 0) calls
    (store.active "ops").map Channel.id = ["2"] ∧ (store.getBySlug "ops").map Channel.id = some "1" ∧
      apply store (.create ⟨"ops", "", "carol", "3", 4⟩) = (store, .error .constraint) ∧
      ¬∀ step ∈ run apply (start 0) calls, ResolvesSlugs step := by
  intro calls store
  have hFirst : (store.getBySlug "ops").map Channel.id = some "1" := by decide
  refine ⟨by decide, hFirst, rfl, ?_⟩
  intro hAll
  have hLast := hAll _ (List.getLast_mem (List.cons_ne_nil _ _))
  have hRows : store.rows = [⟨"general", "general", "", "__system__", 0, none⟩, ⟨"1", "ops", "", "alice", 1, some 2⟩,
      ⟨"2", "ops", "", "bob", 3, none⟩] := rfl
  have hMem : (⟨"2", "ops", "", "bob", 3, none⟩ : Channel) ∈ store.rows := by
    rw [hRows]
    simp
  have hFound : store.getBySlug "ops" = some ⟨"2", "ops", "", "bob", 3, none⟩ := hLast.resolves _ hMem rfl
  rw [hFound] at hFirst
  exact absurd hFirst (by decide)

end CommandSuite.SqliteChannelStore
