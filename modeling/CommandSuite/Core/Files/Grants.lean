import CommandSuite.Core.Files.Sharing

/-! # Grants open what was shared

An entry has an identity from when it appears, which moves with it and which overwriting keeps.
-/

namespace CommandSuite.Files

open Library Fallible Database Broker Transcript

/-- The step at which an entry appeared, and the path at which it did. -/
abbrev Identity := Nat × Path

structure Share where
  via : String
  files : List Identity
  targetName : Option Name
  context : PushContext

/-- The office with the identities of its entries, those that each waiting request attaches, and the shares so far. -/
structure Watched where
  office : Office
  steps : Nat
  identity : Path → Option Identity
  held : List (List (Path × Identity))
  shares : List Share

def Watched.db (watched : Watched) : Database := watched.office.desk.store.db

def Watched.empty : Watched := ⟨.empty, 0, fun _ => none, [], []⟩

def nextIdentity (watched : Watched) (origin : Path → Path) (after : Database) (path : Path) : Option Identity :=
  match after.getEntry path, watched.db.getEntry (origin path) with
  | none, _ => none
  | some _, some _ => watched.identity (origin path)
  | some _, none => some (watched.steps, path)

def pathOf (attachment : Attachment) : Option Path := (normalizePath attachment.path).toOption

def holds (identity : Path → Option Identity) (pending : PendingPush) : List (Path × Identity) :=
  (pending.payload.attachments.getD []).filterMap fun attachment => do
    let path ← pathOf attachment
    let entry ← identity path
    return (path, entry)

section Observe

variable {L E : Type}

def Sharing.origin (event : Sharing L E) (reply : SharingReply) : Path → Path :=
  match event, reply with
  | .file event _, .file outcome => originOf event outcome
  | _, _ => id

def Watched.nextHeld (watched : Watched) (event : Sharing L E) (office : Office) : List (List (Path × Identity)) :=
  match event with
  | .pushed index .. => watched.held.eraseIdx index
  | _ => watched.held ++ (office.pushes.drop watched.office.pushes.length).map (holds watched.identity)

def Watched.share (watched : Watched) : Sharing L E → Option Share
  | .pushed index (some id) _ _ =>
    match watched.office.pushes[index]?, watched.held[index]? with
    | some pending, some held =>
      (resolveTarget pending.payload.toName).toOption.map fun targetName =>
        ⟨id, held.map Prod.snd, targetName, pending.context⟩
    | _, _ => none
  | _ => none

def observe : Machine Watched (Sharing L E) SharingReply := fun watched event =>
  let (office, reply) := respond watched.office event
  ({ office := office
     steps := watched.steps + 1
     identity := nextIdentity watched (event.origin reply) office.desk.store.db
     held := watched.nextHeld event office
     shares := watched.shares ++ (watched.share event).toList }, reply)

end Observe

/-- The grant is on an existing file, that of one entry which was attached to the message the grant came by, for
somebody in its audience. -/
def OpensShared (watched : Watched) (grant : FsGrantRow) : Prop :=
  ∃ row entry share, watched.db.getEntry grant.path = some row ∧ row.kind = .file ∧
    watched.identity grant.path = some entry ∧ (∀ path, watched.identity path = some entry → path = grant.path) ∧
    share ∈ watched.shares ∧ share.via = grant.grantedVia ∧ entry ∈ share.files ∧
    AudienceOf share.targetName share.context grant.viewer

def WellGranted (watched : Watched) : Prop := ∀ grant ∈ watched.db.grants.rows, OpensShared watched grant

section Properties

variable {L E : Type}

/-- A push gives everybody in its audience access to its attachments. A broadcast reaches who is on the roster. -/
def GrantsAudience (step : Step Watched (Sharing L E) SharingReply) : Prop :=
  ∀ index id roster now pending targetName, step.input = .pushed index (some id) roster now →
    step.before.office.pushes[index]? = some pending → resolveTarget pending.payload.toName = .ok targetName →
    ∀ attachment ∈ pending.payload.attachments.getD [], ∃ path, normalizePath attachment.path = .ok path ∧
      ∀ viewer, AudienceOf targetName pending.context viewer →
        (targetName = none → pending.context.recipients = none → viewer ∈ roster) →
        ownerOf path = some viewer ∨
          ∃ grant ∈ step.after.db.grants.rows, grant.path = path ∧ grant.viewer = viewer ∧ grant.grantedVia = id

/-- A push is settled that grants somebody a path at which none of the attached entries is. -/
def sharesStale (watched : Watched) : Sharing L E → Bool
  | .pushed index (some _) roster _ =>
    match watched.office.pushes[index]?, watched.held[index]? with
    | some pending, some held =>
      match resolveTarget pending.payload.toName with
      | .ok targetName => held.any fun attached =>
          (pending.recipients (targetName.map Name.text) roster).any (fun viewer => ownerOf attached.1 ≠ some viewer) &&
            held.all fun other => watched.identity attached.1 ≠ some other.2
      | .error _ => false
    | _, _ => false
  | _ => false

end Properties

/-! ## Identities -/

structure Identified (watched : Watched) : Prop where
  present : ∀ path, (watched.identity path).isSome = (watched.db.getEntry path).isSome
  earlier : ∀ path entry, watched.identity path = some entry → entry.1 < watched.steps
  single : ∀ path other entry, watched.identity path = some entry → watched.identity other = some entry → path = other

structure Follows (origin : Path → Path) (watched next : Watched) : Prop where
  descends : Descends origin watched.db next.db
  identity : next.identity = nextIdentity watched origin next.db
  steps : next.steps = watched.steps + 1

section Follows

variable {origin : Path → Path} {watched next : Watched} {path : Path} {entry : Identity}

theorem nextIdentity_eq_some_iff {after : Database} : nextIdentity watched origin after path = some entry ↔
    (after.getEntry path).isSome ∧ if (watched.db.getEntry (origin path)).isSome then
      watched.identity (origin path) = some entry else entry = (watched.steps, path) := by
  unfold nextIdentity
  cases after.getEntry path with
  | none => simp
  | some row =>
    cases watched.db.getEntry (origin path) with
    | none => simp [eq_comm]
    | some prior => simp

theorem Follows.identity_eq_some_iff (h : Follows origin watched next) : next.identity path = some entry ↔
    (next.db.getEntry path).isSome ∧ if (watched.db.getEntry (origin path)).isSome then
      watched.identity (origin path) = some entry else entry = (watched.steps, path) := by
  rw [h.identity, nextIdentity_eq_some_iff]

theorem identified_next (h : Identified watched) (hNext : Follows origin watched next) : Identified next := by
  constructor
  · intro path
    rw [Bool.eq_iff_iff, Option.isSome_iff_exists]
    simp only [hNext.identity_eq_some_iff, exists_and_left, and_iff_left_iff_imp]
    intro _
    split
    · rename_i hPrior
      rw [← h.present] at hPrior
      exact Option.isSome_iff_exists.mp hPrior
    · exact ⟨_, rfl⟩
  · intro path entry hEntry
    rw [hNext.identity_eq_some_iff] at hEntry
    rw [hNext.steps]
    obtain ⟨_, hOrigin⟩ := hEntry
    split at hOrigin
    · exact Nat.lt_succ_of_lt (h.earlier _ entry hOrigin)
    · rw [hOrigin]
      exact Nat.lt_succ_self watched.steps
  · intro path other entry hPath hOther
    rw [hNext.identity_eq_some_iff] at hPath hOther
    obtain ⟨hPathSome, hPath⟩ := hPath
    obtain ⟨hOtherSome, hOther⟩ := hOther
    split at hPath
    · split at hOther
      · exact hNext.descends.single path other hPathSome hOtherSome (h.single _ _ entry hPath hOther)
      · have hEarlier := h.earlier _ entry hPath
        rw [hOther] at hEarlier
        exact absurd hEarlier (lt_irrefl _)
    · split at hOther
      · have hEarlier := h.earlier _ entry hOther
        rw [hPath] at hEarlier
        exact absurd hEarlier (lt_irrefl _)
      · rw [hPath] at hOther
        exact (Prod.mk.inj hOther).2

end Follows

/-! ## What waiting requests hold -/

structure HeldBy (watched : Watched) (pending : PendingPush) (held : List (Path × Identity)) : Prop where
  routed : Routed pending
  all : ∀ attachment ∈ pending.payload.attachments.getD [], ∃ path entry, normalizePath attachment.path = .ok path ∧
    path ≠ ROOT_PATH ∧ (path, entry) ∈ held
  files : ∀ attached ∈ held, attached.2.1 < watched.steps ∧
    ∀ path row, watched.identity path = some attached.2 → watched.db.getEntry path = some row → row.kind = .file

section Held

variable {origin : Path → Path} {watched next : Watched} {pending : PendingPush} {held : List (Path × Identity)}

theorem heldBy_next (h : HeldBy watched pending held) (hNext : Follows origin watched next) : HeldBy next pending held := by
  refine ⟨h.routed, h.all, fun attached hAttached => ?_⟩
  obtain ⟨hEarlier, hFile⟩ := h.files attached hAttached
  refine ⟨by rw [hNext.steps]; exact Nat.lt_succ_of_lt hEarlier, fun path row' hPath hAfter => ?_⟩
  obtain ⟨_, hOrigin⟩ := hNext.identity_eq_some_iff.mp hPath
  split at hOrigin
  · rename_i hPrior
    obtain ⟨row, hRow⟩ := Option.isSome_iff_exists.mp hPrior
    exact (hNext.descends.entries path row' hAfter row hRow).trans (hFile _ row hOrigin hRow)
  · rw [hOrigin] at hEarlier
    exact absurd hEarlier (lt_irrefl _)

theorem heldBy_holds (h : Identified watched) (hRouted : Routed pending)
    (hFiles : ∀ attachment ∈ pending.payload.attachments.getD [], AttachesFile watched.db attachment) :
    HeldBy watched pending (holds watched.identity pending) := by
  have hHolds : ∀ attachment ∈ pending.payload.attachments.getD [], ∃ row entry, watched.db.getEntry row.path = some row ∧
      row.kind = .file ∧ row.path ≠ ROOT_PATH ∧ normalizePath attachment.path = .ok row.path ∧
      watched.identity row.path = some entry := by
    intro attachment hAttachment
    obtain ⟨row, hRow, hKind, hRoot, hPath⟩ := hFiles attachment hAttachment
    have hPresent := h.present row.path
    rw [hRow] at hPresent
    obtain ⟨entry, hEntry⟩ := Option.isSome_iff_exists.mp hPresent
    exact ⟨row, entry, hRow, hKind, hRoot, by rw [hPath]; exact normalizePath_render row.path, hEntry⟩
  refine ⟨hRouted, ?_, ?_⟩
  · intro attachment hAttachment
    obtain ⟨row, entry, _, _, hRoot, hPath, hEntry⟩ := hHolds attachment hAttachment
    refine ⟨row.path, entry, hPath, hRoot, List.mem_filterMap.mpr ⟨attachment, hAttachment, ?_⟩⟩
    simp [pathOf, hPath, Except.toOption, hEntry]
  · intro attached hAttached
    obtain ⟨attachment, hAttachment, hAttached⟩ := List.mem_filterMap.mp hAttached
    obtain ⟨row, entry, hRow, hKind, _, hPath, hEntry⟩ := hHolds attachment hAttachment
    simp only [pathOf, hPath, Except.toOption, hEntry, Option.bind_eq_bind, Option.bind_some, Option.pure_def,
      Option.some.injEq] at hAttached
    subst hAttached
    refine ⟨h.earlier _ entry hEntry, fun path other hOther hOtherRow => ?_⟩
    cases h.single _ _ entry hOther hEntry
    cases hRow.symm.trans hOtherRow
    exact hKind

end Held

/-! ## One step -/

structure Observed (watched : Watched) : Prop where
  identified : Identified watched
  granted : WellGranted watched
  held : List.Forall₂ (HeldBy watched) watched.office.pushes watched.held

theorem observed_empty : Observed .empty := ⟨⟨fun _ => rfl, nofun, nofun⟩, nofun, .nil⟩

theorem WellGranted.bound {watched : Watched} (h : WellGranted watched) : GrantsBound watched.db := by
  intro grant hGrant
  obtain ⟨row, _, _, hRow, _⟩ := h grant hGrant
  rw [hRow]
  rfl

theorem opensShared_next {origin : Path → Path} {watched next : Watched} {old grant : FsGrantRow}
    (h : OpensShared watched old) (hNext : Follows origin watched next) (hIdentified : Identified next)
    (hShares : watched.shares ⊆ next.shares) (hSome : (next.db.getEntry grant.path).isSome)
    (hPath : old.path = origin grant.path) (hViewer : old.viewer = grant.viewer) (hVia : old.grantedVia = grant.grantedVia) :
    OpensShared next grant := by
  obtain ⟨row, entry, share, hRow, hKind, hEntry, _, hShare, hShareVia, hFile, hAudience⟩ := h
  rw [hPath] at hRow hEntry
  obtain ⟨row', hRow'⟩ := Option.isSome_iff_exists.mp hSome
  have hEntry' : next.identity grant.path = some entry := by
    rw [hNext.identity_eq_some_iff, hRow, if_pos Option.isSome_some]
    exact ⟨hSome, hEntry⟩
  exact ⟨row', entry, share, hRow', (hNext.descends.entries _ _ hRow' _ hRow).trans hKind, hEntry',
    fun path hOther => hIdentified.single path grant.path entry hOther hEntry', hShares hShare, hShareVia.trans hVia, hFile,
    hViewer ▸ hAudience⟩

section Observe

variable {L E : Type} {watched : Watched} {event : Sharing L E}

theorem entries_observe (h : ∀ served shares, event ≠ .file served shares) :
    (observe watched event).1.db.entries = watched.db.entries := by
  unfold Watched.db observe respond
  cases event with
  | file served shares => exact absurd rfl (h served shares)
  | push =>
    dsimp only
    split <;> rfl
  | discuss =>
    dsimp only
    split <;> rfl
  | pushed index id roster now =>
    dsimp only
    split
    · unfold finishPush
      split
      · rfl
      · exact (granted_grantAttachmentsTo _ _ _ _ _).entries
    · rfl

theorem origin_observe (h : ∀ served shares, event ≠ .file served shares) (reply : SharingReply) : event.origin reply = id := by
  cases event with
  | file served shares => exact absurd rfl (h served shares)
  | push | discuss | pushed => rfl

theorem descends_observe (h : WellGranted watched) (event : Sharing L E) :
    Descends (event.origin (observe watched event).2) watched.db (observe watched event).1.db := by
  cases event with
  | file event shares =>
    refine (evolves_serve watched.office.desk event h.bound ?_).toDescends
    rintro _ _ _ _ rfl
    cases shares
  | push | discuss | pushed => exact .of_entries (entries_observe (by rintro _ _ ⟨⟩))

theorem follows_observe (h : WellGranted watched) (event : Sharing L E) :
    Follows (event.origin (observe watched event).2) watched (observe watched event).1 :=
  ⟨descends_observe h event, rfl, rfl⟩

theorem shares_observe (event : Sharing L E) : watched.shares ⊆ (observe watched event).1.shares := List.subset_append_left _ _

theorem granted_file (h : Observed watched) (event : Event) (shares : event.isGrant = false) :
    WellGranted (observe watched (.file event shares : Sharing L E)).1 := by
  have hFollows := follows_observe h.granted (.file event shares : Sharing L E)
  have hIdentified := identified_next h.identified hFollows
  have hGrants := (evolves_serve watched.office.desk event h.granted.bound (by rintro _ _ _ _ rfl; cases shares)).grants
  intro grant hGrant
  obtain ⟨hSome, old, hOld, hPath, hViewer, hVia⟩ := hGrants grant hGrant
  exact opensShared_next (h.granted old hOld) hFollows hIdentified (shares_observe _) hSome hPath hViewer hVia

theorem granted_old (h : Observed watched) (hEvent : ∀ served shares, event ≠ .file served shares)
    {grant : FsGrantRow} (hGrant : grant ∈ watched.db.grants.rows) : OpensShared (observe watched event).1 grant := by
  have hFollows := follows_observe h.granted event
  refine opensShared_next (h.granted grant hGrant) hFollows (identified_next h.identified hFollows) (shares_observe event) ?_
    (by rw [origin_observe hEvent]; rfl) rfl rfl
  rw [getEntry, entries_observe hEvent]
  exact h.granted.bound grant hGrant

variable {index : Nat} {pending : PendingPush}

theorem observe_pushed {id : String} (hPending : watched.office.pushes[index]? = some pending)
    (roster : List String) (now : Int) :
    (observe watched (.pushed index (some id) roster now : Sharing L E)).1.office =
      { desk := { watched.office.desk with store := finishPush pending id roster now watched.office.desk.store }
        pushes := watched.office.pushes.eraseIdx index } := by
  unfold observe respond
  dsimp only
  rw [hPending]

section

variable (h : Observed watched)
include h

theorem granted_made {held : List (Path × Identity)}
    {targetName : Option Name} {id : String} {roster : List String} {now : Int}
    (hPending : watched.office.pushes[index]? = some pending) (hAt : watched.held[index]? = some held)
    (hHeld : HeldBy watched pending held) (hTarget : resolveTarget pending.payload.toName = .ok targetName)
    (hFresh : sharesStale watched (.pushed index (some id) roster now : Sharing L E) = false) {grant : FsGrantRow}
    {attachment : Attachment} (hAttachment : attachment ∈ pending.payload.attachments.getD [])
    (hPath : normalizePath attachment.path = .ok grant.path)
    (hViewer : grant.viewer ∈ pending.recipients (targetName.map Name.text) roster)
    (hOwner : ownerOf grant.path ≠ some grant.viewer) (hVia : grant.grantedVia = id) :
    OpensShared (observe watched (.pushed index (some id) roster now : Sharing L E)).1 grant := by
  obtain ⟨path, entry, hAttached, _, hMem⟩ := hHeld.all attachment hAttachment
  cases hPath.symm.trans hAttached
  have hThere : ∃ other ∈ held, watched.identity grant.path = some other.2 := by
    simp only [sharesStale, hPending, hAt, hTarget, List.any_eq_false] at hFresh
    have hAny : (pending.recipients (targetName.map Name.text) roster).any (fun viewer => ownerOf grant.path ≠ some viewer) = true :=
      List.any_eq_true.mpr ⟨grant.viewer, hViewer, by simpa using hOwner⟩
    have hNot := hFresh _ hMem
    rw [hAny, Bool.true_and] at hNot
    simpa using hNot
  obtain ⟨other, hOther, hIdentity⟩ := hThere
  have hSome := h.identified.present grant.path
  rw [hIdentity] at hSome
  obtain ⟨row, hRow⟩ := Option.isSome_iff_exists.mp hSome.symm
  have hFollows := follows_observe h.granted (.pushed index (some id) roster now : Sharing L E)
  have hEntries : (observe watched (.pushed index (some id) roster now : Sharing L E)).1.db.entries = watched.db.entries :=
    entries_observe (by rintro _ _ ⟨⟩)
  have hRow' : (observe watched (.pushed index (some id) roster now : Sharing L E)).1.db.getEntry grant.path = some row := by
    rw [getEntry, hEntries]
    exact hRow
  have hIdentity' : (observe watched (.pushed index (some id) roster now : Sharing L E)).1.identity grant.path = some other.2 := by
    rw [hFollows.identity_eq_some_iff, hRow']
    change _ ∧ if (watched.db.getEntry grant.path).isSome = true then _ else _
    rw [hRow, if_pos Option.isSome_some]
    exact ⟨Option.isSome_some, hIdentity⟩
  have hShare : watched.share (.pushed index (some id) roster now : Sharing L E) =
      some ⟨id, held.map Prod.snd, targetName, pending.context⟩ := by
    simp only [Watched.share, hPending, hAt, hTarget]
    rfl
  refine ⟨row, other.2, ⟨id, held.map Prod.snd, targetName, pending.context⟩, hRow', (hHeld.files other hOther).2 _ row hIdentity hRow, hIdentity', fun path hSame =>
    (identified_next h.identified hFollows).single path grant.path other.2 hSame hIdentity', ?_, hVia.symm,
    List.mem_map_of_mem hOther, ((mem_recipients_iff hHeld.routed hTarget roster grant.viewer).mp hViewer).1⟩
  change _ ∈ watched.shares ++ (watched.share _).toList
  rw [hShare]
  exact List.mem_append_right _ (List.mem_singleton_self _)

theorem exists_held (hPending : watched.office.pushes[index]? = some pending) :
    ∃ held, watched.held[index]? = some held ∧ HeldBy watched pending held := by
  obtain ⟨hIndex, rfl⟩ := List.getElem?_eq_some_iff.mp hPending
  have hBound : index < watched.held.length := h.held.length_eq ▸ hIndex
  exact ⟨watched.held[index], List.getElem?_eq_getElem hBound, h.held.get hIndex hBound⟩

theorem granted_pushed {id : Option String} {roster : List String} {now : Int}
    (hFresh : sharesStale watched (.pushed index id roster now : Sharing L E) = false) :
    WellGranted (observe watched (.pushed index id roster now : Sharing L E)).1 := by
  have hOld : ∀ grant ∈ watched.db.grants.rows, OpensShared (observe watched (.pushed index id roster now : Sharing L E)).1 grant :=
    fun grant hGrant => granted_old h (by rintro _ _ ⟨⟩) hGrant
  intro grant hGrant
  cases hPending : watched.office.pushes[index]? with
  | none =>
    apply hOld
    simpa [observe, respond, Watched.db, hPending] using hGrant
  | some pending =>
    cases id with
    | none =>
      apply hOld
      simpa [observe, respond, Watched.db, hPending] using hGrant
    | some id =>
      obtain ⟨held, hAt, hHeld⟩ := exists_held h hPending
      rw [Watched.db, observe_pushed hPending] at hGrant
      cases hTarget : resolveTarget pending.payload.toName with
      | error e =>
        apply hOld
        simpa [Watched.db, finishPush, hTarget] using hGrant
      | ok targetName =>
        have hGranted := granted_finishPush pending hTarget id roster now watched.office.desk.store
        rcases hGranted.made grant hGrant with hBefore | ⟨pair, hPair, hPath, hViewer, hOwner, hVia⟩
        · exact hOld grant hBefore
        · obtain ⟨attachment, hAttachment, hPair⟩ := List.mem_flatMap.mp hPair
          obtain ⟨recipient, hRecipient, rfl⟩ := List.mem_map.mp hPair
          exact granted_made h hPending hAt hHeld hTarget hFresh hAttachment hPath (hViewer ▸ hRecipient) hOwner hVia

/-! ## Runs -/

theorem heldBy_observe (event : Sharing L E) :
    ∀ pending held, HeldBy watched pending held → HeldBy (observe watched event).1 pending held :=
  fun _ _ hHeld => heldBy_next hHeld (follows_observe h.granted event)

theorem observed_opened (hEvent : ∀ served shares, event ≠ .file served shares)
    (hGrants : (observe watched event).1.db.grants = watched.db.grants)
    (hHeld : List.Forall₂ (HeldBy watched) (observe watched event).1.office.pushes (observe watched event).1.held) :
    Observed (observe watched event).1 := by
  refine ⟨identified_next h.identified (follows_observe h.granted event), ?_, hHeld.imp (heldBy_observe h event)⟩
  intro grant hGrant
  rw [hGrants] at hGrant
  exact granted_old h hEvent hGrant

end

theorem forall₂_eraseIdx {α β : Type} {R : α → β → Prop} {as : List α} {bs : List β} (h : List.Forall₂ R as bs) (index : Nat) :
    List.Forall₂ R (as.eraseIdx index) (bs.eraseIdx index) := by
  induction h generalizing index with
  | nil => exact .nil
  | cons hFirst hRest ih =>
    cases index with
    | zero => exact hRest
    | succ index => exact .cons hFirst (ih index)

theorem observed_observe (h : Observed watched) (event : Sharing L E) (hFresh : sharesStale watched event = false) :
    Observed (observe watched event).1 := by
  have hNext := identified_next h.identified (follows_observe h.granted event)
  cases event with
  | file served shares =>
    refine ⟨hNext, granted_file h served shares, ?_⟩
    have hHeld : (observe watched (.file served shares : Sharing L E)).1.held = watched.held := by
      simp [observe, respond, Watched.nextHeld]
    rw [hHeld]
    exact h.held.imp (heldBy_observe h _)
  | push acl directory member payload broker =>
    cases hOpen : openPush acl watched.office.desk.store.db directory member payload broker with
    | error error =>
      refine observed_opened h (by rintro _ _ ⟨⟩) ?_ ?_
      · simp [observe, respond, hOpen, Watched.db]
      · simpa [observe, respond, hOpen, Watched.nextHeld] using h.held
    | ok pending =>
      obtain ⟨hRouted, hFiles⟩ := openPush_eq_ok hOpen
      refine observed_opened h (by rintro _ _ ⟨⟩) ?_ ?_
      · simp [observe, respond, hOpen, Watched.db, Office.wait]
      · have hHeld := List.rel_append h.held (.cons (heldBy_holds h.identified hRouted hFiles) .nil)
        simpa [observe, respond, hOpen, Watched.nextHeld, Office.wait] using hHeld
  | discuss acl objective members member id body =>
    cases hOpen : openDiscuss acl watched.office.desk.store.db objective members member id body with
    | error refusal =>
      refine observed_opened h (by rintro _ _ ⟨⟩) ?_ ?_
      · simp [observe, respond, hOpen, Watched.db]
      · simpa [observe, respond, hOpen, Watched.nextHeld] using h.held
    | ok pending =>
      obtain ⟨hRouted, hFiles⟩ := openDiscuss_eq_ok hOpen
      refine observed_opened h (by rintro _ _ ⟨⟩) ?_ ?_
      · simp [observe, respond, hOpen, Watched.db, Office.wait]
      · have hHeld := List.rel_append h.held (.cons (heldBy_holds h.identified hRouted hFiles) .nil)
        simpa [observe, respond, hOpen, Watched.nextHeld, Office.wait] using hHeld
  | pushed index id roster now =>
    refine ⟨hNext, granted_pushed h hFresh, ?_⟩
    have hPushes : (observe watched (.pushed index id roster now : Sharing L E)).1.office.pushes =
        watched.office.pushes.eraseIdx index := by
      unfold observe respond
      dsimp only
      split <;> rfl
    rw [hPushes]
    exact (forall₂_eraseIdx h.held index).imp (heldBy_observe h _)

theorem grantsAudience_observe (h : Observed watched) (event : Sharing L E) : GrantsAudience (stepAt observe watched event) := by
  rintro index id roster now pending targetName rfl hPending hTarget attachment hAttachment
  rw [stepAt_before] at hPending
  obtain ⟨held, _, hHeld⟩ := exists_held h hPending
  obtain ⟨path, _, hPath, hRoot, _⟩ := hHeld.all attachment hAttachment
  refine ⟨path, hPath, fun viewer hAudience hRoster => ?_⟩
  have hViewer := (mem_recipients_iff hHeld.routed hTarget roster viewer).mpr ⟨hAudience, hRoster⟩
  have hGranted := granted_finishPush pending hTarget id roster now watched.office.desk.store
  have hPair : (attachment, viewer) ∈ (pending.payload.attachments.getD []).flatMap fun attachment =>
      (pending.recipients (targetName.map Name.text) roster).map (attachment, ·) :=
    List.mem_flatMap.mpr ⟨attachment, hAttachment, List.mem_map_of_mem hViewer⟩
  change ownerOf path = some viewer ∨
    ∃ grant ∈ (observe watched (.pushed index (some id) roster now : Sharing L E)).1.db.grants.rows, _
  rw [Watched.db, observe_pushed hPending]
  exact hGranted.all (attachment, viewer) hPair path hPath hRoot

/-- As long as no push goes stale, every grant is on a file that was shared and a push grants to its audience. -/
theorem grants_open_shared (events : List (Sharing L E))
    (hFresh : ∀ step ∈ run observe .empty events, sharesStale step.before step.input = false) :
    ∀ step ∈ run observe .empty events, WellGranted step.after ∧ GrantsAudience step := by
  intro step hStep
  have hBefore := hFresh step hStep
  obtain ⟨hObserved, hAt⟩ := run_invariant_of (C := fun watched event => sharesStale watched event = false)
    (fun _ event h => observed_observe h event) observed_empty hFresh step hStep
  rw [hAt]
  exact ⟨(observed_observe hObserved step.input hBefore).granted, grantsAudience_observe hObserved step.input⟩

end Observe

/-! Alice attaches her plan to a discussion with Bob, and puts another file in its place before the broker is done. -/

def planner : Member := ⟨⟨"alice", .refl true⟩, []⟩

def plan : Path := ⟨["alice", "plan.txt"], by decide, by decide⟩

def writesPlan (hash : String) (now : Int) : List (Sharing Unit Unit) :=
  [.file (.call none (toViewer planner) now (.writeFile "/alice/plan.txt" "text/plain" none)) rfl,
    .file (.putSettled 0 (.ok ⟨hash, 12⟩)) rfl]

def discussesPlan : Sharing Unit Unit :=
  .discuss none (some ⟨"obj-1", "Ship", "", "Shipped", .active, "alice", "bob", [], 1, 1, none, none, none, []⟩) [] planner
    "obj-1" (some ⟨"The plan", none, some [⟨"/alice/plan.txt", "plan.txt", 12, "text/plain"⟩]⟩)

def pushesPlan : Sharing Unit Unit := .pushed 0 (some "msg-1") [] 4

def sharesPlan : List (Sharing Unit Unit) := writesPlan "a3f1" 1 ++ [discussesPlan]

theorem plan_opens_shared : WellGranted (stepAt observe (final observe .empty sharesPlan) pushesPlan).after ∧
    GrantsAudience (stepAt observe (final observe .empty sharesPlan) pushesPlan) := by
  refine grants_open_shared (sharesPlan ++ [pushesPlan]) (by decide) _ ?_
  rw [run_append]
  exact List.mem_append_right _ (List.mem_singleton_self _)

def replacesPlan : List (Sharing Unit Unit) :=
  writesPlan "a3f1" 1 ++ [discussesPlan, .file (.call none (toViewer planner) 2 (.remove "/alice/plan.txt" false)) rfl] ++
    writesPlan "77b0" 3

theorem replaced_plan_opens :
    ¬∀ events : List (Sharing Unit Unit), ∀ step ∈ run observe .empty events,
      WellGranted step.after ∧ GrantsAudience step := by
  intro h
  have hLast := h (replacesPlan ++ [pushesPlan])
  rw [run_append] at hLast
  have hGranted := (hLast _ (List.mem_append_right _ (List.mem_singleton_self _))).1
  have hPlan : let watched := (observe (final observe .empty replacesPlan) pushesPlan).1
      ∃ grant ∈ watched.db.grants.rows, grant.path = plan ∧ grant.viewer = "bob" ∧
        ∀ share ∈ watched.shares, ∀ entry ∈ share.files, watched.identity plan ≠ some entry := by decide
  obtain ⟨grant, hMem, hPath, _, hNone⟩ := hPlan
  obtain ⟨_, entry, share, _, _, hEntry, _, hShare, _, hFile, _⟩ := hGranted grant hMem
  rw [hPath] at hEntry
  exact hNone share hShare entry hFile hEntry

end CommandSuite.Files
