import CommandSuite.Core.App
import CommandSuite.Core.Files.Lineage
import CommandSuite.Core.Objectives

/-! # Sharing files

`POST /push` and `POST /objectives/:id/discuss` with attachments: each checks the attachments, waits for the broker's
push, and grants afterwards.
-/

namespace CommandSuite.Files

open Library Fallible Database Broker Objectives

def toViewer (member : Member) : ViewerContext := ⟨member.name, member.permissions⟩

/-- One round of the loop of `canonicalizeAttachments`. -/
def canonicalizeAttachment (acl : ObjectiveAcl) (db : Database) (viewer : ViewerContext) (claim : Attachment) :
    Except Refusal Attachment :=
  match stat acl db claim.path viewer with
  | .error ⟨.forbidden, _⟩ => .error ⟨403, s!"no access to attachment: {claim.path}"⟩
  | .error error => .error ⟨500, error.message⟩
  | .ok none => .error ⟨400, s!"attachment not found: {claim.path}"⟩
  | .ok (some entry) =>
    if entry.kind ≠ .file then .error ⟨400, s!"attachment is a directory: {claim.path}"⟩
    else
      match entry.size, entry.mimeType with
      | some size, some mimeType => .ok ⟨entry.path.render, entry.name, size, mimeType⟩
      | _, _ => .error ⟨400, s!"attachment is corrupt: {claim.path}"⟩

def canonicalizeAttachments (acl : ObjectiveAcl) (db : Database) (claims : Option (List Attachment))
    (viewer : ViewerContext) : Except Refusal (List Attachment) :=
  (claims.getD []).mapM (canonicalizeAttachment acl db viewer)

def AttachesFile (db : Database) (attachment : Attachment) : Prop :=
  ∃ row, db.getEntry row.path = some row ∧ row.kind = .file ∧ row.path ≠ ROOT_PATH ∧ attachment.path = row.path.render

section Attachments

variable {acl : ObjectiveAcl} {db : Database} {viewer : ViewerContext}

theorem stat_eq_some {raw : String} {entry : FsEntry} (h : stat acl db raw viewer = .ok (some entry)) :
    ∃ row, db.getEntry row.path = some row ∧ row.path ≠ ROOT_PATH ∧ entry = withCapability acl viewer (rowToEntry row) := by
  unfold stat at h
  cases hPath : normalizePath raw with
  | error e =>
    rw [hPath] at h
    cases h
  | ok path =>
    rw [hPath] at h
    simp only [bind, Except.bind] at h
    split at h
    · cases h
    · rename_i hRoot
      split at h
      · cases h
      · obtain ⟨row, hRow, rfl⟩ := Option.map_eq_some_iff.mp (Except.ok.inj h)
        obtain rfl := path_of_getEntry hRow
        exact ⟨row, hRow, hRoot, rfl⟩

theorem attachesFile_of_canonicalize {claim attachment : Attachment}
    (h : canonicalizeAttachment acl db viewer claim = .ok attachment) : AttachesFile db attachment := by
  unfold canonicalizeAttachment at h
  split at h
  · cases h
  · cases h
  · cases h
  · rename_i entry hStat
    split at h
    · cases h
    · rename_i hKind
      split at h
      · cases h
        obtain ⟨row, hRow, hRoot, rfl⟩ := stat_eq_some hStat
        exact ⟨row, hRow, by simpa [withCapability, rowToEntry] using hKind, hRoot, rfl⟩
      · cases h

theorem attachesFile_of_mem {claims attachments : List Attachment}
    (h : claims.mapM (canonicalizeAttachment acl db viewer) = .ok attachments) :
    ∀ attachment ∈ attachments, AttachesFile db attachment := by
  induction mapM_eq_ok.mp h with
  | nil => simp
  | cons hFirst hRest ih => exact List.forall_mem_cons.mpr ⟨attachesFile_of_canonicalize hFirst, ih (mapM_eq_ok.mpr hRest)⟩

end Attachments

/-- The loops of `grantAttachmentsTo`. A grant that throws is passed over. -/
def grantAttachmentsTo (attachments : List Attachment) (recipients : List String) (grantKey : String) (now : Int)
    (store : FilesystemStore) : FilesystemStore :=
  attachments.foldl (fun store attachment => recipients.foldl (fun store recipient =>
    (run (grant attachment.path recipient grantKey now) store).2) store) store

/-- A request that waits for `broker.push`. `thread` is the thread of a discussion, read before its body. -/
structure PendingPush where
  member : Member
  payload : PushPayload
  context : PushContext
  thread : Option (List String)

structure Office where
  desk : Desk
  pushes : List PendingPush

def Office.empty : Office := ⟨.empty, []⟩

section Requests

variable {L E : Type}

/-- `POST /push` up to the broker's push. -/
def openPush (acl : ObjectiveAcl) (db : Database) (directory : Directory) (member : Member) (payload : PushPayload)
    (broker : Broker L E) : Except RouteError PendingPush := do
  let canonicalize claims (sender : Member) := (canonicalizeAttachments acl db claims (toViewer sender)).mapError Refusal.error
  let (payload, context) ← App.prepare { directory with canonicalize := canonicalize } member payload broker
  return ⟨member, payload, context, none⟩

end Requests

structure DiscussObjectiveRequest where
  body : String
  title : Option String
  attachments : Option (List Attachment)

/-- `objectiveThreadMembers`, without an event. -/
def objectiveThreadMembers (members : List Member) (objective : Objective) : List String :=
  ([objective.assignee, objective.originator] ++ objective.watchers ++
    (members.filter fun member => hasPermission member.permissions .membersManage).map fun member => member.name.text).eraseDups

/-- `POST /objectives/:id/discuss` up to the broker's push. The objective and the members are as they were before the body. -/
def openDiscuss (acl : ObjectiveAcl) (db : Database) (objective : Option Objective) (members : List Member)
    (member : Member) (id : String) (body : Option DiscussObjectiveRequest) : Except Refusal PendingPush :=
  match objective with
  | none => .error ⟨404, s!"no such objective: {id}"⟩
  | some objective =>
    let thread := objectiveThreadMembers members objective
    if member.name.text ∉ thread then
      .error ⟨403, s!"user '{member.name.text}' is not a member of objective {id}'s thread"⟩
    else
      match body with
      | none => .error ⟨400, "invalid discuss payload"⟩
      | some body => do
        let attachments ← canonicalizeAttachments acl db body.attachments (toViewer member)
        let data := [("kind", Json.string "objective_discuss"), ("objective_id", .string id), ("thread", .string ("obj:" ++ id))]
        return ⟨member,
          ⟨none, body.title, body.body, some .info, some data, if attachments.isEmpty then none else some attachments⟩,
          ⟨some member.name.text, some thread, none⟩, some thread⟩

/-- Whom a request grants its attachments to, with the names on the roster for a broadcast. -/
def PendingPush.recipients (pending : PendingPush) (toName : Option String) (roster : List String) : List String :=
  match pending.thread with
  | some thread => thread
  | none =>
    match toName.filter fun toName => toName ≠ "" with
    | some toName => toName :: if pending.member.name.text ≠ toName then [pending.member.name.text] else []
    | none =>
      match pending.context.recipients with
      | some recipients => recipients ++ [pending.member.name.text]
      | none => roster

/-- After the broker's push, with the id of the message and its time. A push that cannot be addressed throws. -/
def finishPush (pending : PendingPush) (id : String) (roster : List String) (now : Int) (store : FilesystemStore) :
    FilesystemStore :=
  match resolveTarget pending.payload.toName with
  | .error _ => store
  | .ok targetName =>
    let message := messageOf id now targetName pending.payload pending.context
    grantAttachmentsTo (pending.payload.attachments.getD []) (pending.recipients message.toName roster) message.id now store

/-- A waiting request is addressed by its member, and a discussion to its thread. -/
structure Routed (pending : PendingPush) : Prop where
  sender : pending.context.fromName = some pending.member.name.text
  thread : ∀ thread, pending.thread = some thread → pending.payload.toName = none ∧
    pending.context.recipients = some thread ∧ pending.member.name.text ∈ thread

section Opening

variable {L E : Type} {acl : ObjectiveAcl} {db : Database} {pending : PendingPush} {member : Member}

theorem openPush_eq_ok {directory : Directory} {payload : PushPayload} {broker : Broker L E}
    (h : openPush acl db directory member payload broker = .ok pending) :
    Routed pending ∧ ∀ attachment ∈ pending.payload.attachments.getD [], AttachesFile db attachment := by
  unfold openPush at h
  dsimp only at h
  generalize hDirectory : ({ directory with canonicalize := fun claims sender =>
    (canonicalizeAttachments acl db claims (toViewer sender)).mapError Refusal.error } : Directory) = files at h
  cases hPrepare : App.prepare files member payload broker with
  | error error =>
    rw [hPrepare] at h
    cases h
  | ok prepared =>
    rw [hPrepare] at h
    cases h
    obtain ⟨_, hRoute⟩ := App.prepare_eq_ok hPrepare
    obtain ⟨attachments, hCanonical, hAttachments⟩ := App.canonicalize_of_prepare hPrepare
    refine ⟨⟨App.fromName_of_routeChannel hRoute, nofun⟩, ?_⟩
    rw [← hDirectory] at hCanonical
    rw [hAttachments]
    exact attachesFile_of_mem (mapError_eq_ok.mp hCanonical)

theorem openDiscuss_eq_ok {objective : Option Objective} {members : List Member} {id : String}
    {body : Option DiscussObjectiveRequest} (h : openDiscuss acl db objective members member id body = .ok pending) :
    Routed pending ∧ ∀ attachment ∈ pending.payload.attachments.getD [], AttachesFile db attachment := by
  unfold openDiscuss at h
  cases objective with
  | none => cases h
  | some objective =>
    dsimp only at h
    split at h
    · cases h
    · rename_i hMember
      cases body with
      | none => cases h
      | some body =>
        cases hCanonical : canonicalizeAttachments acl db body.attachments (toViewer member) with
        | error refusal =>
          simp only [hCanonical, bind, Except.bind] at h
          cases h
        | ok attachments =>
          simp only [hCanonical, bind, Except.bind, pure, Except.pure] at h
          cases h
          refine ⟨⟨rfl, ?_⟩, ?_⟩
          · rintro thread ⟨⟩
            exact ⟨rfl, rfl, by simpa using hMember⟩
          · have hFiles := attachesFile_of_mem hCanonical
            intro attachment hMem
            dsimp only at hMem
            split at hMem
            · cases hMem
            · exact hFiles attachment hMem

end Opening

/-- Whom a push is for, by name: its two ends, its list and its sender, or everybody. -/
def AudienceOf (targetName : Option Name) (context : PushContext) (viewer : String) : Prop :=
  context.fromName = some viewer ∨
    match targetName with
    | some target => target.text = viewer
    | none => ∀ recipients, context.recipients = some recipients → viewer ∈ recipients

theorem mem_recipients_iff {pending : PendingPush} (h : Routed pending) {targetName : Option Name}
    (hTarget : resolveTarget pending.payload.toName = .ok targetName) (roster : List String) (viewer : String) :
    viewer ∈ pending.recipients (targetName.map Name.text) roster ↔ AudienceOf targetName pending.context viewer ∧
      (targetName = none → pending.context.recipients = none → viewer ∈ roster) := by
  unfold PendingPush.recipients AudienceOf
  rw [h.sender]
  cases hThread : pending.thread with
  | some thread =>
    obtain ⟨hTo, hRecipients, hSender⟩ := h.thread thread hThread
    rw [hTo] at hTarget
    cases hTarget
    simp only [hRecipients, Option.some.injEq, forall_eq', reduceCtorEq, false_implies, implies_true, and_true]
    constructor
    · exact .inr
    · rintro (rfl | hMem)
      · exact hSender
      · exact hMem
  | none =>
    cases targetName with
    | some target =>
      have hFilter : ((some target).map Name.text).filter (fun toName => toName ≠ "") = some target.text := by
        simp [target.text_ne_empty]
      rw [hFilter]
      simp only [List.mem_cons, Option.some.injEq, reduceCtorEq, false_implies, and_true]
      split
      · rw [List.mem_singleton]
        constructor
        · rintro (rfl | rfl)
          · exact .inr rfl
          · exact .inl rfl
        · rintro (rfl | rfl)
          · exact .inr rfl
          · exact .inl rfl
      · rename_i hSame
        have hSender : pending.member.name.text = target.text := not_not.mp hSame
        rw [hSender]
        constructor
        · rintro (rfl | hNone)
          · exact .inl rfl
          · cases hNone
        · rintro (rfl | rfl)
          · exact .inl rfl
          · exact .inl rfl
    | none =>
      simp only [Option.map_none, Option.filter_none, Option.some.injEq]
      cases hRecipients : pending.context.recipients with
      | none => simp
      | some recipients =>
        simp only [List.mem_append, List.mem_singleton, Option.some.injEq, forall_eq', reduceCtorEq, false_implies,
          implies_true, and_true]
        rw [or_comm, eq_comm]

/-! ## Granting -/

structure Granted (asked : List (Attachment × String)) (grantKey : String) (before after : Database) : Prop where
  entries : after.entries = before.entries
  kept : ∀ grant ∈ before.grants.rows, grant ∈ after.grants.rows
  made : ∀ grant ∈ after.grants.rows, grant ∈ before.grants.rows ∨ ∃ pair ∈ asked,
    normalizePath pair.1.path = .ok grant.path ∧ grant.viewer = pair.2 ∧ ownerOf grant.path ≠ some grant.viewer ∧
      grant.grantedVia = grantKey
  all : ∀ pair ∈ asked, ∀ path, normalizePath pair.1.path = .ok path → path ≠ ROOT_PATH → ownerOf path = some pair.2 ∨
    ∃ grant ∈ after.grants.rows, grant.path = path ∧ grant.viewer = pair.2 ∧ grant.grantedVia = grantKey

namespace Granted

variable {asked later : List (Attachment × String)} {grantKey : String} {before middle after : Database}

theorem refl (h : ∀ pair ∈ asked, ∀ path, normalizePath pair.1.path = .ok path → path ≠ ROOT_PATH → ownerOf path = some pair.2) :
    Granted asked grantKey before before :=
  ⟨rfl, fun _ hGrant => hGrant, fun _ hGrant => .inl hGrant, fun pair hPair path hPath hRoot => .inl (h pair hPair path hPath hRoot)⟩

theorem trans (h : Granted asked grantKey before middle) (h' : Granted later grantKey middle after) :
    Granted (asked ++ later) grantKey before after := by
  refine ⟨h'.entries.trans h.entries, fun grant hGrant => h'.kept grant (h.kept grant hGrant), ?_, ?_⟩
  · intro grant hGrant
    rcases h'.made grant hGrant with hMiddle | ⟨pair, hPair, hMade⟩
    · rcases h.made grant hMiddle with hBefore | ⟨pair, hPair, hMade⟩
      · exact .inl hBefore
      · exact .inr ⟨pair, List.mem_append_left later hPair, hMade⟩
    · exact .inr ⟨pair, List.mem_append_right asked hPair, hMade⟩
  · intro pair hPair path hPath hRoot
    rcases List.mem_append.mp hPair with hFirst | hLater
    · rcases h.all pair hFirst path hPath hRoot with hOwner | ⟨grant, hGrant, hFields⟩
      · exact .inl hOwner
      · exact .inr ⟨grant, h'.kept grant hGrant, hFields⟩
    · exact h'.all pair hLater path hPath hRoot

end Granted

theorem granted_insertGrant {pair : Attachment × String} {path : Path} (hPath : normalizePath pair.1.path = .ok path)
    (hOwner : ownerOf path ≠ some pair.2) (grantKey : String) (now : Int) (db : Database) :
    Granted [pair] grantKey db (insertGrant ⟨path, pair.2, now, grantKey⟩ db) := by
  have hRows : (insertGrant ⟨path, pair.2, now, grantKey⟩ db).grants.rows =
      if db.grants.find (path, pair.2, grantKey) = none then db.grants.rows ++ [⟨path, pair.2, now, grantKey⟩]
      else db.grants.rows := Table.rows_insertOrIgnore _ _
  refine ⟨rfl, ?_, ?_, ?_⟩
  · intro grant hGrant
    rw [hRows]
    split
    · exact List.mem_append_left _ hGrant
    · exact hGrant
  · intro grant hGrant
    rw [hRows] at hGrant
    split at hGrant
    · rcases List.mem_append.mp hGrant with hOld | hNew
      · exact .inl hOld
      · rw [List.mem_singleton.mp hNew]
        exact .inr ⟨pair, List.mem_singleton_self pair, hPath, rfl, hOwner, rfl⟩
    · exact .inl hGrant
  · intro other hOther otherPath hOtherPath _
    rw [List.mem_singleton] at hOther
    subst hOther
    cases hPath.symm.trans hOtherPath
    rw [hRows]
    cases hFind : db.grants.find (path, other.2, grantKey) with
    | none => exact .inr ⟨⟨path, other.2, now, grantKey⟩, by simp, rfl, rfl, rfl⟩
    | some grant =>
      have hKey : FsGrantRow.key grant = (path, other.2, grantKey) := Table.key_of_find hFind
      simp only [FsGrantRow.key, Prod.mk.injEq] at hKey
      exact .inr ⟨grant, by simpa using Table.mem_of_find hFind, hKey⟩

theorem granted_grant (pair : Attachment × String) (grantKey : String) (now : Int) (store : FilesystemStore) :
    Granted [pair] grantKey store.db (run (grant pair.1.path pair.2 grantKey now) store).2.db := by
  suffices h : Ends (grant pair.1.path pair.2 grantKey now) store fun _ s' => Granted [pair] grantKey store.db s'.db from
    (ends_iff_run _).mp h
  have hSame : (∀ path, normalizePath pair.1.path = .ok path → path ≠ ROOT_PATH → ownerOf path = some pair.2) →
      Granted [pair] grantKey store.db store.db := by
    intro h
    apply Granted.refl
    intro other hOther
    rw [List.mem_singleton.mp hOther]
    exact h
  unfold grant
  cases hPath : normalizePath pair.1.path with
  | error e => exact hSame fun _ hOk => by cases hPath.symm.trans hOk
  | ok path =>
    change Ends (require (path ≠ ROOT_PATH) _ >>= _) store _
    cases hRoot : decide (path ≠ ROOT_PATH) with
    | false =>
      refine hSame fun other hOther hOtherRoot => absurd ?_ hOtherRoot
      cases hPath.symm.trans hOther
      simpa using hRoot
    | true =>
      rw [ends_require_true]
      split
      · rename_i hOwner
        exact hSame fun other hOther _ => by cases hPath.symm.trans hOther; exact hOwner
      · rename_i hOwner
        exact granted_insertGrant hPath hOwner grantKey now store.db

theorem granted_grantAttachmentsTo (attachments : List Attachment) (recipients : List String) (grantKey : String) (now : Int)
    (store : FilesystemStore) : Granted (attachments.flatMap fun attachment => recipients.map (attachment, ·)) grantKey
      store.db (grantAttachmentsTo attachments recipients grantKey now store).db := by
  have hFold : ∀ (asked : List (Attachment × String)) (store : FilesystemStore), Granted asked grantKey store.db
      (asked.foldl (fun store pair => (run (grant pair.1.path pair.2 grantKey now) store).2) store).db := by
    intro asked
    induction asked with
    | nil => exact fun store => .refl nofun
    | cons pair asked ih => exact fun store => (granted_grant pair grantKey now store).trans (ih _)
  have hLoops := hFold (attachments.flatMap fun attachment => recipients.map (attachment, ·)) store
  rw [List.foldl_flatMap] at hLoops
  simp only [List.foldl_map] at hLoops
  exact hLoops

theorem granted_finishPush (pending : PendingPush) {targetName : Option Name}
    (hTarget : resolveTarget pending.payload.toName = .ok targetName) (id : String) (roster : List String) (now : Int)
    (store : FilesystemStore) :
    Granted ((pending.payload.attachments.getD []).flatMap fun attachment =>
      (pending.recipients (targetName.map Name.text) roster).map (attachment, ·)) id store.db
      (finishPush pending id roster now store).db := by
  unfold finishPush
  rw [hTarget]
  exact granted_grantAttachmentsTo _ _ _ _ _

def Event.isGrant : Event → Bool
  | .grant .. => true
  | .call .. | .putSettled .. | .ensureHome .. => false

/-- What is served: a step of a file call, or of a request that shares. `pushed` is the broker's answer, its
message id or nothing when it threw. -/
inductive Sharing (L E : Type) where
  | file (event : Event) (shares : event.isGrant = false)
  | push (acl : ObjectiveAcl) (directory : Directory) (member : Member) (payload : PushPayload) (broker : Broker L E)
  | discuss (acl : ObjectiveAcl) (objective : Option Objective) (members : List Member) (member : Member)
      (id : String) (body : Option DiscussObjectiveRequest)
  | pushed (index : Nat) (id : Option String) (roster : List String) (now : Int)

inductive SharingReply where
  | file (outcome : Except Thrown Reply)
  | routeError (error : RouteError)
  | refused (refusal : Refusal)
  | waiting
  | shared

section Respond

variable {L E : Type}

def Office.wait (office : Office) (pending : PendingPush) : Office := { office with pushes := office.pushes ++ [pending] }

def respond : Transcript.Machine Office (Sharing L E) SharingReply := fun office event =>
  match event with
  | .file event _ =>
    let (desk, outcome) := serve office.desk event
    ({ office with desk := desk }, .file outcome)
  | .push acl directory member payload broker =>
    match openPush acl office.desk.store.db directory member payload broker with
    | .error error => (office, .routeError error)
    | .ok pending => (office.wait pending, .waiting)
  | .discuss acl objective members member id body =>
    match openDiscuss acl office.desk.store.db objective members member id body with
    | .error refusal => (office, .refused refusal)
    | .ok pending => (office.wait pending, .waiting)
  | .pushed index id roster now =>
    match office.pushes[index]?, id with
    | some pending, some id =>
      ({ desk := { office.desk with store := finishPush pending id roster now office.desk.store }
         pushes := office.pushes.eraseIdx index }, .shared)
    | _, _ => ({ office with pushes := office.pushes.eraseIdx index }, .shared)

end Respond

end CommandSuite.Files
