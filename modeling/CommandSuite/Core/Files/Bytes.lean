import CommandSuite.Core.Files.Refcounts
import Mathlib.Data.Finset.Erase
import Mathlib.Data.Finset.Insert

/-! # The bytes

The blob store next to the rows. A put lands before the transaction that refers to it, and a delete is
handed over when the last reference goes and takes effect some time later.
-/

namespace CommandSuite.Files

open Library Fallible Database Transcript Table

/-! ## Transactions that roll back -/

def uncommitted {α : Type} (body : FsM α) (error : Thrown) : FsM Unit := withTx do
  let _ ← body
  throw error

/-- `remove` up to its transaction. -/
def prepareRemove (acl : ObjectiveAcl) (path : String) (writer : ViewerContext) : FsM (Path × FsEntryRow) := do
  let normalized ← valid (normalizePath path)
  require (normalized ≠ ROOT_PATH) (failure .invalidInput "cannot remove root")
  require (canWrite acl normalized writer) (failure .forbidden s!"cannot remove {normalized.render}")
  let target ← present (← fromDb (getEntry · normalized)) (failure .notFound s!"no such path: {normalized.render}")
  return (normalized, target)

def removeTx (normalized : Path) (target : FsEntryRow) (recursive : Bool) : FsM (List String) := do
  match target.kind with
  | .file => dropRows [target]
  | .directory =>
    let children ← fromDb (listChildren · normalized)
    require (children.isEmpty || recursive) (failure .notEmpty s!"directory not empty: {normalized.render}")
    dropRows (← fromDb (listDescendants · normalized))

def rolledBackWrite (write : PendingWrite) (put : PutResult) (error : Thrown) : FsM Unit :=
  uncommitted (placeTx (upsertBlob put.hash put.size write.now) (write.input.collision.getD .error) write.path
    ⟨put.hash, put.size, write.input.mimeType⟩ write.input.writer.name.text write.now) error

def rolledBackCopy (acl : ObjectiveAcl) (input : CopyByBlobRefInput) (now : Int) (error : Thrown) : FsM Unit := do
  let plan ← prepareCopy acl input now
  uncommitted (placeTx id (input.collision.getD .error) plan.dst plan.content input.viewer.name.text now) error

def rolledBackRemove (acl : ObjectiveAcl) (path : String) (writer : ViewerContext) (recursive : Bool) (error : Thrown) : FsM Unit := do
  let (normalized, target) ← prepareRemove acl path writer
  uncommitted (removeTx normalized target recursive) error

/-! ## The blob store -/

/-- `deletes` of the store holds the deletes that have not taken effect, `puts` what the put of each pending write has done. -/
structure Vault where
  desk : Desk
  puts : List (Option PutResult)
  bytes : Finset String

def Vault.empty : Vault := ⟨.empty, [], ∅⟩

inductive Moment where
  | call (acl : ObjectiveAcl) (viewer : ViewerContext) (now : Int) (request : Call)
  | landed (index : Nat) (put : PutResult)
  | refused (index : Nat) (error : Thrown)
  | settled (index : Nat)
  | deleted (index : Nat)
  | writeRolledBack (index : Nat) (error : Thrown)
  | copyRolledBack (acl : ObjectiveAcl) (input : CopyByBlobRefInput) (now : Int) (error : Thrown)
  | removeRolledBack (acl : ObjectiveAcl) (path : String) (writer : ViewerContext) (recursive : Bool) (error : Thrown)

namespace Vault

variable (vault : Vault)

def after {α : Type} (program : FsM α) : Desk := { vault.desk with store := (run program vault.desk.store).2 }

def step : Moment → Vault
  | .call acl viewer now request =>
    let desk := (serve vault.desk (.call acl viewer now request)).1
    { vault with desk, puts := vault.puts ++ List.replicate (desk.pending.length - vault.desk.pending.length) none }
  | .landed index put =>
    match vault.puts[index]? with
    | some none => { vault with puts := vault.puts.set index (some put), bytes := insert put.hash vault.bytes }
    | _ => vault
  | .refused index error =>
    match vault.puts[index]? with
    | some none =>
      { vault with desk := (serve vault.desk (.putSettled index (.error error))).1, puts := vault.puts.eraseIdx index }
    | _ => vault
  | .settled index =>
    match vault.puts[index]? with
    | some (some put) =>
      { vault with desk := (serve vault.desk (.putSettled index (.ok put))).1, puts := vault.puts.eraseIdx index }
    | _ => vault
  | .deleted index =>
    match vault.desk.store.deletes[index]? with
    | some hash =>
      let store := { vault.desk.store with deletes := vault.desk.store.deletes.eraseIdx index }
      { vault with desk := { vault.desk with store }, bytes := vault.bytes.erase hash }
    | none => vault
  | .writeRolledBack index error =>
    match vault.desk.pending[index]?, vault.puts[index]? with
    | some write, some (some put) =>
      { vault with
        desk := { vault.after (rolledBackWrite write put error) with pending := vault.desk.pending.eraseIdx index }
        puts := vault.puts.eraseIdx index }
    | _, _ => vault
  | .copyRolledBack acl input now error => { vault with desk := vault.after (rolledBackCopy acl input now error) }
  | .removeRolledBack acl path writer recursive error =>
    { vault with desk := vault.after (rolledBackRemove acl path writer recursive error) }

end Vault

def attend : Machine Vault Moment Unit := fun vault moment => (vault.step moment, ())

def Idle (vault : Vault) : Prop := vault.desk.pending = [] ∧ vault.desk.store.deletes = []

def Intact (vault : Vault) : Prop :=
  ∀ row ∈ vault.desk.store.db.entries.rows, row.kind = .file → ∀ hash, row.contentHash = some hash → hash ∈ vault.bytes

/-- An overwrite with other content takes the last reference to the old one. -/
def DropsLast (collision : WriteCollisionStrategy) (db : Database) (path : Path) (hash : String) : Prop :=
  collision = .overwrite ∧ ∃ existing prior, db.getEntry path = some existing ∧ existing.kind = .file ∧
    truthy existing.contentHash = some prior ∧ prior ≠ hash ∧ db.blobRefcount prior ≤ 1

variable {db : Database} {hash : String}

/-- The delete of a hash and a write of it do not overlap, and no overwrite that takes a last reference is rolled back. -/
def Apart (vault : Vault) : Moment → Prop
  | .settled index => ∀ put, vault.puts[index]? = some (some put) → put.hash ∉ vault.desk.store.deletes
  | .deleted index => ∀ hash, vault.desk.store.deletes[index]? = some hash → ∀ put, some put ∈ vault.puts → put.hash ≠ hash
  | .writeRolledBack index _ => ∀ write put, vault.desk.pending[index]? = some write → vault.puts[index]? = some (some put) →
      ¬DropsLast (write.input.collision.getD .error) vault.desk.store.db write.path put.hash
  | .copyRolledBack acl input _ _ => ∀ dst content, CopySource acl input vault.desk.store.db dst content →
      ¬DropsLast (input.collision.getD .error) vault.desk.store.db dst content.hash
  | _ => True

def Hashed : Moment → Prop
  | .landed _ put => put.hash ≠ ""
  | _ => True

/-! ## Deletes -/

theorem find_decRef_none (h : db.blobs.find hash = none) (other : String) : (decRef other db).blobs.find hash = none := by
  rw [decRef, find_addRef, h, Option.map_none]

theorem find_deleteZeroBlob_none (h : db.blobs.find hash = none) (other : String) :
    (deleteZeroBlob other db).blobs.find hash = none := by
  have hFind := find_delete db.blobs (fun blob => decide (blob.hash = other) && decide (blob.refcount ≤ 0)) hash
  rw [h, Option.filter_none] at hFind
  exact hFind

theorem find_deleteZeroBlob_self (h : db.blobRefcount hash ≤ 0) : (deleteZeroBlob hash db).blobs.find hash = none := by
  have hFind := find_delete db.blobs (fun blob => decide (blob.hash = hash) && decide (blob.refcount ≤ 0)) hash
  refine hFind.trans ?_
  cases hRow : db.blobs.find hash with
  | none => rfl
  | some blob =>
    have hHash : blob.hash = hash := key_of_find hRow
    have hCount : blob.refcount ≤ 0 := by
      rw [blobRefcount, hRow] at h
      exact h
    rw [Option.filter_some, hHash]
    simp [hCount]

variable {store : FilesystemStore}

theorem deletes_dropRef {hash other : String} (h : other ∈ (dropRef hash store).deletes) :
    other ∈ store.deletes ∨ (dropRef hash store).db.blobs.find other = none := by
  unfold dropRef at h ⊢
  dsimp only at h ⊢
  split at h
  · rename_i hZero
    rw [if_pos hZero]
    rcases List.mem_append.mp h with hOld | hNew
    · exact .inl hOld
    · rw [List.mem_singleton] at hNew
      rw [hNew]
      exact .inr (find_deleteZeroBlob_self hZero)
  · exact .inl h

variable {content : Content}

theorem deletes_overwrite {path : Path} {now : Int} {prior : Option String}
    (h : hash ∈ (overwrite path content now prior store).deletes) :
    hash ∈ store.deletes ∨ (overwrite path content now prior store).db.blobs.find hash = none := by
  cases prior with
  | none => exact .inl h
  | some prior =>
    by_cases hOther : prior ≠ content.hash
    · rw [overwrite] at h ⊢
      rw [if_pos hOther] at h ⊢
      have hDeletes := deletes_dropRef h
      exact hDeletes
    · rw [overwrite] at h
      rw [if_neg hOther] at h
      exact .inl h

theorem deletes_wrote {collision : WriteCollisionStrategy} {path : Path} {creator hash : String} {now : Int}
    {before after : FilesystemStore} (hWrote : Wrote collision path content creator now before after) (h : hash ∈ after.deletes) :
    hash ∈ before.deletes ∨ after.db.blobs.find hash = none := by
  cases hWrote with
  | overwritten => exact deletes_overwrite h
  | created => exact .inl h

variable {state : Database × List String}

theorem find_dropRow_none (h : state.1.blobs.find hash = none) (row : FsEntryRow) :
    (dropRow state row).1.blobs.find hash = none := by
  unfold dropRow
  dsimp only
  split
  · have hPaid : ∀ other, (decRef other (deleteGrantsForPath row.path (deleteEntry row.path state.1))).blobs.find hash = none :=
      find_decRef_none h
    split
    · exact find_deleteZeroBlob_none (hPaid _) _
    · exact hPaid _
  · exact h

theorem deletes_dropRow {row : FsEntryRow} (h : hash ∈ (dropRow state row).2) :
    hash ∈ state.2 ∨ (dropRow state row).1.blobs.find hash = none := by
  unfold dropRow at h ⊢
  dsimp only at h ⊢
  split at h
  · split at h
    · rename_i hZero
      rw [if_pos hZero]
      rcases List.mem_append.mp h with hOld | hNew
      · exact .inl hOld
      · rw [List.mem_singleton] at hNew
        rw [hNew]
        exact .inr (find_deleteZeroBlob_self hZero)
    · exact .inl h
  · exact .inl h

theorem find_dropRows_none (h : state.1.blobs.find hash = none)
    (rows : List FsEntryRow) : (rows.foldl dropRow state).1.blobs.find hash = none := by
  induction rows generalizing state with
  | nil => exact h
  | cons row rows ih => exact ih (find_dropRow_none h row)

theorem deletes_dropRows {rows : List FsEntryRow} (h : hash ∈ (rows.foldl dropRow state).2) :
    hash ∈ state.2 ∨ (rows.foldl dropRow state).1.blobs.find hash = none := by
  induction rows generalizing state with
  | nil => exact .inl h
  | cons row rows ih =>
    rcases ih h with hFirst | hNone
    · exact (deletes_dropRow hFirst).imp_right fun hNone => find_dropRows_none hNone rows
    · exact .inr hNone

variable {event : Event} {after : FilesystemStore}

theorem deletes_transition {desk : Desk} (hTransition : Transition desk event after) (h : hash ∈ after.deletes) :
    hash ∈ desk.store.deletes ∨ after.db.blobs.find hash = none := by
  cases hTransition with
  | built hBuilds =>
    rw [hBuilds.2] at h
    exact .inl h
  | settled _ hWrote =>
    have hDeletes := deletes_wrote hWrote h
    exact hDeletes
  | copied hCopied =>
    obtain ⟨built, dst, content, hBuilds, _, _, hWrote⟩ := hCopied
    rw [← hBuilds.2]
    exact deletes_wrote hWrote h
  | removed =>
    rcases List.mem_append.mp h with hOld | hNew
    · exact .inl hOld
    · exact .inr ((deletes_dropRows hNew).resolve_left List.not_mem_nil)
  | moved hMoving =>
    rw [relocate, hMoving.builds.2] at h
    exact .inl h
  | granted => exact .inl h

/-! ## Steps -/

/-- No count is too low, nothing refers to what is to be deleted, and what is referred to is there. -/
structure Held (bytes : Finset String) (store : FilesystemStore) : Prop where
  covered : ∃ owed, (∀ hash, owed hash ≤ 0) ∧ Balanced owed store.db
  dropped : ∀ hash ∈ store.deletes, references store.db hash = 0
  present : ∀ hash, 0 < references store.db hash → hash ∈ bytes

theorem held_transition {bytes : Finset String} {desk : Desk} (h : Held bytes desk.store)
    (hTransition : Transition desk event after)
    (hPut : ∀ index put, event = .putSettled index (.ok put) → put.hash ≠ "" ∧ put.hash ∈ bytes ∧ put.hash ∉ desk.store.deletes) :
    Held bytes after := by
  obtain ⟨owed, hLeak, hBalanced⟩ := h.covered
  have hAddressed : Addressed event := by
    unfold Addressed
    split
    · exact (hPut _ _ rfl).1
    · trivial
  obtain ⟨left, hLeft, _, hAfter⟩ := balanced_transition hBalanced hLeak hTransition hAddressed
  refine ⟨⟨left, fun hash => (hLeft hash).trans (hLeak hash), hAfter⟩, fun hash hDelete => ?_, fun hash hReferred => ?_⟩
  · by_contra hReferred
    rcases deletes_transition hTransition hDelete with hOld | hNone
    · rcases references_transition hTransition (Nat.pos_of_ne_zero hReferred) with hBefore | ⟨index, put, hEvent, rfl⟩
      · exact hBefore.ne' (h.dropped hash hOld)
      · exact (hPut index put hEvent).2.2 hOld
    · exact hReferred (hAfter.stored hash hNone).1
  · rcases references_transition hTransition hReferred with hBefore | ⟨index, put, hEvent, rfl⟩
    · exact h.present hash hBefore
    · exact (hPut index put hEvent).2.1

section RolledBack

variable {s : FilesystemStore} {Q : FilesystemStore → Prop} {error : Thrown}

theorem ends_uncommitted {α : Type} {body : FsM α} (h : Ends body s fun _ s' => Q { s' with db := s.db }) :
    Ends (uncommitted body error) s fun _ s' => Q s' := by
  refine ends_withTx ((ends_bind _ _).mpr (Ends.imp h ?_))
  rintro (_ | _) s' hQ
  · exact hQ
  · exact hQ

theorem blobRefcount_addRef {hash other : String} (h : other ≠ hash) (change : Int) (db : Database) :
    (addRef change hash db).blobRefcount other = db.blobRefcount other := by
  rw [blobRefcount, find_addRef, blobRefcount]
  cases hRow : db.blobs.find other with
  | none => rfl
  | some blob =>
    have hHash : blob.hash = other := key_of_find hRow
    rw [Option.map_some, if_neg (by simpa [hHash] using h)]

theorem blobRefcount_decRef {hash : String} {db : Database} (h : 0 < db.blobRefcount hash) :
    (decRef hash db).blobRefcount hash = db.blobRefcount hash - 1 := by
  rw [decRef, blobRefcount, find_addRef, blobRefcount]
  rw [blobRefcount] at h
  cases hRow : db.blobs.find hash with
  | none =>
    rw [hRow] at h
    cases h
  | some blob =>
    have hHash : blob.hash = hash := key_of_find hRow
    rw [Option.map_some, if_pos (by simpa using hHash)]
    rfl

theorem blobRefcount_upsertBlob (hash other : String) (size : Nat) (now : Int) (db : Database) :
    (upsertBlob hash size now db).blobRefcount other = db.blobRefcount other := by
  have hFind : (upsertBlob hash size now db).blobs.find other = _ := find_insertOrIgnore db.blobs ⟨hash, size, 0, now⟩ other
  rw [blobRefcount, hFind, blobRefcount]
  cases db.blobs.find other with
  | some blob => rfl
  | none =>
    rw [Option.none_or]
    split <;> rfl

theorem deletes_of_keepsLast {collision : WriteCollisionStrategy} {path : Path} {content : Content} {creator : String} {now : Int}
    {before after : FilesystemStore} (hWrote : Wrote collision path content creator now before after)
    (hKeeps : ¬DropsLast collision before.db path content.hash) : after.deletes = before.deletes := by
  cases hWrote with
  | created => rfl
  | overwritten hAsked hFound hFile =>
    rename_i existing
    cases hPrior : truthy existing.contentHash with
    | none => rfl
    | some prior =>
      rw [overwrite]
      by_cases hOther : prior ≠ content.hash
      · rw [if_pos hOther, dropRef]
        have hMany : 1 < before.db.blobRefcount prior := by
          by_contra hFew
          exact hKeeps ⟨hAsked, existing, prior, hFound, hFile, hPrior, hOther, Int.not_lt.mp hFew⟩
        have hSame : (incRef content.hash (updateEntryContent content.hash content.size content.mimeType now path before.db)).blobRefcount
            prior = before.db.blobRefcount prior := blobRefcount_addRef hOther 1 _
        have hPositive : 0 < (incRef content.hash
            (updateEntryContent content.hash content.size content.mimeType now path before.db)).blobRefcount prior := by
          rw [hSame]
          exact Int.zero_lt_one.trans hMany
        have hLess := blobRefcount_decRef hPositive
        dsimp only
        rw [if_neg]
        rw [hLess, hSame]
        omega
      · rw [if_neg hOther]

theorem ends_rolledBackWrite {write : PendingWrite} {put : PutResult} (hFiled : Filed s.db) (hRoot : write.path ≠ ROOT_PATH)
    (hKeeps : ¬DropsLast (write.input.collision.getD .error) s.db write.path put.hash) :
    Ends (rolledBackWrite write put error) s fun _ s' => s' = s := by
  refine ends_uncommitted (Ends.imp (ends_placeTx (fun _ => rfl) hFiled hRoot) ?_)
  rintro (_ | _) s' hOutcome
  · exact congrArg (FilesystemStore.mk s.db) hOutcome
  · have hSame : ¬DropsLast (write.input.collision.getD .error) (upsertBlob put.hash put.size write.now s.db) write.path put.hash := by
      rintro ⟨hAsked, existing, prior, hFound, hFile, hPrior, hOther, hFew⟩
      rw [blobRefcount_upsertBlob] at hFew
      exact hKeeps ⟨hAsked, existing, prior, hFound, hFile, hPrior, hOther, hFew⟩
    have hDeletes := deletes_of_keepsLast hOutcome hSame
    exact congrArg (FilesystemStore.mk s.db) hDeletes

variable {acl : ObjectiveAcl}

theorem ends_rolledBackCopy {input : CopyByBlobRefInput} {now : Int} (hFiled : Filed s.db)
    (hKeeps : ∀ dst content, CopySource acl input s.db dst content → ¬DropsLast (input.collision.getD .error) s.db dst content.hash) :
    Ends (rolledBackCopy acl input now error) s fun _ s' => Builds s s' := by
  refine builds_prepareCopy.ends_bind (fun plan built hBuilds hPlan => ?_) fun _ _ hBuilds => hBuilds
  obtain ⟨_, hSource⟩ := hPlan
  refine ends_uncommitted (Ends.imp (ends_placeTx (fun _ => rfl) (hBuilds.1.filed hFiled) hSource.belowRoot) ?_)
  rintro (_ | _) s' hOutcome
  · exact ⟨hBuilds.1, hOutcome.trans hBuilds.2⟩
  · refine ⟨hBuilds.1, (deletes_of_keepsLast hOutcome ?_).trans hBuilds.2⟩
    rintro ⟨hAsked, existing, prior, hFound, hFile, hPrior, hOther, hFew⟩
    refine hKeeps plan.dst plan.content hSource ⟨hAsked, existing, prior, hBuilds.1.file_before hFound hFile, hFile, hPrior, hOther, ?_⟩
    have hSame : built.db.blobRefcount prior = s.db.blobRefcount prior := by rw [blobRefcount, hBuilds.1.blobs, blobRefcount]
    rwa [← hSame]

theorem ends_rolledBackRemove {path : String} {writer : ViewerContext} {recursive : Bool} :
    Ends (rolledBackRemove acl path writer recursive error) s fun _ s' => s' = s := by
  have hError : ∀ _ : Thrown, s = s := fun _ => rfl
  unfold rolledBackRemove prepareRemove
  simp only [bind_assoc]
  refine ends_fromExcept_bind _ hError fun normalized _ => ends_require_bind _ hError fun _ => ends_require_bind _ hError fun _ => ?_
  rw [fromDb, ends_reads_bind]
  refine ends_present_bind _ hError fun target _ => ?_
  rw [pure_bind]
  refine ends_uncommitted ?_
  unfold removeTx
  cases target.kind with
  | file => rfl
  | directory =>
    dsimp only
    rw [fromDb, ends_reads_bind]
    refine ends_require_bind _ hError fun _ => ?_
    rw [fromDb, ends_reads_bind]
    rfl

end RolledBack

/-! ## Runs -/

structure Safe (vault : Vault) : Prop where
  served : WellServed vault.desk
  held : Held vault.bytes vault.desk.store
  landed : ∀ put, some put ∈ vault.puts → put.hash ≠ "" ∧ put.hash ∈ vault.bytes

namespace Safe

variable {vault : Vault}

theorem empty : Safe Vault.empty := by
  refine ⟨wellServed_empty, ⟨⟨fun _ => 0, fun _ => Int.le_refl 0, ?_⟩, fun _ hNone => (nomatch hNone), fun _ hNone => (nomatch hNone)⟩,
    fun _ hNone => (nomatch hNone)⟩
  exact ⟨fun _ _ hBlob => (nomatch hBlob), fun _ _ => ⟨rfl, rfl⟩, rfl⟩

theorem intact (h : Safe vault) : Intact vault := by
  intro row hRow hKind hash hHash
  refine h.held.present hash (List.countP_pos_iff.mpr ⟨row, hRow, ?_⟩)
  simp [refersTo, hKind, hHash]

variable {puts : List (Option PutResult)}

theorem serve (h : Safe vault) (event : Event) (hPut : ∀ index put, event = .putSettled index (.ok put) →
    put.hash ≠ "" ∧ put.hash ∈ vault.bytes ∧ put.hash ∉ vault.desk.store.deletes)
    (hPuts : ∀ put, some put ∈ puts → some put ∈ vault.puts) :
    Safe { vault with desk := (Files.serve vault.desk event).1, puts } :=
  ⟨wellServed_serve vault.desk event h.served, held_transition h.held (transition_serve h.served event) hPut,
    fun put hMem => h.landed put (hPuts put hMem)⟩

theorem builds (h : Safe vault) {store : FilesystemStore} (hBuilds : Builds vault.desk.store store) {pending : List PendingWrite}
    (hPending : ∀ write ∈ pending, write ∈ vault.desk.pending)
    (hPuts : ∀ put, some put ∈ puts → some put ∈ vault.puts) : Safe { vault with desk := ⟨store, pending⟩, puts } := by
  refine ⟨⟨hBuilds.1.filed h.served.filed, fun write hWrite => h.served.pending write (hPending write hWrite)⟩, ?_,
    fun put hMem => h.landed put (hPuts put hMem)⟩
  have hTransition : Transition vault.desk (.putSettled 0 (.error (.blobStore ""))) store := .built hBuilds
  exact held_transition h.held hTransition fun _ _ hNone => (nomatch hNone)

theorem step (h : Safe vault) (moment : Moment) (hApart : Apart vault moment) (hHashed : Hashed moment) : Safe (vault.step moment) := by
  have hErase : ∀ index, ∀ put, some put ∈ vault.puts.eraseIdx index → some put ∈ vault.puts :=
    fun index put hMem => List.mem_of_mem_eraseIdx hMem
  have hStore : ∀ {α : Type} (program : FsM α), Ends program vault.desk.store (fun _ s' => Builds vault.desk.store s') →
      Safe { vault with desk := vault.after program } := fun program hEnds =>
    h.builds ((ends_iff_run _).mp hEnds) (fun _ => id) fun _ => id
  cases moment with
  | call acl viewer now request =>
    refine h.serve (.call acl viewer now request) (fun _ _ hNone => (nomatch hNone)) fun put hMem => ?_
    refine (List.mem_append.mp hMem).resolve_right fun hNew => ?_
    cases List.eq_of_mem_replicate hNew
  | landed index put =>
    rw [Vault.step]
    split
    · obtain ⟨hCovered, hDropped, hPresent⟩ := h.held
      refine ⟨h.served, ⟨hCovered, hDropped, fun hash hReferred => Finset.mem_insert_of_mem (hPresent hash hReferred)⟩, fun other hMem => ?_⟩
      rcases List.mem_or_eq_of_mem_set hMem with hOld | hNew
      · exact (h.landed other hOld).imp_right fun hIn => Finset.mem_insert_of_mem hIn
      · cases hNew
        exact ⟨hHashed, Finset.mem_insert_self put.hash vault.bytes⟩
    · exact h
  | refused index error =>
    rw [Vault.step]
    split
    · exact h.serve (.putSettled index (.error error)) (fun _ _ hNone => (nomatch hNone)) (hErase index)
    · exact h
  | settled index =>
    rw [Vault.step]
    split
    · rename_i put hPut
      refine h.serve (.putSettled index (.ok put)) (fun _ _ hSame => ?_) (hErase index)
      cases hSame
      obtain ⟨hNamed, hIn⟩ := h.landed put (List.mem_of_getElem? hPut)
      exact ⟨hNamed, hIn, hApart put hPut⟩
    · exact h
  | deleted index =>
    rw [Vault.step]
    split
    · rename_i hash hHash
      obtain ⟨hCovered, hDropped, hPresent⟩ := h.held
      refine ⟨⟨h.served.filed, h.served.pending⟩, ⟨hCovered, fun other hOther => hDropped other (List.mem_of_mem_eraseIdx hOther),
        fun other hReferred => ?_⟩, fun put hMem => ?_⟩
      · refine Finset.mem_erase.mpr ⟨?_, hPresent other hReferred⟩
        rintro rfl
        exact hReferred.ne' (hDropped other (List.mem_of_getElem? hHash))
      · obtain ⟨hNamed, hIn⟩ := h.landed put hMem
        exact ⟨hNamed, Finset.mem_erase.mpr ⟨hApart hash hHash put hMem, hIn⟩⟩
    · exact h
  | writeRolledBack index error =>
    rw [Vault.step]
    split
    · rename_i write put hWrite hPut
      have hRoot := (h.served.pending write (List.mem_of_getElem? hWrite)).1
      have hSame : (vault.after (rolledBackWrite write put error)).store = vault.desk.store :=
        (ends_iff_run _).mp (ends_rolledBackWrite h.served.filed hRoot (hApart write put hWrite hPut))
      refine h.builds ?_ (fun _ hMem => List.mem_of_mem_eraseIdx hMem) (hErase index)
      rw [hSame]
      exact Std.Refl.refl vault.desk.store
    · exact h
  | copyRolledBack acl input now error => exact hStore _ (ends_rolledBackCopy h.served.filed hApart)
  | removeRolledBack acl path writer recursive error =>
    refine hStore _ (Ends.imp ends_rolledBackRemove fun _ s' hSame => ?_)
    rw [hSame]
    exact Std.Refl.refl vault.desk.store

end Safe

/-- After every step of a run in which deletes and writes of a hash stay apart, every file has its bytes. -/
theorem intact_run (moments : List Moment) (hHashed : ∀ moment ∈ moments, Hashed moment)
    (hApart : ∀ step ∈ run attend Vault.empty moments, Apart step.before step.input) :
    ∀ step ∈ run attend Vault.empty moments, Intact step.after := by
  have hKept : ∀ vault moment, Safe vault → Apart vault moment ∧ Hashed moment → Safe (attend vault moment).1 :=
    fun vault moment hSafe ⟨hMeets, hNamed⟩ => hSafe.step moment hMeets hNamed
  have hMeets : ∀ step ∈ run attend Vault.empty moments, Apart step.before step.input ∧ Hashed step.input := by
    intro step hStep
    have hMoment := List.mem_map_of_mem (f := Step.input) hStep
    rw [map_input_run] at hMoment
    exact ⟨hApart step hStep, hHashed step.input hMoment⟩
  intro step hStep
  obtain ⟨hBefore, hAt⟩ := run_invariant_of hKept Safe.empty hMeets step hStep
  have hAfter := hKept step.before step.input hBefore (hMeets step hStep)
  rw [hAt]
  exact hAfter.intact

/-! Content that goes for other content, and content that is written again while its last reference goes. -/

def notesReplaced : List Moment :=
  [.call none lookalike 1 (.writeFile "/axb/notes.txt" "text/plain" none), .landed 0 ⟨"c0de", 5⟩, .settled 0,
    .call none lookalike 2 (.writeFile "/axb/notes.txt" "text/plain" (some .overwrite)), .landed 0 ⟨"beef", 5⟩, .settled 0,
    .deleted 0]

theorem intact_notesReplaced : Intact (final attend Vault.empty notesReplaced) := by
  refine intact_run notesReplaced ?_ ?_ _ (List.getLast_mem (List.cons_ne_nil _ _))
  · simp [notesReplaced, Hashed]
  · simp only [notesReplaced, run_cons, run_nil, List.forall_mem_cons]
    refine ⟨trivial, trivial, fun _ _ hDelete => (nomatch hDelete), trivial, trivial, fun _ _ hDelete => (nomatch hDelete),
      fun _ _ _ hPut => (nomatch hPut), fun _ hNone => (nomatch hNone)⟩

def notesAgain : List Moment :=
  [.call none lookalike 1 (.writeFile "/axb/notes.txt" "text/plain" none), .landed 0 ⟨"c0de", 5⟩, .settled 0,
    .call none lookalike 2 (.writeFile "/axb/copy.txt" "text/plain" none), .landed 0 ⟨"c0de", 5⟩,
    .call none lookalike 3 (.remove "/axb/notes.txt" false), .settled 0, .deleted 0]

def copyRow : FsEntryRow := fileRow ⟨["axb", "copy.txt"], by decide, by decide⟩ "axb" ⟨"c0de", 5, "text/plain"⟩ "axb" 2

theorem bytes_lost :
    ¬∀ moments : List Moment, (∀ moment ∈ moments, Hashed moment) →
      ∀ step ∈ run attend Vault.empty moments, Idle step.after → Intact step.after := by
  intro h
  have hIntact := h notesAgain (by simp [notesAgain, Hashed]) _ (List.getLast_mem (List.cons_ne_nil _ _)) ⟨rfl, rfl⟩
  have hBytes := hIntact copyRow (by decide) rfl "c0de" rfl
  revert hBytes
  decide

end CommandSuite.Files
