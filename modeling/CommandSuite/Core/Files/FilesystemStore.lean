import CommandSuite.Core.Files.Paths
import CommandSuite.Core.Message
import CommandSuite.Library.Fallible
import CommandSuite.Library.Sql
import CommandSuite.Library.Table
import Mathlib.Data.List.Sort

/-! # The filesystem store

`packages/core/src/files/filesystem-store.ts` over its three tables. A statement is a function of
the database, an operation a program that may fail. The blob store is outside: what a put answers
comes in, and the hashes handed to its `delete` are recorded.
-/

namespace CommandSuite.Files

open Library Fallible

inductive EntryKind where
  | file | directory
  deriving DecidableEq

structure FsEntryRow where
  path : Path
  parentPath : Path
  name : String
  kind : EntryKind
  owner : String
  contentHash : Option String
  size : Option Nat
  mimeType : Option String
  createdAt : Int
  createdBy : String
  updatedAt : Int
  deriving DecidableEq

structure FsBlobRow where
  hash : String
  size : Nat
  refcount : Int
  createdAt : Int
  deriving DecidableEq

structure FsGrantRow where
  path : Path
  viewer : String
  grantedAt : Int
  grantedVia : String
  deriving DecidableEq

abbrev FsGrantRow.key (row : FsGrantRow) : Path × String × String := (row.path, row.viewer, row.grantedVia)

/-- `canWrite` is missing from the entries that a mutation returns. -/
structure FsEntry where
  path : Path
  name : String
  kind : EntryKind
  owner : String
  size : Option Nat
  mimeType : Option String
  hash : Option String
  createdAt : Int
  createdBy : String
  updatedAt : Int
  canWrite : Option Bool
  deriving DecidableEq

def rowToEntry (row : FsEntryRow) : FsEntry where
  path := row.path
  name := row.name
  kind := row.kind
  owner := row.owner
  size := row.size
  mimeType := row.mimeType
  hash := row.contentHash
  createdAt := row.createdAt
  createdBy := row.createdBy
  updatedAt := row.updatedAt
  canWrite := none

@[simp] theorem path_rowToEntry (row : FsEntryRow) : (rowToEntry row).path = row.path := rfl

structure ViewerContext where
  name : Name
  permissions : List Permission

inductive WriteCollisionStrategy where
  | error | overwrite | suffix
  deriving DecidableEq

structure Database where
  entries : Table FsEntryRow.path
  blobs : Table FsBlobRow.hash
  grants : Table FsGrantRow.key

structure FilesystemStore where
  db : Database
  deletes : List String

def FilesystemStore.empty : FilesystemStore := ⟨⟨Table.empty, Table.empty, Table.empty⟩, []⟩

/-- `ObjectiveAclProvider.isMember`, when the store has a provider. -/
abbrev ObjectiveAcl := Option (String → String → Bool)

/-- What an operation throws: an `FsError`, a constraint of the schema, or what the blob store threw. -/
inductive Thrown where
  | fs (error : FsError)
  | constraint (message : String)
  | blobStore (message : String)

abbrev FsM := EStateM Thrown FilesystemStore

def failure (code : FsErrorCode) (message : String) : Thrown := .fs ⟨code, message⟩

def valid {α : Type} (value : Except FsError α) : FsM α := fromExcept (value.mapError Thrown.fs)

def withTx {α : Type} (program : FsM α) : FsM α := transaction (fun before failed => { failed with db := before.db }) program

namespace Database

def getEntry (db : Database) (path : Path) : Option FsEntryRow := db.entries.find path

/-- `ORDER BY kind='file', name`. -/
def directoriesFirst (a b : FsEntryRow) : Bool :=
  match a.kind, b.kind with
  | .directory, .file => true
  | .file, .directory => false
  | _, _ => a.name ≤ b.name

def listChildren (db : Database) (path : Path) : List FsEntryRow :=
  (db.entries.select fun row => row.parentPath = path).insertionSort fun a b => directoriesFirst a b = true

/-- `path = ? OR path LIKE ?`, the pattern being the path with `/%` after it. -/
def isListedBelow (path : Path) (row : FsEntryRow) : Bool :=
  row.path = path || Sql.matchLike (path.render.toList ++ ['/', '%']) row.path.render.toList

def listDescendants (db : Database) (path : Path) : List FsEntryRow :=
  (db.entries.select (isListedBelow path)).insertionSort fun a b => b.path.render.length ≤ a.path.render.length

def listShared (db : Database) (viewer : String) : List FsEntryRow :=
  (db.entries.select fun row => db.grants.rows.any fun grant => grant.path = row.path && grant.viewer = viewer).insertionSort
    fun a b => b.updatedAt ≤ a.updatedAt

def listHomes (db : Database) : List FsEntryRow :=
  (db.entries.select fun row => row.parentPath = ROOT_PATH && row.kind = .directory).insertionSort fun a b => a.name ≤ b.name

def listAllFiles (db : Database) : List FsEntryRow :=
  (db.entries.select fun row => row.kind = .file).insertionSort fun a b => b.updatedAt ≤ a.updatedAt

def hasGrant (db : Database) (path : Path) (viewer : String) : Bool :=
  db.grants.rows.any fun grant => grant.path = path && grant.viewer = viewer

def updateEntryContent (hash : String) (size : Nat) (mimeType : String) (now : Int) (path : Path) (db : Database) : Database :=
  { db with
    entries := db.entries.update (fun row => row.path = path)
      (fun row => { row with contentHash := some hash, size := some size, mimeType := some mimeType, updatedAt := now })
      fun _ => rfl }

def deleteEntry (path : Path) (db : Database) : Database := { db with entries := db.entries.delete fun row => row.path = path }

def deleteGrantsForPath (path : Path) (db : Database) : Database :=
  { db with grants := db.grants.delete fun grant => grant.path = path }

def upsertBlob (hash : String) (size : Nat) (now : Int) (db : Database) : Database :=
  { db with blobs := db.blobs.insertOrIgnore ⟨hash, size, 0, now⟩ }

def addRef (change : Int) (hash : String) (db : Database) : Database :=
  { db with
    blobs := db.blobs.update (fun blob => blob.hash = hash) (fun blob => { blob with refcount := blob.refcount + change })
      fun _ => rfl }

def incRef : String → Database → Database := addRef 1

def decRef : String → Database → Database := addRef (-1)

def deleteZeroBlob (hash : String) (db : Database) : Database :=
  { db with blobs := db.blobs.delete fun blob => blob.hash = hash && blob.refcount ≤ 0 }

def blobRefcount (db : Database) (hash : String) : Int := ((db.blobs.find hash).map FsBlobRow.refcount).getD 0

def insertGrant (grant : FsGrantRow) (db : Database) : Database := { db with grants := db.grants.insertOrIgnore grant }

end Database

open Database

def onDb (f : Database → Database) : FsM Unit := update fun store => { store with db := f store.db }

def fromDb {α : Type} (f : Database → α) : FsM α := reads fun store => f store.db

/-- `INSERT INTO fs_entries`, whose primary key is the path. -/
def insertEntry (row : FsEntryRow) : FsM Unit := do
  require (← fromDb fun db => (db.getEntry row.path).isNone) (.constraint "UNIQUE constraint failed: fs_entries.path")
  onDb fun db => { db with entries := db.entries.insertOrIgnore row }

/-- `movePathStmt`: the row keeps its other columns, `owner` among them. -/
def movePath (dst parent : Path) (name : String) (now : Int) (src : Path) : FsM Unit := do
  match ← fromDb (getEntry · src) with
  | none => pure ()
  | some row =>
    require (← fromDb fun db => dst = src || (db.getEntry dst).isNone) (.constraint "UNIQUE constraint failed: fs_entries.path")
    onDb fun db =>
      { deleteEntry src db with
        entries := (deleteEntry src db).entries.insertOrIgnore
          { row with path := dst, parentPath := parent, name := name, updatedAt := now } }

/-- `INSERT INTO fs_grants ... SELECT`, under the primary key of the grants. -/
def copyGrants (dst src : Path) : FsM Unit := do
  let copies ← fromDb fun db => (db.grants.select fun grant => grant.path = src).map fun grant => { grant with path := dst }
  require (← fromDb fun db => copies.all fun grant => (db.grants.find grant.key).isNone)
    (.constraint "UNIQUE constraint failed: fs_grants.path, fs_grants.viewer, fs_grants.granted_via")
  onDb fun db => copies.foldl (fun db grant => insertGrant grant db) db

def truthy (text : Option String) : Option String := text.filter fun text => text ≠ ""

section Permissions

variable (acl : ObjectiveAcl) (path : Path) (viewer : ViewerContext)

def ownsPath : Bool := path ≠ ROOT_PATH && ownerOf path = some viewer.name.text

def isObjectiveMember : Bool :=
  match acl, parseObjectiveNamespacePath path with
  | some isMember, some parsed => isMember parsed.id viewer.name.text
  | _, _ => false

def manages : Bool := hasPermission viewer.permissions .membersManage

def canRead (db : Database) : Bool :=
  manages viewer || ownsPath path viewer || isObjectiveMember acl path viewer || db.hasGrant path viewer.name.text

def canWrite : Bool := manages viewer || ownsPath path viewer || isObjectiveMember acl path viewer

end Permissions

def withCapability (acl : ObjectiveAcl) (viewer : ViewerContext) (entry : FsEntry) : FsEntry :=
  { entry with canWrite := some (canWrite acl entry.path viewer) }

section Reads

variable (acl : ObjectiveAcl) (db : Database)

def stat (path : String) (viewer : ViewerContext) : Except FsError (Option FsEntry) := do
  let normalized ← normalizePath path
  if normalized = ROOT_PATH then throw ⟨.invalidInput, "cannot stat the root — use list(\"/\") instead"⟩
  if !canRead acl normalized viewer db then throw ⟨.forbidden, s!"cannot stat {normalized.render}"⟩
  return (db.getEntry normalized).map fun row => withCapability acl viewer (rowToEntry row)

def list (path : String) (viewer : ViewerContext) : Except FsError (List FsEntry) := do
  let normalized ← normalizePath path
  let entries (rows : List FsEntryRow) := rows.map fun row => withCapability acl viewer (rowToEntry row)
  if normalized = ROOT_PATH then
    if manages viewer then return entries db.listHomes
    else return entries (db.listHomes.filter fun row => row.owner = viewer.name.text)
  else if !canRead acl normalized viewer db then throw ⟨.forbidden, s!"cannot list {normalized.render}"⟩
  else match db.getEntry normalized with
    | none => return []
    | some target =>
      if target.kind ≠ .directory then throw ⟨.notADirectory, s!"not a directory: {normalized.render}"⟩
      else return entries (db.listChildren normalized)

def listShared (viewer : ViewerContext) : List FsEntry :=
  (db.listShared viewer.name.text).map fun row => withCapability acl viewer (rowToEntry row)

def listAllFiles (viewer : ViewerContext) : Except FsError (List FsEntry) :=
  if manages viewer then .ok (db.listAllFiles.map fun row => withCapability acl viewer (rowToEntry row))
  else .error ⟨.forbidden, "members.manage is required to list all member files"⟩

def openReadStream (path : String) (viewer : ViewerContext) : Except FsError (FsEntry × String) := do
  match ← stat acl db path viewer with
  | none => throw ⟨.notFound, s!"no such path: {path}"⟩
  | some entry =>
    if entry.kind ≠ .file then throw ⟨.isADirectory, s!"not a file: {entry.path.render}"⟩
    match truthy entry.hash with
    | none => throw ⟨.corrupt, s!"file has no content hash: {entry.path.render}"⟩
    | some hash => return (entry, hash)

end Reads

def rootEntry : FsEntry := ⟨ROOT_PATH, "", .directory, "", none, none, none, 0, "", 0, none⟩

def directoryRow (path : Path) (owner : String) (creator : String) (now : Int) : FsEntryRow :=
  ⟨path, parentOf path, basenameOf path, .directory, owner, none, none, none, now, creator, now⟩

def createDirectoryRow (path : Path) (writer : ViewerContext) (now : Int) : FsM FsEntry := do
  require (path ≠ ROOT_PATH) (failure .invalidInput "cannot create root")
  match ← fromDb (getEntry · path) with
  | some existing =>
    require (existing.kind = .directory) (failure .notADirectory s!"already exists as file: {path.render}")
    return rowToEntry existing
  | none =>
    let ownerName ← present (ownerOf path) (failure .invalidInput s!"cannot create directory at {path.render}")
    let row := directoryRow path ownerName writer.name.text now
    insertEntry row
    return rowToEntry row

/-- The recursion of `ensureDirectoryTree`. A path of as many segments as `depth` is at the root at zero. -/
def ensureDirectoryTreeFrom (writer : ViewerContext) (now : Int) : Nat → Path → FsM FsEntry
  | 0, _ => return rootEntry
  | depth + 1, path => do
    match ← fromDb (getEntry · path) with
    | some existing =>
      require (existing.kind = .directory) (failure .notADirectory s!"ancestor is not a directory: {path.render}")
      return rowToEntry existing
    | none =>
      let _ ← ensureDirectoryTreeFrom writer now depth (parentOf path)
      createDirectoryRow path writer now

def ensureDirectoryTree (path : Path) (writer : ViewerContext) (now : Int) : FsM FsEntry :=
  ensureDirectoryTreeFrom writer now path.segments.length path

/-- Where a write goes: the row it overwrites if there is one, the path, and whether it is a new name. -/
structure Placement where
  existing : Option FsEntryRow
  path : Path
  renamed : Bool

/-- The collision branches, which `writeFile` and `copyByBlobRef` share. -/
def resolveCollision (collision : WriteCollisionStrategy) (path : Path) : FsM Placement := do
  match ← fromDb (getEntry · path) with
  | none => return ⟨none, path, false⟩
  | some existing =>
    require (existing.kind = .file) (failure .isADirectory s!"cannot overwrite directory: {path.render}")
    match collision with
    | .error => throw (failure .exists s!"already exists: {path.render}")
    | .overwrite => return ⟨some existing, path, false⟩
    | .suffix =>
      let db ← fromDb id
      let base := basenameOf path
      let newName ← valid (dedupeBasename base fun name => do
        return (db.getEntry (← siblingPath existing.parentPath name)).isSome)
      let newPath ← valid (siblingPath existing.parentPath newName)
      return ⟨none, newPath, base ≠ newName⟩

def decrementAndMaybeDropBlob (hash : String) : FsM Unit := do
  onDb (decRef hash)
  if (← fromDb (blobRefcount · hash)) ≤ 0 then
    onDb (deleteZeroBlob hash)
    update fun store => { store with deletes := store.deletes ++ [hash] }

structure Content where
  hash : String
  size : Nat
  mimeType : String

def fileRow (path : Path) (owner : String) (content : Content) (creator : String) (now : Int) : FsEntryRow :=
  ⟨path, parentOf path, basenameOf path, .file, owner, some content.hash, some content.size, some content.mimeType, now,
    creator, now⟩

def writeContent (placement : Placement) (content : Content) (creator : String) (now : Int) : FsM Unit := do
  match placement.existing with
  | some existing =>
    onDb (updateEntryContent content.hash content.size content.mimeType now placement.path)
    onDb (incRef content.hash)
    match truthy existing.contentHash with
    | none => pure ()
    | some priorHash => if priorHash ≠ content.hash then decrementAndMaybeDropBlob priorHash
  | none =>
    let ownerName ← present (ownerOf placement.path) (failure .invalidInput "cannot write directly under root")
    insertEntry (fileRow placement.path ownerName content creator now)
    onDb (incRef content.hash)

structure WriteFileInput where
  path : String
  mimeType : String
  writer : ViewerContext
  collision : Option WriteCollisionStrategy

structure PutResult where
  hash : String
  size : Nat

/-- `writeFile` up to its await: the checks and the ancestors. Returns the normalized path. -/
def writeFile (acl : ObjectiveAcl) (input : WriteFileInput) (now : Int) : FsM Path := do
  let normalized ← valid (normalizePath input.path)
  require (normalized ≠ ROOT_PATH) (failure .invalidInput "cannot write to root")
  require (canWrite acl normalized input.writer) (failure .forbidden s!"cannot write to {normalized.render}")
  let _ ← ensureDirectoryTree (parentOf normalized) input.writer now
  return normalized

/-- `writeFile` once the blob is put. Returns the entry and whether it got another name. -/
def finishWriteFile (input : WriteFileInput) (normalized : Path) (now : Int) (put : PutResult) : FsM (FsEntry × Bool) := do
  let placement ← withTx do
    let placement ← resolveCollision (input.collision.getD .error) normalized
    onDb (upsertBlob put.hash put.size now)
    writeContent placement ⟨put.hash, put.size, input.mimeType⟩ input.writer.name.text now
    return placement
  let row ← present (← fromDb (getEntry · placement.path))
    (failure .corrupt s!"entry vanished after write: {placement.path.render}")
  return (rowToEntry row, placement.renamed)

structure CopyByBlobRefInput where
  src : String
  dst : String
  mimeType : Option String
  collision : Option WriteCollisionStrategy
  viewer : ViewerContext

def copyByBlobRef (acl : ObjectiveAcl) (input : CopyByBlobRefInput) (now : Int) : FsM FsEntry := do
  let src ← valid (normalizePath input.src)
  let dst ← valid (normalizePath input.dst)
  require (dst ≠ ROOT_PATH) (failure .invalidInput "cannot copy to root")
  require (← fromDb (canRead acl src input.viewer)) (failure .forbidden s!"cannot read source: {src.render}")
  require (canWrite acl dst input.viewer) (failure .forbidden s!"cannot write to destination: {dst.render}")
  let srcRow ← present (← fromDb (getEntry · src)) (failure .notFound s!"no such source: {src.render}")
  require (srcRow.kind = .file) (failure .isADirectory s!"source is a directory: {src.render}")
  let hash ← present (truthy srcRow.contentHash) (failure .corrupt s!"source has no content: {src.render}")
  let size ← present srcRow.size (failure .corrupt s!"source has no content: {src.render}")
  let mimeType := (input.mimeType.or srcRow.mimeType).getD "application/octet-stream"
  let _ ← ensureDirectoryTree (parentOf dst) input.viewer now
  let placement ← withTx do
    let placement ← resolveCollision (input.collision.getD .error) dst
    writeContent placement ⟨hash, size, mimeType⟩ input.viewer.name.text now
    return placement
  let row ← present (← fromDb (getEntry · placement.path))
    (failure .corrupt s!"entry vanished after copy: {placement.path.render}")
  return rowToEntry row

def mkdir (acl : ObjectiveAcl) (path : String) (writer : ViewerContext) (recursive : Bool) (now : Int) : FsM FsEntry := do
  let normalized ← valid (normalizePath path)
  require (normalized ≠ ROOT_PATH) (failure .invalidInput "cannot mkdir root")
  require (canWrite acl normalized writer) (failure .forbidden s!"cannot mkdir {normalized.render}")
  if recursive then ensureDirectoryTree normalized writer now
  else if parentOf normalized = ROOT_PATH then createDirectoryRow normalized writer now
  else
    let parent := parentOf normalized
    let parentRow ← present (← fromDb (getEntry · parent)) (failure .notFound s!"parent does not exist: {parent.render}")
    require (parentRow.kind = .directory) (failure .notADirectory s!"parent is not a directory: {parent.render}")
    createDirectoryRow normalized writer now

/-- A row goes with its grants and its reference. The second component collects `blobsToDrop`. -/
def dropRow (state : Database × List String) (row : FsEntryRow) : Database × List String :=
  let db := deleteGrantsForPath row.path (deleteEntry row.path state.1)
  match row.kind, truthy row.contentHash with
  | .file, some hash =>
    let db := decRef hash db
    if blobRefcount db hash ≤ 0 then (deleteZeroBlob hash db, state.2 ++ [hash]) else (db, state.2)
  | _, _ => (db, state.2)

def dropRows (rows : List FsEntryRow) : FsM (List String) := fun store =>
  let (db, dropped) := rows.foldl dropRow (store.db, [])
  .ok dropped { store with db }

def remove (acl : ObjectiveAcl) (path : String) (writer : ViewerContext) (recursive : Bool) : FsM Unit := do
  let normalized ← valid (normalizePath path)
  require (normalized ≠ ROOT_PATH) (failure .invalidInput "cannot remove root")
  require (canWrite acl normalized writer) (failure .forbidden s!"cannot remove {normalized.render}")
  let target ← present (← fromDb (getEntry · normalized)) (failure .notFound s!"no such path: {normalized.render}")
  let blobsToDrop ← withTx do
    match target.kind with
    | .file => dropRows [target]
    | .directory =>
      let children ← fromDb (listChildren · normalized)
      require (children.isEmpty || recursive) (failure .notEmpty s!"directory not empty: {normalized.render}")
      dropRows (← fromDb (listDescendants · normalized))
  update fun store => { store with deletes := store.deletes ++ blobsToDrop }

def move (acl : ObjectiveAcl) (source destination : String) (writer : ViewerContext) (now : Int) : FsM FsEntry := do
  let src ← valid (normalizePath source)
  let dst ← valid (normalizePath destination)
  if src = dst then
    let row ← present (← fromDb (getEntry · src)) (failure .notFound s!"no such path: {src.render}")
    return rowToEntry row
  else
    require (src ≠ ROOT_PATH && dst ≠ ROOT_PATH) (failure .invalidInput "cannot move root")
    require (canWrite acl src writer && canWrite acl dst writer)
      (failure .forbidden s!"cannot move {src.render} → {dst.render}")
    require (!isAncestorPath src dst)
      (failure .invalidInput s!"destination {dst.render} is inside source {src.render}")
    let row ← present (← fromDb (getEntry · src)) (failure .notFound s!"no such path: {src.render}")
    require (row.kind = .file) (failure .invalidInput "directory move is not supported yet")
    let _ ← ensureDirectoryTree (parentOf dst) writer now
    withTx do
      require (← fromDb fun db => (db.getEntry dst).isNone) (failure .exists s!"destination exists: {dst.render}")
      movePath dst (parentOf dst) (basenameOf dst) now src
      copyGrants dst src
      onDb (deleteGrantsForPath src)
    let moved ← present (← fromDb (getEntry · dst)) (failure .corrupt s!"entry vanished after move: {dst.render}")
    return rowToEntry moved

def grant (path viewer grantedVia : String) (now : Int) : FsM Unit := do
  let normalized ← valid (normalizePath path)
  require (normalized ≠ ROOT_PATH) (failure .invalidInput "cannot grant access to root")
  if ownerOf normalized = some viewer then pure ()
  else onDb (insertGrant ⟨normalized, viewer, now, grantedVia⟩)

def ensureHome (memberName : Name) (now : Int) : FsM Unit := do
  let home ← valid (joinPath ["/", memberName.text])
  match ← fromDb (getEntry · home) with
  | some _ => pure ()
  | none =>
    insertEntry ⟨home, ROOT_PATH, memberName.text, .directory, memberName.text, none, none, none, now, memberName.text, now⟩

end CommandSuite.Files
