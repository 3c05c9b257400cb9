import CommandSuite.Core.Message
import CommandSuite.Library.Fallible
import CommandSuite.Library.Table
import CommandSuite.Library.Text
import CommandSuite.Library.Transcript
import Mathlib.Data.List.Sort

/-! # The team process

`packages/core/src/team-process.ts`: one document, and one edit for each of its versions. The schemas of an edit and
of the request for one stand in `packages/sdk/src/schemas.ts`. The columns `fields` and `previous` are the documents
that their JSON texts stand for, and `none` for a text that stands for no document.
-/

namespace CommandSuite

open Library Transcript Fallible Text

inductive AmendmentDisposition where
  | correction | scopeChange
  deriving DecidableEq

namespace AmendmentDisposition

def text : AmendmentDisposition → String
  | .correction => "correction"
  | .scopeChange => "scope_change"

def ofText (text : String) : Option AmendmentDisposition :=
  [AmendmentDisposition.correction, .scopeChange].find? fun disposition => disposition.text = text

@[simp] theorem ofText_text (disposition : AmendmentDisposition) : ofText disposition.text = some disposition := by
  cases disposition <;> rfl

end AmendmentDisposition

inductive TeamProcessField where
  | text
  deriving DecidableEq

def TEAM_PROCESS_FIELDS : List TeamProcessField := [.text]

namespace TeamProcessField

def key : TeamProcessField → String
  | .text => "text"

def ofKey (key : String) : Option TeamProcessField := TEAM_PROCESS_FIELDS.find? fun field => field.key = key

@[simp] theorem ofKey_key (field : TeamProcessField) : ofKey field.key = some field := by
  cases field
  rfl

end TeamProcessField

def TEAM_PROCESS_MAX : Nat := 16384

/-- The shape of `text` in `EDITABLE_TEAM_PROCESS_SHAPE`. -/
def editableText (text : String) : Bool := 1 ≤ units text && units text ≤ TEAM_PROCESS_MAX

def editReason (reason : String) : Bool := 1 ≤ units reason && units reason ≤ 2048

/-- What `EditTeamProcessRequestSchema` lets through. -/
structure EditTeamProcessRequest where
  text : Option String
  reason : String
  disposition : AmendmentDisposition
  validText : text.all editableText = true
  validReason : editReason reason = true

namespace EditTeamProcessRequest

def get (input : EditTeamProcessRequest) : TeamProcessField → Option String
  | .text => input.text

/-- The optional member `text` of a body. -/
def parseText (body : JsonObject) : Option (Option String) :=
  match body.get "text" with
  | none => some none
  | some value => value.asString.map some

def parse : Json → Option EditTeamProcessRequest
  | .object body => do
    let text ← parseText body
    let reason ← (JsonObject.get body "reason").bind Json.asString
    let disposition ← ((JsonObject.get body "disposition").bind Json.asString).bind AmendmentDisposition.ofText
    if h : text.all editableText = true ∧ editReason reason = true then
      some ⟨text, reason, disposition, h.1, h.2⟩
    else none
  | _ => none

end EditTeamProcessRequest

structure TeamProcess where
  text : String
  version : Nat
  createdBy : String
  createdAt : Int
  updatedBy : String
  updatedAt : Int

def TeamProcess.get (document : TeamProcess) : TeamProcessField → String
  | .text => document.text

/-- A row of `team_process_edits`. -/
structure TeamProcessEditRow where
  version : Nat
  ts : Int
  actor : String
  reason : String
  disposition : String
  fields : Option Json
  previous : Option Json

/-- `previous` has the members that the record has, with their texts. -/
structure TeamProcessEdit where
  version : Nat
  ts : Int
  actor : Name
  reason : String
  disposition : AmendmentDisposition
  fields : List TeamProcessField
  previous : List (TeamProcessField × String)

namespace TeamProcessEdit

def fieldsColumn (edit : TeamProcessEdit) : Json := .array (edit.fields.map fun field => .string field.key)

def previousColumn (edit : TeamProcessEdit) : Json :=
  .object (edit.previous.map fun retained => (retained.1.key, .string retained.2))

def toRow (edit : TeamProcessEdit) : TeamProcessEditRow where
  version := edit.version
  ts := edit.ts
  actor := edit.actor.text
  reason := edit.reason
  disposition := edit.disposition.text
  fields := some edit.fieldsColumn
  previous := some edit.previousColumn

def fieldsSchema : Json → Option (List TeamProcessField)
  | .array items => do
    let fields ← items.mapM fun item => item.asString.bind TeamProcessField.ofKey
    if fields ≠ [] ∧ fields.Nodup then some fields else none
  | _ => none

/-- The strict record of `previous`: another member is refused, not stripped. -/
def previousSchema : Json → Option (List (TeamProcessField × String))
  | .object members => members.mapM fun member => do
    let field ← TeamProcessField.ofKey member.1
    let text ← member.2.asString
    if editableText text then some (field, text) else none
  | _ => none

/-- The rule of `superRefine`: version 1 retains nothing, every other version retains exactly the fields it changed. -/
def refined (version : Nat) (fields : List TeamProcessField) (previous : List (TeamProcessField × String)) : Bool :=
  if version = 1 then previous = []
  else
    fields.all (fun field => (previous.lookup field).isSome) && previous.all fun retained => retained.1 ∈ fields

/-- `TeamProcessEditSchema`, of a row whose two documents could be read. -/
def schema (row : TeamProcessEditRow) (fields previous : Json) : Option TeamProcessEdit := do
  let actor ← Name.parse row.actor
  let disposition ← AmendmentDisposition.ofText row.disposition
  let fields ← fieldsSchema fields
  let previous ← previousSchema previous
  if 0 < row.version ∧ 0 ≤ row.ts ∧ editReason row.reason = true ∧ refined row.version fields previous = true then
    some ⟨row.version, row.ts, actor, row.reason, disposition, fields, previous⟩
  else none

end TeamProcessEdit

inductive CorruptHistory where
  | unreadable (column : String) (version : Nat)
  | invalidRecord (version row rows : Nat)
  | notContiguous (expected found : Nat)
  | incomplete (expected found : Nat)

inductive TeamProcessError where
  | invalidInput (message : String)
  | corruptHistory (corruption : CorruptHistory)
  | storage

structure SqliteTeamProcessStore where
  document : Option TeamProcess
  edits : Table TeamProcessEditRow.version

/-- A call of `write` on behalf of a member, at the time of the clock. -/
structure TeamProcessWrite where
  input : EditTeamProcessRequest
  actor : Name
  now : Nat

namespace SqliteTeamProcessStore

def empty : SqliteTeamProcessStore := ⟨none, .empty⟩

def get (store : SqliteTeamProcessStore) : Option TeamProcess := store.document

def text (store : SqliteTeamProcessStore) : Option String := store.get.map TeamProcess.text

/-- `current?.version ?? 0`. -/
def version (store : SqliteTeamProcessStore) : Nat := (store.get.map TeamProcess.version).getD 0

/-! ## Writing -/

/-- `fields`, `previous` and `next`, as the loop of `write` fills them. -/
structure Draft where
  fields : List TeamProcessField
  previous : List (TeamProcessField × String)
  next : String

def Draft.assign (draft : Draft) : TeamProcessField → String → Draft
  | .text, incoming => { draft with next := incoming }

def draftField (current : Option TeamProcess) (input : EditTeamProcessRequest) (draft : Draft) (field : TeamProcessField) :
    Draft :=
  match input.get field with
  | none => draft
  | some incoming =>
    match current with
    | none => ({ draft with fields := draft.fields ++ [field] } : Draft).assign field incoming
    | some document =>
      if incoming = document.get field then draft
      else
        ({ draft with
          fields := draft.fields ++ [field]
          previous := draft.previous ++ [(field, document.get field)] } : Draft).assign field incoming

def draft (current : Option TeamProcess) (input : EditTeamProcessRequest) : Draft :=
  TEAM_PROCESS_FIELDS.foldl (draftField current input) ⟨[], [], (current.map TeamProcess.text).getD ""⟩

def nothingToWrite (current : Option TeamProcess) : String :=
  let names := ", ".intercalate (TEAM_PROCESS_FIELDS.map TeamProcessField.key)
  match current with
  | none => s!"no team process exists — the first write must supply {names}"
  | some _ => s!"edit changes nothing — supply {names} that differs from the current text"

def blank : String :=
  "the team process cannot be empty — delete is not an edit, and a blank document renders identically to a team " ++
    "that never wrote one"

def moveDocument (current : Option TeamProcess) (next : String) (version : Nat) (actor : Name) (now : Int) : TeamProcess :=
  match current with
  | none => ⟨next, version, actor.text, now, actor.text, now⟩
  | some document => { document with text := next, version := version, updatedBy := actor.text, updatedAt := now }

def record (store : SqliteTeamProcessStore) (document : TeamProcess) (row : TeamProcessEditRow) :
    Option SqliteTeamProcessStore :=
  match store.edits.find row.version with
  | some _ => none
  | none => some ⟨some document, store.edits.insertOrIgnore row⟩

def edit (store : SqliteTeamProcessStore) (call : TeamProcessWrite) (draft : Draft) : TeamProcessEdit where
  version := store.version + 1
  ts := call.now
  actor := call.actor
  reason := call.input.reason
  disposition := call.input.disposition
  fields := draft.fields
  previous := draft.previous

def write (store : SqliteTeamProcessStore) (call : TeamProcessWrite) :
    SqliteTeamProcessStore × Except TeamProcessError (Option TeamProcess × TeamProcessEdit) :=
  let current := store.get
  let draft := draft current call.input
  if draft.fields = [] then (store, .error (.invalidInput (nothingToWrite current)))
  else if trim draft.next = "" then (store, .error (.invalidInput blank))
  else
    let edit := store.edit call draft
    match store.record (moveDocument current draft.next edit.version call.actor call.now) edit.toRow with
    | none => (store, .error .storage)
    | some after => (after, .ok (after.get, edit))

/-! ## Reading the history back -/

/-- One round of the first pass of `history`. -/
def parseRow (rows i : Nat) (row : TeamProcessEditRow) : Except CorruptHistory TeamProcessEdit :=
  match row.fields, row.previous with
  | none, _ => .error (.unreadable "fields" row.version)
  | _, none => .error (.unreadable "previous" row.version)
  | some fields, some previous =>
    match TeamProcessEdit.schema row fields previous with
    | none => .error (.invalidRecord row.version (i + 1) rows)
    | some edit => .ok edit

def parseRows (rows : Nat) : Nat → List TeamProcessEditRow → Except CorruptHistory (List TeamProcessEdit)
  | _, [] => .ok []
  | i, row :: rest => do
    let edit ← parseRow rows i row
    let edits ← parseRows rows (i + 1) rest
    return edit :: edits

def checkContiguous : Nat → List TeamProcessEdit → Except CorruptHistory Unit
  | _, [] => .ok ()
  | i, edit :: edits => if edit.version = i + 1 then checkContiguous (i + 1) edits else .error (.notContiguous (i + 1) edit.version)

def checkComplete (store : SqliteTeamProcessStore) (edits : List TeamProcessEdit) : Except CorruptHistory Unit :=
  if edits.length = store.version then .ok () else .error (.incomplete store.version edits.length)

/-- `ORDER BY version ASC`. -/
def selectHistory (store : SqliteTeamProcessStore) : List TeamProcessEditRow :=
  store.edits.rows.insertionSort fun row other => row.version ≤ other.version

def readHistory (store : SqliteTeamProcessStore) : Except CorruptHistory (List TeamProcessEdit) := do
  let rows := store.selectHistory
  let edits ← parseRows rows.length 0 rows
  checkContiguous 0 edits
  checkComplete store edits
  return edits

def history (store : SqliteTeamProcessStore) : Except TeamProcessError (List TeamProcessEdit) :=
  store.readHistory.mapError .corruptHistory

/-- The texts before each of these edits, newest first, and the current text in front of them. -/
def rewind : Option String → List TeamProcessEdit → List (Option String)
  | current, [] => [current]
  | current, edit :: older => current :: rewind (edit.previous.lookup .text) older

/-! ## What one write does -/

theorem draft_eq (current : Option TeamProcess) (input : EditTeamProcessRequest) :
    draft current input =
      match input.text, current with
      | none, _ => ⟨[], [], (current.map TeamProcess.text).getD ""⟩
      | some incoming, none => ⟨[.text], [], incoming⟩
      | some incoming, some document =>
        if incoming = document.text then ⟨[], [], document.text⟩ else ⟨[.text], [(.text, document.text)], incoming⟩ := by
  simp only [draft, TEAM_PROCESS_FIELDS, List.foldl_cons, List.foldl_nil, draftField, EditTeamProcessRequest.get]
  cases input.text with
  | none => rfl
  | some incoming => cases current <;> rfl

theorem draft_changed {current : Option TeamProcess} {input : EditTeamProcessRequest} (h : (draft current input).fields ≠ []) :
    input.text = some (draft current input).next ∧ (draft current input).fields = [.text] ∧
      (draft current input).previous = ((current.map TeamProcess.text).map fun text => (.text, text)).toList := by
  rw [draft_eq] at h ⊢
  cases hText : input.text with
  | none => simp [hText] at h
  | some incoming =>
    cases current with
    | none => simp
    | some document =>
      simp only [hText] at h ⊢
      split at h
      · exact absurd rfl h
      · rename_i hNew
        simp [if_neg hNew]

theorem record_eq_some {store after : SqliteTeamProcessStore} {document : TeamProcess} {row : TeamProcessEditRow}
    (h : store.record document row = some after) :
    after.document = some document ∧ after.edits.rows = store.edits.rows ++ [row] := by
  unfold record at h
  cases hFind : store.edits.find row.version with
  | some other => simp [hFind] at h
  | none =>
    simp only [hFind, Option.some.injEq] at h
    subst h
    exact ⟨rfl, by rw [Table.rows_insertOrIgnore, if_pos hFind]⟩

@[simp] theorem text_moveDocument (current : Option TeamProcess) (next : String) (version : Nat) (actor : Name) (now : Int) :
    (moveDocument current next version actor now).text = next := by
  cases current <;> rfl

@[simp] theorem version_moveDocument (current : Option TeamProcess) (next : String) (version : Nat) (actor : Name) (now : Int) :
    (moveDocument current next version actor now).version = version := by
  cases current <;> rfl

theorem write_cases (store : SqliteTeamProcessStore) (call : TeamProcessWrite) :
    (∃ error, write store call = (store, .error error)) ∨
      ∃ next document after,
        let edit := store.edit call ⟨[.text], (store.text.map fun text => (TeamProcessField.text, text)).toList, next⟩
        write store call = (after, .ok (after.get, edit)) ∧ call.input.text = some next ∧
          document.text = next ∧ document.version = edit.version ∧ after.document = some document ∧
          after.edits.rows = store.edits.rows ++ [edit.toRow] := by
  simp only [write]
  split
  · exact .inl ⟨_, rfl⟩
  rename_i hFields
  obtain ⟨hText, hField, hPrevious⟩ := draft_changed hFields
  split
  · exact .inl ⟨_, rfl⟩
  have hDraft : draft store.get call.input =
      ⟨[.text], (store.text.map fun text => (TeamProcessField.text, text)).toList, (draft store.get call.input).next⟩ := by
    rw [← hField, text, ← hPrevious]
  generalize (draft store.get call.input).next = next at hText hDraft
  rw [hDraft]
  cases hRecord : store.record _ _ with
  | none => exact .inl ⟨_, rfl⟩
  | some after =>
    obtain ⟨hDocument, hRows⟩ := record_eq_some hRecord
    exact .inr ⟨next, _, after, rfl, hText, text_moveDocument _ _ _ _ _, version_moveDocument _ _ _ _ _, hDocument, hRows⟩

/-! ## What the history reads -/

def Readable (edit : TeamProcessEdit) : Prop :=
  TeamProcessEdit.schema edit.toRow edit.fieldsColumn edit.previousColumn = some edit

theorem readable_edit (store : SqliteTeamProcessStore) (call : TeamProcessWrite) (next : String)
    (hVersion : store.version = 0 ↔ store.text = none) (hText : store.text.all editableText = true) :
    Readable (store.edit call ⟨[.text], (store.text.map fun text => (TeamProcessField.text, text)).toList, next⟩) := by
  have hFields : TeamProcessEdit.fieldsSchema (.array [.string TeamProcessField.text.key]) = some [.text] := by decide
  have hActor : Name.parse call.actor.text = some call.actor := (Name.parse_eq_some_iff _ _).mpr rfl
  unfold Readable TeamProcessEdit.schema
  cases hCurrent : store.text with
  | none =>
    have hFirst := hVersion.mpr hCurrent
    simp [edit, TeamProcessEdit.toRow, TeamProcessEdit.fieldsColumn, TeamProcessEdit.previousColumn, hFields, hActor, hFirst,
      TeamProcessEdit.previousSchema, TeamProcessEdit.refined, call.input.validReason]
  | some current =>
    have hLater : store.version ≠ 0 := fun h => by simp [hVersion.mp h] at hCurrent
    have hEditable : editableText current = true := by simpa [hCurrent] using hText
    simp [edit, TeamProcessEdit.toRow, TeamProcessEdit.fieldsColumn, TeamProcessEdit.previousColumn, hFields, hActor, hLater,
      TeamProcessEdit.previousSchema, TeamProcessEdit.refined, call.input.validReason, hEditable, Json.asString]

theorem parseRow_toRow {edit : TeamProcessEdit} (h : Readable edit) (rows i : Nat) : parseRow rows i edit.toRow = .ok edit := by
  have hRow : parseRow rows i edit.toRow =
      match TeamProcessEdit.schema edit.toRow edit.fieldsColumn edit.previousColumn with
      | none => .error (.invalidRecord edit.version (i + 1) rows)
      | some parsed => .ok parsed := rfl
  rw [hRow, show TeamProcessEdit.schema _ _ _ = _ from h]

variable {edits : List TeamProcessEdit}

theorem parseRows_toRow (h : ∀ edit ∈ edits, Readable edit) (rows i : Nat) :
    parseRows rows i (edits.map TeamProcessEdit.toRow) = .ok edits := by
  induction edits generalizing i with
  | nil => rfl
  | cons edit edits ih =>
    obtain ⟨hFirst, hRest⟩ := List.forall_mem_cons.mp h
    simp [parseRows, parseRow_toRow hFirst, ih hRest, bind, Except.bind, pure, Except.pure]

theorem checkContiguous_of_range {i : Nat}
    (h : edits.map TeamProcessEdit.version = List.range' (i + 1) edits.length) : checkContiguous i edits = .ok () := by
  induction edits generalizing i with
  | nil => rfl
  | cons edit edits ih =>
    rw [List.length_cons, List.range'_succ, List.map_cons] at h
    obtain ⟨hFirst, hRest⟩ := List.cons.inj h
    rw [checkContiguous, if_pos hFirst, ih hRest]

variable {store : SqliteTeamProcessStore}

/-- The rows are these edits, one for each version, and the document stands at the last of them. -/
structure Recorded (store : SqliteTeamProcessStore) (edits : List TeamProcessEdit) (texts : List (Option String)) : Prop where
  rows : store.edits.rows = edits.map TeamProcessEdit.toRow
  readable : ∀ edit ∈ edits, Readable edit
  versions : edits.map TeamProcessEdit.version = List.range' 1 edits.length
  version : store.version = edits.length
  exists_iff : store.version = 0 ↔ store.text = none
  editable : store.text.all editableText = true
  rewinds : rewind store.text edits.reverse = texts.reverse ++ [none]

theorem recorded_empty : Recorded empty [] [] where
  rows := rfl
  readable := by simp
  versions := rfl
  version := rfl
  exists_iff := by simp [empty, SqliteTeamProcessStore.version, text, get]
  editable := rfl
  rewinds := rfl

variable {texts : List (Option String)}

theorem Recorded.write (h : Recorded store edits texts) (call : TeamProcessWrite) :
    (∃ error, write store call = (store, .error error)) ∨
      ∃ after document edit, write store call = (after, .ok (document, edit)) ∧
        Recorded after (edits ++ [edit]) (texts ++ [after.text]) := by
  obtain hError | ⟨next, document, after, hWrite, hInput, hText, hVersion, hDocument, hRows⟩ := write_cases store call
  · exact .inl hError
  right
  have hNow : after.text = some next := by rw [text, get, hDocument, Option.map_some, hText]
  have hAt : after.version = store.version + 1 := by rw [SqliteTeamProcessStore.version, get, hDocument]; exact hVersion
  refine ⟨after, _, _, hWrite, ?_, ?_, ?_, ?_, ?_, ?_, ?_⟩
  · rw [hRows, h.rows, List.map_append, List.map_singleton]
  · intro edit hEdit
    obtain hOld | hNew := List.mem_append.mp hEdit
    · exact h.readable edit hOld
    · rw [List.mem_singleton.mp hNew]
      exact readable_edit store call next h.exists_iff h.editable
  · rw [List.map_append, h.versions, List.length_append, List.length_singleton, List.range'_concat, List.map_singleton]
    simp [SqliteTeamProcessStore.edit, h.version, Nat.add_comm]
  · rw [hAt, h.version, List.length_append, List.length_singleton]
  · simp [hAt, hNow]
  · have hValid := call.input.validText
    rw [hInput] at hValid
    rw [hNow]
    exact hValid
  · have hBefore : List.lookup TeamProcessField.text
        (store.text.map fun text => (TeamProcessField.text, text)).toList = store.text := by
      cases store.text <;> rfl
    rw [List.reverse_append, List.reverse_singleton, List.singleton_append, rewind, SqliteTeamProcessStore.edit, hBefore, h.rewinds]
    simp

theorem recorded_final (h : Recorded store edits texts) (writes : List TeamProcessWrite) :
    ∃ edits', Recorded (final write store writes) edits'
      (texts ++ ((run write store writes).filter fun step => step.output.isOk).map fun step => step.after.text) := by
  induction writes generalizing store edits texts with
  | nil => exact ⟨edits, by simpa using h⟩
  | cons call writes ih =>
    rw [final_cons, run_cons]
    obtain ⟨error, hWrite⟩ | ⟨after, document, edit, hWrite, hAfter⟩ := h.write call
    · rw [List.filter_cons_of_neg (by simp [hWrite, Except.isOk, Except.toBool]), hWrite]
      exact ih h
    · obtain ⟨edits', hRest⟩ := ih hAfter
      refine ⟨edits', ?_⟩
      rw [List.filter_cons_of_pos (by simp [hWrite, Except.isOk, Except.toBool]), List.map_cons, stepAt_after, hWrite]
      simpa using hRest

theorem Recorded.history (h : Recorded store edits texts) : store.history = .ok edits := by
  have hSorted : store.selectHistory = edits.map TeamProcessEdit.toRow := by
    rw [selectHistory, h.rows]
    refine List.Pairwise.insertionSort_eq (List.pairwise_map.mpr ?_)
    have hVersions : (edits.map TeamProcessEdit.version).Pairwise (· ≤ ·) := h.versions ▸ List.pairwise_le_range'
    exact List.pairwise_map.mp hVersions
  have hComplete : checkComplete store edits = .ok () := by rw [checkComplete, if_pos h.version.symm]
  rw [SqliteTeamProcessStore.history, readHistory, hSorted]
  simp [parseRows_toRow h.readable, checkContiguous_of_range h.versions, hComplete, bind, Except.bind, pure, Except.pure, Except.mapError]

/-- A request of `PUT` on the team process, with the member who is signed in. -/
structure Put where
  permissions : List Permission
  member : Name
  body : Json
  now : Nat

inductive PutResponse where
  | forbidden
  | invalidPayload
  | written (existed : Bool) (document : Option TeamProcess) (edit : TeamProcessEdit)
  | refused (error : TeamProcessError)

def Put.call (request : Put) : Option TeamProcessWrite :=
  if hasPermission request.permissions .teamProcessManage then
    (EditTeamProcessRequest.parse request.body).map fun input => ⟨input, request.member, request.now⟩
  else none

def put (store : SqliteTeamProcessStore) (request : Put) : SqliteTeamProcessStore × PutResponse :=
  if hasPermission request.permissions .teamProcessManage then
    match EditTeamProcessRequest.parse request.body with
    | none => (store, .invalidPayload)
    | some input =>
      match write store ⟨input, request.member, request.now⟩ with
      | (after, .ok (document, edit)) => (after, .written store.get.isSome document edit)
      | (after, .error error) => (after, .refused error)
  else (store, .forbidden)

theorem put_fst (store : SqliteTeamProcessStore) (request : Put) :
    (put store request).1 = (request.call.map fun call => (write store call).1).getD store := by
  unfold put Put.call
  split
  · cases EditTeamProcessRequest.parse request.body with
    | none => rfl
    | some input =>
      simp only [Option.map_some, Option.getD_some]
      split <;> rename_i hWrite <;> rw [hWrite]
  · rfl

theorem final_put (store : SqliteTeamProcessStore) (requests : List Put) :
    final put store requests = final write store (requests.filterMap Put.call) := by
  induction requests generalizing store with
  | nil => rfl
  | cons request requests ih =>
    rw [final_cons, put_fst, ih]
    cases hCall : request.call with
    | none => rw [List.filterMap_cons_none hCall]; rfl
    | some call => rw [List.filterMap_cons_some hCall]; rfl

theorem put_history (requests : List Put) : ∃ edits, (final put empty requests).history = .ok edits := by
  obtain ⟨edits, hRecorded⟩ := recorded_final recorded_empty (requests.filterMap Put.call)
  exact ⟨edits, by rw [final_put]; exact hRecorded.history⟩

end SqliteTeamProcessStore

end CommandSuite
