import CommandSuite.Cli.Runtime.TranscriptReader
import Mathlib.Data.List.Induction
import Mathlib.Data.List.Nodup

/-! # Lines are read once, in order and whole

The offset of the path, and that of the drain under way for the path it has taken, stand behind a line end, and every
line before them was read.
-/

namespace CommandSuite

open Library Transcript

namespace TranscriptReader

variable {C : Type} (parsers : TranscriptParsers C)

/-! ## The loop of a drain -/

def numbered (path : String) : Nat → List String → List ReadLine
  | _, [] => []
  | index, line :: rest => ⟨path, index, line⟩ :: numbered path (index + 1) rest

variable {path : String}

theorem mem_numbered {index : Nat} {texts : List String} {line : ReadLine} :
    line ∈ numbered path index texts ↔ line.path = path ∧ ∃ i, line.index = index + i ∧ texts[i]? = some line.text := by
  induction texts generalizing index with
  | nil => simp [numbered]
  | cons text texts ih =>
    rw [numbered, List.mem_cons, ih]
    constructor
    · rintro (rfl | ⟨hPath, i, hIndex, hText⟩)
      · exact ⟨rfl, 0, rfl, rfl⟩
      · exact ⟨hPath, i + 1, by omega, hText⟩
    · rintro ⟨hPath, i, hIndex, hText⟩
      cases i with
      | zero =>
        obtain ⟨ofPath, ofIndex, ofText⟩ := line
        cases hPath
        cases hIndex
        cases hText
        exact .inl rfl
      | succ i => exact .inr ⟨hPath, i, by omega, hText⟩

structure SameDrain (before after : TranscriptReader C) : Prop where
  path : after.path = before.path
  offset : after.offset = before.offset
  flight : after.flight = before.flight
  drainQueued : after.drainQueued = before.drainQueued
  closed : after.closed = before.closed

theorem SameDrain.trans {first second third : TranscriptReader C} (h : SameDrain first second) (h' : SameDrain second third) :
    SameDrain first third :=
  ⟨h'.path.trans h.path, h'.offset.trans h.offset, h'.flight.trans h.flight, h'.drainQueued.trans h.drainQueued, h'.closed.trans h.closed⟩

theorem sameDrain_processLine (line : String) (reader : TranscriptReader C) :
    SameDrain reader (processLine parsers line reader) ∧ (processLine parsers line reader).read = reader.read := by
  unfold processLine
  split
  · exact ⟨⟨rfl, rfl, rfl, rfl, rfl⟩, rfl⟩
  · dsimp only
    split
    · exact ⟨⟨rfl, rfl, rfl, rfl, rfl⟩, rfl⟩
    · split <;> exact ⟨⟨rfl, rfl, rfl, rfl, rfl⟩, rfl⟩

theorem sameDrain_readLine (path : String) (index : Nat) (text : String) (reader : TranscriptReader C) :
    SameDrain reader (readLine parsers path index text reader) ∧
    (readLine parsers path index text reader).read = reader.read ++ [⟨path, index, text⟩] := by
  unfold readLine
  dsimp only
  split
  · exact ⟨⟨rfl, rfl, rfl, rfl, rfl⟩, rfl⟩
  · obtain ⟨hDrain, hRead⟩ := sameDrain_processLine parsers text { reader with read := reader.read ++ [⟨path, index, text⟩] }
    exact ⟨⟨hDrain.path, hDrain.offset, hDrain.flight, hDrain.drainQueued, hDrain.closed⟩, hRead⟩

theorem sameDrain_readLines (path : String) (index : Nat) (texts : List String) (reader : TranscriptReader C) :
    SameDrain reader (readLines parsers path index texts reader) ∧
    (readLines parsers path index texts reader).read = reader.read ++ numbered path index texts := by
  induction texts generalizing index reader with
  | nil => exact ⟨⟨rfl, rfl, rfl, rfl, rfl⟩, (List.append_nil _).symm⟩
  | cons text texts ih =>
    rw [readLines, numbered]
    obtain ⟨hFirst, hLine⟩ := sameDrain_readLine parsers path index text reader
    obtain ⟨hRest, hLines⟩ := ih (index + 1) (readLine parsers path index text reader)
    constructor
    · exact hFirst.trans hRest
    · rw [hLines, hLine, List.append_assoc, List.singleton_append]

/-! ## Dedup -/

/-- Every line that was come to, says something and is not meta has been let in under its uuid, each once. -/
structure Deduplicates (reader : TranscriptReader C) : Prop where
  once : reader.seen.Nodup
  emitted : reader.emitted.map Prod.fst = reader.seen
  admitted : ∀ line ∈ reader.read, Text.trim line.text ≠ "" →
    ∀ entry, (parsers.parseJson line.text).bind (parseTranscriptLine parsers) = some entry → entry.isMeta = false → entry.uuid ∈ reader.seen

variable {parsers} in
theorem Deduplicates.readLine {reader : TranscriptReader C} (h : Deduplicates parsers reader) (path : String) (index : Nat) (text : String) :
    Deduplicates parsers (readLine parsers path index text reader) := by
  have hAdmitted {seen : List String} (hSeen : reader.seen ⊆ seen) (hText : Text.trim text ≠ "" →
      ∀ entry, (parsers.parseJson text).bind (parseTranscriptLine parsers) = some entry → entry.isMeta = false → entry.uuid ∈ seen) :
      ∀ line ∈ reader.read ++ [⟨path, index, text⟩], Text.trim line.text ≠ "" →
        ∀ entry, (parsers.parseJson line.text).bind (parseTranscriptLine parsers) = some entry → entry.isMeta = false → entry.uuid ∈ seen := by
    intro line hLine
    obtain hOld | hNew := List.mem_append.mp hLine
    · exact fun hTrim entry hEntry hMeta => hSeen (h.admitted line hOld hTrim entry hEntry hMeta)
    · rw [List.mem_singleton.mp hNew]
      exact hText
  unfold TranscriptReader.readLine
  dsimp only
  split
  · rename_i hBlank
    exact ⟨h.once, h.emitted, hAdmitted (List.Subset.refl _) fun hTrim => absurd hBlank hTrim⟩
  · unfold processLine
    split
    · rename_i hNone
      exact ⟨h.once, h.emitted, hAdmitted (List.Subset.refl _) fun _ entry hEntry => nomatch hNone.symm.trans hEntry⟩
    · rename_i entry hEntry
      have hSame {other : TranscriptEntry C} (hOther : (parsers.parseJson text).bind (parseTranscriptLine parsers) = some other) :
          other = entry := Option.some_inj.mp (hOther.symm.trans hEntry)
      dsimp only
      split
      · rename_i hMeta
        refine ⟨h.once, h.emitted, hAdmitted (List.Subset.refl _) fun _ other hOther hNot => ?_⟩
        rw [hSame hOther, hMeta] at hNot
        cases hNot
      · split
        · rename_i hSeen
          refine ⟨h.once, h.emitted, hAdmitted (List.Subset.refl _) fun _ other hOther _ => ?_⟩
          rw [hSame hOther]
          exact hSeen
        · rename_i hNew
          constructor
          · dsimp only
            rw [← List.concat_eq_append]
            exact h.once.concat hNew
          · dsimp only
            rw [List.map_append, h.emitted]
            rfl
          · refine hAdmitted (List.subset_append_left _ _) fun _ other hOther _ => ?_
            rw [hSame hOther]
            exact List.mem_append_right _ (List.mem_singleton_self _)

variable {parsers} in
theorem Deduplicates.readLines {reader : TranscriptReader C} (h : Deduplicates parsers reader) (path : String) (index : Nat)
    (texts : List String) : Deduplicates parsers (readLines parsers path index texts reader) := by
  induction texts generalizing index reader with
  | nil => exact h
  | cons text texts ih => exact ih (h.readLine path index text) (index + 1)

/-! ## Positions -/

def HasRead (read : List ReadLine) (path : String) (n : Nat) : Prop := ∀ k < n, ∃ line ∈ read, line.path = path ∧ line.index = k

theorem HasRead.mono {read more : List ReadLine} {n : Nat} (h : HasRead read path n) (hMore : read ⊆ more) :
    HasRead more path n := by
  intro k hk
  obtain ⟨line, hLine, hAt⟩ := h k hk
  exact ⟨line, hMore hLine, hAt⟩

theorem HasRead.numbered {read : List ReadLine} {index : Nat} (h : HasRead read path index) (texts : List String) :
    HasRead (read ++ numbered path index texts) path (index + texts.length) := by
  intro k hk
  obtain hOld | hNew := Nat.lt_or_ge k index
  · exact h.mono (List.subset_append_left _ _) k hOld
  · have hText : k - index < texts.length := by omega
    refine ⟨⟨path, k, texts[k - index]⟩, List.mem_append_right _ (mem_numbered.mpr ⟨rfl, k - index, ?_, ?_⟩), rfl, rfl⟩
    · dsimp only
      omega
    · exact List.getElem?_eq_getElem hText

structure InOrder (files : String → List Nat) (read : List ReadLine) : Prop where
  whole : ∀ line ∈ read, ∃ bytes, (lines NEWLINE (files line.path))[line.index]? = some bytes ∧ line.text = Utf8.toString bytes
  ordered : ∀ earlier line later, read = earlier ++ line :: later → HasRead earlier line.path line.index

section InOrder

variable {files : String → List Nat} {read : List ReadLine}

theorem InOrder.snoc (h : InOrder files read) {line : ReadLine} (hBefore : HasRead read line.path line.index)
    (hWhole : ∃ bytes, (lines NEWLINE (files line.path))[line.index]? = some bytes ∧ line.text = Utf8.toString bytes) :
    InOrder files (read ++ [line]) := by
  constructor
  · intro other hOther
    obtain hOld | hNew := List.mem_append.mp hOther
    · exact h.whole other hOld
    · rw [List.mem_singleton.mp hNew]
      exact hWhole
  · intro earlier other later hRead
    induction later using List.reverseRecOn with
    | nil =>
      obtain ⟨rfl, hLine⟩ := List.append_inj' hRead rfl
      cases hLine
      exact hBefore
    | append_singleton later last _ =>
      rw [← List.cons_append, ← List.append_assoc] at hRead
      exact h.ordered earlier other later (List.append_inj' hRead rfl).1

theorem InOrder.numbered {path : String} {index : Nat} {texts : List String} (h : InOrder files read) (hBefore : HasRead read path index)
    (hWhole : ∀ i text, texts[i]? = some text → ∃ bytes, (lines NEWLINE (files path))[index + i]? = some bytes ∧ text = Utf8.toString bytes) :
    InOrder files (read ++ numbered path index texts) := by
  induction texts generalizing index read with
  | nil =>
    rw [TranscriptReader.numbered, List.append_nil]
    exact h
  | cons text texts ih =>
    rw [TranscriptReader.numbered, ← List.singleton_append, ← List.append_assoc]
    apply ih
    · exact h.snoc hBefore (hWhole 0 text rfl)
    · exact hBefore.numbered [text]
    · intro i other hOther
      rw [Nat.add_assoc, Nat.add_comm 1 i]
      exact hWhole (i + 1) other hOther

end InOrder

/-- The offset stands behind a line end of the file, and the lines before it were read. -/
structure Through (files : String → List Nat) (read : List ReadLine) (path : String) (offset : Nat) : Prop where
  within : offset ≤ (files path).length
  whole : Whole NEWLINE ((files path).take offset)
  hasRead : HasRead read path (lines NEWLINE ((files path).take offset)).length

theorem Through.mono {files : String → List Nat} {read more : List ReadLine} {offset : Nat}
    (h : Through files read path offset) (hMore : read ⊆ more) : Through files more path offset :=
  ⟨h.within, h.whole, h.hasRead.mono hMore⟩

theorem through_zero (files : String → List Nat) (read : List ReadLine) (path : String) : Through files read path 0 where
  within := Nat.zero_le _
  whole := .inl (List.take_zero)
  hasRead := by
    rw [List.take_zero]
    exact fun k hk => absurd hk (Nat.not_lt_zero k)

structure Tails (files : String → List Nat) (reader : TranscriptReader C) : Prop where
  inOrder : InOrder files reader.read
  offset : ∀ path ∈ reader.path, Through files reader.read path reader.offset
  flight : ∀ flight ∈ reader.flight, Through files reader.read flight.drainPath flight.start
  queued : reader.flight = none → reader.closed = false → reader.drainQueued = false

section Commit

variable {content ended bytes more : List Nat} {flight : DrainFlight}

theorem commit_cases (hContent : content = ended ++ (bytes ++ more)) (hStart : flight.start = ended.length) (hWhole : Whole NEWLINE ended)
    (reader : TranscriptReader C) :
    commit parsers content flight bytes reader = reader ∧
      (reader.closed = false → reader.path = some flight.drainPath → lines NEWLINE (ended ++ bytes) = lines NEWLINE ended) ∨
    ∃ piece rest, bytes = piece ++ NEWLINE :: rest ∧ NEWLINE ∉ rest ∧ reader.path = some flight.drainPath ∧
      commit parsers content flight bytes reader =
        readLines parsers flight.drainPath (lines NEWLINE ended).length ((piece.splitOn NEWLINE).map Utf8.toString)
          { reader with offset := (ended ++ (piece ++ [NEWLINE])).length } := by
  unfold commit
  split
  · rename_i hEmpty
    refine .inl ⟨rfl, fun _ _ => ?_⟩
    rw [hEmpty, List.append_nil]
  · split
    · rename_i hUnwanted
      refine .inl ⟨rfl, fun hOpen hPath => ?_⟩
      rw [hOpen, hPath] at hUnwanted
      simp at hUnwanted
    · rename_i hWanted
      simp only [ne_eq, Bool.or_eq_true, decide_eq_true_eq, not_or, not_not] at hWanted
      split
      · rename_i hNone
        refine .inl ⟨rfl, fun _ _ => ?_⟩
        rw [hWhole.lines_append, lines_of_not_mem (not_mem_of_lastIndexOf hNone), List.append_nil]
      · rename_i lastNl hLast
        obtain ⟨hBytes, hRest⟩ := lastIndexOf_eq_some hLast
        refine .inr ⟨bytes.take lastNl, bytes.drop (lastNl + 1), hBytes, hRest, hWanted.2, ?_⟩
        have hLength : lastNl < bytes.length := by
          have hSum := congrArg List.length hBytes
          rw [List.length_append, List.length_cons, List.length_take, List.length_drop] at hSum
          omega
        have hIndex : content.take flight.start = ended := by rw [hContent, hStart, List.take_left]
        have hOffset : flight.start + lastNl + 1 = (ended ++ (bytes.take lastNl ++ [NEWLINE])).length := by
          rw [List.length_append, List.length_append, List.length_take, List.length_singleton, hStart]
          omega
        dsimp only
        rw [hIndex, hOffset, Utf8.split_toString]
        rfl

variable {files : String → List Nat} {reader : TranscriptReader C}

theorem tails_commit (h : Tails files reader) (hFlight : Through files reader.read flight.drainPath flight.start) (m : Nat)
    (hBytes : bytes = ((files flight.drainPath).drop flight.start).take m) :
    Tails files (commit parsers (files flight.drainPath) flight bytes reader) ∧
    (reader.closed = false → reader.path = some flight.drainPath →
      HasRead (commit parsers (files flight.drainPath) flight bytes reader).read flight.drainPath
        (lines NEWLINE ((files flight.drainPath).take (flight.start + bytes.length))).length) := by
  obtain ⟨drainPath, start, stage⟩ := flight
  obtain ⟨hWithin, hWhole, hBefore⟩ := hFlight
  dsimp only at *
  have hStart : start = ((files drainPath).take start).length := by
    rw [List.length_take]
    omega
  have hContent : files drainPath = (files drainPath).take start ++ (bytes ++ ((files drainPath).drop start).drop m) := by
    rw [hBytes, List.take_append_drop, List.take_append_drop]
  generalize (files drainPath).take start = ended at *
  generalize ((files drainPath).drop start).drop m = more at *
  have hRead : (files drainPath).take (start + bytes.length) = ended ++ bytes := by
    rw [hContent, ← List.append_assoc, hStart, ← List.length_append, List.take_left]
  obtain ⟨hSame, hNothing⟩ | ⟨piece, rest, rfl, hRest, hPath, hCommit⟩ := commit_cases parsers hContent
    (show (⟨drainPath, start, stage⟩ : DrainFlight).start = ended.length from hStart) hWhole reader
  · rw [hSame]
    refine ⟨h, fun hOpen hPath => ?_⟩
    rw [hRead, hNothing hOpen hPath]
    exact hBefore
  · dsimp only at hPath hCommit
    obtain ⟨hDrain, hLines⟩ := sameDrain_readLines parsers drainPath (lines NEWLINE ended).length ((piece.splitOn NEWLINE).map Utf8.toString)
      { reader with offset := (ended ++ (piece ++ [NEWLINE])).length }
    rw [← hCommit] at hDrain hLines
    generalize commit parsers (files drainPath) ⟨drainPath, start, stage⟩ (piece ++ NEWLINE :: rest) reader = after at *
    dsimp only at hLines
    have hEnded : lines NEWLINE (ended ++ (piece ++ [NEWLINE])) = lines NEWLINE ended ++ piece.splitOn NEWLINE := by
      rw [hWhole.lines_append, lines_append_stop]
    have hEndedWhole : Whole NEWLINE (ended ++ (piece ++ [NEWLINE])) := .inr ⟨ended ++ piece, (List.append_assoc _ _ _).symm⟩
    have hFile : files drainPath = (ended ++ (piece ++ [NEWLINE])) ++ (rest ++ more) := by
      rw [hContent]
      simp only [List.append_assoc, List.cons_append, List.nil_append]
    have hHasRead : HasRead after.read drainPath (lines NEWLINE (ended ++ (piece ++ [NEWLINE]))).length := by
      have hNumbered := hBefore.numbered ((piece.splitOn NEWLINE).map Utf8.toString)
      rw [List.length_map] at hNumbered
      rw [hLines, hEnded, List.length_append]
      exact hNumbered
    have hMore : reader.read ⊆ after.read := by
      rw [hLines]
      exact List.subset_append_left _ _
    refine ⟨⟨?_, ?_, ?_, ?_⟩, fun _ _ => ?_⟩
    · rw [hLines]
      refine h.inOrder.numbered hBefore fun i text hText => ?_
      obtain ⟨line, hLine, rfl⟩ := Option.map_eq_some_iff.mp ((List.getElem?_map ..).symm.trans hText)
      refine ⟨line, ?_, rfl⟩
      obtain ⟨hBound, -⟩ := List.getElem?_eq_some_iff.mp hLine
      rw [hFile, hEndedWhole.lines_append, hEnded, List.append_assoc, List.getElem?_append_right (Nat.le_add_right _ _),
        Nat.add_sub_cancel_left, List.getElem?_append_left hBound]
      exact hLine
    · intro path hMem
      rw [hDrain.path] at hMem
      obtain rfl := Option.some_inj.mp (hPath.symm.trans hMem)
      rw [hDrain.offset]
      dsimp only
      constructor
      · rw [hFile]
        exact (List.prefix_append _ _).length_le
      · rw [hFile, List.take_left]
        exact hEndedWhole
      · rw [hFile, List.take_left]
        exact hHasRead
    · intro flight hMem
      rw [hDrain.flight] at hMem
      exact (h.flight flight hMem).mono hMore
    · rw [hDrain.flight, hDrain.closed, hDrain.drainQueued]
      exact h.queued
    · have hBytesRead : ended ++ (piece ++ NEWLINE :: rest) = (ended ++ (piece ++ [NEWLINE])) ++ rest := by
        simp only [List.append_assoc, List.cons_append, List.nil_append]
      rw [hRead, hBytesRead, hEndedWhole.lines_append, lines_of_not_mem hRest, List.append_nil]
      exact hHasRead

end Commit

section Drains

variable {files : String → List Nat} {reader : TranscriptReader C}

section

variable (h : Tails files reader)
include h

theorem tails_drain : Tails files reader.drain := by
  unfold drain
  split
  · exact h
  · split
    · exact h
    · rename_i path hPath
      split
      · rename_i hFlight
        exact ⟨h.inOrder, h.offset, h.flight, fun hNone => by rw [hNone] at hFlight; cases hFlight⟩
      · refine ⟨h.inOrder, h.offset, fun flight hMem => ?_, fun hNone => nomatch hNone⟩
        obtain rfl := Option.some_inj.mp hMem
        exact h.offset path hPath

theorem tails_finish : Tails files reader.finish := by
  unfold finish
  dsimp only
  split
  · exact tails_drain ⟨h.inOrder, h.offset, fun _ hMem => absurd hMem (Option.not_mem_none _), fun _ _ => rfl⟩
  · rename_i hNot
    refine ⟨h.inOrder, h.offset, fun _ hMem => absurd hMem (Option.not_mem_none _), fun _ hOpen => ?_⟩
    dsimp only at hOpen ⊢
    rw [hOpen] at hNot
    simpa using hNot

theorem tails_moveTo {flight : DrainFlight} (hFlight : Through files reader.read flight.drainPath flight.start)
    (stage : DrainStage) : Tails files (reader.moveTo flight stage) := by
  refine ⟨h.inOrder, h.offset, fun moved hMem => ?_, fun hNone => nomatch hNone⟩
  obtain rfl := Option.some_inj.mp hMem
  exact hFlight

theorem tails_ensurePath (getPath : Option String) : Tails files (reader.ensurePath getPath) := by
  unfold ensurePath
  split
  · exact h
  · split
    · exact h
    · split
      · exact h
      · split
        · exact h
        · refine tails_drain ⟨h.inOrder, fun path hMem => ?_, h.flight, h.queued⟩
          exact through_zero files reader.read path

theorem Tails.grow {grown : String → List Nat} (hGrown : ∀ path, files path <+: grown path) : Tails grown reader := by
  have hThrough {path : String} {offset : Nat} (hPath : Through files reader.read path offset) : Through grown reader.read path offset := by
    obtain ⟨more, hMore⟩ := hGrown path
    have hTake : (grown path).take offset = (files path).take offset := by rw [← hMore, List.take_append_of_le_length hPath.within]
    constructor
    · exact hPath.within.trans (hGrown path).length_le
    · rw [hTake]
      exact hPath.whole
    · rw [hTake]
      exact hPath.hasRead
  refine ⟨⟨fun line hLine => ?_, h.inOrder.ordered⟩, fun path hMem => hThrough (h.offset path hMem),
    fun flight hMem => hThrough (h.flight flight hMem), h.queued⟩
  obtain ⟨bytes, hBytes, hText⟩ := h.inOrder.whole line hLine
  obtain ⟨more, hMore⟩ := hGrown line.path
  refine ⟨bytes, ?_, hText⟩
  rw [← hMore]
  obtain ⟨behind, hLines⟩ := lines_prefix_append NEWLINE (files line.path) more
  rw [← hLines, List.getElem?_append_left (List.getElem?_eq_some_iff.mp hBytes).1]
  exact hBytes

end

structure SameLines (before after : TranscriptReader C) : Prop where
  read : after.read = before.read
  seen : after.seen = before.seen
  emitted : after.emitted = before.emitted

variable {parsers}

theorem Deduplicates.same {after : TranscriptReader C} (h : Deduplicates parsers reader) (hSame : SameLines reader after) :
    Deduplicates parsers after := by
  constructor
  · rw [hSame.seen]
    exact h.once
  · rw [hSame.emitted, hSame.seen]
    exact h.emitted
  · rw [hSame.read, hSame.seen]
    exact h.admitted

theorem sameLines_drain (reader : TranscriptReader C) : SameLines reader reader.drain := by
  unfold drain
  split
  · exact ⟨rfl, rfl, rfl⟩
  · split
    · exact ⟨rfl, rfl, rfl⟩
    · split <;> exact ⟨rfl, rfl, rfl⟩

theorem sameLines_finish (reader : TranscriptReader C) : SameLines reader reader.finish := by
  unfold finish
  dsimp only
  split
  · obtain ⟨hRead, hSeen, hEmitted⟩ := sameLines_drain { reader with flight := none, drainQueued := false }
    exact ⟨hRead, hSeen, hEmitted⟩
  · exact ⟨rfl, rfl, rfl⟩

theorem sameLines_ensurePath (getPath : Option String) (reader : TranscriptReader C) : SameLines reader (reader.ensurePath getPath) := by
  unfold ensurePath
  split
  · exact ⟨rfl, rfl, rfl⟩
  · split
    · exact ⟨rfl, rfl, rfl⟩
    · rename_i p
      split
      · exact ⟨rfl, rfl, rfl⟩
      · split
        · exact ⟨rfl, rfl, rfl⟩
        · obtain ⟨hRead, hSeen, hEmitted⟩ := sameLines_drain { reader with path := some p, offset := 0, prevLineTs := 0 }
          exact ⟨hRead, hSeen, hEmitted⟩

theorem Deduplicates.commit (h : Deduplicates parsers reader) (content : List Nat) (flight : DrainFlight) (bytes : List Nat) :
    Deduplicates parsers (commit parsers content flight bytes reader) := by
  unfold TranscriptReader.commit
  split
  · exact h
  · split
    · exact h
    · split
      · exact h
      · rename_i lastNl _
        have hMoved : Deduplicates parsers { reader with offset := flight.start + lastNl + 1 } := ⟨h.once, h.emitted, h.admitted⟩
        exact hMoved.readLines _ _ _

end Drains

end TranscriptReader

namespace Tail

open TranscriptReader

variable {C : Type} (parsers : TranscriptParsers C) {tail : Tail C}

/-! ## Steps -/

structure Exact (tail : Tail C) : Prop where
  tails : Tails tail.files tail.reader
  dedup : Deduplicates parsers tail.reader

theorem exact_attach (files : String → List Nat) (getPath : Option String) : Exact parsers (attach files getPath : Tail C) := by
  have hStart : Tails files (initial : TranscriptReader C) := by
    refine ⟨⟨fun _ hMem => absurd hMem List.not_mem_nil, fun earlier line later hRead => ?_⟩,
      fun _ hMem => absurd hMem (Option.not_mem_none _), fun _ hMem => absurd hMem (Option.not_mem_none _), fun _ _ => rfl⟩
    cases earlier with
    | nil => cases hRead
    | cons first earlier => cases hRead
  constructor
  · exact tails_ensurePath hStart getPath
  · have hNothing : Deduplicates parsers (initial : TranscriptReader C) :=
      ⟨List.nodup_nil, rfl, fun _ hMem => absurd hMem List.not_mem_nil⟩
    exact hNothing.same (sameLines_ensurePath getPath initial)

theorem sameLines_moveTo (flight : DrainFlight) (stage : DrainStage) (reader : TranscriptReader C) :
    SameLines reader (reader.moveTo flight stage) := ⟨rfl, rfl, rfl⟩

variable {flight : DrainFlight}

section

variable (h : Exact parsers tail)
include h

theorem Exact.moveTo (hFlight : tail.reader.flight = some flight) (stage : DrainStage) :
    Exact parsers { tail with reader := tail.reader.moveTo flight stage } :=
  ⟨tails_moveTo h.tails (h.tails.flight flight hFlight) stage, h.dedup.same (sameLines_moveTo flight stage tail.reader)⟩

theorem Exact.finish : Exact parsers { tail with reader := tail.reader.finish } :=
  ⟨tails_finish h.tails, h.dedup.same (sameLines_finish tail.reader)⟩

theorem Exact.commit (hFlight : tail.reader.flight = some flight) (len bytesRead : Nat)
    (stage : DrainStage) :
    Exact parsers { tail with
      reader := (tail.reader.commit parsers (tail.files flight.drainPath) flight (tail.chunk flight len bytesRead)).moveTo flight stage } ∧
    (tail.reader.closed = false → tail.reader.path = some flight.drainPath →
      HasRead (tail.reader.commit parsers (tail.files flight.drainPath) flight (tail.chunk flight len bytesRead)).read flight.drainPath
        (lines NEWLINE ((tail.files flight.drainPath).take (flight.start + (tail.chunk flight len bytesRead).length))).length) := by
  have hThrough := h.tails.flight flight hFlight
  obtain ⟨hTails, hRead⟩ := tails_commit parsers h.tails hThrough (min bytesRead len) rfl
  have hDedup := h.dedup.commit (tail.files flight.drainPath) flight (tail.chunk flight len bytesRead)
  refine ⟨⟨tails_moveTo hTails (hThrough.mono ?_) stage, hDedup.same (sameLines_moveTo flight stage _)⟩, hRead⟩
  unfold TranscriptReader.commit
  split
  · exact List.Subset.refl _
  · split
    · exact List.Subset.refl _
    · split
      · exact List.Subset.refl _
      · dsimp only
        rw [(sameDrain_readLines parsers _ _ _ _).2]
        exact List.subset_append_left _ _

theorem Exact.resume (hFlight : tail.reader.flight = some flight) (event : TailEvent) :
    Exact parsers { tail with reader := resume parsers event tail flight } := by
  unfold Tail.resume
  split
  · exact h.moveTo parsers hFlight _
  · exact h.finish parsers
  · dsimp only
    split
    · exact h.moveTo parsers hFlight _
    · exact h.moveTo parsers hFlight _
  · exact h.moveTo parsers hFlight _
  · exact (h.commit parsers hFlight _ _ _).1
  · exact h.moveTo parsers hFlight _
  · exact h.finish parsers
  · exact h

theorem Exact.next (event : TailEvent) : Exact parsers (next parsers tail event).1 := by
  cases event with
  | append path bytes =>
    refine ⟨h.tails.grow fun other => ?_, h.dedup⟩
    dsimp only [Tail.next]
    obtain rfl | hOther := eq_or_ne other path
    · rw [Function.update_self]
      exact List.prefix_append _ _
    · simp [hOther]
  | pathChanges getPath => exact ⟨h.tails, h.dedup⟩
  | poll =>
    constructor
    · exact tails_drain (tails_ensurePath h.tails tail.getPath)
    · exact (h.dedup.same (sameLines_ensurePath tail.getPath tail.reader)).same (sameLines_drain _)
  | watch => exact ⟨tails_drain h.tails, h.dedup.same (sameLines_drain tail.reader)⟩
  | opened | statted | read | released =>
    dsimp only [Tail.next]
    split
    · exact h
    · rename_i flight hFlight
      exact h.resume parsers hFlight _
  | close => exact ⟨⟨h.tails.inOrder, h.tails.offset, h.tails.flight, by rintro _ ⟨⟩⟩, ⟨h.dedup.once, h.dedup.emitted, h.dedup.admitted⟩⟩

end

/-! ## Runs -/

structure ReadsOn (step : Step (Tail C) TailEvent Unit) (flight : DrainFlight) (len bytesRead : Nat) : Prop where
  draining : step.before.reader.flight = some flight
  stage : flight.stage = .reading len
  input : step.input = .read (some bytesRead)
  isOpen : step.before.reader.closed = false
  followed : step.before.reader.path = some flight.drainPath

theorem take_chunk (tail : Tail C) (flight : DrainFlight) (len bytesRead : Nat) :
    (tail.files flight.drainPath).take (flight.start + (tail.chunk flight len bytesRead).length) =
      (tail.files flight.drainPath).take (flight.start + min bytesRead len) := by
  rw [List.take_add, List.take_add, chunk, List.length_take]
  congr 1
  obtain hFits | hBeyond := Nat.le_total (min bytesRead len) ((tail.files flight.drainPath).drop flight.start).length
  · rw [Nat.min_eq_left hFits]
  · rw [Nat.min_eq_right hBeyond, List.take_length, List.take_of_length_le hBeyond]

theorem Exact.readsOn (h : Exact parsers tail) {event : TailEvent} {len bytesRead : Nat}
    (hReads : ReadsOn (stepAt (Tail.next parsers) tail event) flight len bytesRead) :
    HasRead (Tail.next parsers tail event).1.reader.read flight.drainPath
      (lines NEWLINE ((tail.files flight.drainPath).take (flight.start + min bytesRead len))).length := by
  obtain ⟨hFlight, hStage, hInput, hOpen, hPath⟩ := hReads
  dsimp only [stepAt] at *
  subst hInput
  have hRead := (h.commit parsers hFlight len bytesRead .closing).2 hOpen hPath
  rw [take_chunk] at hRead
  have hNext : (Tail.next parsers tail (.read (some bytesRead))).1.reader =
      (tail.reader.commit parsers (tail.files flight.drainPath) flight (tail.chunk flight len bytesRead)).moveTo flight .closing := by
    unfold Tail.next
    dsimp only
    rw [hFlight]
    dsimp only
    unfold Tail.resume
    rw [hStage]
  rw [hNext]
  exact hRead

theorem lines_read_once (files : String → List Nat) (getPath : Option String) (events : List TailEvent) :
    let tail : Tail C := final (next parsers) (attach files getPath) events
    InOrder tail.files tail.reader.read ∧
    (∀ step ∈ run (next parsers) (attach files getPath) events, ∀ flight len bytesRead, ReadsOn step flight len bytesRead →
      HasRead step.after.reader.read flight.drainPath
        (lines NEWLINE ((step.before.files flight.drainPath).take (flight.start + min bytesRead len))).length) ∧
    Deduplicates parsers tail.reader ∧
    (tail.reader.flight = none → tail.reader.closed = false → tail.reader.drainQueued = false) := by
  have hStart := exact_attach parsers files getPath
  have hEnd := final_invariant (P := Exact parsers) (fun tail event h => h.next parsers event) hStart events
  refine ⟨hEnd.tails.inOrder, fun step hStep flight len bytesRead hReads => ?_, hEnd.dedup, hEnd.tails.queued⟩
  obtain ⟨hBefore, hNext⟩ := run_invariant (P := Exact parsers) (fun tail event h => h.next parsers event) hStart hStep
  rw [hNext] at hReads ⊢
  exact hBefore.readsOn parsers hReads

/-! The path changes while a drain of the old file is under way. -/

/-- Nothing is appended or closed, nothing is rejected, and a read brings the whole file. -/
def Unhindered (size : Nat) : TailEvent → Prop
  | .append .. | .opened false | .statted false | .read none | .close => False
  | .read (some bytesRead) => size ≤ bytesRead
  | _ => True

def silent : TranscriptParsers Unit := ⟨fun _ => none, fun _ => none, fun _ => ⟨"unknown", [], none, none, none, none⟩⟩

/-- The file `a` has one line when the reader attaches to it. -/
def oneLine (path : String) : List Nat := if path = "a" then [0x78, NEWLINE] else []

def replacedInTheMeantime : List TailEvent :=
  [.opened true, .statted true, .pathChanges (some "b"), .poll, .read (some 2), .released, .opened true, .statted true, .released]

theorem line_left_behind : ¬∀ events : List TailEvent, (∀ event ∈ events, Unhindered 2 event) →
    let tail := final (next silent) (attach oneLine (some "a")) events
    tail.reader.flight.isNone → HasRead tail.reader.read "a" (lines NEWLINE (tail.files "a")).length := by
  intro h
  have hUnhindered : ∀ event ∈ replacedInTheMeantime, Unhindered 2 event := by
    simp [replacedInTheMeantime, Unhindered]
  have hRead := h replacedInTheMeantime hUnhindered rfl 0 (by decide)
  obtain ⟨line, hLine, -⟩ := hRead
  cases hLine

end Tail

end CommandSuite
