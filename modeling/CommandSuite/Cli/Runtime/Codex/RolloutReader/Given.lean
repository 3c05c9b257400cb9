import CommandSuite.Cli.Runtime.Codex.RolloutReader
import Mathlib.Data.List.Nodup

/-! # What is given to the parsers of the rollouts

The parser of a file has been given the lines between the place the file is tracked from and its offset, which stands
behind a line end.
-/

namespace CommandSuite

open Library RolloutReader Function

/-! ## Tracked files -/

namespace TrackedFile

def segment (files : String → List Nat) (file : TrackedFile) : List Nat := ((files file.path).take file.offset).drop file.start

def given (files : String → List Nat) (file : TrackedFile) : List ParserCall :=
  (((lines NEWLINE (file.segment files)).map Utf8.toString).filter fun line => !isBlank line).map .handleLine

def Aligned (files : String → List Nat) (file : TrackedFile) : Prop := Whole NEWLINE ((files file.path).take file.start)

structure Tailed (files : String → List Nat) (flushed : Bool) (file : TrackedFile) : Prop where
  behindStart : file.start ≤ file.offset
  within : file.offset ≤ (files file.path).length
  whole : Whole NEWLINE (file.segment files)
  calls : file.calls = file.given files ++ if flushed then [.flush] else []

/-- The lines that the file had are among those that have been consumed. -/
def Complete (earlier files : String → List Nat) (file : TrackedFile) : Prop :=
  lines NEWLINE ((earlier file.path).drop file.start) <+: lines NEWLINE (file.segment files)

variable {earlier files grown : String → List Nat} {flushed : Bool} {file : TrackedFile}

theorem segment_grown (h : Tailed files flushed file) (hGrown : ∀ path, files path <+: grown path) :
    file.segment grown = file.segment files := by
  obtain ⟨more, hMore⟩ := hGrown file.path
  rw [segment, segment, ← hMore, List.take_append_of_le_length h.within]

theorem Tailed.grow (h : Tailed files flushed file) (hGrown : ∀ path, files path <+: grown path) : Tailed grown flushed file := by
  have hSegment := segment_grown h hGrown
  refine ⟨h.behindStart, h.within.trans (hGrown file.path).length_le, hSegment ▸ h.whole, ?_⟩
  rw [given, hSegment]
  exact h.calls

theorem Complete.grow (h : Complete earlier files file) (hTailed : Tailed files flushed file) (hGrown : ∀ path, files path <+: grown path) :
    Complete earlier grown file := by
  rw [Complete, segment_grown hTailed hGrown]
  exact h

theorem Tailed.flush (h : Tailed files false file) : Tailed files true { file with calls := file.calls ++ [.flush] } := by
  refine ⟨h.behindStart, h.within, h.whole, ?_⟩
  have hCalls := h.calls
  rw [if_neg Bool.false_ne_true, List.append_nil] at hCalls
  rw [if_pos rfl]
  exact congrArg (· ++ [ParserCall.flush]) hCalls

theorem tailed_start (path source : String) {offset : Nat} (h : offset ≤ (files path).length) :
    Tailed files false ⟨path, source, offset, offset, []⟩ := by
  have hSegment : segment files ⟨path, source, offset, offset, []⟩ = [] := by
    rw [segment, List.drop_eq_nil_iff, List.length_take]
    exact Nat.min_le_left _ _
  refine ⟨le_rfl, h, hSegment ▸ .inl rfl, ?_⟩
  rw [given, hSegment]
  rfl

theorem Tailed.lines_take (h : Tailed files flushed file) (hAligned : file.Aligned files) :
    lines NEWLINE ((files file.path).take file.offset) =
      lines NEWLINE ((files file.path).take file.start) ++ lines NEWLINE (file.segment files) := by
  have hSplit : (files file.path).take file.offset = (files file.path).take file.start ++ file.segment files := by
    have hStart : ((files file.path).take file.offset).take file.start = (files file.path).take file.start := by
      rw [List.take_take, Nat.min_eq_left h.behindStart]
    rw [segment, ← hStart, List.take_append_drop]
  rw [hSplit, Whole.lines_append hAligned]

theorem drop_take_segment (h : Tailed files flushed file) (m : Nat) :
    ((files file.path).take (file.offset + m)).drop file.start = file.segment files ++ ((files file.path).drop file.offset).take m := by
  have hStart : file.start ≤ ((files file.path).take file.offset).length := by
    rw [List.length_take, Nat.min_eq_left h.within]
    exact h.behindStart
  rw [List.take_add, segment, List.drop_append_of_le_length hStart]

theorem consume_none {bytes : List Nat} (h : NEWLINE ∉ bytes) : consume bytes file = file := by
  unfold consume
  cases hLast : lastIndexOf NEWLINE bytes with
  | none => rfl
  | some place =>
    obtain ⟨hBytes, _⟩ := lastIndexOf_eq_some hLast
    refine absurd ?_ h
    rw [hBytes]
    exact List.mem_append_right _ List.mem_cons_self

theorem consume_cases (h : Tailed files false file) (m : Nat) :
    Tailed files false (consume (((files file.path).drop file.offset).take m) file) ∧
      (consume (((files file.path).drop file.offset).take m) file).path = file.path ∧
      (consume (((files file.path).drop file.offset).take m) file).start = file.start ∧
      lines NEWLINE ((consume (((files file.path).drop file.offset).take m) file).segment files) =
        lines NEWLINE (((files file.path).take (file.offset + m)).drop file.start) := by
  rw [drop_take_segment h]
  cases hLast : lastIndexOf NEWLINE (((files file.path).drop file.offset).take m) with
  | none =>
    have hNot := not_mem_of_lastIndexOf hLast
    rw [consume_none hNot, h.whole.lines_append, lines_of_not_mem hNot, List.append_nil]
    exact ⟨h, rfl, rfl, rfl⟩
  | some place =>
    obtain ⟨hBytes, hRest⟩ := lastIndexOf_eq_some hLast
    generalize hRead : ((files file.path).drop file.offset).take m = bytes at *
    have hPlace : place < bytes.length := by
      have hSum := congrArg List.length hBytes
      rw [List.length_append, List.length_cons, List.length_take, List.length_drop] at hSum
      omega
    have hRoom : bytes.length ≤ (files file.path).length - file.offset := by
      rw [← hRead, List.length_take, List.length_drop]
      exact Nat.min_le_right _ _
    have hShort : bytes.length ≤ m := by
      rw [← hRead]
      exact List.length_take_le _ _
    have hConsume : consume bytes file =
        { file with
          offset := file.offset + place + 1
          calls := file.calls ++
            (((((bytes.take place).splitOn NEWLINE).map Utf8.toString).filter fun line => !isBlank line).map .handleLine) } := by
      unfold consume
      rw [hLast]
      dsimp only
      rw [Utf8.split_toString]
      rfl
    have hSegment : (consume bytes file).segment files = file.segment files ++ (bytes.take place ++ [NEWLINE]) := by
      have hTaken : ((files file.path).drop file.offset).take (place + 1) = bytes.take place ++ [NEWLINE] := by
        have hPrefix : ((files file.path).drop file.offset).take (place + 1) = bytes.take (place + 1) := by
          rw [← hRead, List.take_take, Nat.min_eq_left (by omega)]
        have hLeft : (bytes.take place).length = place := by
          rw [List.length_take, Nat.min_eq_left hPlace.le]
        rw [hPrefix]
        conv_lhs => rw [hBytes, List.take_append, hLeft]
        rw [List.take_of_length_le (by omega), Nat.add_sub_cancel_left]
        rfl
      rw [hConsume, segment]
      dsimp only
      rw [Nat.add_assoc, drop_take_segment h, hTaken]
    have hLines : lines NEWLINE ((consume bytes file).segment files) =
        lines NEWLINE (file.segment files) ++ (bytes.take place).splitOn NEWLINE := by
      rw [hSegment, h.whole.lines_append, lines_append_stop]
    refine ⟨⟨?_, ?_, ?_, ?_⟩, by rw [hConsume], by rw [hConsume], ?_⟩
    · rw [hConsume]
      have := h.behindStart
      dsimp only
      omega
    · rw [hConsume]
      have := h.within
      dsimp only
      omega
    · rw [hSegment, ← List.append_assoc]
      exact .inr ⟨_, rfl⟩
    · have hCalls := h.calls
      rw [if_neg Bool.false_ne_true, List.append_nil] at hCalls ⊢
      rw [given, hLines, List.map_append, List.filter_append, List.map_append, ← given, ← hCalls, hConsume]
    · rw [hLines, h.whole.lines_append]
      conv_rhs => rw [hBytes, lines_append_cons, lines_of_not_mem hRest, List.append_nil]

end TrackedFile

namespace RolloutTail

open TrackedFile

theorem forall_mem_modify {α : Type} {P : α → Prop} {entries : List α} (h : ∀ entry ∈ entries, P entry) {change : α → α}
    (hChange : ∀ entry ∈ entries, P (change entry)) (i : Nat) : ∀ entry ∈ entries.modify i change, P entry := by
  intro entry hEntry
  obtain ⟨j, hAt⟩ := List.mem_iff_getElem?.mp hEntry
  rw [List.getElem?_modify] at hAt
  obtain ⟨other, hOther, hSame⟩ := Option.map_eq_some_iff.mp hAt
  have hMem := List.mem_of_getElem? hOther
  rw [← hSame]
  split
  · exact hChange other hMem
  · exact h other hMem

/-! ## What every step keeps -/

structure Sound (files : String → List Nat) (reader : RolloutReader) : Prop where
  paths : (reader.tracked.map TrackedFile.path).Nodup
  tailed : ∀ file ∈ reader.tracked, Tailed files (decide (reader.phase = .done)) file
  finals : ∀ flight ∈ reader.flight, flight.isFinal = true ↔ reader.phase = .draining
  idle : reader.phase = .done → reader.flight = none

section Steps

variable {files : String → List Nat} {reader : RolloutReader}

theorem Sound.tailedOf (h : Sound files reader) (hPhase : reader.phase ≠ .done) : ∀ file ∈ reader.tracked, Tailed files false file := by
  have hTailed := h.tailed
  rw [decide_eq_false hPhase] at hTailed
  exact hTailed

variable {flight : RolloutFlight}

section

variable (h : Sound files reader)
include h

theorem Sound.phase_ne (hFlight : reader.flight = some flight) : reader.phase ≠ .done := by
  intro hDone
  cases hFlight.symm.trans (h.idle hDone)

theorem Sound.startTracking (hPhase : reader.phase ≠ .done)
    (path source : String) {offset : Nat} (hOffset : offset ≤ (files path).length) :
    Sound files (reader.startTracking path source offset) := by
  refine ⟨?_, ?_, h.finals, h.idle⟩
  · unfold RolloutReader.startTracking
    dsimp only
    split
    · have hSame : (reader.tracked.map fun other => if other.path = path then (⟨path, source, offset, offset, []⟩ : TrackedFile) else other).map
          TrackedFile.path = reader.tracked.map TrackedFile.path := by
        rw [List.map_map]
        refine List.map_congr_left fun other _ => ?_
        dsimp only [comp_apply]
        split
        · rename_i hPath
          exact hPath.symm
        · rfl
      rw [hSame]
      exact h.paths
    · rename_i hNew
      rw [List.map_append, List.map_singleton, ← List.concat_eq_append]
      refine h.paths.concat fun hMem => ?_
      obtain ⟨file, hFile, hPath⟩ := List.mem_map.mp hMem
      exact hNew (List.any_eq_true.mpr ⟨file, hFile, decide_eq_true hPath⟩)
  · change ∀ file ∈ (reader.startTracking path source offset).tracked, Tailed files (decide (reader.phase = .done)) file
    rw [decide_eq_false hPhase]
    unfold RolloutReader.startTracking
    dsimp only
    split
    · intro file hFile
      obtain ⟨other, hOther, rfl⟩ := List.mem_map.mp hFile
      split
      · exact tailed_start path source hOffset
      · exact h.tailedOf hPhase other hOther
    · intro file hFile
      rcases List.mem_append.mp hFile with hOld | hAdded
      · exact h.tailedOf hPhase file hOld
      · obtain rfl := List.mem_singleton.mp hAdded
        exact tailed_start path source hOffset

theorem Sound.discoverOne (hPhase : reader.phase ≠ .done) (rootId : Option String) (path : String) :
    Sound files (discoverOne rootId reader path) ∧ (RolloutReader.discoverOne rootId reader path).phase = reader.phase ∧
      (RolloutReader.discoverOne rootId reader path).flight = reader.flight := by
  unfold RolloutReader.discoverOne
  dsimp only
  split
  · exact ⟨h, rfl, rfl⟩
  · split
    · exact ⟨h, rfl, rfl⟩
    · exact ⟨h.startTracking hPhase path _ (Nat.zero_le _), rfl, rfl⟩

theorem Sound.discover (hPhase : reader.phase ≠ .done) (listing : Option (List String)) (rootId : Option String) :
    Sound files (reader.discover listing rootId) ∧ (reader.discover listing rootId).phase = reader.phase ∧
      (reader.discover listing rootId).flight = reader.flight := by
  unfold RolloutReader.discover
  generalize listing.getD [] = paths
  induction paths generalizing reader with
  | nil => exact ⟨h, rfl, rfl⟩
  | cons path paths ih =>
    obtain ⟨hFirst, hSame, hFlight⟩ := h.discoverOne hPhase rootId path
    obtain ⟨hRest, hSameRest, hFlightRest⟩ := ih hFirst (hSame ▸ hPhase)
    exact ⟨hRest, hSameRest.trans hSame, hFlightRest.trans hFlight⟩

theorem Sound.startDrain (hOpen : reader.phase = .isOpen) : Sound files reader.startDrain := by
  have hNotDone : reader.phase ≠ .done := by
    rw [hOpen]
    decide
  unfold RolloutReader.startDrain
  split
  · exact ⟨h.paths, h.tailed, h.finals, h.idle⟩
  · refine ⟨h.paths, h.tailed, fun flight hFlight => ?_, fun hDone => absurd hDone hNotDone⟩
    obtain rfl := Option.some.inj hFlight
    dsimp only
    rw [hOpen]
    decide

theorem Sound.drainAll (hOpen : reader.phase = .isOpen) : Sound files reader.drainAll := by
  unfold RolloutReader.drainAll
  split
  · exact ⟨h.paths, h.tailed, h.finals, h.idle⟩
  · exact h.startDrain hOpen

theorem Sound.flushAll (hPhase : reader.phase ≠ .done) : Sound files reader.flushAll := by
  refine ⟨?_, ?_, nofun, fun _ => rfl⟩
  · change ((reader.tracked.map fun file => { file with calls := file.calls ++ [.flush] }).map TrackedFile.path).Nodup
    rw [List.map_map]
    exact h.paths
  · intro file hFile
    obtain ⟨before, hBefore, rfl⟩ := List.mem_map.mp hFile
    exact (h.tailedOf hPhase before hBefore).flush

theorem Sound.startFinalDrain (hPhase : reader.phase ≠ .done) : Sound files reader.startFinalDrain := by
  unfold RolloutReader.startFinalDrain
  split
  · exact h.flushAll hPhase
  · refine ⟨h.paths, fun file hFile => h.tailedOf hPhase file hFile, fun flight hFlight => ?_, nofun⟩
    obtain rfl := Option.some.inj hFlight
    exact ⟨fun _ => rfl, fun _ => rfl⟩

theorem Sound.moveTo (hFlight : reader.flight = some flight) (stage : DrainStage) : Sound files (reader.moveTo flight stage) := by
  refine ⟨h.paths, h.tailed, fun moved hMoved => ?_, fun hDone => absurd hDone (h.phase_ne hFlight)⟩
  obtain rfl := Option.some.inj hMoved
  exact h.finals flight hFlight

theorem Sound.advance (hFlight : reader.flight = some flight) : Sound files (reader.advance flight) := by
  have hPhase := h.phase_ne hFlight
  unfold RolloutReader.advance
  split
  · refine ⟨h.paths, h.tailed, fun moved hMoved => ?_, fun hDone => absurd hDone hPhase⟩
    obtain rfl := Option.some.inj hMoved
    exact h.finals flight hFlight
  · split
    · exact h.flushAll hPhase
    · dsimp only
      split
      · rename_i hAgain
        rw [Bool.and_eq_true] at hAgain
        have hOpen : reader.phase = .isOpen := by simpa [isClosed] using hAgain.2
        have hIdle : Sound files { reader with flight := none, drainQueued := false } :=
          ⟨h.paths, h.tailed, nofun, fun hDone => absurd hDone hPhase⟩
        exact hIdle.startDrain hOpen
      · exact ⟨h.paths, h.tailed, nofun, fun hDone => absurd hDone hPhase⟩

end

variable {tail : RolloutTail}

theorem Sound.consumeAt (h : Sound tail.files tail.reader) (hFlight : tail.reader.flight = some flight)
    (len bytesRead : Nat) : Sound tail.files (tail.consumeAt flight len bytesRead) := by
  have hPhase := h.phase_ne hFlight
  refine ⟨?_, ?_, h.finals, h.idle⟩
  · have hSame : (tail.consumeAt flight len bytesRead).tracked.map TrackedFile.path = tail.reader.tracked.map TrackedFile.path := by
      refine List.ext_getElem? fun i => ?_
      rw [List.getElem?_map, List.getElem?_map, RolloutTail.consumeAt, List.getElem?_modify]
      cases hFile : tail.reader.tracked[i]? with
      | none => rfl
      | some file =>
        have hPath := (consume_cases (h.tailedOf hPhase file (List.mem_of_getElem? hFile)) (min bytesRead len)).2.1
        simp only [Option.map_some]
        split
        · exact congrArg some hPath
        · rfl
    rw [hSame]
    exact h.paths
  · change ∀ file ∈ tail.reader.tracked.modify _ _, Tailed tail.files (decide (tail.reader.phase = .done)) file
    rw [decide_eq_false hPhase]
    exact forall_mem_modify (h.tailedOf hPhase) (fun file hFile => (consume_cases (h.tailedOf hPhase file hFile) _).1) _

theorem Sound.resume (h : Sound tail.files tail.reader) (hFlight : tail.reader.flight = some flight)
    (input : RolloutInput) (file : TrackedFile) : Sound tail.files (tail.resume input flight file) := by
  unfold RolloutTail.resume
  split
  · exact h.moveTo hFlight _
  · exact h.advance hFlight
  · dsimp only
    split
    · exact h.moveTo hFlight _
    · exact h.moveTo hFlight _
  · exact h.moveTo hFlight _
  · exact (h.consumeAt hFlight _ _).moveTo (by exact hFlight) _
  · exact h.moveTo hFlight _
  · exact h.advance hFlight
  · exact h

theorem Sound.grow {grown : String → List Nat} (h : Sound files reader) (hGrown : ∀ path, files path <+: grown path) : Sound grown reader :=
  ⟨h.paths, fun file hFile => (h.tailed file hFile).grow hGrown, h.finals, h.idle⟩

theorem prefix_append (files : String → List Nat) (path : String) (bytes : List Nat) (other : String) :
    files other <+: update files path (files path ++ bytes) other := by
  by_cases hSame : other = path
  · subst hSame
    rw [update_self]
    exact List.prefix_append _ _
  · simp [hSame]

def Resumes (tail : RolloutTail) (input : RolloutInput) (after : RolloutTail) : Prop :=
  after = tail ∨ ∃ flight file, tail.reader.flight = some flight ∧ tail.reader.tracked[flight.index]? = some file ∧
    after = { tail with reader := tail.resume input flight file }

theorem resumes_next (tail : RolloutTail) (input : RolloutInput) :
    Resumes tail input
      (match tail.reader.flight with
        | none => (tail, ())
        | some flight =>
          match tail.reader.tracked[flight.index]? with
          | none => (tail, ())
          | some file => ({ tail with reader := RolloutTail.resume input tail flight file }, ())).1 := by
  split
  · exact .inl rfl
  · rename_i flight hFlight
    split
    · exact .inl rfl
    · rename_i file hFile
      exact .inr ⟨flight, file, hFlight, hFile, rfl⟩

theorem isClosed_eq_false {reader : RolloutReader} (h : ¬ reader.isClosed = true) : reader.phase = .isOpen := by
  simpa [isClosed] using h

theorem Sound.next (h : Sound tail.files tail.reader) (input : RolloutInput) :
    Sound (next tail input).1.files (RolloutTail.next tail input).1.reader := by
  have hResumes {after : RolloutTail} (hAfter : Resumes tail input after) : Sound after.files after.reader := by
    obtain rfl | ⟨flight, file, hFlight, _, rfl⟩ := hAfter
    · exact h
    · exact h.resume hFlight input file
  cases input with
  | append path bytes => exact h.grow (prefix_append tail.files path bytes)
  | poll listing rootId =>
    unfold RolloutTail.next
    dsimp only
    split
    · exact h
    · rename_i hOpen
      have hOpen := isClosed_eq_false hOpen
      obtain ⟨hFound, hSame, _⟩ := h.discover (by rw [hOpen]; decide) listing rootId
      exact hFound.drainAll (hSame.trans hOpen)
  | watch =>
    unfold RolloutTail.next
    dsimp only
    split
    · exact h
    · rename_i hOpen
      exact h.drainAll (isClosed_eq_false hOpen)
  | close listing rootId =>
    unfold RolloutTail.next
    dsimp only
    split
    · exact h
    · rename_i hOpen
      have hOpen := isClosed_eq_false hOpen
      have hWaiting : Sound tail.files { tail.reader with phase := .waiting } := by
        refine ⟨h.paths, fun file hFile => h.tailedOf (by rw [hOpen]; decide) file hFile, fun flight hFlight => ?_, nofun⟩
        rw [h.finals flight hFlight, hOpen]
        exact ⟨nofun, nofun⟩
      obtain ⟨hFound, hSame, _⟩ := hWaiting.discover nofun listing rootId
      dsimp only
      unfold RolloutReader.drainAllFinal
      split
      · exact ⟨hFound.paths, fun file hFile => hFound.tailedOf (hSame ▸ nofun) file hFile, fun flight hFlight => by
          rw [hFound.finals flight hFlight, hSame], nofun⟩
      · exact hFound.startFinalDrain (hSame ▸ nofun)
  | tick =>
    unfold RolloutTail.next
    dsimp only
    split
    · rename_i hWaiting
      rw [Bool.and_eq_true, decide_eq_true_eq] at hWaiting
      exact h.startFinalDrain (by rw [hWaiting.1]; decide)
    · exact h
  | opened ok => exact hResumes (resumes_next tail (.opened ok))
  | statted ok => exact hResumes (resumes_next tail (.statted ok))
  | read bytesRead => exact hResumes (resumes_next tail (.read bytesRead))
  | released => exact hResumes (resumes_next tail .released)

end Steps

end RolloutTail

end CommandSuite
