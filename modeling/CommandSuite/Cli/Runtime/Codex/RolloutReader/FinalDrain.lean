import CommandSuite.Cli.Runtime.Codex.RolloutReader.Given

/-! # The final drain of the rollout reader

What was on disk when `close` began is taken by the final drain, if its reads bring all they ask for.
-/

namespace CommandSuite

open Library RolloutReader Transcript

namespace RolloutTail

open TrackedFile

def Succeeds : DrainStage → RolloutInput → Prop
  | .opening, .opened ok => ok = true
  | .stating, .statted ok => ok = true
  | .reading len, .read bytesRead => ∃ n, bytesRead = some n ∧ len ≤ n
  | _, _ => True

def ReadsAll (tail : RolloutTail) (input : RolloutInput) : Prop :=
  ∀ flight ∈ tail.reader.flight, flight.isFinal = true → Succeeds flight.stage input

/-! ## What is complete -/

def StageComplete (earlier files : String → List Nat) (file : TrackedFile) : DrainStage → Prop
  | .reading len => (earlier file.path).length ≤ file.offset + len
  | .closing => Complete earlier files file
  | _ => True

structure Reached (earlier files : String → List Nat) (reader : RolloutReader) (flight : RolloutFlight) : Prop where
  before : ∀ j < flight.index, ∀ file ∈ reader.tracked[j]?, Complete earlier files file
  current : ∀ file ∈ reader.tracked[flight.index]?, StageComplete earlier files file flight.stage

structure Finishing (earlier files : String → List Nat) (reader : RolloutReader) : Prop where
  grown : ∀ path, earlier path <+: files path
  closed : reader.isClosed = true
  underway : ∀ flight ∈ reader.flight, flight.isFinal = true → Reached earlier files reader flight
  done : reader.phase = .done → ∀ file ∈ reader.tracked, Complete earlier files file

section Steps

variable {earlier files : String → List Nat} {reader : RolloutReader} {tail : RolloutTail} {file : TrackedFile}

theorem complete_of_offset (hGrown : ∀ path, earlier path <+: files path)
    (h : (files file.path).length ≤ file.offset) : Complete earlier files file := by
  obtain ⟨more, hMore⟩ := hGrown file.path
  rw [Complete, TrackedFile.segment, List.take_of_length_le h, ← hMore, List.drop_append]
  exact lines_prefix_append NEWLINE _ _

theorem complete_consume (hTailed : Tailed files false file) (hGrown : ∀ path, earlier path <+: files path)
    {len : Nat} (h : (earlier file.path).length ≤ file.offset + len) :
    Complete earlier files (consume (((files file.path).drop file.offset).take len) file) := by
  obtain ⟨_, hPath, hStart, hLines⟩ := consume_cases hTailed len
  have hPrefix : earlier file.path <+: (files file.path).take (file.offset + len) :=
    List.prefix_take_iff.mpr ⟨hGrown file.path, h⟩
  obtain ⟨more, hMore⟩ := hPrefix
  rw [Complete, hLines, hPath, hStart, ← hMore, List.drop_append]
  exact lines_prefix_append NEWLINE _ _

theorem Finishing.flushAll (h : Finishing earlier files reader) (hAll : ∀ file ∈ reader.tracked, Complete earlier files file) :
    Finishing earlier files reader.flushAll := by
  refine ⟨h.grown, rfl, nofun, fun _ file hFile => ?_⟩
  obtain ⟨before, hBefore, rfl⟩ := List.mem_map.mp hFile
  exact hAll before hBefore

theorem Finishing.startFinalDrain (h : Finishing earlier files reader) : Finishing earlier files reader.startFinalDrain := by
  unfold RolloutReader.startFinalDrain
  split
  · rename_i hNone
    refine h.flushAll fun file hFile => ?_
    rw [hNone] at hFile
    cases hFile
  · refine ⟨h.grown, rfl, fun flight hFlight _ => ?_, nofun⟩
    obtain rfl := Option.some.inj hFlight
    exact ⟨fun j hj => absurd hj (Nat.not_lt_zero j), fun _ _ => trivial⟩

variable {flight : RolloutFlight}

theorem Finishing.moveTo (h : Finishing earlier files reader) (hPhase : reader.phase ≠ .done)
    (hFlight : reader.flight = some flight) {stage : DrainStage}
    (hStage : flight.isFinal = true → ∀ file ∈ reader.tracked[flight.index]?, StageComplete earlier files file stage) :
    Finishing earlier files (reader.moveTo flight stage) := by
  refine ⟨h.grown, h.closed, fun moved hMoved hFinal => ?_, fun hDone => absurd hDone hPhase⟩
  obtain rfl := Option.some.inj hMoved
  exact ⟨(h.underway flight hFlight hFinal).before, hStage hFinal⟩

theorem Finishing.advance (h : Finishing earlier files reader) (hPhase : reader.phase ≠ .done)
    (hFlight : reader.flight = some flight)
    (hCurrent : flight.isFinal = true → ∀ file ∈ reader.tracked[flight.index]?, Complete earlier files file) :
    Finishing earlier files (reader.advance flight) := by
  have hBefore (hFinal : flight.isFinal = true) : ∀ j < flight.index + 1, ∀ file ∈ reader.tracked[j]?, Complete earlier files file := by
    intro j hj file hFile
    rcases Nat.lt_succ_iff_lt_or_eq.mp hj with hEarlier | rfl
    · exact (h.underway flight hFlight hFinal).before j hEarlier file hFile
    · exact hCurrent hFinal file hFile
  unfold RolloutReader.advance
  split
  · refine ⟨h.grown, h.closed, fun moved hMoved hFinal => ?_, fun hDone => absurd hDone hPhase⟩
    obtain rfl := Option.some.inj hMoved
    exact ⟨hBefore hFinal, fun _ _ => trivial⟩
  · rename_i hLast
    split
    · rename_i hFinal
      refine h.flushAll fun file hFile => ?_
      obtain ⟨j, hAt⟩ := List.mem_iff_getElem?.mp hFile
      have hj : j < reader.tracked.length := (List.getElem?_eq_some_iff.mp hAt).1
      exact hBefore hFinal j (by omega) file hAt
    · dsimp only
      split
      · rename_i hAgain
        rw [Bool.and_eq_true] at hAgain
        have hClosed := h.closed
        simp [isClosed] at hAgain hClosed
        exact absurd hAgain.2 hClosed
      · exact ⟨h.grown, h.closed, by rintro _ ⟨⟩, fun hDone => absurd hDone hPhase⟩

theorem Finishing.resume (h : Finishing earlier tail.files tail.reader) (hSound : Sound tail.files tail.reader)
    (hFlight : tail.reader.flight = some flight) (hFile : tail.reader.tracked[flight.index]? = some file)
    {input : RolloutInput} (hReads : ReadsAll tail input) : Finishing earlier tail.files (tail.resume input flight file) := by
  have hPhase := hSound.phase_ne hFlight
  have hTailed := hSound.tailedOf hPhase
  replace hReads := hReads flight hFlight
  have hHere {P : TrackedFile → Prop} (hP : P file) : ∀ other ∈ tail.reader.tracked[flight.index]?, P other := by
    intro other hOther
    obtain rfl := Option.some.inj (hFile.symm.trans hOther)
    exact hP
  have hReached (hFinal : flight.isFinal = true) : StageComplete earlier tail.files file flight.stage :=
    (h.underway flight hFlight hFinal).current file hFile
  revert hReads
  unfold RolloutTail.resume
  split <;> intro hReads
  · exact h.moveTo hPhase hFlight fun _ _ _ => trivial
  · rename_i hStage
    refine h.advance hPhase hFlight fun hFinal => ?_
    have hOk := hReads hFinal
    rw [hStage] at hOk
    cases hOk
  · dsimp only
    split
    · rename_i hSize
      exact h.moveTo hPhase hFlight fun _ => hHere (P := Complete earlier tail.files) (complete_of_offset h.grown hSize)
    · rename_i hSize
      refine h.moveTo hPhase hFlight fun _ => hHere ?_
      have hLength := (h.grown file.path).length_le
      change (earlier file.path).length ≤ file.offset + ((tail.files file.path).length - file.offset)
      omega
  · rename_i hStage
    refine h.moveTo hPhase hFlight fun hFinal => ?_
    have hOk := hReads hFinal
    rw [hStage] at hOk
    cases hOk
  · rename_i len bytesRead hStage
    have hModified (j : Nat) : (tail.consumeAt flight len bytesRead).tracked[j]? =
        (tail.reader.tracked[j]?).map fun other => if flight.index = j then consume (tail.chunk other len bytesRead) other else other :=
      List.getElem?_modify ..
    have hBefore : flight.isFinal = true → ∀ j < flight.index, ∀ other ∈ (tail.consumeAt flight len bytesRead).tracked[j]?,
        Complete earlier tail.files other := by
      intro hFinal j hj other hOther
      rw [hModified] at hOther
      obtain ⟨before, hFound, rfl⟩ := Option.map_eq_some_iff.mp hOther
      rw [if_neg (Nat.ne_of_gt hj)]
      exact (h.underway flight hFlight hFinal).before j hj before hFound
    have hCurrent : flight.isFinal = true → ∀ other ∈ (tail.consumeAt flight len bytesRead).tracked[flight.index]?,
        Complete earlier tail.files other := by
      intro hFinal other hOther
      rw [hModified, hFile] at hOther
      obtain rfl := Option.some.inj hOther
      dsimp only
      rw [if_pos rfl]
      have hOk := hReads hFinal
      have hKnown := hReached hFinal
      rw [hStage] at hOk hKnown
      obtain ⟨n, hn, hLen⟩ := hOk
      obtain rfl := Option.some.inj hn
      rw [chunk, Nat.min_eq_right hLen]
      exact complete_consume (hTailed file (List.mem_of_getElem? hFile)) h.grown hKnown
    refine ⟨h.grown, h.closed, fun moved hMoved hFinal => ?_, fun hDone => absurd hDone hPhase⟩
    obtain rfl := Option.some.inj hMoved
    exact ⟨hBefore hFinal, hCurrent hFinal⟩
  · rename_i hStage
    refine h.moveTo hPhase hFlight fun hFinal => ?_
    have hOk := hReads hFinal
    rw [hStage] at hOk
    obtain ⟨n, hn, _⟩ := hOk
    cases hn
  · rename_i hStage
    refine h.advance hPhase hFlight fun hFinal => hHere ?_
    have hKnown := hReached hFinal
    rw [hStage] at hKnown
    exact hKnown
  · exact h

theorem Finishing.next (h : Finishing earlier tail.files tail.reader) (hSound : Sound tail.files tail.reader) {input : RolloutInput}
    (hReads : ReadsAll tail input) : Finishing earlier (next tail input).1.files (RolloutTail.next tail input).1.reader := by
  have hResumes {after : RolloutTail} (hAfter : Resumes tail input after) : Finishing earlier after.files after.reader := by
    obtain rfl | ⟨flight, file, hFlight, hFile, rfl⟩ := hAfter
    · exact h
    · exact h.resume hSound hFlight hFile hReads
  cases input with
  | append path bytes =>
    have hGrown := prefix_append tail.files path bytes
    have hComplete {file : TrackedFile} (hFile : file ∈ tail.reader.tracked) (hDone : Complete earlier tail.files file) :
        Complete earlier (Function.update tail.files path (tail.files path ++ bytes)) file :=
      hDone.grow (hSound.tailed file hFile) hGrown
    refine ⟨fun other => (h.grown other).trans (hGrown other), h.closed, fun flight hFlight hFinal => ?_, fun hDone file hFile =>
      hComplete hFile (h.done hDone file hFile)⟩
    obtain ⟨hBefore, hCurrent⟩ := h.underway flight hFlight hFinal
    refine ⟨fun j hj file hFile => hComplete (List.mem_of_getElem? hFile) (hBefore j hj file hFile), fun file hFile => ?_⟩
    have hStage := hCurrent file hFile
    cases hAt : flight.stage with
    | closing =>
      rw [hAt] at hStage
      exact hComplete (List.mem_of_getElem? hFile) hStage
    | reading len =>
      rw [hAt] at hStage
      exact hStage
    | opening => trivial
    | stating => trivial
  | poll listing rootId =>
    unfold RolloutTail.next
    dsimp only
    rw [if_pos h.closed]
    exact h
  | watch =>
    unfold RolloutTail.next
    dsimp only
    rw [if_pos h.closed]
    exact h
  | close listing rootId =>
    unfold RolloutTail.next
    dsimp only
    rw [if_pos h.closed]
    exact h
  | tick =>
    unfold RolloutTail.next
    dsimp only
    split
    · exact h.startFinalDrain
    · exact h
  | opened ok => exact hResumes (resumes_next tail (.opened ok))
  | statted ok => exact hResumes (resumes_next tail (.statted ok))
  | read bytesRead => exact hResumes (resumes_next tail (.read bytesRead))
  | released => exact hResumes (resumes_next tail .released)

theorem finishing_close (hSound : Sound tail.files tail.reader) (hOpen : tail.reader.isClosed = false) (listing : Option (List String))
    (rootId : Option String) : Finishing tail.files (next tail (.close listing rootId)).1.files (next tail (.close listing rootId)).1.reader := by
  have hPhase : tail.reader.phase = .isOpen := isClosed_eq_false (by rw [hOpen]; exact Bool.false_ne_true)
  unfold next
  dsimp only
  rw [if_neg (by rw [hOpen]; exact Bool.false_ne_true)]
  have hWaiting : Sound tail.files { tail.reader with phase := .waiting } := by
    refine ⟨hSound.paths, fun file hFile => hSound.tailedOf (by rw [hPhase]; decide) file hFile, fun flight hFlight => ?_, by rintro ⟨⟩⟩
    rw [hSound.finals flight hFlight, hPhase]
    exact ⟨by rintro ⟨⟩, by rintro ⟨⟩⟩
  obtain ⟨hFound, hSame, hFlights⟩ := hWaiting.discover (by rintro ⟨⟩) listing rootId
  have hBegun : Finishing tail.files tail.files (discover listing rootId { tail.reader with phase := .waiting }) := by
    refine ⟨fun _ => List.prefix_rfl, ?_, fun flight hFlight hFinal => ?_, fun hDone => ?_⟩
    · rw [isClosed, hSame]
      rfl
    · have hDraining := (hFound.finals flight hFlight).mp hFinal
      rw [hSame] at hDraining
      cases hDraining
    · rw [hSame] at hDone
      cases hDone
  dsimp only
  unfold drainAllFinal
  split
  · refine ⟨fun _ => List.prefix_rfl, rfl, fun flight hFlight hFinal => ?_, by rintro ⟨⟩⟩
    obtain ⟨hBefore, hCurrent⟩ := hBegun.underway flight hFlight hFinal
    exact ⟨hBefore, hCurrent⟩
  · exact hBegun.startFinalDrain

end Steps

/-! ## Runs -/

section Runs

theorem sound_attach (files : String → List Nat) (vanished : String → Bool) (preexisting : Preexisting)
    (present listing : Option (List String)) (rootId : Option String) :
    Sound (attach files vanished preexisting present listing rootId).files
      (attach files vanished preexisting present listing rootId).reader := by
  have hInitial : Sound files initial := ⟨List.nodup_nil, nofun, nofun, nofun⟩
  have hSizes (path : String) : ((if vanished path then none else some (files path).length : Option Nat).getD 0) ≤ (files path).length := by
    split
    · exact Nat.zero_le _
    · exact le_rfl
  have hSnapshot (resumeThreadId : Option String) (paths : List String) {reader : RolloutReader} (h : Sound files reader)
      (hOpen : reader.phase = .isOpen) :
      let after := paths.foldl (snapshotOne (fun path => if vanished path then none else some (files path).length) resumeThreadId) reader
      Sound files after ∧ after.phase = .isOpen := by
    induction paths generalizing reader with
    | nil => exact ⟨h, hOpen⟩
    | cons path paths ih =>
      refine ih ?_ ?_
      · unfold snapshotOne
        dsimp only
        split
        · exact h
        · split
          · exact h.startTracking (by rw [hOpen]; decide) path _ (hSizes path)
          · exact ⟨h.paths, h.tailed, h.finals, h.idle⟩
      · unfold snapshotOne
        dsimp only
        split
        · exact hOpen
        · split
          · exact hOpen
          · exact hOpen
  have hFound : Sound files (snapshot (fun path => if vanished path then none else some (files path).length) present preexisting) ∧
      (snapshot (fun path => if vanished path then none else some (files path).length) present preexisting).phase = .isOpen := by
    cases preexisting with
    | track => exact ⟨hInitial, rfl⟩
    | ignore resumeThreadId => exact hSnapshot resumeThreadId (present.getD []) hInitial rfl
  obtain ⟨hDiscovered, hSame, _⟩ := hFound.1.discover (by rw [hFound.2]; decide) listing rootId
  exact hDiscovered.drainAll (hSame.trans hFound.2)

/-- What the parsers have been given behind a run. Of a file that is tracked from within a line nothing is said. -/
structure GivenOnce (start : RolloutTail) (inputs : List RolloutInput) : Prop where
  paths : ((final next start inputs).reader.tracked.map TrackedFile.path).Nodup
  given : ∀ file ∈ (final next start inputs).reader.tracked, Aligned (final next start inputs).files file →
    Tailed (final next start inputs).files (decide ((final next start inputs).reader.phase = .done)) file ∧
      lines NEWLINE (((final next start inputs).files file.path).take file.offset) =
        lines NEWLINE (((final next start inputs).files file.path).take file.start) ++
          lines NEWLINE (file.segment (final next start inputs).files)
  taken : ∀ before listing rootId rest, inputs = before ++ .close listing rootId :: rest →
    (final next start before).reader.isClosed = false →
    (∀ step ∈ run next (next (final next start before) (.close listing rootId)).1 rest, ReadsAll step.before step.input) →
    (final next start inputs).reader.phase = .done →
    ∀ file ∈ (final next start inputs).reader.tracked,
      Complete (final next start before).files (final next start inputs).files file

theorem lines_given_once (files : String → List Nat) (vanished : String → Bool) (preexisting : Preexisting)
    (present listing : Option (List String)) (rootId : Option String) (inputs : List RolloutInput) :
    GivenOnce (attach files vanished preexisting present listing rootId) inputs := by
  have hStart := sound_attach files vanished preexisting present listing rootId
  generalize attach files vanished preexisting present listing rootId = start at *
  have hSound (inputs : List RolloutInput) :=
    final_invariant (P := fun tail : RolloutTail => Sound tail.files tail.reader) (fun tail input h => h.next input) hStart inputs
  refine ⟨(hSound inputs).paths, fun file hFile hAligned => ?_, ?_⟩
  · have hTailed := (hSound inputs).tailed file hFile
    exact ⟨hTailed, hTailed.lines_take hAligned⟩
  · rintro before listing rootId rest rfl hOpen hReads hDone
    rw [final_append, final_cons] at hDone ⊢
    have hBefore := hSound before
    have hClosed := finishing_close hBefore hOpen listing rootId
    have hEnd := final_invariant_of
      (P := fun tail : RolloutTail => Sound tail.files tail.reader ∧
        Finishing (final next start before).files tail.files tail.reader)
      (fun tail input h hReads => ⟨h.1.next input, h.2.next h.1 hReads⟩) ⟨hBefore.next _, hClosed⟩ hReads
    exact hEnd.2.done hDone

/-- Every line of a file that is tracked from its beginning has been given. -/
def AllGiven (tail : RolloutTail) : Prop := tail.reader.phase = .done → ∀ file ∈ tail.reader.tracked, file.start = 0 →
  file.calls = (lines NEWLINE (tail.files file.path)).map (fun bytes => .handleLine (Utf8.toString bytes)) ++ [.flush]

def OnlyLines (tail : RolloutTail) : Prop := ∀ file ∈ tail.reader.tracked, ∀ call ∈ file.calls,
  call = .flush ∨ ∃ bytes ∈ lines NEWLINE (tail.files file.path), call = .handleLine (Utf8.toString bytes)

/-- The reader is closed at once, and its final drain reads `bytesRead`. -/
def closedAtOnce (bytesRead : Option Nat) : List RolloutInput :=
  [.close none none, .opened true, .statted true, .read bytesRead, .released]

def rolloutFile : String := "rollout-1.jsonl"

def content (bytes : List Nat) (path : String) : List Nat := if path = rolloutFile then bytes else []

/-- A blank line is passed over, a final read that fails leaves its line, and a resumed file may have been left within a line. -/
theorem lines_not_all_given :
    ¬ AllGiven (final next (attach (content [NEWLINE]) (fun _ => false) .track none none none)
      ([.poll (some [rolloutFile]) none, .opened true, .statted true, .read (some 1), .released] ++ closedAtOnce none)) ∧
    ¬ AllGiven (final next (attach (content [0x78, NEWLINE]) (fun _ => false) .track none (some [rolloutFile]) none)
      ([.opened false] ++ closedAtOnce none)) ∧
    ¬ OnlyLines (final next
      (attach (content [0x78]) (fun _ => false) (.ignore (some "1")) (some [rolloutFile]) none none)
      [.append rolloutFile [0x79, NEWLINE], .opened true, .statted true, .read (some 2)]) := by
  refine ⟨?_, ?_, ?_⟩
  · unfold AllGiven
    decide +kernel
  · unfold AllGiven
    decide +kernel
  · unfold OnlyLines
    decide +kernel

end Runs

end RolloutTail

end CommandSuite
