import CommandSuite.Core.SessionTotp

/-! # Guessing is bounded

From the first failure of a bucket until its window has elapsed, no more failures are counted for its key than the key
is allowed, for as long as there is room for the bucket to stay in the map.
-/

namespace CommandSuite.SessionTotp

open Library TeamStore Transcript Table SessionTotp Text

/-- The failures of a key within the window that began at `start`, before a login clears its bucket. -/
def tally (key : String) (start : Int) : List Note → Nat
  | [] => 0
  | .cleared other :: rest => if other = key then 0 else tally key start rest
  | .failure other t _ :: rest => (if other = key ∧ t < start + TOTP_LOCKOUT_WINDOW_MS then 1 else 0) + tally key start rest
  | .accepted .. :: rest | .replied _ :: rest => tally key start rest

/-- The first failure of a bucket and those that follow it in its window are no more than the limit. -/
def AtMost (limit : Nat) (key : String) (notes : List Note) : Prop :=
  ∀ before start after, notes = before ++ .failure key start true :: after → tally key start after + 1 ≤ limit

structure GuessingBounded (notes : List Note) : Prop where
  targeted : ∀ name : Name, name.text ≠ CODELESS_LOCKOUT_KEY → AtMost TOTP_MAX_FAILURES name.text notes
  perSource : ∀ source, AtMost TOTP_CODELESS_PER_SOURCE_MAX_FAILURES (CODELESS_SOURCE_LOCKOUT_PREFIX ++ source) notes
  codeless : AtMost TOTP_CODELESS_MAX_FAILURES CODELESS_LOCKOUT_KEY notes

def Input.readings : Input → List Int
  | .login (some request) _ readings =>
    if request.member.isNone then [readings.checkSource, readings.check, readings.record, readings.recordSource]
    else [readings.check, readings.record]
  | .login none _ _ | .store _ => []

def Chronological (inputs : List Input) : Prop := (inputs.flatMap Input.readings).Pairwise (· ≤ ·)

/-! ## The condition -/

def fits (lockouts : Lockouts) (keys : List String) (t : Int) : Bool :=
  (lockouts.select fun bucket => bucket.live t && bucket.key ∉ keys).length + keys.length ≤ TOTP_LOCKOUT_MAX_BUCKETS

section Condition

variable (otpauth : Otpauth) (cipher : Option FieldCipher)

def guesses (server : Server) (request : TotpLoginRequest) (clientSourceKey : String) (readings : Readings) : Bool :=
  let source := checkSource server.lockouts (request.sourceKey clientSourceKey) readings.checkSource
  source.2.isNone && (checkTotpLockout source.1 request.lockoutKey readings.check).2.isNone &&
    match candidates cipher server.stores request.member with
    | .ok members => (firstVerified otpauth request.code readings.verify members 0).isNone
    | .error _ => false

def careful (server : Server) : Input → Bool
  | .login (some request) clientSourceKey readings =>
    !guesses otpauth cipher server request clientSourceKey readings ||
      (request.member.map Name.text ≠ some CODELESS_LOCKOUT_KEY &&
        fits server.lockouts ((failures request clientSourceKey readings).map Prod.fst) readings.record)
  | .login none _ _ | .store _ => true

end Condition

/-! ## The map -/

section Map

variable {lockouts : Lockouts} {key other : String} {bucket : Bucket} {t : Int}

theorem live_iff : bucket.live t = true ↔ t < bucket.firstFailureAt + TOTP_LOCKOUT_WINDOW_MS := by
  unfold Bucket.live
  rw [decide_eq_true_eq]
  omega

theorem live_mono {later : Int} (hLater : t ≤ later) (h : bucket.live later = true) : bucket.live t = true := by
  rw [live_iff] at *
  omega

theorem counting_iff : counting lockouts key t = true ↔ ∃ bucket, lockouts.find key = some bucket ∧ bucket.live t = true := by
  unfold counting
  cases lockouts.find key <;> simp

theorem find_clearTotpLockout : (clearTotpLockout lockouts key).find other = if other = key then none else lockouts.find other := by
  unfold clearTotpLockout
  rw [find_delete]
  cases hFind : lockouts.find other with
  | none => simp
  | some found =>
    have hKey : found.key = other := key_of_find hFind
    by_cases hOther : other = key <;> simp [hKey, hOther]

theorem find_setBucket : (setBucket lockouts key t).find other = if other = key then some ⟨key, 1, t⟩ else lockouts.find other := by
  unfold setBucket
  rw [find_update, find_insertOrIgnore]
  by_cases hOther : other = key
  · subst hOther
    cases hFind : lockouts.find other with
    | none => simp
    | some found =>
      have hKey : found.key = other := key_of_find hFind
      simp [hKey]
  · have hNe : ¬ key = other := fun hSame => hOther hSame.symm
    cases hFind : lockouts.find other with
    | none => simp [hOther, hNe]
    | some found =>
      have hKey : found.key = other := key_of_find hFind
      simp [hOther, hKey]

theorem length_setBucket : (setBucket lockouts key t).rows.length ≤ lockouts.rows.length + 1 := by
  unfold setBucket update
  rw [List.length_map, rows_insertOrIgnore]
  split <;> simp

theorem mem_of_mem_dropOldest {excess : Nat} (h : bucket ∈ (dropOldest lockouts excess).rows) : bucket ∈ lockouts.rows :=
  List.mem_of_mem_drop h

theorem find_of_find_prune (h : (pruneTotpLockouts lockouts t).find other = some bucket) : lockouts.find other = some bucket := by
  rw [find_eq_some_iff] at h ⊢
  refine ⟨?_, h.2⟩
  unfold pruneTotpLockouts at h
  dsimp only at h
  split at h
  · exact (List.mem_filter.mp h.1).1
  · exact (List.mem_filter.mp (mem_of_mem_dropOldest h.1)).1

theorem pruneTotpLockouts_eq (h : (lockouts.select (Bucket.live t)).length ≤ TOTP_LOCKOUT_MAX_BUCKETS) :
    pruneTotpLockouts lockouts t = lockouts.delete fun bucket => !bucket.live t := by
  have hRows : (lockouts.delete fun bucket => !bucket.live t).rows = lockouts.select (Bucket.live t) := by
    simp [delete, select]
  rw [← hRows] at h
  unfold pruneTotpLockouts
  dsimp only
  rw [if_pos h]

theorem find_recordTotpFailure_of_ne (hOther : other ≠ key) (h : (recordTotpFailure lockouts key t).find other = some bucket) :
    lockouts.find other = some bucket := by
  unfold recordTotpFailure at h
  split at h
  · rw [find_update] at h
    obtain ⟨found, hFind, hFound⟩ := Option.map_eq_some_iff.mp h
    have hKey : found.key = other := key_of_find hFind
    rw [if_neg (by simpa [hKey] using hOther)] at hFound
    rw [hFind, hFound]
  · split at h
    · rw [find_setBucket, if_neg hOther] at h
      exact find_of_find_prune h
    · rwa [find_setBucket, if_neg hOther] at h

theorem find_recordTotpFailure_of_live (hOther : other ≠ key) (hFind : lockouts.find other = some bucket) (hLive : bucket.live t = true)
    (hRoom : counting lockouts key t = true ∨ (lockouts.select (Bucket.live t)).length < TOTP_LOCKOUT_MAX_BUCKETS) :
    (recordTotpFailure lockouts key t).find other = some bucket := by
  have hKey : bucket.key = other := key_of_find hFind
  unfold recordTotpFailure
  split
  · rw [find_update, hFind, Option.map_some, if_neg (by simpa [hKey] using hOther)]
  · rename_i hNot
    split
    · rw [find_setBucket, if_neg hOther, pruneTotpLockouts_eq (hRoom.resolve_left hNot).le, find_delete, hFind]
      simp [hLive]
    · rw [find_setBucket, if_neg hOther, hFind]

theorem find_recordTotpFailure : (recordTotpFailure lockouts key t).find key =
    if counting lockouts key t then (lockouts.find key).map fun bucket => { bucket with failures := bucket.failures + 1 }
    else some ⟨key, 1, t⟩ := by
  unfold recordTotpFailure
  split
  · rw [find_update]
    refine Option.map_congr fun found hFound => ?_
    have hKey : found.key = key := key_of_find hFound
    rw [if_pos (decide_eq_true hKey)]
  · split <;> rw [find_setBucket, if_pos rfl]

theorem length_recordTotpFailure (h : lockouts.rows.length ≤ TOTP_LOCKOUT_MAX_BUCKETS)
    (hRoom : counting lockouts key t = true ∨ (lockouts.select (Bucket.live t)).length < TOTP_LOCKOUT_MAX_BUCKETS) :
    (recordTotpFailure lockouts key t).rows.length ≤ TOTP_LOCKOUT_MAX_BUCKETS := by
  unfold recordTotpFailure
  split
  · unfold update
    rwa [List.length_map]
  · rename_i hNot
    have hLive := hRoom.resolve_left hNot
    split
    · refine length_setBucket.trans ?_
      rw [pruneTotpLockouts_eq hLive.le]
      have hRows : (lockouts.delete fun bucket => !bucket.live t).rows = lockouts.select (Bucket.live t) := by
        simp [delete, select]
      rw [hRows]
      exact hLive
    · rename_i hFew
      exact length_setBucket.trans (not_le.mp hFew)

end Map

/-! ## Room -/

section Room

variable {lockouts : Lockouts} {key : String} {keys : List String} {t : Int} {lockouts' : Lockouts}

theorem length_le_of_subset {p q : Bucket → Bool} (h : ∀ bucket ∈ lockouts'.select p, bucket ∈ lockouts.select q) :
    (lockouts'.select p).length ≤ (lockouts.select q).length :=
  (List.subperm_of_subset ((List.Nodup.of_map Bucket.key lockouts'.nodup).filter p) h).length_le

theorem fits_mono {later : Int} (hLater : t ≤ later)
    (hMem : ∀ bucket ∈ lockouts'.rows, bucket.key ∉ keys → bucket ∈ lockouts.rows) (h : fits lockouts keys t = true) :
    fits lockouts' keys later = true := by
  unfold fits at h ⊢
  rw [decide_eq_true_eq] at h ⊢
  refine (Nat.add_le_add_right (length_le_of_subset fun bucket hBucket => ?_) _).trans h
  rw [mem_select, Bool.and_eq_true, decide_eq_true_eq] at hBucket ⊢
  obtain ⟨hRow, hLive, hOther⟩ := hBucket
  exact ⟨hMem bucket hRow hOther, live_mono hLater hLive, hOther⟩

theorem room_of_fits (h : fits lockouts keys t = true) (hKey : key ∈ keys) :
    counting lockouts key t = true ∨ (lockouts.select (Bucket.live t)).length < TOTP_LOCKOUT_MAX_BUCKETS := by
  refine or_iff_not_imp_left.mpr fun hNot => ?_
  unfold fits at h
  rw [decide_eq_true_eq] at h
  have hSplit := List.filter_append_perm (fun bucket : Bucket => decide (bucket.key ∈ keys)) (lockouts.select (Bucket.live t))
  have hOthers : (lockouts.select (Bucket.live t)).filter (fun bucket => !decide (bucket.key ∈ keys)) =
      lockouts.select fun bucket => bucket.live t && bucket.key ∉ keys := by
    unfold select
    rw [List.filter_filter]
    refine List.filter_congr fun bucket _ => ?_
    rw [Bool.and_comm, decide_not]
  have hOwn : ((lockouts.select (Bucket.live t)).filter fun bucket : Bucket => decide (bucket.key ∈ keys)).length ≤
      (keys.erase key).length := by
    rw [← List.length_map Bucket.key]
    have hNodup : (((lockouts.select (Bucket.live t)).filter fun bucket : Bucket => decide (bucket.key ∈ keys)).map Bucket.key).Nodup :=
      lockouts.nodup.sublist ((List.filter_sublist.trans List.filter_sublist).map Bucket.key)
    refine (List.subperm_of_subset hNodup fun other hOther => ?_).length_le
    obtain ⟨bucket, hBucket, rfl⟩ := List.mem_map.mp hOther
    obtain ⟨hLive, hMem⟩ := List.mem_filter.mp hBucket
    obtain ⟨hRow, hLive⟩ := (mem_select _ _ _).mp hLive
    refine (List.mem_erase_of_ne fun hSame => hNot ?_).mpr (of_decide_eq_true hMem)
    exact counting_iff.mpr ⟨bucket, hSame ▸ find_key hRow, hLive⟩
  have hLength := hSplit.length_eq
  rw [List.length_append, hOthers] at hLength
  have hErase := List.length_erase_of_mem hKey
  have hPos := List.length_pos_of_mem hKey
  omega

end Room

/-! ## Counting -/

section Tally

variable {key other : String} {start t : Int} {note : Note} {notes : List Note}

def Note.clears (key : String) : Note → Bool
  | .cleared other => other = key
  | .failure .. | .accepted .. | .replied _ => false

def Note.counts (key : String) (start : Int) : Note → Nat
  | .failure other t _ => if other = key ∧ t < start + TOTP_LOCKOUT_WINDOW_MS then 1 else 0
  | .cleared _ | .accepted .. | .replied _ => 0

theorem tally_concat (notes : List Note) (note : Note) : tally key start (notes ++ [note]) =
    tally key start notes + if notes.any (Note.clears key) then 0 else note.counts key start := by
  induction notes with
  | nil =>
    cases note with
    | cleared other => simp [tally, Note.counts]
    | failure other t first => simp [tally, Note.counts]
    | accepted name counter => simp [tally, Note.counts]
    | replied reply => simp [tally, Note.counts]
  | cons head rest ih =>
    cases head with
    | cleared other =>
      by_cases hOther : other = key
      · simp [tally, Note.clears, hOther]
      · simpa [tally, Note.clears, hOther] using ih
    | failure other t first => simpa [tally, Note.clears, Nat.add_assoc] using ih
    | accepted name counter => simpa [tally, Note.clears] using ih
    | replied reply => simpa [tally, Note.clears] using ih

end Tally

/-- What the map holds after the notes so far, when the clock stands at `clock`. -/
structure Counted (clock : Int) (lockouts : Lockouts) (past : List Note) : Prop where
  small : lockouts.rows.length ≤ TOTP_LOCKOUT_MAX_BUCKETS
  window : ∀ key before start after, past = before ++ .failure key start true :: after → after.any (Note.clears key) = false →
    clock < start + TOTP_LOCKOUT_WINDOW_MS → lockouts.find key = some ⟨key, tally key start after + 1, start⟩
  bounded : ∀ key, AtMost (maxFailuresFor key) key past

def Unlocked (lockouts : Lockouts) (key : String) : Prop := ∀ bucket, lockouts.find key = some bucket → bucket.failures < maxFailuresFor key

section Counted

variable {clock t : Int} {lockouts : Lockouts} {past : List Note} {key : String}

theorem Counted.later (h : Counted clock lockouts past) (hLater : clock ≤ t) : Counted t lockouts past :=
  ⟨h.small, fun key before start after hSplit hKept hWindow => h.window key before start after hSplit hKept (by omega), h.bounded⟩

theorem split_concat {before after : List Note} {start : Int} {note : Note}
    (h : past ++ [note] = before ++ .failure key start true :: after) :
    (∃ rest, after = rest ++ [note] ∧ past = before ++ .failure key start true :: rest) ∨
      (after = [] ∧ note = .failure key start true ∧ past = before) := by
  obtain rfl | ⟨rest, last, rfl⟩ := List.eq_nil_or_concat' after
  · obtain ⟨hPast, hNote⟩ := List.append_inj' h rfl
    exact .inr ⟨rfl, (List.cons.inj hNote).1, hPast⟩
  · rw [← List.cons_append, ← List.append_assoc] at h
    obtain ⟨hPast, hNote⟩ := List.append_inj' h rfl
    obtain rfl := (List.cons.inj hNote).1
    exact .inl ⟨rest, rfl, hPast⟩

theorem Counted.other {note : Note} (h : Counted clock lockouts past) (hNote : ∀ key start, note.counts key start = 0)
    (hClears : ∀ key, note.clears key = false) (hFirst : ∀ key start, note ≠ .failure key start true) :
    Counted clock lockouts (past ++ [note]) := by
  refine ⟨h.small, fun key before start after hSplit hKept hWindow => ?_, fun key before start after hSplit => ?_⟩
  · obtain ⟨rest, rfl, hPast⟩ | ⟨-, rfl, -⟩ := split_concat hSplit
    · rw [tally_concat, hNote, ite_self, Nat.add_zero]
      rw [List.any_append, Bool.or_eq_false_iff] at hKept
      exact h.window key before start rest hPast hKept.1 hWindow
    · exact absurd rfl (hFirst key start)
  · obtain ⟨rest, rfl, hPast⟩ | ⟨-, rfl, -⟩ := split_concat hSplit
    · rw [tally_concat, hNote, ite_self, Nat.add_zero]
      exact h.bounded key before start rest hPast
    · exact absurd rfl (hFirst key start)

theorem Counted.clear (h : Counted clock lockouts past) (key : String) :
    Counted clock (clearTotpLockout lockouts key) (past ++ [.cleared key]) := by
  refine ⟨(List.length_filter_le _ _).trans h.small, fun other before start after hSplit hKept hWindow => ?_,
    fun other before start after hSplit => ?_⟩
  · obtain ⟨rest, rfl, hPast⟩ | ⟨-, hNote, -⟩ := split_concat hSplit
    · rw [List.any_append, Bool.or_eq_false_iff] at hKept
      have hOther : other ≠ key := by
        rintro rfl
        simp [Note.clears] at hKept
      rw [find_clearTotpLockout, if_neg hOther, tally_concat]
      simpa [Note.counts] using h.window other before start rest hPast hKept.1 hWindow
    · cases hNote
  · obtain ⟨rest, rfl, hPast⟩ | ⟨-, hNote, -⟩ := split_concat hSplit
    · rw [tally_concat]
      simpa [Note.counts] using h.bounded other before start rest hPast
    · cases hNote

theorem Counted.check (h : Counted clock lockouts past) (hLater : clock ≤ t) (key : String) :
    Counted t (checkTotpLockout lockouts key t).1 past := by
  unfold checkTotpLockout
  split
  · exact h.later hLater
  · rename_i entry hEntry
    split
    · rename_i hDead
      refine ⟨(List.length_filter_le _ _).trans h.small, fun other before start after hSplit hKept hWindow => ?_, h.bounded⟩
      have hFind := h.window other before start after hSplit hKept (by omega)
      dsimp only
      rw [find_clearTotpLockout, if_neg, hFind]
      rintro rfl
      obtain rfl := Option.some.inj (hFind.symm.trans hEntry)
      rw [Bool.not_eq_true', ← Bool.not_eq_true, live_iff] at hDead
      exact hDead hWindow
    · split <;> exact h.later hLater

theorem unlocked_of_check (lockouts : Lockouts) (key : String) (t : Int) (h : (checkTotpLockout lockouts key t).2 = none) : Unlocked (checkTotpLockout lockouts key t).1 key := by
  unfold checkTotpLockout at h ⊢
  split
  · rename_i hNone
    rintro bucket hBucket
    rw [hNone] at hBucket
    cases hBucket
  · rename_i entry hEntry
    rw [hEntry] at h
    dsimp only at h
    split
    · rintro bucket hBucket
      dsimp only at hBucket
      rw [find_clearTotpLockout, if_pos rfl] at hBucket
      cases hBucket
    · rename_i hLive
      rw [if_neg hLive] at h
      split
      · rename_i hLocked
        rw [if_pos hLocked] at h
        cases h
      · rename_i hOpen
        rintro bucket hBucket
        obtain rfl := Option.some.inj (hEntry.symm.trans hBucket)
        exact not_le.mp hOpen

theorem Counted.record (h : Counted clock lockouts past) (hLater : clock ≤ t) (hUnlocked : Unlocked lockouts key)
    (hRoom : counting lockouts key t = true ∨ (lockouts.select (Bucket.live t)).length < TOTP_LOCKOUT_MAX_BUCKETS) :
    Counted t (recordTotpFailure lockouts key t) (past ++ [.failure key t (!counting lockouts key t)]) := by
  have hOwn : ∀ before start rest, past = before ++ .failure key start true :: rest → rest.any (Note.clears key) = false →
      t < start + TOTP_LOCKOUT_WINDOW_MS → lockouts.find key = some ⟨key, tally key start rest + 1, start⟩ ∧ counting lockouts key t = true := by
    intro before start rest hPast hKept hWindow
    have hFind := h.window key before start rest hPast hKept (by omega)
    exact ⟨hFind, counting_iff.mpr ⟨_, hFind, live_iff.mpr hWindow⟩⟩
  refine ⟨length_recordTotpFailure h.small hRoom, fun other before start after hSplit hKept hWindow => ?_,
    fun other before start after hSplit => ?_⟩
  · obtain ⟨rest, rfl, hPast⟩ | ⟨rfl, hNote, -⟩ := split_concat hSplit
    · rw [List.any_append, Bool.or_eq_false_iff] at hKept
      rw [tally_concat, hKept.1]
      by_cases hOther : other = key
      · subst hOther
        obtain ⟨hFind, hCounting⟩ := hOwn before start rest hPast hKept.1 hWindow
        rw [find_recordTotpFailure, if_pos hCounting, hFind]
        simp [Note.counts, hWindow]
      · have hFind := h.window other before start rest hPast hKept.1 (by omega)
        have hNe : ¬ key = other := fun hSame => hOther hSame.symm
        rw [find_recordTotpFailure_of_live hOther hFind (live_iff.mpr hWindow) hRoom]
        simp [Note.counts, hNe]
    · obtain ⟨rfl, rfl, hFirst⟩ := Note.failure.inj hNote
      rw [Bool.not_eq_true'] at hFirst
      rw [find_recordTotpFailure, hFirst]
      rfl
  · obtain ⟨rest, rfl, hPast⟩ | ⟨rfl, hNote, -⟩ := split_concat hSplit
    · have hBefore := h.bounded other before start rest hPast
      rw [tally_concat]
      by_cases hCounts : rest.any (Note.clears other) = false ∧ other = key ∧ t < start + TOTP_LOCKOUT_WINDOW_MS
      · obtain ⟨hKept, rfl, hWindow⟩ := hCounts
        obtain ⟨hFind, -⟩ := hOwn before start rest hPast hKept hWindow
        have hFew : tally other start rest + 1 < maxFailuresFor other := hUnlocked _ hFind
        simp only [hKept, Note.counts, hWindow, and_self, if_true, Bool.false_eq_true, if_false]
        omega
      · have hNone : (if rest.any (Note.clears other) = true then 0 else (Note.failure key t (!counting lockouts key t)).counts other start) = 0 := by
          unfold Note.counts
          split
          · rfl
          · rename_i hKept
            refine if_neg fun hSame => hCounts ⟨by simpa using hKept, hSame.1.symm, hSame.2⟩
        rw [hNone]
        exact hBefore
    · obtain ⟨rfl, rfl, -⟩ := Note.failure.inj hNote
      unfold tally maxFailuresFor
      split
      · decide
      · split <;> decide

end Counted

/-! ## Requests -/

section Requests

variable {clock t : Int} {lockouts : Lockouts} {past : List Note} {key other : String} {bucket : Bucket}

theorem find_of_find_check (h : (checkTotpLockout lockouts key t).1.find other = some bucket) : lockouts.find other = some bucket := by
  unfold checkTotpLockout at h
  split at h
  · exact h
  · split at h
    · dsimp only at h
      rw [find_clearTotpLockout] at h
      split at h
      · cases h
      · exact h
    · split at h <;> exact h

theorem find_of_find_checkSource {sourceKey : Option String} (h : (checkSource lockouts sourceKey t).1.find other = some bucket) :
    lockouts.find other = some bucket := by
  cases sourceKey with
  | none => exact h
  | some key => exact find_of_find_check h

theorem mem_of_find_imp {lockouts' : Lockouts} (h : lockouts'.find bucket.key = some bucket → lockouts.find bucket.key = some bucket)
    (hMem : bucket ∈ lockouts'.rows) : bucket ∈ lockouts.rows :=
  mem_of_find (h (find_key hMem))

section

variable (h : Counted clock lockouts past)
include h

theorem Counted.checkSource {sourceKey : Option String} {now : Int} (hClock : clock ≤ now)
    (hSource : sourceKey.isSome = true → clock ≤ t ∧ t ≤ now) : Counted now (checkSource lockouts sourceKey t).1 past := by
  cases sourceKey with
  | none => exact h.later hClock
  | some key => exact (h.check (hSource rfl).1 key).later (hSource rfl).2

theorem Counted.recordFailures {own : List String} {keys : List (String × Int)} {start : Int}
    (hOrder : (clock :: keys.map Prod.snd).Pairwise (· ≤ ·)) (hNodup : (keys.map Prod.fst).Nodup)
    (hUnlocked : ∀ key ∈ keys.map Prod.fst, key ∈ own ∧ Unlocked lockouts key) (hFits : fits lockouts own start = true)
    (hStart : ∀ t ∈ keys.map Prod.snd, start ≤ t) {last : Int} (hLast : ∀ t ∈ clock :: keys.map Prod.snd, t ≤ last) :
    Counted last (recordFailures lockouts keys).1 (past ++ (recordFailures lockouts keys).2) := by
  induction keys generalizing clock lockouts past with
  | nil =>
    rw [show (recordFailures lockouts []).2 = [] from rfl, List.append_nil]
    exact h.later (hLast clock List.mem_cons_self)
  | cons first rest ih =>
    obtain ⟨key, t⟩ := first
    rw [List.map_cons] at hOrder hNodup hUnlocked hStart hLast
    obtain ⟨hClock, hOrder⟩ := List.pairwise_cons.mp hOrder
    obtain ⟨hFresh, hNodup⟩ := List.nodup_cons.mp hNodup
    obtain ⟨⟨hOwn, hFirst⟩, hRest⟩ := List.forall_mem_cons.mp hUnlocked
    obtain ⟨hStartFirst, hStart⟩ := List.forall_mem_cons.mp hStart
    have hRoom := room_of_fits (fits_mono hStartFirst (fun _ hBucket _ => hBucket) hFits) hOwn
    have hRecorded := h.record (hClock t List.mem_cons_self) hFirst hRoom
    have hTail := ih hRecorded hOrder hNodup (fun other hOther => ?_) (fits_mono (le_refl start) (fun bucket hBucket hNot => ?_) hFits) hStart
      fun t hMem => hLast t (List.mem_cons_of_mem _ hMem)
    · rw [List.append_assoc] at hTail
      exact hTail
    · refine ⟨(hRest other hOther).1, fun bucket hBucket => (hRest other hOther).2 bucket ?_⟩
      refine find_recordTotpFailure_of_ne ?_ hBucket
      rintro rfl
      exact hFresh hOther
    · refine mem_of_find_imp (fun hFind => find_recordTotpFailure_of_ne ?_ hFind) hBucket
      intro hSame
      exact hNot (hSame ▸ hOwn)

theorem Counted.clearAll (keys : List String) :
    Counted clock (keys.foldl clearTotpLockout lockouts) (past ++ keys.map Note.cleared) := by
  induction keys generalizing lockouts past with
  | nil =>
    rw [List.map_nil, List.append_nil]
    exact h
  | cons key rest ih =>
    have hRest := ih (h.clear key)
    rw [List.append_assoc] at hRest
    exact hRest

theorem Counted.replied (reply : Reply) : Counted clock lockouts (past ++ [.replied reply]) :=
  h.other (fun _ _ => rfl) (fun _ => rfl) fun _ _ => nofun

theorem Counted.accepted (name : Name) (counter : Int) :
    Counted clock lockouts (past ++ [.accepted name counter]) :=
  h.other (fun _ _ => rfl) (fun _ => rfl) fun _ _ => nofun

end

theorem sourceKey_ne (source : String) : CODELESS_SOURCE_LOCKOUT_PREFIX ++ source ≠ CODELESS_LOCKOUT_KEY := by
  intro h
  have hStart := startsWith_append CODELESS_SOURCE_LOCKOUT_PREFIX source
  rw [h] at hStart
  revert hStart
  decide

theorem nodup_failures (request : TotpLoginRequest) (clientSourceKey : String) (readings : Readings) :
    ((failures request clientSourceKey readings).map Prod.fst).Nodup := by
  cases hMember : request.member with
  | some name => simp [failures, TotpLoginRequest.sourceKey, hMember]
  | none =>
    have hNe := sourceKey_ne clientSourceKey
    simp [failures, TotpLoginRequest.sourceKey, TotpLoginRequest.lockoutKey, hMember, hNe.symm]

variable {otpauth : Otpauth} {cipher : Option FieldCipher} {server : Server} {clientSourceKey : String} {readings : Readings}
  {request : TotpLoginRequest}

theorem counted_authenticate (h : Counted clock lockouts past) {stores : Stores}
    (hOrder : (clock :: (failures request clientSourceKey readings).map Prod.snd).Pairwise (· ≤ ·))
    (hUnlocked : ∀ key ∈ (failures request clientSourceKey readings).map Prod.fst, Unlocked lockouts key)
    (hFits : ∀ members, candidates cipher stores request.member = .ok members →
      firstVerified otpauth request.code readings.verify members 0 = none →
      fits lockouts ((failures request clientSourceKey readings).map Prod.fst) readings.record = true)
    {last : Int} (hLast : ∀ t ∈ clock :: (failures request clientSourceKey readings).map Prod.snd, t ≤ last) :
    Counted last (authenticate otpauth cipher stores lockouts request clientSourceKey readings).1.lockouts
      (past ++ (authenticate otpauth cipher stores lockouts request clientSourceKey readings).2) := by
  have hLater := h.later (hLast clock List.mem_cons_self)
  unfold authenticate
  split
  · exact hLater.replied _
  · rename_i members hMembers
    split
    · rename_i hNone
      have hStart : ∀ t ∈ (failures request clientSourceKey readings).map Prod.snd, readings.record ≤ t := by
        obtain ⟨-, hRest⟩ := List.pairwise_cons.mp hOrder
        exact List.forall_mem_cons.mpr ⟨le_refl _, (List.pairwise_cons.mp hRest).1⟩
      have hRecorded := h.recordFailures hOrder (nodup_failures request clientSourceKey readings)
        (fun key hKey => ⟨hKey, hUnlocked key hKey⟩) (hFits members hMembers hNone) hStart hLast
      have hReplied := hRecorded.replied .invalidCode
      rw [List.append_assoc] at hReplied
      exact hReplied
    · rename_i matched counter hVerified
      split
      · exact hLater.replied _
      · have hCleared := ((hLater.accepted matched.name counter).clearAll (cleared request clientSourceKey matched.name)).replied (.session matched)
        simpa only [List.append_assoc, List.cons_append, List.nil_append] using hCleared

theorem counted_login (h : Counted clock server.lockouts past) {body : Option TotpLoginRequest}
    (hOrder : (clock :: (Input.login body clientSourceKey readings).readings).Pairwise (· ≤ ·))
    (hCareful : careful otpauth cipher server (.login body clientSourceKey readings) = true) {last : Int}
    (hLast : ∀ t ∈ clock :: (Input.login body clientSourceKey readings).readings, t ≤ last) :
    Counted last (login otpauth cipher server body clientSourceKey readings).1.lockouts
      (past ++ (login otpauth cipher server body clientSourceKey readings).2) := by
  cases body with
  | none => exact (h.later (hLast clock List.mem_cons_self)).replied _
  | some request =>
    -- A request with a name has no source, so its two readings fall away.
    have hTimes : clock ≤ readings.check ∧ readings.check ≤ last ∧
        ((request.sourceKey clientSourceKey).isSome = true → clock ≤ readings.checkSource ∧ readings.checkSource ≤ readings.check) ∧
        (readings.check :: (failures request clientSourceKey readings).map Prod.snd).Pairwise (· ≤ ·) ∧
        ∀ t ∈ readings.check :: (failures request clientSourceKey readings).map Prod.snd, t ≤ last := by
      unfold Input.readings at hOrder hLast
      unfold failures TotpLoginRequest.sourceKey
      cases hMember : request.member with
      | none =>
        simp [hMember] at hOrder hLast
        simp
        omega
      | some name =>
        simp [hMember] at hOrder hLast
        simp
        omega
    obtain ⟨hClock, hCheckLast, hSourceTimes, hRecords, hRecordsLast⟩ := hTimes
    rcases hSource : checkSource server.lockouts (request.sourceKey clientSourceKey) readings.checkSource with ⟨first, locked⟩
    have hFirst : Counted readings.check first past := by
      have hChecked := h.checkSource hClock hSourceTimes
      rwa [hSource] at hChecked
    cases locked with
    | some retryAfter =>
      simp only [login, hSource]
      exact (hFirst.later hCheckLast).replied _
    | none =>
      rcases hCheck : checkTotpLockout first request.lockoutKey readings.check with ⟨second, locked⟩
      have hSecond : Counted readings.check second past := by
        have hChecked := hFirst.check (le_refl readings.check) request.lockoutKey
        rwa [hCheck] at hChecked
      cases locked with
      | some retryAfter =>
        simp only [login, hSource, hCheck]
        exact (hSecond.later hCheckLast).replied _
      | none =>
        simp only [login, hSource, hCheck]
        have hKept : ∀ {key bucket}, second.find key = some bucket → first.find key = some bucket := by
          have hChecked : second = (checkTotpLockout first request.lockoutKey readings.check).1 := by rw [hCheck]
          rw [hChecked]
          exact fun {_ _} hFind => find_of_find_check hFind
        refine counted_authenticate hSecond hRecords (List.forall_mem_cons.mpr ⟨?_, fun key hKey => ?_⟩) (fun members hMembers hNone => ?_) hRecordsLast
        · have hUnlocked := unlocked_of_check first request.lockoutKey readings.check
          rw [hCheck] at hUnlocked
          exact hUnlocked rfl
        · obtain ⟨source, hSome, rfl⟩ : ∃ source, request.sourceKey clientSourceKey = some source ∧ source = key := by
            simpa using hKey
          have hUnlocked := unlocked_of_check server.lockouts source readings.checkSource
          rw [hSome] at hSource
          change checkTotpLockout server.lockouts source readings.checkSource = (first, none) at hSource
          rw [hSource] at hUnlocked
          exact fun bucket hFind => hUnlocked rfl bucket (hKept hFind)
        · have hGuesses : guesses otpauth cipher server request clientSourceKey readings = true := by
            unfold guesses
            simp only [hSource, hCheck, hMembers, hNone]
            rfl
          unfold careful at hCareful
          dsimp only at hCareful
          rw [hGuesses, Bool.not_true, Bool.false_or, Bool.and_eq_true] at hCareful
          refine fits_mono (le_refl _) (fun bucket hBucket _ => ?_) hCareful.2
          have hOld : ∀ {key bucket}, first.find key = some bucket → server.lockouts.find key = some bucket := by
            have hChecked : first = (checkSource server.lockouts (request.sourceKey clientSourceKey) readings.checkSource).1 := by
              rw [hSource]
            rw [hChecked]
            exact fun {_ _} hFind => find_of_find_checkSource hFind
          exact mem_of_find_imp (fun hFind => hOld (hKept hFind)) hBucket

theorem not_codeless_of_targeted (hTargeted : request.member.isSome = true)
    (hCareful : careful otpauth cipher server (.login (some request) clientSourceKey readings) = true) {first : Bool} :
    .failure CODELESS_LOCKOUT_KEY t first ∉ (login otpauth cipher server (some request) clientSourceKey readings).2 := by
  obtain ⟨name, hName⟩ := Option.isSome_iff_exists.mp hTargeted
  have hSource : request.sourceKey clientSourceKey = none := by simp [TotpLoginRequest.sourceKey, hName]
  unfold login
  simp only [hSource, checkSource]
  split
  · simp
  · rename_i lockouts hUnlocked
    unfold authenticate
    split
    · simp
    · rename_i members hMembers
      split
      · rename_i hNone
        have hGuesses : guesses otpauth cipher server request clientSourceKey readings = true := by
          unfold guesses
          simp only [hSource, checkSource, hUnlocked, hMembers, hNone]
          rfl
        unfold careful at hCareful
        dsimp only at hCareful
        rw [hGuesses, Bool.not_true, Bool.false_or, Bool.and_eq_true, decide_eq_true_eq, hName] at hCareful
        have hOther : name.text ≠ CODELESS_LOCKOUT_KEY := fun hSame => hCareful.1 (congrArg some hSame)
        simp [failures, recordFailures, hSource, TotpLoginRequest.lockoutKey, hName, hOther.symm]
      · split <;> simp [cleared]

end Requests

/-! ## Runs -/

section Runs

variable {otpauth : Otpauth} {cipher : Option FieldCipher} {clock : Int}

theorem exists_last {readings rest : List Int} (h : (clock :: (readings ++ rest)).Pairwise (· ≤ ·)) :
    ∃ last, (clock :: readings).Pairwise (· ≤ ·) ∧ (∀ t ∈ clock :: readings, t ≤ last) ∧ (last :: rest).Pairwise (· ≤ ·) := by
  induction readings generalizing clock with
  | nil => exact ⟨clock, List.pairwise_singleton _ _, by simp, h⟩
  | cons t readings ih =>
    obtain ⟨hClock, hRest⟩ := List.pairwise_cons.mp h
    obtain ⟨last, hOrder, hLast, hLater⟩ := ih hRest
    have hFirst : ∀ later ∈ t :: readings, clock ≤ later := fun later hMem => hClock later (List.mem_append_left rest hMem)
    refine ⟨last, List.pairwise_cons.mpr ⟨hFirst, hOrder⟩, List.forall_mem_cons.mpr ⟨?_, hLast⟩, hLater⟩
    exact (hFirst t List.mem_cons_self).trans (hLast t List.mem_cons_self)

theorem counted_run {inputs : List Input} {server : Server} {past : List Note} (h : Counted clock server.lockouts past)
    (hTimes : (clock :: inputs.flatMap Input.readings).Pairwise (· ≤ ·))
    (hCareful : ∀ step ∈ run (serve otpauth cipher) server inputs, careful otpauth cipher step.before step.input = true) :
    ∃ last, Counted last (final (serve otpauth cipher) server inputs).lockouts
      (past ++ (run (serve otpauth cipher) server inputs).flatMap Step.output) := by
  induction inputs generalizing server past clock with
  | nil => exact ⟨clock, (List.append_nil past).symm ▸ h⟩
  | cons input inputs ih =>
    rw [run_cons] at hCareful ⊢
    obtain ⟨hFirst, hRest⟩ := List.forall_mem_cons.mp hCareful
    rw [List.flatMap_cons] at hTimes
    obtain ⟨last, hOrder, hLast, hLater⟩ := exists_last hTimes
    have hServed : Counted last (serve otpauth cipher server input).1.lockouts (past ++ (serve otpauth cipher server input).2) := by
      cases input with
      | login body clientSourceKey readings => exact counted_login h hOrder hFirst hLast
      | store call =>
        rw [show (serve otpauth cipher server (.store call)).2 = [] from rfl, List.append_nil]
        exact h.later (hLast clock List.mem_cons_self)
    obtain ⟨last', hCounted⟩ := ih hServed hLater hRest
    refine ⟨last', ?_⟩
    rw [List.append_assoc] at hCounted
    exact hCounted

theorem counted_start (inputs : List Input) (h : Chronological inputs) :
    ∃ clock, (clock :: inputs.flatMap Input.readings).Pairwise (· ≤ ·) := by
  unfold Chronological at h
  cases hReadings : inputs.flatMap Input.readings with
  | nil => exact ⟨0, List.pairwise_singleton _ _⟩
  | cons t rest =>
    rw [hReadings] at h
    refine ⟨t, List.pairwise_cons.mpr ⟨List.forall_mem_cons.mpr ⟨le_refl t, (List.pairwise_cons.mp h).1⟩, h⟩⟩

theorem Counted.bounds {lockouts : Lockouts} {notes : List Note} (h : Counted clock lockouts notes) : GuessingBounded notes := by
  refine ⟨fun name hName => ?_, fun source => ?_, ?_⟩
  · have hBounded := h.bounded name.text
    have hNotSource : startsWith name.text CODELESS_SOURCE_LOCKOUT_PREFIX = false := by
      rw [← Bool.not_eq_true, startsWith_iff]
      intro hStart
      exact name.not_mem_of_not_nameCharacter (show nameCharacter ':' = false by decide) (hStart.subset (by decide))
    rwa [maxFailuresFor, if_neg hName, if_neg (by simp [hNotSource])] at hBounded
  · have hBounded := h.bounded (CODELESS_SOURCE_LOCKOUT_PREFIX ++ source)
    rwa [maxFailuresFor, if_neg (sourceKey_ne source), if_pos (startsWith_append _ _)] at hBounded
  · have hBounded := h.bounded CODELESS_LOCKOUT_KEY
    rwa [maxFailuresFor, if_pos rfl] at hBounded

/-- Guessing is bounded in every run whose wrong codes find room, and are not for the name of the codeless bucket. -/
theorem guessing_bounded (otpauth : Otpauth) (cipher : Option FieldCipher) (stores : Stores) {inputs : List Input}
    (hTimes : Chronological inputs)
    (hCareful : ∀ step ∈ run (serve otpauth cipher) ⟨stores, .empty⟩ inputs,
      careful otpauth cipher step.before step.input = true) :
    GuessingBounded ((run (serve otpauth cipher) ⟨stores, .empty⟩ inputs).flatMap Step.output) ∧
      ∀ step ∈ run (serve otpauth cipher) ⟨stores, .empty⟩ inputs,
        step.after.lockouts.rows.length ≤ TOTP_LOCKOUT_MAX_BUCKETS ∧
          ∀ request clientSourceKey readings, step.input = .login (some request) clientSourceKey readings →
            request.member.isSome = true → ∀ t first, .failure CODELESS_LOCKOUT_KEY t first ∉ step.output := by
  have hEmpty : ∀ clock, Counted clock (.empty : Lockouts) [] := fun clock => by
    refine ⟨Nat.zero_le _, fun key before start after hSplit => ?_, fun key before start after hSplit => ?_⟩ <;>
      exact absurd hSplit (by simp)
  obtain ⟨clock, hOrder⟩ := counted_start inputs hTimes
  constructor
  · obtain ⟨last, hCounted⟩ := counted_run (hEmpty clock) hOrder hCareful
    exact hCounted.bounds
  · intro step hStep
    obtain ⟨first, second, hRun⟩ := List.append_of_mem hStep
    obtain ⟨js, input, ks, rfl, hFirst, rfl, hSecond⟩ := run_eq_append_cons _ hRun
    constructor
    · have hPrefix : run (serve otpauth cipher) ⟨stores, .empty⟩ (js ++ [input]) =
          first ++ [stepAt (serve otpauth cipher) (final (serve otpauth cipher) ⟨stores, .empty⟩ js) input] := by
        rw [run_append, ← hFirst]
        rfl
      have hBefore : (clock :: (js ++ [input]).flatMap Input.readings).Pairwise (· ≤ ·) := by
        rw [List.append_cons, List.flatMap_append, ← List.cons_append] at hOrder
        exact (List.pairwise_append.mp hOrder).1
      obtain ⟨last, hCounted⟩ := counted_run (hEmpty clock) hBefore fun step hMem => hCareful step <| by
        rw [hPrefix] at hMem
        rw [hRun, List.append_cons]
        exact List.mem_append_left _ hMem
      rw [final_append] at hCounted
      exact hCounted.small
    · intro request clientSourceKey readings hInput hTargeted t first
      have hMeets := hCareful _ hStep
      rw [stepAt_input] at hInput
      rw [stepAt_before, stepAt_input, hInput] at hMeets
      rw [stepAt_output, hInput]
      exact not_codeless_of_targeted hTargeted hMeets

end Runs

/-! Wrong codes for Ada, and one for a member that is called like the codeless bucket. -/

def sixGuesses : List Input := [59000, 59001, 59002, 59003, 59004, 59005].map (attempt (some ada) "000000" (by decide))

theorem bounded_sixGuesses :
    GuessingBounded ((run (serve publishedOtpauth none) ⟨oneEnrolled.stores, .empty⟩ sixGuesses).flatMap Step.output) := by
  have hTimes : Chronological sixGuesses := by
    unfold Chronological
    decide
  refine (guessing_bounded publishedOtpauth none oneEnrolled.stores hTimes ?_).1
  simp only [sixGuesses, List.map_cons, List.map_nil, run_cons, List.forall_mem_cons]
  exact ⟨rfl, rfl, rfl, rfl, rfl, rfl, nofun⟩

def codelessName : Name := ⟨"__codeless__", by decide⟩

theorem targeted_counts_as_codeless : ¬ ∀ (otpauth : Otpauth) (cipher : Option FieldCipher) (stores : Stores) (inputs : List Input),
    Chronological inputs →
      GuessingBounded ((run (serve otpauth cipher) ⟨stores, .empty⟩ inputs).flatMap Step.output) ∧
        ∀ step ∈ run (serve otpauth cipher) ⟨stores, .empty⟩ inputs,
          step.after.lockouts.rows.length ≤ TOTP_LOCKOUT_MAX_BUCKETS ∧
            ∀ request clientSourceKey readings, step.input = .login (some request) clientSourceKey readings →
              request.member.isSome = true → ∀ t first, .failure CODELESS_LOCKOUT_KEY t first ∉ step.output := by
  intro h
  have hTimes : Chronological [attempt (some codelessName) "000000" (by decide) 59000] := by
    unfold Chronological
    decide
  obtain ⟨-, hSteps⟩ := h publishedOtpauth none oneEnrolled.stores _ hTimes
  exact (hSteps _ List.mem_cons_self).2 _ _ _ rfl rfl 59000 true List.mem_cons_self

end CommandSuite.SessionTotp
