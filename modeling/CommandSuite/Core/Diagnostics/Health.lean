import CommandSuite.Core.Diagnostics
import Mathlib.Data.List.Induction
import Mathlib.Data.List.TakeWhile

/-! # Current health

What the emitter's methods record and clear, and what `unresolved` lists of it after any run.
-/

namespace CommandSuite.Diagnostics

open Library Transcript Table Store Diagnostics

/-! ## The emitter -/

/-- The methods of `DiagnosticEmitter` with the members they name. Of a corrupt blob these are the members of its exchanges. -/
inductive Emission where
  | correlatorBodyRefUnreadable (member : String)
  | correlatorBodyLengthMismatch (member : String)
  | correlatorUnlinkAfterCaptureFailed (member : String)
  | correlatorRawCaptureFailed (member : String)
  | correlatorBodyJsonParseFailed (member : String)
  | correlatorInferenceBuildFailed (member : String)
  | correlatorRequestIdAssignFailed (member : String)
  | correlatorMalformedRecordSkipped (member : String)
  | correlatorPendingExchangeDropped (member : String)
  | rawstoreBlobGunzipFailed (membersForHash : List String)
  | rawstoreBlobHashMismatch (membersForHash : List String)
  | genaistoreUnserializableRecordSkipped (member : String)
  | genaistoreMalformedRowSkipped
  | telemetrystoreUnserializableRecordSkipped (member : String)
  | telemetrystoreMalformedRowSkipped
  | otlpLogsStoreFailed (member : String)
  | otlpGenaiIngestFailed (member : String)
  | otlpMetricsStoreFailed (member : String)
  | codexGenaiIngestEntryFailed (member : String)
  | activityAppendFailed (member : String)
  | toolinvokeAuditAppendFailed (member : String)
  | enrollmentSourceLabelTruncated
  | correlatorBodyRefRead (member : String)
  | correlatorRawCaptureSucceeded (member : String)
  | otlpLogsStored (member : String)
  | otlpGenaiIngested (member : String)
  | otlpMetricsStored (member : String)
  | codexGenaiIngestEntrySucceeded (member : String)
  | activityAppended (member : String)
  | toolinvokeAuditAppended (member : String)

def rawEmit : Emission → Call
  | .correlatorBodyRefUnreadable member => .record .correlatorBodyRefUnreadable (some [member])
  | .correlatorBodyLengthMismatch member => .record .correlatorBodyLengthMismatch (some [member])
  | .correlatorUnlinkAfterCaptureFailed member => .record .correlatorUnlinkAfterCaptureFailed (some [member])
  | .correlatorRawCaptureFailed member => .record .correlatorRawCaptureFailed (some [member])
  | .correlatorBodyJsonParseFailed member => .record .correlatorBodyJsonParseFailed (some [member])
  | .correlatorInferenceBuildFailed member => .record .correlatorInferenceBuildFailed (some [member])
  | .correlatorRequestIdAssignFailed member => .record .correlatorRequestIdAssignFailed (some [member])
  | .correlatorMalformedRecordSkipped member => .record .correlatorMalformedRecordSkipped (some [member])
  | .correlatorPendingExchangeDropped member => .record .correlatorPendingExchangeDropped (some [member])
  | .rawstoreBlobGunzipFailed membersForHash => .record .rawstoreBlobGunzipFailed (some membersForHash)
  | .rawstoreBlobHashMismatch membersForHash => .record .rawstoreBlobHashMismatch (some membersForHash)
  | .genaistoreUnserializableRecordSkipped member => .record .genaistoreUnserializableRecordSkipped (some [member])
  | .genaistoreMalformedRowSkipped => .record .genaistoreMalformedRowSkipped none
  | .telemetrystoreUnserializableRecordSkipped member => .record .telemetrystoreUnserializableRecordSkipped (some [member])
  | .telemetrystoreMalformedRowSkipped => .record .telemetrystoreMalformedRowSkipped none
  | .otlpLogsStoreFailed member => .record .otlpLogsStoreFailed (some [member])
  | .otlpGenaiIngestFailed member => .record .otlpGenaiIngestFailed (some [member])
  | .otlpMetricsStoreFailed member => .record .otlpMetricsStoreFailed (some [member])
  | .codexGenaiIngestEntryFailed member => .record .codexGenaiIngestEntryFailed (some [member])
  | .activityAppendFailed member => .record .activityAppendFailed (some [member])
  | .toolinvokeAuditAppendFailed member => .record .toolinvokeAuditAppendFailed (some [member])
  | .enrollmentSourceLabelTruncated => .record .enrollmentSourceLabelTruncated none
  | .correlatorBodyRefRead member => .resolve .correlatorBodyRefUnreadable (some member)
  | .correlatorRawCaptureSucceeded member => .resolve .correlatorRawCaptureFailed (some member)
  | .otlpLogsStored member => .resolve .otlpLogsStoreFailed (some member)
  | .otlpGenaiIngested member => .resolve .otlpGenaiIngestFailed (some member)
  | .otlpMetricsStored member => .resolve .otlpMetricsStoreFailed (some member)
  | .codexGenaiIngestEntrySucceeded member => .resolve .codexGenaiIngestEntryFailed (some member)
  | .activityAppended member => .resolve .activityAppendFailed (some member)
  | .toolinvokeAuditAppended member => .resolve .toolinvokeAuditAppendFailed (some member)

/-- What the store is asked to do. An emission that finds the store in order is `rawEmit`'s. -/
inductive Deed where
  | emit (emission : Emission)
  | sweep
  | enforceCaps

def Deed.call : Deed → Call
  | .emit emission => rawEmit emission
  | .sweep => .sweep
  | .enforceCaps => .enforceCaps

structure Event where
  options : DiagnosticOptions
  clock : Nat → Int
  deed : Deed

def Event.request (event : Event) : Request := ⟨event.options, event.clock, event.deed.call⟩

def observe : Machine Store Event Unit := fun store event => serve store event.request

/-! ## What is read -/

def unresolved (memberName : Option String) (store : Store) : List (DiagnosticCause × Int) :=
  ((store.states.select fun row => row.memberName = memberName.getD UNATTRIBUTED).insertionSort fun left right =>
    left.since ≤ right.since).map fun row => (row.cause, row.since)

inductive RetentionHealth where
  | healthy
  | degraded
  | unknown
  deriving DecidableEq

def health (writeFailed : Bool) (detailMs now : Int) (store : Store) : RetentionHealth :=
  if writeFailed || store.stateEvicted then .unknown
  else
    let last := store.overflowLast.getD 0
    if last = 0 then .healthy else if now - last < detailMs then .degraded else .healthy

/-! ## What has been observed -/

/-- A failure or a recovery that a method of the emitter stands for. -/
structure Observation where
  cause : DiagnosticCause
  members : List String
  failed : Bool

def Emission.observation : Emission → Observation
  | .correlatorBodyRefUnreadable member => ⟨.correlatorBodyRefUnreadable, [member], true⟩
  | .correlatorBodyLengthMismatch member => ⟨.correlatorBodyLengthMismatch, [member], true⟩
  | .correlatorUnlinkAfterCaptureFailed member => ⟨.correlatorUnlinkAfterCaptureFailed, [member], true⟩
  | .correlatorRawCaptureFailed member => ⟨.correlatorRawCaptureFailed, [member], true⟩
  | .correlatorBodyJsonParseFailed member => ⟨.correlatorBodyJsonParseFailed, [member], true⟩
  | .correlatorInferenceBuildFailed member => ⟨.correlatorInferenceBuildFailed, [member], true⟩
  | .correlatorRequestIdAssignFailed member => ⟨.correlatorRequestIdAssignFailed, [member], true⟩
  | .correlatorMalformedRecordSkipped member => ⟨.correlatorMalformedRecordSkipped, [member], true⟩
  | .correlatorPendingExchangeDropped member => ⟨.correlatorPendingExchangeDropped, [member], true⟩
  | .rawstoreBlobGunzipFailed membersForHash => ⟨.rawstoreBlobGunzipFailed, membersForHash, true⟩
  | .rawstoreBlobHashMismatch membersForHash => ⟨.rawstoreBlobHashMismatch, membersForHash, true⟩
  | .genaistoreUnserializableRecordSkipped member => ⟨.genaistoreUnserializableRecordSkipped, [member], true⟩
  | .genaistoreMalformedRowSkipped => ⟨.genaistoreMalformedRowSkipped, [], true⟩
  | .telemetrystoreUnserializableRecordSkipped member => ⟨.telemetrystoreUnserializableRecordSkipped, [member], true⟩
  | .telemetrystoreMalformedRowSkipped => ⟨.telemetrystoreMalformedRowSkipped, [], true⟩
  | .otlpLogsStoreFailed member => ⟨.otlpLogsStoreFailed, [member], true⟩
  | .otlpGenaiIngestFailed member => ⟨.otlpGenaiIngestFailed, [member], true⟩
  | .otlpMetricsStoreFailed member => ⟨.otlpMetricsStoreFailed, [member], true⟩
  | .codexGenaiIngestEntryFailed member => ⟨.codexGenaiIngestEntryFailed, [member], true⟩
  | .activityAppendFailed member => ⟨.activityAppendFailed, [member], true⟩
  | .toolinvokeAuditAppendFailed member => ⟨.toolinvokeAuditAppendFailed, [member], true⟩
  | .enrollmentSourceLabelTruncated => ⟨.enrollmentSourceLabelTruncated, [], true⟩
  | .correlatorBodyRefRead member => ⟨.correlatorBodyRefUnreadable, [member], false⟩
  | .correlatorRawCaptureSucceeded member => ⟨.correlatorRawCaptureFailed, [member], false⟩
  | .otlpLogsStored member => ⟨.otlpLogsStoreFailed, [member], false⟩
  | .otlpGenaiIngested member => ⟨.otlpGenaiIngestFailed, [member], false⟩
  | .otlpMetricsStored member => ⟨.otlpMetricsStoreFailed, [member], false⟩
  | .codexGenaiIngestEntrySucceeded member => ⟨.codexGenaiIngestEntryFailed, [member], false⟩
  | .activityAppended member => ⟨.activityAppendFailed, [member], false⟩
  | .toolinvokeAuditAppended member => ⟨.toolinvokeAuditAppendFailed, [member], false⟩

/-- The time of a failure of the cause for the member, or `none` for a recovery. -/
def Event.observes (cause : DiagnosticCause) (memberName : String) (event : Event) : Option (Option Int) :=
  match event.deed with
  | .emit emission =>
    if emission.observation.cause = cause ∧ memberName ∈ emission.observation.members then
      some (if emission.observation.failed then some (event.clock 0) else none)
    else none
  | .sweep | .enforceCaps => none

def observations (cause : DiagnosticCause) (memberName : String) (events : List Event) : List (Option Int) :=
  events.filterMap (Event.observes cause memberName)

def failingSince (observed : List (Option Int)) : Option Int := (observed.reverse.takeWhile Option.isSome).getLast?.join

theorem failingSince_recovery (observed : List (Option Int)) : failingSince (observed ++ [none]) = none := by
  simp [failingSince]

theorem failingSince_failure (observed : List (Option Int)) (ts : Int) :
    failingSince (observed ++ [some ts]) = some ((failingSince observed).getD ts) := by
  unfold failingSince
  rw [List.reverse_append, List.reverse_singleton, List.singleton_append, List.takeWhile_cons_of_pos rfl, List.getLast?_cons]
  cases hLast : (observed.reverse.takeWhile Option.isSome).getLast? with
  | none => rfl
  | some first =>
    have hFailed := List.mem_takeWhile_imp (List.mem_of_getLast? hLast)
    obtain ⟨since, rfl⟩ := Option.isSome_iff_exists.mp hFailed
    rfl

theorem failingSince_isSome_iff (observed : List (Option Int)) : (failingSince observed).isSome ↔ ∃ ts, observed.getLast? = some (some ts) := by
  induction observed using List.reverseRecOn with
  | nil => simp [failingSince]
  | append_singleton observed last _ =>
    cases last with
    | none => simp [failingSince_recovery]
    | some ts => simp [failingSince_failure]

/-! ## What a stage changes of the states -/

structure KeepsStates (store after : Store) : Prop where
  loses : ∃ gone, after.states = store.states.delete gone
  keeps : after.stateEvicted = false → store.stateEvicted = false ∧ after.states = store.states

namespace KeepsStates

variable {store middle after : Store}

theorem of_eq (hStates : after.states = store.states) (hEvicted : after.stateEvicted = store.stateEvicted) : KeepsStates store after where
  loses := ⟨fun _ => false, hStates.trans (delete_of_none fun _ _ => rfl).symm⟩
  keeps h := ⟨hEvicted ▸ h, hStates⟩

theorem trans (first : KeepsStates store middle) (second : KeepsStates middle after) : KeepsStates store after where
  loses := by
    obtain ⟨gone, hFirst⟩ := first.loses
    obtain ⟨later, hSecond⟩ := second.loses
    refine ⟨fun row => gone row || later row, ?_⟩
    rw [hSecond, hFirst]
    simp [delete, List.filter_filter, Bool.and_comm]
  keeps h := by
    obtain ⟨hMiddle, hSecond⟩ := second.keeps h
    obtain ⟨hStore, hFirst⟩ := first.keeps hMiddle
    exact ⟨hStore, hSecond.trans hFirst⟩

end KeepsStates

variable {store : Store} {after : Store}

theorem KeepsStates.raiseFloor (h : KeepsStates store after) (instant : Int) : KeepsStates store (raiseFloor instant after) := by
  unfold Diagnostics.raiseFloor
  split
  · exact h.trans (.of_eq rfl rfl)
  · exact h

theorem KeepsStates.recordOverflow (h : KeepsStates store after) (ts : Int) : KeepsStates store (recordOverflow ts after) :=
  h.trans (.of_eq rfl rfl)

theorem capDetail_states (maxDetailRows ts : Int) : KeepsStates store (capDetail maxDetailRows ts store) := by
  unfold capDetail
  split
  · refine KeepsStates.recordOverflow ?_ ts
    split
    · refine KeepsStates.raiseFloor ?_ _
      exact .of_eq rfl rfl
    · exact .of_eq rfl rfl
  · exact .of_eq rfl rfl

theorem capBuckets_states (maxBucketRows ts : Int) : KeepsStates store (capBuckets maxBucketRows ts store) := by
  unfold capBuckets
  split
  · refine KeepsStates.recordOverflow ?_ ts
    split
    · refine KeepsStates.raiseFloor ?_ _
      exact .of_eq rfl rfl
    · exact .of_eq rfl rfl
  · exact .of_eq rfl rfl

theorem capStates_states (maxStateRows ts : Int) : KeepsStates store (capStates maxStateRows ts store) := by
  unfold capStates
  split
  · exact ⟨⟨_, rfl⟩, fun h => nomatch h⟩
  · exact .of_eq rfl rfl

theorem dropDays_states (dayCut : Int) : KeepsStates store (dropDays dayCut store) := by
  unfold dropDays
  split
  · exact .of_eq rfl rfl
  · refine KeepsStates.raiseFloor ?_ _
    exact .of_eq rfl rfl

/-- A stage that is neither about a failure nor about a recovery. -/
def Stage.IsUpkeep : Stage → Prop
  | .insert .. | .clearState .. => False
  | _ => True

theorem upkeep_states {stage : Stage} (h : stage.IsUpkeep) : KeepsStates store (stage.perform store) := by
  cases stage with
  | insert cause members ts => cases h
  | clearState cause memberName => cases h
  | fanoutTruncated n ts => exact .of_eq rfl rfl
  | unavailable ts => exact .of_eq rfl rfl
  | capDetail maxDetailRows ts => exact capDetail_states maxDetailRows ts
  | capBuckets maxBucketRows ts => exact capBuckets_states maxBucketRows ts
  | capStates maxStateRows ts => exact capStates_states maxStateRows ts
  | foldDetail detailCut => exact .of_eq rfl rfl
  | foldHours hourCut => exact .of_eq rfl rfl
  | dropDays dayCut => exact dropDays_states dayCut

theorem upkeep_foldl {stages : List Stage} (h : ∀ stage ∈ stages, stage.IsUpkeep) :
    KeepsStates store (stages.foldl (fun store stage => stage.perform store) store) := by
  induction stages generalizing store with
  | nil => exact .of_eq rfl rfl
  | cons stage stages ih =>
    obtain ⟨hFirst, hRest⟩ := List.forall_mem_cons.mp h
    exact (upkeep_states hFirst).trans (ih hRest)

variable {cause : DiagnosticCause}

theorem insertEvents_point (hPoint : healthMode cause = .point) (members : List String) (ts : Int) :
    KeepsStates store (insertEvents cause members ts store) := by
  unfold insertEvents
  induction members generalizing store with
  | nil => exact .of_eq rfl rfl
  | cons memberName members ih =>
    rw [List.foldl_cons]
    refine KeepsStates.trans ?_ ih
    unfold upsertState
    rw [hPoint]
    exact .of_eq rfl rfl

theorem enforceCaps_upkeep (options : DiagnosticOptions) (clock : Nat → Int) : ∀ stage ∈ enforceCaps options clock, stage.IsUpkeep := by
  simp [enforceCaps, Stage.IsUpkeep]

theorem sweep_upkeep (options : DiagnosticOptions) (clock : Nat → Int) : ∀ stage ∈ sweep options clock, stage.IsUpkeep := by
  simp [sweep, enforceCaps, Stage.IsUpkeep]

/-! ## What an event changes of them -/

def nextStates (event : Event) (states : Table StateRow.key) : Table StateRow.key :=
  match event.deed with
  | .sweep | .enforceCaps => states
  | .emit emission =>
    match healthMode emission.observation.cause, emission.observation.members with
    | .incident, [memberName] =>
      if emission.observation.failed then states.insertOrIgnore ⟨emission.observation.cause, memberName, event.clock 0⟩
      else states.delete fun row => row.key = (emission.observation.cause, memberName)
    | _, _ => states

theorem rawEmit_cases (emission : Emission) :
    (emission.observation.failed = true ∧ ∃ members, rawEmit emission = .record emission.observation.cause members ∧
      members.getD [] = emission.observation.members ∧
      (healthMode emission.observation.cause = .incident → ∃ memberName, members = some [memberName])) ∨
    (emission.observation.failed = false ∧ healthMode emission.observation.cause = .incident ∧ ∃ memberName,
      emission.observation.members = [memberName] ∧ rawEmit emission = .resolve emission.observation.cause (some memberName)) := by
  cases emission
  all_goals
    first
      | exact .inl ⟨rfl, _, rfl, rfl, fun _ => ⟨_, rfl⟩⟩
      | exact .inl ⟨rfl, _, rfl, rfl, fun h => nomatch h⟩
      | exact .inr ⟨rfl, rfl, _, rfl, rfl⟩

theorem foldl_record (store : Store) (options : DiagnosticOptions) (clock : Nat → Int) (cause : DiagnosticCause) (members : Option (List String)) :
    ∃ named, (∀ memberName, members = some [memberName] → named = [memberName]) ∧
      KeepsStates (insertEvents cause named (clock 0) store)
        ((record options clock cause members).foldl (fun store stage => stage.perform store) store) := by
  let all := (members.getD []).eraseDups
  let named := if all.length > MAX_FANOUT then [] else all
  refine ⟨if named.isEmpty then [UNATTRIBUTED] else named, fun memberName hMembers => ?_, ?_⟩
  · have hAll : all = [memberName] := by
      simp only [all, hMembers, Option.getD_some]
      rfl
    simp [named, hAll, MAX_FANOUT]
  · unfold record
    rw [List.append_assoc, List.singleton_append, List.foldl_cons]
    refine upkeep_foldl fun stage hMem => ?_
    obtain hFanout | hCaps := List.mem_append.mp hMem
    · rw [List.mem_ite_nil_right, List.mem_singleton] at hFanout
      rw [hFanout.2]
      trivial
    · exact enforceCaps_upkeep _ _ stage hCaps

theorem observe_states (store : Store) (event : Event) : KeepsStates { store with states := nextStates event store.states } (observe store event).1 := by
  obtain ⟨options, clock, deed⟩ := event
  cases deed with
  | sweep => exact upkeep_foldl (sweep_upkeep options clock)
  | enforceCaps => exact upkeep_foldl (enforceCaps_upkeep options clock)
  | emit emission =>
    unfold nextStates
    dsimp only
    obtain ⟨hFailed, members, hEmit, hMembers, hIncident⟩ | ⟨hFailed, hMode, memberName, hMembers, hEmit⟩ := rawEmit_cases emission
    · have hAfter : (observe store ⟨options, clock, .emit emission⟩).1 =
          (record options clock emission.observation.cause members).foldl (fun store stage => stage.perform store) store := by
        change ((rawEmit emission).stages options clock).foldl _ store = _
        rw [hEmit]
        rfl
      obtain ⟨named, hNamed, hKeeps⟩ := foldl_record store options clock emission.observation.cause members
      rw [hAfter]
      cases hMode : healthMode emission.observation.cause with
      | point => exact (insertEvents_point hMode named (clock 0)).trans hKeeps
      | incident =>
        obtain ⟨memberName, hOne⟩ := hIncident hMode
        subst hOne
        refine .trans (.of_eq ?_ ?_) hKeeps
        · rw [hNamed memberName rfl, ← hMembers, hFailed, insertEvents, List.foldl_cons, List.foldl_nil, upsertState, hMode]
          rfl
        · rw [hNamed memberName rfl, insertEvents, List.foldl_cons, List.foldl_nil, upsertState, hMode]
          rfl
    · have hAfter : (observe store ⟨options, clock, .emit emission⟩).1 =
          (Stage.clearState emission.observation.cause memberName).perform store := by
        change ((rawEmit emission).stages options clock).foldl _ store = _
        rw [hEmit]
        rfl
      rw [hAfter, hMode, hMembers, hFailed]
      exact .of_eq rfl rfl

def Evicts (store : Store) (event : Event) : Prop :=
  ∃ row ∈ (nextStates event store.states).rows, row ∉ (observe store event).1.states.rows

theorem states_of_not_evicts {event : Event} (h : ¬Evicts store event) : (observe store event).1.states = nextStates event store.states := by
  obtain ⟨gone, hStates⟩ := (observe_states store event).loses
  rw [hStates]
  refine delete_of_none fun row hRow => ?_
  by_contra hGone
  refine h ⟨row, hRow, fun hStays => ?_⟩
  rw [hStates] at hStays
  have hKept := (List.mem_filter.mp hStays).2
  rw [(Bool.not_eq_false _).mp hGone] at hKept
  cases hKept

theorem evicted_of_evicts {event : Event} (h : Evicts store event) : (observe store event).1.stateEvicted = true := by
  obtain ⟨row, hRow, hGone⟩ := h
  by_contra hNot
  rw [((observe_states _ event).keeps ((Bool.not_eq_true _).mp hNot)).2] at hGone
  exact hGone hRow

/-! ## What is listed -/

theorem find_delete_key (states : Table StateRow.key) (key other : DiagnosticCause × String) :
    (states.delete fun row => row.key = other).find key = if other = key then none else states.find key := by
  rw [find_delete]
  cases hFind : states.find key with
  | none => simp
  | some row =>
    obtain rfl : row.key = key := key_of_find hFind
    by_cases hSame : row.key = other
    · rw [if_pos hSame.symm, Option.filter_some, if_neg (by simp [hSame])]
    · rw [if_neg (Ne.symm hSame), Option.filter_some, if_pos (by simp [hSame])]

theorem find_nextStates (hMode : healthMode cause = .incident) (memberName : String) (event : Event)
    (states : Table StateRow.key) :
    ((nextStates event states).find (cause, memberName)).map StateRow.since =
      match event.observes cause memberName with
      | none => (states.find (cause, memberName)).map StateRow.since
      | some none => none
      | some (some ts) => some (((states.find (cause, memberName)).map StateRow.since).getD ts) := by
  obtain ⟨options, clock, deed⟩ := event
  cases deed with
  | sweep => rfl
  | enforceCaps => rfl
  | emit emission =>
    have hSingle : healthMode emission.observation.cause = .incident → ∃ named, emission.observation.members = [named] := by
      intro hIncident
      obtain ⟨-, members, -, hMembers, hOne⟩ | ⟨-, -, named, hNamed, -⟩ := rawEmit_cases emission
      · obtain ⟨named, rfl⟩ := hOne hIncident
        exact ⟨named, hMembers.symm⟩
      · exact ⟨named, hNamed⟩
    unfold nextStates Event.observes
    dsimp only
    generalize emission.observation = seen at hSingle ⊢
    obtain ⟨seenCause, members, failed⟩ := seen
    dsimp only at hSingle ⊢
    cases hSeen : healthMode seenCause with
    | point =>
      have hOther : seenCause ≠ cause := fun hSame => by
        rw [hSame, hMode] at hSeen
        cases hSeen
      rw [if_neg fun hBoth => hOther hBoth.1]
    | incident =>
      obtain ⟨named, rfl⟩ := hSingle hSeen
      have hKey : (seenCause = cause ∧ memberName ∈ [named]) ↔ (seenCause, named) = (cause, memberName) := by
        rw [Prod.mk.injEq, List.mem_singleton, eq_comm (a := memberName)]
      simp only [hKey]
      cases failed with
      | true =>
        rw [if_pos rfl, find_insertOrIgnore]
        by_cases hSame : (seenCause, named) = (cause, memberName)
        · rw [if_pos hSame, if_pos hSame]
          cases states.find (cause, memberName) with
          | none => rfl
          | some row => rfl
        · rw [if_neg hSame, if_neg hSame, Option.or_none]
      | false =>
        rw [if_neg Bool.false_ne_true, find_delete_key]
        by_cases hSame : (seenCause, named) = (cause, memberName)
        · rw [if_pos hSame, if_pos hSame]
          rfl
        · rw [if_neg hSame, if_neg hSame]

theorem mem_unresolved {memberName : Option String} {since : Int} :
    (cause, since) ∈ unresolved memberName store ↔
      (store.states.find (cause, memberName.getD UNATTRIBUTED)).map StateRow.since = some since := by
  unfold unresolved
  rw [List.mem_map, Option.map_eq_some_iff]
  refine exists_congr fun row => ?_
  rw [List.mem_insertionSort, mem_select, decide_eq_true_eq, find_eq_some_iff, Prod.mk.injEq, Prod.mk.injEq]
  tauto

/-! ## Only incidents -/

def IncidentsOnly (store : Store) : Prop := ∀ row ∈ store.states.rows, healthMode row.cause = .incident

theorem IncidentsOnly.delete (h : IncidentsOnly store) {gone : StateRow → Bool} (hStates : after.states = store.states.delete gone) :
    IncidentsOnly after := by
  intro row hMem
  rw [hStates] at hMem
  exact h row (List.mem_filter.mp hMem).1

theorem IncidentsOnly.of_eq (h : IncidentsOnly store) (hStates : after.states = store.states) : IncidentsOnly after := by
  intro row hMem
  exact h row (hStates ▸ hMem)

theorem IncidentsOnly.insertEvents (h : IncidentsOnly store) (cause : DiagnosticCause) (members : List String) (ts : Int) :
    IncidentsOnly (insertEvents cause members ts store) := by
  unfold Diagnostics.insertEvents
  induction members generalizing store with
  | nil => exact h
  | cons memberName members ih =>
    rw [List.foldl_cons]
    refine ih ?_
    unfold upsertState
    split
    · rename_i hMode
      intro row hMem
      dsimp only at hMem
      rw [rows_insertOrIgnore] at hMem
      split at hMem
      · obtain hOld | hNew := List.mem_append.mp hMem
        · exact h row hOld
        · rw [List.mem_singleton.mp hNew]
          exact hMode
      · exact h row hMem
    · exact h.of_eq rfl

theorem states_raiseFloor (instant : Int) (store : Store) : (raiseFloor instant store).states = store.states := by
  unfold raiseFloor
  split <;> rfl

theorem IncidentsOnly.perform (h : IncidentsOnly store) (stage : Stage) : IncidentsOnly (stage.perform store) := by
  cases stage with
  | insert cause members ts => exact h.insertEvents cause members ts
  | clearState cause memberName => exact h.delete rfl
  | fanoutTruncated n ts => exact h.of_eq rfl
  | unavailable ts => exact h.of_eq rfl
  | capDetail maxDetailRows ts =>
    change IncidentsOnly (capDetail maxDetailRows ts store)
    unfold capDetail
    split
    · refine h.of_eq ?_
      dsimp only [recordOverflow, foldFact]
      split
      · rw [states_raiseFloor]
      · rfl
    · exact h
  | capBuckets maxBucketRows ts =>
    change IncidentsOnly (capBuckets maxBucketRows ts store)
    unfold capBuckets
    split
    · refine h.of_eq ?_
      dsimp only [recordOverflow, foldFact]
      split
      · rw [states_raiseFloor]
      · rfl
    · exact h
  | capStates maxStateRows ts =>
    change IncidentsOnly (capStates maxStateRows ts store)
    unfold capStates
    split
    · exact h.delete rfl
    · exact h
  | foldDetail detailCut => exact h.of_eq rfl
  | foldHours hourCut => exact h.of_eq rfl
  | dropDays dayCut =>
    change IncidentsOnly (dropDays dayCut store)
    unfold dropDays
    split
    · exact h
    · refine h.of_eq ?_
      rw [states_raiseFloor]

theorem incidentsOnly_run (events : List Event) : IncidentsOnly (final observe empty events) := by
  refine final_invariant (P := IncidentsOnly) (fun store event h => ?_) (fun _ hMem => absurd hMem List.not_mem_nil) events
  have hStages : ∀ (stages : List Stage) (store : Store), IncidentsOnly store →
      IncidentsOnly (stages.foldl (fun store stage => stage.perform store) store) := by
    intro stages
    induction stages with
    | nil => exact fun _ h => h
    | cons stage stages ih => exact fun store h => ih _ (h.perform stage)
  exact hStages _ store h

/-! ## Runs -/

theorem find_run {events : List Event} (h : ∀ step ∈ run observe empty events, ¬Evicts step.before step.input)
    (hMode : healthMode cause = .incident) (memberName : String) :
    ((final observe empty events).states.find (cause, memberName)).map StateRow.since =
      failingSince (observations cause memberName events) := by
  induction events using List.reverseRecOn with
  | nil => rfl
  | append_singleton events event ih =>
    rw [run_append, List.forall_mem_append] at h
    obtain ⟨hBefore, hLast⟩ := h
    have hEvent : ¬Evicts (final observe empty events) event := hLast _ (List.mem_singleton.mpr rfl)
    rw [final_append, final_cons, final_nil, states_of_not_evicts hEvent, find_nextStates hMode]
    have hObserved : observations cause memberName (events ++ [event]) =
        observations cause memberName events ++ (event.observes cause memberName).toList := by
      rw [observations, List.filterMap_append]
      cases hSeen : event.observes cause memberName <;> simp [hSeen, observations]
    rw [ih hBefore, hObserved]
    cases event.observes cause memberName with
    | none => rw [Option.toList_none, List.append_nil]
    | some seen =>
      cases seen with
      | none => exact (failingSince_recovery _).symm
      | some ts => exact (failingSince_failure _ ts).symm

theorem evicted_final (h : store.stateEvicted = true) (events : List Event) : (final observe store events).stateEvicted = true := by
  refine final_invariant (P := fun store : Store => store.stateEvicted = true) (fun store event hEvicted => ?_) h events
  by_contra hNot
  obtain ⟨hBefore, -⟩ := (observe_states _ event).keeps ((Bool.not_eq_true _).mp hNot)
  dsimp only at hBefore
  rw [hEvicted] at hBefore
  cases hBefore

/-- What is unresolved is what was last seen to fail, since the first failure of this kind, or retention is unknown for ever. -/
theorem unresolved_is_last_observation (events : List Event) :
    let store := final observe empty events
    ((∀ step ∈ run observe empty events, ¬Evicts step.before step.input) →
      ∀ cause, healthMode cause = .incident → ∀ memberName,
        (∀ since, (cause, since) ∈ unresolved (some memberName) store ↔ failingSince (observations cause memberName events) = some since) ∧
        ((∃ since, (cause, since) ∈ unresolved (some memberName) store) ↔
          ∃ ts, (observations cause memberName events).getLast? = some (some ts))) ∧
    ((∃ step ∈ run observe empty events, Evicts step.before step.input) → ∀ writeFailed detailMs now,
      health writeFailed detailMs now store = .unknown) ∧
    (∀ cause, healthMode cause = .point → ∀ memberName since, (cause, since) ∉ unresolved memberName store) ∧
    (∀ options clock deed, deed = .sweep ∨ deed = .enforceCaps → ¬Evicts store ⟨options, clock, deed⟩ → ∀ memberName,
      unresolved memberName (observe store ⟨options, clock, deed⟩).1 = unresolved memberName store) := by
  refine ⟨fun h cause hMode memberName => ?_, fun h writeFailed detailMs now => ?_, fun cause hMode memberName since hMem => ?_,
    fun options clock deed hDeed h memberName => ?_⟩
  · have hListed (since : Int) : (cause, since) ∈ unresolved (some memberName) (final observe empty events) ↔
        failingSince (observations cause memberName events) = some since := by
      rw [mem_unresolved, ← find_run h hMode memberName]
      rfl
    refine ⟨hListed, ?_⟩
    rw [← failingSince_isSome_iff, Option.isSome_iff_exists]
    exact exists_congr hListed
  · obtain ⟨step, hStep, hEvicts⟩ := h
    obtain ⟨first, second, hRun⟩ := List.append_of_mem hStep
    obtain ⟨before, event, more, hEvents, -, rfl, -⟩ := run_eq_append_cons observe hRun
    have hEvicted := evicted_final (evicted_of_evicts hEvicts) more
    rw [hEvents, final_append, final_cons, health]
    dsimp only [stepAt_before, stepAt_input] at hEvicted
    rw [hEvicted, Bool.or_true, if_pos rfl]
  · obtain ⟨row, hFind, -⟩ := Option.map_eq_some_iff.mp (mem_unresolved.mp hMem)
    obtain ⟨hRow, hKey⟩ := (find_eq_some_iff _ _ _).mp hFind
    have hIncident := incidentsOnly_run events row hRow
    rw [(Prod.mk.inj hKey).1, hMode] at hIncident
    cases hIncident
  · have hSame : nextStates ⟨options, clock, deed⟩ (final observe empty events).states = (final observe empty events).states := by
      obtain rfl | rfl := hDeed <;> rfl
    unfold unresolved
    rw [states_of_not_evicts h, hSame]

end CommandSuite.Diagnostics
