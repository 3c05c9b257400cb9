import CommandSuite.Core.Members.Requests

/-! # Administration

Somebody holds `members.manage` for as long as no update takes it from its last holder.
-/

namespace CommandSuite.Members

open Library Fallible Transcript Table

def manages (presets : PermissionPresets) (row : MemberRow) : Bool :=
  match rowToLoaded presets row with
  | .ok member => managesMembers member
  | .error _ => false

def HasManager (presets : PermissionPresets) (roster : Roster) : Prop := ∃ row ∈ roster.rows, manages presets row = true

/-- Nobody else holds `members.manage`. -/
def onlyManager (presets : PermissionPresets) (roster : Roster) (name : Name) : Bool :=
  roster.rows.all fun row => !manages presets row || row.name = name

/-- The update takes `members.manage` away. -/
def UpdateMemberPatch.drops (patch : UpdateMemberPatch) : Bool :=
  patch.rawPermissions.any fun raw => Permission.membersManage.key ∉ raw

/-- A body that takes `members.manage` away right when it comes, from a target that was no holder before that. -/
def dropsAtOnce (target : LoadedMember) : Option UpdateMemberRequest → Bool
  | some ⟨none, none, some permissions⟩ => !managesMembers target && !hasPermission permissions .membersManage
  | _ => false

/-- An update without `members.manage` is applied to its last holder: after the hashes were taken, or with its body. -/
def deposesLast (presets : PermissionPresets) (office : Office) : Event → Bool
  | .resumed index =>
    match office.pending[index]? with
    | some (.hashing name patch) => patch.drops && onlyManager presets office.roster name
    | some (.updating target body) => dropsAtOnce target body && onlyManager presets office.roster target.name
    | _ => false
  | _ => false

/-! ## Rosters -/

section Rosters

variable {presets : PermissionPresets} {roster : Roster}

theorem manages_leaves {row : MemberRow} {permissions : List Permission}
    (h : row.rawPermissions = permissions.map Permission.key) :
    manages presets row = hasPermission permissions .membersManage := by
  unfold manages rowToLoaded
  rw [h, resolvePermissions_leaves]
  simp [bind, Except.bind, pure, Except.pure, managesMembers, hasPermission, mem_PERMISSIONS]

variable {patch : UpdateMemberPatch}

theorem manages_apply (h : patch.rawPermissions = none) (row : MemberRow) :
    manages presets (patch.apply row) = manages presets row := by
  have hRaw : (patch.apply row).rawPermissions = row.rawPermissions := by
    unfold UpdateMemberPatch.apply
    rw [h]
    rfl
  have hName : (patch.apply row).name = row.name := rfl
  unfold manages rowToLoaded
  rw [hRaw, hName]
  cases resolvePermissions row.rawPermissions presets s!"member '{row.name.text}'" <;> rfl

theorem HasManager.mono {roster' : Roster} (h : HasManager presets roster) (hRows : roster.rows ⊆ roster'.rows) :
    HasManager presets roster' := by
  obtain ⟨row, hRow, hManages⟩ := h
  exact ⟨row, hRows hRow, hManages⟩

theorem onlyManager_iff {name : Name} : onlyManager presets roster name = true ↔
    ∀ row ∈ roster.rows, manages presets row = true → row.name = name := by
  simp only [onlyManager, List.all_eq_true, Bool.or_eq_true, Bool.not_eq_true', decide_eq_true_eq]
  refine forall₂_congr fun row _ => ?_
  cases manages presets row <;> simp

theorem length_managers {all : List LoadedMember} (h : members presets roster = .ok all) :
    (all.filter managesMembers).length = (roster.rows.filter (manages presets)).length := by
  unfold members at h
  generalize roster.rows = rows at h ⊢
  induction mapM_eq_ok.mp h with
  | nil => rfl
  | cons hRow hRest ih =>
    rename_i row member rows rest
    have hManages : manages presets row = managesMembers member := by
      unfold manages
      rw [hRow]
    simp only [List.filter_cons, hManages]
    split
    · simp only [List.length_cons, ih (mapM_eq_ok.mpr hRest)]
    · exact ih (mapM_eq_ok.mpr hRest)

variable {name : Name}

theorem not_onlyManager (h : 1 < (roster.rows.filter (manages presets)).length) : onlyManager presets roster name = false := by
  by_contra hOnly
  rw [Bool.not_eq_false, onlyManager_iff] at hOnly
  have hNodup : ((roster.rows.filter (manages presets)).map MemberRow.key).Nodup :=
    roster.nodup.sublist (List.filter_sublist.map MemberRow.key)
  have hSame : ∀ key ∈ (roster.rows.filter (manages presets)).map MemberRow.key, key = name := by
    intro key hKey
    obtain ⟨row, hRow, rfl⟩ := List.mem_map.mp hKey
    obtain ⟨hMem, hManages⟩ := List.mem_filter.mp hRow
    exact hOnly row hMem hManages
  rw [List.eq_replicate_of_mem hSame, List.nodup_replicate, List.length_map] at hNodup
  omega

theorem not_onlyManager_of_guardSole {config : Config} {error : String}
    (h : guardSole config roster error = .ok ()) : onlyManager config.presets roster name = false := by
  unfold guardSole at h
  cases hAll : members config.presets roster with
  | error e =>
    rw [hAll] at h
    cases h
  | ok all =>
    rw [hAll] at h
    simp only [Except.mapError, bind, Except.bind] at h
    split at h
    · cases h
    · rename_i hCount
      rw [length_managers hAll, not_le] at hCount
      exact not_onlyManager hCount

theorem hasManager_delete (h : onlyManager presets roster name = false) :
    HasManager presets (roster.delete fun row => row.name = name) := by
  rw [← Bool.not_eq_true, onlyManager_iff] at h
  push Not at h
  obtain ⟨row, hRow, hManages, hOther⟩ := h
  exact ⟨row, List.mem_filter.mpr ⟨hRow, by simpa using hOther⟩, hManages⟩

theorem hasManager_update_iff :
    HasManager presets (roster.update (fun row => row.name = name) patch.apply fun _ => rfl) ↔
      ∃ row ∈ roster.rows, if row.name = name then manages presets (patch.apply row) = true else manages presets row = true := by
  unfold HasManager Table.update
  simp only [List.mem_map, exists_exists_and_eq_and, decide_eq_true_eq]
  refine exists_congr fun row => and_congr_right fun _ => ?_
  split <;> rfl

end Rosters

/-! ## Programs -/

def KeepsRows (before after : Roster) : Prop := before.rows ⊆ after.rows

instance : Std.Refl KeepsRows := ⟨fun roster => List.Subset.refl roster.rows⟩

instance : IsTrans Roster KeepsRows := ⟨fun _ _ _ => List.Subset.trans⟩

def UpdateMemberPatch.Leaves (patch : UpdateMemberPatch) : Prop :=
  ∀ raw, patch.rawPermissions = some raw → ∃ permissions : List Permission,
    raw = (PERMISSIONS.filter fun permission => permission ∈ permissions).map Permission.key

section Programs

variable {presets : PermissionPresets} {roster : Roster}

theorem keeps_readBack {K : Roster → Roster → Prop} [Std.Refl K] (name : Name) (message : String) :
    Keeps K (readBack presets name message) roster fun _ _ => True := by
  unfold readBack
  rw [keeps_reads_bind]
  refine keeps_fromExcept_bind _ fun found _ => ?_
  cases found with
  | none => exact keeps_throw _
  | some member => exact keeps_pure trivial

theorem keepsRows_insert (row : MemberRow) : KeepsRows roster (roster.insertOrIgnore row) := by
  unfold KeepsRows
  rw [rows_insertOrIgnore]
  split
  · exact List.subset_append_left _ _
  · exact List.Subset.refl _

theorem keeps_addMember (input : AddMemberInput) : Keeps KeepsRows (addMember presets input) roster fun _ _ => True := by
  refine keeps_fromExcept_bind _ fun _ _ => ?_
  rw [keeps_reads_bind]
  refine keeps_require_bind _ fun _ => keeps_fromExcept_bind _ fun _ _ => ?_
  have hInsert : Keeps KeepsRows (update fun roster : Roster =>
      roster.insertOrIgnore ⟨input.name, input.role, input.instructions, input.rawPermissions⟩ : RosterM Unit) roster
      fun _ _ => True := keeps_update (keepsRows_insert _) trivial
  exact hInsert.bind fun _ _ _ _ => keeps_readBack _ _

theorem ends_removeMember (name : Name) : Ends (removeMember name) roster fun _ roster' =>
    roster' = roster ∨ roster' = roster.delete fun row => row.name = name := by
  unfold removeMember
  rw [ends_reads_bind]
  exact ends_require_bind _ (fun _ => .inl rfl) fun _ => .inr rfl

theorem validateRawPermissions_leaves (permissions : List Permission) :
    validateRawPermissions ((PERMISSIONS.filter fun permission => permission ∈ permissions).map Permission.key) = .ok () := by
  unfold validateRawPermissions
  rw [if_pos]
  rw [Bool.and_eq_true, decide_eq_true_eq, List.length_map, List.all_map, List.all_eq_true]
  constructor
  · have hLength := List.length_filter_le (fun permission => decide (permission ∈ permissions)) PERMISSIONS
    have hAll : PERMISSIONS.length = 13 := rfl
    omega
  · intro permission _
    cases permission <;> decide

variable {patch : UpdateMemberPatch}

theorem ends_updateMember {name : Name} (h : patch.Leaves) :
    Ends (updateMember presets name patch) roster fun _ roster' =>
      (roster.find name = none ∧ roster' = roster) ∨
        roster' = roster.update (fun row => row.name = name) patch.apply fun _ => rfl := by
  unfold updateMember
  rw [ends_reads_bind]
  cases hFind : roster.find name with
  | none => exact .inl ⟨rfl, rfl⟩
  | some row =>
    rw [Option.isSome_some, ends_require_true]
    have hWrites : Ends (do
        update fun roster : Roster => roster.update (fun row => row.name = name) patch.apply fun _ => rfl
        readBack presets name s!"updateMember: row vanished mid-update (name='{name.text}')") roster
        fun _ roster' => (some row = none ∧ roster' = roster) ∨
          roster' = roster.update (fun row => row.name = name) patch.apply fun _ => rfl := by
      refine (ends_bind _ _).mpr ((ends_update _ _).mpr ?_)
      refine Ends.imp (keeps_readBack (K := Eq) name _) ?_
      rintro _ roster' ⟨hSame, _⟩
      exact .inr hSame.symm
    cases hRaw : patch.rawPermissions with
    | none => exact hWrites
    | some raw =>
      obtain ⟨permissions, rfl⟩ := h raw hRaw
      dsimp only
      rw [validateRawPermissions_leaves, resolvePermissions_leaves]
      exact hWrites

theorem drops_leaves {permissions : List Permission}
    (h : patch.rawPermissions = some (permissions.map Permission.key)) :
    patch.drops = !hasPermission permissions .membersManage := by
  unfold UpdateMemberPatch.drops hasPermission
  rw [h, Option.any_some, decide_not]
  simp only [List.mem_map_of_injective Permission.key_injective]

theorem hasManager_updateMember {name : Name} (h : patch.Leaves) (hManager : HasManager presets roster) :
    Ends (updateMember presets name patch) roster fun _ roster' =>
      HasManager presets roster' ↔ (patch.drops && onlyManager presets roster name) = false := by
  have hOnly := @onlyManager_iff presets roster name
  refine Ends.imp (ends_updateMember h) ?_
  rintro _ roster' (⟨hNone, rfl⟩ | rfl)
  · refine iff_of_true hManager ?_
    obtain ⟨row, hRow, hManages⟩ := hManager
    have hOther : row.name ≠ name := (find_eq_none_iff _ _).mp hNone row hRow
    have hNot : onlyManager presets roster' name = false := by
      rw [← Bool.not_eq_true, hOnly]
      intro hAll
      exact hOther (hAll row hRow hManages)
    rw [hNot, Bool.and_false]
  · rw [hasManager_update_iff]
    cases hRaw : patch.rawPermissions with
    | none =>
      refine iff_of_true ?_ (by simp [UpdateMemberPatch.drops, hRaw])
      obtain ⟨row, hRow, hManages⟩ := hManager
      refine ⟨row, hRow, ?_⟩
      rw [manages_apply hRaw, ite_self]
      exact hManages
    | some raw =>
      obtain ⟨permissions, rfl⟩ := h raw hRaw
      have hManages : ∀ row, manages presets (patch.apply row) =
          hasPermission (PERMISSIONS.filter fun permission => permission ∈ permissions) .membersManage := by
        intro row
        apply manages_leaves
        unfold UpdateMemberPatch.apply
        rw [hRaw]
        rfl
      simp only [hManages, drops_leaves hRaw]
      cases hasPermission (PERMISSIONS.filter fun permission => permission ∈ permissions) .membersManage with
      | true =>
        refine iff_of_true ?_ rfl
        obtain ⟨row, hRow, hHolds⟩ := hManager
        refine ⟨row, hRow, ?_⟩
        split
        · rfl
        · exact hHolds
      | false =>
        rw [Bool.not_false, Bool.true_and, ← Bool.not_eq_true, hOnly]
        push Not
        refine exists_congr fun row => and_congr_right fun _ => ?_
        split
        · rename_i hName
          simp [hName]
        · rename_i hName
          simp [hName]

end Programs

/-! ## Requests -/

def Pending.WritesLeaves : Pending → Prop
  | .hashing _ patch => patch.Leaves
  | .authenticated .. | .creating .. | .updating .. | .approving .. => True

/-- What a request does next keeps a holder of `members.manage`. -/
def Next.Safe (presets : PermissionPresets) (roster : Roster) : Next → Prop
  | .waits pending => pending.WritesLeaves
  | .writes program _ => HasManager presets roster → HasManager presets (run program roster).2

section Requests

variable {config : Config} {roster : Roster} {next : Next} {presets : PermissionPresets}

theorem hasManager_of_keeps {α : Type} {program : RosterM α}
    (h : Keeps KeepsRows program roster fun _ _ => True) (hManager : HasManager presets roster) :
    HasManager presets (run program roster).2 :=
  hManager.mono ((ends_iff_run _).mp h).1

theorem safe_addMember {α : Type} (input : AddMemberInput) (next : LoadedMember → RosterM α)
    (hNext : ∀ member roster', Keeps KeepsRows (next member) roster' fun _ _ => True)
    (hManager : HasManager config.presets roster) :
    HasManager config.presets (run (addMember config.presets input >>= next) roster).2 :=
  hasManager_of_keeps ((keeps_addMember input).bind fun member roster' _ _ => hNext member roster') hManager

theorem safe_createMember {body : Option CreateMemberRequest} (h : createMember config roster body = .ok next) :
    next.Safe config.presets roster := by
  cases body with
  | none => cases h
  | some body =>
    obtain ⟨found, _, h⟩ := bind_eq_ok.mp h
    split at h
    · cases h
    · obtain ⟨permissions, _, h⟩ := bind_eq_ok.mp h
      cases h
      exact safe_addMember _ _ fun _ _ => keeps_pure trivial

theorem safe_approveEnrollment {lookup : Except Refusal Unit} {body : Option ApproveEnrollmentRequest}
    (h : approveEnrollment config roster lookup body = .ok next) : next.Safe config.presets roster := by
  cases body with
  | none => cases h
  | some body =>
    cases body with
    | bind memberName =>
      obtain ⟨_, _, h⟩ := bind_eq_ok.mp h
      obtain ⟨found, _, h⟩ := bind_eq_ok.mp h
      cases found with
      | none => cases h
      | some target =>
        cases h
        exact id
    | create memberName role instructions permissions =>
      obtain ⟨_, _, h⟩ := bind_eq_ok.mp h
      obtain ⟨found, _, h⟩ := bind_eq_ok.mp h
      split at h
      · cases h
      · obtain ⟨resolved, _, h⟩ := bind_eq_ok.mp h
        cases h
        exact safe_addMember _ _ fun _ _ => keeps_pure trivial

variable {target : LoadedMember}

theorem findByName_eq_ok {name : Name}
    (h : findByName presets roster name = .ok (some target)) :
    target.name = name ∧ ∃ row, roster.find name = some row ∧ manages presets row = managesMembers target := by
  unfold findByName at h
  cases hRow : roster.find name with
  | none =>
    rw [hRow] at h
    cases h
  | some row =>
    cases hLoaded : rowToLoaded presets row with
    | error e =>
      rw [hRow] at h
      simp only [hLoaded] at h
      cases h
    | ok loaded =>
      rw [hRow] at h
      simp only [hLoaded] at h
      cases h
      have hName : target.name = row.name := by
        obtain ⟨permissions, _, hMember⟩ := bind_eq_ok.mp hLoaded
        cases hMember
        rfl
      exact ⟨hName.trans (key_of_find hRow), row, rfl, by rw [manages, hLoaded]⟩

theorem targetOf_eq_ok {raw : String} (h : targetOf config roster raw = .ok target) :
    ∃ row, roster.find target.name = some row ∧ manages config.presets row = managesMembers target := by
  unfold targetOf at h
  cases hName : Name.parse raw with
  | none =>
    rw [hName] at h
    cases h
  | some name =>
    rw [hName] at h
    obtain ⟨found, hFound, h⟩ := bind_eq_ok.mp h
    cases found with
    | none => cases h
    | some loaded =>
      cases h
      obtain ⟨hSame, hRow⟩ := findByName_eq_ok (mapError_eq_ok.mp hFound)
      rw [hSame]
      exact hRow

theorem safe_deleteMember {raw : String} (h : deleteMember config roster raw = .ok next) : next.Safe config.presets roster := by
  obtain ⟨target, hTarget, h⟩ := bind_eq_ok.mp h
  obtain ⟨row, hRow, hManages⟩ := targetOf_eq_ok hTarget
  have hRemoved : ∀ roster', (roster' = roster ∨ roster' = roster.delete fun row => row.name = target.name) →
      onlyManager config.presets roster target.name = false → HasManager config.presets roster →
      HasManager config.presets roster' := by
    rintro _ (rfl | rfl) hOther hManager
    · exact hManager
    · exact hasManager_delete hOther
  have hSafe : (HasManager config.presets roster → onlyManager config.presets roster target.name = false) →
      Next.Safe config.presets roster (.writes (do removeMember target.name; return .deleted target.name) (caughtLoad 404)) := by
    intro hOther hManager
    refine (ends_iff_run (Q := fun _ roster' => HasManager config.presets roster') _).mp ?_
    refine (ends_bind _ _).mpr (Ends.imp (ends_removeMember target.name) ?_)
    intro outcome roster' hRoster
    cases outcome with
    | ok done => exact hRemoved roster' hRoster (hOther hManager) hManager
    | error e => exact hRemoved roster' hRoster (hOther hManager) hManager
  split at h
  · obtain ⟨_, hGuard, h⟩ := bind_eq_ok.mp h
    cases h
    exact hSafe fun _ => not_onlyManager_of_guardSole hGuard
  · rename_i hNot
    cases h
    refine hSafe fun hManager => ?_
    rw [← Bool.not_eq_true, onlyManager_iff]
    intro hAll
    obtain ⟨other, hOther, hHolds⟩ := hManager
    have hFind : roster.find other.name = some other := find_key hOther
    rw [hAll other hOther hHolds, hRow] at hFind
    cases hFind
    exact hNot (hManages.symm.trans hHolds)

theorem safe_opens {caller : LoadedMember} {request : Request} (h : opens config roster caller request = .ok next) :
    next.Safe config.presets roster := by
  cases request with
  | create | approve =>
    obtain ⟨_, _, h⟩ := bind_eq_ok.mp h
    cases h
    trivial
  | update name body =>
    obtain ⟨_, _, h⟩ := bind_eq_ok.mp h
    obtain ⟨target, _, h⟩ := bind_eq_ok.mp h
    cases h
    trivial
  | delete name =>
    obtain ⟨_, _, h⟩ := bind_eq_ok.mp h
    exact safe_deleteMember h

theorem resolve_eq_ok {permissions resolved : List Permission} {context : String}
    (h : resolve config permissions context = .ok resolved) :
    resolved = PERMISSIONS.filter fun permission => permission ∈ permissions := by
  unfold resolve at h
  rw [resolvePermissions_leaves] at h
  cases h
  rfl

theorem nextPermissions_eq_ok {asked : Option (List Permission)} {raw : Option (List String)}
    (h : nextPermissions config roster target asked = .ok raw) {patch : UpdateMemberPatch} (hPatch : patch.rawPermissions = raw) :
    patch.Leaves ∧ patch.drops = (asked.any fun permissions => !hasPermission permissions .membersManage) ∧
      (patch.drops = true → managesMembers target = true → onlyManager config.presets roster target.name = false) := by
  cases asked with
  | none =>
    cases h
    have hDrops : patch.drops = false := by rw [UpdateMemberPatch.drops, hPatch, Option.any_none]
    refine ⟨fun raw hRaw => ?_, hDrops, fun hDrop => ?_⟩
    · rw [hPatch] at hRaw
      cases hRaw
    · rw [hDrops] at hDrop
      cases hDrop
  | some permissions =>
    obtain ⟨resolved, hResolve, h⟩ := bind_eq_ok.mp h
    have hResolved := resolve_eq_ok hResolve
    have hHas : hasPermission resolved .membersManage = hasPermission permissions .membersManage := by
      rw [hResolved]
      simp [hasPermission, mem_PERMISSIONS]
    have hSome : raw = some (resolved.map Permission.key) → patch.Leaves ∧ patch.drops = !hasPermission permissions .membersManage := by
      rintro rfl
      refine ⟨fun raw hRaw => ⟨permissions, ?_⟩, by rw [drops_leaves hPatch, hHas]⟩
      rw [← hResolved]
      exact Option.some.inj (hRaw.symm.trans hPatch)
    split at h
    · obtain ⟨_, hGuard, h⟩ := bind_eq_ok.mp h
      obtain ⟨hLeaves, hDrops⟩ := hSome (by cases h; rfl)
      exact ⟨hLeaves, hDrops, fun _ _ => not_onlyManager_of_guardSole hGuard⟩
    · rename_i hNot
      obtain ⟨hLeaves, hDrops⟩ := hSome (by cases h; rfl)
      refine ⟨hLeaves, hDrops, fun hDrop hManages => ?_⟩
      rw [hManages, hHas, ← hDrops, hDrop] at hNot
      exact absurd rfl hNot

theorem updateBody_eq_ok {body : UpdateMemberRequest}
    (h : updateBody config roster target (some body) = .ok next) : ∃ patch : UpdateMemberPatch, patch.Leaves ∧
      patch.drops = (body.permissions.any fun permissions => !hasPermission permissions .membersManage) ∧
      (patch.drops = true → managesMembers target = true → onlyManager config.presets roster target.name = false) ∧
      next = if body.role.isSome || body.instructions.isSome then .waits (.hashing target.name patch)
        else applyUpdate config target.name patch := by
  obtain ⟨rawPermissions, hRaw, h⟩ := bind_eq_ok.mp h
  obtain ⟨hLeaves, hDrops, hGuard⟩ := nextPermissions_eq_ok hRaw (rfl :
    (⟨body.role, body.instructions, rawPermissions⟩ : UpdateMemberPatch).rawPermissions = rawPermissions)
  refine ⟨⟨body.role, body.instructions, rawPermissions⟩, hLeaves, hDrops, hGuard, ?_⟩
  split at h
  · rename_i hKinds
    obtain ⟨_, _, h⟩ := bind_eq_ok.mp h
    cases h
    rw [if_pos hKinds]
  · rename_i hKinds
    cases h
    rw [if_neg hKinds]

theorem updateBody_not_manager {target : LoadedMember} (permissions : List Permission) (h : managesMembers target = false) :
    ∃ next, updateBody config roster target (some ⟨none, none, some permissions⟩) = .ok next := by
  simp [updateBody, nextPermissions, resolve, resolvePermissions_leaves, h, bind, Except.bind, pure, Except.pure, Except.mapError]

end Requests

/-! ## One step -/

section Serve

variable {config : Config} {office : Office} {result : Except Refusal Next}

theorem hasManager_take (h : ∀ next, result = .ok next → next.Safe config.presets office.roster)
    (hManager : HasManager config.presets office.roster) : HasManager config.presets (office.take result).1.roster := by
  cases result with
  | error refusal => exact hManager
  | ok next =>
    have hSafe := h next rfl
    cases next with
    | waits pending => exact hManager
    | writes program refusal => exact hSafe hManager

theorem hasManager_take_update {name : Name} {patch : UpdateMemberPatch} (h : patch.Leaves)
    (hManager : HasManager config.presets office.roster) :
    HasManager config.presets (office.take (.ok (applyUpdate config name patch))).1.roster ↔
      (patch.drops && onlyManager config.presets office.roster name) = false := by
  have hEnds : Ends (do return Reply.updated (← updateMember config.presets name patch)) office.roster fun _ roster' =>
      HasManager config.presets roster' ↔ (patch.drops && onlyManager config.presets office.roster name) = false := by
    refine (ends_bind _ _).mpr (Ends.imp (hasManager_updateMember h hManager) ?_)
    intro outcome roster' hRoster
    cases outcome with
    | ok member => exact hRoster
    | error e => exact hRoster
  exact (ends_iff_run _).mp hEnds

theorem hasManager_take_updating {target : LoadedMember} {body : Option UpdateMemberRequest}
    (hManager : HasManager config.presets office.roster) :
    HasManager config.presets (office.take (updateBody config office.roster target body)).1.roster ↔
      (dropsAtOnce target body && onlyManager config.presets office.roster target.name) = false := by
  unfold dropsAtOnce
  cases hBody : updateBody config office.roster target body with
  | error refusal =>
    refine iff_of_true hManager ?_
    split
    · rename_i permissions
      cases hTarget : managesMembers target with
      | true => rfl
      | false =>
        obtain ⟨next, hNext⟩ := @updateBody_not_manager config office.roster target permissions hTarget
        cases hNext.symm.trans hBody
    · rfl
  | ok next =>
    cases body with
    | none => cases hBody
    | some body =>
      obtain ⟨patch, hLeaves, hDrops, hGuard, rfl⟩ := updateBody_eq_ok hBody
      obtain ⟨role, instructions, asked⟩ := body
      cases role with
      | some role => exact iff_of_true hManager rfl
      | none =>
        cases instructions with
        | some instructions => exact iff_of_true hManager rfl
        | none =>
          refine (hasManager_take_update hLeaves hManager).trans ?_
          rw [hDrops]
          cases asked with
          | none => simp
          | some permissions =>
            cases hTarget : managesMembers target with
            | false => simp
            | true =>
              refine iff_of_true ?_ rfl
              cases hDrop : patch.drops with
              | false =>
                rw [← hDrops, hDrop]
                rfl
              | true => rw [hGuard hDrop hTarget, Bool.and_false]

def AllWriteLeaves (office : Office) : Prop := ∀ pending ∈ office.pending, pending.WritesLeaves

theorem allWriteLeaves_take (h : AllWriteLeaves office)
    (hNext : ∀ pending, result = .ok (.waits pending) → pending.WritesLeaves) : AllWriteLeaves (office.take result).1 := by
  cases result with
  | error refusal => exact h
  | ok next =>
    cases next with
    | waits pending =>
      intro other hOther
      rcases List.mem_append.mp hOther with hOld | hNew
      · exact h other hOld
      · rw [List.mem_singleton.mp hNew]
        exact hNext pending rfl
    | writes program refusal => exact h

variable {roster : Roster}

theorem safe_authenticate {caller : Name} {request : Request} {next : Next}
    (h : authenticate config roster caller request = .ok next) : next.Safe config.presets roster := by
  obtain ⟨found, _, h⟩ := bind_eq_ok.mp h
  cases found with
  | none => cases h
  | some member =>
    cases h
    trivial

theorem writesLeaves_resumes {pending waiting : Pending}
    (h : resumes config roster pending = .ok (.waits waiting)) : waiting.WritesLeaves := by
  cases pending with
  | authenticated caller request => exact safe_opens h
  | creating body => exact safe_createMember h
  | approving body lookup => exact safe_approveEnrollment h
  | hashing name patch => cases h
  | updating target body =>
    cases body with
    | none => cases h
    | some body =>
      obtain ⟨patch, hLeaves, _, _, hNext⟩ := updateBody_eq_ok h
      split at hNext
      · cases hNext
        exact hLeaves
      · cases hNext

theorem allWriteLeaves_serve (office : Office) (event : Event) (h : AllWriteLeaves office) :
    AllWriteLeaves (serve config office event).1 := by
  have hErased : ∀ index, AllWriteLeaves { office with pending := office.pending.eraseIdx index } :=
    fun index pending hPending => h pending (List.mem_of_mem_eraseIdx hPending)
  cases event with
  | opened caller request => exact allWriteLeaves_take h fun _ hNext => safe_authenticate hNext
  | failed index => exact hErased index
  | resumed index =>
    unfold serve
    dsimp only
    split
    · exact h
    · exact allWriteLeaves_take (hErased index) fun _ hNext => writesLeaves_resumes hNext

/-- A step keeps a holder of `members.manage` exactly when it does not depose the last one. -/
theorem hasManager_serve_iff (office : Office) (event : Event) (h : AllWriteLeaves office)
    (hManager : HasManager config.presets office.roster) :
    HasManager config.presets (serve config office event).1.roster ↔ deposesLast config.presets office event = false := by
  cases event with
  | opened caller request => exact iff_of_true (hasManager_take (fun _ hNext => safe_authenticate hNext) hManager) rfl
  | failed index => exact iff_of_true hManager rfl
  | resumed index =>
    cases hPending : office.pending[index]? with
    | none =>
      refine iff_of_true ?_ (by simp [deposesLast, hPending])
      simpa [serve, hPending] using hManager
    | some pending =>
      have hServe : serve config office (.resumed index) =
          { office with pending := office.pending.eraseIdx index }.take (resumes config office.roster pending) := by
        simp [serve, hPending]
      rw [hServe]
      simp only [deposesLast, hPending]
      have hLeaves := h pending (List.mem_of_getElem? hPending)
      cases pending with
      | authenticated caller request => exact iff_of_true (hasManager_take (fun _ hNext => safe_opens hNext) hManager) rfl
      | creating body => exact iff_of_true (hasManager_take (fun _ hNext => safe_createMember hNext) hManager) rfl
      | approving body lookup => exact iff_of_true (hasManager_take (fun _ hNext => safe_approveEnrollment hNext) hManager) rfl
      | hashing name patch => exact hasManager_take_update hLeaves hManager
      | updating target body => exact hasManager_take_updating hManager

/-- As long as no update deposes the last holder of `members.manage`, somebody holds it, and no longer. -/
theorem always_administered (config : Config) {roster : Roster} (h : HasManager config.presets roster) (events : List Event) :
    (∀ step ∈ run (serve config) ⟨roster, []⟩ events, HasManager config.presets step.after.roster) ↔
      ∀ step ∈ run (serve config) ⟨roster, []⟩ events, deposesLast config.presets step.before step.input = false := by
  refine forall_after_iff (G := fun office : Office => HasManager config.presets office.roster)
    (C := fun office event => deposesLast config.presets office event = false) allWriteLeaves_serve hasManager_serve_iff
    ?_ h events
  rintro _ ⟨⟩

end Serve

/-! Alice and Bob take `members.manage` from each other, each while the other still holds it. -/

instance (presets : PermissionPresets) (roster : Roster) : Decidable (HasManager presets roster) :=
  inferInstanceAs (Decidable (∃ row ∈ roster.rows, manages presets row = true))

def alice : Name := ⟨"alice", .refl true⟩

def bob : Name := ⟨"bob", .refl true⟩

def manager (name : Name) : MemberRow := ⟨name, ⟨"Lead", "", (by decide : 1 ≤ 4 ∧ 4 ≤ 64)⟩, "", ["members.manage"]⟩

def twoManagers : Roster := ⟨[manager alice, manager bob], by decide⟩

def wired : Config := ⟨[], true⟩

def demotes (caller : Name) (name : String) : Event := .opened caller (.update name (some ⟨none, some "Rests.", some []⟩))

def inTurn : List Event := [demotes alice "bob", .resumed 0, .resumed 0, .resumed 0, demotes bob "alice"]

theorem inTurn_administered : HasManager wired.presets (stepAt (serve wired)
    (final (serve wired) ⟨twoManagers, []⟩ inTurn) (.resumed 0)).after.roster := by
  have hManager : HasManager wired.presets twoManagers := by decide
  refine (always_administered wired hManager (inTurn ++ [.resumed 0])).mpr (by decide) _ ?_
  rw [run_append]
  exact List.mem_append_right _ (List.mem_singleton_self _)

def atOnce : List Event := [demotes alice "bob", .resumed 0, demotes bob "alice", .resumed 1, .resumed 0, .resumed 0, .resumed 0]

theorem both_depose : ¬∀ (config : Config) (roster : Roster) (events : List Event), HasManager config.presets roster →
    ∀ step ∈ run (serve config) ⟨roster, []⟩ events, HasManager config.presets step.after.roster := by
  intro h
  have hRun := h wired twoManagers (atOnce ++ [.resumed 0]) (by decide)
  rw [run_append] at hRun
  have hLast := hRun _ (List.mem_append_right _ (List.mem_singleton_self _))
  revert hLast
  decide

end CommandSuite.Members
