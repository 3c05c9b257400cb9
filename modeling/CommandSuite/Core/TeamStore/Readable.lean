import CommandSuite.Core.TeamStore

/-! # The roster stays readable

Raw permissions are resolved at every read, so a bundle that goes is missed by all who name it. Every member can be
read for as long as no bundle is deleted that a member still names.
-/

namespace CommandSuite.TeamStore

open Library Fallible Members Table Transcript

/-! ## What raw permissions mean -/

def successors (entry : String) : List Permission := (LEGACY_PERMISSION_EXPANSIONS.lookup entry).getD []

/-- The entry is the permission, or a name that was replaced by it. -/
def Means (entry : String) (permission : Permission) : Prop := entry = permission.key ∨ permission ∈ successors entry

instance (entry : String) (permission : Permission) : Decidable (Means entry permission) := inferInstanceAs (Decidable (_ ∨ _))

def isPermission (entry : String) : Bool :=
  entry ∈ PERMISSIONS.map Permission.key || (LEGACY_PERMISSION_EXPANSIONS.lookup entry).isSome

/-- Raw permissions give a permission by naming it, or a bundle that exists and holds it. -/
def Grants (presets : Table PresetRow.key) (raw : List String) (permission : Permission) : Prop :=
  (∃ entry ∈ raw, Means entry permission) ∨
    ∃ row ∈ presets.rows, row.name ∈ raw ∧ isPermission row.name = false ∧ ∃ leaf ∈ row.permissions, Means leaf permission

instance (presets : Table PresetRow.key) (raw : List String) (permission : Permission) : Decidable (Grants presets raw permission) :=
  inferInstanceAs (Decidable (_ ∨ _))

def effectivePermissions (presets : Table PresetRow.key) (raw : List String) : List Permission :=
  PERMISSIONS.filter fun permission => Grants presets raw permission

/-! ## Reading everybody -/

section Reading

variable (cipher : Option FieldCipher)

/-- The member as it is read is the one of the row, with the permissions that its raw permissions give. -/
def ReadAs (stores : Stores) (row : StoredMember) (member : LoadedMember) : Prop :=
  member.name = row.name ∧ member.permissions = effectivePermissions stores.presets row.rawPermissions

structure Readable (stores : Stores) : Prop where
  found : ∀ row ∈ stores.members.rows, ∃ member, findByName cipher stores row.name = .ok (some member) ∧ ReadAs stores row member
  listed : ∃ all, members cipher stores = .ok all ∧ List.Forall₂ (ReadAs stores) stores.members.rows all

end Reading

def PresetRow.reads (row : PresetRow) (entry : String) : Bool :=
  row.name = entry || (row.name = "__proto__" && (arrayElement row.permissions entry).isSome)

def standing (presets : Table PresetRow.key) : Call → List PresetRow
  | .setPreset name permissions => ⟨name, permissions⟩ :: presets.select fun row => row.name ≠ name
  | .deletePreset name => presets.select fun row => row.name ≠ name
  | .addMember .. | .updateMember .. | .removeMember .. | .setTotpSecret .. | .recordTotpAccept .. => presets.rows

def spares (stores : Stores) (call : Call) : Bool :=
  stores.members.rows.all fun member => member.rawPermissions.all fun entry =>
    isPermission entry || (standing stores.presets call).any fun row => row.reads entry

/-! ## Entries -/

section Entries

variable {entry leaf : String} {permission : Permission}

theorem not_retired_key (permission : Permission) : LEGACY_PERMISSION_EXPANSIONS.lookup permission.key = none := by
  cases permission <;> decide

theorem key_not_inherited (permission : Permission) : permission.key ∉ inherited := by
  cases permission <;> decide

theorem means_key_iff {other : Permission} : Means other.key permission ↔ other = permission := by
  unfold Means successors
  rw [not_retired_key, Permission.key_injective.eq_iff]
  simp

theorem means_of_lookup {leaves : List Permission} (h : LEGACY_PERMISSION_EXPANSIONS.lookup entry = some leaves) :
    Means entry permission ↔ permission ∈ leaves := by
  unfold Means successors
  rw [h, Option.getD_some, or_iff_right]
  rintro rfl
  rw [not_retired_key] at h
  cases h

theorem means_of_not_retired (h : LEGACY_PERMISSION_EXPANSIONS.lookup entry = none) : Means entry permission ↔ entry = permission.key := by
  unfold Means successors
  simp [h]

theorem expansion_of_not_retired (variableName : String) (h : LEGACY_PERMISSION_EXPANSIONS.lookup entry = none) (hFree : entry ∉ inherited) :
    expansion variableName entry = .ok none := by
  unfold expansion
  rw [h]
  exact if_neg hFree

theorem mem_resolvePresetLeaf {resolved : List String} (h : resolvePresetLeaf leaf = .ok resolved) :
    permission.key ∈ resolved ↔ Means leaf permission := by
  unfold resolvePresetLeaf at h
  obtain ⟨expanded, hExpansion, h⟩ := bind_eq_ok.mp h
  unfold expansion at hExpansion
  cases hRetired : LEGACY_PERMISSION_EXPANSIONS.lookup leaf with
  | some leaves =>
    rw [hRetired] at hExpansion
    cases hExpansion
    cases h
    rw [means_of_lookup hRetired]
    exact List.mem_map_of_injective Permission.key_injective
  | none =>
    rw [hRetired] at hExpansion
    dsimp only at hExpansion
    split at hExpansion
    · cases hExpansion
    · cases hExpansion
      cases h
      rw [means_of_not_retired hRetired, Option.getD_none, List.mem_singleton, eq_comm]

theorem mem_mapM_resolvePresetLeaf {leaves : List String} {resolved : List (List String)}
    (h : leaves.mapM resolvePresetLeaf = .ok resolved) : permission.key ∈ resolved.flatten ↔ ∃ leaf ∈ leaves, Means leaf permission := by
  have hEach := mapM_eq_ok.mp h
  clear h
  induction hEach with
  | nil => simp
  | cons hFirst hRest ih =>
    rw [List.flatten_cons, List.mem_append, List.exists_mem_cons_iff]
    exact or_congr (mem_resolvePresetLeaf hFirst) ih

/-! A text that stands for a bundle gives its characters, which are no permissions. -/

theorem mem_of_lookup {κ α : Type} [BEq κ] [LawfulBEq κ] {entries : List (κ × α)} {key : κ} {value : α}
    (h : entries.lookup key = some value) : (key, value) ∈ entries := by
  obtain ⟨before, after, rfl, -⟩ := List.lookup_eq_some_iff.mp h
  exact List.mem_append_right _ List.mem_cons_self

theorem length_of_isPermission (h : isPermission entry = true) : 1 < entry.length := by
  unfold isPermission at h
  rw [Bool.or_eq_true, decide_eq_true_eq, List.mem_map] at h
  obtain ⟨permission, -, rfl⟩ | hRetired := h
  · cases permission <;> decide
  · obtain ⟨leaves, hLookup⟩ := Option.isSome_iff_exists.mp hRetired
    have hLong : ∀ retired ∈ LEGACY_PERMISSION_EXPANSIONS, 1 < retired.1.length := by decide
    exact hLong _ (mem_of_lookup hLookup)

theorem not_isPermission_character (c : Char) : isPermission (String.singleton c) = false := by
  rw [← Bool.not_eq_true]
  intro h
  have hLength := length_of_isPermission h
  rw [String.length_singleton] at hLength
  omega

theorem not_retired_of_not_isPermission (h : isPermission entry = false) : LEGACY_PERMISSION_EXPANSIONS.lookup entry = none := by
  unfold isPermission at h
  rw [Bool.or_eq_false_iff] at h
  exact Option.isNone_iff_eq_none.mp (by simpa using h.2)

theorem not_means_of_not_isPermission (h : isPermission entry = false) : ¬ Means entry permission := by
  rw [means_of_not_retired (not_retired_of_not_isPermission h)]
  rintro rfl
  unfold isPermission at h
  rw [Bool.or_eq_false_iff, decide_eq_false_iff_not] at h
  exact h.1 (List.mem_map_of_mem (mem_PERMISSIONS permission))

theorem character_not_inherited (c : Char) : String.singleton c ∉ inherited := by
  intro h
  have hLong : ∀ name ∈ inherited, 1 < name.length := by decide
  have hLength := hLong _ h
  rw [String.length_singleton] at hLength
  omega

theorem resolvePresetLeaf_character (c : Char) : resolvePresetLeaf (String.singleton c) = .ok [String.singleton c] := by
  unfold resolvePresetLeaf
  rw [expansion_of_not_retired _ (not_retired_of_not_isPermission (not_isPermission_character c)) (character_not_inherited c)]
  rfl

end Entries

/-! ## Bundles -/

section Bundles

variable {presets : Table PresetRow.key} {context entry : String} {permission : Permission}

theorem perm_getPresets (presets : Table PresetRow.key) :
    ∃ rows : List PresetRow, rows.Perm presets.rows ∧ getPresets presets = rows.map fun row => (row.name, row.permissions) := by
  refine ⟨_, ?_, rfl⟩
  refine ((List.perm_insertionSort _ _).append_right _).trans ?_
  have hRest : ∀ rows : List PresetRow, (rows.filter fun row => (arrayIndex row.name).isNone) =
      rows.filter fun row => !(arrayIndex row.name).isSome :=
    fun rows => List.filter_congr fun row _ => by cases arrayIndex row.name <;> rfl
  rw [hRest]
  exact (List.filter_append_perm _ _).trans (List.perm_insertionSort _ _)

theorem lookup_rows (rows : List PresetRow) (name : String) : (rows.map fun row => (row.name, row.permissions)).lookup name =
    (rows.find? fun row => row.name = name).map PresetRow.permissions := by
  induction rows with
  | nil => rfl
  | cons row rows ih =>
    rw [List.map_cons, List.lookup_cons, List.find?_cons, ih]
    by_cases h : row.name = name
    · simp [h]
    · have hOther : (name == row.name) = false := by simpa using fun hSame : name = row.name => h hSame.symm
      simp [h, hOther]

theorem lookup_getPresets (presets : Table PresetRow.key) (name : String) :
    (getPresets presets).lookup name = (presets.find name).map PresetRow.permissions := by
  obtain ⟨rows, hPerm, hPresets⟩ := perm_getPresets presets
  let sorted : Table PresetRow.key := ⟨rows, (hPerm.map PresetRow.key).nodup_iff.mpr presets.nodup⟩
  have hSame : sorted.find name = presets.find name := by
    apply Option.ext
    intro row
    rw [find_eq_some_iff, find_eq_some_iff]
    exact and_congr_left fun _ => hPerm.mem_iff
  rw [hPresets, lookup_rows, ← hSame]
  rfl

variable {row : PresetRow}

theorem presetOf_of_find (h : presets.find entry = some row) :
    presetOf (getPresets presets) entry = .ok (some row.permissions) := by
  unfold presetOf
  rw [lookup_getPresets, h]
  rfl

theorem presetOf_of_missing (h : presets.find entry = none) {leaves : List String} :
    presetOf (getPresets presets) entry = .ok (some leaves) ↔
      ∃ prototype, presets.find "__proto__" = some prototype ∧ arrayElement prototype.permissions entry = some leaves := by
  unfold presetOf
  rw [lookup_getPresets, lookup_getPresets, h]
  cases hPrototype : presets.find "__proto__" with
  | none => simp
  | some prototype =>
    simp only [Option.map_none, Option.map_some, Option.some.injEq, exists_eq_left']
    split
    · rename_i hMethod
      refine iff_of_false nofun fun hElement => ?_
      have hNoIndex : arrayIndex entry = none := by
        have hMethods : ∀ method ∈ arrayMethods, arrayIndex method = none := by decide
        obtain hMethod | ⟨rfl, -⟩ := hMethod
        · exact hMethods entry hMethod
        · decide
      unfold arrayElement at hElement
      rw [hNoIndex] at hElement
      cases hElement
    · rw [Except.ok.injEq]

theorem characters_of_arrayElement {array leaves : List String} (h : arrayElement array entry = some leaves) :
    ∃ text : String, leaves = text.toList.map String.singleton := by
  unfold arrayElement at h
  split at h
  · rename_i element _
    split at h
    · cases h
    · exact ⟨element, (Option.some.inj h).symm⟩
  · cases h

theorem resolveEntry_of_isPermission (permission : Permission) (presets : PermissionPresets) (context : String) (h : isPermission entry = true) :
    ∃ resolved, resolveEntry presets context entry = .ok resolved ∧ (permission.key ∈ resolved ↔ Means entry permission) := by
  unfold resolveEntry
  by_cases hLeaf : entry ∈ PERMISSIONS.map Permission.key
  · rw [if_pos hLeaf]
    refine ⟨[entry], rfl, ?_⟩
    obtain ⟨other, -, rfl⟩ := List.mem_map.mp hLeaf
    rw [means_key_iff, List.mem_singleton, Permission.key_injective.eq_iff, eq_comm]
  · rw [if_neg hLeaf]
    unfold isPermission at h
    rw [decide_eq_false hLeaf, Bool.false_or] at h
    obtain ⟨leaves, hLookup⟩ := Option.isSome_iff_exists.mp h
    refine ⟨leaves.map Permission.key, ?_, ?_⟩
    · unfold expansion
      rw [hLookup]
      rfl
    · rw [means_of_lookup hLookup]
      exact List.mem_map_of_injective Permission.key_injective

variable {resolved : List String}

theorem resolveEntry_eq_ok_iff {presets : PermissionPresets} (h : isPermission entry = false) :
    resolveEntry presets context entry = .ok resolved ↔ entry ∉ inherited ∧
      ∃ leaves parts, presetOf presets entry = .ok (some leaves) ∧ leaves.mapM resolvePresetLeaf = .ok parts ∧
        resolved = parts.flatten := by
  have hLeaf : entry ∉ PERMISSIONS.map Permission.key := by
    unfold isPermission at h
    rw [Bool.or_eq_false_iff, decide_eq_false_iff_not] at h
    exact h.1
  unfold resolveEntry
  rw [if_neg hLeaf]
  unfold expansion
  rw [not_retired_of_not_isPermission h]
  dsimp only
  by_cases hInherited : entry ∈ inherited
  · rw [if_pos hInherited]
    refine iff_of_false nofun fun hNot => hNot.1 hInherited
  · rw [if_neg hInherited, and_iff_right hInherited]
    cases hFound : presetOf presets entry with
    | error error => exact iff_of_false nofun nofun
    | ok found =>
      cases found with
      | none => exact iff_of_false nofun nofun
      | some leaves =>
        cases hParts : leaves.mapM resolvePresetLeaf with
        | error error => simp [hParts, bind, Except.bind]
        | ok parts => simp [hParts, bind, Except.bind, pure, Except.pure, eq_comm]

def PresetRow.Resolves (row : PresetRow) : Prop := ∃ parts, row.permissions.mapM resolvePresetLeaf = .ok parts

theorem mapM_characters (characters : List Char) : (characters.map String.singleton).mapM resolvePresetLeaf =
    .ok (characters.map fun c => [String.singleton c]) := by
  rw [mapM_eq_ok, List.forall₂_map_left_iff, List.forall₂_map_right_iff]
  exact List.forall₂_same.mpr fun c _ => resolvePresetLeaf_character c

theorem reads_of_find (h : presets.find entry = some row) : row.reads entry = true := by
  unfold PresetRow.reads
  rw [decide_eq_true (key_of_find h), Bool.true_or]

theorem resolves_iff (h : isPermission entry = false) : (∃ resolved, resolveEntry (getPresets presets) context entry = .ok resolved) ↔
    entry ∉ inherited ∧ (∃ row ∈ presets.rows, row.reads entry = true) ∧ ∀ row ∈ presets.rows, row.name = entry → row.Resolves := by
  simp only [resolveEntry_eq_ok_iff h]
  constructor
  · rintro ⟨resolved, hFree, leaves, parts, hFound, hParts, -⟩
    refine ⟨hFree, ?_⟩
    cases hFind : presets.find entry with
    | some row =>
      rw [presetOf_of_find hFind] at hFound
      obtain rfl := Option.some.inj (Except.ok.inj hFound)
      refine ⟨⟨row, mem_of_find hFind, reads_of_find hFind⟩, fun other hOther hName => ?_⟩
      have hSame := (find_eq_some_iff presets entry other).mpr ⟨hOther, hName⟩
      obtain rfl := Option.some.inj (hFind.symm.trans hSame)
      exact ⟨parts, hParts⟩
    | none =>
      obtain ⟨prototype, hPrototype, hElement⟩ := (presetOf_of_missing hFind).mp hFound
      refine ⟨⟨prototype, mem_of_find hPrototype, ?_⟩, fun other hOther hName => ?_⟩
      · unfold PresetRow.reads
        rw [decide_eq_true (key_of_find hPrototype), hElement, Option.isSome_some, Bool.and_true, Bool.or_true]
      · exact absurd hName ((find_eq_none_iff presets entry).mp hFind other hOther)
  · rintro ⟨hFree, ⟨row, hRow, hReads⟩, hResolves⟩
    cases hFind : presets.find entry with
    | some own =>
      obtain ⟨parts, hParts⟩ := hResolves own (mem_of_find hFind) (key_of_find hFind)
      exact ⟨parts.flatten, hFree, own.permissions, parts, presetOf_of_find hFind, hParts, rfl⟩
    | none =>
      have hOther : row.name ≠ entry := (find_eq_none_iff presets entry).mp hFind row hRow
      unfold PresetRow.reads at hReads
      rw [decide_eq_false hOther, Bool.false_or, Bool.and_eq_true, decide_eq_true_eq] at hReads
      obtain ⟨hPrototype, hElement⟩ := hReads
      obtain ⟨leaves, hLeaves⟩ := Option.isSome_iff_exists.mp hElement
      obtain ⟨text, rfl⟩ := characters_of_arrayElement hLeaves
      refine ⟨_, hFree, _, _, (presetOf_of_missing hFind).mpr ⟨row, ?_, hLeaves⟩, mapM_characters _, rfl⟩
      exact (find_eq_some_iff presets "__proto__" row).mpr ⟨hRow, hPrototype⟩

theorem mem_resolveEntry (h : resolveEntry (getPresets presets) context entry = .ok resolved) :
    permission.key ∈ resolved ↔ Means entry permission ∨
      isPermission entry = false ∧ ∃ row ∈ presets.rows, row.name = entry ∧ ∃ leaf ∈ row.permissions, Means leaf permission := by
  cases hPermission : isPermission entry with
  | true =>
    obtain ⟨means, hMeans, hIff⟩ := resolveEntry_of_isPermission permission (getPresets presets) context hPermission
    obtain rfl := Except.ok.inj (h.symm.trans hMeans)
    simp [hIff]
  | false =>
    obtain ⟨-, leaves, parts, hFound, hParts, rfl⟩ := (resolveEntry_eq_ok_iff hPermission).mp h
    rw [mem_mapM_resolvePresetLeaf hParts, or_iff_right (not_means_of_not_isPermission hPermission), and_iff_right rfl]
    cases hFind : presets.find entry with
    | some row =>
      rw [presetOf_of_find hFind] at hFound
      obtain rfl := Option.some.inj (Except.ok.inj hFound)
      constructor
      · exact fun hLeaf => ⟨row, mem_of_find hFind, key_of_find hFind, hLeaf⟩
      · rintro ⟨other, hOther, hName, hLeaf⟩
        have hSame := (find_eq_some_iff presets entry other).mpr ⟨hOther, hName⟩
        obtain rfl := Option.some.inj (hFind.symm.trans hSame)
        exact hLeaf
    | none =>
      obtain ⟨prototype, -, hElement⟩ := (presetOf_of_missing hFind).mp hFound
      obtain ⟨text, rfl⟩ := characters_of_arrayElement hElement
      refine iff_of_false ?_ ?_
      · rintro ⟨leaf, hLeaf, hMeans⟩
        obtain ⟨c, -, rfl⟩ := List.mem_map.mp hLeaf
        exact not_means_of_not_isPermission (not_isPermission_character c) hMeans
      · rintro ⟨row, hRow, hName, -⟩
        exact (find_eq_none_iff presets entry).mp hFind row hRow hName

theorem resolvePermissions_eq {raw : List String} {permissions : List Permission}
    (h : resolvePermissions raw (getPresets presets) context = .ok permissions) : permissions = effectivePermissions presets raw := by
  obtain ⟨resolved, hResolved, h⟩ := bind_eq_ok.mp h
  cases h
  refine List.filter_congr fun permission _ => decide_eq_decide.mpr ?_
  have hEach := mapM_eq_ok.mp hResolved
  have hMem : permission.key ∈ resolved.flatten ↔ ∃ entry ∈ raw, Means entry permission ∨ isPermission entry = false ∧
      ∃ row ∈ presets.rows, row.name = entry ∧ ∃ leaf ∈ row.permissions, Means leaf permission := by
    clear hResolved h
    induction hEach with
    | nil => simp
    | cons hFirst hRest ih =>
      rw [List.flatten_cons, List.mem_append, List.exists_mem_cons_iff]
      exact or_congr (mem_resolveEntry hFirst) ih
  rw [hMem]
  unfold Grants
  constructor
  · rintro ⟨entry, hEntry, hMeans | ⟨hNot, row, hRow, rfl, hLeaf⟩⟩
    · exact .inl ⟨entry, hEntry, hMeans⟩
    · exact .inr ⟨row, hRow, hEntry, hNot, hLeaf⟩
  · rintro (⟨entry, hEntry, hMeans⟩ | ⟨row, hRow, hEntry, hNot, hLeaf⟩)
    · exact ⟨entry, hEntry, .inl hMeans⟩
    · exact ⟨row.name, hEntry, .inr ⟨hNot, row, hRow, rfl, hLeaf⟩⟩

end Bundles

/-! ## Members -/

section Rows

variable {cipher : Option FieldCipher} {stores : Stores} {row : StoredMember}

theorem resolvePermissions_isOk_iff {raw : List String} {presets : PermissionPresets} {context : String} :
    (∃ permissions, resolvePermissions raw presets context = .ok permissions) ↔
      ∀ entry ∈ raw, ∃ resolved, resolveEntry presets context entry = .ok resolved := by
  constructor
  · rintro ⟨permissions, h⟩
    obtain ⟨resolved, hResolved, -⟩ := bind_eq_ok.mp h
    exact exists_of_mapM_eq_ok hResolved
  · intro h
    cases hResolved : raw.mapM (resolveEntry presets context) with
    | ok resolved => exact ⟨_, bind_eq_ok.mpr ⟨resolved, hResolved, rfl⟩⟩
    | error error =>
      obtain ⟨before, entry, after, rfl, -, hError⟩ := mapM_eq_error.mp hResolved
      obtain ⟨resolved, hOk⟩ := h entry (List.mem_append_right _ List.mem_cons_self)
      rw [hError] at hOk
      cases hOk

variable {member : LoadedMember}

theorem rowToLoaded_eq_ok_iff {presets : Table PresetRow.key} :
    rowToLoaded cipher presets row = .ok member ↔ ∃ permissions secret,
      resolvePermissions row.rawPermissions (getPresets presets) s!"member '{row.name.text}'" = .ok permissions ∧
        decryptTotpSecret cipher row.totpSecret = .ok secret ∧
        member = ⟨⟨⟨row.name, permissions⟩, row.role, row.instructions, row.rawPermissions⟩, secret, row.totpLastCounter⟩ := by
  unfold rowToLoaded Members.rowToLoaded
  cases resolvePermissions row.rawPermissions (getPresets presets) s!"member '{row.name.text}'" with
  | error error => simp [bind, Except.bind, Except.mapError]
  | ok permissions =>
    cases decryptTotpSecret cipher row.totpSecret with
    | error error => simp [bind, Except.bind, Except.mapError, pure, Except.pure]
    | ok secret => simp [bind, Except.bind, Except.mapError, pure, Except.pure, eq_comm]

theorem readAs_of_rowToLoaded (h : rowToLoaded cipher stores.presets row = .ok member) : ReadAs stores row member := by
  obtain ⟨permissions, secret, hResolved, -, rfl⟩ := rowToLoaded_eq_ok_iff.mp h
  exact ⟨rfl, resolvePermissions_eq hResolved⟩

theorem findByName_of_find {name : Name} (h : stores.members.find name = some row) :
    findByName cipher stores name = (rowToLoaded cipher stores.presets row).map some := by
  unfold findByName
  rw [h]

theorem findByName_of_mem (h : row ∈ stores.members.rows) :
    findByName cipher stores row.name = (rowToLoaded cipher stores.presets row).map some :=
  findByName_of_find (find_key h)

theorem readable_iff_rows : Readable cipher stores ↔
    ∀ row ∈ stores.members.rows, ∃ member, rowToLoaded cipher stores.presets row = .ok member := by
  constructor
  · rintro ⟨-, all, hAll, -⟩ row hRow
    exact exists_of_mapM_eq_ok hAll row hRow
  · intro h
    refine ⟨fun row hRow => ?_, ?_⟩
    · obtain ⟨member, hMember⟩ := h row hRow
      refine ⟨member, ?_, readAs_of_rowToLoaded hMember⟩
      rw [findByName_of_mem hRow, hMember]
      rfl
    · cases hAll : members cipher stores with
      | error error =>
        obtain ⟨before, row, after, hRows, -, hError⟩ := mapM_eq_error.mp hAll
        obtain ⟨member, hMember⟩ := h row (hRows ▸ List.mem_append_right _ List.mem_cons_self)
        rw [hError] at hMember
        cases hMember
      | ok all => exact ⟨all, rfl, (mapM_eq_ok.mp hAll).imp fun row member hMember => readAs_of_rowToLoaded hMember⟩

end Rows

/-! ## Steps -/

section Steps

variable {cipher : Option FieldCipher} {stores after : Stores} {call : Call}

theorem spares_iff : spares stores call = true ↔ ∀ member ∈ stores.members.rows, ∀ entry ∈ member.rawPermissions,
    isPermission entry = true ∨ ∃ row ∈ standing stores.presets call, row.reads entry = true := by
  simp [spares]

variable {presets : Table PresetRow.key}

theorem readable_presets_iff (h : Readable cipher stores)
    (hRows : ∀ row ∈ presets.rows, row ∈ stores.presets.rows ∨ row.Resolves) :
    Readable cipher { stores with presets := presets } ↔ ∀ member ∈ stores.members.rows, ∀ entry ∈ member.rawPermissions,
      isPermission entry = true ∨ ∃ row ∈ presets.rows, row.reads entry = true := by
  rw [readable_iff_rows] at h ⊢
  refine forall₂_congr fun member hMember => ?_
  obtain ⟨loaded, hLoaded⟩ := h member hMember
  obtain ⟨permissions, secret, hResolved, hSecret, -⟩ := rowToLoaded_eq_ok_iff.mp hLoaded
  have hOk : (∃ member', rowToLoaded cipher presets member = .ok member') ↔
      ∃ permissions, resolvePermissions member.rawPermissions (getPresets presets) s!"member '{member.name.text}'" = .ok permissions := by
    simp [rowToLoaded_eq_ok_iff, hSecret]
  rw [hOk, resolvePermissions_isOk_iff]
  refine forall₂_congr fun entry hEntry => ?_
  cases hPermission : isPermission entry with
  | true =>
    obtain ⟨resolved, hEntryOk, -⟩ :=
      resolveEntry_of_isPermission .teamManage (getPresets presets) s!"member '{member.name.text}'" hPermission
    exact iff_of_true ⟨resolved, hEntryOk⟩ (.inl rfl)
  | false =>
    have hBefore := (resolves_iff hPermission).mp (resolvePermissions_isOk_iff.mp ⟨permissions, hResolved⟩ entry hEntry)
    obtain ⟨hFree, -, hResolves⟩ := hBefore
    rw [resolves_iff hPermission, and_iff_right hFree, and_iff_left_iff_imp.mpr]
    · simp
    · rintro - row hRow hName
      obtain hOld | hNew := hRows row hRow
      · exact hResolves row hOld hName
      · exact hNew

variable {name : String} {permissions : List String}

theorem mem_upsert {row : PresetRow} :
    row ∈ ((presets.insertOrIgnore ⟨name, permissions⟩).update (fun row => row.name = name)
      (fun row => { row with permissions := permissions }) fun _ => rfl).rows ↔
        row ∈ standing presets (.setPreset name permissions) := by
  have hFind := find_update (presets.insertOrIgnore ⟨name, permissions⟩) (fun row => row.name = name)
    (fun row => { row with permissions := permissions }) (fun _ => rfl) row.name
  rw [find_insertOrIgnore] at hFind
  have hMem := find_eq_some_iff ((presets.insertOrIgnore ⟨name, permissions⟩).update (fun row => row.name = name)
    (fun row => { row with permissions := permissions }) fun _ => rfl) row.name row
  rw [and_iff_left rfl] at hMem
  rw [← hMem, hFind]
  unfold standing
  rw [List.mem_cons, mem_select_iff_find]
  by_cases hName : row.name = name
  · subst hName
    cases hOld : presets.find row.name with
    | none => simp [eq_comm]
    | some other =>
      have hKey : other.name = row.name := key_of_find hOld
      simp [hKey, eq_comm]
  · have hOther : ¬ name = row.name := fun hSame => hName hSame.symm
    have hNe : row ≠ ⟨name, permissions⟩ := fun hSame => hName (congrArg PresetRow.name hSame)
    cases hOld : presets.find row.name with
    | none => simp [hOther, hNe]
    | some other =>
      have hKey : other.name = row.name := key_of_find hOld
      simp [hKey, hName, hNe]

theorem resolves_of_valid (h : validatePermissionPreset name permissions = .ok ()) :
    (⟨name, permissions⟩ : PresetRow).Resolves := by
  have hLeaves : ∀ leaf ∈ permissions, leaf ∈ PERMISSIONS.map Permission.key := by
    unfold validatePermissionPreset at h
    by_contra hNot
    push Not at hNot
    obtain ⟨leaf, hLeaf, hOther⟩ := hNot
    have hAll : (permissions.all fun leaf => decide (leaf ∈ PERMISSIONS.map Permission.key)) = false := by
      rw [← Bool.not_eq_true, List.all_eq_true]
      exact fun hEvery => hOther (of_decide_eq_true (hEvery leaf hLeaf))
    rw [hAll, Bool.and_false, Bool.not_false] at h
    revert h
    cases !presetNameSchema name <;> nofun
  refine ⟨permissions.map fun leaf => [leaf], mapM_eq_ok.mpr ?_⟩
  rw [List.forall₂_map_right_iff]
  refine List.forall₂_same.mpr fun leaf hLeaf => ?_
  obtain ⟨permission, -, rfl⟩ := List.mem_map.mp (hLeaves leaf hLeaf)
  unfold resolvePresetLeaf
  rw [expansion_of_not_retired _ (not_retired_key permission) (key_not_inherited permission)]
  rfl

/-- A call about one member leaves the bundles and the other rows. -/
def Touches (name : Name) (before after : Stores) : Prop :=
  after.presets = before.presets ∧ ∀ row ∈ after.members.rows, row ∈ before.members.rows ∨ row.name = name

instance (name : Name) : Std.Refl (Touches name) := ⟨fun _ => ⟨rfl, fun _ hRow => .inl hRow⟩⟩

instance (name : Name) : IsTrans Stores (Touches name) := by
  refine ⟨fun first second third hFirst hSecond => ⟨hSecond.1.trans hFirst.1, fun row hRow => ?_⟩⟩
  obtain hOld | hName := hSecond.2 row hRow
  · exact hFirst.2 row hOld
  · exact .inr hName

def Read (cipher : Option FieldCipher) (name : Name) (after : Stores) : Prop := ∃ found, findByName cipher after name = .ok found

theorem readable_of_touches {name : Name} (h : Readable cipher stores) (hTouches : Touches name stores after) (hRead : Read cipher name after) :
    Readable cipher after := by
  rw [readable_iff_rows] at h ⊢
  intro row hRow
  by_cases hName : row.name = name
  · obtain ⟨found, hFound⟩ := hRead
    rw [← hName, findByName_of_mem hRow] at hFound
    cases hLoaded : rowToLoaded cipher after.presets row with
    | ok member => exact ⟨member, rfl⟩
    | error error =>
      rw [hLoaded] at hFound
      cases hFound
  · rw [hTouches.1]
    exact h row ((hTouches.2 row hRow).resolve_right hName)

section Members

variable {name : Name}

theorem keeps_writeMembers {f : Table StoredMember.key → Table StoredMember.key}
    (h : ∀ row ∈ (f stores.members).rows, row ∈ stores.members.rows ∨ row.name = name) :
    Keeps (Touches name) (writeMembers f) stores fun _ _ => True :=
  keeps_update ⟨rfl, h⟩ trivial

theorem keeps_writeMembers_update {p : StoredMember → Bool} {f : StoredMember → StoredMember} {keeps : ∀ row, (f row).name = row.name}
    (h : ∀ row, p row = true → row.name = name) :
    Keeps (Touches name) (writeMembers fun members => members.update p f keeps) stores fun _ _ => True := by
  refine keeps_writeMembers fun row hRow => ?_
  obtain ⟨old, hOld, rfl⟩ := List.mem_map.mp hRow
  split
  · rename_i hNamed
    exact .inr ((keeps old).trans (h old hNamed))
  · exact .inl hOld

variable {K : Stores → Stores → Prop}

theorem keeps_readBack [Std.Refl K] (message : String) :
    Keeps K (readBack cipher name message) stores fun _ => Read cipher name := by
  unfold readBack
  rw [keeps_reads_bind]
  refine keeps_fromExcept_bind _ fun found hFound => ?_
  cases found with
  | none => exact keeps_throw _
  | some member => exact keeps_pure ⟨some member, hFound⟩

theorem keeps_requireMember [Std.Refl K] : Keeps K (requireMember name) stores fun _ _ => True := by
  unfold requireMember
  rw [keeps_reads_bind]
  cases (stores.members.find name).isSome with
  | true => exact keeps_pure trivial
  | false => exact keeps_throw _

theorem keeps_checkSecret [Std.Refl K] (secret : Option String) : Keeps K (checkSecret secret) stores fun _ _ => True := by
  cases secret with
  | none => exact keeps_pure trivial
  | some secret =>
    change Keeps K (checks (validateTotpSecret secret)) stores fun _ _ => True
    unfold checks
    cases (validateTotpSecret secret).mapError StoreError.load with
    | ok valid => exact keeps_pure trivial
    | error error => exact keeps_throw _

theorem keeps_addMember (input : AddMemberInput) (iv : Nat) :
    Keeps (Touches input.name) (addMember cipher input iv) stores fun _ => Read cipher input.name := by
  refine keeps_fromExcept_bind _ fun _ _ => (keeps_checkSecret input.totpSecret).bind fun _ _ _ _ => ?_
  rw [keeps_reads_bind]
  refine keeps_require_bind _ fun _ => ?_
  rw [keeps_reads_bind]
  refine keeps_fromExcept_bind _ fun _ _ => (keeps_writeMembers fun row hRow => ?_).bind fun _ _ _ _ => keeps_readBack _
  rw [rows_insertOrIgnore] at hRow
  split at hRow
  · obtain hOld | hNew := List.mem_append.mp hRow
    · exact .inl hOld
    · exact .inr (congrArg (fun row : StoredMember => row.name) (List.mem_singleton.mp hNew))
  · exact .inl hRow

theorem keeps_removeMember : Keeps (Touches name) (removeMember name) stores fun _ => Read cipher name := by
  refine keeps_requireMember.bind fun _ stores' _ _ => keeps_update ⟨rfl, fun row hRow => .inl (List.mem_filter.mp hRow).1⟩ ⟨none, ?_⟩
  unfold findByName
  have hGone : (stores'.members.delete fun row => row.name = name).find name = none := by
    rw [find_eq_none_iff]
    rintro row hRow hName
    simpa [hName] using (List.mem_filter.mp hRow).2
  rw [hGone]

theorem keeps_updateMember (patch : UpdateMemberPatch) :
    Keeps (Touches name) (updateMember cipher name patch) stores fun _ => Read cipher name := by
  have hWrites : ∀ stores', Keeps (Touches name) (do
      writeMembers fun members => members.update (fun row => row.name = name)
        (fun row => { row with toMemberRow := patch.apply row.toMemberRow }) fun _ => rfl
      readBack cipher name s!"updateMember: row vanished mid-update (name='{name.text}')") stores' fun _ => Read cipher name :=
    fun stores' => (keeps_writeMembers_update fun row hNamed => of_decide_eq_true hNamed).bind fun _ _ _ _ => keeps_readBack _
  refine keeps_requireMember.bind fun _ stores' _ _ => ?_
  cases hRaw : patch.rawPermissions with
  | none => exact hWrites stores'
  | some raw =>
    refine keeps_fromExcept_bind _ fun _ _ => ?_
    dsimp only
    rw [keeps_reads_bind]
    exact keeps_fromExcept_bind _ fun _ _ => hWrites stores'

theorem keeps_setTotpSecret (secret : Option String) (iv : Nat) :
    Keeps (Touches name) (setTotpSecret cipher name secret iv) stores fun _ => Read cipher name := by
  refine keeps_requireMember.bind fun _ _ _ _ => (keeps_checkSecret secret).bind fun _ _ _ _ => ?_
  exact (keeps_writeMembers_update fun row hNamed => of_decide_eq_true hNamed).bind fun _ _ _ _ => keeps_readBack _

theorem keeps_recordTotpAccept (counter : Int) :
    Keeps (Touches name) (recordTotpAccept cipher name counter) stores fun _ => Read cipher name := by
  have hNamed : ∀ row : StoredMember, (decide (row.name = name) && decide (row.totpLastCounter < counter)) = true → row.name = name :=
    fun row h => of_decide_eq_true (Bool.and_eq_true_iff.mp h).1
  refine (keeps_writeMembers_update hNamed).bind fun _ stores' _ _ => ?_
  rw [keeps_reads_bind]
  dsimp only [id]
  cases hFound : findByName cipher stores' name with
  | ok found => exact keeps_pure ⟨found, hFound⟩
  | error error => exact keeps_throw _

end Members

theorem readable_presets_of_mem (h : Readable cipher stores)
    (hRows : ∀ row ∈ presets.rows, row ∈ stores.presets.rows ∨ row.Resolves)
    (hMem : ∀ row, row ∈ presets.rows ↔ row ∈ standing stores.presets call) :
    Readable cipher { stores with presets := presets } ↔ spares stores call = true := by
  rw [readable_presets_iff h hRows, spares_iff]
  simp only [hMem]

variable {outcome : Unit}

theorem readable_of_keeps {name : Name} {program : StoresM Unit} (h : Readable cipher stores)
    (hKeeps : Keeps (Touches name) program stores fun _ => Read cipher name)
    (hOk : (run program stores).1 = .ok outcome) : Readable cipher (run program stores).2 := by
  obtain ⟨hTouches, hRead⟩ := (ends_iff_run _).mp hKeeps
  exact readable_of_touches h hTouches (hRead outcome hOk)

theorem readable_serve_iff (h : Readable cipher stores) (hOk : (serve cipher stores call).2 = .ok outcome) :
    Readable cipher (serve cipher stores call).1 ↔ spares stores call = true := by
  have hSame : standing stores.presets call = stores.presets.rows → spares stores call = true := fun hStanding =>
    (readable_presets_of_mem h (fun row hRow => .inl hRow) fun row => by rw [hStanding]).mp h
  have hMember : ∀ {name : Name}, standing stores.presets call = stores.presets.rows →
      Keeps (Touches name) (call.program cipher) stores (fun _ => Read cipher name) →
      (Readable cipher (serve cipher stores call).1 ↔ spares stores call = true) :=
    fun hStanding hKeeps => iff_of_true (readable_of_keeps h hKeeps hOk) (hSame hStanding)
  cases call with
  | addMember input iv => exact hMember rfl ((keeps_addMember input iv).bind fun _ _ _ hRead => keeps_pure hRead)
  | updateMember name patch => exact hMember rfl ((keeps_updateMember patch).bind fun _ _ _ hRead => keeps_pure hRead)
  | removeMember name => exact hMember rfl keeps_removeMember
  | setTotpSecret name secret iv => exact hMember rfl ((keeps_setTotpSecret secret iv).bind fun _ _ _ hRead => keeps_pure hRead)
  | recordTotpAccept name counter => exact hMember rfl ((keeps_recordTotpAccept counter).bind fun _ _ _ hRead => keeps_pure hRead)
  | setPreset name permissions =>
    cases hValid : validatePermissionPreset name permissions with
    | error error =>
      have hFailed : (serve cipher stores (.setPreset name permissions)).2 = .error (.load error) := by
        simp only [serve, Call.program, setPreset, checks, hValid]
        rfl
      rw [hFailed] at hOk
      cases hOk
    | ok valid =>
      have hAfter : (serve cipher stores (.setPreset name permissions)).1 = { stores with
          presets := (stores.presets.insertOrIgnore ⟨name, permissions⟩).update (fun row => row.name = name)
            (fun row => { row with permissions := permissions }) fun _ => rfl } := by
        simp only [serve, Call.program, setPreset, checks, hValid]
        rfl
      rw [hAfter]
      refine readable_presets_of_mem h (fun row hRow => ?_) fun row => mem_upsert
      obtain rfl | hOld := List.mem_cons.mp (mem_upsert.mp hRow)
      · exact .inr (resolves_of_valid hValid)
      · exact .inl (List.mem_filter.mp hOld).1
  | deletePreset name =>
    have hAfter : (serve cipher stores (.deletePreset name)).1 =
        { stores with presets := stores.presets.delete fun row => row.name = name } := rfl
    rw [hAfter]
    refine readable_presets_of_mem h (fun row hRow => .inl (List.mem_filter.mp hRow).1) fun row => ?_
    simp [delete, standing, select]

end Steps

/-! ## Runs -/

theorem readable_empty (cipher : Option FieldCipher) : Readable cipher .empty := readable_iff_rows.mpr nofun

/-- The roster stays readable in exactly the runs whose calls spare the rows that are read. -/
theorem stays_readable_iff (cipher : Option FieldCipher) {stores : Stores} (h : Readable cipher stores) {calls : List Call}
    (hSucceed : ∀ step ∈ run (serve cipher) stores calls, step.output = .ok ()) :
    (∀ step ∈ run (serve cipher) stores calls, Readable cipher step.after) ↔
      ∀ step ∈ run (serve cipher) stores calls, spares step.before step.input = true :=
  forall_after_iff_of (P := fun _ => True) (fun _ _ _ => trivial)
    (fun _ _ _ hReadable hOk => readable_serve_iff hReadable hOk) trivial h hSucceed

/-! A bundle is replaced, and then deleted, while somebody names it. -/

def ada : Name := ⟨"ada", .refl true⟩

def namesOps (call : Call) : List Call :=
  [.setPreset "ops" ["team.manage"], .addMember ⟨⟨ada, ⟨"Operator", "", by decide⟩, "", ["ops"]⟩, none⟩ 0, call]

theorem readable_setPreset :
    (∀ step ∈ run (serve none) .empty (namesOps (.setPreset "ops" ["members.manage"])), step.output = .ok ()) ∧
      ∀ step ∈ run (serve none) .empty (namesOps (.setPreset "ops" ["members.manage"])), Readable none step.after := by
  have hSucceed : ∀ step ∈ run (serve none) .empty (namesOps (.setPreset "ops" ["members.manage"])),
      step.output = .ok () := by
    simp only [namesOps, run_cons, List.forall_mem_cons]
    exact ⟨rfl, rfl, rfl, nofun⟩
  exact ⟨hSucceed, (stays_readable_iff none (readable_empty none) hSucceed).mpr (by decide)⟩

theorem unreadable_deletePreset : ¬ ∀ (cipher : Option FieldCipher) (calls : List Call),
    (∀ step ∈ run (serve cipher) .empty calls, step.output = .ok ()) →
      ∀ step ∈ run (serve cipher) .empty calls, Readable cipher step.after := by
  intro h
  have hRun := h none (namesOps (.deletePreset "ops"))
  simp only [namesOps, run_cons, List.forall_mem_cons] at hRun
  obtain ⟨-, -, hReadable, -⟩ := hRun ⟨rfl, rfl, rfl, nofun⟩
  obtain ⟨all, hAll, -⟩ := hReadable.listed
  cases hAll

end CommandSuite.TeamStore
