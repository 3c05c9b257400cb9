import CommandSuite.Core.Files.FilesystemStore

/-! # Scopes

Whose the paths of the tree are, and how far the permission to write reaches down it.
-/

namespace CommandSuite.Files

open Library Database

/-- Whose a path is. The root and the bare namespace directory are nobody's. -/
inductive Scope where
  | shared
  | home (member : String)
  | objective (id : String)

def scopeOf (path : Path) : Scope :=
  match path.segments with
  | [] => .shared
  | first :: rest =>
    if first = OBJECTIVE_NAMESPACE_SEGMENT then
      match rest with
      | [] => .shared
      | id :: _ => .objective id
    else .home first

/-- Another member's home, or an objective the viewer is not a member of. -/
def Foreign (acl : ObjectiveAcl) (viewer : ViewerContext) (path : Path) : Prop :=
  match scopeOf path with
  | .shared => False
  | .home member => member ≠ viewer.name.text
  | .objective id => ¬∃ isMember, acl = some isMember ∧ isMember id viewer.name.text = true

/-- The directories whose children belong to scopes of their own. -/
def HoldsScopes (path : Path) : Prop := path.segments = [] ∨ path.segments = [OBJECTIVE_NAMESPACE_SEGMENT]

section Scopes

variable {acl : ObjectiveAcl} {viewer : ViewerContext} {path other : Path}

theorem owner_ne_name (id : String) (name : Name) : OBJECTIVE_OWNER_PREFIX ++ id ≠ name.text := by
  intro h
  have hColon : ':' ∈ name.text.toList := by
    rw [← h, String.toList_append]
    exact List.mem_append_left _ (by decide)
  exact name.not_mem_of_not_nameCharacter (by decide) hColon

theorem segments_cases (path : Path) :
    path.segments = [] ∨ path.segments = [OBJECTIVE_NAMESPACE_SEGMENT] ∨
      (∃ id rest, path.segments = OBJECTIVE_NAMESPACE_SEGMENT :: id :: rest) ∨
        ∃ first rest, first ≠ OBJECTIVE_NAMESPACE_SEGMENT ∧ path.segments = first :: rest := by
  rcases path.segments with _ | ⟨first, rest⟩
  · exact .inl rfl
  · by_cases hFirst : first = OBJECTIVE_NAMESPACE_SEGMENT
    · subst hFirst
      cases rest with
      | nil => exact .inr (.inl rfl)
      | cons id rest => exact .inr (.inr (.inl ⟨id, rest, rfl⟩))
    · exact .inr (.inr (.inr ⟨first, rest, hFirst, rfl⟩))

theorem not_foreign_of_ownsPath (h : ownsPath path viewer = true) : ¬Foreign acl viewer path := by
  simp only [ownsPath, ne_eq, decide_not, Bool.and_eq_true, decide_eq_true_eq] at h
  have hOwner := h.2
  rcases segments_cases path with hRoot | hBare | ⟨id, rest, hObjective⟩ | ⟨first, rest, hHome, hFirst⟩
  · simp [Foreign, scopeOf, hRoot]
  · simp [Foreign, scopeOf, hBare]
  · simp only [ownerOf, hObjective, if_true, Option.some.injEq] at hOwner
    exact absurd hOwner (owner_ne_name id viewer.name)
  · simp only [ownerOf, hFirst, if_neg hHome, Option.some.injEq] at hOwner
    simp only [Foreign, scopeOf, hFirst, if_neg hHome]
    exact not_not_intro hOwner

theorem not_foreign_of_isObjectiveMember (h : isObjectiveMember acl path viewer = true) : ¬Foreign acl viewer path := by
  cases acl with
  | none => cases h
  | some isMember =>
    rcases segments_cases path with hRoot | hBare | ⟨id, rest, hObjective⟩ | ⟨first, rest, hHome, hFirst⟩
    · simp [Foreign, scopeOf, hRoot]
    · simp [Foreign, scopeOf, hBare]
    · simp only [isObjectiveMember, parseObjectiveNamespacePath, hObjective, if_true] at h
      simp [Foreign, scopeOf, hObjective, h]
    · exfalso
      cases rest <;> simp [isObjectiveMember, parseObjectiveNamespacePath, hFirst, hHome] at h

/-- Without `members.manage`, what may be written is one's own or an objective's one is in. -/
theorem not_foreign_of_canWrite (hManages : manages viewer = false) (h : canWrite acl path viewer = true) :
    ¬Foreign acl viewer path := by
  simp only [canWrite, hManages, Bool.false_or, Bool.or_eq_true] at h
  exact h.elim not_foreign_of_ownsPath not_foreign_of_isObjectiveMember

theorem canRead_eq (db : Database) :
    canRead acl path viewer db = (canWrite acl path viewer || db.hasGrant path viewer.name.text) := rfl

theorem not_foreign_above (hPrefix : path.segments <+: other.segments) (h : ¬Foreign acl viewer other) :
    ¬Foreign acl viewer path := by
  obtain ⟨rest, hRest⟩ := hPrefix
  rcases segments_cases path with hRoot | hBare | ⟨id, tail, hObjective⟩ | ⟨first, tail, hHome, hFirst⟩
  · simp [Foreign, scopeOf, hRoot]
  · simp [Foreign, scopeOf, hBare]
  · have hOther : other.segments = OBJECTIVE_NAMESPACE_SEGMENT :: id :: (tail ++ rest) := by rw [← hRest, hObjective]; rfl
    simp only [Foreign, scopeOf, hOther, if_true] at h
    simpa only [Foreign, scopeOf, hObjective, if_true] using h
  · have hOther : other.segments = first :: (tail ++ rest) := by rw [← hRest, hFirst]; rfl
    simp only [Foreign, scopeOf, hOther, if_neg hHome] at h
    simpa only [Foreign, scopeOf, hFirst, if_neg hHome] using h

theorem canWrite_below (hPrefix : path.segments <+: other.segments) (hScope : ¬HoldsScopes path) :
    canWrite acl other viewer = canWrite acl path viewer := by
  obtain ⟨rest, hRest⟩ := hPrefix
  have hNotRoot : path ≠ ROOT_PATH := by
    rintro rfl
    exact hScope (.inl rfl)
  have hOtherRoot : other ≠ ROOT_PATH := by
    rintro rfl
    exact hNotRoot (Path.ext (List.append_eq_nil_iff.mp hRest).1)
  rcases segments_cases path with hRoot | hBare | ⟨id, tail, hObjective⟩ | ⟨first, tail, hHome, hFirst⟩
  · exact absurd (.inl hRoot) hScope
  · exact absurd (.inr hBare) hScope
  · have hOther : other.segments = OBJECTIVE_NAMESPACE_SEGMENT :: id :: (tail ++ rest) := by rw [← hRest, hObjective]; rfl
    cases acl <;> simp [canWrite, ownsPath, ownerOf, isObjectiveMember, parseObjectiveNamespacePath, hObjective, hOther,
      hNotRoot, hOtherRoot]
  · have hOther : other.segments = first :: (tail ++ rest) := by rw [← hRest, hFirst]; rfl
    have hOutside : isObjectiveMember acl path viewer = false ∧ isObjectiveMember acl other viewer = false := by
      constructor
      · cases acl <;> cases tail <;> simp [isObjectiveMember, parseObjectiveNamespacePath, hFirst, hHome]
      · cases acl <;> cases hTail : tail ++ rest <;>
          simp [isObjectiveMember, parseObjectiveNamespacePath, hOther, hTail, hHome]
    simp [canWrite, hOutside, ownsPath, ownerOf, hFirst, hOther, hHome, hNotRoot, hOtherRoot]

end Scopes

end CommandSuite.Files
