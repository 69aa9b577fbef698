import Mathlib.Tactic
import TagTypes.Proofs.Json.Legible
import TagTypes.Proofs.TagStore.Memory
import TagTypes.Proofs.Text.Sorted

/-!
# Imports that overwrite

An import that overwrites puts each definition at its path, if it has one, whatever the store holds. It takes no definition away and leaves all other paths alone.
-/

namespace TagTypes.Tags

variable {tags : Tags} {folder path : String} {definition : Json} {definitions : List Json}

/-! ### Definitions at paths -/

theorem config?_eq_some_iff {v : Json} :
    tags.config? path = some v ↔ tags.get? (TagPath.normalize path) = some v ∧ v ≠ .null := by
  unfold config?
  split
  · rename_i hnull
    rw [hnull]
    constructor
    · intro h
      cases h
    · intro hfound
      obtain ⟨heq, hne⟩ := hfound
      exact absurd (Option.some.inj heq).symm hne
  · rename_i hnull
    constructor
    · intro hv
      refine ⟨hv, ?_⟩
      intro hsame
      subst hsame
      exact hnull hv
    · exact fun h => h.1

theorem config?_eq_none (hpath : tags.get? (TagPath.normalize path) = none) : tags.config? path = none := by
  unfold config?
  rw [hpath]

theorem config?_insert {v : Json} (hv : v ≠ .null) (stored : String) :
    Tags.config? (tags.insert stored v) path =
      if stored = TagPath.normalize path then some v else tags.config? path := by
  unfold config?
  rw [Dict.get?_insert]
  by_cases hpath : stored = TagPath.normalize path
  · rw [if_pos hpath, if_pos hpath]
    split
    · rename_i hnull
      exact absurd (Option.some.inj hnull) hv
    · rfl
  · rw [if_neg hpath, if_neg hpath]

theorem config?_erase (removed : String) :
    Tags.config? (tags.erase removed) path = if removed = TagPath.normalize path then none else tags.config? path := by
  unfold config?
  rw [Dict.get?_erase]
  by_cases hpath : removed = TagPath.normalize path
  · rw [if_pos hpath, if_pos hpath]
  · rw [if_neg hpath, if_neg hpath]

theorem config?_congr {others : Tags} (hsame : tags.get? = others.get?) : tags.config? = others.config? := by
  funext path
  unfold config?
  rw [hsame]

theorem contains_of_config? (hpath : (tags.config? path).isSome = true) :
    tags.contains (TagPath.normalize path) = true := by
  obtain ⟨v, hv⟩ := Option.isSome_iff_exists.1 hpath
  exact Dict.contains_iff.2 ⟨v, (config?_eq_some_iff.1 hv).1⟩

/-- A folder shows the names of the tags at the paths in it. -/
theorem mem_browse {name : String} :
    name ∈ tags.browse folder ↔
      '/' ∉ name.toList ∧ (tags.get? (TagPath.inFolder (TagPath.normalize folder) name)).isSome = true := by
  rw [browse, Text.mem_sorted, List.mem_filterMap]
  simp only [TagPath.nameIn?_eq_some_iff, Dict.mem_keys_iff]
  constructor
  · rintro ⟨path, hpath, hslash, rfl⟩
    exact ⟨hslash, hpath⟩
  · rintro ⟨hslash, hpath⟩
    exact ⟨_, hpath, hslash, rfl⟩

/-- A folder shows each name once. -/
theorem nodup_browse (tags : Tags) (folder : String) : (tags.browse folder).Nodup := by
  refine Text.nodup_sorted (List.Nodup.filterMap (fun path other name hpath hother => ?_) tags.nodup)
  exact (TagPath.nameIn?_eq_some_iff.1 hpath).2.symm.trans (TagPath.nameIn?_eq_some_iff.1 hother).2

/-! ### One definition -/

/-- Where a definition is put in a folder in normal form, if it can be put there. -/
def importPath? (folder : String) (definition : Json) : Option String :=
  match importName? definition with
  | none => none
  | some name => if name.toList.contains '/' then none else some (TagPath.inFolder folder name)

/-- A definition that cannot be put anywhere is rejected; where its path is taken, the policy decides. -/
theorem admission_eq (tags : Tags) (policy : CollisionPolicy) (folder : String) (definition : Json) :
    tags.admission policy folder definition =
      match importPath? folder definition with
      | none => .settled .bad
      | some path =>
        if tags.contains path then
          match policy with
          | .abort => .settled .bad
          | .ignore => .settled .good
          | .overwrite => .store path
        else .store path := by
  unfold admission importPath?
  cases importName? definition with
  | none => rfl
  | some name =>
    simp only
    cases name.toList.contains '/' with
    | true => rfl
    | false => rfl

theorem importPath?_of_admission {policy : CollisionPolicy} (hadmission : tags.admission policy folder definition = .store path) :
    importPath? folder definition = some path := by
  rw [admission_eq] at hadmission
  split at hadmission
  · cases hadmission
  · rename_i other hother
    rw [hother]
    split at hadmission
    · cases policy <;> cases hadmission
      rfl
    · cases hadmission
      rfl

theorem admission_overwrite (tags : Tags) (folder : String) (definition : Json) :
    tags.admission .overwrite folder definition =
      match importPath? folder definition with
      | some path => .store path
      | none => .settled .bad := by
  rw [admission_eq]
  cases importPath? folder definition with
  | none => rfl
  | some path => exact ite_self _

theorem ne_null_of_importPath? (hpath : importPath? folder definition = some path) : definition ≠ .null := by
  intro heq
  subst heq
  cases hpath

def put (folder : String) (tags : Tags) (definition : Json) : Tags :=
  match importPath? folder definition with
  | some path => tags.insert path definition
  | none => tags

def verdict (folder : String) (definition : Json) : Quality :=
  if (importPath? folder definition).isSome then .good else .bad

theorem get?_put : (put folder tags definition).get? path =
    if importPath? folder definition = some path then some definition else tags.get? path := by
  unfold put
  cases importPath? folder definition with
  | none => simp
  | some other => simp

theorem get?_put_of_ne (hpath : importPath? folder definition ≠ some path) :
    (put folder tags definition).get? path = tags.get? path := by
  rw [get?_put, if_neg hpath]

theorem isSome_config?_put (hpath : (tags.config? path).isSome = true) :
    ((put folder tags definition).config? path).isSome = true := by
  unfold put
  split
  · rename_i other hother
    rw [config?_insert (ne_null_of_importPath? hother)]
    split
    · rfl
    · exact hpath
  · exact hpath

/-! ### Many definitions -/

theorem importEach_overwrite (folder : String) (definitions : List Json) (tags : Tags) :
    importEach .overwrite folder definitions tags =
      (definitions.map (verdict folder), definitions.foldl (put folder) tags) := by
  induction definitions generalizing tags with
  | nil => rfl
  | cons definition rest ih =>
    rw [importEach, admission_overwrite, List.map_cons, List.foldl_cons, verdict, put]
    cases importPath? folder definition with
    | none =>
      simp only [ih]
      rfl
    | some path =>
      simp only [ih]
      rfl

/-- The definition is not to be stored, or it can be copied. -/
def passes (folder : String) (definition : Json) : Bool := (importPath? folder definition).isNone || isCopyable definition

theorem isCopyable_of_legible {depth : ℕ} (hdefinition : Json.Legible depth definition) (hdepth : depth ≤ maxCopyDepth) :
    isCopyable definition = true :=
  decide_eq_true (hdefinition.nesting_le.trans hdepth)

theorem passes_of_isCopyable (hcopyable : isCopyable definition = true) : passes folder definition = true := by
  rw [passes, hcopyable, Bool.or_true]

/-- As long as definitions can be copied, an attempt to import them succeeds. -/
theorem attemptEach_eq {policy : CollisionPolicy} (hpasses : ∀ v ∈ definitions, passes folder v = true) (tags : Tags) :
    attemptEach policy folder definitions tags =
      (some (importEach policy folder definitions tags).1, (importEach policy folder definitions tags).2) := by
  induction definitions generalizing tags with
  | nil => rfl
  | cons definition rest ih =>
    rw [List.forall_mem_cons] at hpasses
    rw [attemptEach, importEach]
    cases hadmission : tags.admission policy folder definition with
    | settled q =>
      simp only [ih hpasses.2]
      rfl
    | store path =>
      have hcopyable : isCopyable definition = true := by
        have hfirst := hpasses.1
        rwa [passes, importPath?_of_admission hadmission] at hfirst
      simp only [hcopyable, if_true, ih hpasses.2]
      rfl

/-- An attempt that overwrites ends before the first definition that is to be stored and cannot be copied. -/
theorem attemptEach_overwrite (folder : String) (definitions : List Json) (tags : Tags) :
    attemptEach .overwrite folder definitions tags =
      (if definitions.all (passes folder) then some (definitions.map (verdict folder)) else none,
        (definitions.takeWhile (passes folder)).foldl (put folder) tags) := by
  induction definitions generalizing tags with
  | nil => rfl
  | cons definition rest ih =>
    rw [attemptEach, admission_overwrite, List.map_cons, List.all_cons, List.takeWhile_cons, verdict, passes]
    cases hpath : importPath? folder definition with
    | none =>
      simp only [ih, Option.isNone_none, Bool.true_or, Bool.true_and, if_true, List.foldl_cons, put, hpath]
      cases rest.all (passes folder) <;> rfl
    | some path =>
      cases hcopyable : isCopyable definition with
      | false => simp
      | true =>
        simp only [ih, Option.isNone_some, Bool.or_true, Bool.true_and, if_true, List.foldl_cons, put, hpath]
        cases rest.all (passes folder) <;> rfl

theorem get?_foldl_put_of_ne (hpath : ∀ definition ∈ definitions, importPath? folder definition ≠ some path) :
    (definitions.foldl (put folder) tags).get? path = tags.get? path := by
  induction definitions generalizing tags with
  | nil => rfl
  | cons definition rest ih =>
    rw [List.foldl_cons, ih fun other hother => hpath other (by simp [hother]), get?_put_of_ne (hpath definition (by simp))]

/-- Definitions that are put one after the other lie over what was there before. -/
theorem get?_foldl_put : (definitions.foldl (put folder) tags).get? path =
    ((definitions.foldl (put folder) ∅).get? path).or (tags.get? path) := by
  induction definitions using List.reverseRecOn with
  | nil => rfl
  | append_singleton before definition ih =>
    rw [List.foldl_concat, List.foldl_concat, get?_put, get?_put, ih]
    split <;> rfl

theorem isSome_config?_foldl_put (hpath : (tags.config? path).isSome = true) :
    ((definitions.foldl (put folder) tags).config? path).isSome = true := by
  induction definitions generalizing tags with
  | nil => exact hpath
  | cons definition rest ih => exact ih (isSome_config?_put hpath)

theorem isSome_config?_foldl_put_of_mem (hdefinition : definition ∈ definitions)
    (hstored : importPath? folder definition = some path) (hnormal : TagPath.normalize path = path) :
    ((definitions.foldl (put folder) tags).config? path).isSome = true := by
  induction definitions generalizing tags with
  | nil => cases hdefinition
  | cons first rest ih =>
    rw [List.foldl_cons]
    rcases List.mem_cons.1 hdefinition with rfl | hdefinition
    · apply isSome_config?_foldl_put
      unfold put
      rw [hstored]
      simp only
      rw [config?_insert (ne_null_of_importPath? hstored), if_pos hnormal.symm]
      rfl
    · exact ih hdefinition

theorem isGood_verdict : (verdict folder definition).isGood = (importPath? folder definition).isSome := by
  unfold verdict
  cases importPath? folder definition <;> rfl

end TagTypes.Tags
