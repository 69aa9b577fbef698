import Mathlib.Tactic
import TagTypes.Proofs.Registry.Backed

/-!
# What is there after many steps

Removals take away just the definitions at their paths, and no name but those they are given. Synchronizations take nothing away; a definition is there afterwards if it was there before or if one of the schemas describes it, as its own type or for an inline object.
-/

namespace TagTypes.Registry

open TagPath (IsName normalize)

variable {arrange : List Schema → Option (List Schema)} {r : Registry Tags} {type name path : String} {types : List String}

/-! ### Removals -/

theorem config?_remove : (remove (Tags.access arrange) type r).2.tags.config? path =
    if normalize (typePath type) = normalize path then none else r.tags.config? path := by
  by_cases hpath : normalize (typePath type) = normalize path
  · rw [if_pos hpath, tags_remove]
    split
    · rw [Tags.config?_erase, if_pos hpath]
    · rename_i hcontains
      rw [Bool.not_eq_true, Dict.contains_eq_false_iff, hpath] at hcontains
      exact Tags.config?_eq_none hcontains
  · rw [if_neg hpath, config?_remove_of_ne hpath]

/-- A definition is there after removals if it was there before and none of them is given its path. -/
theorem isSome_config?_removeEach_iff (types : List String) : ∀ {r : Registry Tags},
    ((removeEach (Tags.access arrange) types r).tags.config? path).isSome = true ↔
      (r.tags.config? path).isSome = true ∧ ∀ type ∈ types, normalize (typePath type) ≠ normalize path := by
  induction types with
  | nil =>
    intro r
    simp [removeEach]
  | cons type rest ih =>
    intro r
    rw [removeEach_cons, ih, config?_remove, List.forall_mem_cons]
    split
    · rename_i hpath
      simp [hpath]
    · rename_i hpath
      simp [hpath]

theorem mem_registered_of_removeEach (types : List String) : ∀ {r : Registry Tags},
    name ∈ (removeEach (Tags.access arrange) types r).registered → name ∈ r.registered := by
  induction types with
  | nil => exact fun hname => hname
  | cons type rest ih =>
    intro r hname
    rw [removeEach_cons] at hname
    exact registered_remove_subset type (ih hname)

theorem mem_registered_removeEach_of_notMem (htypes : name ∉ types) : ∀ {r : Registry Tags}, name ∈ r.registered →
    name ∈ (removeEach (Tags.access arrange) types r).registered := by
  induction types with
  | nil => exact fun hname => hname
  | cons type rest ih =>
    intro r hname
    rw [List.mem_cons, not_or] at htypes
    rw [removeEach_cons]
    exact ih htypes.2 (mem_registered_remove.2 ⟨hname, fun h => htypes.1 h.2⟩)

/-- Of a type that is stored the first removal takes the name away. -/
theorem notMem_registered_removeEach (hstored : (r.tags.config? (typePath name)).isSome = true) (htypes : name ∈ types)
    (honly : ∀ type ∈ types, type = name) : name ∉ (removeEach (Tags.access arrange) types r).registered := by
  cases types with
  | nil => cases htypes
  | cons type rest =>
    obtain rfl := honly type List.mem_cons_self
    rw [removeEach_cons]
    intro hname
    exact (mem_registered_remove.1 (mem_registered_of_removeEach rest hname)).2 ⟨Tags.contains_of_config? hstored, rfl⟩

/-! ### Synchronizations -/

theorem isSome_config?_syncEach_iff {schemas : List Schema} (hschemas : ∀ s ∈ schemas, s.LegibleDefaults) (hname : IsName name) :
    ∀ {r : Registry Tags}, ((syncEach (Tags.access arrange) schemas r).2.tags.config? (typePath name)).isSome = true ↔
      (r.tags.config? (typePath name)).isSome = true ∨ ∃ s ∈ schemas, s.name = name ∨ typePath name ∈ nestedPaths s := by
  induction schemas with
  | nil =>
    intro r
    simp [syncEach]
  | cons s rest ih =>
    intro r
    rw [List.forall_mem_cons] at hschemas
    rw [syncEach_cons, ih hschemas.2, tags_sync, isSome_config?_deliver_iff_or hschemas.1 hname]
    simp only [List.mem_cons, exists_eq_or_imp, or_assoc]

/-- After a synchronization of many schemas a definition is there if it was there before or if one of them describes it. -/
theorem isSome_config?_syncAll_iff {schemas : List Schema} (hschemas : ∀ s ∈ schemas, s.LegibleDefaults) (hname : IsName name) :
    ((syncAll (Tags.access fun schemas => some (Dependency.order schemas)) schemas r).2.tags.config? (typePath name)).isSome
        = true ↔
      (r.tags.config? (typePath name)).isSome = true ∨ ∃ s ∈ schemas, s.name = name ∨ typePath name ∈ nestedPaths s := by
  have hall : (syncAll (Tags.access fun schemas => some (Dependency.order schemas)) schemas r).2 =
      (syncEach (Tags.access fun schemas => some (Dependency.order schemas)) (Dependency.order schemas) r).2 := rfl
  rw [hall, isSome_config?_syncEach_iff (fun s hs => hschemas s (Dependency.mem_order.1 hs)) hname]
  simp only [Dependency.mem_order]

end TagTypes.Registry
