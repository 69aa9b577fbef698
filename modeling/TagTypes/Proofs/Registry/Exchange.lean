import Mathlib.Tactic
import TagTypes.Proofs.Registry.Mirror

/-!
# Exchanged types

A type goes, or the types of a schema come, or the one and then the other. What is at a path afterwards is what the schema puts there, or else what was there before unless it is the path of the type that went. A name is registered if the schema brought its type, or if it was registered before and did not go. So an exchange touches the paths of the type and of the names in the schema and no others: exchanges that touch no path in common come to the same in either order, and a schema that comes once more changes nothing.
-/

namespace TagTypes.Registry

open TagPath (IsName normalize)
open Udt (stored? typeNames)

variable {arrange : List Schema → Option (List Schema)} {gone gone' : Option String} {brought brought' : Option Schema}
  {q q' q₁ q₂ : Registry Tags} {path name : String}

/-- The definitions that a schema puts into an empty store. -/
def definitions (arrange : List Schema → Option (List Schema)) (brought : Option Schema) : Tags :=
  brought.elim ∅ fun s => (deliver (Tags.access arrange) s ∅).2

/-- The types of the registry `q'` are those of `q` after the type `gone` went and the types of `brought` came. -/
structure Exchanged (arrange : List Schema → Option (List Schema)) (gone : Option String) (brought : Option Schema)
    (q q' : Registry Tags) : Prop where
  get? : ∀ path, q'.tags.get? path = ((definitions arrange brought).get? path).or
    (if gone.map (fun type => normalize (typePath type)) = some path then none else q.tags.get? path)
  registered : ∀ name, name ∈ q'.registered ↔ (∃ s ∈ brought, (stored? s).isSome = true ∧ name = s.name) ∨
    name ∈ q.registered ∧ ¬(gone = some name ∧ q.tags.contains (normalize (typePath name)) = true)

/-! ### Exchanges that registries do -/

theorem exchanged_nothing : Exchanged arrange none none q q where
  get? path := by simp [definitions]
  registered name := by simp

theorem exchanged_remove (type : String) : Exchanged arrange (some type) none q (q.remove (Tags.access arrange) type).2 where
  get? path := by
    rw [get?_remove]
    simp [definitions]
  registered name := by
    rw [mem_registered_remove]
    constructor
    · rintro ⟨hbefore, hkept⟩
      refine Or.inr ⟨hbefore, ?_⟩
      rintro ⟨⟨⟩, hcontains⟩
      exact hkept ⟨hcontains, rfl⟩
    · rintro (⟨s, hs, -⟩ | ⟨hbefore, hkept⟩)
      · cases hs
      · refine ⟨hbefore, ?_⟩
        rintro ⟨hcontains, rfl⟩
        exact hkept ⟨rfl, hcontains⟩

namespace Exchanged

theorem tell (h : Exchanged arrange gone brought q q') (e : Event) : Exchanged arrange gone brought q (q'.tell e) :=
  ⟨h.get?, h.registered⟩

theorem of_tell {e : Event} (h : Exchanged arrange gone brought (q.tell e) q') : Exchanged arrange gone brought q q' :=
  ⟨h.get?, h.registered⟩

theorem sync (h : Exchanged arrange gone none q q') (s : Schema) :
    Exchanged arrange gone (some s) q (q'.sync (Tags.access arrange) s).2 where
  get? path := by
    rw [tags_sync, get?_deliver, h.get? path]
    simp [definitions]
  registered name := by
    rw [mem_registered_sync, h.registered, or_comm]
    simp

end Exchanged

/-! ### What an exchange touches -/

/-- The exchange concerns the path: it is that of the type that goes or of a name in the schema that comes. -/
def Touches (gone : Option String) (brought : Option Schema) (path : String) : Prop :=
  (∃ type ∈ gone, normalize (typePath type) = path) ∨ ∃ s ∈ brought, ∃ name ∈ typeNames s, normalize (typePath name) = path

/-- What a schema puts into a store is at the path of a name in the schema. -/
theorem exists_name_of_get?_definitions (hpath : ((definitions arrange brought).get? path).isSome = true) :
    ∃ s ∈ brought, ∃ name ∈ typeNames s, IsName name ∧ typePath name = path := by
  cases brought with
  | none => cases hpath
  | some s =>
    refine ⟨s, rfl, ?_⟩
    by_cases hnested : path ∈ nestedPaths s
    · obtain ⟨name, hname, rfl⟩ := List.mem_map.1 hnested
      rw [List.mem_filter, decide_eq_true_eq] at hname
      exact ⟨name, List.mem_cons_of_mem _ hname.1, hname.2, rfl⟩
    · have hother : (importNested (Tags.access arrange) s ∅).get? path = none := get?_importNested_of_notMem hnested
      change ((deliver (Tags.access arrange) s ∅).2.get? path).isSome = true at hpath
      rw [deliver_eq] at hpath
      cases hstored : stored? s with
      | none =>
        rw [hstored] at hpath
        simp only [hother] at hpath
        cases hpath
      | some v =>
        rw [hstored] at hpath
        simp only [Dict.get?_insert] at hpath
        split at hpath
        · rename_i hown
          exact ⟨s.name, List.mem_cons_self, Udt.isName_of_stored? (by rw [hstored]; rfl), hown⟩
        · rw [hother] at hpath
          cases hpath

/-- A schema that was read puts something at the paths of all names in it that can name a tag. -/
theorem isSome_get?_definitions_iff (hbrought : ∀ s ∈ brought, s.LegibleDefaults) :
    ((definitions arrange brought).get? path).isSome = true ↔
      ∃ s ∈ brought, ∃ name ∈ typeNames s, IsName name ∧ typePath name = path := by
  constructor
  · exact exists_name_of_get?_definitions
  · rintro ⟨s, hs, name, hname, hplain, rfl⟩
    have hdescribed : s.name = name ∨ typePath name ∈ nestedPaths s := by
      rcases List.mem_cons.1 hname with rfl | hnested
      · exact Or.inl rfl
      · exact Or.inr (List.mem_map_of_mem (List.mem_filter.2 ⟨hnested, by simpa using hplain⟩))
    have hstored : ((deliver (Tags.access arrange) s ∅).2.config? (typePath name)).isSome = true :=
      (isSome_config?_deliver_iff_or (hbrought s hs) hplain).2 (Or.inr hdescribed)
    have hcontains := Tags.contains_of_config? hstored
    rw [normalize_typePath hplain] at hcontains
    cases hs
    exact hcontains

theorem get?_definitions_of_not_touches (hpath : ¬Touches gone brought path) : (definitions arrange brought).get? path = none := by
  by_contra hsome
  obtain ⟨s, hs, name, hname, hplain, rfl⟩ := exists_name_of_get?_definitions (Option.isSome_iff_ne_none.2 hsome)
  exact hpath (Or.inr ⟨s, hs, name, hname, normalize_typePath hplain⟩)

namespace Exchanged

/-- What is at a path after an exchange depends on what was there before, and on nothing else there. -/
theorem get?_congr (h : Exchanged arrange gone brought q q₁) (h' : Exchanged arrange gone brought q' q₂)
    (hsame : q.tags.get? path = q'.tags.get? path) : q₁.tags.get? path = q₂.tags.get? path := by
  rw [h.get?, h'.get?, hsame]

/-- Whether a name is registered after an exchange depends on whether it was, and on what was at its path. -/
theorem registered_congr (h : Exchanged arrange gone brought q q₁) (h' : Exchanged arrange gone brought q' q₂)
    (hnames : name ∈ q.registered ↔ name ∈ q'.registered)
    (hsame : q.tags.get? (normalize (typePath name)) = q'.tags.get? (normalize (typePath name))) :
    name ∈ q₁.registered ↔ name ∈ q₂.registered := by
  rw [h.registered, h'.registered, hnames, Dict.contains, Dict.contains, hsame]

/-- Something is at the path of a name if the schema puts it there, or if it was there and did not go. -/
theorem isSome_get?_typePath_iff (h : Exchanged arrange gone brought q q') (hbrought : ∀ s ∈ brought, s.LegibleDefaults)
    (hname : IsName name) :
    (q'.tags.get? (typePath name)).isSome = true ↔ (∃ s ∈ brought, name ∈ typeNames s) ∨
      (q.tags.get? (typePath name)).isSome = true ∧ ∀ type ∈ gone, TagPath.segments type ≠ [name] := by
  have hpath : ∀ type, normalize (typePath type) = typePath name ↔ TagPath.segments type = [name] := by
    intro type
    rw [← TagPath.segments_of_isName hname, ← normalize_typePath_eq_iff, normalize_typePath hname]
  have hgone : gone.map (fun type => normalize (typePath type)) = some (typePath name) ↔
      ∃ type ∈ gone, TagPath.segments type = [name] := by
    simp only [Option.map_eq_some_iff, Option.mem_def, hpath]
  have hcame : ((definitions arrange brought).get? (typePath name)).isSome = true ↔ ∃ s ∈ brought, name ∈ typeNames s := by
    rw [isSome_get?_definitions_iff hbrought]
    simp only [typePath_inj]
    constructor
    · rintro ⟨s, hs, other, hother, -, rfl⟩
      exact ⟨s, hs, hother⟩
    · rintro ⟨s, hs, hmem⟩
      exact ⟨s, hs, name, hmem, hname, rfl⟩
  rw [h.get?, Option.isSome_or, Bool.or_eq_true, hcame]
  apply or_congr_right
  split
  · rename_i hwent
    obtain ⟨type, htype, hsegments⟩ := hgone.1 hwent
    simp only [Option.isSome_none, Bool.false_eq_true, false_iff, not_and]
    exact fun _ hkept => hkept type htype hsegments
  · rename_i hstayed
    rw [iff_self_and]
    exact fun _ type htype hsegments => hstayed (hgone.2 ⟨type, htype, hsegments⟩)

theorem get?_of_not_touches (h : Exchanged arrange gone brought q q') (hpath : ¬Touches gone brought path) :
    q'.tags.get? path = q.tags.get? path := by
  have hgone : gone.map (fun type => normalize (typePath type)) ≠ some path := by
    intro heq
    obtain ⟨type, htype, hplace⟩ := Option.map_eq_some_iff.1 heq
    exact hpath (Or.inl ⟨type, htype, hplace⟩)
  rw [h.get?, get?_definitions_of_not_touches hpath, Option.none_or, if_neg hgone]

theorem registered_of_not_touches (h : Exchanged arrange gone brought q q')
    (hpath : ¬Touches gone brought (normalize (typePath name))) : name ∈ q'.registered ↔ name ∈ q.registered := by
  rw [h.registered]
  constructor
  · rintro (⟨s, hs, -, rfl⟩ | ⟨hbefore, -⟩)
    · exact absurd (Or.inr ⟨s, hs, s.name, List.mem_cons_self, rfl⟩) hpath
    · exact hbefore
  · intro hbefore
    refine Or.inr ⟨hbefore, ?_⟩
    rintro ⟨rfl, -⟩
    exact hpath (Or.inl ⟨name, rfl, rfl⟩)

/-- Exchanges that touch no path in common come to the same in either order. -/
theorem comm {q₁₂ q₂₁ : Registry Tags} (h₁ : Exchanged arrange gone brought q q₁) (h₁₂ : Exchanged arrange gone' brought' q₁ q₁₂)
    (h₂ : Exchanged arrange gone' brought' q q₂) (h₂₁ : Exchanged arrange gone brought q₂ q₂₁)
    (hapart : ∀ path, Touches gone brought path → ¬Touches gone' brought' path) :
    q₁₂.tags.get? = q₂₁.tags.get? ∧ ∀ name, name ∈ q₁₂.registered ↔ name ∈ q₂₁.registered := by
  have htags : ∀ path, q₁₂.tags.get? path = q₂₁.tags.get? path := by
    intro path
    by_cases htouch : Touches gone brought path
    · have hother := hapart path htouch
      rw [h₁₂.get?_of_not_touches hother]
      exact h₁.get?_congr h₂₁ (h₂.get?_of_not_touches hother).symm
    · rw [h₂₁.get?_of_not_touches htouch]
      exact h₁₂.get?_congr h₂ (h₁.get?_of_not_touches htouch)
  refine ⟨funext htags, fun name => ?_⟩
  by_cases htouch : Touches gone brought (normalize (typePath name))
  · have hother := hapart _ htouch
    rw [h₁₂.registered_of_not_touches hother]
    exact h₁.registered_congr h₂₁ (h₂.registered_of_not_touches hother).symm (h₂.get?_of_not_touches hother).symm
  · rw [h₂₁.registered_of_not_touches htouch]
    exact h₁₂.registered_congr h₂ (h₁.registered_of_not_touches htouch) (h₁.get?_of_not_touches htouch)

/-- A schema that comes once more changes nothing. -/
theorem again (h : Exchanged arrange gone brought q q₁) (hagain : Exchanged arrange none brought q₁ q₂) :
    q₂.tags.get? = q₁.tags.get? ∧ ∀ name, name ∈ q₂.registered ↔ name ∈ q₁.registered := by
  constructor
  · funext path
    have hkept : (none : Option String).map (fun type => normalize (typePath type)) ≠ some path := by simp
    rw [hagain.get?, if_neg hkept, h.get?, ← Option.or_assoc, Option.or_self]
  · intro name
    rw [hagain.registered, h.registered]
    simp

end Exchanged

end TagTypes.Registry
