import Mathlib.Tactic
import TagTypes.Proofs.Registry.Backed

/-!
# Registries that mirror the schemas of keys

A registry mirrors schemas under keys if its types are exactly their names and each is stored as it is built from the schema. When the schema of one key is replaced or goes, the registry mirrors what is left as long as no other key has a name that the change touches: the name that is given up, the name that comes, and the names of the types made for inline objects, whose definitions are written beside it.
-/

namespace TagTypes

namespace Udt

/-- The names of the types that a schema describes. -/
def typeNames (s : Schema) : List String := s.name :: (nestedDefinitions s).map Definition.name

end Udt

namespace Registry

open TagPath (IsName segments normalize)
open Udt (typeNames)

/-- The registry `q` has the types of the schemas under keys, each as it is built. -/
structure Mirrors (schemas : String → Option Schema) (q : Registry Tags) : Prop where
  plain : ∀ key schema, schemas key = some schema → '/' ∉ schema.name.toList
  registered : ∀ type, type ∈ q.registered ↔ type ≠ "" ∧ ∃ key schema, schemas key = some schema ∧ schema.name = type
  built : ∀ key schema, schemas key = some schema → schema.name ≠ "" →
    q.tags.config? (typePath schema.name) = some (Udt.build schema).toJson

theorem mirrors_nothing {q : Registry Tags} (hq : q.registered = []) : Mirrors (fun _ => none) q where
  plain := by simp
  registered := by simp [hq]
  built := by simp

namespace Mirrors

variable {schemas : String → Option Schema} {q : Registry Tags} {arrange : List Schema → Option (List Schema)}
  {key type : String}

theorem isName (h : Mirrors schemas q) {schema : Schema} (hschema : schemas key = some schema) (hne : schema.name ≠ "") :
    IsName schema.name := ⟨hne, h.plain key schema hschema⟩

theorem tell (h : Mirrors schemas q) (e : Event) : Mirrors schemas (q.tell e) := ⟨h.plain, h.registered, h.built⟩

theorem inStep (h : Mirrors schemas q) : InStep q := by
  constructor
  · intro type htype
    obtain ⟨hne, key, schema, hschema, rfl⟩ := (h.registered type).1 htype
    exact h.isName hschema hne
  · intro type htype
    obtain ⟨hne, key, schema, hschema, rfl⟩ := (h.registered type).1 htype
    rw [h.built key schema hschema hne]
    rfl

theorem update_none_eq_some_iff {other : String} {found : Schema} :
    Function.update schemas key none other = some found ↔ other ≠ key ∧ schemas other = some found := by
  by_cases hother : other = key
  · simp [hother]
  · simp [hother]

theorem update_some_eq_some_iff {schema found : Schema} {other : String} :
    Function.update schemas key (some schema) other = some found ↔
      (other = key ∧ schema = found) ∨ (other ≠ key ∧ schemas other = some found) := by
  by_cases hother : other = key
  · simp [hother]
  · simp [hother]

/-- A schema that goes takes its type along and no other. -/
theorem remove (h : Mirrors schemas q) (htype : '/' ∉ type.toList) (hown : ∀ schema ∈ schemas key, schema.name = type)
    (hothers : ∀ other schema, other ≠ key → schemas other = some schema → schema.name ≠ "" → schema.name ≠ type) :
    Mirrors (Function.update schemas key none) (q.remove (Tags.access arrange) type).2 := by
  constructor
  · intro other schema hschema
    exact h.plain other schema (update_none_eq_some_iff.1 hschema).2
  · intro name
    rw [h.inStep.mem_remove, h.registered name]
    constructor
    · intro hfound
      obtain ⟨⟨hne, other, schema, hschema, rfl⟩, hkept⟩ := hfound
      have hother : other ≠ key := by
        intro heq
        subst heq
        exact hkept (hown schema hschema)
      exact ⟨hne, other, schema, update_none_eq_some_iff.2 ⟨hother, hschema⟩, rfl⟩
    · intro hboth
      obtain ⟨hne, other, schema, hschema, rfl⟩ := hboth
      obtain ⟨hother, hschema⟩ := update_none_eq_some_iff.1 hschema
      exact ⟨⟨hne, other, schema, hschema, rfl⟩, hothers other schema hother hschema hne⟩
  · intro other schema hschema hne
    obtain ⟨hother, hschema⟩ := update_none_eq_some_iff.1 hschema
    have hpath : normalize (typePath type) ≠ normalize (typePath schema.name) := by
      rw [Ne, normalize_typePath_eq_iff, TagPath.segments_of_isName (h.isName hschema hne)]
      intro hsegments
      exact hothers other schema hother hschema hne (TagPath.eq_of_segments_eq_singleton htype hsegments).symm
    rw [config?_remove_of_ne hpath]
    exact h.built other schema hschema hne

/-- Writing a schema's types leaves the types of other names as they are. -/
theorem config?_sync_of_notMem {schema : Schema} {name : String} {v : Json} (hname : IsName name)
    (hapart : name ∉ typeNames schema) (hbefore : q.tags.config? (typePath name) = some v) :
    (Registry.sync (Tags.access arrange) schema q).2.tags.config? (typePath name) = some v := by
  rw [typeNames, List.mem_cons, not_or] at hapart
  have hown : typePath name ≠ typePath schema.name := fun heq => hapart.1 (typePath_inj.1 heq)
  have hnested : typePath name ∉ nestedPaths schema := by
    intro hmem
    obtain ⟨other, hother, heq⟩ := List.mem_map.1 hmem
    rw [typePath_inj.1 heq] at hother
    exact hapart.2 (List.mem_filter.1 hother).1
  rw [Tags.config?_eq_some_iff, normalize_typePath hname] at hbefore ⊢
  rw [get?_sync_of_ne hown hnested]
  exact hbefore

/-- A schema that comes under a key without a schema, or with one of the same name, brings its type and touches no other. -/
theorem sync (h : Mirrors schemas q) {schema : Schema} (hschema : schema.LegibleDefaults) (hplain : '/' ∉ schema.name.toList)
    (hown : ∀ before ∈ schemas key, before.name = schema.name)
    (hothers : ∀ other found, other ≠ key → schemas other = some found → found.name ≠ "" → found.name ∉ typeNames schema) :
    Mirrors (Function.update schemas key (some schema)) (Registry.sync (Tags.access arrange) schema q).2 := by
  constructor
  · intro other found hfound
    rcases update_some_eq_some_iff.1 hfound with ⟨-, rfl⟩ | ⟨-, hfound⟩
    · exact hplain
    · exact h.plain other found hfound
  · intro name
    rw [mem_registered_sync, h.registered name]
    constructor
    · intro hcases
      rcases hcases with ⟨hne, other, found, hfound, rfl⟩ | ⟨hstored, rfl⟩
      · by_cases hother : other = key
        · cases hother
          exact ⟨hne, key, schema, Function.update_self _ _ _, (hown found hfound).symm⟩
        · exact ⟨hne, other, found, update_some_eq_some_iff.2 (Or.inr ⟨hother, hfound⟩), rfl⟩
      · exact ⟨(Udt.isName_of_stored? hstored).1, key, schema, Function.update_self _ _ _, rfl⟩
    · intro hboth
      obtain ⟨hne, other, found, hfound, rfl⟩ := hboth
      rcases update_some_eq_some_iff.1 hfound with ⟨-, rfl⟩ | ⟨-, hfound⟩
      · rw [Udt.stored?_of_legibleDefaults hschema ⟨hne, hplain⟩]
        exact Or.inr ⟨rfl, rfl⟩
      · exact Or.inl ⟨hne, other, found, hfound, rfl⟩
  · intro other found hfound hne
    rcases update_some_eq_some_iff.1 hfound with ⟨-, rfl⟩ | ⟨hother, hfound⟩
    · exact config?_sync (Udt.stored?_of_legibleDefaults hschema ⟨hne, hplain⟩)
    · exact config?_sync_of_notMem (h.isName hfound hne) (hothers other found hother hfound hne) (h.built other found hfound hne)

/-- A schema that takes the place of another under its key gives the other's name up, if it has a name of its own. -/
theorem replace (h : Mirrors schemas q) {schema : Schema} (hschema : schema.LegibleDefaults) (hplain : '/' ∉ schema.name.toList)
    (hothers : ∀ other found, other ≠ key → schemas other = some found → found.name ≠ "" →
      found.name ∉ typeNames schema ∧ ∀ before ∈ schemas key, found.name ≠ before.name) :
    Mirrors (Function.update schemas key (some schema)) (q.replace (Tags.access arrange) (schemas key) schema) := by
  have hnew : ∀ other found, other ≠ key → schemas other = some found → found.name ≠ "" → found.name ∉ typeNames schema :=
    fun other found hother hfound hne => (hothers other found hother hfound hne).1
  rw [Registry.replace]
  by_cases hsame : ∀ before ∈ schemas key, before.name = schema.name
  · rw [giveUp_of_same hsame]
    exact h.sync hschema hplain hsame hnew
  · push Not at hsame
    obtain ⟨before, hbefore, hne⟩ := hsame
    rw [Option.mem_def] at hbefore
    rw [hbefore, giveUp_of_renamed hne]
    have hgone : Mirrors (Function.update schemas key none) (q.remove (Tags.access arrange) before.name).2 := by
      refine h.remove (h.plain key before hbefore) ?_ ?_
      · intro found hfound
        rw [hbefore] at hfound
        cases hfound
        rfl
      · intro other found hother hfound hne
        exact (hothers other found hother hfound hne).2 before hbefore
    have hlast : Function.update (Function.update schemas key none) key (some schema) =
        Function.update schemas key (some schema) := Function.update_idem _ _ _
    rw [← hlast]
    refine hgone.sync hschema hplain ?_ ?_
    · simp
    · intro other found hother hfound hne
      rw [Function.update_of_ne hother] at hfound
      exact hnew other found hother hfound hne

end Mirrors

end Registry

end TagTypes
