import Mathlib.Tactic
import TagTypes.Schema.Basic

/-!
# What a schema refers to

A schema refers to the type it extends and to the types that its properties refer to. A property that refers to a type is not looked into, whatever it has inside; of the other properties only objects are looked into, at any depth.
-/

namespace TagTypes

namespace Property

/-- What holds of a property if it holds of those inside it holds of every property. -/
theorem nested_induction {P : Property → Prop} (h : ∀ p : Property, (∀ q ∈ p.nested, P q) → P p) (p : Property) : P p :=
  h p fun q hq =>
    have : sizeOf q < sizeOf p := by
      have hlist := List.sizeOf_lt_of_mem hq
      obtain ⟨name, type, format, description, default, refType, nested, items, enum⟩ := p
      simp only [mk.sizeOf_spec]
      simp only at hlist
      omega
    nested_induction h q
termination_by sizeOf p

/-- The property refers to the type, itself or through object properties inside it. -/
inductive RefersTo : Property → String → Prop
  | here {p : Property} {type : String} (htype : p.refType = some type) (hne : type ≠ "") : RefersTo p type
  | inside {p q : Property} {type : String} (hplain : p.isReference = false) (hobject : p.isObject = true)
      (hq : q ∈ p.nested) (h : RefersTo q type) : RefersTo p type

theorem referencesAll_eq (ps : List Property) : referencesAll ps = ps.flatMap references := by
  induction ps with
  | nil => rfl
  | cons p rest ih => rw [referencesAll, List.flatMap_cons, ih]

theorem references_eq (p : Property) :
    p.references =
      if p.isReference then [p.refType.getD ""] else if p.isObject then p.nested.flatMap references else [] := by
  obtain ⟨name, type, format, description, default, refType, nested, items, enum⟩ := p
  rw [references, referencesAll_eq]
  simp only [isReference, isObject, decide_eq_true_eq]

theorem isReference_eq_true_iff {p : Property} : p.isReference = true ↔ ∃ type, p.refType = some type ∧ type ≠ "" := by
  unfold isReference
  cases p.refType <;> simp

theorem mem_references_iff {type : String} (p : Property) : type ∈ p.references ↔ p.RefersTo type := by
  induction p using nested_induction with
  | h p ih =>
    rw [references_eq]
    by_cases href : p.isReference = true
    · obtain ⟨used, hused, hne⟩ := isReference_eq_true_iff.1 href
      rw [if_pos href, hused, Option.getD_some, List.mem_singleton]
      constructor
      · intro heq
        subst heq
        exact .here hused hne
      · intro hrefers
        cases hrefers with
        | here htype _ => exact Option.some.inj (htype.symm.trans hused)
        | inside hplain _ _ _ => rw [href] at hplain; cases hplain
    · rw [if_neg href]
      rw [Bool.not_eq_true] at href
      constructor
      · intro hmem
        split at hmem
        · rename_i hobject
          obtain ⟨q, hq, hmem⟩ := List.mem_flatMap.1 hmem
          exact .inside href hobject hq ((ih q hq).1 hmem)
        · cases hmem
      · intro hrefers
        cases hrefers with
        | here htype hne => rw [isReference_eq_true_iff.2 ⟨type, htype, hne⟩] at href; cases href
        | inside _ hobject hq hinside =>
          rw [if_pos hobject]
          exact List.mem_flatMap.2 ⟨_, hq, (ih _ hq).2 hinside⟩

end Property

namespace Schema

/-- The schema extends the type or has a property that refers to it. -/
def RefersTo (s : Schema) (type : String) : Prop :=
  s.parentType = some type ∧ type ≠ "" ∨ ∃ p ∈ s.properties, p.RefersTo type

theorem mem_references_iff {s : Schema} {type : String} : type ∈ s.references ↔ s.RefersTo type := by
  have hparent : type ∈ (if s.hasParent then [s.parentType.getD ""] else []) ↔ s.parentType = some type ∧ type ≠ "" := by
    unfold hasParent
    cases s.parentType with
    | none => simp
    | some parent =>
      by_cases hempty : parent = ""
      · simp [hempty, eq_comm]
      · simp only [Option.getD_some, ne_eq, hempty, not_false_eq_true, decide_true, if_true, List.mem_singleton,
          Option.some.injEq]
        constructor
        · intro heq
          subst heq
          exact ⟨rfl, hempty⟩
        · exact fun hboth => hboth.1.symm
  rw [references, List.mem_append, hparent, Property.referencesAll_eq, List.mem_flatMap, RefersTo]
  simp only [Property.mem_references_iff]

end Schema

end TagTypes
