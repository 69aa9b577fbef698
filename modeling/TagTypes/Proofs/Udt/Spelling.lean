import Mathlib.Tactic
import TagTypes.Proofs.Schema.Respelled
import TagTypes.Proofs.Udt.Definition
import TagTypes.Proofs.Udt.Nested

/-!
# Types of documents in different spellings

The data type of a tag follows from the type word in any letter case, but whether a property is an object or an array, and which entry of a list of types is its type, follows from the word as it is written. So the types made for a document stay the same if `string`, `integer`, `number` or `boolean` is spelled otherwise, at any depth. With the other three words they stay the same only for a document in which these decide nothing: it has no inline objects, no array has a default, and where a list of types begins with `null` the property is a string.
-/

namespace TagTypes

namespace Udt

open Schema
open Text (asciiLower)

/-! ### What is seen of a property -/

/-- All that is made of a property, for every owner. -/
structure View where
  member : String → Option Member
  nested : String → List Definition
  references : List String

def view (p : Property) : View where
  member owner := member? owner p
  nested owner := nestedOf owner p
  references := p.references

/-- The schemas have the same head, and the same is seen of their properties. -/
structure SchemasAlike (s t : Schema) : Prop where
  bare : s.bare = t.bare
  properties : s.properties.map view = t.properties.map view

namespace SchemasAlike

variable {s t u : Schema}

theorem symm (h : SchemasAlike s t) : SchemasAlike t s := ⟨h.bare.symm, h.properties.symm⟩

theorem trans (h : SchemasAlike s t) (h' : SchemasAlike t u) : SchemasAlike s u :=
  ⟨h.bare.trans h'.bare, h.properties.trans h'.properties⟩

theorem name_eq (h : SchemasAlike s t) : s.name = t.name := (congrArg Schema.name h.bare : s.bare.name = t.bare.name)

theorem parentType_eq (h : SchemasAlike s t) : s.parentType = t.parentType :=
  (congrArg Schema.parentType h.bare : s.bare.parentType = t.bare.parentType)

theorem build_eq (h : SchemasAlike s t) : build s = build t := by
  have hdescription : s.description = t.description := (congrArg Schema.description h.bare : s.bare.description = t.bare.description)
  have hmembers (owner : String) (r : Schema) :
      r.properties.filterMap (member? owner) = (r.properties.map view).filterMap fun w => w.member owner := by
    rw [List.filterMap_map]
    rfl
  rw [build, build, h.name_eq, hdescription, h.parentType_eq, hmembers, hmembers, h.properties]

theorem nestedDefinitions_eq (h : SchemasAlike s t) : nestedDefinitions s = nestedDefinitions t := by
  have hnested (owner : String) (r : Schema) :
      r.properties.flatMap (nestedOf owner) = (r.properties.map view).flatMap fun w => w.nested owner := by
    rw [List.flatMap_map]
    rfl
  rw [nestedDefinitions, nestedDefinitions, nestedOfAll_eq, nestedOfAll_eq, h.name_eq, hnested, hnested, h.properties]

theorem references_eq (h : SchemasAlike s t) : s.references = t.references := by
  have hreferences (r : Schema) : r.properties.flatMap Property.references = (r.properties.map view).flatMap View.references := by
    rw [List.flatMap_map]
    rfl
  rw [Schema.references, Schema.references, Schema.hasParent, Schema.hasParent, h.parentType_eq, Property.referencesAll_eq,
    Property.referencesAll_eq, hreferences, hreferences, h.properties]

end SchemasAlike

/-! ### Words whose letter case is not minded -/

/-- The data type follows from the type word in any letter case. -/
theorem ofProperty?_congr {type lower : Option String} (h : type.map asciiLower = lower.map asciiLower) (format : Option String) :
    DataType.ofProperty? type format = DataType.ofProperty? lower format := by
  unfold DataType.ofProperty?
  rw [h]

section

variable {f : String → String} (hf : Harmless f)

include hf

theorem isObject_retyped (p : Property) : (p.retyped f).isObject = p.isObject := by
  refine hf.isObject_eq ?_
  rw [Property.retyped_eq, Option.map_map]
  exact congrArg (p.type.map ·) (funext hf.again)

theorem isArray_retyped (p : Property) : (p.retyped f).isArray = p.isArray := by
  refine hf.isArray_eq ?_
  rw [Property.retyped_eq, Option.map_map]
  exact congrArg (p.type.map ·) (funext hf.again)

theorem isInline_retyped (p : Property) : (p.retyped f).isInline = p.isInline := by
  rw [Property.isInline, isObject_retyped hf, Property.retyped_eq, Property.hasNested, List.isEmpty_map]
  rfl

theorem member?_retyped (owner : String) (p : Property) : member? owner (p.retyped f) = member? owner p := by
  have hlower : (p.type.map f).map asciiLower = p.type.map asciiLower := by
    rw [Option.map_map]
    exact congrArg (p.type.map ·) (funext hf.letters)
  have hkind : kind? owner (p.retyped f) = kind? owner p := by
    rw [kind?, isObject_retyped hf, isArray_retyped hf, Property.retyped_eq, Property.hasNested, List.isEmpty_map,
      ofProperty?_congr hlower]
    rfl
  rw [member?, hkind, Property.retyped_eq]
  rfl

theorem references_retyped (p : Property) : (p.retyped f).references = p.references := by
  induction p using Property.nested_induction with
  | h p ih =>
    have hinside : (p.nested.map (Property.retyped f)).flatMap Property.references = p.nested.flatMap Property.references := by
      rw [List.flatMap_map]
      exact List.flatMap_congr ih
    rw [Property.references_eq, Property.references_eq, isObject_retyped hf, Property.retyped_eq]
    simp only [hinside]
    rfl

theorem nestedOf_retyped (p : Property) : ∀ owner, nestedOf owner (p.retyped f) = nestedOf owner p := by
  induction p using Property.nested_induction with
  | h p ih =>
    intro owner
    have hname : (p.retyped f).name = p.name := by rw [Property.retyped_eq]
    have hnested : (p.retyped f).nested = p.nested.map (Property.retyped f) := by rw [Property.retyped_eq]
    have hmembers : (p.nested.map (Property.retyped f)).filterMap (member? (owner ++ "_" ++ p.name)) =
        p.nested.filterMap (member? (owner ++ "_" ++ p.name)) := by
      rw [List.filterMap_map]
      exact List.filterMap_congr fun q _ => member?_retyped hf _ q
    have hinside : (p.nested.map (Property.retyped f)).flatMap (nestedOf (owner ++ "_" ++ p.name)) =
        p.nested.flatMap (nestedOf (owner ++ "_" ++ p.name)) := by
      rw [List.flatMap_map]
      exact List.flatMap_congr fun q hq => ih q hq _
    have hbuild : build (inlineSchema owner (p.retyped f)) = build (inlineSchema owner p) := by
      simp only [build, inlineSchema, hname, hnested, hmembers]
    rw [nestedOf_eq, nestedOf_eq, isInline_retyped hf, hbuild, hname, hnested, hinside]

theorem view_retyped (p : Property) : view (p.retyped f) = view p := by
  rw [view, view, references_retyped hf]
  congr 1
  · funext owner
    exact member?_retyped hf owner p
  · funext owner
    exact nestedOf_retyped hf p owner

/-- Documents that are the same but for words whose letter case is not minded give schemas that look the same. -/
theorem exists_schemasAlike_of_respell_eq {v w : Json} (hvw : respell f v = respell f w) {name : String} {s : Schema}
    (hs : ofJson name v = .ok s) : ∃ t, ofJson name w = .ok t ∧ SchemasAlike s t := by
  obtain ⟨t, ht, hbare, hproperties⟩ := exists_ofJson_of_respell_eq hf hvw hs
  have hview (r : Schema) : r.properties.map view = (r.properties.map (Property.retyped f)).map view := by
    rw [List.map_map]
    exact List.map_congr_left fun p _ => (view_retyped hf p).symm
  exact ⟨t, ht, hbare.symm, by rw [hview s, hview t, hproperties]⟩

end

/-! ### Properties for which no type word decides anything -/

/-- A property that is no inline object, has no default if it is an array, and is a string if its list of types begins with a null word. -/
structure FirmAs (led : Prop) (p : Property) : Prop where
  flat : p.isInline = false
  array : p.isArray = true → p.default = .null
  text : led → DataType.ofProperty? p.type p.format = some .string

/-- A declared property, in lower case, that is accepted and for which no type word decides anything. -/
def Firm (declaration : String × Json) : Prop := ∃ p, ReadAs declaration p ∧ FirmAs (NullFirst declaration.2) p

instance (v : Json) : Decidable (v = .null) :=
  match v with
  | .null => .isTrue rfl
  | .bool _ | .int _ | .real _ | .str _ | .arr _ | .obj _ => .isFalse nofun

instance (led : Prop) [Decidable led] (p : Property) : Decidable (FirmAs led p) :=
  decidable_of_iff (p.isInline = false ∧ (p.isArray = true → p.default = .null) ∧
    (led → DataType.ofProperty? p.type p.format = some .string)) ⟨fun h => ⟨h.1, h.2.1, h.2.2⟩, fun h => ⟨h.flat, h.array, h.text⟩⟩

instance : DecidablePred Firm := fun declaration =>
  match hread : property declaration.1 declaration.2 with
  | .ok p => decidable_of_iff (FirmAs (NullFirst declaration.2) p)
    ⟨fun h => ⟨p, hread, h⟩, fun h => by
      obtain ⟨q, hq, hfirm⟩ := h
      cases hread.symm.trans hq
      exact hfirm⟩
  | .error e => .isFalse fun h => by
    obtain ⟨q, hq, -⟩ := h
    cases hread.symm.trans hq

theorem ofProperty?_of_null {word : String} (hword : asciiLower word = "null") (format : Option String) :
    DataType.ofProperty? (some word) format = some .string := by
  rw [DataType.ofProperty?, Option.map_some, hword]
  rfl

theorem ofProperty?_of_isArray {p : Property} (hp : p.isArray = true) : DataType.ofProperty? p.type p.format = some .dataSet := by
  rw [Property.isArray, decide_eq_true_eq] at hp
  rw [hp]
  rfl

theorem isInline_of_nested_eq_nil {p : Property} (hempty : p.nested = []) : p.isInline = false := by
  rw [Property.isInline, Property.hasNested, hempty, List.isEmpty_nil, Bool.not_true, Bool.and_false, Bool.false_and]

section

variable {p : Property} (href : p.refType = none)

include href

theorem isReference_of_plain : p.isReference = false := by
  rw [Property.isReference, href]
  rfl

theorem isInline_of_plain : p.isInline = (p.isObject && p.hasNested) := by
  rw [Property.isInline, isReference_of_plain href, Bool.not_false, Bool.and_true]

variable (hflat : p.isInline = false)

include hflat

/-- What the member for a property is that is neither a reference nor an inline object: its data type decides alone, but an array has no value. -/
theorem kind?_of_plain (owner : String) :
    kind? owner p = (DataType.ofProperty? p.type p.format).map (.atomic · (if p.isArray then .null else p.default)) := by
  rw [isInline_of_plain href] at hflat
  rw [kind?, isReference_of_plain href, hflat, if_neg Bool.false_ne_true, if_neg Bool.false_ne_true]
  split
  · rename_i harray
    rw [ofProperty?_of_isArray harray]
    rfl
  · rfl

theorem nested_of_plain (hobject : p.isObject = true) : p.nested = [] := by
  rw [isInline_of_plain href, hobject, Bool.true_and, Property.hasNested, Bool.not_eq_false'] at hflat
  exact List.isEmpty_iff.1 hflat

theorem references_of_plain : p.references = [] := by
  rw [Property.references_eq, isReference_of_plain href, if_neg Bool.false_ne_true]
  split
  · rename_i hobject
    rw [nested_of_plain href hflat hobject, List.flatMap_nil]
  · rfl

omit href in
theorem nestedOf_of_flat (owner : String) : nestedOf owner p = [] := by
  rw [nestedOf_eq, hflat]
  rfl

end

section

variable {led : Prop} {p lowered : Property} (h : Beside led p lowered)

include h

theorem isInline_of_beside (hflat : lowered.isInline = false) : p.isInline = false := by
  cases hobject : p.isObject with
  | false =>
    rw [isInline_of_plain h.plain.1, hobject]
    rfl
  | true => exact isInline_of_nested_eq_nil (h.empty (nested_of_plain h.plain.2 hflat (h.object hobject)))

theorem view_eq_of_beside (hfirm : FirmAs led lowered) : view p = view lowered := by
  have hflat := isInline_of_beside h hfirm.flat
  obtain ⟨word, hword, lower, hlower, htype⟩ := h.type
  have hdata : DataType.ofProperty? p.type p.format = DataType.ofProperty? lowered.type lowered.format := by
    rw [h.format]
    rcases htype with hsame | ⟨hnull, hled⟩
    · exact ofProperty?_congr (by rw [hword, hlower, Option.map_some, Option.map_some, hsame]) _
    · rw [hword, ofProperty?_of_null hnull, hfirm.text hled]
  have hvalue : (if p.isArray then .null else p.default) = (if lowered.isArray then .null else lowered.default : Json) := by
    have hdefault : lowered.isArray = true → lowered.default = .null := hfirm.array
    rw [h.default]
    cases hspelled : p.isArray with
    | true => rw [h.array hspelled]
    | false =>
      cases harray : lowered.isArray with
      | true => exact hdefault harray
      | false => rfl
  rw [view, view, references_of_plain h.plain.1 hflat, references_of_plain h.plain.2 hfirm.flat]
  congr 1
  · funext owner
    rw [member?, member?, kind?_of_plain h.plain.1 hflat, kind?_of_plain h.plain.2 hfirm.flat, hdata, hvalue, h.name, h.description]
  · funext owner
    rw [nestedOf_of_flat hflat, nestedOf_of_flat hfirm.flat]

end

/-! ### Documents for which no type word decides anything -/

/-- A declared property that is firm in lower case is accepted as it is and looks the same. -/
theorem exists_property_of_firm {name : String} {v : Json} (hfirm : Firm (name, respellProperty (lowerIn typeWords) v))
    {lowered : Property} (hlowered : property name (respellProperty (lowerIn typeWords) v) = .ok lowered) :
    ∃ p, property name v = .ok p ∧ view p = view lowered := by
  have hwell := wellFormedProperty_of_respellProperty (fun _ => lowerIn_of_mem_typeWords _) ((accepted_property _).1 ⟨lowered, hlowered⟩)
  have haccepted : Accepted (property name v) := (accepted_property v).2 hwell
  obtain ⟨p, hp⟩ := haccepted
  obtain ⟨read, hread, hread'⟩ := hfirm
  cases (hread : property name _ = .ok read).symm.trans hlowered
  refine ⟨p, hp, ?_⟩
  cases v with
  | obj fields =>
    cases href : Dict.lookup "$ref" fields with
    | some target =>
      cases hp.symm.trans ((property_respellProperty_of_reference _ href).symm.trans hlowered)
      rfl
    | none => exact view_eq_of_beside (beside_of_property href hp hlowered) hread'
  | _ => cases hp

theorem exists_properties_of_firm {fields : List (String × Json)} (hfirm : ∀ d ∈ respellList (lowerIn typeWords) fields, Firm d)
    {lowered : List Property} (hlowered : List.Forall₂ ReadAs (respellList (lowerIn typeWords) fields) lowered) :
    ∃ ps, List.Forall₂ ReadAs fields ps ∧ ps.map view = lowered.map view := by
  induction fields generalizing lowered with
  | nil =>
    cases hlowered
    exact ⟨[], .nil, rfl⟩
  | cons field rest ih =>
    rw [respellList] at hfirm hlowered
    obtain ⟨q, qs, hq, hqs, rfl⟩ := List.forall₂_cons_left_iff.1 hlowered
    obtain ⟨p, hp, hpq⟩ := exists_property_of_firm (hfirm _ (List.mem_cons_self ..)) hq
    obtain ⟨ps, hps, hpsqs⟩ := ih (fun d hd => hfirm d (List.mem_cons_of_mem _ hd)) hqs
    exact ⟨p :: ps, .cons hp hps, by rw [List.map_cons, List.map_cons, hpq, hpsqs]⟩

section

variable {name : String} {v : Json} (hfirm : ∀ d ∈ declared (respell (lowerIn typeWords) v), Firm d)

include hfirm

theorem exists_schemasAlike_of_firm {t : Schema} (ht : ofJson name (respell (lowerIn typeWords) v) = .ok t) :
    ∃ s, ofJson name v = .ok s ∧ SchemasAlike s t := by
  have hlowered := (ofJson_eq_ok_iff.1 ht).2
  rw [declared_respell] at hfirm hlowered
  obtain ⟨ps, hps, halike⟩ := exists_properties_of_firm hfirm hlowered
  exact ⟨_, ofJson_of_bareDocument_eq (bareDocument_respell _ v).symm ht hps, rfl, halike⟩

theorem exists_ofJson_lower_of_firm {s : Schema} (hs : ofJson name v = .ok s) :
    ∃ t, ofJson name (respell (lowerIn typeWords) v) = .ok t := by
  obtain ⟨ps, hps⟩ := (accepted_propertyList (declared (respell (lowerIn typeWords) v))).2 fun d hd => by
    obtain ⟨p, hp, -⟩ := hfirm d hd
    exact (accepted_property d.2).1 ⟨p, hp⟩
  exact ⟨_, ofJson_of_bareDocument_eq (bareDocument_respell _ v) hs (propertyList_eq_ok_iff.1 hps)⟩

/-- All spellings of a document for which no type word decides anything give schemas that look the same. -/
theorem exists_schemasAlike_of_respelled {s : Schema} (hs : ofJson name v = .ok s) {w : Json} (hw : Respelled typeWords v w) :
    ∃ t, ofJson name w = .ok t ∧ SchemasAlike s t := by
  obtain ⟨lowered, hlowered⟩ := exists_ofJson_lower_of_firm hfirm hs
  obtain ⟨s', hs', hsame⟩ := exists_schemasAlike_of_firm hfirm hlowered
  cases hs'.symm.trans hs
  rw [← hw] at hlowered hfirm
  obtain ⟨t, ht, hother⟩ := exists_schemasAlike_of_firm hfirm hlowered
  exact ⟨t, ht, hsame.trans hother.symm⟩

end

/-! ### Documents in which a type word decides something -/

section

variable {led : Prop} {p lowered : Property} (h : Raised led p lowered)

include h

theorem isInline_of_raised : p.isInline = false := by
  rw [isInline_of_plain h.plain.1, h.noObject]
  rfl

theorem kind?_of_raised (owner : String) : kind? owner p = (DataType.ofProperty? p.type p.format).map (.atomic · p.default) := by
  rw [kind?_of_plain h.plain.1 (isInline_of_raised h), h.noArray]
  rfl

theorem member?_eq_iff_of_raised {owner : String} : member? owner p = member? owner lowered ↔ kind? owner p = kind? owner lowered := by
  rw [member?, member?, h.name, h.description]
  refine ⟨fun heq => Option.map_injective (fun k l hkl => ?_) heq, fun heq => by rw [heq]⟩
  exact congrArg Member.kind hkl

/-- What has no member in capitals has none in lower case, unless it is an inline object. -/
theorem kind?_eq_none_of_raised (hflat : lowered.isInline = false) {owner : String} (hp : kind? owner p = none) : kind? owner lowered = none := by
  rw [kind?_of_raised h, Option.map_eq_none_iff] at hp
  rw [kind?_of_plain h.plain.2 hflat, Option.map_eq_none_iff]
  obtain ⟨word, hword, lower, hlower, hsame | ⟨hnull, -⟩⟩ := h.type
  · rw [← hp, ← h.format]
    exact ofProperty?_congr (by rw [hword, hlower, Option.map_some, Option.map_some, hsame]) _
  · rw [hword, ofProperty?_of_null hnull] at hp
    cases hp

/-- What has the same member in capitals and in lower case is firm, unless it is an inline object. -/
theorem firmAs_of_raised (hflat : lowered.isInline = false) {owner : String} (heq : kind? owner p = kind? owner lowered) :
    FirmAs led lowered := by
  rw [kind?_of_raised h, kind?_of_plain h.plain.2 hflat] at heq
  refine ⟨hflat, fun harray => ?_, fun hled => ?_⟩
  · rw [ofProperty?_of_isArray harray, if_pos harray, Option.map_some, Option.map_eq_some_iff] at heq
    obtain ⟨dataType, -, hvalue⟩ := heq
    rw [← h.default]
    exact (Kind.atomic.inj hvalue).2
  · obtain ⟨word, hword, hnull⟩ := h.nullWord hled
    rw [hword, ofProperty?_of_null hnull, Option.map_some, eq_comm, Option.map_eq_some_iff] at heq
    obtain ⟨dataType, hdata, hvalue⟩ := heq
    rw [hdata, (Kind.atomic.inj hvalue).1]

end

section

variable {α β : Type} {f g : α → Option β}

theorem length_filterMap_le (xs : List α) (hnone : ∀ x ∈ xs, f x = none → g x = none) :
    (xs.filterMap g).length ≤ (xs.filterMap f).length := by
  induction xs with
  | nil => exact le_rfl
  | cons x rest ih =>
    have hrest := ih fun y hy => hnone y (List.mem_cons_of_mem _ hy)
    have hx := hnone x (List.mem_cons_self ..)
    rw [List.filterMap_cons, List.filterMap_cons]
    cases hf : f x with
    | none =>
      rw [hx hf]
      exact hrest
    | some b => cases g x <;> simp only [List.length_cons] <;> omega

/-- Two maps that give the same list agree everywhere, if the second gives nothing where the first does. -/
theorem eq_of_filterMap_eq {xs : List α} (hnone : ∀ x ∈ xs, f x = none → g x = none) (heq : xs.filterMap f = xs.filterMap g) :
    ∀ x ∈ xs, f x = g x := by
  induction xs with
  | nil => exact nofun
  | cons x rest ih =>
    have hrest : ∀ y ∈ rest, f y = none → g y = none := fun y hy => hnone y (List.mem_cons_of_mem _ hy)
    rw [List.filterMap_cons, List.filterMap_cons] at heq
    rw [List.forall_mem_cons]
    cases hf : f x with
    | none =>
      have hg := hnone x (List.mem_cons_self ..) hf
      rw [hf, hg] at heq
      exact ⟨hg.symm, ih hrest heq⟩
    | some b =>
      cases hg : g x with
      | none =>
        rw [hf, hg] at heq
        have hle := length_filterMap_le rest hrest
        have hlength := congrArg List.length heq
        simp only [List.length_cons] at hlength
        omega
      | some c =>
        rw [hf, hg] at heq
        obtain ⟨rfl, htail⟩ := List.cons.inj heq
        exact ⟨rfl, ih hrest htail⟩

end

/-- The member that a declared property gives, if it is accepted. -/
def memberOf? (owner : String) (declaration : String × Json) : Option Member :=
  (property declaration.1 declaration.2).toOption.bind (member? owner)

theorem memberOf?_of_readAs {declaration : String × Json} {p : Property} (hp : ReadAs declaration p) (owner : String) :
    memberOf? owner declaration = member? owner p := by
  rw [memberOf?, show property declaration.1 declaration.2 = .ok p from hp]
  rfl

theorem filterMap_memberOf? {fields : List (String × Json)} {ps : List Property} (hps : List.Forall₂ ReadAs fields ps) (owner : String) :
    ps.filterMap (member? owner) = fields.filterMap (memberOf? owner) := by
  induction hps with
  | nil => rfl
  | cons hp _ ih => rw [List.filterMap_cons, List.filterMap_cons, memberOf?_of_readAs hp, ih]

theorem flat_of_nestedDefinitions_eq_nil {s : Schema} (hs : nestedDefinitions s = []) : ∀ p ∈ s.properties, p.isInline = false := by
  intro p hp
  rw [nestedDefinitions, nestedOfAll_eq, List.flatMap_eq_nil_iff] at hs
  have hnone := hs p hp
  rw [nestedOf_eq] at hnone
  cases hinline : p.isInline with
  | false => rfl
  | true =>
    rw [hinline] at hnone
    cases hnone

section

variable {fields : List (String × Json)} {ups lows : List Property}
variable (hups : List.Forall₂ ReadAs (respellList raised fields) ups)
variable (hlows : List.Forall₂ ReadAs (respellList (lowerIn typeWords) fields) lows)

include hups hlows

/-- What is read in capitals and in lower case for one and the same declared property. -/
theorem exists_pair_of_mem {d : String × Json} (hd : d ∈ fields) : ∃ p q, q ∈ lows ∧
    ReadAs (d.1, respellProperty raised d.2) p ∧ ReadAs (d.1, respellProperty (lowerIn typeWords) d.2) q := by
  rw [respellList_eq] at hups hlows
  obtain ⟨p, -, hp⟩ := exists_mem_of_forall₂ hups _ (List.mem_map_of_mem hd)
  obtain ⟨q, hq, hqread⟩ := exists_mem_of_forall₂ hlows _ (List.mem_map_of_mem hd)
  exact ⟨p, q, hq, hp, hqread⟩

theorem flat_of_raised : ∀ p ∈ ups, p.isInline = false := by
  intro p hp
  obtain ⟨declaration, hdeclaration, hread⟩ := exists_mem_of_forall₂ hups.flip p hp
  rw [respellList_eq] at hdeclaration
  obtain ⟨d, hd, rfl⟩ := List.mem_map.1 hdeclaration
  obtain ⟨p', q, -, hp', hq⟩ := exists_pair_of_mem hups hlows hd
  cases (show property _ _ = .ok p from hread).symm.trans hp'
  rcases raised_or_reference hp' hq with hraised | ⟨rfl, -, hempty, -⟩
  · exact isInline_of_raised hraised
  · exact isInline_of_nested_eq_nil hempty

variable (hflat : ∀ q ∈ lows, q.isInline = false) {owner : String}
variable (hmembers : lows.filterMap (member? owner) = ups.filterMap (member? owner))

include hflat hmembers

/-- Member by member the same is made of each declared property, since what has none in capitals has none in lower case. -/
theorem memberOf?_raised_eq : ∀ d ∈ fields,
    memberOf? owner (d.1, respellProperty raised d.2) = memberOf? owner (d.1, respellProperty (lowerIn typeWords) d.2) := by
  rw [filterMap_memberOf? hlows, filterMap_memberOf? hups, respellList_eq, respellList_eq, mapFields, mapFields, List.filterMap_map,
    List.filterMap_map] at hmembers
  -- the lists are equal, so no member that is there in capitals can be missing in lower case
  refine eq_of_filterMap_eq (fun d hd hnone => ?_) hmembers.symm
  obtain ⟨p, q, hq, hpread, hqread⟩ := exists_pair_of_mem hups hlows hd
  rw [memberOf?_of_readAs hpread] at hnone
  rw [memberOf?_of_readAs hqread]
  rcases raised_or_reference hpread hqread with hraised | ⟨rfl, -⟩
  · rw [member?, Option.map_eq_none_iff] at hnone ⊢
    exact kind?_eq_none_of_raised hraised (hflat q hq) hnone
  · exact hnone

theorem firm_of_members_eq : ∀ d ∈ respellList (lowerIn typeWords) fields, Firm d := by
  have hagree := memberOf?_raised_eq hups hlows hflat hmembers
  intro lowered hlowered
  rw [respellList_eq] at hlowered
  obtain ⟨d, hd, rfl⟩ := List.mem_map.1 hlowered
  obtain ⟨p, q, hq, hpread, hqread⟩ := exists_pair_of_mem hups hlows hd
  refine ⟨q, hqread, ?_⟩
  rcases raised_or_reference hpread hqread with hraised | ⟨-, htype, -, hled⟩
  · have heq := hagree d hd
    rw [memberOf?_of_readAs hpread, memberOf?_of_readAs hqread] at heq
    exact firmAs_of_raised hraised (hflat q hq) ((member?_eq_iff_of_raised hraised).1 heq)
  · refine ⟨hflat q hq, fun harray => ?_, fun h => absurd h hled⟩
    rw [Property.isArray, htype] at harray
    cases harray

end

/-- A document that gives the same types in capitals and in lower case is one for which no type word decides anything. -/
theorem firm_of_raised {name : String} {v : Json} {upper lower : Schema} (hupper : ofJson name (respell raised v) = .ok upper)
    (hlower : ofJson name (respell (lowerIn typeWords) v) = .ok lower) (hbuild : build lower = build upper)
    (hnested : nestedDefinitions lower = nestedDefinitions upper) : ∀ d ∈ declared (respell (lowerIn typeWords) v), Firm d := by
  have hups := (ofJson_eq_ok_iff.1 hupper).2
  have hlows := (ofJson_eq_ok_iff.1 hlower).2
  rw [declared_respell] at hups hlows
  have hflat : ∀ q ∈ lower.properties, q.isInline = false := by
    refine flat_of_nestedDefinitions_eq_nil ?_
    rw [hnested, nestedDefinitions, nestedOfAll_eq, List.flatMap_eq_nil_iff]
    exact fun p hp => nestedOf_of_flat (flat_of_raised hups hlows p hp) _
  have hname : lower.name = upper.name := congrArg Definition.name hbuild
  have hmembers : lower.properties.filterMap (member? lower.name) = upper.properties.filterMap (member? lower.name) := by
    have hsame : lower.properties.filterMap (member? lower.name) = upper.properties.filterMap (member? upper.name) :=
      congrArg Definition.members hbuild
    rwa [← hname] at hsame
  rw [declared_respell]
  exact firm_of_members_eq hups hlows hflat hmembers

/-! ### Texts in different spellings -/

/-- The texts are read under the name as schemas that refer to the same types and for which the same types are made. -/
def Alike (name text text' : String) : Prop :=
  ∃ s t, parse name text = .ok s ∧ parse name text' = .ok t ∧ (∀ type, type ∈ s.references ↔ type ∈ t.references) ∧
    (build s).toJson = (build t).toJson ∧ nestedJson? s = nestedJson? t

theorem SchemasAlike.alike {name text text' : String} {s t : Schema} (h : SchemasAlike s t) (hs : parse name text = .ok s)
    (ht : parse name text' = .ok t) : Alike name text text' := by
  refine ⟨s, t, hs, ht, fun type => by rw [h.references_eq], by rw [h.build_eq], ?_⟩
  rw [nestedJson?, nestedJson?, h.nestedDefinitions_eq]

theorem nestedDefinitions_eq_of_nestedJson? {s t : Schema} (h : nestedJson? s = nestedJson? t) :
    nestedDefinitions s = nestedDefinitions t := by
  unfold nestedJson? at h
  cases hs : nestedDefinitions s with
  | nil =>
    cases ht : nestedDefinitions t with
    | nil => rfl
    | cons e es =>
      rw [hs, ht] at h
      cases h
  | cons d ds =>
    cases ht : nestedDefinitions t with
    | nil =>
      rw [hs, ht] at h
      cases h
    | cons e es =>
      rw [hs, ht] at h
      exact List.map_injective_iff.2 Definition.toJson_injective (Json.arr.inj (Option.some.inj h))

/-- A document that was read, with other type words, is the document of a text. -/
theorem read_respell {text : String} {v : Json} (hread : Json.read text = .ok v) (f : String → String) :
    Json.read (respell f v).compactText = .ok (respell f v) :=
  (legible_respell f (Json.legible_of_read hread)).read_compactText

theorem respelled_lowerIn (v : Json) : Respelled typeWords v (respell (lowerIn typeWords) v) := by
  rw [Respelled, respell_respell, lowerIn_comp_lowerIn (List.Subset.refl _)]

theorem respelled_raised (v : Json) : Respelled typeWords v (respell raised v) := by
  rw [Respelled, respell_respell, lowerIn_comp_raised]

/-- A text that is accepted keeps its references and its types when `string`, `integer`, `number` and `boolean` are written in other letter case, wherever they are the type of a property. It keeps them for every spelling of all type words if and only if, in lower case, each declared property is accepted and is no inline object, has no default if it is an array, and is a string if its list of types begins with `null`. -/
theorem alike_of_respelled_iff {name text : String} {v : Json} (hread : Json.read text = .ok v) (haccepted : Accepted (parse name text)) :
    (∀ text' w, Json.read text' = .ok w → Respelled scalarWords v w → Alike name text text') ∧
      ((∀ text' w, Json.read text' = .ok w → Respelled typeWords v w → Alike name text text') ↔
        ∀ d ∈ declared (respell (lowerIn typeWords) v), Firm d) := by
  obtain ⟨s, hparse⟩ := haccepted
  have hs := (parse_eq_ok_iff_of_read hread).1 hparse
  refine ⟨fun text' w hread' hw => ?_, fun hall => ?_, fun hfirm text' w hread' hw => ?_⟩
  · obtain ⟨t, ht, halike⟩ := exists_schemasAlike_of_respell_eq harmless_lowerIn_scalarWords (Eq.symm hw) hs
    exact halike.alike hparse ((parse_eq_ok_iff_of_read hread').2 ht)
  · -- both ends of the range of spellings give the types of the text, so they give the same types
    have hlowerRead := read_respell hread (lowerIn typeWords)
    have hupperRead := read_respell hread raised
    obtain ⟨s₁, lower, hs₁, hlower, -, hbuildLower, hnestedLower⟩ := hall _ _ hlowerRead (respelled_lowerIn v)
    obtain ⟨s₂, upper, hs₂, hupper, -, hbuildUpper, hnestedUpper⟩ := hall _ _ hupperRead (respelled_raised v)
    cases hs₁.symm.trans hs₂
    refine firm_of_raised ((parse_eq_ok_iff_of_read hupperRead).1 hupper) ((parse_eq_ok_iff_of_read hlowerRead).1 hlower) ?_ ?_
    · exact Definition.toJson_injective (hbuildLower.symm.trans hbuildUpper)
    · exact nestedDefinitions_eq_of_nestedJson? (hnestedLower.symm.trans hnestedUpper)
  · obtain ⟨t, ht, halike⟩ := exists_schemasAlike_of_respelled hfirm hs hw
    exact halike.alike hparse ((parse_eq_ok_iff_of_read hread').2 ht)

/-- A document that declares one property. -/
def declaring (property : Json) : Json := .obj [("properties", .obj [("a", property)])]

theorem read_declaring {property : Json} (hproperty : Json.Legible 3 property) :
    Json.read (declaring property).compactText = .ok (declaring property) := by
  have hlegible : Json.Legible 5 (declaring property) :=
    .obj (by simp) (by simpa using Json.Legible.obj (by simp) (by simpa using hproperty))
  exact (hlegible.mono (by decide)).read_compactText

theorem accepted_of_isOk {name text : String} {v : Json} (hread : Json.read text = .ok v) (hok : (ofJson name v).isOk = true) :
    Accepted (parse name text) := by
  cases hs : ofJson name v with
  | error cause =>
    rw [hs] at hok
    cases hok
  | ok s => exact ⟨s, (parse_eq_ok_iff_of_read hread).2 hs⟩

def optionalText : Json := .obj [("type", .arr [.str "null", .str "string"])]

theorem alike_raised_optionalText : Accepted (parse "S" (declaring optionalText).compactText) ∧
    Alike "S" (declaring optionalText).compactText (respell raised (declaring optionalText)).compactText := by
  have hread : Json.read (declaring optionalText).compactText = .ok (declaring optionalText) := by
    refine read_declaring (.obj (by simp) ?_)
    simpa using Json.Legible.arr (by simp [Json.Legible.str])
  have haccepted := accepted_of_isOk hread (show (ofJson "S" (declaring optionalText)).isOk = true by decide +kernel)
  have hfirm : ∀ d ∈ declared (respell (lowerIn typeWords) (declaring optionalText)), Firm d := by decide +kernel
  exact ⟨haccepted, (alike_of_respelled_iff hread haccepted).2.2 hfirm _ _ (read_respell hread raised) (respelled_raised _)⟩

def inlineObject : Json := .obj [("type", .str "object"), ("properties", .obj [("b", .obj [])])]

/-- In capitals an inline object has no type of its own and no member. -/
theorem not_alike_raised_inlineObject :
    ¬∀ (name text text' : String) (v w : Json), Json.read text = .ok v → Accepted (parse name text) →
      Json.read text' = .ok w → Respelled typeWords v w → Alike name text text' := by
  intro hall
  have hread : Json.read (declaring inlineObject).compactText = .ok (declaring inlineObject) := by
    have hinside : Json.Legible 2 (.obj [("b", .obj [])]) := .obj (by simp) (by simpa using Json.Legible.obj (by simp) (by simp))
    refine read_declaring (.obj (by simp) ?_)
    simpa [Json.Legible.str] using hinside
  have hupperRead := read_respell hread raised
  have haccepted := accepted_of_isOk hread (show (ofJson "S" (declaring inlineObject)).isOk = true by decide +kernel)
  have hrun : (ofJson "S" (declaring inlineObject)).toOption.map (fun s => (nestedJson? s).isSome) = some true ∧
      (ofJson "S" (respell raised (declaring inlineObject))).toOption.map (fun s => (nestedJson? s).isSome) = some false := by
    decide +kernel
  obtain ⟨s, t, hs, ht, -, -, hnested⟩ := hall "S" _ _ _ _ hread haccepted hupperRead (respelled_raised _)
  rw [(parse_eq_ok_iff_of_read hread).1 hs, (parse_eq_ok_iff_of_read hupperRead).1 ht] at hrun
  obtain ⟨hsome, hnone⟩ := hrun
  rw [Except.toOption, Option.map_some, hnested] at hsome
  rw [Except.toOption, Option.map_some] at hnone
  cases hsome.symm.trans hnone

end Udt

end TagTypes
