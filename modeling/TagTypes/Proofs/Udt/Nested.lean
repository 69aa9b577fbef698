import Mathlib.Tactic
import TagTypes.Proofs.Schema.References
import TagTypes.Udt.Build

/-!
# Types made for inline objects

The properties of a schema are a forest. An inline object in it has a type of its own if it is reached through inline objects only; the types are made in the order in which the forest is written down, and each is named by the way to its object. Among the definitions of a schema no type id leads astray: those that stand in them are the types that the schema refers to and the types made for its inline objects, and each of the latter is used.
-/

namespace TagTypes

/-! ### The properties of a schema as a forest -/

namespace Property

/-- A property at some depth, with the properties above it, the outermost first. -/
structure Node where
  above : List Property := []
  property : Property

/-- The node as it is seen from a property around it. -/
def Node.inside (p : Property) (n : Node) : Node := { n with above := p :: n.above }

/-- The node is an inline object and is reached through inline objects only. -/
def Node.isInline (n : Node) : Bool := n.above.all Property.isInline && n.property.isInline

/-- The names on the way to the node, its own last. -/
def Node.path (n : Node) : List String := n.above.map Property.name ++ [n.property.name]

mutual

/-- All nodes of a property: itself, then those inside it in the order in which they stand. -/
def nodes : Property → List Node
  | ⟨name, type, format, description, default, refType, nested, items, enum⟩ =>
    let p : Property := ⟨name, type, format, description, default, refType, nested, items, enum⟩
    { property := p } :: (nodesAll nested).map (Node.inside p)

def nodesAll : List Property → List Node
  | [] => []
  | p :: rest => nodes p ++ nodesAll rest

end

theorem nodesAll_eq (ps : List Property) : nodesAll ps = ps.flatMap nodes := by
  induction ps with
  | nil => rfl
  | cons p rest ih => rw [nodesAll, List.flatMap_cons, ih]

theorem nodes_eq (p : Property) : p.nodes = { property := p } :: (p.nested.flatMap nodes).map (Node.inside p) := by
  obtain ⟨name, type, format, description, default, refType, nested, items, enum⟩ := p
  rw [nodes, nodesAll_eq]

theorem Node.path_ne_nil (n : Node) : n.path ≠ [] := by simp [path]

theorem Node.isInline_inside (p : Property) (n : Node) : (n.inside p).isInline = (p.isInline && n.isInline) := by
  simp only [isInline, inside, List.all_cons, Bool.and_assoc]

theorem filter_isInline_nodes (p : Property) :
    p.nodes.filter Node.isInline =
      if p.isInline then { property := p } :: (p.nested.flatMap fun q => q.nodes.filter Node.isInline).map (Node.inside p)
      else [] := by
  rw [nodes_eq, List.filter_cons, List.filter_map, ← List.filter_flatMap]
  have hself : Node.isInline { property := p } = p.isInline := by simp [Node.isInline]
  have hinside : Node.isInline ∘ Node.inside p = fun n => p.isInline && n.isInline :=
    funext (Node.isInline_inside p)
  rw [hself, hinside]
  by_cases hp : p.isInline = true
  · simp [hp]
  · simp [hp]

end Property

namespace Udt

open Property (Node)

/-- The name of the type made for a node of a schema called `owner`: that name and the way to the node. -/
def nodeTypeName (owner : String) (n : Node) : String := String.intercalate "_" (owner :: n.path)

/-- The type made for a node of a schema called `owner`. -/
def nodeDefinition (owner : String) (n : Node) : Definition :=
  build {
    name := nodeTypeName owner n
    description := some ("Nested type for " ++ String.intercalate "_" (owner :: n.above.map Property.name) ++ "." ++ n.property.name)
    properties := n.property.nested }

/-- Two names at the front of a way count like one that is joined. -/
theorem intercalate_joined (owner name : String) (rest : List String) :
    String.intercalate "_" (owner :: name :: rest) = String.intercalate "_" ((owner ++ "_" ++ name) :: rest) := by
  cases rest with
  | nil => rw [String.intercalate_cons_cons, String.intercalate_singleton, String.intercalate_singleton]
  | cons next more => simp only [String.intercalate_cons_cons, String.append_assoc]

theorem nodeDefinition_inside (owner : String) (p : Property) (n : Node) :
    nodeDefinition owner (n.inside p) = nodeDefinition (owner ++ "_" ++ p.name) n := by
  simp only [nodeDefinition, nodeTypeName, Node.path, Node.inside, List.map_cons, List.cons_append, intercalate_joined]

theorem nodeDefinition_outermost (owner : String) (p : Property) :
    nodeDefinition owner { property := p } = build (inlineSchema owner p) := by
  simp only [nodeDefinition, nodeTypeName, Node.path, inlineSchema, List.map_nil, List.nil_append,
    String.intercalate_cons_cons, String.intercalate_singleton, String.append_assoc]

/-! ### The definitions of inline objects -/

theorem nestedOfAll_eq (owner : String) (ps : List Property) : nestedOfAll owner ps = ps.flatMap (nestedOf owner) := by
  induction ps with
  | nil => rfl
  | cons p rest ih => rw [nestedOfAll, List.flatMap_cons, ih]

theorem nestedOf_eq (owner : String) (p : Property) :
    nestedOf owner p =
      if p.isInline then build (inlineSchema owner p) :: p.nested.flatMap (nestedOf (owner ++ "_" ++ p.name)) else [] := by
  obtain ⟨name, type, format, description, default, refType, nested, items, enum⟩ := p
  rw [nestedOf, nestedOfAll_eq]

theorem nestedOf_eq_map (p : Property) :
    ∀ owner, nestedOf owner p = (p.nodes.filter Node.isInline).map (nodeDefinition owner) := by
  induction p using Property.nested_induction with
  | h p ih =>
    intro owner
    rw [nestedOf_eq, Property.filter_isInline_nodes]
    split
    · rw [List.map_cons, nodeDefinition_outermost, List.map_map, List.map_flatMap]
      have hinside : nodeDefinition owner ∘ Node.inside p = nodeDefinition (owner ++ "_" ++ p.name) :=
        funext (nodeDefinition_inside owner p)
      rw [hinside]
      congr 1
      exact List.flatMap_congr fun q hq => ih q hq _
    · rfl

/-- The inline objects of a schema, in the order in which they stand. -/
def inlineNodes (s : Schema) : List Node := (Property.nodesAll s.properties).filter Node.isInline

theorem nestedDefinitions_eq_map (s : Schema) : nestedDefinitions s = (inlineNodes s).map (nodeDefinition s.name) := by
  rw [nestedDefinitions, nestedOfAll_eq, inlineNodes, Property.nodesAll_eq, List.filter_flatMap, List.map_flatMap]
  exact List.flatMap_congr fun p _ => nestedOf_eq_map p s.name

/-! ### Type ids -/

/-- The value stands as type id in a written definition, for the definition itself or for one of its tags. -/
def BearsTypeId (written id : Json) : Prop :=
  written.field? "typeId" = some id ∨
    ∃ tags tag, written.field? "tags" = some (.arr tags) ∧ tag ∈ tags ∧ tag.field? "typeId" = some id

theorem field?_typeId_member (m : Member) : m.toJson.field? "typeId" = m.typeId?.map Json.str := by
  obtain ⟨name, tooltip, kind⟩ := m
  cases kind with
  | instanceOf typeId => cases tooltip <;> rfl
  | atomic dataType value => cases tooltip <;> cases value <;> rfl

theorem bearsTypeId_toJson_iff {d : Definition} {id : Json} :
    BearsTypeId d.toJson id ↔ ∃ type ∈ d.typeIds, id = .str type := by
  have hparent : d.toJson.field? "typeId" = d.parentType.map Json.str := by
    obtain ⟨name, documentation, parentType, members⟩ := d
    cases documentation <;> cases parentType <;> rfl
  have htags : d.toJson.field? "tags" = some (.arr (d.members.map Member.toJson)) := by
    obtain ⟨name, documentation, parentType, members⟩ := d
    cases documentation <;> cases parentType <;> rfl
  unfold BearsTypeId Definition.typeIds
  rw [hparent, htags]
  constructor
  · intro hbears
    rcases hbears with hown | ⟨tags, tag, htags, htag, hid⟩
    · obtain ⟨type, htype, rfl⟩ := Option.map_eq_some_iff.1 hown
      exact ⟨type, List.mem_append_left _ (Option.mem_toList.2 htype), rfl⟩
    · cases htags
      obtain ⟨m, hm, rfl⟩ := List.mem_map.1 htag
      rw [field?_typeId_member] at hid
      obtain ⟨type, htype, rfl⟩ := Option.map_eq_some_iff.1 hid
      exact ⟨type, List.mem_append_right _ (List.mem_filterMap.2 ⟨m, hm, htype⟩), rfl⟩
  · intro hfound
    obtain ⟨type, htype, rfl⟩ := hfound
    rcases List.mem_append.1 htype with hown | hmember
    · rw [Option.mem_toList] at hown
      exact Or.inl (by rw [hown]; rfl)
    · obtain ⟨m, hm, htype⟩ := List.mem_filterMap.1 hmember
      exact Or.inr ⟨_, _, rfl, List.mem_map_of_mem hm, by rw [field?_typeId_member, htype]; rfl⟩

/-- The type that the member for a property is an instance of, if it is one. -/
theorem typeId_member? (owner : String) (p : Property) :
    (member? owner p).bind Member.typeId? =
      if p.isReference then some (p.refType.getD "") else if p.isInline then some (owner ++ "_" ++ p.name) else none := by
  have hinline : p.isInline = (p.isObject && p.hasNested && !p.isReference) := rfl
  unfold member? kind?
  rw [hinline]
  cases p.isReference with
  | true => rfl
  | false =>
    cases p.isObject && p.hasNested with
    | true => rfl
    | false =>
      simp only [Bool.false_eq_true, if_false, Bool.false_and]
      split
      · rfl
      · cases DataType.ofProperty? p.type p.format <;> rfl

theorem mem_typeIds_build {s : Schema} {type : String} :
    type ∈ (build s).typeIds ↔
      s.parentType = some type ∧ type ≠ "" ∨ ∃ p ∈ s.properties, (member? s.name p).bind Member.typeId? = some type := by
  have hparent : (build s).parentType = some type ↔ s.parentType = some type ∧ type ≠ "" := by
    change filled s.parentType = some type ↔ _
    rw [filled, Option.filter_eq_some_iff, decide_eq_true_eq]
  have hmembers : type ∈ (build s).members.filterMap Member.typeId? ↔
      ∃ p ∈ s.properties, (member? s.name p).bind Member.typeId? = some type := by
    change type ∈ (s.properties.filterMap (member? s.name)).filterMap Member.typeId? ↔ _
    rw [List.filterMap_filterMap, List.mem_filterMap]
  rw [Definition.typeIds, List.mem_append, Option.mem_toList, hparent, hmembers]

theorem mem_typeIds_inlineSchema {owner type : String} {p : Property} :
    type ∈ (build (inlineSchema owner p)).typeIds ↔
      ∃ q ∈ p.nested, (member? (owner ++ "_" ++ p.name) q).bind Member.typeId? = some type := by
  rw [mem_typeIds_build]
  simp [inlineSchema]

/-- The type is the type id of the member for the property, or one in the types made for it. -/
def Brings (owner : String) (p : Property) (type : String) : Prop :=
  (member? owner p).bind Member.typeId? = some type ∨ ∃ d ∈ nestedOf owner p, type ∈ d.typeIds

/-- What one of some properties or a type made for it is like, one of the properties is like or one of all types made for them. -/
theorem exists_or_nested_iff {owner : String} {ps : List Property} (X : Property → Prop) (Y : Definition → Prop) :
    (∃ p ∈ ps, X p ∨ ∃ d ∈ nestedOf owner p, Y d) ↔ (∃ p ∈ ps, X p) ∨ ∃ d ∈ ps.flatMap (nestedOf owner), Y d := by
  simp only [List.mem_flatMap]
  constructor
  · intro hfound
    obtain ⟨p, hp, hX | ⟨d, hd, hY⟩⟩ := hfound
    · exact Or.inl ⟨p, hp, hX⟩
    · exact Or.inr ⟨d, ⟨p, hp, hd⟩, hY⟩
  · intro hcases
    rcases hcases with ⟨p, hp, hX⟩ | ⟨d, ⟨p, hp, hd⟩, hY⟩
    · exact ⟨p, hp, Or.inl hX⟩
    · exact ⟨p, hp, Or.inr ⟨d, hd, hY⟩⟩

/-- The type ids of the members for some properties and those in the types made for them, if it is known for each property what it brings. -/
theorem typeIds_properties_iff {owner type : String} {ps : List Property}
    (hps : ∀ p ∈ ps, Brings owner p type ↔ type ∈ p.references ∨ ∃ d ∈ nestedOf owner p, d.name = type) :
    ((∃ p ∈ ps, (member? owner p).bind Member.typeId? = some type) ∨
        ∃ d ∈ ps.flatMap (nestedOf owner), type ∈ d.typeIds) ↔
      type ∈ ps.flatMap Property.references ∨ ∃ d ∈ ps.flatMap (nestedOf owner), d.name = type := by
  rw [← exists_or_nested_iff, List.mem_flatMap, ← exists_or_nested_iff]
  exact exists_congr fun p => and_congr_right (hps p)

/-- What a property brings are the types it refers to and the types made for it. -/
theorem brings_iff {type : String} (p : Property) :
    ∀ owner, Brings owner p type ↔ type ∈ p.references ∨ ∃ d ∈ nestedOf owner p, d.name = type := by
  induction p using Property.nested_induction with
  | h p ih =>
    intro owner
    have hinline : p.isInline = (p.isObject && p.hasNested && !p.isReference) := rfl
    rw [Brings, typeId_member?, nestedOf_eq, Property.references_eq]
    cases href : p.isReference with
    | true =>
      rw [href, Bool.not_true, Bool.and_false] at hinline
      simp [hinline, eq_comm]
    | false =>
      cases hown : p.isInline with
      | false =>
        -- an object that is not inline has nothing in it
        have hnothing : (if p.isObject then p.nested.flatMap Property.references else []) = [] := by
          cases hobject : p.isObject with
          | false => rfl
          | true =>
            rw [hown, href, hobject] at hinline
            have hempty : p.nested = [] := by simpa [Property.hasNested] using hinline.symm
            rw [hempty]
            rfl
        simp [hnothing]
      | true =>
        have hobject : p.isObject = true := by
          rw [hown] at hinline
          simp only [Bool.true_eq, Bool.and_eq_true] at hinline
          exact hinline.1.1
        have hname : (build (inlineSchema owner p)).name = owner ++ "_" ++ p.name := rfl
        simp only [Bool.false_eq_true, if_false, if_true, hobject, Option.some.injEq, List.exists_mem_cons_iff,
          mem_typeIds_inlineSchema, hname]
        rw [typeIds_properties_iff fun q hq => ih q hq _, or_left_comm]

theorem mem_typeIds_iff {s : Schema} {type : String} :
    (∃ d ∈ nestedDefinitions s ++ [build s], type ∈ d.typeIds) ↔
      type ∈ s.references ∨ type ∈ (nestedDefinitions s).map Definition.name := by
  have hbrings : ∀ p ∈ s.properties, Brings s.name p type ↔ _ := fun p _ => brings_iff p s.name
  have hboth : (∃ d ∈ nestedDefinitions s ++ [build s], type ∈ d.typeIds) ↔
      type ∈ (build s).typeIds ∨ ∃ d ∈ nestedDefinitions s, type ∈ d.typeIds := by
    simp [or_comm]
  rw [hboth, mem_typeIds_build, nestedDefinitions, nestedOfAll_eq, or_assoc, typeIds_properties_iff hbrings, List.mem_map, ← or_assoc]
  refine or_congr_left ?_
  rw [Schema.mem_references_iff, Schema.RefersTo, List.mem_flatMap]
  simp only [Property.mem_references_iff]

/-- The types made for the inline objects of a schema are one for each inline object that is reached through inline objects only, in the order in which the properties are written, each named by the schema and the way to the object. The type ids in these definitions and that of the schema are exactly the types that the schema refers to and the types made for its inline objects. -/
theorem typeIds_closed (s : Schema) :
    nestedDefinitions s = (inlineNodes s).map (nodeDefinition s.name) ∧
      (nestedDefinitions s).map Definition.name = (inlineNodes s).map (nodeTypeName s.name) ∧
      ∀ id : Json, (∃ d ∈ nestedDefinitions s ++ [build s], BearsTypeId d.toJson id) ↔
        ∃ type, id = .str type ∧ (type ∈ s.references ∨ type ∈ (nestedDefinitions s).map Definition.name) := by
  refine ⟨nestedDefinitions_eq_map s, ?_, fun id => ?_⟩
  · rw [nestedDefinitions_eq_map, List.map_map]
    rfl
  · simp only [bearsTypeId_toJson_iff, ← mem_typeIds_iff]
    constructor
    · intro hbears
      obtain ⟨d, hd, type, htype, hid⟩ := hbears
      exact ⟨type, hid, d, hd, htype⟩
    · intro hfound
      obtain ⟨type, hid, d, hd, htype⟩ := hfound
      exact ⟨d, hd, type, htype, hid⟩

end Udt

end TagTypes
