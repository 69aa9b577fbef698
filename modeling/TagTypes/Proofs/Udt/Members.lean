import Mathlib.Tactic
import TagTypes.Proofs.Schema.Declared
import TagTypes.Proofs.Udt.Nested

/-!
# Members of one name

A type has one member for each property that its document declares, apart from objects with nothing in them. The properties come from several sources: the field `properties` of the document and those of the entries of `allOf`. In one source no name stands twice, so the types made for inline objects, which have one source each, have no two members of one name. The type of the document itself has as many members of a name as there are sources that declare it, since a property is added to those before it, whether or not one of them is called alike.
-/

namespace TagTypes

/-- The property is an object, in any letter case, that neither refers to a type nor has one of its own. -/
def Property.isHollow (p : Property) : Bool := DataType.isNestedType p.type && !p.isReference && !p.isInline

namespace Schema

/-! ### Where properties are declared -/

/-- The properties in each of the entries of `allOf`, if it is a list. -/
def entrySources : Option Json → List (List (String × Json))
  | some (.arr entries) => entries.map declaredByEntry
  | _ => []

/-- The properties that a document declares, source by source. -/
def sources : Json → List (List (String × Json))
  | .obj fields => declaredIn fields :: entrySources (Dict.lookup "allOf" fields)
  | _ => []

theorem flatten_entrySources (entries : Option Json) : (entrySources entries).flatten = declaredByEntries entries := by
  cases entries with
  | none => rfl
  | some v =>
    cases v with
    | arr entries => rw [entrySources, declaredByEntries, List.flatMap_def]
    | _ => rfl

theorem flatten_sources (v : Json) : (sources v).flatten = declared v := by
  cases v with
  | obj fields => rw [sources, declared, List.flatten_cons, flatten_entrySources]
  | _ => rfl

theorem nodup_declaredIn {fields : List (String × Json)} (hfields : ∀ f ∈ fields, ∃ depth, Json.Legible depth f.2) :
    ((declaredIn fields).map Prod.fst).Nodup := by
  unfold declaredIn
  split
  · rename_i found hfound
    obtain ⟨depth, hlegible⟩ := hfields _ (Dict.mem_of_lookup hfound)
    exact nodup_of_legible_fields hlegible
  · exact List.nodup_nil

theorem nodup_declaredByEntry {depth : ℕ} {entry : Json} (hentry : Json.Legible depth entry) :
    ((declaredByEntry entry).map Prod.fst).Nodup := by
  cases entry with
  | obj fields => exact nodup_declaredIn (legible_of_mem_fields hentry)
  | _ => exact List.nodup_nil

/-- In a document that was read no source declares a name twice. -/
theorem nodup_of_mem_sources {depth : ℕ} {v : Json} (hv : Json.Legible depth v) :
    ∀ source ∈ sources v, (source.map Prod.fst).Nodup := by
  cases v with
  | obj fields =>
    have hfields := legible_of_mem_fields hv
    refine List.forall_mem_cons.2 ⟨nodup_declaredIn hfields, ?_⟩
    unfold entrySources
    split
    · rename_i entries hentries
      obtain ⟨inside, harr⟩ := hfields _ (Dict.mem_of_lookup hentries)
      cases harr with
      | arr hitems => exact List.forall_mem_map.2 fun entry hentry => nodup_declaredByEntry (hitems entry hentry)
    · exact nofun
  | _ => exact nofun

/-- The declaration is one of a property that has a member. -/
def hasMember (declaration : String × Json) : Bool :=
  (property declaration.1 declaration.2).toOption.any fun p => !p.isHollow

/-- The names in a source that are those of members. -/
def memberNames (source : List (String × Json)) : List String := (source.filter hasMember).map Prod.fst

theorem ReadAs.hasMember_eq {declaration : String × Json} {p : Property} (h : ReadAs declaration p) :
    hasMember declaration = !p.isHollow := by
  rw [hasMember, show property declaration.1 declaration.2 = .ok p from h]
  rfl

theorem nodup_memberNames {source : List (String × Json)} (hsource : (source.map Prod.fst).Nodup) : (memberNames source).Nodup :=
  hsource.sublist (List.filter_sublist.map Prod.fst)

theorem memberNames_flatten (groups : List (List (String × Json))) : memberNames groups.flatten = groups.flatMap memberNames := by
  rw [memberNames, List.filter_flatten, List.map_flatten, List.map_map, List.flatMap_def]
  rfl

theorem map_name_eq_memberNames {source : List (String × Json)} {ps : List Property} (hps : List.Forall₂ ReadAs source ps) :
    (ps.filter (!·.isHollow)).map Property.name = memberNames source := by
  induction hps with
  | nil => rfl
  | @cons declaration p source ps hp _ ih =>
    rw [memberNames, List.filter_cons, List.filter_cons, hp.hasMember_eq]
    split
    · rw [List.map_cons, List.map_cons, name_property hp, ih, memberNames]
    · exact ih

end Schema

namespace Udt

open Property (Node)

/-! ### Members and properties -/

theorem ofProperty?_eq_none_iff {type format : Option String} :
    DataType.ofProperty? type format = none ↔ DataType.isNestedType type = true := by
  unfold DataType.ofProperty? DataType.isNestedType
  generalize type.map Text.asciiLower = word
  simp only [decide_eq_true_eq]
  split <;> simp_all

/-- An object with nothing in it, and nothing else, has no member. -/
theorem kind?_eq_none_iff {owner : String} {p : Property} : kind? owner p = none ↔ p.isHollow = true := by
  have hinline : p.isInline = (p.isObject && p.hasNested && !p.isReference) := rfl
  have harray : p.isArray = true → DataType.isNestedType p.type = false := by
    intro hp
    rw [Property.isArray, decide_eq_true_eq] at hp
    rw [hp]
    decide
  unfold kind? Property.isHollow
  rw [hinline]
  cases p.isReference with
  | true => simp
  | false =>
    cases p.isObject && p.hasNested with
    | true => simp
    | false =>
      cases hp : p.isArray with
      | true => simp [harray hp]
      | false => simp [ofProperty?_eq_none_iff]

theorem map_name_filterMap_member? (owner : String) (ps : List Property) :
    (ps.filterMap (member? owner)).map Member.name = (ps.filter (!·.isHollow)).map Property.name := by
  induction ps with
  | nil => rfl
  | cons p rest ih =>
    rw [List.filterMap_cons, List.filter_cons, member?]
    cases hkind : kind? owner p with
    | none =>
      rw [kind?_eq_none_iff.1 hkind]
      exact ih
    | some kind =>
      have hsolid : p.isHollow = false := by
        rw [Bool.eq_false_iff]
        intro hhollow
        rw [kind?_eq_none_iff.2 hhollow] at hkind
        cases hkind
      rw [hsolid, Option.map_some, Bool.not_false, if_pos rfl, List.map_cons, List.map_cons, ih]

theorem map_name_members (s : Schema) :
    (build s).members.map Member.name = (s.properties.filter (!·.isHollow)).map Property.name :=
  map_name_filterMap_member? s.name s.properties

/-- If the properties have distinct names, the members have. -/
theorem nodup_members {s : Schema} (hs : (s.properties.map Property.name).Nodup) : ((build s).members.map Member.name).Nodup := by
  rw [map_name_members]
  exact hs.sublist (List.filter_sublist.map Property.name)

/-! ### Inline objects -/

/-- What is inside a property that was read is as the reader gives it. -/
theorem wellRead_of_mem_nodes {p : Property} (hp : p.WellRead) : ∀ n ∈ p.nodes, n.property.WellRead := by
  induction hp with
  | @intro p hdefault hnames hnested ih =>
    rw [Property.nodes_eq]
    refine List.forall_mem_cons.2 ⟨.intro hdefault hnames hnested, List.forall_mem_map.2 fun n hn => ?_⟩
    obtain ⟨q, hq, hn⟩ := List.mem_flatMap.1 hn
    exact ih q hq n hn

theorem wellRead_of_mem_inlineNodes {s : Schema} (hs : s.WellRead) : ∀ n ∈ inlineNodes s, n.property.WellRead := by
  intro n hn
  have hall := (List.mem_filter.1 hn).1
  rw [Property.nodesAll_eq] at hall
  obtain ⟨p, hp, hn⟩ := List.mem_flatMap.1 hall
  exact wellRead_of_mem_nodes (hs p hp) n hn

/-- In the types made for inline objects no two members have one name. -/
theorem nodup_members_nested {s : Schema} (hs : s.WellRead) :
    ∀ d ∈ nestedDefinitions s, (d.members.map Member.name).Nodup := by
  rw [nestedDefinitions_eq_map]
  refine List.forall_mem_map.2 fun n hn => nodup_members ?_
  cases wellRead_of_mem_inlineNodes hs n hn with
  | intro _ hnames _ => exact hnames

/-! ### The type of a document -/

section

variable {α β : Type} [DecidableEq β] {f : α → List β}

/-- In lists that have no element twice, an element stands as often as there are lists with it. -/
theorem count_flatMap_of_nodup {xs : List α} (hf : ∀ x ∈ xs, (f x).Nodup) (b : β) :
    (xs.flatMap f).count b = xs.countP fun x => b ∈ f x := by
  induction xs with
  | nil => rfl
  | cons x rest ih =>
    obtain ⟨hx, hrest⟩ := List.forall_mem_cons.1 hf
    rw [List.flatMap_cons, List.count_append, ih hrest, List.countP_cons, hx.count, add_comm]
    simp only [decide_eq_true_eq]

end

/-- The members of the type of a text have, source by source, the names that are declared there. -/
theorem map_name_members_of_ofJson {name : String} {v : Json} {s : Schema} (hs : Schema.ofJson name v = .ok s) :
    (build s).members.map Member.name = (Schema.sources v).flatMap Schema.memberNames := by
  rw [map_name_members, Schema.map_name_eq_memberNames (Schema.ofJson_eq_ok_iff.1 hs).2, ← Schema.flatten_sources,
    Schema.memberNames_flatten]

/-- In the types made for the inline objects of a text no two members have one name. The members of its own type have the names that the sources of the document declare, source by source, so there are as many of one name as sources that declare it, and no two have one name exactly if no two sources declare one, each with a member. -/
theorem nodup_members_iff {name text : String} {v : Json} {s : Schema} (hread : Json.read text = .ok v)
    (hs : Schema.parse name text = .ok s) :
    (∀ d ∈ nestedDefinitions s, (d.members.map Member.name).Nodup) ∧
      (build s).members.map Member.name = (Schema.sources v).flatMap Schema.memberNames ∧
      (∀ called, ((build s).members.map Member.name).count called =
        (Schema.sources v).countP fun source => called ∈ Schema.memberNames source) ∧
      (((build s).members.map Member.name).Nodup ↔
        (Schema.sources v).Pairwise fun source later => (Schema.memberNames source).Disjoint (Schema.memberNames later)) := by
  have hnames := map_name_members_of_ofJson ((Schema.parse_eq_ok_iff_of_read hread).1 hs)
  have hsources : ∀ source ∈ Schema.sources v, (Schema.memberNames source).Nodup := fun source hsource =>
    Schema.nodup_memberNames (Schema.nodup_of_mem_sources (Json.legible_of_read hread) source hsource)
  refine ⟨nodup_members_nested (Schema.wellRead_parse hs), hnames, fun called => ?_, ?_⟩
  · rw [hnames, count_flatMap_of_nodup hsources]
  · rw [hnames, List.nodup_flatMap]
    exact and_iff_right hsources

/-- A document that declares properties itself and in entries of `allOf`. -/
def extending (own : List (String × Json)) (entries : List (List (String × Json))) : Json :=
  .obj [("properties", .obj own), ("allOf", .arr (entries.map fun more => .obj [("properties", .obj more)]))]

theorem legible_extending {depth : ℕ} {own : List (String × Json)} {entries : List (List (String × Json))}
    (hown : Json.Legible depth (.obj own)) (hentries : ∀ more ∈ entries, Json.Legible depth (.obj more)) :
    Json.Legible (depth + 3) (extending own entries) := by
  have hlist : Json.Legible (depth + 2) (.arr (entries.map fun more => .obj [("properties", .obj more)])) := by
    refine .arr (List.forall_mem_map.2 fun more hmore => .obj (by simp) ?_)
    simpa using hentries more hmore
  exact .obj (by simp) (by simp [hlist, hown.mono (show depth ≤ depth + 2 by omega)])

/-- The object without properties is declared again, as a property that has a member. -/
def supplied : Json :=
  extending [("a", .obj [("type", .str "object"), ("properties", .obj [("x", .obj []), ("y", .obj [])])]),
    ("b", .obj [("type", .str "object")])] [[("b", .obj []), ("c", .obj [])], [("d", .obj [("type", .str "array")])]]

theorem read_supplied : Json.read supplied.compactText = .ok supplied := by
  have hnothing : ∀ {depth : ℕ}, Json.Legible (depth + 1) (.obj []) := .obj (by simp) (by simp)
  have hinside : Json.Legible 2 (.obj [("x", .obj []), ("y", .obj [])]) := .obj (by simp) (by simp [hnothing])
  have hinline : Json.Legible 3 (.obj [("type", .str "object"), ("properties", .obj [("x", .obj []), ("y", .obj [])])]) :=
    .obj (by simp) (by simp [hinside, Json.Legible.str])
  have htyped (type : String) : Json.Legible 3 (.obj [("type", .str type)]) := .obj (by simp) (by simp [Json.Legible.str])
  have hown : Json.Legible 4 (.obj [("a", .obj [("type", .str "object"), ("properties", .obj [("x", .obj []), ("y", .obj [])])]),
      ("b", .obj [("type", .str "object")])]) := .obj (by simp) (by simp [hinline, htyped])
  have hmore : Json.Legible 4 (.obj [("b", .obj []), ("c", .obj [])]) := .obj (by simp) (by simp [hnothing])
  have hlast : Json.Legible 4 (.obj [("d", .obj [("type", .str "array")])]) := .obj (by simp) (by simp [htyped])
  exact ((legible_extending hown (by simp [hmore, hlast])).mono (by decide)).read_compactText

theorem nodup_members_supplied : Json.read supplied.compactText = .ok supplied ∧
    ∃ s, Schema.parse "S" supplied.compactText = .ok s ∧
      (nestedDefinitions s).map (fun d => d.members.map Member.name) = [["x", "y"]] ∧
      (∀ d ∈ nestedDefinitions s, (d.members.map Member.name).Nodup) ∧
      (build s).members.map Member.name = ["a", "b", "c", "d"] ∧ ((build s).members.map Member.name).Nodup := by
  have hread := read_supplied
  have hrun : (Schema.ofJson "S" supplied).toOption.map (fun s => (nestedDefinitions s).map fun d => d.members.map Member.name) =
      some [["x", "y"]] := by decide +kernel
  obtain ⟨s, hs, hinside⟩ := Option.map_eq_some_iff.1 hrun
  have hparse := (Schema.parse_eq_ok_iff_of_read hread).2 (toOption_eq_some_iff.1 hs)
  obtain ⟨hnested, hnames, -, hnodup⟩ := nodup_members_iff hread hparse
  have hsources : (Schema.sources supplied).map Schema.memberNames = [["a"], ["b", "c"], ["d"]] := by decide +kernel
  rw [List.flatMap_def, hsources] at hnames
  refine ⟨hread, s, hparse, hinside, hnested, hnames, hnodup.2 ?_⟩
  rw [← List.pairwise_map (f := Schema.memberNames), hsources]
  simp

/-- A document that declares a property a second time. -/
def redeclared : Json := extending [("a", .obj [])] [[("a", .obj [])]]

/-- The second declaration makes a second member of the same name. -/
theorem not_nodup_members_redeclared :
    ¬∀ (name text : String) (s : Schema), Schema.parse name text = .ok s →
      ((build s).members.map Member.name).Nodup ∧ ∀ d ∈ nestedDefinitions s, (d.members.map Member.name).Nodup := by
  intro hall
  have hrun : (Schema.parse "S" redeclared.compactText).toOption.map (fun s => (build s).members.map Member.name) =
      some ["a", "a"] := by decide +kernel
  obtain ⟨s, hs, hnames⟩ := Option.map_eq_some_iff.1 hrun
  obtain ⟨hnodup, -⟩ := hall "S" _ s (toOption_eq_some_iff.1 hs)
  rw [hnames] at hnodup
  exact absurd hnodup (by decide)

end Udt

end TagTypes
