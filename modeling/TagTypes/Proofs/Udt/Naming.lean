import Mathlib.Tactic
import TagTypes.Proofs.Registry.Delivery
import TagTypes.Proofs.Schema.Reader
import TagTypes.Proofs.Udt.Dependency

/-!
# Names of generated types

A generated type is named by a way: the name of its schema and then those of the properties down to its inline object, joined by a mark. Different types have different ways, but since names may have the mark in them, two ways can be spelled alike. That takes a name which one way has where the other has that name, the mark and something more, while the first goes on. As long as no two ways are spelled alike, no type is stored over another one.
-/

namespace TagTypes

namespace Udt

open Property (Node)

/-! ### Ways that are spelled alike -/

/-- The name that is given to what is reached by a way. -/
def spell (way : List String) : String := String.intercalate "_" way

theorem spell_cons {rest : List String} (hrest : rest ≠ []) (name : String) : spell (name :: rest) = name ++ "_" ++ spell rest := by
  obtain ⟨next, more, rfl⟩ := List.exists_cons_of_ne_nil hrest
  exact String.intercalate_cons_cons

theorem spell_singleton (name : String) : spell [name] = name := String.intercalate_singleton

/-- Behind what both have in common, one way has a name and goes on, where the other has that name, the mark and more. -/
def PartsAtMark (way other : List String) : Prop :=
  ∃ above name more below rest, below ≠ [] ∧
    way = above ++ name :: below ∧ other = above ++ (name ++ "_" ++ more) :: rest

theorem PartsAtMark.cons {way other : List String} (h : PartsAtMark way other) (name : String) :
    PartsAtMark (name :: way) (name :: other) := by
  obtain ⟨above, marked, more, below, rest, hbelow, rfl, rfl⟩ := h
  exact ⟨name :: above, marked, more, below, rest, hbelow, rfl, rfl⟩

theorem PartsAtMark.ne {way other : List String} (h : PartsAtMark way other) : way ≠ other := by
  obtain ⟨above, name, more, below, rest, -, rfl, rfl⟩ := h
  intro heq
  obtain ⟨-, hrest⟩ := List.append_inj heq rfl
  have hlength := congrArg String.length (List.cons_eq_cons.1 hrest).1
  have hmark : "_".length = 1 := rfl
  simp only [String.length_append, hmark] at hlength
  omega

/-- A text that begins with a name and the mark, and also with another name that ends there or before a mark: one of the names begins with the other one and the mark, unless they are one. -/
theorem name_cases {name other tail rest : String} (h : name ++ "_" ++ tail = other ++ "_" ++ rest) :
    name = other ∧ tail = rest ∨ (∃ more, other = name ++ "_" ++ more) ∨ ∃ more, name = other ++ "_" ++ more := by
  have hchars : name.toList ++ ('_' :: tail.toList) = other.toList ++ ('_' :: rest.toList) := by
    simpa using congrArg String.toList h
  rcases List.append_eq_append_iff.1 hchars with ⟨between, hother, htail⟩ | ⟨between, hname, hrest⟩
  · cases between with
    | nil =>
      refine Or.inl ⟨String.toList_inj.1 (by simpa using hother.symm), String.toList_inj.1 ?_⟩
      simpa using htail
    | cons c more =>
      obtain ⟨rfl, -⟩ := List.cons_eq_cons.1 htail
      refine Or.inr (Or.inl ⟨String.ofList more, String.toList_inj.1 ?_⟩)
      simpa using hother
  · cases between with
    | nil =>
      refine Or.inl ⟨String.toList_inj.1 (by simpa using hname), String.toList_inj.1 ?_⟩
      simpa using hrest.symm
    | cons c more =>
      obtain ⟨rfl, -⟩ := List.cons_eq_cons.1 hrest
      refine Or.inr (Or.inr ⟨String.ofList more, String.toList_inj.1 ?_⟩)
      simpa using hname

/-- Two different ways that are spelled alike part at a mark. -/
theorem partsAtMark_of_spell_eq {way : List String} :
    ∀ {other : List String}, way ≠ [] → other ≠ [] → way ≠ other → spell way = spell other →
      PartsAtMark way other ∨ PartsAtMark other way := by
  induction way with
  | nil => exact fun h => absurd rfl h
  | cons name tail ih =>
    intro other _ hother hne hspell
    obtain ⟨head, rest, rfl⟩ := List.exists_cons_of_ne_nil hother
    by_cases htail : tail = []
    · subst htail
      by_cases hrest : rest = []
      · subst hrest
        simp only [spell_singleton] at hspell
        exact absurd (congrArg (fun name => [name]) hspell) hne
      · rw [spell_singleton, spell_cons hrest] at hspell
        exact Or.inr ⟨[], head, spell rest, rest, [], hrest, rfl, by rw [hspell]; rfl⟩
    · by_cases hrest : rest = []
      · subst hrest
        rw [spell_singleton, spell_cons htail] at hspell
        exact Or.inl ⟨[], name, spell tail, tail, [], htail, rfl, by rw [← hspell]; rfl⟩
      · rw [spell_cons htail, spell_cons hrest] at hspell
        rcases name_cases hspell with ⟨rfl, hbelow⟩ | ⟨more, rfl⟩ | ⟨more, rfl⟩
        · have hdiffer : tail ≠ rest := fun heq => hne (by rw [heq])
          exact (ih htail hrest hdiffer hbelow).imp (·.cons name) (·.cons name)
        · exact Or.inl ⟨[], name, more, tail, rest, htail, rfl, rfl⟩
        · exact Or.inr ⟨[], head, more, rest, tail, hrest, rfl, rfl⟩

/-! ### The ways of schemas -/

/-- The ways to the types of a schema, in their order. -/
def ways (s : Schema) : List (List String) := (inlineNodes s).map (fun n => s.name :: n.path) ++ [[s.name]]

theorem map_name_definitions (s : Schema) : (definitions s).map Definition.name = (ways s).map spell := by
  rw [definitions, nestedDefinitions_eq_map, ways, List.map_append, List.map_append, List.map_map, List.map_map,
    List.map_singleton, List.map_singleton, spell_singleton]
  rfl

theorem map_name_flatMap_definitions (schemas : List Schema) :
    (schemas.flatMap definitions).map Definition.name = (schemas.flatMap ways).map spell := by
  rw [List.map_flatMap, List.map_flatMap]
  exact List.flatMap_congr fun s _ => map_name_definitions s

theorem exists_cons_of_mem_ways {s : Schema} {way : List String} (hway : way ∈ ways s) : ∃ below, way = s.name :: below := by
  rw [ways, List.mem_append, List.mem_map, List.mem_singleton] at hway
  rcases hway with ⟨n, -, rfl⟩ | rfl
  · exact ⟨n.path, rfl⟩
  · exact ⟨[], rfl⟩

end Udt

namespace Property

/-- The ways to all nodes of a property begin with its name. -/
theorem exists_path_of_mem_nodes {p : Property} {n : Node} (hn : n ∈ p.nodes) : ∃ below, n.path = p.name :: below := by
  rw [nodes_eq, List.mem_cons, List.mem_map] at hn
  rcases hn with rfl | ⟨inner, -, rfl⟩
  · exact ⟨[], rfl⟩
  · exact ⟨inner.path, rfl⟩

/-- If distinct properties have their nodes apart each, then they have them apart from each other. -/
theorem nodup_path_flatMap {ps : List Property} (hnames : (ps.map Property.name).Nodup)
    (hps : ∀ p ∈ ps, (p.nodes.map Node.path).Nodup) : ((ps.flatMap nodes).map Node.path).Nodup := by
  rw [List.map_flatMap, List.nodup_flatMap]
  refine ⟨hps, (List.pairwise_map.1 hnames).imp fun hne => ?_⟩
  intro way hway hother
  obtain ⟨n, hn, rfl⟩ := List.mem_map.1 hway
  obtain ⟨m, hm, hpath⟩ := List.mem_map.1 hother
  obtain ⟨below, hbelow⟩ := exists_path_of_mem_nodes hn
  obtain ⟨rest, hrest⟩ := exists_path_of_mem_nodes hm
  rw [hrest, hbelow] at hpath
  exact hne (List.cons_eq_cons.1 hpath).1.symm

/-- The nodes of a property that was read are reached by different ways. -/
theorem WellRead.nodup_path {p : Property} (hp : p.WellRead) : (p.nodes.map Node.path).Nodup := by
  induction hp with
  | @intro p _ hnames _ ih =>
    have hinside : (((p.nested.flatMap nodes).map (Node.inside p)).map Node.path) =
        ((p.nested.flatMap nodes).map Node.path).map (p.name :: ·) := by
      rw [List.map_map, List.map_map]
      rfl
    rw [nodes_eq, List.map_cons, hinside, List.nodup_cons]
    constructor
    · intro hmem
      obtain ⟨way, hway, heq⟩ := List.mem_map.1 hmem
      obtain ⟨n, -, rfl⟩ := List.mem_map.1 hway
      exact n.path_ne_nil (List.cons_eq_cons.1 heq).2
    · exact (nodup_path_flatMap hnames ih).map fun way other heq => (List.cons_eq_cons.1 heq).2

end Property

namespace Udt

open Property (Node)

theorem nodup_ways {s : Schema} (hs : s.WellRead) (hnames : (s.properties.map Property.name).Nodup) : (ways s).Nodup := by
  have hnodes : ((Property.nodesAll s.properties).map Node.path).Nodup := by
    rw [Property.nodesAll_eq]
    exact Property.nodup_path_flatMap hnames fun p hp => (hs p hp).nodup_path
  have hinline : ((inlineNodes s).map Node.path).Nodup := hnodes.sublist (List.filter_sublist.map _)
  have hsplit : (inlineNodes s).map (fun n => s.name :: n.path) = ((inlineNodes s).map Node.path).map (s.name :: ·) := by
    rw [List.map_map]
    rfl
  rw [ways, hsplit, List.nodup_append]
  refine ⟨hinline.map fun way other heq => (List.cons_eq_cons.1 heq).2, List.nodup_singleton _, ?_⟩
  intro way hway other hother heq
  obtain ⟨below, hbelow, rfl⟩ := List.mem_map.1 hway
  obtain ⟨n, -, rfl⟩ := List.mem_map.1 hbelow
  rw [List.mem_singleton] at hother
  rw [hother] at heq
  exact n.path_ne_nil (List.cons_eq_cons.1 heq).2

theorem nodup_flatMap_ways {schemas : List Schema} (hread : ∀ s ∈ schemas, s.WellRead)
    (hnames : (schemas.map Schema.name).Nodup) (hproperties : ∀ s ∈ schemas, (s.properties.map Property.name).Nodup) :
    (schemas.flatMap ways).Nodup := by
  rw [List.nodup_flatMap]
  refine ⟨fun s hs => nodup_ways (hread s hs) (hproperties s hs), (List.pairwise_map.1 hnames).imp fun hne => ?_⟩
  intro way hway hother
  obtain ⟨below, rfl⟩ := exists_cons_of_mem_ways hway
  obtain ⟨rest, hrest⟩ := exists_cons_of_mem_ways hother
  exact hne (List.cons_eq_cons.1 hrest).1

theorem ne_nil_of_mem_flatMap_ways {schemas : List Schema} {way : List String} (hway : way ∈ schemas.flatMap ways) : way ≠ [] := by
  obtain ⟨s, -, hs⟩ := List.mem_flatMap.1 hway
  obtain ⟨below, rfl⟩ := exists_cons_of_mem_ways hs
  exact List.cons_ne_nil _ _

/-- The types generated for some schemas have distinct names exactly if no two ways that part at a mark are spelled alike. -/
theorem nodup_names_iff {schemas : List Schema} (hways : (schemas.flatMap ways).Nodup) :
    ((schemas.flatMap definitions).map Definition.name).Nodup ↔
      ∀ way ∈ schemas.flatMap ways, ∀ other ∈ schemas.flatMap ways, PartsAtMark way other → spell way ≠ spell other := by
  rw [map_name_flatMap_definitions, List.nodup_map_iff_inj_on hways]
  constructor
  · intro hinj way hway other hother hparts hspell
    exact hparts.ne (hinj way hway other hother hspell)
  · intro happart way hway other hother hspell
    by_contra hne
    rcases partsAtMark_of_spell_eq (ne_nil_of_mem_flatMap_ways hway) (ne_nil_of_mem_flatMap_ways hother) hne hspell with
      hparts | hparts
    · exact happart way hway other hother hparts hspell
    · exact happart other hother way hway hparts hspell.symm

/-- Of types with distinct names each one that can be stored is there after all schemas are synchronized. -/
theorem config?_syncEach {schemas : List Schema} (hread : ∀ s ∈ schemas, s.LegibleDefaults)
    (hnames : ((schemas.flatMap definitions).map Definition.name).Nodup) {arrange : List Schema → Option (List Schema)}
    {ordered : List Schema} (hordered : ordered.Perm schemas) {d : Definition} (hd : d ∈ schemas.flatMap definitions)
    (hname : TagPath.IsName d.name) (r : Registry Tags) :
    (Registry.syncEach (Tags.access arrange) ordered r).2.tags.config? (Registry.typePath d.name) = some d.toJson := by
  have hstorable : ordered.flatMap storable = (ordered.flatMap definitions).filter fun d => TagPath.IsName d.name := by
    rw [List.filter_flatMap]
    exact List.flatMap_congr fun s _ => storable_eq_filter s
  have hperm : (ordered.flatMap definitions).Perm (schemas.flatMap definitions) := hordered.flatMap_right _
  have hdistinct : ((ordered.flatMap definitions).map Definition.name).Nodup := (hperm.map _).nodup_iff.2 hnames
  have hmem : d ∈ (ordered.flatMap definitions).filter fun d => TagPath.IsName d.name :=
    List.mem_filter.2 ⟨hperm.mem_iff.2 hd, by simpa using hname⟩
  rw [Registry.tags_syncEach_eq (fun s hs => hread s (hordered.mem_iff.1 hs)), hstorable, Tags.config?,
    Registry.normalize_typePath hname, Tags.get?_storeEach_of_mem (hdistinct.sublist (List.filter_sublist.map _)) hmem]
  rfl

/-- The types generated for schemas that were read, of which no two have one name and none has two properties of one name, are named by different ways. Two different ones are spelled alike only if they part at a mark, and the names are distinct exactly if no two that do so are spelled alike. If they are distinct, to synchronize the schemas with a provider in memory leaves each type whose name can name a tag as it was built. -/
theorem distinct_names_iff {provider : String} {schemas : List Schema}
    (hread : ∀ s ∈ schemas, ∃ key text, Schema.parse key text = .ok s) (hnames : (schemas.map Schema.name).Nodup)
    (hproperties : ∀ s ∈ schemas, (s.properties.map Property.name).Nodup) {r : Registry Depot} {tags : Tags}
    (hr : r.tags.memory? provider = some tags) :
    (schemas.flatMap definitions).map Definition.name = (schemas.flatMap ways).map spell ∧ (schemas.flatMap ways).Nodup ∧
      (∀ way ∈ schemas.flatMap ways, ∀ other ∈ schemas.flatMap ways, way ≠ other → spell way = spell other →
        PartsAtMark way other ∨ PartsAtMark other way) ∧
      (((schemas.flatMap definitions).map Definition.name).Nodup ↔
        ∀ way ∈ schemas.flatMap ways, ∀ other ∈ schemas.flatMap ways, PartsAtMark way other → spell way ≠ spell other) ∧
      (((schemas.flatMap definitions).map Definition.name).Nodup →
        ∀ d ∈ schemas.flatMap definitions, TagPath.IsName d.name →
          (Registry.syncAll (Depot.access provider fun schemas => some (Dependency.order schemas)) schemas r).2.tags.config?
            provider (Registry.typePath d.name) = some d.toJson) := by
  have hwell : ∀ s ∈ schemas, s.WellRead := by
    intro s hs
    obtain ⟨key, text, hparse⟩ := hread s hs
    exact Schema.wellRead_parse hparse
  have hways := nodup_flatMap_ways hwell hnames hproperties
  have hparted : ∀ way ∈ schemas.flatMap ways, ∀ other ∈ schemas.flatMap ways, way ≠ other → spell way = spell other →
      PartsAtMark way other ∨ PartsAtMark other way := fun way hway other hother =>
    partsAtMark_of_spell_eq (ne_nil_of_mem_flatMap_ways hway) (ne_nil_of_mem_flatMap_ways hother)
  refine ⟨map_name_flatMap_definitions schemas, hways, hparted, nodup_names_iff hways, fun hdistinct d hd hname => ?_⟩
  have hrelated : Registry.Related (Depot.Keeps provider r.tags.disk) r { tags, registered := r.registered, log := r.log } :=
    ⟨⟨hr, rfl⟩, rfl, rfl⟩
  obtain ⟨-, hafter⟩ := Registry.syncAll_simulated (Depot.simulated provider r.tags.disk _) hrelated schemas
  rw [Depot.config?_of_memory? hafter.tags.1]
  exact config?_syncEach (fun s hs p hp => (hwell s hs p hp).legibleDefaults) hdistinct (Dependency.perm_order schemas) hd
    hname _

/-- A schema with an inline object in an inline object, the outer of which has a mark in its name. -/
def marked : String :=
  Registry.withProperties "A" [("b_c", Registry.inlineObject [("d", Registry.inlineObject [("e", .obj [])])])]

/-- A schema with an inline object, called like a name and the mark. -/
def markedTitle : String := Registry.withProperties "A_b" [("d", Registry.inlineObject [("e", .obj [])])]

/-- Schemas of which something is known by reading their texts. -/
theorem exists_of_parse {α : Type} (text other : String) (f : Schema → Schema → α) (found : α)
    (hrun : ((Schema.parse "k" text).toOption.bind fun s => (Schema.parse "k" other).toOption.map (f s)) = some found) :
    ∃ s t, Schema.parse "k" text = .ok s ∧ Schema.parse "k" other = .ok t ∧ f s t = found := by
  obtain ⟨s, hs, hrun⟩ := Option.bind_eq_some_iff.1 hrun
  obtain ⟨t, ht, hfound⟩ := Option.map_eq_some_iff.1 hrun
  exact ⟨s, t, toOption_eq_some_iff.1 hs, toOption_eq_some_iff.1 ht, hfound⟩

/-- The ways `A`, `b_c` and `A_b`, `d` part at a mark, but are not spelled alike. -/
theorem distinct_names_marked : ∃ s t, Schema.parse "k" marked = .ok s ∧ Schema.parse "k" markedTitle = .ok t ∧
    ([s, t].map Schema.name).Nodup ∧ (∀ u ∈ [s, t], (u.properties.map Property.name).Nodup) ∧
    (Depot.ofMemory "default").memory? "default" = some ∅ ∧
    ([s, t].flatMap definitions).map Definition.name = ["A_b_c", "A_b_c_d", "A", "A_b_d", "A_b"] ∧
    ∀ d ∈ [s, t].flatMap definitions,
      (Registry.syncAll (Depot.access "default" fun schemas => some (Dependency.order schemas)) [s, t]
        { tags := Depot.ofMemory "default" }).2.tags.config? "default" (Registry.typePath d.name) = some d.toJson := by
  obtain ⟨s, t, hs, ht, hfound⟩ := exists_of_parse marked markedTitle
    (fun s t => ([s, t].map Schema.name, [s, t].map fun u => u.properties.map Property.name,
      ([s, t].flatMap definitions).map Definition.name))
    (["A", "A_b"], [["b_c"], ["d"]], ["A_b_c", "A_b_c_d", "A", "A_b_d", "A_b"]) (by decide +kernel)
  obtain ⟨hnames, hproperties, hall⟩ := by simpa only [Prod.mk.injEq] using hfound
  have hread : ∀ u ∈ [s, t], ∃ key text, Schema.parse key text = .ok u :=
    List.forall_mem_cons.2 ⟨⟨_, _, hs⟩, List.forall_mem_singleton.2 ⟨_, _, ht⟩⟩
  have hdistinct : ([s, t].map Schema.name).Nodup := by
    rw [hnames]
    decide
  have hown : ∀ names ∈ [s, t].map fun u => u.properties.map Property.name, names.Nodup := by
    rw [hproperties]
    decide
  have hplain : ∀ name ∈ ([s, t].flatMap definitions).map Definition.name, TagPath.IsName name := by
    rw [hall]
    decide
  have hmemory := Depot.memory?_ofMemory "default"
  obtain ⟨-, -, -, -, hstored⟩ := distinct_names_iff hread hdistinct (List.forall_mem_map.1 hown)
    (r := { tags := Depot.ofMemory "default" }) hmemory
  refine ⟨s, t, hs, ht, hdistinct, List.forall_mem_map.1 hown, hmemory, hall, fun d hd => hstored ?_ d hd ?_⟩
  · rw [hall]
    decide
  · exact hplain _ (List.mem_map_of_mem hd)

/-- A schema with an inline object. -/
def nesting : String := Registry.withProperties "A" [("b", Registry.inlineObject [("c", .obj [])])]

/-- A schema that is called like the type made for the inline object of `nesting`. -/
def nestingTitle : String := (Json.obj [("title", .str "A_b")]).compactText

theorem field?_documentation (d : Definition) : d.toJson.field? "documentation" = d.documentation.map Json.str := by
  obtain ⟨name, documentation, parentType, members⟩ := d
  cases documentation <;> cases parentType <;> rfl

/-- Two schemas with different names have types of one name, and not all of their types are there after the schemas are synchronized. -/
theorem not_distinct_names_nesting : ∃ s t, Schema.parse "k" nesting = .ok s ∧ Schema.parse "k" nestingTitle = .ok t ∧
    ([s, t].map Schema.name).Nodup ∧ (∀ u ∈ [s, t], (u.properties.map Property.name).Nodup) ∧
    ¬(([s, t].flatMap definitions).map Definition.name).Nodup ∧
    ¬∀ d ∈ [s, t].flatMap definitions,
      (Registry.syncAll (Depot.access "default" fun schemas => some (Dependency.order schemas)) [s, t]
        { tags := Depot.ofMemory "default" }).2.tags.config? "default" (Registry.typePath d.name) = some d.toJson := by
  obtain ⟨s, t, hs, ht, hfound⟩ := exists_of_parse nesting nestingTitle
    (fun s t => ([s, t].map Schema.name, [s, t].map fun u => u.properties.map Property.name,
      ([s, t].flatMap definitions).map fun d => (d.name, d.documentation)))
    (["A", "A_b"], [["b"], []], [("A_b", some "Nested type for A.b"), ("A", none), ("A_b", none)]) (by decide +kernel)
  obtain ⟨hnames, hproperties, hall⟩ := by simpa only [Prod.mk.injEq] using hfound
  have hown : ∀ names ∈ [s, t].map fun u => u.properties.map Property.name, names.Nodup := by
    rw [hproperties]
    decide
  have hsplit : ([s, t].flatMap definitions).map Definition.name =
      (([s, t].flatMap definitions).map fun d => (d.name, d.documentation)).map Prod.fst := by
    rw [List.map_map]
    rfl
  have htype : ∀ documentation, ("A_b", documentation) ∈ ([s, t].flatMap definitions).map (fun d => (d.name, d.documentation)) →
      ∃ d ∈ [s, t].flatMap definitions, d.name = "A_b" ∧ d.toJson.field? "documentation" = documentation.map Json.str := by
    intro documentation hmem
    obtain ⟨d, hd, heq⟩ := List.mem_map.1 hmem
    obtain ⟨hname, rfl⟩ := Prod.mk.inj heq
    exact ⟨d, hd, hname, field?_documentation d⟩
  refine ⟨s, t, hs, ht, ?_, List.forall_mem_map.1 hown, ?_, fun hstored => ?_⟩
  · rw [hnames]
    decide
  · rw [hsplit, hall]
    decide
  · -- both types are called alike, but only one of them has a documentation
    obtain ⟨nested, hnested, hcalled, htext⟩ := htype (some "Nested type for A.b") (by rw [hall]; decide)
    obtain ⟨own, hown, hownCalled, hnone⟩ := htype none (by rw [hall]; decide)
    have hboth := (hstored nested hnested).symm.trans ((hcalled.trans hownCalled.symm) ▸ hstored own hown)
    rw [Option.some.inj hboth, hnone] at htext
    cases htext

end Udt

end TagTypes
