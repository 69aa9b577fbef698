import Mathlib.Tactic
import TagTypes.Proofs.Registry.Export

/-!
# The sequence of definitions

The definitions of a schema stand in document order: those of its inline objects as the schema has its properties, an object in front of those inside it, and then the schema's own. So a member finds the type that it is an instance of in front of its own definition if that is the type of an inline object that comes before, or if the member is one of the schema's own type. It does not if it refers to the type that it belongs to, to that of an object that comes later, or from inside to the schema's own.
-/

namespace TagTypes

/-! ### What stands before in a list -/

section StandsBefore

variable {α β : Type} {xs ys : List α} {x y : α}

/-- Some `x` stands in the list before some `y`. -/
def StandsBefore (xs : List α) (x y : α) : Prop := [x, y].Sublist xs

instance [DecidableEq α] (xs : List α) (x y : α) : Decidable (StandsBefore xs x y) :=
  inferInstanceAs (Decidable ([x, y].Sublist xs))

theorem StandsBefore.mem (h : StandsBefore xs x y) : x ∈ xs ∧ y ∈ xs :=
  ⟨h.subset (by simp), h.subset (by simp)⟩

theorem not_standsBefore_nil : ¬StandsBefore [] x y := by simp [StandsBefore]

theorem standsBefore_cons_iff {z : α} : StandsBefore (z :: xs) x y ↔ x = z ∧ y ∈ xs ∨ StandsBefore xs x y := by
  rw [StandsBefore, List.sublist_cons_iff, StandsBefore, or_comm]
  refine or_congr_left ⟨?_, ?_⟩
  · rintro ⟨rest, hrest, hsublist⟩
    cases hrest
    exact ⟨rfl, List.singleton_sublist.1 hsublist⟩
  · rintro ⟨rfl, hy⟩
    exact ⟨[y], rfl, List.singleton_sublist.2 hy⟩

theorem standsBefore_append_iff :
    StandsBefore (xs ++ ys) x y ↔ StandsBefore xs x y ∨ x ∈ xs ∧ y ∈ ys ∨ StandsBefore ys x y := by
  induction xs with
  | nil => simp [not_standsBefore_nil]
  | cons z xs ih =>
    rw [List.cons_append, standsBefore_cons_iff, standsBefore_cons_iff, ih, List.mem_append, List.mem_cons]
    tauto

/-- In lists that are put together, one thing stands before another in one of the lists, or the lists that they are in stand so. -/
theorem standsBefore_flatMap_iff {f : α → List β} {a b : β} :
    StandsBefore (xs.flatMap f) a b ↔ (∃ x ∈ xs, StandsBefore (f x) a b) ∨ ∃ x y, StandsBefore xs x y ∧ a ∈ f x ∧ b ∈ f y := by
  induction xs with
  | nil => simp [not_standsBefore_nil]
  | cons z xs ih =>
    simp only [List.flatMap_cons, standsBefore_append_iff, ih, standsBefore_cons_iff, List.mem_cons, List.mem_flatMap]
    constructor
    · rintro (h | ⟨ha, y, hy, hb⟩ | ⟨x, hx, h⟩ | ⟨x, y, hxy, ha, hb⟩)
      · exact .inl ⟨z, .inl rfl, h⟩
      · exact .inr ⟨z, y, .inl ⟨rfl, hy⟩, ha, hb⟩
      · exact .inl ⟨x, .inr hx, h⟩
      · exact .inr ⟨x, y, .inr hxy, ha, hb⟩
    · rintro (⟨x, rfl | hx, h⟩ | ⟨x, y, ⟨rfl, hy⟩ | hxy, ha, hb⟩)
      · exact .inl h
      · exact .inr (.inr (.inl ⟨x, hx, h⟩))
      · exact .inr (.inl ⟨ha, y, hy, hb⟩)
      · exact .inr (.inr (.inr ⟨x, y, hxy, ha, hb⟩))

theorem standsBefore_map_iff {f : α → β} {a b : β} :
    StandsBefore (xs.map f) a b ↔ ∃ x y, StandsBefore xs x y ∧ f x = a ∧ f y = b := by
  induction xs with
  | nil => simp [not_standsBefore_nil]
  | cons z xs ih =>
    simp only [List.map_cons, standsBefore_cons_iff, ih, List.mem_map]
    constructor
    · rintro (⟨rfl, y, hy, rfl⟩ | ⟨x, y, hxy, rfl, rfl⟩)
      · exact ⟨z, y, .inl ⟨rfl, hy⟩, rfl, rfl⟩
      · exact ⟨x, y, .inr hxy, rfl, rfl⟩
    · rintro ⟨x, y, ⟨rfl, hy⟩ | hxy, rfl, rfl⟩
      · exact .inl ⟨rfl, y, hy, rfl⟩
      · exact .inr ⟨x, y, hxy, rfl, rfl⟩

theorem standsBefore_filter_iff {p : α → Bool} :
    StandsBefore (xs.filter p) x y ↔ StandsBefore xs x y ∧ p x = true ∧ p y = true := by
  constructor
  · intro h
    exact ⟨h.trans List.filter_sublist, (List.mem_filter.1 h.mem.1).2, (List.mem_filter.1 h.mem.2).2⟩
  · rintro ⟨h, hx, hy⟩
    have hkept := List.Sublist.filter p h
    rwa [List.filter_cons_of_pos hx, List.filter_cons_of_pos hy, List.filter_nil] at hkept

theorem StandsBefore.ne (h : StandsBefore xs x y) (hxs : xs.Nodup) : x ≠ y := by
  have := hxs.sublist h
  simpa using this

end StandsBefore

/-! ### Document order -/

namespace Property

/-- The node is around the other one. -/
def Node.IsAround (n m : Node) : Prop := (n.above ++ [n.property]).IsPrefix m.above

theorem Node.IsAround.length_path_lt {n m : Node} (h : n.IsAround m) : n.path.length < m.path.length := by
  have hle := h.length_le
  simp only [path, List.length_append, List.length_map, List.length_singleton] at hle ⊢
  omega

/-- In document order one node comes before the other: it is around it, or where the ways to both part it is in the property that stands first. -/
inductive Precedes : List Property → Node → Node → Prop
  | around {ps : List Property} {p : Property} {n : Node} (hp : p ∈ ps) (hn : n ∈ nodesAll p.nested) :
    Precedes ps { property := p } (n.inside p)
  | inside {ps : List Property} {p : Property} {m n : Node} (hp : p ∈ ps) (h : Precedes p.nested m n) :
    Precedes ps (m.inside p) (n.inside p)
  | apart {ps : List Property} {p q : Property} {m n : Node} (hpq : StandsBefore ps p q) (hm : m ∈ p.nodes) (hn : n ∈ q.nodes) :
    Precedes ps m n

theorem standsBefore_nodes_iff {p : Property} {m n : Node} :
    StandsBefore p.nodes m n ↔ (m = { property := p } ∧ ∃ inner ∈ nodesAll p.nested, inner.inside p = n) ∨
      ∃ m' n', StandsBefore (nodesAll p.nested) m' n' ∧ m'.inside p = m ∧ n'.inside p = n := by
  rw [nodes_eq, ← nodesAll_eq, standsBefore_cons_iff, standsBefore_map_iff, List.mem_map]

/-- If what is inside each property is listed in document order, then so are the properties with all that is inside them. -/
theorem standsBefore_nodesAll_iff_of_nested {ps : List Property}
    (hnested : ∀ p ∈ ps, ∀ m n, StandsBefore (nodesAll p.nested) m n ↔ Precedes p.nested m n) (m n : Node) :
    StandsBefore (nodesAll ps) m n ↔ Precedes ps m n := by
  rw [nodesAll_eq, standsBefore_flatMap_iff]
  constructor
  · rintro (⟨p, hp, hwithin⟩ | ⟨p, q, hpq, hm, hn⟩)
    · rcases standsBefore_nodes_iff.1 hwithin with ⟨rfl, inner, hinner, rfl⟩ | ⟨m', n', hinner, rfl, rfl⟩
      · exact .around hp hinner
      · exact .inside hp ((hnested p hp m' n').1 hinner)
    · exact .apart hpq hm hn
  · intro h
    cases h with
    | around hp hn => exact .inl ⟨_, hp, standsBefore_nodes_iff.2 (.inl ⟨rfl, _, hn, rfl⟩)⟩
    | inside hp h => exact .inl ⟨_, hp, standsBefore_nodes_iff.2 (.inr ⟨_, _, (hnested _ hp _ _).2 h, rfl, rfl⟩)⟩
    | apart hpq hm hn => exact .inr ⟨_, _, hpq, hm, hn⟩

theorem standsBefore_nested_iff (p : Property) : ∀ m n, StandsBefore (nodesAll p.nested) m n ↔ Precedes p.nested m n := by
  induction p using nested_induction with
  | h p ih => exact standsBefore_nodesAll_iff_of_nested ih

/-- The nodes of some properties are listed in document order. -/
theorem standsBefore_nodesAll_iff {ps : List Property} {m n : Node} : StandsBefore (nodesAll ps) m n ↔ Precedes ps m n :=
  standsBefore_nodesAll_iff_of_nested (fun p _ => standsBefore_nested_iff p) m n

end Property

/-! ### The definitions of a schema -/

namespace Udt

open Property (Node Precedes)
open Registry (importCall syncCalls)

/-- The types that the members of a definition are instances of. -/
def instanceTypes (d : Definition) : List String := d.members.filterMap Member.typeId?

/-- Every type that a member is an instance of stands in front of the definition of the member, if it is in the list. -/
def DefinedFirst (ds : List Definition) : Prop :=
  ∀ d ∈ ds, ∀ type ∈ instanceTypes d, type ∈ ds.map Definition.name → StandsBefore (ds.map Definition.name) type d.name

instance (ds : List Definition) : Decidable (DefinedFirst ds) :=
  inferInstanceAs (Decidable (∀ d ∈ ds, ∀ type ∈ instanceTypes d, type ∈ ds.map Definition.name →
    StandsBefore (ds.map Definition.name) type d.name))

variable {s : Schema} {type : String} {n : Node}

theorem definitions_eq (s : Schema) : definitions s = (inlineNodes s).map (nodeDefinition s.name) ++ [build s] := by
  rw [definitions, nestedDefinitions_eq_map]

theorem map_name_definitions_eq (s : Schema) :
    (definitions s).map Definition.name = (inlineNodes s).map (nodeTypeName s.name) ++ [s.name] := by
  rw [definitions_eq, List.map_append, List.map_map]
  rfl

theorem standsBefore_own_iff (hnames : ((definitions s).map Definition.name).Nodup) (htype : type ∈ (definitions s).map Definition.name) :
    StandsBefore ((definitions s).map Definition.name) type s.name ↔ type ≠ s.name := by
  refine ⟨fun h => h.ne hnames, fun hne => ?_⟩
  rw [map_name_definitions_eq, List.mem_append, List.mem_singleton] at htype
  rw [map_name_definitions_eq, standsBefore_append_iff]
  exact .inr (.inl ⟨htype.resolve_right hne, List.mem_singleton_self _⟩)

theorem standsBefore_node_iff (hnames : ((definitions s).map Definition.name).Nodup) (hn : n ∈ inlineNodes s) :
    StandsBefore ((definitions s).map Definition.name) type (nodeTypeName s.name n) ↔
      ∃ m ∈ inlineNodes s, nodeTypeName s.name m = type ∧ Precedes s.properties m n := by
  rw [map_name_definitions_eq] at hnames ⊢
  obtain ⟨hnodes, -, hapart⟩ := List.nodup_append.1 hnames
  have hnot : nodeTypeName s.name n ∉ [s.name] := fun hmem => hapart _ (List.mem_map_of_mem hn) _ hmem rfl
  rw [standsBefore_append_iff, standsBefore_map_iff]
  constructor
  · rintro (⟨m, n', hmn, htype, hsame⟩ | ⟨-, hlast⟩ | hlast)
    · obtain rfl := List.inj_on_of_nodup_map hnodes hmn.mem.2 hn hsame
      exact ⟨m, hmn.mem.1, htype, Property.standsBefore_nodesAll_iff.1 (standsBefore_filter_iff.1 hmn).1⟩
    · exact absurd hlast hnot
    · exact absurd hlast.mem.2 hnot
  · rintro ⟨m, hm, htype, hprecedes⟩
    have hinline : m.isInline = true ∧ n.isInline = true := ⟨(List.mem_filter.1 hm).2, (List.mem_filter.1 hn).2⟩
    exact .inl ⟨m, n, standsBefore_filter_iff.2 ⟨Property.standsBefore_nodesAll_iff.2 hprecedes, hinline⟩, htype, rfl⟩

/-- A synchronization imports the definitions in the same sequence, those of inline objects by one call and the own one by another. -/
theorem exists_imported_texts {σ : Type} {access : Access σ} {r : Registry σ} (hs : s.LegibleDefaults)
    (hfound : (access.lookup r.tags).1 = .found) : ∃ texts : List String, (syncCalls access s r).map Prod.fst = texts.map importCall ∧
      (texts.mapM readDefinitions).map List.flatten = .ok ((definitions s).map Definition.toJson) := by
  obtain ⟨nested, own, hcalls, -⟩ := Registry.exists_syncCalls hfound s
  have hown := readDefinitions_build hs
  refine ⟨(nestedJson? s).toList.map Json.compactText ++ [definitionText s], by rw [hcalls]; simp, ?_⟩
  cases hnested : nestedJson? s with
  | none =>
    rw [definitions, nestedDefinitions_eq_nil hnested, Option.toList_none, List.map_nil, List.nil_append, List.nil_append,
      List.mapM_cons, hown, List.mapM_nil]
    rfl
  | some v =>
    have hinline := readDefinitions_nestedJson hs hnested
    rw [definitions, Option.toList_some, List.map_singleton, List.singleton_append, List.mapM_cons, hinline, List.mapM_cons, hown,
      List.mapM_nil, List.map_append]
    rfl

/-- The definitions of a schema that was read, as they are shown and as they are imported, are those of its inline objects and then its own. If their names are distinct, a member of the own definition finds every other type of the list in front of it. A member in the definition of an inline object, if it is an instance of a type of the list but not of one made for an object inside, finds that type in front exactly if it was made for an inline object that comes before in document order. -/
theorem standsBefore_in_document_order {key text : String} (hs : Schema.parse key text = .ok s)
    (hnames : ((definitions s).map Definition.name).Nodup) :
    definitions s = (inlineNodes s).map (nodeDefinition s.name) ++ [build s] ∧
    readDefinitions (exportText s) = .ok ((definitions s).map Definition.toJson) ∧
    (∀ (σ : Type) (access : Access σ) (r : Registry σ), (access.lookup r.tags).1 = .found →
      ∃ texts : List String, (syncCalls access s r).map Prod.fst = texts.map importCall ∧
        (texts.mapM readDefinitions).map List.flatten = .ok ((definitions s).map Definition.toJson)) ∧
    (∀ type ∈ instanceTypes (build s), type ∈ (definitions s).map Definition.name →
      (StandsBefore ((definitions s).map Definition.name) type s.name ↔ type ≠ s.name)) ∧
    ∀ n ∈ inlineNodes s, ∀ type ∈ instanceTypes (nodeDefinition s.name n), type ∈ (definitions s).map Definition.name →
      (∀ m ∈ inlineNodes s, nodeTypeName s.name m = type → ¬n.IsAround m) →
        (StandsBefore ((definitions s).map Definition.name) type (nodeTypeName s.name n) ↔
          ∃ m ∈ inlineNodes s, nodeTypeName s.name m = type ∧ Precedes s.properties m n) := by
  have hread := Schema.legibleDefaults_parse hs
  have hshown : readDefinitions (exportText s ++ "") = .ok ((definitions s).map Definition.toJson) :=
    readDefinitions_exportText hread (by simp)
  rw [String.append_empty] at hshown
  exact ⟨definitions_eq s, hshown, fun σ access r => exists_imported_texts hread, fun type _ => standsBefore_own_iff hnames,
    fun n hn type _ _ _ => standsBefore_node_iff hnames hn⟩

/-- The second inline object refers to the first one, and the schema to the second one and to itself. -/
def backward : String :=
  Registry.withProperties "S" [("a", Registry.inlineObject [("x", .obj [])]),
    ("b", Registry.inlineObject [("y", .obj [("$ref", .str "S_a")])]), ("c", .obj [("$ref", .str "S_b")]), ("d", .obj [("$ref", .str "S")])]

theorem standsBefore_in_document_order_backward : ∃ s, Schema.parse "S" backward = .ok s ∧
    (definitions s).map Definition.name = ["S_a", "S_b", "S"] ∧
    StandsBefore ["S_a", "S_b", "S"] "S_b" "S" ∧ ¬StandsBefore ["S_a", "S_b", "S"] "S" "S" ∧
    StandsBefore ["S_a", "S_b", "S"] "S_a" "S_b" ∧
    ∃ n ∈ inlineNodes s, n.path = ["b"] ∧ ∃ m ∈ inlineNodes s, nodeTypeName s.name m = "S_a" ∧ Precedes s.properties m n := by
  have hrun : (Schema.parse "S" backward).toOption.map (fun s => (s.name, (definitions s).map Definition.name, instanceTypes (build s),
      (inlineNodes s).map fun n => (n.path, instanceTypes (nodeDefinition s.name n)))) =
      some ("S", ["S_a", "S_b", "S"], ["S_a", "S_b", "S_b", "S"], [(["a"], []), (["b"], ["S_a"])]) := by decide +kernel
  obtain ⟨s, hs, hfound⟩ := Option.map_eq_some_iff.1 hrun
  simp only [Prod.mk.injEq] at hfound
  obtain ⟨hname, hnames, hown, hnodes⟩ := hfound
  have hparse := toOption_eq_some_iff.1 hs
  obtain ⟨-, -, -, hownIff, hnodeIff⟩ := standsBefore_in_document_order hparse (by rw [hnames]; decide)
  rw [hnames, hname] at hownIff
  have hflat : ∀ found ∈ (inlineNodes s).map fun n => (n.path, instanceTypes (nodeDefinition s.name n)), found.1.length = 1 := by
    rw [hnodes]
    decide
  obtain ⟨n, hn, hsecond⟩ := List.mem_map.1 (hnodes ▸ List.mem_cons_of_mem _ List.mem_cons_self)
  obtain ⟨hpath, htypes⟩ := Prod.mk.inj hsecond
  have hapart : ∀ m ∈ inlineNodes s, nodeTypeName s.name m = "S_a" → ¬n.IsAround m := by
    intro m hm _ haround
    have hlt := haround.length_path_lt
    rw [hflat _ (List.mem_map_of_mem hm), hpath] at hlt
    exact absurd hlt (by decide)
  have hnested := hnodeIff n hn "S_a" (htypes ▸ List.mem_cons_self) (by rw [hnames]; simp) hapart
  have hsecondName : nodeTypeName s.name n = "S_b" := by rw [nodeTypeName, hname, hpath]; decide
  rw [hnames, hsecondName] at hnested
  refine ⟨s, hparse, hnames, (hownIff "S_b" (by rw [hown]; simp) (by simp)).2 (by decide), ?_, by decide, n, hn, hpath,
    hnested.1 (by decide)⟩
  exact fun hself => (hownIff "S" (by rw [hown]; simp) (by simp)).1 hself rfl

/-- A type that refers to itself. -/
def selfReferring : String := Registry.withProperties "S" [("a", .obj [("$ref", .str "S")])]

/-- The first inline object refers to the second one. -/
def forward : String :=
  Registry.withProperties "S" [("a", Registry.inlineObject [("x", .obj [("$ref", .str "S_b")])]),
    ("b", Registry.inlineObject [("c", .obj [])])]

/-- An inline object inside another one. -/
def nestedTwice : String := Registry.withProperties "S" [("a", Registry.inlineObject [("b", Registry.inlineObject [("c", .obj [])])])]

theorem exists_not_definedFirst {text : String} (hrun : (Schema.parse "S" text).toOption.map (fun s =>
    (decide ((definitions s).map Definition.name).Nodup, decide (DefinedFirst (definitions s)))) = some (true, false)) :
    ∃ s, Schema.parse "S" text = .ok s ∧ ((definitions s).map Definition.name).Nodup ∧ ¬DefinedFirst (definitions s) := by
  obtain ⟨s, hs, hfound⟩ := Option.map_eq_some_iff.1 hrun
  obtain ⟨hnodup, hfirst⟩ := Prod.mk.inj hfound
  exact ⟨s, toOption_eq_some_iff.1 hs, of_decide_eq_true hnodup, of_decide_eq_false hfirst⟩

/-- A type that refers to itself, a reference to a type that comes later and an object inside another one each leave a member whose type does not stand in front of it. -/
theorem not_definedFirst :
    (∃ s, Schema.parse "S" selfReferring = .ok s ∧ ((definitions s).map Definition.name).Nodup ∧ ¬DefinedFirst (definitions s)) ∧
    (∃ s, Schema.parse "S" forward = .ok s ∧ ((definitions s).map Definition.name).Nodup ∧ ¬DefinedFirst (definitions s)) ∧
    ∃ s, Schema.parse "S" nestedTwice = .ok s ∧ ((definitions s).map Definition.name).Nodup ∧ ¬DefinedFirst (definitions s) :=
  ⟨exists_not_definedFirst (by decide +kernel), exists_not_definedFirst (by decide +kernel), exists_not_definedFirst (by decide +kernel)⟩

end Udt

end TagTypes
