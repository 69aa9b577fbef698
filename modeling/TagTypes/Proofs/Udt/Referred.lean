import Mathlib.Tactic
import TagTypes.Proofs.Schema.Reference
import TagTypes.Proofs.Schema.Respelled
import TagTypes.Proofs.Udt.Dependency

/-!
# Types behind references

A document bears a reference in one of its properties, at any depth of object properties, or in the last entry of `allOf` that has one. The schema that is read from it then refers to the type for which the reference is taken. So if that is the type which the reference means, and references do not run in a circle, a schema of this type stands in front of the schema with the reference. A reference with a slash is always taken for what it means.
-/

namespace TagTypes

namespace Schema

/-- The property bears the reference, itself or in an object property inside it. -/
inductive PropertyBears (reference : String) : Json → Prop
  | here {fields : List (String × Json)} (h : Bears fields reference) : PropertyBears reference (.obj fields)
  | inside {fields : List (String × Json)} {declaration : String × Json} (hplain : Dict.lookup "$ref" fields = none)
      (hobject : typeWord (Dict.lookup "type" fields) = .ok "object") (hmem : declaration ∈ declaredIn fields)
      (h : PropertyBears reference declaration.2) : PropertyBears reference (.obj fields)

/-- The document bears the reference in a property that it declares, or in an entry of `allOf` after which no entry has another one. -/
inductive DocumentBears (reference : String) : Json → Prop
  | property {v : Json} {declaration : String × Json} (hmem : declaration ∈ declared v)
      (h : PropertyBears reference declaration.2) : DocumentBears reference v
  | entry {fields entry : List (String × Json)} {before after : List Json}
      (hentries : Dict.lookup "allOf" fields = some (.arr (before ++ .obj entry :: after))) (hentry : Bears entry reference)
      (hlast : ∀ later, .obj later ∈ after → Dict.lookup "$ref" later = none) : DocumentBears reference (.obj fields)

variable {reference name : String} {v : Json} {s t : Schema}

theorem refersTo_of_propertyBears (hv : PropertyBears reference v) (hname : referenceName reference ≠ "") {p : Property}
    (hp : property name v = .ok p) : p.RefersTo (referenceName reference) := by
  induction hv generalizing name p with
  | here h =>
    rw [property_of_bears h] at hp
    cases hp
    exact .here rfl hname
  | @inside fields declaration hplain hobject hmem _ ih =>
    obtain ⟨o, nested, items, ho, rfl, hnested⟩ := property_eq_ok hplain hp
    have hown : o.isReference = false ∧ o.isObject = true := by
      obtain ⟨type, format, description, htype, -, -, rfl⟩ := outline_eq_ok ho
      cases hobject.symm.trans htype
      exact ⟨rfl, rfl⟩
    rw [if_pos hown.2] at hnested
    obtain ⟨q, hq, hread⟩ := exists_mem_of_forall₂ (nestedProperties_eq_ok_iff.1 hnested) _ hmem
    exact .inside hown.1 hown.2 hq (ih hread)

/-- Entries without a reference leave the type that is extended. -/
theorem parentType_foldlM_extend {entries : List Json} (hplain : ∀ fields, .obj fields ∈ entries → Dict.lookup "$ref" fields = none)
    (ht : entries.foldlM extend s = .ok t) : t.parentType = s.parentType := by
  induction entries generalizing s with
  | nil =>
    cases ht
    rfl
  | cons entry rest ih =>
    rw [List.foldlM_cons] at ht
    obtain ⟨u, hu, ht⟩ := bind_eq_ok ht
    rw [ih (fun fields hfields => hplain fields (List.mem_cons_of_mem _ hfields)) ht]
    cases entry with
    | obj fields =>
      obtain ⟨parent, hparent, ps, -, required, -, rfl⟩ := extend_obj_eq_ok_iff.1 hu
      rw [textField, hplain fields List.mem_cons_self] at hparent
      cases hparent
      exact parentType_addAll s ps required
    | _ => exact absurd hu (error_ne_ok _ _)

theorem refersTo_of_documentBears (hv : DocumentBears reference v) (hname : referenceName reference ≠ "")
    (hs : ofJson name v = .ok s) : s.RefersTo (referenceName reference) := by
  cases hv with
  | property hmem h =>
    obtain ⟨p, hp, hread⟩ := exists_mem_of_forall₂ (ofJson_eq_ok_iff.1 hs).2 _ hmem
    exact .inr ⟨p, hp, refersTo_of_propertyBears h hname hread⟩
  | @entry fields entry before after hentries hentry hlast =>
    obtain ⟨title, -, id, -, description, -, required, -, ps, -, hextend⟩ := ofJson_obj_eq_ok_iff.1 hs
    rw [hentries, extendAll, List.foldlM_append] at hextend
    obtain ⟨t, -, hextend⟩ := bind_eq_ok hextend
    rw [List.foldlM_cons] at hextend
    obtain ⟨u, hu, hextend⟩ := bind_eq_ok hextend
    exact .inl ⟨(parentType_foldlM_extend hlast hextend).trans (parentType_of_bears hentry hu), hname⟩

end Schema

namespace Dependency

open Schema

variable {schemas : List Schema} {s t : Schema}

theorem pairwise_order (hacyclic : Acyclic (Uses schemas)) :
    (order schemas).Pairwise fun earlier later => ¬Uses schemas earlier.name later.name :=
  List.pairwise_map.1 (pairwise_map_name_order (fun _ huses => huses.1 rfl) (least_orderedNames hacyclic).1.respects)

/-- Without a circle of references, each schema of a type stands in front of every schema of another type that refers to it. -/
theorem mem_before_of_refersTo (hacyclic : Acyclic (Uses schemas)) (hs : s ∈ schemas) (ht : t ∈ schemas)
    (hrefers : s.RefersTo t.name) (hne : t.name ≠ s.name) {before after : List Schema}
    (horder : order schemas = before ++ s :: after) : t ∈ before := by
  have huses : Uses schemas s.name t.name := ⟨hne, ⟨t, ht, rfl⟩, s, hs, rfl, hrefers⟩
  have hmem : t ∈ before ++ s :: after := horder ▸ mem_order.2 ht
  have hpairs := pairwise_order hacyclic
  rw [horder, List.pairwise_append, List.pairwise_cons] at hpairs
  rcases List.mem_append.1 hmem with hbefore | hafter
  · exact hbefore
  · rcases List.mem_cons.1 hafter with rfl | hafter
    · exact absurd rfl hne
    · exact absurd huses (hpairs.2.1.1 t hafter)

theorem acyclic_of_topological? {names : List String} (hnames : topological? schemas = some names) : Acyclic (Uses schemas) := by
  by_contra hcircle
  rw [topological?_eq_none_iff.2 hcircle] at hnames
  cases hnames

/-- A reference means one type. With a path in front it is read as this type in a property and in an entry of `allOf`, and as it stands it is read alike if and only if it has a slash or not the ending. So in every batch without a circle of references each schema of that type stands in front of every other schema that was read from a document with the reference, behind a path or, in these cases, as it stands. -/
theorem referred_alike_iff (path reference : String) :
    ∃ type, (∀ other, Means reference other ↔ other = type) ∧
      (∀ name plain slashed, Bears plain reference → Bears slashed (path ++ "/" ++ reference) →
        ∃ p q, property name (.obj plain) = .ok p ∧ property name (.obj slashed) = .ok q ∧
          q.refType = some type ∧ (p.refType = q.refType ↔ IsTaken reference)) ∧
      (∀ plain slashed s t u, Bears plain reference → Bears slashed (path ++ "/" ++ reference) →
        extend s (.obj plain) = .ok t → extend s (.obj slashed) = .ok u →
          u.parentType = some type ∧ (t.parentType = u.parentType ↔ IsTaken reference)) ∧
      ∀ written, written = path ++ "/" ++ reference ∨ written = reference ∧ IsTaken reference →
        ∀ name text v s, Json.read text = .ok v → DocumentBears written v → parse name text = .ok s →
          ∀ schemas t, s ∈ schemas → t ∈ schemas → t.name = type → type ≠ "" → type ≠ s.name → Acyclic (Uses schemas) →
            ∀ before after, order schemas = before ++ s :: after → t ∈ before := by
  have hnames : some (referenceName reference) = some (referenceName (path ++ "/" ++ reference)) ↔ IsTaken reference := by
    rw [Option.some.injEq, referenceName_append_slash, referenceName_eq_meant_iff]
  refine ⟨meant reference, fun other => means_iff, ?_, ?_, ?_⟩
  · intro name plain slashed hplain hslashed
    exact ⟨_, _, property_of_bears hplain, property_of_bears hslashed, congrArg some (referenceName_append_slash path reference), hnames⟩
  · intro plain slashed s t u hplain hslashed ht hu
    rw [parentType_of_bears hplain ht, parentType_of_bears hslashed hu]
    exact ⟨congrArg some (referenceName_append_slash path reference), hnames⟩
  · intro written hwritten name text v s hread hbears hs schemas t hmem ht htype hempty hne hacyclic before after horder
    have htaken : referenceName written = t.name := by
      rw [htype]
      rcases hwritten with rfl | ⟨rfl, htaken⟩
      · exact referenceName_append_slash path reference
      · exact referenceName_eq_meant_iff.2 htaken
    have hrefers := refersTo_of_documentBears hbears (by rwa [htaken, htype]) ((parse_eq_ok_iff_of_read hread).1 hs)
    rw [htaken] at hrefers
    exact mem_before_of_refersTo hacyclic hmem ht hrefers (by rwa [htype]) horder

/-- A document with a property that refers to a type. -/
def referring (reference : String) : Json := .obj [("properties", .obj [("p", .obj [("$ref", .str reference)])])]

/-- The schema that is read from a document with a property that refers to a type, taken for `type`. -/
def referringSchema (name type : String) : Schema :=
  { name, properties := [{ name := "p", type := some "object", refType := some type }] }

theorem documentBears_referring (reference : String) : DocumentBears reference (referring reference) := by
  have hbears : Bears [("$ref", .str reference)] reference := rfl
  exact .property (List.mem_singleton_self ("p", Json.obj [("$ref", .str reference)])) (.here hbears)

theorem read_referring (reference : String) : Json.read (referring reference).compactText = .ok (referring reference) := by
  have hproperty : Json.Legible 1 (.obj [("$ref", .str reference)]) := .obj (by simp) (by simp [Json.Legible.str])
  have hproperties : Json.Legible 2 (.obj [("p", .obj [("$ref", .str reference)])]) := .obj (by simp) (by simpa using hproperty)
  have hdocument : Json.Legible 3 (referring reference) := .obj (by simp) (by simpa using hproperties)
  exact (hdocument.mono (by decide)).read_compactText

theorem parse_referring (name reference : String) :
    parse name (referring reference).compactText = .ok (referringSchema name (referenceName reference)) :=
  (parse_eq_ok_iff_of_read (read_referring reference)).2 rfl

theorem referred_alike_base :
    (Means "base.json" "base" ∧ ¬IsTaken "base.json") ∧
    (∃ p q, property "p" (.obj [("$ref", .str "base.json")]) = .ok p ∧ property "p" (.obj [("$ref", .str "x/base.json")]) = .ok q ∧
      q.refType = some "base" ∧ p.refType ≠ q.refType) ∧
    ∃ s, parse "A" (referring "x/base.json").compactText = .ok s ∧
      ∀ before after, order [s, { name := "base" }] = before ++ s :: after → { name := "base" } ∈ before := by
  obtain ⟨type, hmeans, hproperties, -, horder⟩ := referred_alike_iff "x" "base.json"
  have hbase : Means "base.json" "base" := ⟨"base.json", by decide, .inl rfl, .inl (by decide)⟩
  have hending : ¬IsTaken "base.json" := by unfold IsTaken; decide
  cases (hmeans "base").1 hbase
  obtain ⟨p, q, hp, hq, htype, halike⟩ := hproperties "p" [("$ref", .str "base.json")] [("$ref", .str "x/base.json")] rfl rfl
  have hacyclic : Acyclic (Uses [referringSchema "A" (referenceName "x/base.json"), { name := "base" }]) :=
    acyclic_of_topological? (show _ = some ["base", "A"] by cbv)
  refine ⟨⟨hbase, hending⟩, ⟨p, q, hp, hq, htype, fun hsame => hending (halike.1 hsame)⟩, _, parse_referring "A" "x/base.json", ?_⟩
  exact horder "x/base.json" (.inl (by decide)) "A" _ _ _ (read_referring _) (documentBears_referring _) (parse_referring _ _) _ _
    List.mem_cons_self (by simp) rfl (by decide) (by decide) hacyclic

/-- Without a slash the ending is taken for a part of the name: the property refers to no type of the batch, and its schema stands in front of the type that is meant. -/
theorem not_referred_alike_ending :
    (¬∀ path reference type, Means reference type → ∀ name plain slashed p q, Bears plain reference →
      Bears slashed (path ++ "/" ++ reference) → property name (.obj plain) = .ok p → property name (.obj slashed) = .ok q →
        p.refType = some type ∧ q.refType = some type) ∧
    ¬∀ reference type, Means reference type → ∀ name text v s, Json.read text = .ok v → DocumentBears reference v →
      parse name text = .ok s → ∀ schemas t, s ∈ schemas → t ∈ schemas → t.name = type → type ≠ "" → type ≠ s.name →
        Acyclic (Uses schemas) → ∀ before after, order schemas = before ++ s :: after → t ∈ before := by
  have hbase : Means "base.json" "base" := ⟨"base.json", by decide, .inl rfl, .inl (by decide)⟩
  constructor
  · intro hall
    obtain ⟨hwhole, -⟩ := hall "x" "base.json" "base" hbase "p" [("$ref", .str "base.json")] [("$ref", .str "x/base.json")] _ _ rfl rfl
      rfl rfl
    exact absurd hwhole (by decide +kernel)
  · intro hall
    let s := referringSchema "A" "base.json"
    let t : Schema := { name := "base" }
    have hacyclic : Acyclic (Uses [s, t]) := acyclic_of_topological? (show _ = some ["A", "base"] by cbv)
    have hnames : (order [s, t]).map Schema.name = ["A", "base"] := by cbv
    obtain ⟨first, rest, horder, hfirst, -⟩ := List.map_eq_cons_iff.1 hnames
    have hmem : first ∈ [s, t] := mem_order.1 (horder ▸ List.mem_cons_self)
    obtain rfl : first = s := by
      rcases List.mem_cons.1 hmem with hs | ht
      · exact hs
      · rw [List.mem_singleton.1 ht] at hfirst
        exact absurd hfirst (by decide)
    have hbefore := hall "base.json" "base" hbase "A" _ _ s (read_referring "base.json") (documentBears_referring _)
      (parse_referring "A" "base.json") [s, t] t List.mem_cons_self (by simp) rfl (by decide) (by decide) hacyclic [] rest horder
    exact List.not_mem_nil hbefore

end Dependency

end TagTypes
