import Mathlib.Tactic
import TagTypes.Proofs.Schema.Reader

/-!
# What a document declares

The properties of a schema are declared in its document: in the field `properties` and in those of the entries of `allOf`. Everything else that the reader takes from the document is taken without looking at a property. So a document is read as a schema if each declared property is read and the document is read without any of them, and then the schema is made of these two.
-/

namespace TagTypes.Schema

/-! ### Declared properties -/

/-- The properties in the field `properties`, by name, if it is an object. -/
def declaredIn (fields : List (String × Json)) : List (String × Json) :=
  match Dict.lookup "properties" fields with
  | some (.obj found) => found
  | _ => []

/-- The properties that an entry of `allOf` declares. -/
def declaredByEntry : Json → List (String × Json)
  | .obj fields => declaredIn fields
  | _ => []

/-- The properties in the entries of `allOf`, if it is a list. -/
def declaredByEntries : Option Json → List (String × Json)
  | some (.arr entries) => entries.flatMap declaredByEntry
  | _ => []

/-- The properties that a document declares, in the order in which the schema has them. -/
def declared : Json → List (String × Json)
  | .obj fields => declaredIn fields ++ declaredByEntries (Dict.lookup "allOf" fields)
  | _ => []

/-! ### Other properties in a document -/

/-- Change the value of each field by its name. -/
def mapFields (g : String → Json → Json) (fields : List (String × Json)) : List (String × Json) :=
  fields.map fun f => (f.1, g f.1 f.2)

theorem lookup_mapFields (g : String → Json → Json) (name : String) (fields : List (String × Json)) :
    Dict.lookup name (mapFields g fields) = (Dict.lookup name fields).map (g name) := by
  induction fields with
  | nil => rfl
  | cons f rest ih =>
    rw [mapFields, List.map_cons, Dict.lookup, Dict.lookup]
    split
    · rename_i heq
      rw [heq, Option.map_some]
    · exact ih

section

variable (g : List (String × Json) → List (String × Json))

def mapObject : Json → Json
  | .obj found => .obj (g found)
  | v => v

def mapPropertiesField (name : String) (v : Json) : Json := if name = "properties" then mapObject g v else v

def mapEntry : Json → Json
  | .obj fields => .obj (mapFields (mapPropertiesField g) fields)
  | v => v

def mapEntries : Json → Json
  | .arr entries => .arr (entries.map (mapEntry g))
  | v => v

def mapDocumentField (name : String) (v : Json) : Json :=
  if name = "allOf" then mapEntries g v else mapPropertiesField g name v

/-- Put other lists of properties where the document declares some. -/
def mapDeclared : Json → Json
  | .obj fields => .obj (mapFields (mapDocumentField g) fields)
  | v => v

theorem lookup_mapFields_properties (fields : List (String × Json)) :
    Dict.lookup "properties" (mapFields (mapPropertiesField g) fields) = (Dict.lookup "properties" fields).map (mapObject g) := by
  rw [lookup_mapFields]
  rfl

/-- Of the fields of an entry only `properties` is changed. -/
theorem lookup_mapFields_of_ne {name : String} (hname : name ≠ "properties") (fields : List (String × Json)) :
    Dict.lookup name (mapFields (mapPropertiesField g) fields) = Dict.lookup name fields := by
  have hsame : mapPropertiesField g name = fun v => v := funext fun v => if_neg hname
  rw [lookup_mapFields, hsame, Option.map_id']

theorem lookup_mapDocument_properties (fields : List (String × Json)) :
    Dict.lookup "properties" (mapFields (mapDocumentField g) fields) = (Dict.lookup "properties" fields).map (mapObject g) := by
  rw [lookup_mapFields]
  rfl

theorem lookup_mapDocument_allOf (fields : List (String × Json)) :
    Dict.lookup "allOf" (mapFields (mapDocumentField g) fields) = (Dict.lookup "allOf" fields).map (mapEntries g) := by
  rw [lookup_mapFields]
  rfl

/-- Of the fields of a document only `properties` and `allOf` are changed. -/
theorem lookup_mapDocument_of_ne {name : String} (hname : name ≠ "properties") (hallOf : name ≠ "allOf")
    (fields : List (String × Json)) : Dict.lookup name (mapFields (mapDocumentField g) fields) = Dict.lookup name fields := by
  have hsame : mapDocumentField g name = fun v => v := funext fun v => (if_neg hallOf).trans (if_neg hname)
  rw [lookup_mapFields, hsame, Option.map_id']

theorem declaredIn_of_lookup {fields changed : List (String × Json)} (hnil : g [] = [])
    (h : Dict.lookup "properties" changed = (Dict.lookup "properties" fields).map (mapObject g)) :
    declaredIn changed = g (declaredIn fields) := by
  unfold declaredIn
  rw [h]
  cases Dict.lookup "properties" fields with
  | none => exact hnil.symm
  | some v => cases v <;> first | rfl | exact hnil.symm

theorem declaredByEntry_mapEntry (hnil : g [] = []) (v : Json) : declaredByEntry (mapEntry g v) = g (declaredByEntry v) := by
  cases v with
  | obj fields => exact declaredIn_of_lookup g hnil (lookup_mapFields_properties g fields)
  | _ => exact hnil.symm

theorem declaredByEntries_mapEntries (hnil : g [] = []) (happend : ∀ xs ys, g (xs ++ ys) = g xs ++ g ys) (v : Option Json) :
    declaredByEntries (v.map (mapEntries g)) = g (declaredByEntries v) := by
  have hentries : ∀ entries : List Json,
      (entries.map (mapEntry g)).flatMap declaredByEntry = g (entries.flatMap declaredByEntry) := by
    intro entries
    induction entries with
    | nil => exact hnil.symm
    | cons entry rest ih =>
      rw [List.map_cons, List.flatMap_cons, List.flatMap_cons, happend, ih, declaredByEntry_mapEntry g hnil]
  cases v with
  | none => exact hnil.symm
  | some v =>
    cases v with
    | arr entries => exact hentries entries
    | _ => exact hnil.symm

/-- What a document with other properties declares. -/
theorem declared_mapDeclared (hnil : g [] = []) (happend : ∀ xs ys, g (xs ++ ys) = g xs ++ g ys) (v : Json) :
    declared (mapDeclared g v) = g (declared v) := by
  cases v with
  | obj fields =>
    rw [mapDeclared, declared, declared, happend, lookup_mapDocument_allOf, declaredByEntries_mapEntries g hnil happend,
      declaredIn_of_lookup g hnil (lookup_mapDocument_properties g fields)]
  | _ => exact hnil.symm

/-! ### Changing the properties twice -/

variable (g' : List (String × Json) → List (String × Json))

theorem mapFields_mapFields (h h' : String → Json → Json) (fields : List (String × Json)) :
    mapFields h (mapFields h' fields) = mapFields (fun name => h name ∘ h' name) fields := by
  rw [mapFields, mapFields, List.map_map]
  rfl

theorem mapObject_mapObject (v : Json) : mapObject g (mapObject g' v) = mapObject (g ∘ g') v := by
  cases v <;> rfl

theorem mapPropertiesField_mapPropertiesField (name : String) (v : Json) :
    mapPropertiesField g name (mapPropertiesField g' name v) = mapPropertiesField (g ∘ g') name v := by
  unfold mapPropertiesField
  split
  · exact mapObject_mapObject g g' v
  · rfl

theorem mapEntry_mapEntry (v : Json) : mapEntry g (mapEntry g' v) = mapEntry (g ∘ g') v := by
  cases v with
  | obj fields =>
    rw [mapEntry, mapEntry, mapEntry, mapFields_mapFields]
    congr 2
    funext name v
    exact mapPropertiesField_mapPropertiesField g g' name v
  | _ => rfl

theorem mapDocumentField_mapDocumentField (name : String) (v : Json) :
    mapDocumentField g name (mapDocumentField g' name v) = mapDocumentField (g ∘ g') name v := by
  unfold mapDocumentField
  split
  · cases v with
    | arr entries =>
      rw [mapEntries, mapEntries, mapEntries, List.map_map]
      congr 2
      funext entry
      exact mapEntry_mapEntry g g' entry
    | _ => rfl
  · exact mapPropertiesField_mapPropertiesField g g' name v

theorem mapDeclared_mapDeclared (v : Json) : mapDeclared g (mapDeclared g' v) = mapDeclared (g ∘ g') v := by
  cases v with
  | obj fields =>
    rw [mapDeclared, mapDeclared, mapDeclared, mapFields_mapFields]
    congr 2
    funext name v
    exact mapDocumentField_mapDocumentField g g' name v
  | _ => rfl

end

/-! ### The reader takes declared properties one by one -/

theorem error_ne_ok {ε α : Type} (e : ε) (a : α) : (Except.error e : Except ε α) ≠ .ok a := by
  simp

/-- The property is what the reader makes of a declared one. -/
def ReadAs (declaration : String × Json) (p : Property) : Prop := property declaration.1 declaration.2 = .ok p

theorem exists_mem_of_forall₂ {α β : Type} {R : α → β → Prop} {xs : List α} {ys : List β} (h : List.Forall₂ R xs ys) :
    ∀ x ∈ xs, ∃ y ∈ ys, R x y := by
  induction h with
  | nil => exact nofun
  | @cons x y rest more hxy _ ih =>
    rw [List.forall_mem_cons]
    exact ⟨⟨y, List.mem_cons_self .., hxy⟩, fun x hx => (ih x hx).imp fun y hy => ⟨List.mem_cons_of_mem _ hy.1, hy.2⟩⟩

theorem propertyList_eq_ok_iff {fields : List (String × Json)} {ps : List Property} :
    propertyList fields = .ok ps ↔ List.Forall₂ ReadAs fields ps := by
  induction fields generalizing ps with
  | nil => exact ⟨fun h => by cases h; exact .nil, fun h => by cases h; rfl⟩
  | cons f rest ih =>
    obtain ⟨name, v⟩ := f
    rw [propertyList, List.forall₂_cons_left_iff]
    constructor
    · intro hps
      obtain ⟨p, hp, hps⟩ := bind_eq_ok hps
      obtain ⟨more, hmore, hps⟩ := bind_eq_ok hps
      cases hps
      exact ⟨p, more, hp, ih.1 hmore, rfl⟩
    · intro hps
      obtain ⟨p, more, hp, hmore, rfl⟩ := hps
      rw [show property name v = .ok p from hp, ih.2 hmore]
      rfl

theorem nestedProperties_eq (fields : List (String × Json)) : nestedProperties fields = propertyList (declaredIn fields) := by
  induction fields with
  | nil => rfl
  | cons f rest ih =>
    obtain ⟨name, v⟩ := f
    rw [nestedProperties, declaredIn, Dict.lookup]
    split
    · cases v <;> rfl
    · rw [ih]
      rfl

theorem nestedProperties_eq_ok_iff {fields : List (String × Json)} {ps : List Property} :
    nestedProperties fields = .ok ps ↔ List.Forall₂ ReadAs (declaredIn fields) ps := by
  rw [nestedProperties_eq, propertyList_eq_ok_iff]

theorem forall₂_readAs_append_iff {fields more : List (String × Json)} {ps : List Property} :
    List.Forall₂ ReadAs (fields ++ more) ps ↔
      ∃ qs rs, List.Forall₂ ReadAs fields qs ∧ List.Forall₂ ReadAs more rs ∧ ps = qs ++ rs := by
  constructor
  · intro hps
    exact ⟨ps.take fields.length, ps.drop fields.length, (List.forall₂_take_append _ _ _ hps.flip).flip,
      (List.forall₂_drop_append _ _ _ hps.flip).flip, (List.take_append_drop _ _).symm⟩
  · rintro ⟨qs, rs, hqs, hrs, rfl⟩
    exact List.rel_append hqs hrs

/-! ### A schema without its properties -/

/-- The schema without its properties. -/
def bare (s : Schema) : Schema := { s with properties := [] }

@[simp] theorem properties_bare (s : Schema) : s.bare.properties = [] := rfl

theorem bare_addRequired (s : Schema) (name : String) : s.bare.addRequired name = (s.addRequired name).bare := by
  unfold addRequired
  by_cases hin : s.required.contains name = true
  · rw [if_pos hin]
    exact if_pos hin
  · rw [if_neg hin]
    exact if_neg hin

theorem bare_addAll (s : Schema) (ps : List Property) (required : List String) :
    (s.addAll ps required).bare = s.bare.addAll [] required :=
  (List.foldl_hom bare bare_addRequired).symm

theorem eq_of_bare_eq {s t : Schema} (hbare : s.bare = t.bare) (hproperties : s.properties = t.properties) : s = t := by
  obtain ⟨name, id, description, parentType, properties, required⟩ := s
  obtain ⟨name', id', description', parentType', properties', required'⟩ := t
  cases hproperties
  cases hbare
  rfl

theorem addAll_eq_iff {s t : Schema} {ps : List Property} {required : List String} :
    s.addAll ps required = t ↔ s.bare.addAll [] required = t.bare ∧ t.properties = s.properties ++ ps := by
  rw [← bare_addAll s ps]
  constructor
  · rintro rfl
    exact ⟨rfl, properties_addAll s ps required⟩
  · rintro ⟨hbare, hproperties⟩
    exact eq_of_bare_eq hbare ((properties_addAll s ps required).trans hproperties.symm)

/-- The schema, extending the type that is referred to, if any is. -/
def referTo (s : Schema) : Option String → Schema
  | some reference => { s with parentType := some (referenceName reference) }
  | none => s

theorem extend_obj_eq_ok_iff {s t : Schema} {fields : List (String × Json)} :
    extend s (.obj fields) = .ok t ↔ ∃ parent, textField "$ref" fields = .ok parent ∧ ∃ ps, nestedProperties fields = .ok ps ∧
      ∃ required, requiredNames fields = .ok required ∧ (s.referTo parent).addAll ps required = t := by
  have hread : extend s (.obj fields) = (do
      let parent ← textField "$ref" fields
      let ps ← nestedProperties fields
      let required ← requiredNames fields
      return (s.referTo parent).addAll ps required) := by
    rw [extend]
    congr 1
  rw [hread]
  simp only [bind_eq_ok_iff, pure, Except.pure, Except.ok.injEq]

/-! ### A document without its properties -/

/-- An entry of `allOf` without the properties that it declares. -/
def bareEntry (entry : Json) : Json := mapEntry (fun _ => []) entry

/-- What is left of a document without the properties that it declares. -/
def bareDocument (v : Json) : Json := mapDeclared (fun _ => []) v

/-- An entry gives a schema the properties that it declares and, without them, everything else. -/
theorem extend_eq_ok_iff {s t : Schema} {entry : Json} :
    extend s entry = .ok t ↔ extend s.bare (bareEntry entry) = .ok t.bare ∧
      ∃ ps, List.Forall₂ ReadAs (declaredByEntry entry) ps ∧ t.properties = s.properties ++ ps := by
  cases entry with
  | obj fields =>
    have hnone : nestedProperties (mapFields (mapPropertiesField fun _ => []) fields) = .ok [] := by
      rw [nestedProperties_eq, declaredIn_of_lookup (fun _ => []) rfl (lookup_mapFields_properties _ fields)]
      rfl
    have hreference : textField "$ref" (mapFields (mapPropertiesField fun _ => []) fields) = textField "$ref" fields := by
      rw [textField, lookup_mapFields_of_ne _ (by decide), textField]
    have hrequired : requiredNames (mapFields (mapPropertiesField fun _ => []) fields) = requiredNames fields := by
      rw [requiredNames, lookup_mapFields_of_ne _ (by decide), requiredNames]
    have hrefer (parent : Option String) :
        s.bare.referTo parent = (s.referTo parent).bare ∧ (s.referTo parent).properties = s.properties := by
      cases parent <;> exact ⟨rfl, rfl⟩
    rw [bareEntry, mapEntry, extend_obj_eq_ok_iff, extend_obj_eq_ok_iff, hreference, hrequired, hnone, declaredByEntry]
    constructor
    · rintro ⟨parent, hparent, ps, hps, required, hrequired, rfl⟩
      obtain ⟨hbare, hproperties⟩ := hrefer parent
      refine ⟨⟨parent, hparent, [], rfl, required, hrequired, ?_⟩, ps, nestedProperties_eq_ok_iff.1 hps, ?_⟩
      · rw [hbare, bare_addAll]
      · rw [properties_addAll, hproperties]
    · rintro ⟨⟨parent, hparent, none, hnone, required, hrequired, hbare⟩, ps, hps, hproperties⟩
      cases hnone
      refine ⟨parent, hparent, ps, nestedProperties_eq_ok_iff.2 hps, required, hrequired, addAll_eq_iff.2 ⟨?_, ?_⟩⟩
      · rw [← (hrefer parent).1, hbare]
      · rw [hproperties, (hrefer parent).2]
  | _ => exact iff_of_false (error_ne_ok _ _) fun h => error_ne_ok _ _ h.1

theorem properties_extend_bareEntry {s t : Schema} {entry : Json} (hs : s.properties = [])
    (ht : extend s (bareEntry entry) = .ok t) : t.properties = [] := by
  obtain ⟨-, ps, hps, hproperties⟩ := extend_eq_ok_iff.1 ht
  rw [bareEntry, declaredByEntry_mapEntry _ rfl] at hps
  cases hps
  rw [hproperties, hs, List.append_nil]

theorem foldlM_extend_eq_ok_iff {entries : List Json} {s t : Schema} :
    entries.foldlM extend s = .ok t ↔ (entries.map bareEntry).foldlM extend s.bare = .ok t.bare ∧
      ∃ ps, List.Forall₂ ReadAs (entries.flatMap declaredByEntry) ps ∧ t.properties = s.properties ++ ps := by
  induction entries generalizing s with
  | nil =>
    simp only [List.foldlM_nil, List.map_nil, List.flatMap_nil, List.forall₂_nil_left_iff, exists_eq_left, List.append_nil]
    change Except.ok s = .ok t ↔ Except.ok s.bare = .ok t.bare ∧ _
    rw [Except.ok.injEq, Except.ok.injEq]
    exact ⟨fun h => h ▸ ⟨rfl, rfl⟩, fun h => eq_of_bare_eq h.1 h.2.symm⟩
  | cons entry rest ih =>
    rw [List.map_cons, List.foldlM_cons, List.foldlM_cons, List.flatMap_cons]
    constructor
    · intro ht
      obtain ⟨u, hu, ht⟩ := bind_eq_ok ht
      obtain ⟨hubare, ps, hps, huproperties⟩ := extend_eq_ok_iff.1 hu
      obtain ⟨htbare, qs, hqs, htproperties⟩ := ih.1 ht
      rw [hubare]
      exact ⟨htbare, ps ++ qs, List.rel_append hps hqs, by rw [htproperties, huproperties, List.append_assoc]⟩
    · rintro ⟨htbare, both, hboth, htproperties⟩
      obtain ⟨u, hu, htbare⟩ := bind_eq_ok htbare
      obtain ⟨ps, qs, hps, hqs, rfl⟩ := forall₂_readAs_append_iff.1 hboth
      let between : Schema := { u with properties := s.properties ++ ps }
      have hbetween : between.bare = u := eq_of_bare_eq rfl (properties_extend_bareEntry s.properties_bare hu).symm
      have hentry : extend s entry = .ok between := extend_eq_ok_iff.2 ⟨by rw [hbetween, hu], ps, hps, rfl⟩
      rw [hentry]
      exact ih.2 ⟨by rw [hbetween, htbare], qs, hqs, by rw [htproperties, List.append_assoc]⟩

/-- The schema with what the entries of `allOf` add to it, if it is a list. -/
def extendAll (s : Schema) : Option Json → Except Refusal Schema
  | some (.arr entries) => entries.foldlM extend s
  | _ => .ok s

theorem extendAll_eq_ok_iff {s t : Schema} {entries : Option Json} :
    extendAll s entries = .ok t ↔ extendAll s.bare (entries.map (mapEntries fun _ => [])) = .ok t.bare ∧
      ∃ ps, List.Forall₂ ReadAs (declaredByEntries entries) ps ∧ t.properties = s.properties ++ ps := by
  have hsame : (.ok s : Except Refusal Schema) = .ok t ↔ (.ok s.bare : Except Refusal Schema) = .ok t.bare ∧
      ∃ ps, List.Forall₂ ReadAs [] ps ∧ t.properties = s.properties ++ ps := @foldlM_extend_eq_ok_iff [] s t
  cases entries with
  | none => exact hsame
  | some v =>
    cases v with
    | arr entries => exact foldlM_extend_eq_ok_iff
    | _ => exact hsame

theorem ofJson_obj_eq_ok_iff {name : String} {fields : List (String × Json)} {s : Schema} :
    ofJson name (.obj fields) = .ok s ↔ ∃ title, textField "title" fields = .ok title ∧ ∃ id, textField "$id" fields = .ok id ∧
      ∃ description, textField "description" fields = .ok description ∧ ∃ required, requiredNames fields = .ok required ∧
      ∃ ps, nestedProperties fields = .ok ps ∧
        extendAll (addAll { name := title.getD name, id, description } ps required) (Dict.lookup "allOf" fields) = .ok s := by
  have hread : ofJson name (.obj fields) = (do
      let title ← textField "title" fields
      let id ← textField "$id" fields
      let description ← textField "description" fields
      let required ← requiredNames fields
      let ps ← nestedProperties fields
      extendAll (addAll { name := title.getD name, id, description } ps required) (Dict.lookup "allOf" fields)) := rfl
  rw [hread]
  simp only [bind_eq_ok_iff]

/-- A document is read as a schema if its declared properties are read as those of the schema, one by one, and without them it is read as the rest of the schema. -/
theorem ofJson_eq_ok_iff {name : String} {v : Json} {s : Schema} :
    ofJson name v = .ok s ↔ ofJson name (bareDocument v) = .ok s.bare ∧ List.Forall₂ ReadAs (declared v) s.properties := by
  cases v with
  | obj fields =>
    let other := mapFields (mapDocumentField fun _ => []) fields
    have htext (field : String) (hname : field ≠ "properties") (hallOf : field ≠ "allOf") : textField field other = textField field fields := by
      rw [textField, lookup_mapDocument_of_ne _ hname hallOf, textField]
    have hrequired : requiredNames other = requiredNames fields := by
      rw [requiredNames, lookup_mapDocument_of_ne _ (by decide) (by decide), requiredNames]
    have hnone : nestedProperties other = .ok [] := by
      rw [nestedProperties_eq, declaredIn_of_lookup (fun _ => []) rfl (lookup_mapDocument_properties _ fields)]
      rfl
    have hextend (title id description : Option String) (required : List String) (ps : List Property) :
        extendAll (addAll { name := title.getD name, id, description } ps required) (Dict.lookup "allOf" fields) = .ok s ↔
          extendAll (addAll { name := title.getD name, id, description } [] required) (Dict.lookup "allOf" other) = .ok s.bare ∧
            ∃ qs, List.Forall₂ ReadAs (declaredByEntries (Dict.lookup "allOf" fields)) qs ∧ s.properties = ps ++ qs := by
      rw [extendAll_eq_ok_iff, bare_addAll, properties_addAll, lookup_mapDocument_allOf]
      rfl
    rw [bareDocument, mapDeclared, ofJson_obj_eq_ok_iff, ofJson_obj_eq_ok_iff, htext "title" (by decide) (by decide),
      htext "$id" (by decide) (by decide), htext "description" (by decide) (by decide), hrequired, hnone, declared]
    constructor
    · rintro ⟨title, htitle, id, hid, description, hdescription, required, hrequired, ps, hps, hs⟩
      obtain ⟨hbare, qs, hqs, hproperties⟩ := (hextend title id description required ps).1 hs
      refine ⟨⟨title, htitle, id, hid, description, hdescription, required, hrequired, [], rfl, hbare⟩, ?_⟩
      exact forall₂_readAs_append_iff.2 ⟨ps, qs, nestedProperties_eq_ok_iff.1 hps, hqs, hproperties⟩
    · rintro ⟨⟨title, htitle, id, hid, description, hdescription, required, hrequired, none, hnone, hbare⟩, hboth⟩
      cases hnone
      obtain ⟨ps, qs, hps, hqs, hproperties⟩ := forall₂_readAs_append_iff.1 hboth
      refine ⟨title, htitle, id, hid, description, hdescription, required, hrequired, ps, nestedProperties_eq_ok_iff.2 hps, ?_⟩
      exact (hextend title id description required ps).2 ⟨hbare, qs, hqs, hproperties⟩
  | _ => exact iff_of_false (error_ne_ok _ _) fun h => error_ne_ok _ _ h.1

/-- Of two documents that are the same but for their properties, one is accepted if the other is and its properties are. -/
theorem ofJson_of_bareDocument_eq {name : String} {v w : Json} (hvw : bareDocument v = bareDocument w) {s : Schema}
    (hs : ofJson name w = .ok s) {ps : List Property} (hps : List.Forall₂ ReadAs (declared v) ps) :
    ofJson name v = .ok { s with properties := ps } := by
  rw [ofJson_eq_ok_iff, hvw]
  exact ⟨(ofJson_eq_ok_iff.1 hs).1, hps⟩

end TagTypes.Schema
