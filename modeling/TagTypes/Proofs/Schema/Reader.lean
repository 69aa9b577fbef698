import Mathlib.Tactic
import TagTypes.Proofs.Json.Legible
import TagTypes.Schema.Reader

/-!
# Schemas that were read

A default value comes from a text, and a list or an object is taken by its text. So every default of a schema that was read, at any depth of its properties, is a plain value that can be written and read again. The properties inside another one are the fields of one object, so no two of them have one name; only the properties of the schema itself may repeat a name, since `allOf` adds to them. The name of such a schema is its title, or else the name under which it was read.
-/

namespace TagTypes

open Json (Legible)

/-- The default of the property and those of the properties inside it can be written and read again. -/
inductive Property.LegibleDefaults : Property → Prop
  | intro {p : Property} (hdefault : Legible 0 p.default) (hnested : ∀ q ∈ p.nested, LegibleDefaults q) :
    LegibleDefaults p

def Schema.LegibleDefaults (s : Schema) : Prop := ∀ p ∈ s.properties, p.LegibleDefaults

/-- A property as the reader gives it: a default that can be written and read again, and inside it properties of distinct names that are like this as well. -/
inductive Property.WellRead : Property → Prop
  | intro {p : Property} (hdefault : Legible 0 p.default) (hnames : (p.nested.map Property.name).Nodup)
      (hnested : ∀ q ∈ p.nested, WellRead q) : WellRead p

def Schema.WellRead (s : Schema) : Prop := ∀ p ∈ s.properties, p.WellRead

theorem Property.WellRead.legibleDefaults {p : Property} (hp : p.WellRead) : p.LegibleDefaults := by
  induction hp with
  | intro hdefault _ _ ih => exact .intro hdefault ih

namespace Schema

theorem legible_of_mem_fields {depth : ℕ} {fields : List (String × Json)} (hfields : Legible depth (.obj fields)) :
    ∀ f ∈ fields, ∃ inside, Legible inside f.2 := by
  cases hfields with
  | obj _ h => exact fun f hf => ⟨_, h f hf⟩

theorem nodup_of_legible_fields {depth : ℕ} {fields : List (String × Json)} (hfields : Legible depth (.obj fields)) :
    (fields.map Prod.fst).Nodup := by
  cases hfields with
  | obj hnames _ => exact hnames

theorem legible_defaultValue {depth : ℕ} {v : Json} (hv : Legible depth v) : Legible 0 (defaultValue v) := by
  cases hv with
  | null => exact .null
  | bool b => exact .bool b
  | int hn => exact .int hn
  | real hx => exact .real hx
  | str s => exact .str s
  | arr _ => exact .str _
  | obj _ _ => exact .str _

theorem legible_outline {name : String} {fields : List (String × Json)} {p : Property}
    (hfields : ∀ f ∈ fields, ∃ depth, Legible depth f.2) (hp : outline name fields = .ok p) :
    Legible 0 p.default := by
  obtain ⟨type, -, hp⟩ := bind_eq_ok hp
  obtain ⟨format, -, hp⟩ := bind_eq_ok hp
  obtain ⟨description, -, hp⟩ := bind_eq_ok hp
  cases hp
  simp only
  cases hdefault : Dict.lookup "default" fields with
  | none => exact .null
  | some v =>
    obtain ⟨depth, hv⟩ := hfields _ (Dict.mem_of_lookup hdefault)
    exact legible_defaultValue hv

theorem name_outline {name : String} {fields : List (String × Json)} {p : Property} (hp : outline name fields = .ok p) :
    p.name = name := by
  obtain ⟨type, -, hp⟩ := bind_eq_ok hp
  obtain ⟨format, -, hp⟩ := bind_eq_ok hp
  obtain ⟨description, -, hp⟩ := bind_eq_ok hp
  cases hp
  rfl

/-- What is inside a property is read from its fields, or there is nothing. -/
theorem property_inside {fields : List (String × Json)} {p q : Property}
    (hp : (do
      let nested ← if q.isObject then nestedProperties fields else pure []
      let items ← if q.isArray then itemsProperty fields else pure none
      return { q with nested, items }) = .ok p) :
    (p.nested = [] ∨ nestedProperties fields = .ok p.nested) ∧ p.default = q.default ∧ p.name = q.name := by
  simp only at hp
  split at hp
  · obtain ⟨nested, hnested, hp⟩ := bind_eq_ok hp
    split at hp
    · obtain ⟨items, -, hp⟩ := bind_eq_ok hp
      cases hp
      exact ⟨Or.inr hnested, rfl, rfl⟩
    · obtain ⟨items, -, hp⟩ := bind_eq_ok hp
      cases hp
      exact ⟨Or.inr hnested, rfl, rfl⟩
  · obtain ⟨nested, hnested, hp⟩ := bind_eq_ok hp
    cases hnested
    split at hp
    · obtain ⟨items, -, hp⟩ := bind_eq_ok hp
      cases hp
      exact ⟨Or.inl rfl, rfl, rfl⟩
    · obtain ⟨items, -, hp⟩ := bind_eq_ok hp
      cases hp
      exact ⟨Or.inl rfl, rfl, rfl⟩

theorem name_property {name : String} {v : Json} {p : Property} (hp : property name v = .ok p) : p.name = name := by
  unfold property at hp
  split at hp
  · split at hp
    · obtain ⟨target, -, hp⟩ := bind_eq_ok hp
      cases hp
      rfl
    · obtain ⟨q, hq, hp⟩ := bind_eq_ok hp
      rw [(property_inside hp).2.2, name_outline hq]
  · cases hp

/-- The properties that are read from some fields have the names of these fields, in the same order. -/
theorem map_name_propertyList {fields : List (String × Json)} {ps : List Property} (hps : propertyList fields = .ok ps) :
    ps.map Property.name = fields.map Prod.fst := by
  induction fields generalizing ps with
  | nil =>
    cases hps
    rfl
  | cons f rest ih =>
    obtain ⟨name, v⟩ := f
    rw [propertyList] at hps
    obtain ⟨p, hp, hps⟩ := bind_eq_ok hps
    obtain ⟨more, hmore, hps⟩ := bind_eq_ok hps
    cases hps
    rw [List.map_cons, List.map_cons, name_property hp, ih hmore]

mutual

theorem wellRead_property : ∀ (v : Json) {depth : ℕ} {name : String} {p : Property},
    Legible depth v → property name v = .ok p → p.WellRead
  | .obj fields, depth, name, p, hv, hp => by
    have hfields := legible_of_mem_fields hv
    rw [property] at hp
    split at hp
    · obtain ⟨target, -, hp⟩ := bind_eq_ok hp
      cases hp
      exact .intro .null (by simp) (by simp)
    · obtain ⟨q, hq, hp⟩ := bind_eq_ok hp
      obtain ⟨hnested, hdefault, -⟩ := property_inside hp
      have hlegible : Legible 0 p.default := hdefault ▸ legible_outline hfields hq
      rcases hnested with hnone | hnested
      · exact .intro hlegible (by simp [hnone]) (by simp [hnone])
      · obtain ⟨hnames, hinside⟩ := wellRead_nestedProperties fields hfields hnested
        exact .intro hlegible hnames hinside
  | .null, _, _, _, _, hp | .bool _, _, _, _, _, hp | .int _, _, _, _, _, hp | .real _, _, _, _, _, hp
  | .str _, _, _, _, _, hp | .arr _, _, _, _, _, hp => by
    rw [property] at hp
    cases hp
    intro _ heq
    cases heq

theorem wellRead_nestedProperties : ∀ (fields : List (String × Json)) {ps : List Property},
    (∀ f ∈ fields, ∃ depth, Legible depth f.2) → nestedProperties fields = .ok ps →
      (ps.map Property.name).Nodup ∧ ∀ p ∈ ps, p.WellRead
  | [], ps, _, hps => by
    cases hps
    simp
  | (name, v) :: rest, ps, hfields, hps => by
    rw [nestedProperties] at hps
    split at hps
    · obtain ⟨depth, hv⟩ := hfields (name, v) (by simp)
      exact wellRead_members v hv hps
    · exact wellRead_nestedProperties rest (fun f hf => hfields f (by simp [hf])) hps

theorem wellRead_members : ∀ (v : Json) {depth : ℕ} {ps : List Property},
    Legible depth v → members v = .ok ps → (ps.map Property.name).Nodup ∧ ∀ p ∈ ps, p.WellRead
  | .obj fields, depth, ps, hv, hps => by
    rw [members] at hps
    rw [map_name_propertyList hps]
    exact ⟨nodup_of_legible_fields hv, wellRead_propertyList fields (legible_of_mem_fields hv) hps⟩
  | .null, _, _, _, hps | .bool _, _, _, _, hps | .int _, _, _, _, hps | .real _, _, _, _, hps
  | .str _, _, _, _, hps | .arr _, _, _, _, hps => by
    cases hps
    simp

theorem wellRead_propertyList : ∀ (fields : List (String × Json)) {ps : List Property},
    (∀ f ∈ fields, ∃ depth, Legible depth f.2) → propertyList fields = .ok ps → ∀ p ∈ ps, p.WellRead
  | [], ps, _, hps => by
    cases hps
    simp
  | (name, v) :: rest, ps, hfields, hps => by
    rw [propertyList] at hps
    obtain ⟨p, hp, hps⟩ := bind_eq_ok hps
    obtain ⟨more, hmore, hps⟩ := bind_eq_ok hps
    cases hps
    obtain ⟨depth, hv⟩ := hfields (name, v) (by simp)
    exact List.forall_mem_cons.2 ⟨wellRead_property v hv hp,
      wellRead_propertyList rest (fun f hf => hfields f (by simp [hf])) hmore⟩

end

@[simp] theorem properties_addRequired (s : Schema) (name : String) : (s.addRequired name).properties = s.properties := by
  unfold addRequired
  split <;> rfl

theorem properties_foldl_addRequired (required : List String) (s : Schema) :
    (required.foldl addRequired s).properties = s.properties := by
  induction required generalizing s with
  | nil => rfl
  | cons name rest ih => rw [List.foldl_cons, ih, properties_addRequired]

@[simp] theorem properties_addAll (s : Schema) (ps : List Property) (required : List String) :
    (s.addAll ps required).properties = s.properties ++ ps :=
  properties_foldl_addRequired required _

theorem wellRead_addAll {s : Schema} (hs : s.WellRead) {ps : List Property}
    (hps : ∀ p ∈ ps, p.WellRead) (required : List String) : (s.addAll ps required).WellRead := by
  intro p hp
  rw [properties_addAll, List.mem_append] at hp
  exact hp.elim (hs p) (hps p)

theorem wellRead_extend {s t : Schema} (hs : s.WellRead) {entry : Json} {depth : ℕ}
    (hentry : Legible depth entry) (ht : extend s entry = .ok t) : t.WellRead := by
  unfold extend at ht
  split at ht
  · rename_i fields
    obtain ⟨parent, -, ht⟩ := bind_eq_ok ht
    obtain ⟨ps, hps, ht⟩ := bind_eq_ok ht
    obtain ⟨required, -, ht⟩ := bind_eq_ok ht
    cases ht
    refine wellRead_addAll ?_ (wellRead_nestedProperties fields (legible_of_mem_fields hentry) hps).2 required
    cases parent <;> exact hs
  · cases ht

theorem wellRead_foldlM_extend {entries : List Json} (hentries : ∀ v ∈ entries, ∃ depth, Legible depth v) :
    ∀ {s t : Schema}, s.WellRead → entries.foldlM extend s = .ok t → t.WellRead := by
  induction entries with
  | nil =>
    intro s t hs ht
    cases ht
    exact hs
  | cons entry rest ih =>
    intro s t hs ht
    rw [List.foldlM_cons] at ht
    obtain ⟨u, hu, ht⟩ := bind_eq_ok ht
    obtain ⟨depth, hentry⟩ := hentries entry (by simp)
    exact ih (fun v hv => hentries v (by simp [hv])) (wellRead_extend hs hentry hu) ht

theorem wellRead_ofJson {name : String} {v : Json} {s : Schema} {depth : ℕ} (hv : Legible depth v)
    (hs : ofJson name v = .ok s) : s.WellRead := by
  unfold ofJson at hs
  split at hs
  · rename_i fields
    have hfields := legible_of_mem_fields hv
    obtain ⟨title, -, hs⟩ := bind_eq_ok hs
    obtain ⟨id, -, hs⟩ := bind_eq_ok hs
    obtain ⟨description, -, hs⟩ := bind_eq_ok hs
    obtain ⟨required, -, hs⟩ := bind_eq_ok hs
    obtain ⟨ps, hps, hs⟩ := bind_eq_ok hs
    have hbase : (addAll { name := title.getD name, id, description } ps required).WellRead :=
      wellRead_addAll (by simp [WellRead]) (wellRead_nestedProperties fields hfields hps).2 required
    simp only at hs
    split at hs
    · rename_i entries hentries
      obtain ⟨inside, harr⟩ := hfields _ (Dict.mem_of_lookup hentries)
      cases harr with
      | arr hitems => exact wellRead_foldlM_extend (fun v hv => ⟨_, hitems v hv⟩) hbase hs
    · cases hs
      exact hbase
  · cases hs

/-- A text is read as what its document is read as. -/
theorem parse_eq_ok_iff_of_read {name text : String} {v : Json} {s : Schema} (hread : Json.read text = .ok v) :
    parse name text = .ok s ↔ ofJson name v = .ok s := by
  rw [parse, hread]
  simp only
  cases ofJson name v with
  | error cause => exact iff_of_false nofun nofun
  | ok t => exact ⟨fun h => congrArg Except.ok (Except.ok.inj h), fun h => congrArg Except.ok (Except.ok.inj h)⟩

theorem wellRead_parse {name text : String} {s : Schema} (hs : parse name text = .ok s) : s.WellRead := by
  cases hread : Json.read text with
  | error reason =>
    rw [parse, hread] at hs
    cases hs
  | ok v => exact wellRead_ofJson (Json.legible_of_read hread) ((parse_eq_ok_iff_of_read hread).1 hs)

/-- All defaults of a schema that was read can be written and read again. -/
theorem legibleDefaults_parse {name text : String} {s : Schema} (hs : parse name text = .ok s) : s.LegibleDefaults :=
  fun p hp => (wellRead_parse hs p hp).legibleDefaults

/-! ### Names -/

@[simp] theorem name_addRequired (s : Schema) (name : String) : (s.addRequired name).name = s.name := by
  unfold addRequired
  split <;> rfl

@[simp] theorem name_addAll (s : Schema) (ps : List Property) (required : List String) : (s.addAll ps required).name = s.name := by
  suffices hfold : ∀ t : Schema, (required.foldl addRequired t).name = t.name from hfold _
  induction required with
  | nil => exact fun _ => rfl
  | cons name rest ih =>
    intro t
    rw [List.foldl_cons, ih, name_addRequired]

theorem name_extend {s t : Schema} {entry : Json} (ht : extend s entry = .ok t) : t.name = s.name := by
  unfold extend at ht
  split at ht
  · obtain ⟨parent, -, ht⟩ := bind_eq_ok ht
    obtain ⟨ps, -, ht⟩ := bind_eq_ok ht
    obtain ⟨required, -, ht⟩ := bind_eq_ok ht
    cases ht
    rw [name_addAll]
    cases parent <;> rfl
  · cases ht

theorem name_foldlM_extend {entries : List Json} :
    ∀ {s t : Schema}, entries.foldlM extend s = .ok t → t.name = s.name := by
  induction entries with
  | nil =>
    intro s t ht
    cases ht
    rfl
  | cons entry rest ih =>
    intro s t ht
    rw [List.foldlM_cons] at ht
    obtain ⟨u, hu, ht⟩ := bind_eq_ok ht
    rw [ih ht, name_extend hu]

theorem name_ofJson {name : String} {fields : List (String × Json)} {s : Schema} (hs : ofJson name (.obj fields) = .ok s) :
    ∃ title, textField "title" fields = .ok title ∧ s.name = title.getD name := by
  unfold ofJson at hs
  obtain ⟨title, htitle, hs⟩ := bind_eq_ok hs
  obtain ⟨id, -, hs⟩ := bind_eq_ok hs
  obtain ⟨description, -, hs⟩ := bind_eq_ok hs
  obtain ⟨required, -, hs⟩ := bind_eq_ok hs
  obtain ⟨ps, -, hs⟩ := bind_eq_ok hs
  refine ⟨title, htitle, ?_⟩
  simp only at hs
  split at hs
  · rw [name_foldlM_extend hs, name_addAll]
  · cases hs
    rw [name_addAll]

/-- A schema is named by the title in its text, or else by the name it was read under. -/
theorem name_parse {name text : String} {fields : List (String × Json)} {s : Schema} (hread : Json.read text = .ok (.obj fields))
    (hs : parse name text = .ok s) : ∃ title, textField "title" fields = .ok title ∧ s.name = title.getD name :=
  name_ofJson ((parse_eq_ok_iff_of_read hread).1 hs)

end Schema

end TagTypes
