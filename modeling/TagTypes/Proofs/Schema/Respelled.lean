import Mathlib.Tactic
import TagTypes.Proofs.Schema.Spelling

/-!
# Reading a document in another spelling

Where only words whose letter case the reader does not mind are spelled otherwise, it reads the same properties, but for these words. Where any type word may be, lower case is the spelling in which it accepts least: a document that is accepted in lower case is accepted as it is, and a property is then read with no more inside it than in lower case. At the other end are the spellings in capitals, in which nothing is an object or an array and no entry of a list of types is passed over.
-/

namespace TagTypes

/-! ### Properties but for the letter case of their types -/

namespace Property

mutual

/-- The property with another word for its type, and so for those inside it; what is inside an array is left out. -/
def retyped (f : String → String) : Property → Property
  | ⟨name, type, format, description, default, refType, nested, _, enum⟩ =>
    ⟨name, type.map f, format, description, default, refType, retypedAll f nested, none, enum⟩

def retypedAll (f : String → String) : List Property → List Property
  | [] => []
  | p :: rest => retyped f p :: retypedAll f rest

end

theorem retypedAll_eq (f : String → String) (ps : List Property) : retypedAll f ps = ps.map (retyped f) := by
  induction ps with
  | nil => rfl
  | cons p rest ih => rw [retypedAll, ih, List.map_cons]

theorem retyped_eq (f : String → String) (p : Property) :
    p.retyped f = { p with type := p.type.map f, nested := p.nested.map (retyped f), items := none } := by
  obtain ⟨name, type, format, description, default, refType, nested, items, enum⟩ := p
  rw [retyped, retypedAll_eq]

end Property

namespace Schema

open Text (asciiLower)

/-! ### Steps whose results are alike -/

section

variable {ε α β α' β' : Type}

/-- If the results of a first step are alike and those of the step after it are if they start from alike ones, then the results of both steps are. -/
theorem map_bind_congr {x y : Except ε α} {F : α → α'} {G : β → β'} {f g : α → Except ε β} (hxy : x.map F = y.map F)
    (hfg : ∀ a b, F a = F b → (f a).map G = (g b).map G) : (x >>= f).map G = (y >>= g).map G := by
  cases x with
  | error e =>
    cases y with
    | error e' =>
      cases hxy
      rfl
    | ok b => cases hxy
  | ok a =>
    cases y with
    | error e => cases hxy
    | ok b => exact hfg a b (Except.ok.inj hxy)

theorem map_bind_congr_right {x : Except ε α} {G : β → β'} {f g : α → Except ε β} (hfg : ∀ a, (f a).map G = (g a).map G) :
    (x >>= f).map G = (x >>= g).map G := by
  cases x with
  | error e => rfl
  | ok a => exact hfg a

/-- If the results are alike, there is one if there is the other, or else the same error, whatever is made of them. -/
theorem map_unit_of_map_eq {x y : Except ε α} {F : α → α'} (hxy : x.map F = y.map F) (h : α → β) :
    (x.map h).map (fun _ => ()) = (y.map h).map fun _ => () := by
  cases x with
  | error e =>
    cases y with
    | error e' =>
      cases hxy
      rfl
    | ok b => cases hxy
  | ok a =>
    cases y with
    | error e => cases hxy
    | ok b => rfl

theorem exists_eq_ok_of_map_eq {x y : Except ε α} {F : α → α'} (hxy : x.map F = y.map F) {a : α} (hy : y = .ok a) :
    ∃ b, x = .ok b ∧ F b = F a := by
  subst hy
  cases x with
  | error e => cases hxy
  | ok b => exact ⟨b, rfl, Except.ok.inj hxy⟩

end

/-! ### How a property is put together -/

/-- The property with what is inside it, where its type lets it have something inside. -/
def assemble (p : Property) (nested : Except Refusal (List Property)) (items : Except Refusal (Option Property)) :
    Except Refusal Property :=
  (if p.isObject then nested else .ok []) >>= fun nested =>
    (if p.isArray then items else .ok none) >>= fun items => .ok { p with nested, items }

theorem property_obj {name : String} {fields : List (String × Json)} (href : Dict.lookup "$ref" fields = none) :
    property name (.obj fields) = outline name fields >>= fun p => assemble p (nestedProperties fields) (itemsProperty fields) := by
  rw [property]
  simp only [href]
  congr 1
  funext p
  unfold assemble
  cases p.isObject <;> cases p.isArray <;> rfl

theorem property_of_reference {name : String} {fields : List (String × Json)} {target : Json} {p : Property}
    (href : Dict.lookup "$ref" fields = some target) (hp : property name (.obj fields) = .ok p) :
    p.type = some "object" ∧ p.nested = [] := by
  rw [property] at hp
  simp only [href] at hp
  obtain ⟨type, -, hp⟩ := bind_eq_ok hp
  cases hp
  exact ⟨rfl, rfl⟩

/-- A property that refers to a type is read without its type word. -/
theorem property_respellProperty_of_reference (f : String → String) {name : String} {fields : List (String × Json)} {target : Json}
    (href : Dict.lookup "$ref" fields = some target) :
    property name (respellProperty f (.obj fields)) = property name (.obj fields) := by
  rw [respellProperty_obj, property, property]
  simp only [lookup_respellField_ref, href]

/-! ### Words whose letter case is not minded -/

/-- Other letter case for type words, such that changing it again changes nothing and the words that the reader looks for stay as they are and come from nothing else. -/
structure Harmless (f : String → String) : Prop where
  letters : ∀ s, asciiLower (f s) = asciiLower s
  again : ∀ s, f (f s) = f s
  object : ∀ s, f s = "object" ↔ s = "object"
  array : ∀ s, f s = "array" ↔ s = "array"
  null : ∀ s, f s = "null" ↔ s = "null"

theorem harmless_lowerIn_scalarWords : Harmless (lowerIn scalarWords) where
  letters := asciiLower_lowerIn scalarWords_subset
  again := lowerIn_lowerIn scalarWords_subset
  object _ := lowerIn_eq_iff (by decide) (by decide)
  array _ := lowerIn_eq_iff (by decide) (by decide)
  null _ := lowerIn_eq_iff (by decide) (by decide)

section

variable {f : String → String} (hf : Harmless f)

include hf

theorem Harmless.isObject_eq {p q : Property} (h : p.type.map f = q.type.map f) : p.isObject = q.isObject := by
  have hobject (r : Property) : r.isObject = true ↔ r.type.map f = some "object" := by
    rw [Property.isObject, decide_eq_true_eq, Option.map_eq_some_iff]
    simp only [hf.object, exists_eq_right]
  rw [Bool.eq_iff_iff, hobject, hobject, h]

theorem Harmless.isArray_eq {p q : Property} (h : p.type.map f = q.type.map f) : p.isArray = q.isArray := by
  have harray (r : Property) : r.isArray = true ↔ r.type.map f = some "array" := by
    rw [Property.isArray, decide_eq_true_eq, Option.map_eq_some_iff]
    simp only [hf.array, exists_eq_right]
  rw [Bool.eq_iff_iff, harray, harray, h]

theorem map_primitiveText_respellEntry (v : Json) : (primitiveText (respellEntry f v)).map f = (primitiveText v).map f := by
  cases v with
  | str s => exact congrArg Except.ok (hf.again s)
  | _ => rfl

theorem isNullWord_respellEntry (v : Json) : isNullWord (respellEntry f v) = isNullWord v := by
  cases v with
  | str s => exact decide_eq_decide.2 (hf.null s)
  | _ => rfl

theorem map_typeWord_respellType (type : Option Json) : (typeWord (type.map (respellType f))).map f = (typeWord type).map f := by
  cases type with
  | none => rfl
  | some v =>
    cases v with
    | str s => exact map_primitiveText_respellEntry hf (.str s)
    | arr candidates =>
      have hsame : (fun v => !isNullWord v) ∘ respellEntry f = fun v => !isNullWord v :=
        funext fun v => congrArg _ (isNullWord_respellEntry hf v)
      rw [Option.map_some, respellType, typeWord, typeWord, List.find?_map, hsame]
      cases candidates.find? (fun v => !isNullWord v) with
      | none => rfl
      | some candidate => exact map_primitiveText_respellEntry hf candidate
    | _ => rfl

theorem map_outline_respellField (name : String) (fields : List (String × Json)) :
    (outline name (mapFields (respellField f) fields)).map (Property.retyped f) =
      (outline name fields).map (Property.retyped f) := by
  simp only [outline, textField]
  rw [lookup_respellField_type, lookup_respellField_of_not_mem f (by decide), lookup_respellField_of_not_mem f (by decide),
    lookup_respellField_of_not_mem f (by decide), lookup_respellField_of_not_mem f (by decide)]
  refine map_bind_congr (map_typeWord_respellType hf _) fun type lowered htype => ?_
  refine map_bind_congr_right fun format => map_bind_congr_right fun description => congrArg Except.ok ?_
  rw [Property.retyped_eq, Property.retyped_eq, Option.map_some, Option.map_some, htype]

theorem map_assemble {p q : Property} (hpq : p.retyped f = q.retyped f) {nested nested' : Except Refusal (List Property)}
    (hnested : nested.map (Property.retypedAll f) = nested'.map (Property.retypedAll f))
    {items items' : Except Refusal (Option Property)} (hitems : items.map (fun _ => ()) = items'.map fun _ => ()) :
    (assemble p nested items).map (Property.retyped f) = (assemble q nested' items').map (Property.retyped f) := by
  have hparts := hpq
  rw [Property.retyped_eq, Property.retyped_eq] at hparts
  have htype : p.type.map f = q.type.map f := congrArg Property.type hparts
  unfold assemble
  rw [hf.isObject_eq htype, hf.isArray_eq htype]
  have hinside : (if q.isObject then nested else .ok []).map (Property.retypedAll f) =
      (if q.isObject then nested' else .ok []).map (Property.retypedAll f) := by
    split
    · exact hnested
    · rfl
  have hmap : (if q.isArray then items else .ok none).map (fun _ => ()) = (if q.isArray then items' else .ok none).map fun _ => () := by
    split
    · exact hitems
    · rfl
  refine map_bind_congr hinside fun inside inside' hinside => map_bind_congr hmap fun _ _ _ => congrArg Except.ok ?_
  rw [Property.retypedAll_eq, Property.retypedAll_eq] at hinside
  rw [Property.retyped_eq, Property.retyped_eq, hinside]
  exact congrArg (fun r : Property => { r with nested := inside'.map (Property.retyped f) }) hparts

end

mutual

/-- A property that is spelled otherwise is read as the same property, but for type words and items. -/
theorem map_property_respellProperty {f : String → String} (hf : Harmless f) : ∀ (v : Json) (name : String),
    (property name (respellProperty f v)).map (Property.retyped f) = (property name v).map (Property.retyped f)
  | .obj fields, name => by
    cases hreference : Dict.lookup "$ref" fields with
    | some reference => rw [property_respellProperty_of_reference f hreference]
    | none =>
      rw [respellProperty_obj, property_obj ((lookup_respellField_ref f fields).trans hreference), property_obj hreference]
      refine map_bind_congr (map_outline_respellField hf name fields) fun p q hpq => ?_
      rw [← respellFields_eq]
      exact map_assemble hf hpq (map_nestedProperties_respellFields hf fields) (map_itemsProperty_respellFields hf fields)
  | .null, _ | .bool _, _ | .int _, _ | .real _, _ | .str _, _ | .arr _, _ => by
    rw [respellProperty]
    exact nofun

theorem map_nestedProperties_respellFields {f : String → String} (hf : Harmless f) : ∀ fields : List (String × Json),
    (nestedProperties (respellFields f fields)).map (Property.retypedAll f) =
      (nestedProperties fields).map (Property.retypedAll f)
  | [] => rfl
  | (name, v) :: rest => by
    rw [respellFields, nestedProperties, nestedProperties]
    by_cases hname : name = "properties"
    · subst hname
      exact map_members_respellMembers hf v
    · rw [if_neg hname, if_neg hname]
      exact map_nestedProperties_respellFields hf rest

theorem map_members_respellMembers {f : String → String} (hf : Harmless f) : ∀ v : Json,
    (members (respellMembers f v)).map (Property.retypedAll f) = (members v).map (Property.retypedAll f)
  | .obj found => map_propertyList_respellList hf found
  | .null | .bool _ | .int _ | .real _ | .str _ | .arr _ => rfl

theorem map_propertyList_respellList {f : String → String} (hf : Harmless f) : ∀ found : List (String × Json),
    (propertyList (respellList f found)).map (Property.retypedAll f) = (propertyList found).map (Property.retypedAll f)
  | [] => rfl
  | (name, v) :: rest => by
    rw [respellList, propertyList, propertyList]
    refine map_bind_congr (map_property_respellProperty hf v name) fun p q hpq => ?_
    refine map_bind_congr (map_propertyList_respellList hf rest) fun ps qs hpqs => congrArg Except.ok ?_
    rw [Property.retypedAll, Property.retypedAll, hpq, hpqs]

theorem map_itemsProperty_respellFields {f : String → String} (hf : Harmless f) : ∀ fields : List (String × Json),
    (itemsProperty (respellFields f fields)).map (fun _ => ()) = (itemsProperty fields).map fun _ => ()
  | [] => rfl
  | (name, v) :: rest => by
    rw [respellFields, itemsProperty, itemsProperty]
    by_cases hname : name = "items"
    · subst hname
      exact map_unit_of_map_eq (map_property_respellProperty hf v "items") some
    · rw [if_neg hname, if_neg hname]
      exact map_itemsProperty_respellFields hf rest

end

/-- Documents that are the same but for words whose letter case is not minded are read as schemas that are the same but for these words and for what is inside arrays. -/
theorem exists_ofJson_of_respell_eq {f : String → String} (hf : Harmless f) {v w : Json} (hvw : respell f v = respell f w)
    {name : String} {s : Schema} (hs : ofJson name v = .ok s) :
    ∃ t, ofJson name w = .ok t ∧ t.bare = s.bare ∧ t.properties.map (Property.retyped f) = s.properties.map (Property.retyped f) := by
  have hproperties := (ofJson_eq_ok_iff.1 hs).2
  have hdeclared : (propertyList (declared w)).map (Property.retypedAll f) =
      (propertyList (declared v)).map (Property.retypedAll f) := by
    rw [← map_propertyList_respellList hf (declared v), ← map_propertyList_respellList hf (declared w), ← declared_respell,
      ← declared_respell, hvw]
  obtain ⟨ps, hps, halike⟩ := exists_eq_ok_of_map_eq hdeclared (propertyList_eq_ok_iff.2 hproperties)
  have hbare : bareDocument w = bareDocument v := by rw [← bareDocument_respell f w, ← hvw, bareDocument_respell]
  refine ⟨_, ofJson_of_bareDocument_eq hbare hs (propertyList_eq_ok_iff.1 hps), rfl, ?_⟩
  rw [← Property.retypedAll_eq, ← Property.retypedAll_eq]
  exact halike

/-! ### What is accepted in lower case is accepted in every spelling -/

section

variable {f : String → String} (hf : ∀ word ∈ typeWords, f word = word)

include hf

theorem firstType_respellEntry {candidates : List Json} {v : Json} (hv : FirstType candidates v) (hne : respellEntry f v ≠ .str "null") :
    FirstType (candidates.map (respellEntry f)) (respellEntry f v) := by
  obtain ⟨before, after, rfl, hbefore, -⟩ := hv
  refine ⟨before.map (respellEntry f), after.map (respellEntry f), by rw [List.map_append, List.map_cons], fun w hw => ?_, hne⟩
  obtain ⟨old, hold, rfl⟩ := List.mem_map.1 hw
  rw [hbefore old hold, respellEntry, hf "null" (by decide)]

theorem namesType_respellType {word : String} (hword : word ∈ typeWords) (hne : word ≠ "null") {type : Option Json}
    (htype : NamesType word type) : NamesType word (type.map (respellType f)) := by
  have hsame : respellEntry f (.str word) = .str word := congrArg Json.str (hf word hword)
  cases type with
  | none => exact htype
  | some v =>
    cases v with
    | arr candidates =>
      have hfirst := firstType_respellEntry hf (show FirstType candidates (.str word) from htype)
        (by rw [hsame]; exact fun h => hne (Json.str.inj h))
      rw [hsame] at hfirst
      exact hfirst
    | str s =>
      cases htype
      exact congrArg some hsame
    | _ => exact htype

theorem wellFormedType_of_respellType {type : Option Json} (htype : WellFormedType (type.map (respellType f))) : WellFormedType type := by
  cases type with
  | none => trivial
  | some v =>
    cases v with
    | arr candidates =>
      intro w hw
      cases w with
      | str s => trivial
      | _ => exact htype _ (firstType_respellEntry hf hw nofun)
    | _ => exact htype

theorem wellFormedProperty_of_respellProperty {v : Json} (hv : WellFormedProperty (respellProperty f v)) : WellFormedProperty v := by
  -- induction on the grammar of the value with other words, which fixes the fields that the reader looks at in the original
  generalize hw : respellProperty f v = w at hv
  induction hv generalizing v with
  | @reference fields target htarget hprimitive =>
    cases v with
    | obj old =>
      rw [respellProperty_obj] at hw
      cases hw
      rw [lookup_respellField_ref] at htarget
      exact .reference htarget hprimitive
    | _ => cases hw
  | @description fields href htype hformat hdescription hproperties hitems ihproperties ihitems =>
    cases v with
    | obj old =>
      rw [respellProperty_obj] at hw
      cases hw
      rw [lookup_respellField_ref] at href
      rw [lookup_respellField_type] at htype ihproperties ihitems
      rw [PrimitiveIfPresent, lookup_respellField_of_not_mem f (by decide)] at hformat hdescription
      refine .description href (wellFormedType_of_respellType hf htype) hformat hdescription ?_ ?_
      · intro hobject found hfound m hm
        refine ihproperties (namesType_respellType hf (by decide) (by decide) hobject) (respellList f found) ?_ (m.1, respellProperty f m.2) ?_ rfl
        · rw [lookup_respellField_properties, hfound, Option.map_some, mapObject]
        · rw [respellList_eq]
          exact List.mem_map_of_mem hm
      · intro harray w hw
        exact ihitems (namesType_respellType hf (by decide) (by decide) harray) (respellProperty f w)
          (by rw [lookup_respellField_items, hw, Option.map_some]) rfl
    | _ => cases hw

end

/-! ### A property beside the one in lower case -/

/-- The type is a list that begins with the word `null`. -/
def LedByNull (type : Option Json) : Prop := ∃ rest, type = some (.arr (.str "null" :: rest))

/-- The list of types of a property begins with the word `null`, and the property does not refer to a type. -/
def NullFirst (v : Json) : Prop := v.field? "$ref" = none ∧ LedByNull (v.field? "type")

instance : DecidablePred LedByNull := fun type =>
  decidable_of_iff ((match type with | some (.arr (v :: _)) => isNullWord v | _ => false) = true) (by
    unfold LedByNull
    split
    · rw [isNullWord_iff]
      simp
    · rename_i hother
      exact iff_of_false nofun fun h => h.elim fun rest h => hother _ rest h)

instance : DecidablePred NullFirst := fun v =>
  decidable_of_iff ((v.field? "$ref").isNone = true ∧ LedByNull (v.field? "type")) (by rw [Option.isNone_iff_eq_none]; rfl)

theorem nullFirst_respellProperty_iff {f : String → String} {fields : List (String × Json)} :
    NullFirst (respellProperty f (.obj fields)) ↔
      Dict.lookup "$ref" fields = none ∧ LedByNull ((Dict.lookup "type" fields).map (respellType f)) := by
  rw [NullFirst, respellProperty_obj, Json.field?, Json.field?, lookup_respellField_ref, lookup_respellField_type]

theorem typeWord_cons (v : Json) (rest : List Json) :
    typeWord (some (.arr (v :: rest))) = if isNullWord v then typeWord (some (.arr rest)) else primitiveText v := by
  rw [typeWord, List.find?_cons]
  cases isNullWord v <;> rfl

/-- The type word of a list is the same as in lower case, or it is an entry that is passed over in lower case. -/
theorem asciiLower_typeWord_list {candidates : List Json} {word lowered : String} (hword : typeWord (some (.arr candidates)) = .ok word)
    (hlowered : typeWord (some (.arr (candidates.map (respellEntry (lowerIn typeWords))))) = .ok lowered) :
    asciiLower word = asciiLower lowered ∨
      asciiLower word = "null" ∧ (candidates.map (respellEntry (lowerIn typeWords))).head? = some (.str "null") := by
  induction candidates with
  | nil =>
    cases hword
    cases hlowered
    exact Or.inl rfl
  | cons v rest ih =>
    rw [typeWord_cons] at hword
    rw [List.map_cons, typeWord_cons] at hlowered
    cases v with
    | str s =>
      by_cases hnull : asciiLower s = "null"
      · have hpassed : respellEntry (lowerIn typeWords) (.str s) = .str "null" :=
          congrArg Json.str ((lowerIn_eq_iff_of_mem (List.Subset.refl _) (by decide)).2 hnull)
        rw [List.map_cons, hpassed]
        rw [hpassed] at hlowered
        -- lower case passes over this entry; the reader does so only if it is in lower case already
        by_cases hsame : s = "null"
        · subst hsame
          exact (ih hword hlowered).imp_right fun h => ⟨h.1, rfl⟩
        · rw [isNullWord, decide_eq_false hsame] at hword
          cases hword
          exact Or.inr ⟨hnull, rfl⟩
      · have hsame : s ≠ "null" := by
          rintro rfl
          exact hnull (by decide)
        have hlower : lowerIn typeWords s ≠ "null" := fun h => hnull ((lowerIn_eq_iff_of_mem (List.Subset.refl _) (by decide)).1 h)
        rw [isNullWord, decide_eq_false hsame] at hword
        rw [respellEntry, isNullWord, decide_eq_false hlower] at hlowered
        cases hword
        cases hlowered
        exact Or.inl (asciiLower_lowerIn (List.Subset.refl _) _).symm
    | _ =>
      cases hword.symm.trans hlowered
      exact Or.inl rfl

theorem asciiLower_typeWord {type : Option Json} {word lowered : String} (hword : typeWord type = .ok word)
    (hlowered : typeWord (type.map (respellType (lowerIn typeWords))) = .ok lowered) :
    asciiLower word = asciiLower lowered ∨
      asciiLower word = "null" ∧ LedByNull (type.map (respellType (lowerIn typeWords))) := by
  cases type with
  | none =>
    cases hword.symm.trans hlowered
    exact Or.inl rfl
  | some v =>
    cases v with
    | arr candidates =>
      refine (asciiLower_typeWord_list hword hlowered).imp_right fun h => ⟨h.1, ?_⟩
      obtain ⟨rest, hrest⟩ := List.head?_eq_some_iff.1 h.2
      exact ⟨rest, by rw [Option.map_some, respellType, hrest]⟩
    | str s =>
      cases hword
      cases hlowered
      exact Or.inl (asciiLower_lowerIn (List.Subset.refl _) _).symm
    | _ =>
      cases hword.symm.trans hlowered
      exact Or.inl rfl

/-- The property `p` is read where `lowered` is read in lower case: it has the same parts, its type is the same but for the letter case unless it is a null word at the head of a list, and it is seen as an object or an array, and has something inside it, only if `lowered` does. -/
structure Beside (led : Prop) (p lowered : Property) : Prop where
  name : p.name = lowered.name
  format : p.format = lowered.format
  description : p.description = lowered.description
  default : p.default = lowered.default
  plain : p.refType = none ∧ lowered.refType = none
  type : ∃ word, p.type = some word ∧ ∃ lower, lowered.type = some lower ∧
    (asciiLower word = asciiLower lower ∨ asciiLower word = "null" ∧ led)
  object : p.isObject = true → lowered.isObject = true
  array : p.isArray = true → lowered.isArray = true
  empty : lowered.nested = [] → p.nested = []

theorem outline_eq_ok {name : String} {fields : List (String × Json)} {p : Property} (hp : outline name fields = .ok p) :
    ∃ type format description, typeWord (Dict.lookup "type" fields) = .ok type ∧ textField "format" fields = .ok format ∧
      textField "description" fields = .ok description ∧
      p = {
        name, format, description
        type := some type
        default := (Dict.lookup "default" fields).elim .null defaultValue
        enum := enumWords (Dict.lookup "enum" fields) } := by
  obtain ⟨type, htype, hp⟩ := bind_eq_ok hp
  obtain ⟨format, hformat, hp⟩ := bind_eq_ok hp
  obtain ⟨description, hdescription, hp⟩ := bind_eq_ok hp
  cases hp
  exact ⟨type, format, description, htype, hformat, hdescription, rfl⟩

/-- A property that does not refer to a type is its outline with what is inside it. -/
theorem property_eq_ok {name : String} {fields : List (String × Json)} {p : Property} (href : Dict.lookup "$ref" fields = none)
    (hp : property name (.obj fields) = .ok p) :
    ∃ o nested items, outline name fields = .ok o ∧ p = { o with nested, items } ∧
      if o.isObject then nestedProperties fields = .ok nested else nested = [] := by
  rw [property_obj href] at hp
  obtain ⟨o, ho, hp⟩ := bind_eq_ok hp
  obtain ⟨nested, hnested, hp⟩ := bind_eq_ok hp
  obtain ⟨items, -, hp⟩ := bind_eq_ok hp
  cases hp
  refine ⟨o, nested, items, ho, rfl, ?_⟩
  split at hnested
  · rename_i hobject
    rwa [if_pos hobject]
  · rename_i hobject
    rw [if_neg hobject]
    cases hnested
    rfl

theorem beside_of_property {name : String} {fields : List (String × Json)} {p lowered : Property}
    (href : Dict.lookup "$ref" fields = none) (hp : property name (.obj fields) = .ok p)
    (hlowered : property name (respellProperty (lowerIn typeWords) (.obj fields)) = .ok lowered) :
    Beside (NullFirst (respellProperty (lowerIn typeWords) (.obj fields))) p lowered := by
  have hled : NullFirst (respellProperty (lowerIn typeWords) (.obj fields)) ↔ _ := nullFirst_respellProperty_iff
  rw [respellProperty_obj] at hlowered
  have hother (field : String) (hfield : field ∉ ["type", "properties", "items"]) :=
    lookup_respellField_of_not_mem (lowerIn typeWords) hfield fields
  obtain ⟨o, nested, items, ho, rfl, hnested⟩ := property_eq_ok href hp
  obtain ⟨o', nested', items', ho', rfl, hnested'⟩ := property_eq_ok ((lookup_respellField_ref _ fields).trans href) hlowered
  have hobject : o.isObject = true → o'.isObject = true := by
    rw [isObject_outline ho, isObject_outline ho', lookup_respellField_type]
    exact namesType_respellType (fun _ => lowerIn_of_mem_typeWords _) (by decide) (by decide)
  have harray : o.isArray = true → o'.isArray = true := by
    rw [isArray_outline ho, isArray_outline ho', lookup_respellField_type]
    exact namesType_respellType (fun _ => lowerIn_of_mem_typeWords _) (by decide) (by decide)
  have hempty : nested' = [] → nested = [] := by
    by_cases hopen : o.isObject = true
    · rw [if_pos hopen, nestedProperties_eq_ok_iff] at hnested
      rw [if_pos (hobject hopen), nestedProperties_eq_ok_iff, declaredIn_respellField] at hnested'
      rintro rfl
      cases hdeclared : declaredIn fields with
      | nil =>
        rw [hdeclared] at hnested
        cases hnested
        rfl
      | cons m rest =>
        rw [hdeclared] at hnested'
        cases hnested'
    · rw [if_neg hopen] at hnested
      exact fun _ => hnested
  obtain ⟨word, format, description, hword, hformat, hdescription, rfl⟩ := outline_eq_ok ho
  obtain ⟨lower, format', description', hlower, hformat', hdescription', rfl⟩ := outline_eq_ok ho'
  rw [textField, hother "format" (by decide), ← textField, hformat] at hformat'
  rw [textField, hother "description" (by decide), ← textField, hdescription] at hdescription'
  rw [lookup_respellField_type] at hlower
  cases hformat'
  cases hdescription'
  exact {
    name := rfl
    format := rfl
    description := rfl
    default := by simp only [hother "default" (by decide)]
    plain := ⟨rfl, rfl⟩
    type := ⟨word, rfl, lower, rfl, (asciiLower_typeWord hword hlower).imp_right fun h => ⟨h.1, hled.2 ⟨href, h.2⟩⟩⟩
    object := hobject
    array := harray
    empty := hempty }

/-! ### A property in capitals -/

theorem respellEntry_raised_ne {word : String} (hword : word ∈ ["object", "array", "null"]) (v : Json) :
    respellEntry raised v ≠ .str word := by
  cases v with
  | str s => exact fun h => raised_ne hword s (Json.str.inj h)
  | _ => exact nofun

theorem not_namesType_raised {word : String} (hword : word ∈ ["object", "array", "null"]) (type : Option Json) :
    ¬NamesType word (type.map (respellType raised)) := by
  intro hnames
  cases type with
  | none => cases hnames
  | some v =>
    cases v with
    | arr candidates =>
      obtain ⟨before, after, hcandidates, -, -⟩ := hnames
      have hmem : Json.str word ∈ candidates.map (respellEntry raised) := by
        rw [hcandidates]
        simp
      obtain ⟨v, -, hv⟩ := List.mem_map.1 hmem
      exact respellEntry_raised_ne hword v hv
    | str s => exact respellEntry_raised_ne hword (.str s) (Option.some.inj hnames)
    | _ => cases hnames

/-- A list that begins with a null word has this word as its type in capitals. -/
theorem asciiLower_typeWord_raised {type : Option Json} {word : String} (hword : typeWord (type.map (respellType raised)) = .ok word)
    (hled : LedByNull (type.map (respellType (lowerIn typeWords)))) : asciiLower word = "null" := by
  obtain ⟨rest, hrest⟩ := hled
  cases type with
  | none => cases hrest
  | some v =>
    cases v with
    | arr candidates =>
      cases candidates with
      | nil => cases hrest
      | cons first more =>
        rw [Option.map_some, respellType, List.map_cons, typeWord_cons,
          if_neg (isNullWord_iff.not.2 (respellEntry_raised_ne (by decide) first))] at hword
        have hfirst : respellEntry (lowerIn typeWords) first = .str "null" := by
          rw [Option.map_some, respellType, List.map_cons, Option.some.injEq, Json.arr.injEq, List.cons.injEq] at hrest
          exact hrest.1
        cases first with
        | str s =>
          cases hword
          have hnull : lowerIn typeWords (raised s) = "null" := (lowerIn_raised s).trans (Json.str.inj hfirst)
          exact (lowerIn_eq_iff_of_mem (List.Subset.refl _) (by decide)).1 hnull
        | _ => cases hfirst
    | _ => cases hrest

theorem respellProperty_lowerIn_raised (v : Json) :
    respellProperty (lowerIn typeWords) (respellProperty raised v) = respellProperty (lowerIn typeWords) v := by
  rw [respellProperty_respellProperty, lowerIn_comp_raised]

/-- In capitals nothing is seen as an object or an array, and a list that begins with a null word has this word as its type. -/
theorem property_raised {name : String} {fields : List (String × Json)} {p : Property} (href : Dict.lookup "$ref" fields = none)
    (hp : property name (respellProperty raised (.obj fields)) = .ok p) :
    p.isObject = false ∧ p.isArray = false ∧ ∀ word, p.type = some word →
      NullFirst (respellProperty (lowerIn typeWords) (.obj fields)) → asciiLower word = "null" := by
  rw [respellProperty_obj] at hp
  obtain ⟨o, nested, items, ho, rfl, -⟩ := property_eq_ok ((lookup_respellField_ref raised fields).trans href) hp
  have hobject : ¬o.isObject = true := by
    rw [isObject_outline ho, lookup_respellField_type]
    exact not_namesType_raised (by decide) _
  have harray : ¬o.isArray = true := by
    rw [isArray_outline ho, lookup_respellField_type]
    exact not_namesType_raised (by decide) _
  refine ⟨Bool.eq_false_iff.2 hobject, Bool.eq_false_iff.2 harray, fun word hword hled => ?_⟩
  obtain ⟨read, hread, htype⟩ := type_outline ho
  rw [lookup_respellField_type] at hread
  cases htype.symm.trans hword
  exact asciiLower_typeWord_raised hread (nullFirst_respellProperty_iff.1 hled).2

/-- The property `p` is read in capitals where `lowered` is read in lower case, both from a value that does not refer to a type. -/
structure Raised (led : Prop) (p lowered : Property) : Prop extends Beside led p lowered where
  noObject : p.isObject = false
  noArray : p.isArray = false
  nullWord : led → ∃ word, p.type = some word ∧ asciiLower word = "null"

/-- In capitals a property that refers to a type is the same. -/
theorem raised_or_reference {name : String} {v : Json} {p lowered : Property} (hp : property name (respellProperty raised v) = .ok p)
    (hlowered : property name (respellProperty (lowerIn typeWords) v) = .ok lowered) :
    Raised (NullFirst (respellProperty (lowerIn typeWords) v)) p lowered ∨
      p = lowered ∧ lowered.type = some "object" ∧ lowered.nested = [] ∧ ¬NullFirst (respellProperty (lowerIn typeWords) v) := by
  cases v with
  | obj fields =>
    cases href : Dict.lookup "$ref" fields with
    | some target =>
      rw [property_respellProperty_of_reference _ href] at hp hlowered
      cases hp.symm.trans hlowered
      obtain ⟨htype, hnested⟩ := property_of_reference href hp
      refine Or.inr ⟨rfl, htype, hnested, fun hled => ?_⟩
      cases href.symm.trans (nullFirst_respellProperty_iff.1 hled).1
    | none =>
      have hfacts := property_raised href hp
      have hbeside : Beside (NullFirst (respellProperty (lowerIn typeWords) (.obj fields))) p lowered := by
        rw [← respellProperty_lowerIn_raised] at hlowered ⊢
        rw [respellProperty_obj raised] at hp hlowered ⊢
        exact beside_of_property ((lookup_respellField_ref raised fields).trans href) hp hlowered
      refine Or.inl ⟨hbeside, hfacts.1, hfacts.2.1, fun hled => ?_⟩
      obtain ⟨word, hword, -⟩ := hbeside.type
      exact ⟨word, hword, hfacts.2.2 word hword hled⟩
  | _ => cases hp

end Schema

end TagTypes
