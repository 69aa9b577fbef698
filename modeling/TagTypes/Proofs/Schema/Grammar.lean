import Mathlib.Tactic
import TagTypes.Proofs.Schema.Reader

/-!
# The grammar of schemas

Which texts are schemas, said without the reader: some fields of an object have to be primitive if they are there, the entries of some lists and objects have to be as they should, and everything else is of no account. The reader gives a schema for just these texts and refuses all others.
-/

namespace TagTypes

/-- A text, a number or a truth value: neither `null` nor a list nor an object. -/
def Json.IsPrimitive : Json → Prop
  | .bool _ | .int _ | .real _ | .str _ => True
  | .null | .arr _ | .obj _ => False

namespace Schema

/-! ### The grammar -/

/-- The field is primitive if it is there. -/
def PrimitiveIfPresent (name : String) (fields : List (String × Json)) : Prop :=
  ∀ v, Dict.lookup name fields = some v → v.IsPrimitive

/-- The entry of a list of types that counts: the first that is not the word `null`. -/
def FirstType (candidates : List Json) (v : Json) : Prop :=
  ∃ before after, candidates = before ++ v :: after ∧ (∀ w ∈ before, w = .str "null") ∧ v ≠ .str "null"

/-- A type may be left out or `null`, it may be primitive, or it may be a list whose entry that counts, if there is one, is primitive. -/
def WellFormedType : Option Json → Prop
  | none | some .null => True
  | some (.arr candidates) => ∀ v, FirstType candidates v → v.IsPrimitive
  | some v => v.IsPrimitive

/-- The type is the word, alone or as the entry of a list that counts. -/
def NamesType (word : String) : Option Json → Prop
  | some (.arr candidates) => FirstType candidates (.str word)
  | type => type = some (.str word)

/-- A property is an object. Either it refers to a type, by a primitive value in the field `$ref`, and nothing else in it counts; or it has no such field and describes a type, and what is inside it counts if it is of type `object` or `array`. -/
inductive WellFormedProperty : Json → Prop
  | reference {fields : List (String × Json)} {target : Json} (htarget : Dict.lookup "$ref" fields = some target)
      (hprimitive : target.IsPrimitive) : WellFormedProperty (.obj fields)
  | description {fields : List (String × Json)} (href : Dict.lookup "$ref" fields = none)
      (htype : WellFormedType (Dict.lookup "type" fields))
      (hformat : PrimitiveIfPresent "format" fields) (hdescription : PrimitiveIfPresent "description" fields)
      (hproperties : NamesType "object" (Dict.lookup "type" fields) →
        ∀ members, Dict.lookup "properties" fields = some (.obj members) → ∀ m ∈ members, WellFormedProperty m.2)
      (hitems : NamesType "array" (Dict.lookup "type" fields) →
        ∀ v, Dict.lookup "items" fields = some v → WellFormedProperty v) : WellFormedProperty (.obj fields)

/-- What a schema and an entry of `allOf` have in common: if `required` is a list, then of primitive values, and if `properties` is an object, then of properties. -/
structure WellFormedParts (fields : List (String × Json)) : Prop where
  required : ∀ names, Dict.lookup "required" fields = some (.arr names) → ∀ v ∈ names, v.IsPrimitive
  properties : ∀ members, Dict.lookup "properties" fields = some (.obj members) → ∀ m ∈ members, WellFormedProperty m.2

/-- An entry of `allOf`. -/
structure WellFormedEntry (fields : List (String × Json)) : Prop extends WellFormedParts fields where
  reference : PrimitiveIfPresent "$ref" fields

/-- The fields of a schema. -/
structure WellFormed (fields : List (String × Json)) : Prop extends WellFormedParts fields where
  title : PrimitiveIfPresent "title" fields
  id : PrimitiveIfPresent "$id" fields
  description : PrimitiveIfPresent "description" fields
  entries : ∀ entries, Dict.lookup "allOf" fields = some (.arr entries) →
    ∀ v ∈ entries, ∃ fields, v = .obj fields ∧ WellFormedEntry fields

/-! ### What is accepted -/

section Accepted

variable {ε α β : Type} {x : Except ε α}

/-- There is a result and no refusal. -/
def Accepted (x : Except ε α) : Prop := ∃ a, x = .ok a

theorem accepted_ok (a : α) : Accepted (.ok a : Except ε α) := ⟨a, rfl⟩

theorem not_accepted_error (e : ε) : ¬Accepted (.error e : Except ε α) := fun h => nomatch h

theorem not_accepted_iff : ¬Accepted x ↔ ∃ e, x = .error e := by
  cases x with
  | error e => exact iff_of_true (not_accepted_error e) ⟨e, rfl⟩
  | ok a => exact iff_of_false (not_not_intro (accepted_ok a)) fun h => nomatch h

theorem accepted_map (f : α → β) : Accepted (x.map f) ↔ Accepted x := by
  cases x with
  | error e => exact iff_of_false (not_accepted_error e) (not_accepted_error e)
  | ok a => exact iff_of_true (accepted_ok (f a)) (accepted_ok a)

theorem accepted_mapError {ε' : Type} (f : ε → ε') : Accepted (x.mapError f) ↔ Accepted x := by
  cases x with
  | error e => exact iff_of_false (not_accepted_error _) (not_accepted_error e)
  | ok a => exact iff_of_true (accepted_ok a) (accepted_ok a)

/-- One step after the other, where it does not depend on the result of the first whether the second is accepted. -/
theorem accepted_bind {f : α → Except ε β} {P : Prop} (hf : ∀ a, x = .ok a → (Accepted (f a) ↔ P)) :
    Accepted (x >>= f) ↔ Accepted x ∧ P := by
  cases x with
  | error e => exact iff_of_false (not_accepted_error e) fun h => not_accepted_error e h.1
  | ok a => exact (hf a rfl).trans (and_iff_right (accepted_ok a)).symm

theorem accepted_bind_pure (g : α → β) : Accepted (x >>= fun a => pure (g a)) ↔ Accepted x :=
  (accepted_bind fun a _ => iff_of_true (accepted_ok (g a)) trivial).trans (and_iff_left trivial)

/-- A step that is left out unless a condition holds. -/
theorem accepted_ite_bind {condition : Bool} {a : α} {f : α → Except ε β} {P : Prop} (hf : ∀ a, Accepted (f a) ↔ P) :
    Accepted (if condition then x >>= f else pure a >>= f) ↔ (condition = true → Accepted x) ∧ P := by
  cases condition with
  | true => exact (accepted_bind fun b _ => hf b).trans (and_congr_left' (imp_iff_right rfl).symm)
  | false => exact (hf a).trans (and_iff_right nofun).symm

theorem accepted_mapM (f : α → Except ε β) (xs : List α) : Accepted (xs.mapM f) ↔ ∀ a ∈ xs, Accepted (f a) := by
  induction xs with
  | nil => exact iff_of_true (accepted_ok []) (by simp)
  | cons a rest ih =>
    rw [List.mapM_cons, List.forall_mem_cons, ← ih]
    exact accepted_bind fun b _ => accepted_bind_pure (b :: ·)

end Accepted

/-! ### Primitive values -/

theorem accepted_primitiveText {v : Json} : Accepted (primitiveText v) ↔ v.IsPrimitive := by
  cases v with
  | bool _ | int _ | real _ | str _ => exact iff_of_true (accepted_ok _) trivial
  | null | arr _ | obj _ => exact iff_of_false (not_accepted_error _) not_false

theorem accepted_textField {name : String} {fields : List (String × Json)} :
    Accepted (textField name fields) ↔ PrimitiveIfPresent name fields := by
  unfold textField PrimitiveIfPresent
  cases Dict.lookup name fields with
  | none => exact iff_of_true (accepted_ok none) fun _ h => nomatch h
  | some v => simp only [accepted_map, accepted_primitiveText, Option.some.injEq, forall_eq']

/-- A character with which the text of a number or a truth value begins. -/
def isLead (c : Char) : Bool := c.isDigit || ['-', 'i', 'n', 't', 'f'].contains c

theorem isLead_of_numeral {c : Char} (hc : c = '-' ∨ c.isDigit = true) : isLead c = true := by
  rcases hc with rfl | hc
  · rfl
  · rw [isLead, hc, Bool.true_or]

theorem exists_lead_int (n : ℤ) : ∃ c cs, (Text.intText n).toList = c :: cs ∧ isLead c = true := by
  obtain ⟨c, cs, hcs, hc⟩ := Binary64.exists_lead_signed (decide (n < 0)) (Json.wholeNumeral_wellFormed n.natAbs)
  rw [Json.intText_toList, ← Json.wholeNumeral_text]
  exact ⟨c, cs, hcs, isLead_of_numeral hc⟩

theorem exists_lead_real (x : Binary64) : ∃ c cs, x.text.toList = c :: cs ∧ isLead c = true := by
  rw [Binary64.text, String.toList_ofList]
  cases x with
  | nan => exact ⟨'n', "an".toList, rfl, rfl⟩
  | infinite negative => cases negative with
    | false => exact ⟨'i', "nf".toList, rfl, rfl⟩
    | true => exact ⟨'-', "inf".toList, rfl, rfl⟩
  | finite negative mantissa exponent =>
    obtain ⟨n, hwell, -, htext, -⟩ := Binary64.exists_numeral_print Binary64.plainStyle negative mantissa exponent
    obtain ⟨c, cs, hcs, hc⟩ := Binary64.exists_lead_signed negative hwell
    exact ⟨c, cs, htext.trans hcs, isLead_of_numeral hc⟩

theorem not_isLead_object : ∀ c ∈ ("object" : String).toList.head?, isLead c = false := by
  rintro c ⟨⟩
  rfl

theorem not_isLead_array : ∀ c ∈ ("array" : String).toList.head?, isLead c = false := by
  rintro c ⟨⟩
  rfl

/-- A word that begins unlike numbers and truth values is the text of no other value. -/
theorem primitiveText_eq_ok_iff {word : String} (hword : ∀ c ∈ word.toList.head?, isLead c = false) {v : Json} :
    primitiveText v = .ok word ↔ v = .str word := by
  have hother : ∀ text : String, (∃ c cs, text.toList = c :: cs ∧ isLead c = true) → text ≠ word := by
    rintro text ⟨c, cs, hcs, hc⟩ rfl
    have hfalse := hword c (by rw [hcs]; rfl)
    rw [hc] at hfalse
    cases hfalse
  have hfalse {text : String} (hne : text ≠ word) {w : Json} (hw : w ≠ .str word) :
      (Except.ok text : Except Refusal String) = .ok word ↔ w = .str word :=
    iff_of_false (fun h => hne (Except.ok.inj h)) hw
  cases v with
  | null | arr _ | obj _ => exact iff_of_false nofun nofun
  | bool b =>
    refine hfalse (hother _ ?_) nofun
    cases b with
    | false => exact ⟨'f', "alse".toList, rfl, rfl⟩
    | true => exact ⟨'t', "rue".toList, rfl, rfl⟩
  | int n => exact hfalse (hother _ (exists_lead_int n)) nofun
  | real x => exact hfalse (hother _ (exists_lead_real x)) nofun
  | str s =>
    rw [Json.str.injEq]
    exact ⟨fun h => Except.ok.inj h, congrArg Except.ok⟩

/-! ### Types -/

theorem isNullWord_iff {v : Json} : isNullWord v = true ↔ v = .str "null" := by
  cases v with
  | str s => rw [isNullWord, decide_eq_true_eq, Json.str.injEq]
  | _ => exact iff_of_false nofun nofun

theorem find_eq_some_iff_firstType {candidates : List Json} {v : Json} :
    candidates.find? (!isNullWord ·) = some v ↔ FirstType candidates v := by
  have hcounts (w : Json) : (!isNullWord w) = true ↔ w ≠ .str "null" := by
    rw [Bool.not_eq_true', ← Bool.not_eq_true, not_congr isNullWord_iff]
  simp only [List.find?_eq_some_iff_append, hcounts, Bool.not_not, isNullWord_iff]
  constructor
  · rintro ⟨hv, before, after, rfl, hbefore⟩
    exact ⟨before, after, rfl, hbefore, hv⟩
  · rintro ⟨before, after, rfl, hbefore, hv⟩
    exact ⟨hv, before, after, rfl, hbefore⟩

theorem accepted_typeWord {type : Option Json} : Accepted (typeWord type) ↔ WellFormedType type := by
  cases type with
  | none => exact iff_of_true (accepted_ok _) trivial
  | some v =>
    cases v with
    | null => exact iff_of_true (accepted_ok _) trivial
    | arr candidates =>
      simp only [typeWord, WellFormedType, ← find_eq_some_iff_firstType]
      cases candidates.find? (!isNullWord ·) with
      | none => simp only [accepted_ok, reduceCtorEq, false_implies, implies_true]
      | some candidate => simp only [accepted_primitiveText, Option.some.injEq, forall_eq']
    | bool _ | int _ | real _ | str _ | obj _ => simp only [typeWord, WellFormedType, accepted_primitiveText]

/-- The words that say whether a property has properties or items inside it are the types of no other values. -/
theorem typeWord_eq_ok_iff {word : String} (hword : ∀ c ∈ word.toList.head?, isLead c = false) (hdefault : word ≠ "string")
    {type : Option Json} : typeWord type = .ok word ↔ NamesType word type := by
  have hstring : (Except.ok "string" : Except Refusal String) ≠ .ok word := fun h => hdefault (Except.ok.inj h).symm
  cases type with
  | none => exact iff_of_false hstring (Option.some_ne_none _).symm
  | some v =>
    cases v with
    | null => exact iff_of_false hstring fun h => Json.noConfusion (Option.some.inj h)
    | arr candidates =>
      simp only [typeWord, NamesType, ← find_eq_some_iff_firstType]
      cases candidates.find? (!isNullWord ·) with
      | none => exact iff_of_false hstring (Option.some_ne_none _).symm
      | some candidate => rw [primitiveText_eq_ok_iff hword, Option.some.injEq]
    | bool _ | int _ | real _ | str _ | obj _ =>
      simp only [typeWord, NamesType, primitiveText_eq_ok_iff hword, Option.some.injEq]

/-! ### Properties -/

section Outline

variable {name : String} {fields : List (String × Json)} {p : Property}

theorem accepted_outline : Accepted (outline name fields) ↔ WellFormedType (Dict.lookup "type" fields) ∧
    PrimitiveIfPresent "format" fields ∧ PrimitiveIfPresent "description" fields := by
  rw [outline, accepted_bind (P := PrimitiveIfPresent "format" fields ∧ PrimitiveIfPresent "description" fields), accepted_typeWord]
  intro type _
  rw [accepted_bind (P := PrimitiveIfPresent "description" fields), accepted_textField]
  intro format _
  rw [accepted_bind_pure, accepted_textField]

theorem type_outline (hp : outline name fields = .ok p) :
    ∃ type, typeWord (Dict.lookup "type" fields) = .ok type ∧ p.type = some type := by
  obtain ⟨type, htype, hp⟩ := bind_eq_ok hp
  obtain ⟨format, -, hp⟩ := bind_eq_ok hp
  obtain ⟨description, -, hp⟩ := bind_eq_ok hp
  cases hp
  exact ⟨type, htype, rfl⟩

theorem type_outline_eq_some_iff {word : String} (hword : ∀ c ∈ word.toList.head?, isLead c = false)
    (hdefault : word ≠ "string") (hp : outline name fields = .ok p) :
    p.type = some word ↔ NamesType word (Dict.lookup "type" fields) := by
  obtain ⟨type, htype, hp⟩ := type_outline hp
  rw [← typeWord_eq_ok_iff hword hdefault, htype, hp, Option.some.injEq, Except.ok.injEq]

theorem isObject_outline (hp : outline name fields = .ok p) :
    p.isObject = true ↔ NamesType "object" (Dict.lookup "type" fields) := by
  rw [Property.isObject, decide_eq_true_eq]
  exact type_outline_eq_some_iff not_isLead_object (by decide) hp

theorem isArray_outline (hp : outline name fields = .ok p) :
    p.isArray = true ↔ NamesType "array" (Dict.lookup "type" fields) := by
  rw [Property.isArray, decide_eq_true_eq]
  exact type_outline_eq_some_iff not_isLead_array (by decide) hp

end Outline

theorem accepted_property_obj {name : String} {fields : List (String × Json)} (href : Dict.lookup "$ref" fields = none) :
    Accepted (property name (.obj fields)) ↔ Accepted (outline name fields) ∧
      (NamesType "object" (Dict.lookup "type" fields) → Accepted (nestedProperties fields)) ∧
      (NamesType "array" (Dict.lookup "type" fields) → Accepted (itemsProperty fields)) := by
  rw [property]
  simp only [href]
  refine accepted_bind fun p hp => ?_
  rw [← isObject_outline hp, ← isArray_outline hp]
  refine accepted_ite_bind fun nested => ?_
  exact (accepted_ite_bind fun items => iff_of_true (accepted_ok _) trivial).trans (and_iff_left trivial)

mutual

/-- The reader accepts just the properties of the grammar. -/
theorem accepted_property : ∀ (v : Json) {name : String}, Accepted (property name v) ↔ WellFormedProperty v
  | .obj fields, name => by
    cases href : Dict.lookup "$ref" fields with
    | some target =>
      rw [property]
      simp only [href]
      rw [accepted_bind_pure, accepted_primitiveText]
      constructor
      · exact fun hprimitive => .reference href hprimitive
      · intro hwell
        cases hwell with
        | reference htarget hprimitive =>
          cases href.symm.trans htarget
          exact hprimitive
        | description hnone => cases href.symm.trans hnone
    | none =>
      rw [accepted_property_obj href, accepted_outline, accepted_nestedProperties fields, accepted_itemsProperty fields]
      constructor
      · rintro ⟨⟨htype, hformat, hdescription⟩, hproperties, hitems⟩
        exact .description href htype hformat hdescription hproperties hitems
      · intro hwell
        cases hwell with
        | reference htarget => cases href.symm.trans htarget
        | description _ htype hformat hdescription hproperties hitems =>
          exact ⟨⟨htype, hformat, hdescription⟩, hproperties, hitems⟩
  | .null, _ | .bool _, _ | .int _, _ | .real _, _ | .str _, _ | .arr _, _ => by
    rw [property]
    · exact iff_of_false (not_accepted_error _) nofun
    · exact nofun

theorem accepted_nestedProperties : ∀ fields : List (String × Json), Accepted (nestedProperties fields) ↔
    ∀ found, Dict.lookup "properties" fields = some (.obj found) → ∀ m ∈ found, WellFormedProperty m.2
  | [] => iff_of_true (accepted_ok []) nofun
  | (name, v) :: rest => by
    rw [nestedProperties, Dict.lookup]
    split
    · rw [accepted_members v]
      simp only [Option.some.injEq]
    · exact accepted_nestedProperties rest

theorem accepted_members : ∀ v : Json, Accepted (members v) ↔ ∀ found, v = .obj found → ∀ m ∈ found, WellFormedProperty m.2
  | .obj fields => by
    rw [members, accepted_propertyList fields]
    simp only [Json.obj.injEq, forall_eq']
  | .null | .bool _ | .int _ | .real _ | .str _ | .arr _ => iff_of_true (accepted_ok []) nofun

theorem accepted_propertyList : ∀ fields : List (String × Json),
    Accepted (propertyList fields) ↔ ∀ m ∈ fields, WellFormedProperty m.2
  | [] => iff_of_true (accepted_ok []) nofun
  | (name, v) :: rest => by
    rw [propertyList, List.forall_mem_cons, ← accepted_property v, ← accepted_propertyList rest]
    exact accepted_bind fun p _ => accepted_bind_pure (p :: ·)

theorem accepted_itemsProperty : ∀ fields : List (String × Json), Accepted (itemsProperty fields) ↔
    ∀ v, Dict.lookup "items" fields = some v → WellFormedProperty v
  | [] => iff_of_true (accepted_ok none) nofun
  | (name, v) :: rest => by
    rw [itemsProperty, Dict.lookup]
    split
    · rw [accepted_map, accepted_property v]
      simp only [Option.some.injEq, forall_eq']
    · exact accepted_itemsProperty rest

end

/-! ### Schemas -/

theorem accepted_requiredNames {fields : List (String × Json)} : Accepted (requiredNames fields) ↔
    ∀ names, Dict.lookup "required" fields = some (.arr names) → ∀ v ∈ names, v.IsPrimitive := by
  unfold requiredNames
  split
  · rename_i names hnames
    rw [accepted_mapM, hnames]
    simp only [accepted_primitiveText, Option.some.injEq, Json.arr.injEq, forall_eq']
  · rename_i hnone
    exact iff_of_true (accepted_ok []) fun names hnames => absurd hnames (hnone names)

theorem wellFormedParts_iff {fields : List (String × Json)} :
    WellFormedParts fields ↔ Accepted (requiredNames fields) ∧ Accepted (nestedProperties fields) := by
  rw [accepted_requiredNames, accepted_nestedProperties]
  exact ⟨fun h => ⟨h.required, h.properties⟩, fun h => ⟨h.1, h.2⟩⟩

theorem accepted_extend {s : Schema} {v : Json} :
    Accepted (extend s v) ↔ ∃ fields, v = .obj fields ∧ WellFormedEntry fields := by
  cases v with
  | obj fields =>
    have hread : Accepted (extend s (.obj fields)) ↔ PrimitiveIfPresent "$ref" fields ∧
        Accepted (nestedProperties fields) ∧ Accepted (requiredNames fields) := by
      rw [extend, ← accepted_textField]
      exact accepted_bind fun parent _ => accepted_bind fun ps _ => accepted_bind_pure _
    rw [hread]
    constructor
    · rintro ⟨hreference, hproperties, hrequired⟩
      exact ⟨fields, rfl, ⟨wellFormedParts_iff.2 ⟨hrequired, hproperties⟩, hreference⟩⟩
    · rintro ⟨_, ⟨⟩, hentry⟩
      obtain ⟨hrequired, hproperties⟩ := wellFormedParts_iff.1 hentry.toWellFormedParts
      exact ⟨hentry.reference, hproperties, hrequired⟩
  | null | bool _ | int _ | real _ | str _ | arr _ => exact iff_of_false (not_accepted_error _) (by rintro ⟨_, ⟨⟩, _⟩)

theorem accepted_foldlM_extend (entries : List Json) : ∀ {s : Schema}, Accepted (entries.foldlM extend s) ↔
    ∀ v ∈ entries, ∃ fields, v = .obj fields ∧ WellFormedEntry fields := by
  induction entries with
  | nil => exact fun {s} => iff_of_true (accepted_ok s) nofun
  | cons entry rest ih =>
    intro s
    rw [List.foldlM_cons, List.forall_mem_cons, ← accepted_extend (s := s)]
    exact accepted_bind fun t _ => ih

theorem accepted_ofJson {name : String} {v : Json} : Accepted (ofJson name v) ↔ ∃ fields, v = .obj fields ∧ WellFormed fields := by
  cases v with
  | obj fields =>
    let EntriesFit : Prop := ∀ entries, Dict.lookup "allOf" fields = some (.arr entries) →
      ∀ v ∈ entries, ∃ fields, v = .obj fields ∧ WellFormedEntry fields
    have hentries (s : Schema) : Accepted (match Dict.lookup "allOf" fields with
        | some (.arr entries) => entries.foldlM extend s
        | _ => return s) ↔ EntriesFit := by
      split
      · rename_i entries hfound
        simp only [EntriesFit, accepted_foldlM_extend, hfound, Option.some.injEq, Json.arr.injEq, forall_eq']
      · rename_i hnone
        exact iff_of_true (accepted_ok s) fun entries hfound => absurd hfound (hnone entries)
    have hread : Accepted (ofJson name (.obj fields)) ↔ PrimitiveIfPresent "title" fields ∧ PrimitiveIfPresent "$id" fields ∧
        PrimitiveIfPresent "description" fields ∧ Accepted (requiredNames fields) ∧ Accepted (nestedProperties fields) ∧
        EntriesFit := by
      simp only [← accepted_textField]
      exact accepted_bind fun title _ => accepted_bind fun id _ => accepted_bind fun description _ =>
        accepted_bind fun required _ => accepted_bind fun ps _ => hentries _
    rw [hread]
    constructor
    · rintro ⟨htitle, hid, hdescription, hrequired, hproperties, hfit⟩
      exact ⟨fields, rfl, ⟨wellFormedParts_iff.2 ⟨hrequired, hproperties⟩, htitle, hid, hdescription, hfit⟩⟩
    · rintro ⟨_, ⟨⟩, hwell⟩
      obtain ⟨hrequired, hproperties⟩ := wellFormedParts_iff.1 hwell.toWellFormedParts
      exact ⟨hwell.title, hwell.id, hwell.description, hrequired, hproperties, hwell.entries⟩
  | null | bool _ | int _ | real _ | str _ | arr _ => exact iff_of_false (not_accepted_error _) fun h => nomatch h

theorem accepted_parse {name text : String} :
    Accepted (parse name text) ↔ ∃ fields, Json.read text = .ok (.obj fields) ∧ WellFormed fields := by
  unfold parse
  cases Json.read text with
  | error reason => exact iff_of_false (not_accepted_error _) fun h => nomatch h
  | ok v => simp only [accepted_mapError, accepted_ofJson, Except.ok.injEq]

theorem name_of_parse_eq_error {name text : String} {e : ParseError} (he : parse name text = .error e) : e.name = name := by
  unfold parse at he
  cases hread : Json.read text with
  | error reason =>
    rw [hread] at he
    cases he
    rfl
  | ok v =>
    rw [hread] at he
    simp only at he
    cases hv : ofJson name v with
    | error cause =>
      rw [hv] at he
      cases he
      rfl
    | ok s =>
      rw [hv] at he
      cases he

/-- A text is read as a schema if and only if it is the text of an object that the grammar allows, whatever the name. For every other text, be it that it is no JSON text, that it is no object or that the grammar does not allow the object, the reader gives an error that bears the name. -/
theorem parse_eq_ok_iff (name text : String) :
    ((∃ s, parse name text = .ok s) ↔ ∃ fields, Json.read text = .ok (.obj fields) ∧ WellFormed fields) ∧
    ((∃ cause, parse name text = .error ⟨name, cause⟩) ↔ ¬∃ fields, Json.read text = .ok (.obj fields) ∧ WellFormed fields) := by
  have herror : (∃ cause, parse name text = .error ⟨name, cause⟩) ↔ ∃ e, parse name text = .error e := by
    constructor
    · exact fun ⟨cause, hcause⟩ => ⟨_, hcause⟩
    · rintro ⟨e, he⟩
      obtain rfl := name_of_parse_eq_error he
      exact ⟨e.cause, he⟩
  refine ⟨accepted_parse, ?_⟩
  rw [herror, ← accepted_parse, not_accepted_iff]

end Schema

end TagTypes
