import Mathlib.Tactic
import TagTypes.Proofs.Schema.Declared
import TagTypes.Proofs.Schema.Grammar
import TagTypes.Text.Lower

/-!
# The spelling of type words

The types of properties are words in a document, and such a word may be written in other letter case. Two documents are spellings of one another if they are the same once these words are in lower case. The reader takes most type words as they are; it minds the letter case of three of them, `object`, `array` and `null`, and lower case is the spelling in which it looks at most of a document.
-/

namespace TagTypes

namespace Schema

open Text (asciiLower)

/-! ### Type words in lower case -/

/-- The words that name the JSON types. -/
def typeWords : List String := (Vocabulary.terms (α := SchemaType)).map Term.word

/-- The type words whose letter case the reader does not mind. -/
def scalarWords : List String := ["string", "integer", "number", "boolean"]

theorem scalarWords_subset : scalarWords ⊆ typeWords := by decide

theorem asciiLower_of_mem_typeWords : ∀ word ∈ typeWords, asciiLower word = word := by decide +kernel

/-- The text in lower case if it is one of the words then, or else as it is. -/
def lowerIn (words : List String) (s : String) : String := if asciiLower s ∈ words then asciiLower s else s

/-- Type words are in lower case. -/
theorem lowerIn_of_mem_typeWords (words : List String) {word : String} (hword : word ∈ typeWords) : lowerIn words word = word := by
  rw [lowerIn, asciiLower_of_mem_typeWords word hword, ite_self]

/-- Of all texts only the type word itself becomes the word, if that is none of those that are put in lower case. -/
theorem lowerIn_eq_iff {words : List String} {word : String} (htype : word ∈ typeWords) (hword : word ∉ words) {s : String} :
    lowerIn words s = word ↔ s = word := by
  unfold lowerIn
  split
  · rename_i hin
    refine iff_of_false (fun h => hword (h ▸ hin)) ?_
    rintro rfl
    exact hword (asciiLower_of_mem_typeWords s htype ▸ hin)
  · rfl

section

variable {words : List String} (hwords : words ⊆ typeWords)

include hwords

theorem asciiLower_lowerIn (s : String) : asciiLower (lowerIn words s) = asciiLower s := by
  unfold lowerIn
  split
  · rename_i hin
    exact asciiLower_of_mem_typeWords _ (hwords hin)
  · rfl

/-- One of the words comes from all its spellings. -/
theorem lowerIn_eq_iff_of_mem {word : String} (hword : word ∈ words) {s : String} : lowerIn words s = word ↔ asciiLower s = word := by
  unfold lowerIn
  split
  · rfl
  · rename_i hout
    refine iff_of_false ?_ fun h => hout (h ▸ hword)
    rintro rfl
    exact hout ((asciiLower_of_mem_typeWords s (hwords hword)).symm ▸ hword)

theorem lowerIn_lowerIn (s : String) : lowerIn words (lowerIn words s) = lowerIn words s := by
  rw [lowerIn, asciiLower_lowerIn hwords]
  unfold lowerIn
  split <;> rfl

theorem lowerIn_comp_lowerIn : lowerIn words ∘ lowerIn words = lowerIn words := by
  funext s
  rw [Function.comp_apply, lowerIn_lowerIn hwords]

end

/-! ### Three words in capitals -/

/-- The text in capitals if it is one of the words whose letter case the reader minds. -/
def raised (s : String) : String :=
  match asciiLower s with
  | "object" => "OBJECT"
  | "array" => "ARRAY"
  | "null" => "NULL"
  | _ => s

theorem lowerIn_raised (s : String) : lowerIn typeWords (raised s) = lowerIn typeWords s := by
  have hword {word capitals : String} (hs : asciiLower s = word) (hword : word ∈ typeWords) (hcapitals : lowerIn typeWords capitals = word) :
      lowerIn typeWords capitals = lowerIn typeWords s := by
    rw [hcapitals, (lowerIn_eq_iff_of_mem (List.Subset.refl _) hword).2 hs]
  unfold raised
  split
  · exact hword ‹_› (by decide) (by decide +kernel)
  · exact hword ‹_› (by decide) (by decide +kernel)
  · exact hword ‹_› (by decide) (by decide +kernel)
  · rfl

theorem lowerIn_comp_raised : lowerIn typeWords ∘ raised = lowerIn typeWords := by
  funext s
  rw [Function.comp_apply, lowerIn_raised]

theorem raised_ne {word : String} (hword : word ∈ ["object", "array", "null"]) (s : String) : raised s ≠ word := by
  simp only [List.mem_cons, List.not_mem_nil, or_false] at hword
  unfold raised
  split
  · rcases hword with rfl | rfl | rfl <;> decide
  · rcases hword with rfl | rfl | rfl <;> decide
  · rcases hword with rfl | rfl | rfl <;> decide
  · rename_i hobject harray hnull
    rintro rfl
    rcases hword with rfl | rfl | rfl
    · exact hobject (by decide +kernel)
    · exact harray (by decide +kernel)
    · exact hnull (by decide +kernel)

/-! ### Other type words in a document -/

section

variable (f : String → String)

/-- An entry of a list of types, with another word. -/
def respellEntry : Json → Json
  | .str s => .str (f s)
  | v => v

/-- A type, alone or in a list, with another word. -/
def respellType : Json → Json
  | .str s => .str (f s)
  | .arr candidates => .arr (candidates.map (respellEntry f))
  | v => v

mutual

/-- A property with other type words, also in the properties and items inside it. -/
def respellProperty : Json → Json
  | .obj fields => .obj (respellFields fields)
  | v => v

def respellFields : List (String × Json) → List (String × Json)
  | [] => []
  | (name, v) :: rest =>
    (name, if name = "type" then respellType f v
      else if name = "properties" then respellMembers v
      else if name = "items" then respellProperty v
      else v) :: respellFields rest

def respellMembers : Json → Json
  | .obj members => .obj (respellList members)
  | v => v

def respellList : List (String × Json) → List (String × Json)
  | [] => []
  | (name, v) :: rest => (name, respellProperty v) :: respellList rest

end

/-- A document with other type words in all its properties. -/
def respell (v : Json) : Json := mapDeclared (respellList f) v

theorem respellList_eq (members : List (String × Json)) :
    respellList f members = mapFields (fun _ => respellProperty f) members := by
  induction members with
  | nil => rfl
  | cons m rest ih => rw [respellList, ih, mapFields, mapFields, List.map_cons]

theorem respellMembers_eq (v : Json) : respellMembers f v = mapObject (respellList f) v := by
  cases v <;> rfl

def respellField (name : String) (v : Json) : Json :=
  if name = "type" then respellType f v
  else if name = "properties" then mapObject (respellList f) v
  else if name = "items" then respellProperty f v
  else v

theorem respellFields_eq (fields : List (String × Json)) : respellFields f fields = mapFields (respellField f) fields := by
  induction fields with
  | nil => rfl
  | cons field rest ih => rw [respellFields, ih, respellMembers_eq, mapFields, mapFields, List.map_cons, respellField]

theorem respellProperty_obj (fields : List (String × Json)) :
    respellProperty f (.obj fields) = .obj (mapFields (respellField f) fields) := by
  rw [respellProperty, respellFields_eq]

theorem lookup_respellField_type (fields : List (String × Json)) :
    Dict.lookup "type" (mapFields (respellField f) fields) = (Dict.lookup "type" fields).map (respellType f) :=
  lookup_mapFields _ _ _

theorem lookup_respellField_properties (fields : List (String × Json)) :
    Dict.lookup "properties" (mapFields (respellField f) fields) =
      (Dict.lookup "properties" fields).map (mapObject (respellList f)) :=
  lookup_mapFields _ _ _

theorem lookup_respellField_items (fields : List (String × Json)) :
    Dict.lookup "items" (mapFields (respellField f) fields) = (Dict.lookup "items" fields).map (respellProperty f) :=
  lookup_mapFields _ _ _

/-- All other fields of a property are as they were. -/
theorem lookup_respellField_of_not_mem {name : String} (hname : name ∉ ["type", "properties", "items"])
    (fields : List (String × Json)) : Dict.lookup name (mapFields (respellField f) fields) = Dict.lookup name fields := by
  simp only [List.mem_cons, List.not_mem_nil, or_false, not_or] at hname
  have hsame : respellField f name = fun v => v :=
    funext fun v => (if_neg hname.1).trans ((if_neg hname.2.1).trans (if_neg hname.2.2))
  rw [lookup_mapFields, hsame, Option.map_id']

theorem lookup_respellField_ref (fields : List (String × Json)) :
    Dict.lookup "$ref" (mapFields (respellField f) fields) = Dict.lookup "$ref" fields :=
  lookup_respellField_of_not_mem f (by decide) fields

theorem declaredIn_respellField (fields : List (String × Json)) :
    declaredIn (mapFields (respellField f) fields) = respellList f (declaredIn fields) :=
  declaredIn_of_lookup _ rfl (lookup_respellField_properties f fields)

theorem declared_respell (v : Json) : declared (respell f v) = respellList f (declared v) := by
  refine declared_mapDeclared _ rfl (fun xs ys => ?_) v
  rw [respellList_eq, respellList_eq, respellList_eq, mapFields, List.map_append, mapFields, mapFields]

/-- Apart from its properties a document is as it was. -/
theorem bareDocument_respell (v : Json) : bareDocument (respell f v) = bareDocument v := mapDeclared_mapDeclared _ _ v

/-- The second document is the first one with some of the words in other letter case where they stand as types of properties. -/
def Respelled (words : List String) (v w : Json) : Prop := respell (lowerIn words) w = respell (lowerIn words) v

/-! ### Changing the words twice -/

variable (g : String → String)

theorem respellType_respellType (v : Json) : respellType g (respellType f v) = respellType (g ∘ f) v := by
  cases v with
  | arr candidates =>
    have hentry : respellEntry g ∘ respellEntry f = respellEntry (g ∘ f) := by
      funext v
      cases v <;> rfl
    rw [respellType, respellType, respellType, List.map_map, hentry]
  | _ => rfl

mutual

theorem respellProperty_respellProperty : ∀ v : Json, respellProperty g (respellProperty f v) = respellProperty (g ∘ f) v
  | .obj fields => by rw [respellProperty, respellProperty, respellProperty, respellFields_respellFields fields]
  | .null | .bool _ | .int _ | .real _ | .str _ | .arr _ => by
    rw [respellProperty, respellProperty] <;> first | rfl | exact nofun

theorem respellFields_respellFields :
    ∀ fields : List (String × Json), respellFields g (respellFields f fields) = respellFields (g ∘ f) fields
  | [] => rfl
  | (name, v) :: rest => by
    rw [respellFields, respellFields, respellFields, respellFields_respellFields rest]
    split
    · rw [respellType_respellType]
    · split
      · rw [respellMembers_respellMembers v]
      · split
        · rw [respellProperty_respellProperty v]
        · rfl

theorem respellMembers_respellMembers : ∀ v : Json, respellMembers g (respellMembers f v) = respellMembers (g ∘ f) v
  | .obj members => by rw [respellMembers, respellMembers, respellMembers, respellList_respellList members]
  | .null | .bool _ | .int _ | .real _ | .str _ | .arr _ => by
    rw [respellMembers, respellMembers] <;> first | rfl | exact nofun

theorem respellList_respellList :
    ∀ members : List (String × Json), respellList g (respellList f members) = respellList (g ∘ f) members
  | [] => rfl
  | (name, v) :: rest => by
    rw [respellList, respellList, respellList, respellProperty_respellProperty v, respellList_respellList rest]

end

theorem respell_respell (v : Json) : respell g (respell f v) = respell (g ∘ f) v := by
  rw [respell, respell, mapDeclared_mapDeclared, respell]
  congr 1
  funext members
  exact respellList_respellList f g members

/-! ### Documents with other type words can be written -/

end

open Json (Legible)

theorem legible_mapFields {g : String → Json → Json} {depth : ℕ} {fields : List (String × Json)}
    (hnames : (fields.map Prod.fst).Nodup) (hvalues : ∀ m ∈ fields, Legible depth (g m.1 m.2)) :
    Legible (depth + 1) (.obj (mapFields g fields)) := by
  refine .obj ?_ fun m hm => ?_
  · rw [mapFields, List.map_map]
    exact hnames
  · obtain ⟨old, hold, rfl⟩ := List.mem_map.1 hm
    exact hvalues old hold

section

variable {g : List (String × Json) → List (String × Json)}
variable (hg : ∀ {found depth}, Legible depth (.obj found) → Legible depth (.obj (g found)))

include hg

theorem legible_mapPropertiesField {name : String} {v : Json} {depth : ℕ} (hv : Legible depth v) :
    Legible depth (mapPropertiesField g name v) := by
  unfold mapPropertiesField
  split
  · cases v with
    | obj found => exact hg hv
    | _ => exact hv
  · exact hv

theorem legible_mapEntry {v : Json} {depth : ℕ} (hv : Legible depth v) : Legible depth (mapEntry g v) := by
  cases hv with
  | obj hnames hvalues => exact legible_mapFields hnames fun m hm => legible_mapPropertiesField hg (hvalues m hm)
  | arr hitems => exact .arr hitems
  | _ => constructor <;> assumption

theorem legible_mapEntries {v : Json} {depth : ℕ} (hv : Legible depth v) : Legible depth (mapEntries g v) := by
  cases hv with
  | arr hentries =>
    refine .arr fun entry hentry => ?_
    obtain ⟨old, hold, rfl⟩ := List.mem_map.1 hentry
    exact legible_mapEntry hg (hentries old hold)
  | obj hnames hvalues => exact .obj hnames hvalues
  | _ => constructor <;> assumption

theorem legible_mapDeclared {v : Json} {depth : ℕ} (hv : Legible depth v) : Legible depth (mapDeclared g v) := by
  cases hv with
  | obj hnames hvalues =>
    refine legible_mapFields hnames fun m hm => ?_
    unfold mapDocumentField
    split
    · exact legible_mapEntries hg (hvalues m hm)
    · exact legible_mapPropertiesField hg (hvalues m hm)
  | arr hitems => exact .arr hitems
  | _ => constructor <;> assumption

end

section

variable (f : String → String)

theorem legible_respellType {v : Json} {depth : ℕ} (hv : Legible depth v) : Legible depth (respellType f v) := by
  cases hv with
  | arr hitems =>
    refine .arr fun w hw => ?_
    obtain ⟨old, hold, rfl⟩ := List.mem_map.1 hw
    cases old with
    | str s => exact .str (f s)
    | _ => exact hitems _ hold
  | obj hnames hvalues => exact .obj hnames hvalues
  | _ => constructor <;> assumption

/-- A value with other type words can be written, be it taken for a property or for the properties inside one. -/
theorem legible_respellProperty {v : Json} {depth : ℕ} (hv : Legible depth v) :
    Legible depth (respellProperty f v) ∧ Legible depth (respellMembers f v) := by
  induction hv with
  | obj hnames hvalues ih =>
    rw [respellProperty_obj, respellMembers, respellList_eq]
    refine ⟨legible_mapFields hnames fun m hm => ?_, legible_mapFields hnames fun m hm => (ih m hm).1⟩
    rw [respellField, ← respellMembers_eq]
    split
    · exact legible_respellType f (hvalues m hm)
    · split
      · exact (ih m hm).2
      · split
        · exact (ih m hm).1
        · exact hvalues m hm
  | arr hitems ih => exact ⟨.arr hitems, .arr hitems⟩
  | _ => constructor <;> constructor <;> assumption

theorem legible_respell {v : Json} {depth : ℕ} (hv : Legible depth v) : Legible depth (respell f v) :=
  legible_mapDeclared (fun hfound => (legible_respellProperty f hfound).2) hv

end

end Schema

end TagTypes
