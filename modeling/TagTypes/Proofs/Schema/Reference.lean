import Mathlib.Tactic
import TagTypes.Proofs.Schema.Declared
import TagTypes.Proofs.Text.Split

/-!
# What a reference means

A reference means one type: what follows its last slash, without one ending of a schema file. The reader takes a reference with a slash for the type that it means, whatever path stands in front. A reference without a slash it takes for the name of the type as it is, ending and all; so it is taken for what it means only if it does not have that ending.
-/

namespace TagTypes.Schema

open Text (afterLast)

/-! ### Endings -/

section Endings

variable {ending cs : List Char}

theorem dropEnding_append (ending cs : List Char) : dropEnding ending (cs ++ ending) = cs := by
  rw [dropEnding, if_pos (List.isSuffixOf_iff_suffix.2 (List.suffix_append cs ending)), List.length_append, Nat.add_sub_cancel,
    List.take_left]

theorem dropEnding_of_not_suffix (hcs : ¬ending <:+ cs) : dropEnding ending cs = cs :=
  if_neg fun hsuffix => hcs (List.isSuffixOf_iff_suffix.1 hsuffix)

end Endings

/-! ### The type that is meant -/

/-- The reference means the type: this is what follows the last slash, without one ending of a schema file. -/
def Means (reference type : String) : Prop :=
  ∃ part, '/' ∉ part.toList ∧ (reference = part ∨ ∃ path, reference = path ++ "/" ++ part) ∧
    (part = type ++ ".json" ∨ part = type ∧ ¬".json".toList <:+ part.toList)

variable {path reference type : String}

theorem toList_append_slash (path part : String) : (path ++ "/" ++ part).toList = path.toList ++ '/' :: part.toList := by
  simp

/-- The type that a reference means, taken from its characters. -/
def meant (reference : String) : String := String.ofList (dropEnding ".json".toList (afterLast '/' reference.toList))

theorem meant_of_means (hmeans : Means reference type) : meant reference = type := by
  obtain ⟨part, hslash, hpath, hending⟩ := hmeans
  have hlast : afterLast '/' reference.toList = part.toList := by
    rcases hpath with rfl | ⟨path, rfl⟩
    · exact Text.afterLast_of_not_mem hslash
    · rw [toList_append_slash, Text.afterLast_append_mark, Text.afterLast_of_not_mem hslash]
  rw [meant, hlast]
  rcases hending with rfl | ⟨rfl, hplain⟩
  · rw [String.toList_append, dropEnding_append, String.ofList_toList]
  · rw [dropEnding_of_not_suffix hplain, String.ofList_toList]

theorem means_meant (reference : String) : Means reference (meant reference) := by
  refine ⟨String.ofList (afterLast '/' reference.toList), ?_, ?_, ?_⟩
  · rw [String.toList_ofList]
    exact Text.mark_not_mem_afterLast '/' _
  · by_cases hslash : '/' ∈ reference.toList
    · obtain ⟨path, hpath⟩ := Text.exists_eq_append_afterLast hslash
      refine .inr ⟨String.ofList path, String.toList_inj.1 ?_⟩
      rw [toList_append_slash, String.toList_ofList, String.toList_ofList]
      exact hpath
    · rw [Text.afterLast_of_not_mem hslash, String.ofList_toList]
      exact .inl rfl
  · by_cases hending : ".json".toList <:+ afterLast '/' reference.toList
    · obtain ⟨stem, hstem⟩ := hending
      refine .inl (String.toList_inj.1 ?_)
      rw [meant, ← hstem, dropEnding_append, String.toList_append, String.toList_ofList (l := stem)]
      exact String.toList_ofList
    · rw [meant, dropEnding_of_not_suffix hending, String.toList_ofList (l := afterLast '/' reference.toList)]
      exact .inr ⟨rfl, hending⟩

/-- A reference means exactly one type. -/
theorem means_iff : Means reference type ↔ type = meant reference :=
  ⟨fun hmeans => (meant_of_means hmeans).symm, fun h => h ▸ means_meant reference⟩

theorem meant_append_slash (path reference : String) : meant (path ++ "/" ++ reference) = meant reference := by
  rw [meant, toList_append_slash, Text.afterLast_append_mark, meant]

/-! ### The type that is read -/

/-- The reference is taken for the type that it means. -/
def IsTaken (reference : String) : Prop := '/' ∈ reference.toList ∨ ¬".json".toList <:+ reference.toList

theorem referenceName_of_mem (hslash : '/' ∈ reference.toList) : referenceName reference = meant reference :=
  if_pos (List.contains_iff_mem.2 hslash)

theorem referenceName_of_not_mem (hslash : '/' ∉ reference.toList) : referenceName reference = reference :=
  if_neg fun hmem => hslash (List.contains_iff_mem.1 hmem)

theorem referenceName_append_slash (path reference : String) : referenceName (path ++ "/" ++ reference) = meant reference := by
  rw [referenceName_of_mem (by simp), meant_append_slash]

theorem referenceName_eq_meant_iff : referenceName reference = meant reference ↔ IsTaken reference := by
  by_cases hslash : '/' ∈ reference.toList
  · exact iff_of_true (referenceName_of_mem hslash) (.inl hslash)
  · rw [referenceName_of_not_mem hslash, IsTaken, or_iff_right hslash, meant, Text.afterLast_of_not_mem hslash]
    constructor
    · rintro hsame ⟨stem, hstem⟩
      rw [← hstem, dropEnding_append] at hsame
      have hlength := congrArg (fun s => s.toList.length) hsame
      simp only [← hstem, String.toList_ofList, List.length_append] at hlength
      exact absurd hlength (by simp)
    · intro hplain
      rw [dropEnding_of_not_suffix hplain, String.ofList_toList]

/-! ### Properties and entries that bear a reference -/

/-- The reference stands in the field `$ref`. -/
def Bears (fields : List (String × Json)) (reference : String) : Prop := textField "$ref" fields = .ok (some reference)

variable {fields : List (String × Json)} {name : String} {s t : Schema}

theorem lookup_of_bears (hfields : Bears fields reference) :
    ∃ v, Dict.lookup "$ref" fields = some v ∧ primitiveText v = .ok reference := by
  unfold Bears textField at hfields
  split at hfields
  · cases hfields
  · rename_i v hv
    obtain ⟨found, hfound, hsome⟩ := map_eq_ok_iff.1 hfields
    cases hsome
    exact ⟨v, hv, hfound⟩

theorem property_of_bears (hfields : Bears fields reference) :
    property name (.obj fields) = .ok { name, type := some "object", refType := some (referenceName reference) } := by
  obtain ⟨v, hv, htext⟩ := lookup_of_bears hfields
  rw [property]
  simp only [hv, htext]
  rfl

theorem parentType_addAll (s : Schema) (ps : List Property) (required : List String) :
    (s.addAll ps required).parentType = s.parentType := by
  have hstep (s : Schema) (name : String) : (s.addRequired name).parentType = s.parentType := by
    unfold addRequired
    split <;> rfl
  have hfold (names : List String) (s : Schema) : (names.foldl addRequired s).parentType = s.parentType := by
    induction names generalizing s with
    | nil => rfl
    | cons name rest ih => rw [List.foldl_cons, ih, hstep]
  exact hfold required _

theorem parentType_of_bears (hfields : Bears fields reference) (ht : extend s (.obj fields) = .ok t) :
    t.parentType = some (referenceName reference) := by
  obtain ⟨parent, hparent, ps, -, required, -, rfl⟩ := extend_obj_eq_ok_iff.1 ht
  cases hparent.symm.trans hfields
  exact parentType_addAll _ ps required

end TagTypes.Schema
