import Mathlib.Tactic
import TagTypes.Proofs.Text.Split
import TagTypes.Registry

/-!
# Tags under one name

A text is the name of a tag if it is not empty and has no slash in it. The path of a type in the folder of types is in normal form if and only if the type has such a name; another type leads to the same tag if its path has that name as its only part.
-/

namespace TagTypes

namespace TagPath

/-- A text that can name a tag in a folder. -/
def IsName (name : String) : Prop := name ≠ "" ∧ '/' ∉ name.toList

instance (name : String) : Decidable (IsName name) := inferInstanceAs (Decidable (_ ∧ _))

theorem isName_of_mem_segments {path name : String} (hname : name ∈ segments path) : IsName name := by
  rw [segments, List.mem_filter, List.mem_map] at hname
  obtain ⟨⟨piece, hpiece, rfl⟩, hne⟩ := hname
  refine ⟨by simpa using hne, ?_⟩
  rw [String.toList_ofList]
  exact Text.mark_notMem_of_mem_split hpiece

theorem segments_of_isName {name : String} (hname : IsName name) : segments name = [name] := by
  rw [segments, Text.split_of_not_mem hname.2]
  simp [hname.1]

theorem segments_empty : segments "" = [] := by decide

/-- A text without slashes is the name of a tag or leads nowhere. -/
theorem eq_of_segments_eq_singleton {text name : String} (htext : '/' ∉ text.toList) (hsegments : segments text = [name]) :
    text = name := by
  by_cases hempty : text = ""
  · rw [hempty, segments_empty] at hsegments
    cases hsegments
  · rw [segments_of_isName ⟨hempty, htext⟩] at hsegments
    exact List.singleton_inj.1 hsegments

theorem segments_slash (a b : String) : segments (a ++ "/" ++ b) = segments a ++ segments b := by
  have htext : (a ++ "/" ++ b).toList = a.toList ++ '/' :: b.toList := by simp
  rw [segments, htext, Text.split_append_mark, List.map_append, List.filter_append]
  rfl

theorem segments_intercalate {names : List String} (hnames : ∀ name ∈ names, IsName name) :
    segments (String.intercalate "/" names) = names := by
  induction names with
  | nil => exact segments_empty
  | cons name rest ih =>
    have hname := segments_of_isName (hnames name (by simp))
    have hrest := ih fun other hother => hnames other (by simp [hother])
    cases rest with
    | nil => rw [String.intercalate_singleton, hname]
    | cons next more => rw [String.intercalate_cons_cons, segments_slash, hname, hrest, List.singleton_append]

/-- The normal form has the same parts. -/
theorem segments_normalize (path : String) : segments (normalize path) = segments path :=
  segments_intercalate fun _ => isName_of_mem_segments

theorem normalize_eq_iff {path other : String} : normalize path = normalize other ↔ segments path = segments other := by
  constructor
  · intro heq
    rw [← segments_normalize path, heq, segments_normalize]
  · intro heq
    rw [TagPath.normalize, heq, TagPath.normalize]

theorem toList_inFolder (folder name : String) : (inFolder folder name).toList = lead folder ++ name.toList := by
  unfold inFolder lead
  split <;> simp

/-- The tags in a folder are those at the paths of names without slashes. -/
theorem nameIn?_eq_some_iff {folder path name : String} :
    nameIn? folder path = some name ↔ '/' ∉ name.toList ∧ inFolder folder name = path := by
  unfold nameIn?
  simp only [List.isPrefixOf_iff_prefix]
  constructor
  · intro hname
    split at hname
    · rename_i hlead
      obtain ⟨rest, hrest⟩ := hlead
      rw [← hrest, List.drop_left] at hname
      split at hname
      · cases hname
      · rename_i hslash
        cases hname
        refine ⟨by simpa using hslash, String.toList_inj.1 ?_⟩
        rw [toList_inFolder, String.toList_ofList, hrest]
    · cases hname
  · rintro ⟨hslash, rfl⟩
    rw [toList_inFolder, if_pos (List.prefix_append _ _), List.drop_left, if_neg (by simpa using hslash), String.ofList_toList]

end TagPath

namespace Registry

open TagPath

theorem segments_typePath (type : String) : segments (typePath type) = "_types_" :: segments type := by
  rw [typePath, typesFolder, segments_slash]
  rfl

theorem normalize_typePath {type : String} (htype : IsName type) : normalize (typePath type) = typePath type := by
  rw [TagPath.normalize, segments_typePath, segments_of_isName htype, String.intercalate_cons_cons,
    String.intercalate_singleton]
  rfl

theorem normalize_typesFolder : normalize typesFolder = typesFolder := by decide

theorem inFolder_typesFolder (name : String) : inFolder typesFolder name = typePath name := by
  rw [inFolder, if_neg (by decide), typePath]

/-- Two types have one tag if and only if their paths have the same parts. -/
theorem normalize_typePath_eq_iff {type other : String} :
    normalize (typePath type) = normalize (typePath other) ↔ segments type = segments other := by
  rw [normalize_eq_iff, segments_typePath, segments_typePath, List.cons.injEq, and_iff_right rfl]

theorem typePath_inj {type other : String} : typePath type = typePath other ↔ type = other := by
  constructor
  · intro heq
    have hlists := congrArg String.toList heq
    simp only [typePath, String.toList_append, List.append_cancel_left_eq] at hlists
    exact String.toList_inj.1 hlists
  · intro hsame
    subst hsame
    rfl

end Registry

end TagTypes
