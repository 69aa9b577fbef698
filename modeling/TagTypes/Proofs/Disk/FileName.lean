import Mathlib.Tactic
import TagTypes.Disk.FilePath

/-!
# Names of files

A name that is kept in a file has the ending of its file behind it. Without this ending the name is the same again, whatever points it has in it; only an ending alone is no ending.
-/

namespace TagTypes.FilePath

variable {name : String}

/-- Without its ending a name is what stands before it; an ending alone is kept. -/
theorem stemOf_json (cs : List Char) :
    stemOf (String.ofList (cs ++ ".json".toList)) = if cs = [] then ".json" else String.ofList cs := by
  have hback : (String.ofList (cs ++ ".json".toList)).toList.reverse = "nosj".toList ++ '.' :: cs.reverse := by
    rw [String.toList_ofList, List.reverse_append]
    rfl
  have htake : ("nosj".toList ++ '.' :: cs.reverse).takeWhile (· ≠ '.') = "nosj".toList := by simp
  have hdrop : (("nosj".toList ++ '.' :: cs.reverse).dropWhile (· ≠ '.')).drop 1 = cs.reverse := by simp
  have hending : "nosj".toList.isEmpty = false := by decide
  unfold stemOf
  simp only [hback, htake, hdrop, hending, Bool.false_or, List.isEmpty_reverse, List.reverse_reverse]
  cases cs with
  | nil => rfl
  | cons c rest => rfl

theorem json_of_isSuffix (hname : ".json".toList.isSuffixOf name.toList = true) :
    ∃ cs, name = String.ofList (cs ++ ".json".toList) := by
  obtain ⟨cs, hcs⟩ := List.isSuffixOf_iff_suffix.1 hname
  exact ⟨cs, by rw [hcs, String.ofList_toList]⟩

theorem fileName_eq (key : String) : key ++ ".json" = String.ofList (key.toList ++ ".json".toList) := by
  rw [← String.toList_append, String.ofList_toList]

theorem stemOf_fileName {key : String} (hkey : key ≠ "") : stemOf (key ++ ".json") = key := by
  have hne : key.toList ≠ [] := fun hnil => hkey (String.toList_eq_nil_iff.1 hnil)
  rw [fileName_eq, stemOf_json, if_neg hne, String.ofList_toList]

end TagTypes.FilePath
