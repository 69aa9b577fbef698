/-!
# Sorted texts

Texts in the order of their code points, as lists with and without repetition.
-/

namespace TagTypes.Text

def sorted (texts : List String) : List String := texts.mergeSort fun a b => decide (a ≤ b)

def sortedSet (texts : List String) : List String := sorted texts.eraseDups

theorem mem_sorted {x : String} {texts : List String} : x ∈ sorted texts ↔ x ∈ texts :=
  (List.mergeSort_perm texts _).mem_iff

end TagTypes.Text
