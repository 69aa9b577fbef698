import Mathlib.Data.String.Basic
import Mathlib.Tactic
import TagTypes.Text.Sorted

/-!
# Lists of texts in order

A sorted list without repetition is determined by what is in it.
-/

namespace TagTypes.Text

theorem mem_sortedSet {x : String} {texts : List String} : x ∈ sortedSet texts ↔ x ∈ texts := by
  rw [sortedSet, mem_sorted, List.mem_eraseDups]

theorem pairwise_sorted (texts : List String) : (sorted texts).Pairwise (· ≤ ·) := by
  have htrans : ∀ a b c : String, decide (a ≤ b) = true → decide (b ≤ c) = true → decide (a ≤ c) = true :=
    fun a b c hab hbc => decide_eq_true (le_trans (of_decide_eq_true hab) (of_decide_eq_true hbc))
  have htotal : ∀ a b : String, (decide (a ≤ b) || decide (b ≤ a)) = true := fun a b => by simpa using le_total a b
  have hsorted := List.pairwise_mergeSort htrans htotal texts
  exact hsorted.imp of_decide_eq_true

/-- The first occurrence of each text is kept, so none is kept twice. -/
theorem nodup_eraseDups (texts : List String) : texts.eraseDups.Nodup := by
  cases texts with
  | nil => simp
  | cons text rest =>
    rw [List.eraseDups_cons, List.nodup_cons, List.mem_eraseDups]
    exact ⟨by simp, nodup_eraseDups (rest.filter fun other => !other == text)⟩
termination_by texts.length
decreasing_by exact Nat.lt_succ_of_le (List.length_filter_le _ _)

theorem perm_sorted (texts : List String) : (sorted texts).Perm texts := List.mergeSort_perm texts _

theorem nodup_sorted {texts : List String} (htexts : texts.Nodup) : (sorted texts).Nodup :=
  (perm_sorted texts).nodup_iff.2 htexts

theorem nodup_sortedSet (texts : List String) : (sortedSet texts).Nodup := nodup_sorted (nodup_eraseDups texts)

theorem sortedSet_congr {texts others : List String} (hsame : ∀ x, x ∈ texts ↔ x ∈ others) :
    sortedSet texts = sortedSet others := by
  have hperm : (sortedSet texts).Perm (sortedSet others) := by
    rw [List.perm_ext_iff_of_nodup (nodup_sortedSet texts) (nodup_sortedSet others)]
    intro x
    rw [mem_sortedSet, mem_sortedSet, hsame]
  exact hperm.eq_of_pairwise (fun _ _ _ _ => le_antisymm) (pairwise_sorted _) (pairwise_sorted _)

@[simp] theorem sorted_nil : sorted [] = [] := List.mergeSort_nil

theorem eq_singleton_of_nodup {x : String} {texts : List String} (hnodup : texts.Nodup) (hmem : ∀ y, y ∈ texts ↔ y = x) :
    texts = [x] := by
  apply List.perm_singleton.1
  rw [List.perm_ext_iff_of_nodup hnodup (List.nodup_singleton x)]
  intro y
  rw [hmem, List.mem_singleton]

end TagTypes.Text
