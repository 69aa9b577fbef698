import Mathlib.Data.List.TakeWhile
import Mathlib.Tactic
import TagTypes.Proofs.Text.Span
import TagTypes.Text.Split

/-!
# Pieces of texts

A text without the mark is one piece, and a mark between two texts keeps the pieces of both apart. What stands before the first mark and what follows the last one are the pieces at the ends.
-/

namespace TagTypes.Text

variable {mark : Char}

theorem split_of_not_mem {cs : List Char} (hcs : mark ∉ cs) : split mark cs = [cs] := by
  induction cs with
  | nil => rfl
  | cons c cs ih =>
    rw [List.mem_cons, not_or] at hcs
    rw [split, if_neg (Ne.symm hcs.1), ih hcs.2]

theorem split_append_mark (xs ys : List Char) : split mark (xs ++ mark :: ys) = split mark xs ++ split mark ys := by
  induction xs with
  | nil => simp [split]
  | cons x xs ih =>
    rw [List.cons_append, split, split, ih]
    by_cases hx : x = mark
    · rw [if_pos hx, if_pos hx, List.cons_append]
    · rw [if_neg hx, if_neg hx]
      cases hsplit : split mark xs with
      | nil => exact absurd hsplit (split_ne_nil mark xs)
      | cons piece pieces => rfl

/-! ### The pieces at the ends -/

theorem splitFirst_of_not_mem {cs : List Char} (hcs : mark ∉ cs) : splitFirst mark cs = (cs, none) := by
  induction cs with
  | nil => rfl
  | cons c cs ih =>
    rw [List.mem_cons, not_or] at hcs
    rw [splitFirst, if_neg (Ne.symm hcs.1), ih hcs.2]

theorem splitFirst_append_mark {xs : List Char} (hxs : mark ∉ xs) (ys : List Char) :
    splitFirst mark (xs ++ mark :: ys) = (xs, some ys) := by
  induction xs with
  | nil => rw [List.nil_append, splitFirst, if_pos rfl]
  | cons x xs ih =>
    rw [List.mem_cons, not_or] at hxs
    rw [List.cons_append, splitFirst, if_neg (Ne.symm hxs.1), ih hxs.2]

theorem eq_append_of_splitFirst {cs before after : List Char} (h : splitFirst mark cs = (before, some after)) :
    cs = before ++ mark :: after ∧ mark ∉ before := by
  induction cs generalizing before with
  | nil => cases h
  | cons c cs ih =>
    rw [splitFirst] at h
    split at h
    · rename_i hc
      cases h
      exact ⟨by rw [hc, List.nil_append], List.not_mem_nil⟩
    · rename_i hc
      obtain ⟨rfl, hafter⟩ := Prod.mk.inj h
      obtain ⟨hcs, hmark⟩ := ih (Prod.ext rfl hafter)
      exact ⟨by rw [List.cons_append, ← hcs], by simpa [Ne.symm hc] using hmark⟩

theorem afterLast_of_not_mem {cs : List Char} (hcs : mark ∉ cs) : afterLast mark cs = cs := by
  have hall : ∀ c ∈ cs.reverse, decide (c ≠ mark) = true := by
    intro c hc
    exact decide_eq_true fun heq => hcs (heq ▸ List.mem_reverse.1 hc)
  rw [afterLast, ← List.append_nil cs.reverse, takeWhile_append_of_stopsAt hall (stopsAt_nil _), List.reverse_reverse]

/-- What stands before a mark does not count. -/
theorem afterLast_append_mark (xs ys : List Char) : afterLast mark (xs ++ mark :: ys) = afterLast mark ys := by
  have hends : (xs ++ mark :: ys).reverse = ys.reverse ++ mark :: xs.reverse := by simp
  rw [afterLast, afterLast, hends, List.takeWhile_append, List.takeWhile_cons_of_neg (by simp)]
  split
  · rename_i hall
    rw [List.append_nil, (List.takeWhile_prefix _).eq_of_length hall]
  · rfl

theorem mark_not_mem_afterLast (mark : Char) (cs : List Char) : mark ∉ afterLast mark cs := by
  intro hmem
  rw [afterLast, List.mem_reverse] at hmem
  simpa using List.mem_takeWhile_imp hmem

theorem exists_eq_append_afterLast {cs : List Char} (hcs : mark ∈ cs) : ∃ before, cs = before ++ mark :: afterLast mark cs := by
  obtain ⟨last, before, hreverse, hlast⟩ := List.eq_append_cons_of_mem (List.mem_reverse.2 hcs)
  have hends : cs = before.reverse ++ mark :: last.reverse := by
    rw [← List.reverse_reverse cs, hreverse]
    simp
  refine ⟨before.reverse, ?_⟩
  rw [hends, afterLast_append_mark, afterLast_of_not_mem fun hmem => hlast (List.mem_reverse.1 hmem)]

end TagTypes.Text
