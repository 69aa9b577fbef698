import Mathlib.Tactic
import TagTypes.Disk.TextFile

/-!
# Unified line ends

With unified line ends a text has no carriage returns, so to unify them once more changes nothing. What comes before the first carriage return stays as it is, and the text begins as before, or with a line end.
-/

namespace TagTypes

theorem unifyLineEnds_cons {c : Char} (hc : c ≠ '\r') (cs : List Char) : unifyLineEnds (c :: cs) = c :: unifyLineEnds cs :=
  unifyLineEnds.eq_4 _ _ (fun _ hreturn _ => hc hreturn) hc

/-- A text with unified line ends begins as before, or with a line end. -/
theorem exists_unifyLineEnds_cons (c : Char) (cs : List Char) :
    ∃ rest, unifyLineEnds (c :: cs) = (if c = '\r' then '\n' else c) :: rest := by
  by_cases hc : c = '\r'
  · subst hc
    rw [if_pos rfl]
    cases cs with
    | nil => exact ⟨_, rfl⟩
    | cons d rest =>
      by_cases hd : d = '\n'
      · subst hd
        exact ⟨_, rfl⟩
      · exact ⟨_, unifyLineEnds.eq_3 _ fun _ heq => hd (List.cons.inj heq).1⟩
  · rw [if_neg hc]
    exact ⟨_, unifyLineEnds_cons hc cs⟩

theorem unifyLineEnds_append {piece : List Char} (hpiece : '\r' ∉ piece) (rest : List Char) :
    unifyLineEnds (piece ++ rest) = piece ++ unifyLineEnds rest := by
  induction piece with
  | nil => rfl
  | cons c piece ih =>
    rw [List.mem_cons, not_or] at hpiece
    rw [List.cons_append, unifyLineEnds_cons (Ne.symm hpiece.1), ih hpiece.2, List.cons_append]

theorem unifyLineEnds_of_notMem {cs : List Char} (hcs : '\r' ∉ cs) : unifyLineEnds cs = cs := by
  simpa [unifyLineEnds] using unifyLineEnds_append hcs []

theorem notMem_unifyLineEnds (cs : List Char) : '\r' ∉ unifyLineEnds cs := by
  fun_induction unifyLineEnds cs with
  | case1 => simp
  | case2 rest ih => simpa using ih
  | case3 rest hrest ih => simpa using ih
  | case4 c rest hfirst hsecond ih => simpa [Ne.symm hsecond] using ih

theorem unifyLineEnds_eq_iff {cs : List Char} : unifyLineEnds cs = cs ↔ '\r' ∉ cs := by
  constructor
  · intro heq
    rw [← heq]
    exact notMem_unifyLineEnds cs
  · exact unifyLineEnds_of_notMem

/-- A text begins alike with unified line ends, as far as it does not begin with a line end. -/
theorem unifyLineEnds_eq_cons {c : Char} {cs rest : List Char} (hc : c ≠ '\n') (hcs : unifyLineEnds cs = c :: rest) :
    ∃ tail, cs = c :: tail ∧ rest = unifyLineEnds tail := by
  cases cs with
  | nil => cases hcs
  | cons d tail =>
    by_cases hd : d = '\r'
    · subst hd
      obtain ⟨more, hmore⟩ := exists_unifyLineEnds_cons '\r' tail
      rw [hmore, if_pos rfl] at hcs
      exact absurd (List.cons.inj hcs).1.symm hc
    · rw [unifyLineEnds_cons hd] at hcs
      obtain ⟨rfl, rfl⟩ := List.cons.inj hcs
      exact ⟨tail, rfl, rfl⟩

/-- A text does not begin with the character, and so not with unified line ends either. -/
theorem unifyLineEnds_ne_cons {c : Char} (hc : c ≠ '\n') {cs : List Char} (hcs : ∀ rest, cs ≠ c :: rest) :
    ∀ rest, unifyLineEnds cs ≠ c :: rest := by
  intro rest heq
  obtain ⟨tail, htail, -⟩ := unifyLineEnds_eq_cons hc heq
  exact hcs tail htail

/-- A beginning of a text is one with unified line ends as well. -/
theorem unifyLineEnds_isPrefix {cs text : List Char} (hcs : cs <+: text) : unifyLineEnds cs <+: unifyLineEnds text := by
  fun_induction unifyLineEnds cs generalizing text with
  | case1 => exact List.nil_prefix
  | case2 rest ih =>
    obtain ⟨tail, rfl⟩ := hcs
    exact List.cons_prefix_cons.2 ⟨rfl, ih (List.prefix_append rest tail)⟩
  | case3 rest hrest ih =>
    obtain ⟨tail, rfl⟩ := hcs
    cases rest with
    | nil =>
      obtain ⟨more, hmore⟩ := exists_unifyLineEnds_cons '\r' tail
      exact ⟨more, hmore.symm⟩
    | cons d rest =>
      have hd : d ≠ '\n' := fun heq => hrest rest (by rw [heq])
      rw [List.cons_append, List.cons_append, unifyLineEnds.eq_3 _ fun _ heq => hd (List.cons.inj heq).1]
      exact List.cons_prefix_cons.2 ⟨rfl, ih (List.prefix_append _ tail)⟩
  | case4 c rest hfirst hsecond ih =>
    obtain ⟨tail, rfl⟩ := hcs
    rw [List.cons_append, unifyLineEnds_cons hsecond]
    exact List.cons_prefix_cons.2 ⟨rfl, ih (List.prefix_append rest tail)⟩

/-- A class of characters without line ends is cut off alike. -/
theorem takeWhile_dropWhile_unifyLineEnds {p : Char → Bool} (hreturn : p '\r' = false) (hfeed : p '\n' = false) (cs : List Char) :
    (unifyLineEnds cs).takeWhile p = cs.takeWhile p ∧ (unifyLineEnds cs).dropWhile p = unifyLineEnds (cs.dropWhile p) := by
  induction cs with
  | nil => exact ⟨rfl, rfl⟩
  | cons c cs ih =>
    cases hc : p c with
    | true =>
      have hne : c ≠ '\r' := by
        rintro rfl
        rw [hreturn] at hc
        cases hc
      rw [unifyLineEnds_cons hne, List.takeWhile_cons_of_pos hc, List.takeWhile_cons_of_pos hc, List.dropWhile_cons_of_pos hc,
        List.dropWhile_cons_of_pos hc, ih.1, ih.2]
      exact ⟨rfl, rfl⟩
    | false =>
      obtain ⟨rest, hrest⟩ := exists_unifyLineEnds_cons c cs
      have hfirst : p (if c = '\r' then '\n' else c) = false := by
        split
        · exact hfeed
        · exact hc
      rw [List.takeWhile_cons_of_neg (by simp [hc]), List.dropWhile_cons_of_neg (by simp [hc]), hrest,
        List.takeWhile_cons_of_neg (by simp [hfirst]), List.dropWhile_cons_of_neg (by simp [hfirst])]
      exact ⟨rfl, rfl⟩

end TagTypes
