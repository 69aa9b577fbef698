import Mathlib.Data.List.SplitBy
import Mathlib.Tactic
import TagTypes.Proofs.Yaml.Writer

/-!
# Words and gaps

A text without a space next to a line end is cut into words and gaps by turns, where a gap consists of spaces or of line ends. So is what is written for it: a gap of spaces is written as it is, or by the end of a line if it is a single one, and line ends are written by one more of them.
-/

namespace TagTypes.Yaml.Writer

variable {indent : Nat} {run cs : List Char} {rs : List (List Char)}

/-- A run of characters that are neither spaces nor line ends. -/
structure IsWord (run : List Char) : Prop where
  ne_nil : run ≠ []
  separator : ∀ x ∈ run, separator? x = none

/-- A run of spaces or of line ends. -/
inductive IsGap : List Char → Prop where
  | spaces (n : Nat) : IsGap (List.replicate (n + 1) ' ')
  | breaks (n : Nat) : IsGap (List.replicate (n + 1) '\n')

theorem separator?_eq_some_iff {x y : Char} : separator? x = some y ↔ x = y ∧ (x = ' ' ∨ x = '\n') := by
  unfold separator?
  split <;> simp_all

theorem separator?_eq_none_iff {x : Char} : separator? x = none ↔ x ≠ ' ' ∧ x ≠ '\n' := by
  simp [separator?]

theorem inline_of_isWord {w : List Char} (hcommon : Common w) (hword : IsWord w) : Inline w := by
  intro x hx
  have hx' := hcommon x hx
  rw [isCommon, Bool.or_eq_true, decide_eq_true_eq] at hx'
  exact hx'.resolve_left (separator?_eq_none_iff.1 (hword.separator x hx)).2

theorem isWord_or_isGap_of_mem_runs (hrun : run ∈ runs cs) : IsWord run ∨ IsGap run := by
  have hchain := List.isChain_of_mem_splitBy hrun
  cases run with
  | nil => exact absurd rfl (List.ne_nil_of_mem_splitBy hrun)
  | cons first rest =>
    have hsame : ∀ x ∈ rest, separator? x = separator? first := by
      have htrans : (first :: rest).Pairwise fun a b => separator? a = separator? b := by
        rw [← List.isChain_iff_pairwise]
        exact hchain.imp fun a b hab => of_decide_eq_true hab
      intro x hx
      exact ((List.pairwise_cons.1 htrans).1 x hx).symm
    cases hkind : separator? first with
    | none =>
      refine .inl ⟨List.cons_ne_nil _ _, fun x hx => ?_⟩
      rcases List.mem_cons.1 hx with rfl | hx
      · exact hkind
      · rw [hsame x hx, hkind]
    | some mark =>
      obtain ⟨rfl, hmark⟩ := separator?_eq_some_iff.1 hkind
      have hall : first :: rest = List.replicate (rest.length + 1) first := by
        refine List.eq_replicate_iff.2 ⟨rfl, fun x hx => ?_⟩
        rcases List.mem_cons.1 hx with rfl | hx
        · rfl
        · exact (separator?_eq_some_iff.1 ((hsame x hx).trans hkind)).1
      rw [hall]
      rcases hmark with rfl | rfl
      · exact .inr (.spaces _)
      · exact .inr (.breaks _)

theorem IsGap.not_isWord (hgap : IsGap run) : ¬IsWord run := by
  rintro ⟨-, hword⟩
  cases hgap with
  | spaces n => exact absurd (hword ' ' (by simp)) (by decide)
  | breaks n => exact absurd (hword '\n' (by simp)) (by decide)

theorem isChain_of_hasPair {a b : Char} (hpair : hasPair a b cs = false) : cs.IsChain fun x y => ¬(x = a ∧ y = b) := by
  fun_induction hasPair a b cs with
  | case1 x y rest ih =>
    simp only [Bool.or_eq_false_iff, Bool.and_eq_false_iff, decide_eq_false_iff_not] at hpair
    exact List.isChain_cons_cons.2 ⟨fun ⟨hx, hy⟩ => hpair.1.elim (· hx) (· hy), ih hpair.2⟩
  | case2 cs hcs =>
    rcases cs with _ | ⟨x, _ | ⟨y, rest⟩⟩
    · exact .nil
    · exact .singleton x
    · exact absurd rfl (hcs x y rest)

/-- Words and gaps by turns. -/
def ByTurns (rs : List (List Char)) : Prop := rs.IsChain fun a b => (IsWord a ∧ IsGap b) ∨ (IsGap a ∧ IsWord b)

theorem byTurns_runs (hbefore : hasPair ' ' '\n' cs = false) (hafter : hasPair '\n' ' ' cs = false) : ByTurns (runs cs) := by
  refine List.isChain_iff_forall_rel_of_append_cons_cons.2 fun a b before after hruns => ?_
  have hcs : cs = before.flatten ++ (a ++ (b ++ after.flatten)) := by
    rw [← flatten_runs cs, hruns]
    simp
  have hkinds := List.isChain_iff_forall_rel_of_append_cons_cons.1
    (List.isChain_getLast_head_splitBy (fun a b => separator? a = separator? b) cs) hruns
  obtain ⟨ha, hb, hne⟩ := hkinds
  have hadjacent : ∀ {p : Char → Char → Prop}, cs.IsChain p → p (a.getLast ha) (b.head hb) := by
    intro p hp
    have hsplit : cs = (before.flatten ++ a.dropLast) ++ a.getLast ha :: b.head hb :: (b.tail ++ after.flatten) := by
      have hends : cs = before.flatten ++ ((a.dropLast ++ [a.getLast ha]) ++ ((b.head hb :: b.tail) ++ after.flatten)) := by
        rw [List.dropLast_append_getLast, List.cons_head_tail, hcs]
      simpa only [List.append_assoc, List.cons_append, List.nil_append] using hends
    exact List.isChain_iff_forall_rel_of_append_cons_cons.1 hp hsplit
  have hmem : a ∈ runs cs ∧ b ∈ runs cs := by simp [hruns]
  rcases isWord_or_isGap_of_mem_runs hmem.1 with hworda | hgapa
  · rcases isWord_or_isGap_of_mem_runs hmem.2 with hwordb | hgapb
    · rw [hworda.separator _ (List.getLast_mem ha), hwordb.separator _ (List.head_mem hb)] at hne
      simp at hne
    · exact .inl ⟨hworda, hgapb⟩
  · rcases isWord_or_isGap_of_mem_runs hmem.2 with hwordb | hgapb
    · exact .inr ⟨hgapa, hwordb⟩
    · cases hgapa with
      | spaces m =>
        cases hgapb with
        | spaces n => simp at hne
        | breaks n => exact absurd (hadjacent (isChain_of_hasPair hbefore)) (by simp)
      | breaks m =>
        cases hgapb with
        | spaces n => exact absurd (hadjacent (isChain_of_hasPair hafter)) (by simp)
        | breaks n => simp at hne

theorem mem_of_mem_runs {x : Char} (hrun : run ∈ runs cs) (hx : x ∈ run) : x ∈ cs := by
  rw [← flatten_runs cs]
  exact List.mem_flatten_of_mem hrun hx

/-- How a gap is written. -/
inductive WrittenGap (indent : Nat) : List Char → List Char → Prop where
  | spaces (n : Nat) : WrittenGap indent (List.replicate (n + 1) ' ') (List.replicate (n + 1) ' ')
  | turn : WrittenGap indent [' '] ('\n' :: blanks indent)
  | breaks (n : Nat) : WrittenGap indent (List.replicate (n + 1) '\n') (List.replicate (n + 2) '\n' ++ blanks indent)

theorem WrittenGap.exists_cons {s t : List Char} (hgap : WrittenGap indent s t) :
    ∃ x more, t = x :: more ∧ (x = ' ' ∨ x = '\n') := by
  cases hgap with
  | spaces n => exact ⟨' ', List.replicate n ' ', rfl, .inl rfl⟩
  | turn => exact ⟨'\n', blanks indent, rfl, .inr rfl⟩
  | breaks n => exact ⟨'\n', List.replicate (n + 1) '\n' ++ blanks indent, rfl, .inr rfl⟩

/-- How a text is written that begins with a word or, if the flag is set, with a gap. -/
inductive Laid (isGood : List Char → Prop) (quote : Char → List Char) (indent : Nat) : Bool → List Char → List Char → Prop where
  | done (afterWord : Bool) : Laid isGood quote indent afterWord [] []
  | gap {s t text written : List Char} (hgap : WrittenGap indent s t) (hrest : Laid isGood quote indent false text written) :
      Laid isGood quote indent true (s ++ text) (t ++ written)
  | word {w text written : List Char} (hword : IsWord w) (hgood : isGood w)
      (hrest : Laid isGood quote indent true text written) :
      Laid isGood quote indent false (w ++ text) (w.flatMap quote ++ written)

theorem ByTurns.isGap_head? (hturns : ByTurns (run :: rs)) (hword : IsWord run) : ∀ other ∈ rs.head?, IsGap other := by
  intro other hother
  rcases List.IsChain.rel_head? hturns hother with ⟨-, hgap⟩ | ⟨hgap, -⟩
  · exact hgap
  · exact absurd hword hgap.not_isWord

theorem ByTurns.isWord_head? (hturns : ByTurns (run :: rs)) (hgap : IsGap run) : ∀ other ∈ rs.head?, IsWord other := by
  intro other hother
  rcases List.IsChain.rel_head? hturns hother with ⟨hword, -⟩ | ⟨-, hword⟩
  · exact absurd hword hgap.not_isWord
  · exact hword

section WriteRuns

variable {quote : Char → List Char} {column : Nat} {isFirst : Bool}

theorem writeRuns_word (hword : IsWord run) : writeRuns quote indent column isFirst (run :: rs) =
    run.flatMap quote ++ writeRuns quote indent (column + (run.flatMap quote).length) false rs := by
  have hhead : separator? (run.head hword.ne_nil) = none := hword.separator _ (List.head_mem _)
  rw [writeRuns, List.head?_eq_some_head hword.ne_nil]
  split
  · rename_i heq
    rw [Option.some.inj heq] at hhead
    cases hhead
  · rename_i heq
    rw [Option.some.inj heq] at hhead
    cases hhead
  · rfl

theorem writeRuns_breaks (n : Nat) : writeRuns quote indent column isFirst (List.replicate (n + 1) '\n' :: rs) =
    (List.replicate (n + 2) '\n' ++ blanks indent) ++ writeRuns quote indent indent false rs := by
  simp only [writeRuns, List.replicate_succ, List.head?_cons, List.length_cons, List.length_replicate]

theorem laid_writeRuns {isGood : List Char → Prop} {afterWord : Bool}
    (hrs : ∀ run ∈ rs, IsWord run → isGood run) (hturns : ByTurns rs)
    (hfirst : ∀ run ∈ rs.head?, if afterWord then IsGap run else IsWord run) :
    Laid isGood quote indent afterWord rs.flatten (writeRuns quote indent column isFirst rs) := by
  induction rs generalizing column isFirst afterWord with
  | nil => exact .done afterWord
  | cons run rest ih =>
    rw [List.forall_mem_cons] at hrs
    have hrest : ByTurns rest := hturns.tail
    rw [List.flatten_cons]
    cases afterWord with
    | false =>
      have hword : IsWord run := hfirst run rfl
      rw [writeRuns_word hword]
      exact .word hword (hrs.1 hword) (ih hrs.2 hrest (by simpa using hturns.isGap_head? hword))
    | true =>
      have hgap : IsGap run := hfirst run rfl
      have hlaid : ∀ {column}, Laid isGood quote indent false rest.flatten (writeRuns quote indent column false rest) :=
        ih hrs.2 hrest (by simpa using hturns.isWord_head? hgap)
      cases hgap with
      | spaces n =>
        simp only [writeRuns, List.replicate_succ, List.head?_cons]
        split
        · rename_i hturn
          obtain rfl : n = 0 := by
            simp only [List.length_cons, List.length_replicate, Bool.and_eq_true, decide_eq_true_eq] at hturn
            omega
          exact .gap .turn hlaid
        · exact .gap (.spaces n) hlaid
      | breaks n =>
        rw [writeRuns_breaks]
        exact .gap (.breaks n) hlaid

end WriteRuns

theorem exists_laid {isGood : List Char → Prop} {quote : Char → List Char} {column : Nat} {isFirst : Bool}
    (hgood : ∀ run ∈ runs cs, IsWord run → isGood run) (hbefore : hasPair ' ' '\n' cs = false)
    (hafter : hasPair '\n' ' ' cs = false) :
    ∃ afterWord, Laid isGood quote indent afterWord cs (writeRuns quote indent column isFirst (runs cs)) := by
  have hlaid : ∀ {afterWord}, (∀ run ∈ (runs cs).head?, if afterWord then IsGap run else IsWord run) →
      Laid isGood quote indent afterWord cs (writeRuns quote indent column isFirst (runs cs)) := by
    intro afterWord hfirst
    have hruns : Laid isGood quote indent afterWord (runs cs).flatten (writeRuns quote indent column isFirst (runs cs)) :=
      laid_writeRuns hgood (byTurns_runs hbefore hafter) hfirst
    rwa [flatten_runs] at hruns
  cases hruns : runs cs with
  | nil => exact ⟨false, by rw [← hruns]; exact hlaid (by simp [hruns])⟩
  | cons run rest =>
    rw [← hruns]
    have hmem : run ∈ runs cs := by simp [hruns]
    rcases isWord_or_isGap_of_mem_runs hmem with hword | hgap
    · exact ⟨false, hlaid (by simpa [hruns] using hword)⟩
    · exact ⟨true, hlaid (by simpa [hruns] using hgap)⟩

/-- A text that does not begin with a gap begins with a word. -/
theorem Laid.eq_false {isGood : List Char → Prop} {quote : Char → List Char} {afterWord : Bool} {text written : List Char}
    (hlaid : Laid isGood quote indent afterWord text written) (hne : text ≠ [])
    (hhead : text.head? ≠ some ' ' ∧ text.head? ≠ some '\n') : afterWord = false := by
  cases hlaid with
  | done => exact absurd rfl hne
  | gap hgap => cases hgap <;> simp [List.replicate_succ] at hhead
  | word => rfl

end TagTypes.Yaml.Writer
