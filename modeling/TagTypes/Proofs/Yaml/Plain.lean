import Mathlib.Tactic
import TagTypes.Proofs.Yaml.Cursor
import TagTypes.Proofs.Yaml.Runs

/-!
# Plain texts

A text that is written as it is, without quotes, is read back: no word of it begins with a sharp or ends with a colon, so every word is read to its end, and the next line after it is not indented enough to belong to it.
-/

namespace TagTypes.Yaml

open Writer (Inline isPrintable_of_isPlainChar inline_nil inline_blanks IsWord IsGap IsPlain WrittenGap Laid ByTurns isPrintable blanks runs isGap hasPair hasMark startsMarked)

/-! ### Plain words -/

/-- A word that a plain reader reads to its end. -/
structure IsPlainWord (w : List Char) : Prop where
  inline : Inline w
  notSharp : w.head? ≠ some '#'
  notColon : w.getLast? ≠ some ':'

theorem isWord_of_inline {w : List Char} (hne : w ≠ []) (hw : ∀ x ∈ w, isPrintable x = true ∧ x ≠ ' ') : IsWord w :=
  ⟨hne, fun x hx => Writer.separator?_eq_none_iff.2 ⟨(hw x hx).2, ne_of_isPrintable (hw x hx).1 (by decide)⟩⟩

theorem isPlainWord_of_notMem {w : List Char} (hinline : Inline w) (hsharp : '#' ∉ w) (hcolon : ':' ∉ w) : IsPlainWord w :=
  ⟨hinline, fun hhead => hsharp (List.mem_of_mem_head? hhead), fun hlast => hcolon (List.mem_of_getLast? hlast)⟩

theorem of_hasMark {before after : List Char} {a b : Char} (hmark : hasMark (before ++ a :: b :: after) = false) :
    ¬(b = ':' ∧ isGap after.head? = true) ∧ ¬(b = '#' ∧ isGapOrEnd a = true) := by
  induction before with
  | nil =>
    rw [List.nil_append, hasMark, Bool.or_eq_false_iff, Bool.or_eq_false_iff] at hmark
    simp_all
  | cons x before ih =>
    refine ih ?_
    cases before with
    | nil =>
      rw [List.cons_append, List.nil_append, hasMark, Bool.or_eq_false_iff] at hmark
      exact hmark.2
    | cons y before =>
      rw [List.cons_append, List.cons_append, hasMark, Bool.or_eq_false_iff] at hmark
      exact hmark.2

/-- After a space, neither the beginning of a text nor what follows is a mark. -/
theorem hasMark_cons {cs : List Char} (hmarked : startsMarked cs = false) (hmark : hasMark cs = false) :
    hasMark (' ' :: cs) = false := by
  cases cs with
  | nil => rfl
  | cons c rest =>
    simp only [startsMarked, Bool.or_eq_false_iff] at hmarked
    obtain ⟨-, hindicator, hcolon⟩ := hmarked
    have hsharp : c ≠ '#' := by
      rintro rfl
      cases hindicator
    rw [hasMark, hmark]
    simp_all

theorem mem_of_hasPair {a b : Char} {cs : List Char} (hpair : hasPair a b cs = true) : a ∈ cs ∧ b ∈ cs := by
  fun_induction hasPair a b cs with
  | case1 x y rest ih =>
    rw [Bool.or_eq_true, Bool.and_eq_true, decide_eq_true_eq, decide_eq_true_eq] at hpair
    rcases hpair with ⟨rfl, rfl⟩ | hpair
    · simp
    · exact ⟨List.mem_cons_of_mem _ (ih hpair).1, List.mem_cons_of_mem _ (ih hpair).2⟩
  | case2 => cases hpair

theorem hasPair_of_isPlain {text : String} (hplain : IsPlain text) (a b : Char) (hbreak : a = '\n' ∨ b = '\n') :
    hasPair a b text.toList = false := by
  by_contra hne
  obtain ⟨ha, hb⟩ := mem_of_hasPair (Bool.eq_true_of_not_eq_false hne)
  rcases hbreak with rfl | rfl
  · exact hplain.oneLine ha
  · exact hplain.oneLine hb

theorem byTurns_of_isPlain {text : String} (hplain : IsPlain text) : ByTurns (runs text.toList) :=
  Writer.byTurns_runs (hasPair_of_isPlain hplain _ _ (.inr rfl)) (hasPair_of_isPlain hplain _ _ (.inl rfl))

/-- A gap begins and ends with a character that a reader takes for one. -/
theorem isGap_of_isGap {run : List Char} (hgap : IsGap run) :
    isGap run.head? = true ∧ ∃ before x, run = before ++ [x] ∧ isGapOrEnd x = true := by
  cases hgap with
  | spaces n => exact ⟨rfl, _, ' ', List.replicate_succ', rfl⟩
  | breaks n => exact ⟨rfl, _, '\n', List.replicate_succ', rfl⟩

theorem isPlainWord_of_mem_runs {text : String} (hplain : IsPlain text) {run : List Char} (hrun : run ∈ runs text.toList)
    (hword : IsWord run) : IsPlainWord run := by
  obtain ⟨before, after, hruns⟩ := List.append_of_mem hrun
  have htext : text.toList = before.flatten ++ (run ++ after.flatten) := by
    rw [← Writer.flatten_runs text.toList, hruns]
    simp
  have hturns : Writer.ByTurns (before ++ run :: after) := hruns ▸ byTurns_of_isPlain hplain
  have hmark := hasMark_cons hplain.unmarked hplain.noMark
  -- a gap stands before the word, if only the space that was put there, and one or nothing after it
  obtain ⟨start, x, hstart, hx⟩ : ∃ start x, ' ' :: before.flatten = start ++ [x] ∧ isGapOrEnd x = true := by
    rcases List.eq_nil_or_concat before with rfl | ⟨earlier, gap, rfl⟩
    · exact ⟨[], ' ', rfl, rfl⟩
    · have hgap : IsGap gap := by
        have hadjacent : earlier.concat gap ++ run :: after = earlier ++ gap :: run :: after := by simp
        rcases List.isChain_iff_forall_rel_of_append_cons_cons.1 hturns hadjacent with ⟨-, hgap⟩ | ⟨hgap, -⟩
        · exact absurd hword hgap.not_isWord
        · exact hgap
      obtain ⟨-, piece, x, rfl, hx⟩ := isGap_of_isGap hgap
      exact ⟨' ' :: (earlier.flatten ++ piece), x, by simp, hx⟩
  have hafter : isGap after.flatten.head? = true := by
    cases after with
    | nil => rfl
    | cons gap later =>
      have hgap : IsGap gap := Writer.ByTurns.isGap_head? (List.IsChain.right_of_append hturns) hword gap rfl
      obtain ⟨hhead, piece, x, rfl, -⟩ := isGap_of_isGap hgap
      rw [List.flatten_cons, List.head?_append_of_ne_nil _ (by simp)]
      exact hhead
  have hmarks : hasMark (start ++ x :: (run ++ after.flatten)) = false := by
    rwa [htext, ← List.cons_append, hstart, List.append_assoc, List.singleton_append] at hmark
  refine ⟨Writer.inline_of_isWord (fun y hy => hplain.common y (Writer.mem_of_mem_runs hrun hy)) hword, ?_, ?_⟩
  · intro hhead
    obtain ⟨rest, rfl⟩ := List.head?_eq_some_iff.1 hhead
    exact (of_hasMark hmarks).2 ⟨rfl, hx⟩
  · intro hlast
    obtain ⟨rest, rfl⟩ := List.getLast?_eq_some_iff.1 hlast
    obtain ⟨earlier, y, hy⟩ : ∃ earlier y, start ++ x :: rest = earlier ++ [y] := by
      rcases List.eq_nil_or_concat (start ++ x :: rest) with hnil | ⟨earlier, y, hy⟩
      · simp at hnil
      · exact ⟨earlier, y, by simpa using hy⟩
    have hcolon : hasMark (earlier ++ y :: ':' :: after.flatten) = false := by
      have heq : start ++ x :: (rest ++ [':'] ++ after.flatten) = (start ++ x :: rest) ++ (':' :: after.flatten) := by simp
      rw [heq, hy] at hmarks
      simpa using hmarks
    exact (of_hasMark hcolon).1 ⟨rfl, hafter⟩

/-! ### Lines -/

/-- A line that is indented by `next` columns, and what is left of the text from its first character on. No line between documents begins there. -/
structure Line (tail : List Char) (next : Nat) (rest : List Char) : Prop where
  split : tail = blanks next ++ rest
  begins : ∀ x ∈ rest.head?, isPrintable x = true ∧ x ≠ ' '
  notMarker : next = 0 → ∀ x ∈ rest.head?, x ≠ '-' ∧ x ≠ '.'

namespace Line

variable {tail rest : List Char} {next : Nat} {c : Cursor} (h : Line tail next rest)
include h

theorem isDocumentLine_eq_false (hrest : c.rest = tail) : c.isDocumentLine = false := by
  refine Cursor.isDocumentLine_eq_false ?_
  rw [hrest, h.split]
  cases next with
  | zero => simpa [blanks] using h.notMarker rfl
  | succ n =>
    rintro x hx
    cases hx
    decide

end Line

namespace Scalar

variable {tail rest : List Char} {next : Nat} {c : Cursor}

theorem plainBreaks_of_blanks {fuel : Nat} (hrest : c.rest = blanks next ++ rest)
    (hbegins : ∀ x ∈ rest.head?, isPrintable x = true ∧ x ≠ ' ') (hfuel : next < fuel) :
    plainBreaks fuel c = (some [], c.after (blanks next) rest) := by
  induction fuel generalizing c next with
  | zero => omega
  | succ fuel ih =>
    cases next with
    | zero =>
      have hrest : c.rest = rest := hrest
      have hpeek : c.peek ≠ ' ' ∧ isBreak c.peek = false := by
        unfold Cursor.peek
        rw [hrest]
        cases hcases : rest with
        | nil => decide
        | cons x more =>
          have hx := hbegins x (by rw [hcases]; rfl)
          exact ⟨hx.2, isBreak_of_isPrintable hx.1⟩
      rw [plainBreaks, if_neg hpeek.1, if_neg (by rw [hpeek.2]; decide)]
      exact congrArg (some [], ·) (Cursor.after_nil hrest).symm
    | succ next =>
      have hspace : c.rest = ' ' :: (blanks next ++ rest) := hrest
      rw [plainBreaks, if_pos (Cursor.peek_eq hspace), Cursor.next_of_isPrintable hspace (by decide),
        ih (c := c.after [' '] (blanks next ++ rest)) rfl (by omega), Cursor.after_after]
      rfl

theorem plainSpaces_of_break (hrest : c.rest = '\n' :: tail) (hline : Line tail next rest) :
    plainSpaces c = ([' '], true, (c.nextLine tail).after (blanks next) rest) := by
  have hspan : c.span (· = ' ') = ([], c) := by
    have hempty : c.rest = [] ++ '\n' :: tail := hrest
    rw [Cursor.span_of_inline hempty inline_nil (by simp) (by simp), Cursor.after_nil hrest]
  have hbreaks : plainBreaks ((c.nextLine tail).rest.length + 1) (c.nextLine tail) =
      (some [], (c.nextLine tail).after (blanks next) rest) := by
    refine plainBreaks_of_blanks hline.split hline.begins ?_
    have hlength : (c.nextLine tail).rest.length = next + rest.length := by
      rw [Cursor.nextLine, hline.split, List.length_append, blanks, List.length_replicate]
    omega
  have hdocument : (c.nextLine tail).isDocumentLine = false := hline.isDocumentLine_eq_false rfl
  have hbreak : isBreak c.peek = true := by
    rw [Cursor.peek_eq hrest]
    decide
  unfold plainSpaces
  simp only [hspan, hbreak, if_true, Cursor.lineBreak_eq hrest, hdocument, Bool.false_eq_true, if_false, hbreaks]
  rfl

theorem plainSpaces_of_blanks {n : Nat} {x : Char} (hrest : c.rest = List.replicate (n + 1) ' ' ++ x :: rest)
    (hx : isPrintable x = true ∧ x ≠ ' ') :
    plainSpaces c = (List.replicate (n + 1) ' ', false, c.after (List.replicate (n + 1) ' ') (x :: rest)) := by
  have hspan := Cursor.span_of_inline (p := (· = ' ')) hrest (inline_blanks _) (by simp) (by simpa using hx.2)
  have hpeek : (c.after (List.replicate (n + 1) ' ') (x :: rest)).peek = x := Cursor.peek_eq rfl
  unfold plainSpaces
  simp only [hspan, hpeek, isBreak_of_isPrintable hx.1, Bool.false_eq_true, if_false]

/-- A plain word is read up to the gap after it. -/
theorem plainWord_append {w : List Char} (hinline : ∀ x ∈ w, isPrintable x = true ∧ x ≠ ' ') (hcolon : w.getLast? ≠ some ':')
    (hgap : isGapOrEnd (rest.headD '\x00') = true) : plainWord false (w ++ rest) = w := by
  induction w with
  | nil =>
    cases rest with
    | nil => rfl
    | cons x more =>
      rw [List.headD_cons] at hgap
      simp [plainWord, hgap]
  | cons x w ih =>
    rw [List.forall_mem_cons] at hinline
    have hx : isGapOrEnd x = false := by
      rw [isGapOrEnd_of_isPrintable hinline.1.1]
      simpa using hinline.1.2
    have hfollowing : x = ':' → isGapOrEnd ((w ++ rest).headD '\x00') = false := by
      rintro rfl
      cases w with
      | nil => exact absurd rfl hcolon
      | cons y w =>
        have hy := hinline.2 y List.mem_cons_self
        rw [List.cons_append, List.headD_cons, isGapOrEnd_of_isPrintable hy.1]
        simpa using hy.2
    have hlast : w.getLast? ≠ some ':' := by
      intro hlast
      obtain ⟨earlier, rfl⟩ := List.getLast?_eq_some_iff.1 hlast
      exact hcolon (by simp [List.getLast?_cons])
    rw [List.cons_append, plainWord, ih hinline.2 hlast, if_neg]
    simp only [hx, Bool.false_or, Bool.false_and, Bool.or_false, Bool.and_eq_true, decide_eq_true_eq]
    rintro ⟨hcolon, hend⟩
    rw [hfollowing hcolon] at hend
    cases hend

/-- From its first word on, a text is read up to the beginning of the line after it. -/
def ReadsPlain (least : Int) (tail : List Char) (next : Nat) (rest text written : List Char) : Prop :=
  ∀ (fuel : Nat) (before : List Char) (endsLine : Bool) (c : Cursor), written.length < fuel → c.rest = written ++ '\n' :: tail →
    least ≤ c.column → ∃ e : Cursor, e.rest = rest ∧ e.column = next ∧
      plainWords false least fuel before endsLine c = ⟨before ++ text, true, e⟩

variable {least : Int} {indent : Nat} {text written w s t : List Char}

/-- A word is read, and then the space after it. -/
theorem plainWords_word (hword : IsWord w) (hplain : IsPlainWord w) (hgap : isGapOrEnd (rest.headD '\x00') = true)
    (hrest : c.rest = w ++ rest) (least : Int) (fuel : Nat) (before : List Char) (endsLine : Bool) :
    plainWords false least (fuel + 1) before endsLine c =
      let (spaces, endsLine, e) := plainSpaces (c.after w rest)
      if spaces.isEmpty || e.peek = '#' || (e.column : Int) < least then ⟨before ++ w, endsLine, e⟩
      else
        let more := plainWords false least fuel spaces endsLine e
        { more with text := before ++ w ++ more.text } := by
  have hinline : ∀ x ∈ w, isPrintable x = true ∧ x ≠ ' ' :=
    fun x hx => ⟨hplain.inline x hx, (Writer.separator?_eq_none_iff.1 (hword.separator x hx)).1⟩
  have hpeek : c.peek ≠ '#' := by
    obtain ⟨x, more, rfl⟩ := List.exists_cons_of_ne_nil hword.ne_nil
    rw [Cursor.peek_eq (x := x) hrest]
    simpa using hplain.notSharp
  have hread : plainWord false c.rest = w := by rw [hrest, plainWord_append hinline hplain.notColon hgap]
  have hempty : w.isEmpty = false := by simpa using hword.ne_nil
  rw [plainWords]
  simp only [if_neg hpeek, hread, hempty, Cursor.skip_of_inline hrest hplain.inline, Bool.false_eq_true, if_false, Bool.not_false,
    Bool.true_and]

theorem readsPlain_last (hline : Line tail next rest) (hnext : (next : Int) < least) (hword : IsWord w) (hplain : IsPlainWord w) :
    ReadsPlain least tail next rest w w := by
  intro fuel before endsLine c hfuel hrest hcolumn
  obtain ⟨fuel, rfl⟩ := Nat.exists_eq_add_one.2 (Nat.zero_lt_of_lt hfuel)
  refine ⟨((c.after w ('\n' :: tail)).nextLine tail).after (blanks next) rest, rfl, by simp [Cursor.after, Cursor.nextLine, blanks], ?_⟩
  rw [plainWords_word hword hplain (by rfl) hrest, plainSpaces_of_break rfl hline]
  simp [Cursor.after, Cursor.nextLine, blanks, hnext]

/-- After a gap the text goes on at a column where it may. -/
theorem plainSpaces_of_gap (hindent : least ≤ indent) (hpos : 0 < indent) (hgap : WrittenGap indent s t) (hbreak : '\n' ∉ s)
    {x : Char} (hx : isPrintable x = true ∧ x ≠ ' ') (hrest : c.rest = t ++ x :: rest) (hcolumn : least ≤ c.column) :
    ∃ endsLine e, plainSpaces c = (s, endsLine, e) ∧ e.rest = x :: rest ∧ least ≤ e.column := by
  cases hgap with
  | spaces n =>
    refine ⟨false, _, plainSpaces_of_blanks hrest hx, rfl, ?_⟩
    simp only [Cursor.after]
    omega
  | turn =>
    have hline : Line (blanks indent ++ x :: rest) indent (x :: rest) :=
      ⟨rfl, by simpa using hx, fun hzero => absurd hzero (Nat.pos_iff_ne_zero.1 hpos)⟩
    refine ⟨true, _, plainSpaces_of_break hrest hline, rfl, ?_⟩
    simpa [Cursor.after, Cursor.nextLine, blanks] using hindent
  | breaks n => simp at hbreak

theorem readsPlain_append (hindent : least ≤ indent) (hpos : 0 < indent) (hword : IsWord w) (hplain : IsPlainWord w)
    (hgap : WrittenGap indent s t) (hbreak : '\n' ∉ s) {x : Char} {more : List Char} (hx : isPrintable x = true ∧ x ≠ ' ')
    (hsharp : x ≠ '#') (hmore : ReadsPlain least tail next rest text (x :: more)) :
    ReadsPlain least tail next rest (w ++ (s ++ text)) (w ++ (t ++ x :: more)) := by
  intro fuel before endsLine c hfuel hrest hcolumn
  obtain ⟨fuel, rfl⟩ := Nat.exists_eq_add_one.2 (Nat.zero_lt_of_lt hfuel)
  have hlength : (x :: more).length < fuel := by
    have := List.length_pos_iff.2 hword.ne_nil
    simp only [List.length_append] at hfuel
    omega
  have hrest : c.rest = w ++ (t ++ x :: (more ++ '\n' :: tail)) := by simpa using hrest
  have hafter : least ≤ (c.after w (t ++ x :: (more ++ '\n' :: tail))).column := by
    simp only [Cursor.after]
    omega
  obtain ⟨endsLine', e, hspaces, herest, hecolumn⟩ := plainSpaces_of_gap hindent hpos hgap hbreak hx rfl hafter
  obtain ⟨last, hlrest, hlcolumn, hread⟩ := hmore fuel s endsLine' e hlength herest hecolumn
  have hne : s.isEmpty = false ∧ isGapOrEnd ((t ++ x :: (more ++ '\n' :: tail)).headD '\x00') = true := by
    cases hgap <;> exact ⟨rfl, rfl⟩
  have hpeek : e.peek ≠ '#' := by rwa [Cursor.peek_eq herest]
  refine ⟨last, hlrest, hlcolumn, ?_⟩
  rw [plainWords_word hword hplain hne.2 hrest, hspaces]
  simp only [hne.1, hpeek, not_lt.2 hecolumn, decide_false, Bool.or_false, Bool.false_eq_true, if_false, hread,
    List.append_assoc]

theorem exists_cons_of_laid (hlaid : Laid IsPlainWord ([·]) indent false text written) (hne : text ≠ []) :
    ∃ x more, written = x :: more ∧ (isPrintable x = true ∧ x ≠ ' ') ∧ x ≠ '#' := by
  cases hlaid with
  | done => exact absurd rfl hne
  | @word w text written hword hgood hrest =>
    obtain ⟨x, more, rfl⟩ := List.exists_cons_of_ne_nil hword.ne_nil
    have hspace := (Writer.separator?_eq_none_iff.1 (hword.separator x List.mem_cons_self)).1
    exact ⟨x, _, rfl, ⟨hgood.inline x List.mem_cons_self, hspace⟩, by simpa using hgood.notSharp⟩

/-- A plain text is read from what is written for it. -/
theorem readsPlain_of_laid (hindent : least ≤ indent) (hpos : 0 < indent) (hline : Line tail next rest)
    (hnext : (next : Int) < least) (hlaid : Laid IsPlainWord ([·]) indent false text written)
    (hne : text ≠ []) (hspace : text.getLast? ≠ some ' ') (hbreak : '\n' ∉ text) :
    ReadsPlain least tail next rest text written := by
  induction hlength : text.length using Nat.strong_induction_on generalizing text written with
  | h length ih =>
    cases hlaid with
    | done => exact absurd rfl hne
    | @word w text' written' hword hgood hrest =>
      rw [List.flatMap_singleton']
      cases hrest with
      | done => simpa using readsPlain_last hline hnext hword hgood
      | @gap s t text written hgap hrest =>
        simp only [List.mem_append, not_or] at hbreak
        have hne : text ≠ [] := by
          rintro rfl
          cases hgap with
          | spaces n => simp [List.getLast?_replicate] at hspace
          | turn => simp at hspace
          | breaks n => simp at hbreak
        have hlast : text.getLast? ≠ some ' ' := by
          rwa [← List.append_assoc, List.getLast?_append_of_ne_nil _ hne] at hspace
        obtain ⟨x, more, rfl, hx, hsharp⟩ := exists_cons_of_laid hrest hne
        have hshorter : text.length < length := by
          have := List.length_pos_iff.2 hword.ne_nil
          simp only [List.length_append] at hlength
          omega
        exact readsPlain_append hindent hpos hword hgood hgap hbreak.2.1 hx hsharp
          (ih _ hshorter hrest hne hlast hbreak.2.2 rfl)

theorem laid_of_isPlain {text : String} (hplain : IsPlain text) (indent column : Nat) :
    Laid IsPlainWord ([·]) indent false text.toList (Writer.writeRuns ([·]) indent column true (runs text.toList)) := by
  have hne : text.toList ≠ [] := by simpa using hplain.ne_empty
  have hpair := hasPair_of_isPlain hplain
  obtain ⟨afterWord, hlaid⟩ : ∃ afterWord, Laid IsPlainWord ([·]) indent afterWord text.toList
      (Writer.writeRuns ([·]) indent column true (runs text.toList)) :=
    Writer.exists_laid (fun run hrun hword => isPlainWord_of_mem_runs hplain hrun hword) (hpair _ _ (.inr rfl)) (hpair _ _ (.inl rfl))
  have hbreak : text.toList.head? ≠ some '\n' := fun hhead => hplain.oneLine (List.mem_of_mem_head? hhead)
  obtain rfl := hlaid.eq_false hne ⟨hplain.head, hbreak⟩
  exact hlaid

theorem readsPlain_writeRuns {text : String} (hplain : IsPlain text) (hindent : least ≤ indent) (hpos : 0 < indent)
    (hline : Line tail next rest) (hnext : (next : Int) < least) (column : Nat) :
    ReadsPlain least tail next rest text.toList (Writer.writeRuns ([·]) indent column true (runs text.toList)) :=
  readsPlain_of_laid hindent hpos hline hnext (laid_of_isPlain hplain indent column) (by simpa using hplain.ne_empty) hplain.last
    hplain.oneLine

/-- A plain text is read from its first character on, up to the beginning of the next line. -/
theorem plain_of_readsPlain (hread : ReadsPlain least tail next rest text written) (hrest : c.rest = written ++ '\n' :: tail)
    (hcolumn : least ≤ c.column) :
    ∃ e : Cursor, e.rest = rest ∧ e.column = next ∧ plain false least c = ⟨text, true, e⟩ := by
  have hfuel : written.length < c.rest.length + 1 := by
    rw [hrest, List.length_append]
    omega
  exact hread (c.rest.length + 1) [] false c hfuel hrest hcolumn

/-! ### First characters -/

/-- A text whose first character begins a plain token. -/
structure BeginsPlain (x : Char) (more : List Char) : Prop where
  printable : isPrintable x = true
  notSpace : x ≠ ' '
  notIndicator : Writer.isIndicator x = false
  joined : x = '-' ∨ x = '?' ∨ x = ':' → isGapOrEnd (more.headD '\x00') = false

variable {x : Char} {more : List Char}

theorem BeginsPlain.append (hbegins : BeginsPlain x more) (rest : List Char) : BeginsPlain x (more ++ rest) := by
  refine ⟨hbegins.printable, hbegins.notSpace, hbegins.notIndicator, fun hx => ?_⟩
  have hjoined := hbegins.joined hx
  cases more with
  | nil => cases hjoined
  | cons y more => exact hjoined

theorem beginsPlain_of_isPlainChar (hx : isPlainChar x = true) (more : List Char) : BeginsPlain x more := by
  refine ⟨isPrintable_of_isPlainChar hx, ne_of_isPlainChar hx (by decide), ?_, ?_⟩
  · have hmarks : ("#,[]\x7b\x7d&*!|>'\"%@`".toList.all fun y => !isPlainChar y) = true := by decide
    by_contra hindicator
    have hmem := List.contains_iff_mem.1 (Bool.eq_true_of_not_eq_false hindicator)
    have hno := List.all_eq_true.1 hmarks x hmem
    rw [hx] at hno
    cases hno
  · rintro (rfl | rfl | rfl) <;> cases hx

/-- A word of plain characters is read to its end, wherever it stands. -/
theorem isPlainWord_of_isPlainChar (hne : w ≠ []) (hw : ∀ x ∈ w, isPlainChar x = true) :
    IsWord w ∧ IsPlainWord w ∧ ∃ x more, w = x :: more ∧ BeginsPlain x more := by
  refine ⟨isWord_of_inline hne fun x hx => ?_, isPlainWord_of_notMem (fun x hx => ?_) ?_ ?_, ?_⟩
  · exact ⟨isPrintable_of_isPlainChar (hw x hx), ne_of_isPlainChar (hw x hx) (by decide)⟩
  · exact isPrintable_of_isPlainChar (hw x hx)
  · exact fun hmem => ne_of_isPlainChar (hw _ hmem) (by decide) rfl
  · exact fun hmem => ne_of_isPlainChar (hw _ hmem) (by decide) rfl
  · obtain ⟨x, more, rfl⟩ := List.exists_cons_of_ne_nil hne
    exact ⟨x, more, rfl, beginsPlain_of_isPlainChar (hw x List.mem_cons_self) more⟩

theorem beginsPlain_of_laid {cs written : List Char} (hlaid : Laid IsPlainWord ([·]) indent false cs written) (hne : cs ≠ [])
    (hunmarked : startsMarked cs = false) : ∃ x more, written = x :: more ∧ BeginsPlain x more := by
  cases hlaid with
  | done => exact absurd rfl hne
  | @word w cs written hword hgood hlaid =>
    obtain ⟨x, w, rfl⟩ := List.exists_cons_of_ne_nil hword.ne_nil
    have hspace := (Writer.separator?_eq_none_iff.1 (hword.separator x List.mem_cons_self)).1
    simp only [startsMarked, List.cons_append, Bool.or_eq_false_iff, Bool.and_eq_false_iff, decide_eq_false_iff_not] at hunmarked
    obtain ⟨-, hindicator, hjoined⟩ := hunmarked
    refine ⟨x, _, rfl, hgood.inline x List.mem_cons_self, hspace, hindicator, fun hx => ?_⟩
    have hgap : isGap (w ++ cs).head? = false := by
      rcases hjoined with hno | hgap
      · exact absurd hx (by tauto)
      · exact hgap
    -- the mark stands in a word, since a gap or the end does not come next
    cases w with
    | nil =>
      cases hlaid with
      | done => cases hgap
      | gap hwritten => cases hwritten <;> cases hgap
    | cons y w => exact hgap

/-- What is written for a plain text begins like one. -/
theorem beginsPlain_writeRuns {text : String} (hplain : IsPlain text) (indent column : Nat) :
    ∃ x more, Writer.writeRuns ([·]) indent column true (runs text.toList) = x :: more ∧ BeginsPlain x more :=
  beginsPlain_of_laid (laid_of_isPlain hplain indent column) (by simpa using hplain.ne_empty) hplain.unmarked

/-! ### Names -/

/-- A name ends before the colon after it. -/
theorem plainWord_name (hplain : ∀ x ∈ w, isPlainChar x = true) (hgap : isGapOrEnd (rest.headD '\x00') = true) :
    plainWord false (w ++ ':' :: rest) = w := by
  induction w with
  | nil =>
    rw [List.nil_append, plainWord, hgap]
    rfl
  | cons x w ih =>
    rw [List.forall_mem_cons] at hplain
    have hx : isGapOrEnd x = false ∧ x ≠ ':' := by
      rw [isGapOrEnd_of_isPrintable (isPrintable_of_isPlainChar hplain.1)]
      exact ⟨decide_eq_false (ne_of_isPlainChar hplain.1 (by decide)), ne_of_isPlainChar hplain.1 (by decide)⟩
    rw [List.cons_append, plainWord, ih hplain.2, if_neg]
    simp [hx.1, hx.2]

theorem plain_name {name : String} (hname : IsName name) (hrest : c.rest = name.toList ++ ':' :: rest)
    (hgap : isGapOrEnd (rest.headD '\x00') = true) (least : Int) :
    plain false least c = ⟨name.toList, false, c.after name.toList (':' :: rest)⟩ := by
  have hplain : ∀ x ∈ name.toList, isPlainChar x = true := List.all_eq_true.1 hname.plain
  obtain ⟨x, more, hcons, hx⟩ := Writer.exists_cons_of_isName hname
  have hpeek : c.peek ≠ '#' := by
    rw [hcons] at hrest
    rw [Cursor.peek_eq hrest]
    exact ne_of_isPlainChar hx (by decide)
  have hempty : name.toList.isEmpty = false := by simp [hcons]
  have hspaces : plainSpaces (c.after name.toList (':' :: rest)) = ([], false, c.after name.toList (':' :: rest)) := by
    have hcolon : (c.after name.toList (':' :: rest)).rest = [] ++ ':' :: rest := rfl
    unfold plainSpaces
    rw [Cursor.span_of_inline hcolon inline_nil (by simp) (by simp)]
    rfl
  rw [plain, plainWords, if_neg hpeek, hrest, plainWord_name hplain hgap, hempty]
  simp [Cursor.skip_of_inline hrest (Writer.inline_of_isName hname), hspaces]

end Scalar

end TagTypes.Yaml
