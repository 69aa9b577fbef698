import Mathlib.Tactic
import TagTypes.Proofs.Yaml.Escape
import TagTypes.Proofs.Yaml.Runs

/-!
# Quoted texts

A text in quotes is written in pieces: characters as they are, a single quote twice, escapes, and ends of lines that count for nothing; between its words stand gaps. Each piece is read back, whatever follows it.
-/

namespace TagTypes.Yaml

open Writer (Inline inline_nil inline_blanks Laid WrittenGap isPrintable blanks doubleQuote writeEscaped)

namespace Scalar

variable {c : Cursor} {indent n : Nat} {quote x : Char} {s t text written rest : List Char}

/-! ### Gaps -/

theorem quotedBreaks_of_breaks (hpos : 0 < indent) (hx : isPrintable x = true ∧ x ≠ ' ')
    (hrest : c.rest = List.replicate n '\n' ++ blanks indent ++ x :: rest) :
    ∃ e : Cursor, e.rest = x :: rest ∧ ∀ fuel, n < fuel → quotedBreaks fuel c = .ok (List.replicate n '\n', e) := by
  obtain ⟨indent, rfl⟩ := Nat.exists_eq_add_one.2 hpos
  induction n generalizing c with
  | zero =>
    have hline : c.isDocumentLine = false := by
      refine Cursor.isDocumentLine_eq_false fun y hy => ?_
      rw [hrest] at hy
      cases hy
      decide
    refine ⟨c.after (blanks (indent + 1)) (x :: rest), rfl, fun fuel hfuel => ?_⟩
    obtain ⟨fuel, rfl⟩ := Nat.exists_eq_add_one.2 hfuel
    have hskip : c.skipWhile (fun x => x = ' ' || x = '\t') = c.after (blanks (indent + 1)) (x :: rest) := by
      refine Cursor.skipWhile_of_inline hrest (inline_blanks _) (fun y hy => ?_) ?_
      · simp [List.eq_of_mem_replicate hy]
      · simp [hx.2, ne_of_isPrintable hx.1 (y := '\t') (by decide)]
    have hpeek : (c.after (blanks (indent + 1)) (x :: rest)).peek = x := rfl
    rw [quotedBreaks, hline, if_neg Bool.false_ne_true]
    simp only [hskip, hpeek, isBreak_of_isPrintable hx.1, Bool.false_eq_true, if_false, List.replicate_zero]
  | succ n ih =>
    have hbreak : c.rest = '\n' :: (List.replicate n '\n' ++ blanks (indent + 1) ++ x :: rest) := by
      rw [hrest, List.replicate_succ]
      rfl
    obtain ⟨e, he, hread⟩ := ih (c := c.nextLine (List.replicate n '\n' ++ blanks (indent + 1) ++ x :: rest)) rfl
    refine ⟨e, he, fun fuel hfuel => ?_⟩
    obtain ⟨fuel, rfl⟩ := Nat.exists_eq_add_one.2 (Nat.zero_lt_of_lt hfuel)
    have hline : c.isDocumentLine = false := by
      refine Cursor.isDocumentLine_eq_false fun y hy => ?_
      rw [hbreak] at hy
      cases hy
      decide
    have hskip : c.skipWhile (fun x => x = ' ' || x = '\t') = c := by
      have hempty : c.rest = [] ++ '\n' :: (List.replicate n '\n' ++ blanks (indent + 1) ++ x :: rest) := hbreak
      rw [Cursor.skipWhile_of_inline hempty inline_nil (by simp) (by simp), Cursor.after_nil hbreak]
    have hpeek : isBreak c.peek = true := by
      rw [Cursor.peek_eq hbreak]
      decide
    rw [quotedBreaks, hline, if_neg Bool.false_ne_true]
    simp only [hskip, hpeek, if_true, Cursor.lineBreak_eq hbreak, hread fuel (by omega)]
    rfl

/-- A gap is read that is followed by the first character of a word, or by the closing quote. -/
theorem quotedSpaces_of_gap (hpos : 0 < indent) (hgap : WrittenGap indent s t) (hx : isPrintable x = true ∧ x ≠ ' ')
    (hrest : c.rest = t ++ x :: rest) : ∃ e : Cursor, e.rest = x :: rest ∧ quotedSpaces c = .ok (s, e) := by
  -- a gap with line ends: the first of them is folded with the others
  have hlines : ∀ n, c.rest = '\n' :: (List.replicate n '\n' ++ blanks indent ++ x :: rest) →
      ∃ e : Cursor, e.rest = x :: rest ∧ quotedSpaces c = .ok (folded ['\n'] (List.replicate n '\n'), e) := by
    intro n hbreak
    obtain ⟨e, he, hread⟩ := quotedBreaks_of_breaks (c := c.nextLine (List.replicate n '\n' ++ blanks indent ++ x :: rest)) hpos hx rfl
    refine ⟨e, he, ?_⟩
    have hspan : c.span (fun x => x = ' ' || x = '\t') = ([], c) := by
      have hempty : c.rest = [] ++ '\n' :: (List.replicate n '\n' ++ blanks indent ++ x :: rest) := hbreak
      rw [Cursor.span_of_inline hempty inline_nil (by simp) (by simp), Cursor.after_nil hbreak]
    have hpeek : c.isAtEnd = false ∧ isBreak c.peek = true := by
      rw [Cursor.isAtEnd, Cursor.peek_eq hbreak]
      decide
    have hfuel : n < (c.nextLine (List.replicate n '\n' ++ blanks indent ++ x :: rest)).rest.length + 1 := by
      simp only [Cursor.nextLine, List.length_append, List.length_replicate]
      omega
    unfold quotedSpaces
    simp only [hspan, hpeek, Bool.false_eq_true, if_false, if_true, Cursor.lineBreak_eq hbreak, hread _ hfuel]
    rfl
  cases hgap with
  | spaces n =>
    have hspan : c.span (fun x => x = ' ' || x = '\t') =
        (List.replicate (n + 1) ' ', c.after (List.replicate (n + 1) ' ') (x :: rest)) := by
      refine Cursor.span_of_inline hrest (inline_blanks _) (fun y hy => ?_) ?_
      · simp [List.eq_of_mem_replicate hy]
      · simp [hx.2, ne_of_isPrintable hx.1 (y := '\t') (by decide)]
    have hpeek : (c.after (List.replicate (n + 1) ' ') (x :: rest)).peek = x := rfl
    have hend : (c.after (List.replicate (n + 1) ' ') (x :: rest)).isAtEnd = false := by
      rw [Cursor.isAtEnd, hpeek]
      exact decide_eq_false (ne_of_isPrintable hx.1 (by decide))
    refine ⟨c.after (List.replicate (n + 1) ' ') (x :: rest), rfl, ?_⟩
    unfold quotedSpaces
    simp only [hspan, hpeek, hend, isBreak_of_isPrintable hx.1, Bool.false_eq_true, if_false]
  | turn => exact hlines 0 hrest
  | breaks n =>
    obtain ⟨e, he, hread⟩ := hlines (n + 1) (by rw [hrest, List.replicate_succ]; rfl)
    exact ⟨e, he, hread⟩

/-! ### Pieces of words -/

/-- What is written for a piece of a text in quotes, and what is written after it. -/
inductive Piece (indent : Nat) : Char → List Char → List Char → List Char → Prop where
  | raw {quote x : Char} {after : List Char} (hx : isPrintable x = true ∧ x ≠ ' ') (hquote : x ≠ quote)
      (hslash : quote = '"' → x ≠ '\\') : Piece indent quote [x] [x] after
  | twice {after : List Char} : Piece indent '\'' ['\''] ['\'', '\''] after
  | escape {x : Char} {body after : List Char} (hbody : Writer.escape x = '\\' :: body) : Piece indent '"' [x] ('\\' :: body) after
  | space {after : List Char} : Piece indent '"' [' '] ['\\', ' '] after
  | turn {x : Char} {after : List Char} (hx : isPrintable x = true ∧ x ≠ ' ') :
      Piece indent '"' [] ('\\' :: '\n' :: blanks indent) (x :: after)

theorem Piece.ne_nil {after : List Char} (hpiece : Piece indent quote s t after) : t ≠ [] := by
  cases hpiece <;> exact List.cons_ne_nil _ _

theorem quotedWord_cons {double : Bool} {fuel : Nat} (hx : isPrintable x = true) (hword : isWordChar x = true)
    (hrest : c.rest = x :: rest) :
    quotedWord double (fuel + 1) c = (quotedWord double (fuel + 1) (c.after [x] rest)).map fun (word, e) => (x :: word, e) := by
  have hspan : c.span isWordChar = (x :: ((c.after [x] rest).span isWordChar).1, ((c.after [x] rest).span isWordChar).2) := by
    have hrun : (c.rest.takeWhile fun x => x ≠ '\x00' && isWordChar x) =
        x :: ((c.after [x] rest).rest.takeWhile fun x => x ≠ '\x00' && isWordChar x) := by
      simp [hrest, hword, ne_of_isPrintable hx (y := '\x00') (by decide), Cursor.after]
    simp only [Cursor.span, hrun, List.length_cons, Cursor.skip, Cursor.next_of_isPrintable hrest hx]
  rw [quotedWord, quotedWord, hspan]
  dsimp only
  cases quotedMark double ((c.after [x] rest).span isWordChar).2 with
  | error fault => rfl
  | ok mark =>
    cases mark with
    | none => rfl
    | some found =>
      obtain ⟨piece, e⟩ := found
      cases hmore : quotedWord double fuel e with
      | error fault => simp [hmore, Bind.bind, Except.bind, Except.map]
      | ok more => simp [hmore, Bind.bind, Except.bind, Except.map, Pure.pure, Except.pure]

theorem span_isWordChar_eq (hword : isWordChar x = false) (hrest : c.rest = x :: rest) : c.span isWordChar = ([], c) := by
  simp [Cursor.span, hrest, hword, Cursor.skip]

/-- A word goes on after a mark. -/
theorem quotedWord_mark {double : Bool} {e : Cursor} (hword : isWordChar x = false) (hrest : c.rest = x :: rest)
    (hmark : quotedMark double c = .ok (some (s, e))) (fuel : Nat) :
    quotedWord double (fuel + 1) c = (quotedWord double fuel e).map fun (word, e) => (s ++ word, e) := by
  rw [quotedWord, span_isWordChar_eq hword hrest]
  simp only [hmark, Bind.bind, Except.bind]
  cases quotedWord double fuel e <;> rfl

/-- A word ends before a character that is no mark. -/
theorem quotedWord_end {double : Bool} (hword : isWordChar x = false) (hrest : c.rest = x :: rest)
    (hmark : quotedMark double c = .ok none) (fuel : Nat) : quotedWord double (fuel + 1) c = .ok ([], c) := by
  rw [quotedWord, span_isWordChar_eq hword hrest]
  simp only [hmark, Bind.bind, Except.bind]
  rfl

/-- From the first cursor on, the word is read that is read from the second one on, with a piece in front. -/
def Continues (double : Bool) (piece : List Char) (c e : Cursor) : Prop :=
  ∀ (n : Nat) (word : List Char) (last : Cursor), (∀ fuel, n < fuel → quotedWord double fuel e = .ok (word, last)) →
    ∀ fuel, n + 1 < fuel → quotedWord double fuel c = .ok (piece ++ word, last)

theorem continues_of_mark {double : Bool} {e : Cursor} (hword : isWordChar x = false) (hrest : c.rest = x :: rest)
    (hmark : quotedMark double c = .ok (some (s, e))) : Continues double s c e := by
  intro n word last hread fuel hfuel
  obtain ⟨fuel, rfl⟩ := Nat.exists_eq_add_one.2 (Nat.zero_lt_of_lt hfuel)
  rw [quotedWord_mark hword hrest hmark, hread fuel (by omega)]
  rfl

theorem continues_of_isWordChar {double : Bool} (hx : isPrintable x = true) (hword : isWordChar x = true)
    (hrest : c.rest = x :: rest) : Continues double [x] c (c.after [x] rest) := by
  intro n word last hread fuel hfuel
  obtain ⟨fuel, rfl⟩ := Nat.exists_eq_add_one.2 (Nat.zero_lt_of_lt hfuel)
  rw [quotedWord_cons hx hword hrest, hread (fuel + 1) (by omega)]
  rfl

theorem continues_of_escape {e : Cursor} (hrest : c.rest = '\\' :: rest) (hescape : Scalar.escape c.next = .ok (s, e)) :
    Continues true s c e := by
  refine continues_of_mark (x := '\\') (by decide) hrest ?_
  simp [quotedMark, Cursor.peek_eq hrest, hescape, Except.map]

/-- A line end after a backslash counts for nothing, and so do the blanks after it. -/
theorem escape_turn (hpos : 0 < indent) (hx : isPrintable x = true ∧ x ≠ ' ') (hrest : c.rest = '\n' :: blanks indent ++ x :: rest) :
    ∃ e : Cursor, e.rest = x :: rest ∧ Scalar.escape c = .ok ([], e) := by
  obtain ⟨e, he, hread⟩ := quotedBreaks_of_breaks (c := c.nextLine (blanks indent ++ x :: rest)) hpos hx (n := 0) rfl
  have hbreak : c.rest = '\n' :: (blanks indent ++ x :: rest) := hrest
  refine ⟨e, he, ?_⟩
  unfold Scalar.escape
  simp only [Cursor.peek_eq hbreak, shortEscape?, codeLength?, Cursor.lineBreak_eq hbreak, hread _ (Nat.succ_pos _)]
  rfl

/-- Every piece is read. -/
theorem continues_of_piece {after : List Char} (hpos : 0 < indent) (hquote : quote = '"' ∨ quote = '\'')
    (hpiece : Piece indent quote s t after) (hrest : c.rest = t ++ (after ++ rest)) :
    ∃ e : Cursor, e.rest = after ++ rest ∧ Continues (quote = '"') s c e := by
  cases hpiece with
  | @raw _ x _ hx hne hslash =>
    refine ⟨c.after [x] (after ++ rest), rfl, ?_⟩
    cases hword : isWordChar x with
    | true => exact continues_of_isWordChar hx.1 hword hrest
    | false =>
      have hother : x = '\'' ∨ x = '"' ∨ x = '\\' := by
        simpa [isWordChar, isGapOrEnd_of_isPrintable hx.1, hx.2, or_iff_not_imp_left] using hword
      refine continues_of_mark hword hrest ?_
      rw [quotedMark, Cursor.peek_eq hrest, Cursor.next_of_isPrintable hrest hx.1]
      rcases hquote with rfl | rfl
      · obtain rfl : x = '\'' := by simpa [hne, hslash rfl] using hother
        rfl
      · rcases hother with rfl | rfl | rfl
        · exact absurd rfl hne
        · rfl
        · rfl
  | twice =>
    refine ⟨c.after ['\'', '\''] (after ++ rest), rfl, continues_of_mark (x := '\'') (by decide) hrest ?_⟩
    have hskip : c.skip 2 = c.after ['\'', '\''] (after ++ rest) :=
      Cursor.skip_of_inline hrest (by simp [Inline, isPrintable])
    have hpeek : c.peek = '\'' ∧ c.peekAt 1 = '\'' := by simp [Cursor.peek, Cursor.peekAt, hrest]
    rw [quotedMark, hpeek.1, hpeek.2, hskip]
    rfl
  | escape hbody =>
    have hnext := Cursor.next_of_isPrintable hrest (by decide)
    exact ⟨_, rfl, continues_of_escape hrest (escape_escape hbody (by rw [hnext]; rfl))⟩
  | space =>
    have hnext := Cursor.next_of_isPrintable hrest (by decide)
    have hspace : c.next.rest = ' ' :: (after ++ rest) := by rw [hnext]; rfl
    exact ⟨_, rfl, continues_of_escape hrest (escape_letter (by rfl) (by decide) hspace)⟩
  | @turn x after hx =>
    have hnext := Cursor.next_of_isPrintable hrest (by decide)
    have hbreak : c.next.rest = '\n' :: blanks indent ++ x :: (after ++ rest) := by rw [hnext]; rfl
    obtain ⟨e, he, hescape⟩ := escape_turn hpos hx hbreak
    exact ⟨e, he, continues_of_escape hrest hescape⟩

/-! ### Whole texts -/

/-- What is written in quotes for a text, from a gap or the end on or, if the flag is not set, from inside a word on. -/
inductive Spelled (indent : Nat) (quote : Char) : Bool → List Char → List Char → Prop where
  | done : Spelled indent quote true [] []
  | gap {s t text written : List Char} (hgap : WrittenGap indent s t) (hline : quote = '"' → s = t)
      (hhead : ∀ x ∈ written.head?, isPrintable x = true ∧ x ≠ ' ') (hrest : Spelled indent quote false text written) :
      Spelled indent quote true (s ++ text) (t ++ written)
  | skip {text written : List Char} (hrest : Spelled indent quote true text written) : Spelled indent quote false text written
  | piece {s t text written : List Char} (hpiece : Piece indent quote s t written)
      (hrest : Spelled indent quote false text written) : Spelled indent quote false (s ++ text) (t ++ written)

/-- A text is read up to the closing quote and over it. -/
def ReadsRest (quote : Char) (text written rest : List Char) : Prop :=
  ∀ c : Cursor, c.rest = written ++ quote :: rest →
    ∃ e : Cursor, e.rest = rest ∧ ∀ fuel, written.length < fuel → quotedRest quote fuel c = .ok (text, e)

/-- A text is read that begins with the end of a word. -/
def ReadsOn (quote : Char) (text written rest : List Char) : Prop :=
  ∀ c : Cursor, c.rest = written ++ quote :: rest →
    ∃ (word more left : List Char) (e last : Cursor), text = word ++ more ∧ left.length ≤ written.length ∧
      e.rest = left ++ quote :: rest ∧ last.rest = rest ∧
      (∀ fuel, written.length < fuel → quotedWord (quote = '"') fuel c = .ok (word, e)) ∧
      ∀ fuel, left.length < fuel → quotedRest quote fuel e = .ok (more, last)

variable {isGap : Bool}

theorem isPrintable_quote (hquote : quote = '"' ∨ quote = '\'') : isPrintable quote = true ∧ quote ≠ ' ' := by
  rcases hquote with rfl | rfl <;> decide

theorem readsRest_nil (hquote : quote = '"' ∨ quote = '\'') : ReadsRest quote [] [] rest := by
  intro c hrest
  refine ⟨c.next, by rw [Cursor.next_of_isPrintable hrest (isPrintable_quote hquote).1]; rfl, fun fuel hfuel => ?_⟩
  obtain ⟨fuel, rfl⟩ := Nat.exists_eq_add_one.2 hfuel
  rw [quotedRest, if_pos (Cursor.peek_eq hrest)]

theorem readsRest_gap (hpos : 0 < indent) (hquote : quote = '"' ∨ quote = '\'') (hgap : WrittenGap indent s t)
    (hhead : ∀ x ∈ written.head?, isPrintable x = true ∧ x ≠ ' ') (hread : ReadsOn quote text written rest) :
    ReadsRest quote (s ++ text) (t ++ written) rest := by
  intro c hrest
  obtain ⟨x, more, hmore, hx⟩ : ∃ x more, written ++ quote :: rest = x :: more ∧ isPrintable x = true ∧ x ≠ ' ' := by
    cases written with
    | nil => exact ⟨quote, rest, rfl, isPrintable_quote hquote⟩
    | cons x more => exact ⟨x, more ++ quote :: rest, rfl, hhead x rfl⟩
  have hsplit : c.rest = t ++ x :: more := by rw [hrest, List.append_assoc, hmore]
  obtain ⟨between, hbetween, hspaces⟩ := quotedSpaces_of_gap hpos hgap hx hsplit
  obtain ⟨word, later, left, e, last, rfl, hleft, he, hlast, hword, hlater⟩ := hread between (hbetween.trans hmore.symm)
  refine ⟨last, hlast, fun fuel hfuel => ?_⟩
  obtain ⟨fuel, rfl⟩ := Nat.exists_eq_add_one.2 (Nat.zero_lt_of_lt hfuel)
  obtain ⟨y, later', rfl, hy⟩ := hgap.exists_cons
  have hpeek : c.peek ≠ quote := by
    rw [Cursor.peek_eq hsplit]
    rcases hy with rfl | rfl <;> rcases hquote with rfl | rfl <;> decide
  have hlong : written.length < between.rest.length + 1 := by
    rw [hbetween, ← hmore, List.length_append]
    omega
  have hshort : left.length < fuel := by
    simp only [List.cons_append, List.length_cons, List.length_append] at hfuel
    omega
  rw [quotedRest, if_neg hpeek]
  simp only [hspaces, hword _ hlong, hlater _ hshort, Bind.bind, Except.bind]
  exact congrArg (fun text => Except.ok (text, last)) (List.append_assoc s word later)

theorem readsOn_skip (hquote : quote = '"' ∨ quote = '\'') (hstop : rest.head? ≠ some '\'')
    (hspelled : Spelled indent quote true text written) (hread : ReadsRest quote text written rest) :
    ReadsOn quote text written rest := by
  intro c hrest
  obtain ⟨last, hlast, hlater⟩ := hread c hrest
  refine ⟨[], text, written, c, last, rfl, le_rfl, hrest, hlast, fun fuel hfuel => ?_, hlater⟩
  obtain ⟨fuel, rfl⟩ := Nat.exists_eq_add_one.2 (Nat.zero_lt_of_lt hfuel)
  cases hspelled with
  | done =>
    have hword : isWordChar quote = false := by rcases hquote with rfl | rfl <;> decide
    refine quotedWord_end hword hrest ?_ fuel
    rw [quotedMark, Cursor.peek_eq hrest]
    rcases hquote with rfl | rfl
    · rfl
    · have hnext : c.peekAt 1 ≠ '\'' := by
        cases rest with
        | nil => simp [Cursor.peekAt, hrest]
        | cons x rest => simpa [Cursor.peekAt, hrest] using hstop
      simp [hnext]
  | gap hgap =>
    obtain ⟨y, more, rfl, hy⟩ := hgap.exists_cons
    have hword : isWordChar y = false := by rcases hy with rfl | rfl <;> decide
    refine quotedWord_end hword hrest ?_ fuel
    rw [quotedMark, Cursor.peek_eq hrest]
    rcases hy with rfl | rfl <;> simp

theorem readsOn_piece (hpos : 0 < indent) (hquote : quote = '"' ∨ quote = '\'') (hpiece : Piece indent quote s t written)
    (hread : ReadsOn quote text written rest) : ReadsOn quote (s ++ text) (t ++ written) rest := by
  intro c hrest
  obtain ⟨between, hbetween, hcontinues⟩ := continues_of_piece hpos hquote hpiece (by rw [hrest, List.append_assoc])
  obtain ⟨word, more, left, e, last, rfl, hleft, he, hlast, hword, hlater⟩ := hread between hbetween
  have hlength := List.length_pos_iff.2 hpiece.ne_nil
  refine ⟨s ++ word, more, left, e, last, (List.append_assoc s word more).symm, ?_, he, hlast, fun fuel hfuel => ?_, hlater⟩
  · rw [List.length_append]
    omega
  · rw [List.length_append] at hfuel
    exact hcontinues _ _ _ hword fuel (by omega)

theorem readsOn_of_spelled (hpos : 0 < indent) (hquote : quote = '"' ∨ quote = '\'') (hstop : rest.head? ≠ some '\'')
    (hspelled : Spelled indent quote isGap text written) :
    if isGap then ReadsRest quote text written rest else ReadsOn quote text written rest := by
  induction hspelled with
  | done => exact readsRest_nil hquote
  | gap hgap _ hhead _ ih => exact readsRest_gap hpos hquote hgap hhead ih
  | skip hrest ih => exact readsOn_skip hquote hstop hrest ih
  | piece hpiece _ ih => exact readsOn_piece hpos hquote hpiece ih

/-- A text in quotes is read from what is written for it. -/
theorem quoted_of_spelled (hpos : 0 < indent) (hquote : quote = '"' ∨ quote = '\'') (hstop : rest.head? ≠ some '\'')
    (hspelled : Spelled indent quote false text written) (hrest : c.rest = quote :: (written ++ quote :: rest)) :
    ∃ e : Cursor, e.rest = rest ∧ quoted c = .ok (String.ofList text, e) := by
  have hnext := Cursor.next_of_isPrintable hrest (isPrintable_quote hquote).1
  obtain ⟨word, more, left, e, last, rfl, -, he, hlast, hword, hlater⟩ :=
    readsOn_of_spelled hpos hquote hstop hspelled (c.after [quote] (written ++ quote :: rest)) rfl
  have hlong : written.length < (c.after [quote] (written ++ quote :: rest)).rest.length + 1 := by
    simp only [Cursor.after, List.length_append]
    omega
  have hshort : left.length < e.rest.length + 1 := by
    rw [he, List.length_append]
    omega
  refine ⟨last, hlast, ?_⟩
  unfold quoted
  simp only [Cursor.peek_eq hrest, hnext, hword _ hlong, hlater _ hshort, Bind.bind, Except.bind]
  rfl

/-! ### Single quotes -/

theorem spelled_word {w : List Char} (hw : ∀ x ∈ w, isPrintable x = true ∧ x ≠ ' ')
    (hrest : Spelled indent '\'' false text written) :
    Spelled indent '\'' false (w ++ text) (w.flatMap doubleQuote ++ written) := by
  induction w with
  | nil => exact hrest
  | cons x w ih =>
    rw [List.forall_mem_cons] at hw
    have hpiece : ∀ {after}, Piece indent '\'' [x] (doubleQuote x) after := by
      intro after
      unfold doubleQuote
      split
      · rename_i hx
        rw [hx]
        exact .twice
      · rename_i hx
        exact .raw hw.1 hx (fun h => absurd h (by decide))
    have hall : Spelled indent '\'' false ([x] ++ (w ++ text)) (doubleQuote x ++ (w.flatMap doubleQuote ++ written)) :=
      .piece hpiece (ih hw.2)
    simpa using hall

/-- A text in single quotes is spelled by its words and gaps. -/
theorem spelled_of_laid (hlaid : Laid Inline doubleQuote indent isGap text written) : Spelled indent '\'' isGap text written := by
  have hprintable : ∀ {w : List Char}, Writer.IsWord w → Inline w → ∀ x ∈ w, isPrintable x = true ∧ x ≠ ' ' :=
    fun hword hinline x hx => ⟨hinline x hx, (Writer.separator?_eq_none_iff.1 (hword.separator x hx)).1⟩
  induction hlaid with
  | done afterWord =>
    cases afterWord with
    | true => exact .done
    | false => exact .skip .done
  | gap hgap hrest ih =>
    refine .gap hgap (fun h => absurd h (by decide)) (fun y hy => ?_) ih
    cases hrest with
    | done => cases hy
    | @word w _ _ hword hinline =>
      obtain ⟨x, more, rfl⟩ := List.exists_cons_of_ne_nil hword.ne_nil
      have hx := hprintable hword hinline x List.mem_cons_self
      have hhead : y = x := by
        rw [List.flatMap_cons, doubleQuote] at hy
        split at hy
        · rename_i hquote
          cases hy
          exact hquote.symm
        · cases hy
          rfl
      rwa [hhead]
  | word hword hinline _ ih => exact spelled_word (hprintable hword hinline) (.skip ih)

/-! ### Double quotes -/

theorem Piece.head {after : List Char} (hpiece : Piece indent '"' s t after) :
    ∃ x more, t = x :: more ∧ isPrintable x = true ∧ x ≠ ' ' := by
  cases hpiece with
  | raw hx => exact ⟨_, _, rfl, hx⟩
  | escape | space | turn => exact ⟨_, _, rfl, by decide⟩

/-- A space may be put in front, whatever the text begins with. -/
theorem spelled_space (hrest : Spelled indent '"' false text written) :
    Spelled indent '"' false (' ' :: text) (' ' :: written) := by
  cases hrest with
  | skip hrest =>
    cases hrest with
    | done => exact .skip (.gap (.spaces 0) (fun _ => rfl) (by simp) (.skip .done))
    | @gap s t text written hgap hline hhead hrest =>
      cases hgap with
      | spaces n => exact .skip (.gap (.spaces (n + 1)) (fun _ => rfl) hhead hrest)
      | turn => exact absurd (hline rfl) (by simp)
      | breaks n =>
        have hlength := congrArg List.length (hline rfl)
        simp only [List.length_append, List.length_replicate] at hlength
        omega
  | @piece s t text written hpiece hrest =>
    refine .skip (.gap (.spaces 0) (fun _ => rfl) (fun x hx => ?_) (.piece hpiece hrest))
    obtain ⟨y, more, rfl, hy⟩ := hpiece.head
    cases hx
    exact hy

theorem exists_body (x : Char) : ∃ body, Writer.escape x = '\\' :: body := ⟨_, rfl⟩

theorem exists_cons_writeEscaped {column : Nat} {isFirst afterEscape : Bool} (hx : x ≠ ' ') (cs : List Char) :
    ∃ y more, writeEscaped indent column isFirst afterEscape (x :: cs) = y :: more ∧ isPrintable y = true ∧ y ≠ ' ' := by
  have hslash : isPrintable '\\' = true ∧ '\\' ≠ ' ' := by decide
  rw [writeEscaped]
  dsimp only
  split_ifs with hplain hturn hturn
  · exact ⟨'\\', _, rfl, hslash⟩
  · have hprintable : isPrintable x = true := by simp_all
    exact ⟨x, _, rfl, hprintable, hx⟩
  · exact ⟨'\\', _, rfl, hslash⟩
  · exact ⟨'\\', _, rfl, hslash⟩

/-- A character that is written as it is. -/
theorem spelled_cons (hx : isPrintable x = true ∧ x ≠ '"' ∧ x ≠ '\\') (hrest : Spelled indent '"' false text written) :
    Spelled indent '"' false (x :: text) (x :: written) := by
  by_cases hspace : x = ' '
  · rw [hspace]
    exact spelled_space hrest
  · exact .piece (.raw ⟨hx.1, hspace⟩ hx.2.1 (fun _ => hx.2.2)) hrest

/-- The end of a line, before a text that is not written with a space in front. -/
theorem spelled_turn {next : Option Char} (hnext : next ≠ some ' ') (hhead : ∃ y more, written = y :: more ∧ isPrintable y = true ∧ y ≠ ' ')
    (hrest : Spelled indent '"' false text written) : Spelled indent '"' false text (Writer.turn indent next ++ written) := by
  obtain ⟨y, more, rfl, hy⟩ := hhead
  have hwrite : Writer.turn indent next = '\\' :: '\n' :: blanks indent := by simp [Writer.turn, hnext]
  rw [hwrite]
  exact .piece (.turn hy) hrest

/-- The end of a line, before a space that stands after a backslash then. -/
theorem spelled_turn_space (hrest : Spelled indent '"' false text ('\\' :: written)) :
    Spelled indent '"' false text (Writer.turn indent (some ' ') ++ written) := by
  have hwrite : Writer.turn indent (some ' ') ++ written = ('\\' :: '\n' :: blanks indent) ++ '\\' :: written := by
    simp [Writer.turn]
  rw [hwrite]
  exact .piece (.turn (by decide)) hrest

theorem spelled_writeEscaped (hindent : indent < Writer.width) (cs : List Char) :
    (∀ column isFirst afterEscape,
      Spelled indent '"' false cs (writeEscaped indent column isFirst afterEscape cs)) ∧
    ∀ afterEscape, cs.head? = some ' ' →
      Spelled indent '"' false cs ('\\' :: writeEscaped indent (indent + 1) false afterEscape cs) := by
  induction cs with
  | nil => exact ⟨fun _ _ _ => .skip .done, fun _ hspace => absurd hspace (by decide)⟩
  | cons x rest ih =>
    obtain ⟨hgoes, hspaced⟩ := ih
    refine ⟨fun column isFirst afterEscape => ?_, fun afterEscape hspace => ?_⟩
    · rw [writeEscaped]
      dsimp only
      split_ifs with hplain hturn hturn
      · have hx : isPrintable x = true ∧ x ≠ '"' ∧ x ≠ '\\' := by simp_all
        by_cases hspace : x = ' '
        · rw [hspace]
          exact spelled_turn_space (.piece .space (hgoes _ _ _))
        · exact spelled_turn (by simpa using hspace) ⟨x, _, rfl, hx.1, hspace⟩ (spelled_cons hx (hgoes _ _ _))
      · have hx : isPrintable x = true ∧ x ≠ '"' ∧ x ≠ '\\' := by simp_all
        exact spelled_cons hx (hgoes _ _ _)
      · obtain ⟨body, hbody⟩ := exists_body x
        rw [hbody, List.append_assoc]
        refine .piece (.escape hbody) ?_
        cases hrest : rest with
        | nil => simp [hrest] at hturn
        | cons y more =>
          subst hrest
          by_cases hspace : y = ' '
          · rw [hspace] at hspaced ⊢
            exact spelled_turn_space (hspaced true rfl)
          · exact spelled_turn (by simpa using hspace) (exists_cons_writeEscaped hspace more) (hgoes _ _ _)
      · obtain ⟨body, hbody⟩ := exists_body x
        rw [hbody]
        exact .piece (.escape hbody) (hgoes _ _ _)
    · obtain rfl : x = ' ' := by simpa using hspace
      -- the line has room for the space, so it does not end before it again
      have hroom : ¬Writer.width < indent + 1 := by omega
      have hwrite : writeEscaped indent (indent + 1) false afterEscape (' ' :: rest) =
          ' ' :: writeEscaped indent (indent + 1 + 1) false false rest := by
        rw [writeEscaped]
        simp [hroom, isPrintable]
      rw [hwrite]
      exact .piece .space (hgoes _ _ _)

/-! ### Written texts -/

/-- A text that is not written plain is spelled between quotes. -/
theorem spelled_writeText {text : String} (hindent : indent < Writer.width) (hstyle : Writer.style text ≠ .plain) (column : Nat) :
    ∃ quote written, (quote = '"' ∨ quote = '\'') ∧ Spelled indent quote false text.toList written ∧
      Writer.writeText indent column text = quote :: (written ++ [quote]) := by
  unfold Writer.writeText
  cases hcase : Writer.style text with
  | plain => exact absurd hcase hstyle
  | single =>
    have hdouble : Writer.style text ≠ .double := by
      rw [hcase]
      decide
    obtain ⟨hcommon, hbefore, hafter⟩ := Writer.of_style_ne_double hdouble
    obtain ⟨afterWord, hlaid⟩ := Writer.exists_laid
      (fun run hrun hword => Writer.inline_of_isWord (fun x hx => hcommon x (Writer.mem_of_mem_runs hrun hx)) hword) hbefore hafter
    have hspelled := spelled_of_laid hlaid
    refine ⟨'\'', _, .inr rfl, ?_, rfl⟩
    cases afterWord with
    | true => exact .skip hspelled
    | false => exact hspelled
  | double => exact ⟨'"', _, .inl rfl, (spelled_writeEscaped hindent text.toList).1 _ _ _, rfl⟩

end Scalar

end TagTypes.Yaml
