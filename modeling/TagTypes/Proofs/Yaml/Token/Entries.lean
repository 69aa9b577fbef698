import Mathlib.Tactic
import TagTypes.Proofs.Yaml.Numeral
import TagTypes.Proofs.Yaml.Quoted
import TagTypes.Proofs.Yaml.Token.Step

/-!
# The tokens of written entries

The token reader takes what is written for entries apart again. An entry of a group ends its line or the lines of its own entries; a group is closed when the next line is indented less.
-/

namespace TagTypes.Yaml

open Tokens (Reader)
open Scalar (BeginsPlain)
open Writer (Inline blanks writeText writeEntry writeEntries)

namespace Entry

mutual

/-- The tokens of an entry after its name. -/
def tokens : Entry → List Token
  | .text s => [.scalar s (Writer.style s = .plain)]
  | .int n => [.scalar (Text.intText n) true]
  | .bool b => [.scalar (if b then "true" else "false") true]
  | .group entries => .mappingStart :: tokensOf entries ++ [.blockEnd]

def tokensOf : List (String × Entry) → List Token
  | [] => []
  | (name, e) :: rest => [.key, .scalar name true, .value] ++ e.tokens ++ tokensOf rest

end

end Entry

namespace Tokens.Reader

variable {r : Reader} {c : Cursor} {columns columns' outer : List Nat} {ts start : List Token} {tail rest : List Char}
  {depth level next column : Nat}

/-- A line begins here, indented by `next` columns, or the text ends. A line begins with a name. -/
structure LineAt (tail : List Char) (next : Nat) (rest : List Char) : Prop where
  split : tail = blanks next ++ rest
  begins : ∀ x ∈ rest.head?, isPlainChar x = true

theorem LineAt.line (h : LineAt tail next rest) : Line tail next rest := by
  refine ⟨h.split, fun x hx => ?_, fun _ x hx => ?_⟩
  · exact ⟨Writer.isPrintable_of_isPlainChar (h.begins x hx), ne_of_isPlainChar (h.begins x hx) (by decide)⟩
  · exact ⟨ne_of_isPlainChar (h.begins x hx) (by decide), ne_of_isPlainChar (h.begins x hx) (by decide)⟩

theorem LineAt.starts (h : LineAt tail next rest) : Begins rest := fun x hx =>
  ⟨Writer.isPrintable_of_isPlainChar (h.begins x hx), ne_of_isPlainChar (h.begins x hx) (by decide),
    ne_of_isPlainChar (h.begins x hx) (by decide)⟩

/-- In at most `n` steps the reader comes to the line after a piece of the text, with the tokens `ts` read. -/
def Comes (n : Nat) (columns : List Nat) (ts : List Token) (next : Nat) (rest : List Char) (r : Reader) : Prop :=
  ∃ m ≤ n, ∃ r' e, Steps m r r' ∧ Arrives columns ts e r' ∧ e.rest = rest ∧ e.column = next

theorem Comes.after {m n : Nat} {r' : Reader} (hsteps : Steps m r r') (hcomes : Comes n columns ts next rest r') :
    Comes (m + n) columns ts next rest r := by
  obtain ⟨k, hk, r'', e, hlater, harrives, he⟩ := hcomes
  exact ⟨m + k, by omega, r'', e, hsteps.trans hlater, harrives, he⟩

theorem Comes.mono {m n : Nat} (hcomes : Comes m columns ts next rest r) (hmn : m ≤ n) : Comes n columns ts next rest r := by
  obtain ⟨k, hk, hlater⟩ := hcomes
  exact ⟨k, hk.trans hmn, hlater⟩

theorem comes_plain {s : String} {written : List Char} (hread : Scalar.ReadsPlain (level + 1) tail next rest s.toList written)
    (hbegins : ∃ x more, written = x :: more ∧ BeginsPlain x more) (hline : LineAt tail next rest)
    (hrest : c.rest = ' ' :: (written ++ '\n' :: tail)) (hcolumn : level ≤ c.column) :
    Comes 1 (level :: outer) (ts ++ [.scalar s true]) next rest (valued (level :: outer) ts c) := by
  obtain ⟨x, more, rfl, hbegins⟩ := hbegins
  obtain ⟨e, herest, hecolumn, hsteps⟩ := steps_plain hread hbegins hrest hcolumn
  exact ⟨1, le_rfl, _, e, hsteps, arrives_standing herest hline.starts, herest, hecolumn⟩

/-- A text is read, in quotes or not. -/
theorem comes_text (s : String) (hlevel : level + 2 < Writer.width) (hline : LineAt tail next rest) (hnext : next ≤ level)
    (hrest : c.rest = writeEntry level column (.text s) ++ tail) (hcolumn : level ≤ c.column) :
    Comes 1 (level :: outer) (ts ++ (Entry.text s).tokens) next rest (valued (level :: outer) ts c) := by
  have hwrite : c.rest = ' ' :: (writeText (level + 2) (column + 1) s ++ '\n' :: tail) := by
    rw [hrest, writeEntry]
    simp
  by_cases hstyle : Writer.style s = .plain
  · obtain ⟨hplain, -⟩ := Writer.isPlain_of_style hstyle
    have hwritten : writeText (level + 2) (column + 1) s =
        Writer.writeRuns ([·]) (level + 2) (column + 1) true (Writer.runs s.toList) := by rw [writeText, hstyle]
    rw [hwritten] at hwrite
    have hindent : (level + 1 : Int) ≤ (level + 2 : Nat) := by omega
    have hread := Scalar.readsPlain_writeRuns hplain hindent (by omega) hline.line (by omega) (column + 1)
    rw [Entry.tokens, decide_eq_true hstyle]
    exact comes_plain hread (Scalar.beginsPlain_writeRuns hplain _ _) hline hwrite hcolumn
  · obtain ⟨quote, written, hquote, hspelled, hwritten⟩ := Scalar.spelled_writeText hlevel hstyle (column + 1)
    have hquoted : c.rest = ' ' :: quote :: (written ++ quote :: '\n' :: tail) := by
      rw [hwrite, hwritten]
      simp
    obtain ⟨e, he, hread⟩ := Scalar.quoted_of_spelled (by omega) hquote (by simp) hspelled
      (c := c.after [' '] (quote :: (written ++ quote :: '\n' :: tail))) rfl
    rw [String.ofList_toList] at hread
    rw [Entry.tokens, decide_eq_false hstyle]
    have hbreak : e.rest = '\n' :: (blanks next ++ rest) := by rw [he, hline.split]
    exact ⟨1, le_rfl, _, _, steps_quoted hquote hquoted hread hcolumn, arrives_valued hbreak hline.starts, rfl,
      by simp [Cursor.after, Cursor.nextLine, blanks]⟩

theorem comes_word {s : String} (hword : Writer.IsWord s.toList) (hplain : IsPlainWord s.toList)
    (hbegins : ∃ x more, s.toList = x :: more ∧ BeginsPlain x more) (hline : LineAt tail next rest) (hnext : next ≤ level)
    (hrest : c.rest = ' ' :: s.toList ++ ['\n'] ++ tail) (hcolumn : level ≤ c.column) :
    Comes 1 (level :: outer) (ts ++ [.scalar s true]) next rest (valued (level :: outer) ts c) :=
  comes_plain (Scalar.readsPlain_last hline.line (by omega) hword hplain) hbegins hline (by simpa using hrest) hcolumn

theorem comes_int (n : Int) (hline : LineAt tail next rest) (hnext : next ≤ level)
    (hrest : c.rest = writeEntry level column (.int n) ++ tail) (hcolumn : level ≤ c.column) :
    Comes 1 (level :: outer) (ts ++ (Entry.int n).tokens) next rest (valued (level :: outer) ts c) := by
  rw [writeEntry] at hrest
  rw [Entry.tokens]
  exact comes_word (isWord_intText n) (isPlainWord_intText n) (beginsPlain_intText n) hline hnext hrest hcolumn

theorem comes_bool (b : Bool) (hline : LineAt tail next rest) (hnext : next ≤ level)
    (hrest : c.rest = writeEntry level column (.bool b) ++ tail) (hcolumn : level ≤ c.column) :
    Comes 1 (level :: outer) (ts ++ (Entry.bool b).tokens) next rest (valued (level :: outer) ts c) := by
  have hchars : ∀ x ∈ (if b then "true" else "false").toList, isPlainChar x = true := by
    refine List.all_eq_true.1 ?_
    cases b <;> rfl
  obtain ⟨hword, hplain, hbegins⟩ := Scalar.isPlainWord_of_isPlainChar (by cases b <;> decide) hchars
  rw [writeEntry] at hrest
  rw [Entry.tokens]
  exact comes_word hword hplain hbegins hline hnext hrest hcolumn

theorem Comes.bind {m n : Nat} {columns' : List Nat} {ts' : List Token} {next' : Nat} {rest' : List Char}
    (hfirst : Comes m columns ts next rest r)
    (hsecond : ∀ r' e, Arrives columns ts e r' → e.rest = rest → e.column = next → Comes n columns' ts' next' rest' r') :
    Comes (m + n) columns' ts' next' rest' r := by
  obtain ⟨k, hk, r', e, hsteps, harrives, herest, hecolumn⟩ := hfirst
  exact (Comes.after hsteps (hsecond r' e harrives herest hecolumn)).mono (by omega)

theorem Comes.close {n k : Nat} (hcomes : Comes n (k :: columns) ts next rest r) (hk : next < k) :
    Comes n columns (ts ++ [.blockEnd]) next rest r := by
  obtain ⟨m, hm, r', e, hsteps, harrives, herest, hecolumn⟩ := hcomes
  exact ⟨m, hm, r', e, hsteps, harrives.close (by omega), herest, hecolumn⟩

/-! ### Entries -/

theorem isGapOrEnd_writeEntry (e : Entry) (tail : List Char) :
    isGapOrEnd ((writeEntry level column e ++ tail).headD '\x00') = true := by
  match e with
  | .text _ | .int _ | .bool _ | .group [] | .group (_ :: _) =>
    rw [writeEntry]
    rfl

theorem lineAt_writeEntries {name : String} (hname : IsName name) (level : Nat) (e : Entry) (more : List (String × Entry))
    (tail : List Char) :
    LineAt (writeEntries level ((name, e) :: more) ++ tail) level
      (name.toList ++ ':' :: (writeEntry level (level + name.length + 1) e ++ (writeEntries level more ++ tail))) := by
  refine ⟨?_, fun x hx => ?_⟩
  · rw [writeEntries]
    simp
  · obtain ⟨y, later, hcons, hy⟩ := Writer.exists_cons_of_isName hname
    rw [hcons] at hx
    cases hx
    exact hy

mutual

theorem comes_entry {c : Cursor} {outer : List Nat} {ts : List Token} {tail rest : List Char} {depth level next column : Nat}
    (e : Entry) (he : e.WellFormed depth) (hlevel : level = 2 * depth) (hline : LineAt tail next rest)
    (hnext : next ≤ level) (hrest : c.rest = writeEntry level column e ++ tail) (hcolumn : level ≤ c.column) :
    Comes ((writeEntry level column e).length - 1) (level :: outer) (ts ++ e.tokens) next rest (valued (level :: outer) ts c) := by
  match e, he with
  | .text s, he =>
    have hdepth : depth ≤ 38 := he
    have hwidth : Writer.width = 80 := rfl
    refine (comes_text s (by omega) hline hnext hrest hcolumn).mono ?_
    simp [writeEntry]
  | .int n, _ =>
    refine (comes_int n hline hnext hrest hcolumn).mono ?_
    simp [writeEntry]
  | .bool b, _ =>
    refine (comes_bool b hline hnext hrest hcolumn).mono ?_
    simp [writeEntry]
  | .group [], he => exact absurd rfl he.2.1
  | .group ((name, e) :: more), he =>
    obtain ⟨-, hne, -, hentries⟩ := he
    have hfirst := lineAt_writeEntries hentries.1 (level + 2) e more tail
    rw [writeEntry] at hrest
    have hbreak := hrest.trans (congrArg ('\n' :: ·) hfirst.split)
    have hopens : Opens (level + 2) (level :: outer) ((level + 2) :: level :: outer) [.mappingStart] := .first (by simp)
    have harrives : Arrives (level :: outer) ts _ (valued (level :: outer) ts c) := arrives_valued hbreak hfirst.starts
    have hinner := comes_entries ((name, e) :: more) hentries hne (by omega) hline (by omega) hfirst.split.symm
      (by simp [Cursor.after, Cursor.nextLine, blanks]) hopens harrives
    have houter := hinner.close (by omega)
    rw [Entry.tokens, writeEntry, List.length_cons, Nat.add_sub_cancel]
    simpa using houter

theorem comes_entries {r : Reader} {c : Cursor} {columns outer : List Nat} {ts start : List Token} {tail rest : List Char}
    {depth level next : Nat} (entries : List (String × Entry)) (hentries : Entry.AllWellFormed depth entries) (hne : entries ≠ [])
    (hlevel : level = 2 * depth) (hline : LineAt tail next rest) (hnext : next ≤ level)
    (hrest : blanks level ++ c.rest = writeEntries level entries ++ tail) (hcolumn : c.column = level)
    (hopens : Opens level columns (level :: outer) start) (harrives : Arrives columns ts c r) :
    Comes (writeEntries level entries).length (level :: outer) (ts ++ start ++ Entry.tokensOf entries) next rest r := by
  subst hcolumn
  match entries, hentries with
  | [], _ => exact absurd rfl hne
  | (name, e) :: more, ⟨hname, he, hmore⟩ =>
    have hentry : c.rest = name.toList ++ ':' :: (writeEntry c.column (c.column + name.length + 1) e ++ (writeEntries c.column more ++ tail)) := by
      rw [writeEntries] at hrest
      simpa using hrest
    have hsteps := steps_name hname hentry (isGapOrEnd_writeEntry e _) hopens harrives
    have hinside : c.column ≤ (c.after (name.toList ++ [':']) (writeEntry c.column (c.column + name.length + 1) e ++
        (writeEntries c.column more ++ tail))).column := by
      simp only [Cursor.after]
      omega
    have hlength : 2 + ((writeEntry c.column (c.column + name.length + 1) e).length - 1) + (writeEntries c.column more).length ≤
        (writeEntries c.column ((name, e) :: more)).length := by
      have hpos := List.length_pos_iff.2 (show name.toList ≠ [] by simpa using hname.ne_empty)
      simp only [writeEntries, List.length_append, List.length_cons]
      omega
    match more, hmore with
    | [], _ =>
      have hcomes := (comes_entry e he hlevel hline hnext rfl hinside).after hsteps
      refine Comes.mono ?_ hlength
      simpa [Entry.tokensOf, writeEntries] using hcomes
    | (other, e') :: later, hmore =>
      have hnextLine := lineAt_writeEntries hmore.1 c.column e' later tail
      have hcomes := (comes_entry e he hlevel hnextLine le_rfl rfl hinside).after hsteps
      have hlater := hcomes.bind fun r' between hbetween hrest hcolumn =>
        comes_entries ((other, e') :: later) hmore (List.cons_ne_nil _ _) hlevel hline hnext
          (by rw [hrest, ← hnextLine.split]) hcolumn (.again outer) hbetween
      refine Comes.mono ?_ hlength
      simpa [Entry.tokensOf] using hlater

end

/-! ### Whole texts -/

/-- A comment in the first line is passed. -/
theorem arrives_comment {comment : List Char} (hcomment : Inline comment) (hbegins : Begins rest) :
    ∃ c : Cursor, c.rest = rest ∧ c.column = 0 ∧ Arrives [] [] c { cursor := { rest := '#' :: comment ++ '\n' :: rest } } := by
  let first : Cursor := { rest := '#' :: comment ++ '\n' :: rest }
  let ended : Cursor := first.after ('#' :: comment) ('\n' :: rest)
  have hinline : Inline ('#' :: comment) := Writer.inline_cons.2 ⟨by decide, hcomment⟩
  have hblank : first.skipWhile (· = ' ') = first := by
    have hempty : first.rest = [] ++ '#' :: (comment ++ '\n' :: rest) := rfl
    rw [Cursor.skipWhile_of_inline hempty Writer.inline_nil (by simp) (by simp)]
    rfl
  have hpassed : first.skipWhile (!isBreakOrEnd ·) = ended := by
    refine Cursor.skipWhile_of_inline rfl hinline (fun x hx => ?_) ?_
    · have hnull : x ≠ '\x00' := ne_of_isPrintable (hinline x hx) (by decide)
      simp [isBreakOrEnd, hnull, isBreak_of_isPrintable (hinline x hx)]
    · rintro x ⟨⟩
      rfl
  have hnext : ∀ fuel, toNextToken (fuel + 2) { cursor := first } = standing [] [] (ended.nextLine rest) := by
    intro fuel
    have hpeek : first.peek = '#' ∧ isBreak ended.peek = true := ⟨rfl, rfl⟩
    rw [toNextToken, hblank, if_pos hpeek.1, hpassed]
    simp only [hpeek.2, if_true, Cursor.lineBreak_eq (c := ended) rfl]
    exact toNextToken_of_blanks (n := 0) rfl hbegins fuel
  exact ⟨ended.nextLine rest, rfl, rfl, arrives_of_toNextToken rfl (hnext (comment ++ '\n' :: rest).length)⟩

/-- What may stand above the entries: nothing, or a line with a comment. -/
inductive IsFront : List Char → Prop where
  | nothing : IsFront []
  | comment {comment : List Char} (hcomment : Inline comment) : IsFront ('#' :: comment ++ ['\n'])

theorem IsFront.common {front : List Char} (hfront : IsFront front) : Writer.Common front := by
  cases hfront with
  | nothing => exact fun x hx => absurd hx List.not_mem_nil
  | comment hcomment =>
    exact Writer.common_append.2 ⟨Writer.common_cons.2 ⟨by decide, hcomment.common⟩,
      Writer.common_cons.2 ⟨by decide, fun x hx => absurd hx List.not_mem_nil⟩⟩

theorem arrives_front {front : List Char} (hfront : IsFront front) (hbegins : Begins rest) :
    ∃ c : Cursor, c.rest = rest ∧ c.column = 0 ∧ Arrives [] [] c { cursor := { rest := front ++ rest } } := by
  cases hfront with
  | nothing => exact ⟨{ rest }, rfl, rfl, arrives_standing rfl hbegins⟩
  | comment hcomment =>
    rw [List.append_assoc]
    exact arrives_comment hcomment hbegins

end Tokens.Reader

namespace Tokens

open Reader

theorem isAllowed_of_isCommon {x : Char} (hx : Writer.isCommon x = true) : isAllowed x = true := by
  rw [Writer.isCommon, Bool.or_eq_true, decide_eq_true_eq] at hx
  rcases hx with rfl | hx
  · rfl
  · simp only [isAllowed]
    rw [Writer.isPrintable] at hx
    simp [hx]

theorem peek_ne_mark {front : List Char} (hfront : IsFront front) {name : String} (hname : IsName name) (rest : List Char) :
    Cursor.peek { rest := front ++ (name.toList ++ rest) } ≠ '\uFEFF' := by
  cases hfront with
  | nothing =>
    obtain ⟨x, more, hx, hplain⟩ := Writer.exists_cons_of_isName hname
    change Cursor.peek { rest := name.toList ++ rest } ≠ '\uFEFF'
    rw [hx]
    exact ne_of_isPrintable (Writer.isPrintable_of_isPlainChar hplain) (by decide)
  | comment hcomment =>
    change '#' ≠ '\uFEFF'
    decide

/-- The tokens of a settings file, with a comment in its first line or without one. -/
theorem read_writeEntries {front : List Char} {entries : List (String × Entry)} (hfront : IsFront front)
    (hentries : Entry.AllWellFormed 0 entries) (hne : entries ≠ []) :
    Tokens.read (String.ofList (front ++ writeEntries 0 entries)) =
      ⟨.mappingStart :: Entry.tokensOf entries ++ [.blockEnd, .streamEnd], none⟩ := by
  have hallowed : (front ++ writeEntries 0 entries).all isAllowed = true := by
    have hcommon : Writer.Common (front ++ writeEntries 0 entries) :=
      Writer.common_append.2 ⟨hfront.common, Writer.common_writeEntries entries hentries⟩
    exact List.all_eq_true.2 fun x hx => isAllowed_of_isCommon (hcommon x hx)
  have hlines : LineAt ([] : List Char) 0 [] := ⟨rfl, by simp⟩
  obtain ⟨hfirst, hmark⟩ : LineAt (writeEntries 0 entries) 0 (writeEntries 0 entries) ∧
      Cursor.peek { rest := front ++ writeEntries 0 entries } ≠ '\uFEFF' := by
    match entries, hentries with
    | [], _ => exact absurd rfl hne
    | (name, e) :: more, ⟨hname, _⟩ =>
      have hline := lineAt_writeEntries hname 0 e more []
      have hall : writeEntries 0 ((name, e) :: more) ++ [] = writeEntries 0 ((name, e) :: more) := List.append_nil _
      rw [hall] at hline
      refine ⟨⟨rfl, by rw [hline.split]; exact hline.begins⟩, ?_⟩
      rw [writeEntries]
      simpa [blanks] using peek_ne_mark hfront hname _
  obtain ⟨c, hrest, hcolumn, harrives⟩ := arrives_front hfront hfirst.starts
  have hopens : Opens 0 [] [0] [.mappingStart] := .first (by simp)
  obtain ⟨n, hn, r, e, hsteps, hlast, herest, -⟩ := comes_entries entries hentries hne (show 0 = 2 * 0 from rfl) hlines le_rfl
    (by rw [hrest]; simp [blanks]) hcolumn hopens harrives
  obtain ⟨fuel, hfuel⟩ : ∃ fuel, (front ++ writeEntries 0 entries).length + 2 = n + (fuel + 1) := by
    refine ⟨(front ++ writeEntries 0 entries).length + 1 - n, ?_⟩
    simp only [List.length_append]
    omega
  rw [Tokens.read, String.toList_ofList]
  simp only [hallowed, Bool.not_true, Bool.false_eq_true, if_false, if_neg hmark]
  rw [hfuel, run_of_steps hsteps, run_end hlast herest]
  simp

end Tokens

end TagTypes.Yaml
