import Mathlib.Tactic
import TagTypes.Proofs.Yaml.Plain
import TagTypes.Yaml.Token.Reader

/-!
# Steps of the token reader

In what is written no list or map stands in brackets, and every line begins with a name. So a reader that stands at a name has no candidate for a key, and its state is made up of its place, its tokens and the columns of the open maps.
-/

namespace TagTypes.Yaml.Tokens.Reader

open Scalar (BeginsPlain)
open Writer (isPrintable blanks)

variable {r r' r'' : Reader} {c e : Cursor} {columns : List Nat} {ts : List Token} {tail rest : List Char} {next m n : Nat}

/-! ### Runs -/

/-- The reader takes `n` steps, none of which reads the end of the text. -/
inductive Steps : Nat → Reader → Reader → Prop where
  | refl (r : Reader) : Steps 0 r r
  | step {n : Nat} {r r' r'' : Reader} (hstep : (r.dropStale >>= step) = .ok r') (hgoes : r'.tokens.back? ≠ some .streamEnd)
      (hrest : Steps n r' r'') : Steps (n + 1) r r''

theorem Steps.trans (hfirst : Steps m r r') (hsecond : Steps n r' r'') : Steps (m + n) r r'' := by
  induction hfirst with
  | refl => rwa [Nat.zero_add]
  | step hstep hgoes _ ih =>
    rw [Nat.add_right_comm]
    exact .step hstep hgoes (ih hsecond)

theorem run_of_steps (hsteps : Steps n r r') (fuel : Nat) : run (n + fuel) r = run fuel r' := by
  induction hsteps with
  | refl => rw [Nat.zero_add]
  | @step n r r' r'' hstep hgoes hrest ih =>
    rw [Nat.add_right_comm, run, hstep]
    dsimp only
    rw [if_neg hgoes, ih]

/-! ### Approaching a token -/

/-- A reader at the beginning of a line that has read the tokens `ts`. -/
def standing (columns : List Nat) (ts : List Token) (c : Cursor) : Reader := { cursor := c, tokens := ts.toArray, columns }

theorem dropStale_of_nil (hcandidates : r.candidates = []) : r.dropStale = .ok r := by
  obtain ⟨cursor, tokens, depth, columns, admitsKey, candidates⟩ := r
  cases hcandidates
  rfl

/-- What a line begins with, if it is not the last one: not with a blank or a comment. -/
def Begins (rest : List Char) : Prop := ∀ x ∈ rest.head?, isPrintable x = true ∧ x ≠ ' ' ∧ x ≠ '#'

theorem toNextToken_of_blanks (hrest : r.cursor.rest = blanks n ++ rest) (hbegins : Begins rest) (fuel : Nat) :
    toNextToken (fuel + 1) r = { r with cursor := r.cursor.after (blanks n) rest } := by
  have hskip : r.cursor.skipWhile (· = ' ') = r.cursor.after (blanks n) rest := by
    refine Cursor.skipWhile_of_inline hrest (Writer.inline_blanks n) (fun x hx => ?_) fun x hx => ?_
    · exact decide_eq_true (List.eq_of_mem_replicate hx)
    · exact decide_eq_false (hbegins x hx).2.1
  have hpeek : (r.cursor.after (blanks n) rest).peek ≠ '#' ∧ isBreak (r.cursor.after (blanks n) rest).peek = false := by
    unfold Cursor.peek Cursor.after
    cases hcases : rest with
    | nil => exact (by decide : '\x00' ≠ '#' ∧ isBreak '\x00' = false)
    | cons x more =>
      obtain ⟨hx, -, hsharp⟩ := hbegins x (by rw [hcases]; rfl)
      exact ⟨hsharp, isBreak_of_isPrintable hx⟩
  rw [toNextToken, hskip]
  simp only [if_neg hpeek.1, hpeek.2, Bool.false_eq_true, if_false]

theorem toNextToken_of_break (hrest : r.cursor.rest = '\n' :: (blanks next ++ rest)) (hdepth : r.depth = 0) (hbegins : Begins rest)
    (fuel : Nat) : toNextToken (fuel + 2) r =
      { r with cursor := (r.cursor.nextLine (blanks next ++ rest)).after (blanks next) rest, admitsKey := true } := by
  have hskip : r.cursor.skipWhile (· = ' ') = r.cursor := by
    have hempty : r.cursor.rest = [] ++ '\n' :: (blanks next ++ rest) := hrest
    rw [Cursor.skipWhile_of_inline hempty Writer.inline_nil (by simp) (by simp), Cursor.after_nil hrest]
  have hpeek : r.cursor.peek ≠ '#' ∧ isBreak r.cursor.peek = true := by
    rw [Cursor.peek_eq hrest]
    decide
  rw [toNextToken, hskip]
  simp only [if_neg hpeek.1, hpeek.2, if_true, Cursor.lineBreak_eq hrest, hdepth, decide_true, Bool.or_true]
  exact toNextToken_of_blanks rfl hbegins fuel

/-- The reader comes to the place `c` next, where it goes on like one that stands there and has not closed anything yet. -/
structure Arrives (columns : List Nat) (ts : List Token) (c : Cursor) (r : Reader) : Prop where
  noCandidate : r.candidates = []
  approach_eq : r.approach = .ok ((standing columns ts c).unwind c.column)

theorem arrives_of_toNextToken (hcandidates : r.candidates = [])
    (hnext : r.toNextToken (r.cursor.rest.length + 1) = standing columns ts c) : Arrives columns ts c r := by
  refine ⟨hcandidates, ?_⟩
  rw [approach, hnext]
  rfl

/-! ### Names -/

/-- The candidate that a token at `c` is. -/
def candidateAt (columns : List Nat) (ts : List Token) (c : Cursor) : KeyCandidate :=
  { depth := 0, position := ts.length, isRequired := (standing columns ts c).indent = c.column
    index := c.index, line := c.line, column := c.column }

theorem addCandidate_standing (columns : List Nat) (ts : List Token) (c : Cursor) :
    (standing columns ts c).addCandidate = .ok { standing columns ts c with candidates := [candidateAt columns ts c] } := by
  rfl

/-- A reader that has read a name but not the colon after it. -/
def named (columns : List Nat) (ts : List Token) (name : String) (rest : List Char) (c : Cursor) : Reader :=
  { cursor := c.after name.toList rest, tokens := (ts ++ [Token.scalar name true]).toArray, columns, admitsKey := false
    candidates := [candidateAt columns ts c] }

/-- A reader that has read a name and the colon after it, in a map at one of the columns. -/
def valued (columns : List Nat) (ts : List Token) (c : Cursor) : Reader :=
  { cursor := c, tokens := ts.toArray, columns, admitsKey := false }

variable {x : Char} {more : List Char}

theorem begins_of_beginsPlain (hbegins : BeginsPlain x more) : Begins (x :: more) := by
  intro y hy
  cases hy
  refine ⟨hbegins.printable, hbegins.notSpace, ?_⟩
  rintro rfl
  exact absurd hbegins.notIndicator (by decide)

theorem isAtEnd_of_isPrintable (hrest : c.rest = x :: more) (hx : isPrintable x = true) : c.isAtEnd = false := by
  rw [Cursor.isAtEnd, Cursor.peek_eq hrest]
  exact decide_eq_false (ne_of_isPrintable hx (by decide))

theorem token_of_beginsPlain (hdepth : r.depth = 0) (hrest : r.cursor.rest = x :: more)
    (hbegins : BeginsPlain x more) (hcolumn : r.cursor.column = 0 → x ≠ '-' ∧ x ≠ '.') : r.token = r.plain := by
  have hmarks : ∀ y, Writer.isIndicator y = true → x ≠ y := by
    rintro y hy rfl
    rw [hbegins.notIndicator] at hy
    cases hy
  have hpeek : r.cursor.peek = x := Cursor.peek_eq hrest
  have hnext : r.cursor.peekAt 1 = more.headD '\x00' := by
    rw [Cursor.peekAt, hrest]
    cases more <;> rfl
  have hgap : isGapOrEnd x = false := by
    rw [isGapOrEnd_of_isPrintable hbegins.printable]
    exact decide_eq_false hbegins.notSpace
  have hjoined : x = '-' ∨ x = '?' ∨ x = ':' → isGapOrEnd (r.cursor.peekAt 1) = false := by
    rw [hnext]
    exact hbegins.joined
  have hmarker : ∀ mark, mark = '-' ∨ mark = '.' → (decide (r.cursor.column = 0) && r.cursor.isMarker mark) = false := by
    intro mark hmark
    by_cases hzero : r.cursor.column = 0
    · have hne : x ≠ mark := by
        rcases hmark with rfl | rfl
        · exact (hcolumn hzero).1
        · exact (hcolumn hzero).2
      simp [Cursor.isMarker, hrest, hne]
    · simp [hzero]
  have hbefore : ∀ mark, mark = '-' ∨ mark = '?' ∨ mark = ':' →
      (decide (x = mark) && isGapOrEnd (r.cursor.peekAt 1)) = false := by
    intro mark hmark
    by_cases hx : x = mark
    · rw [hjoined (by rwa [hx]), Bool.and_false]
    · simp [hx]
  have hstart : r.isPlainStart = true := by
    unfold isPlainStart
    simp only [hpeek, hgap, Bool.false_or, hdepth, decide_true, Bool.true_and]
    by_cases hmark : x = '-' ∨ x = '?' ∨ x = ':'
    · rw [hjoined hmark]
      simpa using Or.inr hmark
    · have hother := hbegins.notIndicator
      simp only [Writer.isIndicator] at hother
      simp_all
  unfold token
  simp only [isAtEnd_of_isPrintable hrest hbegins.printable, hpeek, hmarker '-' (.inl rfl), hmarker '.' (.inr rfl),
    hmarks '%' (by decide), decide_false, Bool.and_false, Bool.false_eq_true, if_false]
  split
  case h_11 =>
    simp only [hdepth, ne_eq, not_true, decide_false, Bool.false_or, hbefore '-' (.inl rfl), hbefore '?' (.inr (.inl rfl)),
      hbefore ':' (.inr (.inr rfl)), hmarks '|' (by decide), hmarks '>' (by decide), Bool.false_and, Bool.false_eq_true, if_false,
      hstart, if_true]
  all_goals exact absurd rfl (hmarks _ (by decide))

theorem plain_eq {p : Scalar.Plain} (hadd : r.addCandidate = .ok r') (hdepth : r'.depth = 0)
    (hread : Scalar.plain false (r'.indent + 1) r'.cursor = p) :
    r.plain = .ok { r'.push (.scalar (String.ofList p.text) true) with cursor := p.cursor, admitsKey := p.endsLine } := by
  subst hread
  rw [plain, hadd]
  simp only [Bind.bind, Except.bind, hdepth, ne_eq, not_true, decide_false]
  rfl

theorem plain_standing {name : String} (hname : IsName name) (hrest : c.rest = name.toList ++ ':' :: rest)
    (hgap : isGapOrEnd (rest.headD '\x00') = true) :
    (standing columns ts c).plain = .ok (named columns ts name (':' :: rest) c) := by
  rw [plain_eq (addCandidate_standing columns ts c) rfl (Scalar.plain_name hname hrest hgap _), String.ofList_toList]
  simp [push, named, standing]

/-- A map at the column `level` is gone on with or begun, where the open maps are indented as `columns` says. -/
inductive Opens (level : Nat) : List Nat → List Nat → List Token → Prop where
  | again (outer : List Nat) : Opens level (level :: outer) (level :: outer) []
  | first {outer : List Nat} (houter : ∀ k ∈ outer.head?, k < level) : Opens level outer (level :: outer) [.mappingStart]

variable {columns' : List Nat} {start : List Token} {name : String}

theorem insertAt_append {ts inserted later : List Token} (hr : r.tokens = (ts ++ later).toArray) :
    r.insertAt ts.length inserted = { r with tokens := (ts ++ inserted ++ later).toArray } := by
  simp [insertAt, hr]

theorem skip_colon (hrest : c.rest = ':' :: rest) : c.skip 1 = c.after [':'] rest :=
  Cursor.next_of_isPrintable hrest (by decide)

theorem value_named (hopens : Opens c.column columns columns' start) :
    (named columns ts name (':' :: rest) c).value =
      .ok (valued columns' (ts ++ start ++ [.key, .scalar name true, .value]) (c.after (name.toList ++ [':']) rest)) := by
  have hcandidate : (named columns ts name (':' :: rest) c).candidate? = some (candidateAt columns ts c) := by
    simp [candidate?, named, candidateAt]
  unfold value
  rw [hcandidate]
  have hcolon : (c.after name.toList (':' :: rest)).skip 1 = c.after (name.toList ++ [':']) rest := by
    rw [skip_colon rfl, Cursor.after_after]
  cases hopens with
  | again outer =>
    have hopen : (named (c.column :: outer) ts name (':' :: rest) c).withoutCandidate.opensAt c.column = false := by
      simp [opensAt, indent, named, withoutCandidate]
    simp only [candidateAt, hopen, Bool.false_eq_true, if_false]
    rw [insertAt_append rfl]
    simp [pushOver, withoutCandidate, named, valued, candidateAt, hcolon]
  | first houter =>
    have hopen : (named columns ts name (':' :: rest) c).withoutCandidate.opensAt c.column = true := by
      cases columns with
      | nil =>
        have hcolumn : (-1 : Int) < c.column := by omega
        simp [opensAt, indent, named, withoutCandidate, hcolumn]
      | cons k outer => simpa [opensAt, indent, named, withoutCandidate] using houter k rfl
    simp only [candidateAt, hopen, if_true]
    rw [insertAt_append rfl]
    simp [pushOver, withoutCandidate, named, valued, candidateAt, enter, hcolon]

theorem unwind_of_le {column : Int} (hcolumns : ∀ k ∈ r.columns.head?, (k : Int) ≤ column) : r.unwind column = r := by
  have hclosed : (r.columns.takeWhile fun (k : Nat) => column < k) = [] := by
    cases hcases : r.columns with
    | nil => rfl
    | cons k outer =>
      have hk := hcolumns k (by rw [hcases]; rfl)
      simp [hk]
  unfold unwind
  split
  · rfl
  · simp [hclosed]

theorem token_of_colon (hdepth : r.depth = 0) (hrest : r.cursor.rest = ':' :: rest) (hgap : isGapOrEnd (rest.headD '\x00') = true)
    (hcolumn : r.cursor.column ≠ 0) : r.token = r.value := by
  have hnext : r.cursor.peekAt 1 = rest.headD '\x00' := by
    rw [Cursor.peekAt, hrest]
    cases rest <;> rfl
  unfold token
  simp only [isAtEnd_of_isPrintable hrest (by decide), Cursor.peek_eq hrest, hnext, hgap, hcolumn, hdepth]
  rfl

theorem Opens.le (hopens : Opens n columns columns' start) : ∀ k ∈ columns.head?, k ≤ n := by
  cases hopens with
  | again outer => simp
  | first houter => exact fun k hk => (houter k hk).le

theorem dropStale_named (hname : IsName name) (columns : List Nat) (ts : List Token) (rest : List Char) (c : Cursor) :
    (named columns ts name rest c).dropStale = .ok (named columns ts name rest c) := by
  have hreach : (named columns ts name rest c).isInReach (candidateAt columns ts c) = true := by
    have hshort : name.toList.length ≤ maxKeyLength := hname.short
    simpa [isInReach, named, candidateAt, Cursor.after] using hshort
  have hcandidates : (named columns ts name rest c).candidates = [candidateAt columns ts c] := rfl
  rw [dropStale, hcandidates, List.any_cons, List.any_nil, hreach, List.filter_cons_of_pos hreach, List.filter_nil, Bool.not_true,
    Bool.and_false, Bool.or_false, if_neg Bool.false_ne_true]
  rfl

/-- A name is read, and the colon after it. -/
theorem steps_name (hname : IsName name) (hrest : c.rest = name.toList ++ ':' :: rest)
    (hgap : isGapOrEnd (rest.headD '\x00') = true) (hopens : Opens c.column columns columns' start)
    (harrives : Arrives columns ts c r) :
    Steps 2 r (valued columns' (ts ++ start ++ [.key, .scalar name true, .value]) (c.after (name.toList ++ [':']) rest)) := by
  have hcolumns : ∀ k ∈ columns.head?, (k : Int) ≤ c.column := fun k hk => Int.ofNat_le.2 (hopens.le k hk)
  have hfirst : (r.dropStale >>= step) = .ok (named columns ts name (':' :: rest) c) := by
    obtain ⟨x, more, hcons, hx⟩ := Writer.exists_cons_of_isName hname
    have htoken : (standing columns ts c).token = (standing columns ts c).plain :=
      token_of_beginsPlain rfl (by rw [standing, hrest, hcons]; rfl) (Scalar.beginsPlain_of_isPlainChar hx (more ++ ':' :: rest))
        fun _ => ⟨ne_of_isPlainChar hx (by decide), ne_of_isPlainChar hx (by decide)⟩
    rw [dropStale_of_nil harrives.noCandidate]
    change r.approach >>= token = _
    rw [harrives.approach_eq, unwind_of_le hcolumns]
    exact htoken.trans (plain_standing hname hrest hgap)
  have hsecond : ((named columns ts name (':' :: rest) c).dropStale >>= step) =
      .ok (valued columns' (ts ++ start ++ [.key, .scalar name true, .value]) (c.after (name.toList ++ [':']) rest)) := by
    have hcolumn : (named columns ts name (':' :: rest) c).cursor.column ≠ 0 := by
      have := List.length_pos_iff.2 (show name.toList ≠ [] by simpa using hname.ne_empty)
      simp only [named, Cursor.after]
      omega
    have happroach : (named columns ts name (':' :: rest) c).approach = .ok (named columns ts name (':' :: rest) c) := by
      have hbegins : Begins (':' :: rest) := by
        intro x hx
        cases hx
        decide
      have hnext : ∀ fuel, toNextToken (fuel + 1) (named columns ts name (':' :: rest) c) = named columns ts name (':' :: rest) c :=
        toNextToken_of_blanks (n := 0) rfl hbegins
      rw [approach, hnext, dropStale_named hname]
      refine congrArg Except.ok (unwind_of_le fun k hk => (hcolumns k hk).trans ?_)
      simp [named, Cursor.after]
    rw [dropStale_named hname]
    change (named columns ts name (':' :: rest) c).approach >>= token = _
    rw [happroach]
    exact (token_of_colon rfl rfl hgap hcolumn).trans (value_named hopens)
  refine .step hfirst ?_ (.step hsecond ?_ (.refl _))
  · simp [named]
  · simp [valued]

/-! ### Scalars after a name -/

theorem approach_valued (hrest : c.rest = ' ' :: rest) (hbegins : Begins rest) (hcolumns : ∀ k ∈ columns.head?, k ≤ c.column) :
    (valued columns ts c).approach = .ok (valued columns ts (c.after [' '] rest)) := by
  have hnext : ∀ fuel, toNextToken (fuel + 1) (valued columns ts c) = valued columns ts (c.after [' '] rest) :=
    toNextToken_of_blanks (n := 1) hrest hbegins
  rw [approach, hnext, dropStale_of_nil rfl]
  refine congrArg Except.ok (unwind_of_le fun k hk => Int.ofNat_le.2 ((hcolumns k hk).trans ?_))
  simp [valued, Cursor.after]

theorem step_valued (hrest : c.rest = ' ' :: rest) (hbegins : Begins rest) (hcolumns : ∀ k ∈ columns.head?, k ≤ c.column) :
    ((valued columns ts c).dropStale >>= step) = (valued columns ts (c.after [' '] rest)).token := by
  rw [dropStale_of_nil rfl]
  change (valued columns ts c).approach >>= token = _
  rw [approach_valued hrest hbegins hcolumns]
  rfl

variable {level : Nat} {outer : List Nat} {text : String} {written : List Char}

/-- A plain scalar is read, and the end of its line. -/
theorem steps_plain (hread : Scalar.ReadsPlain (level + 1) tail next rest text.toList (x :: more)) (hbegins : BeginsPlain x more)
    (hrest : c.rest = ' ' :: (x :: more ++ '\n' :: tail)) (hcolumn : level ≤ c.column) :
    ∃ e : Cursor, e.rest = rest ∧ e.column = next ∧
      Steps 1 (valued (level :: outer) ts c) (standing (level :: outer) (ts ++ [.scalar text true]) e) := by
  have hleast : (level + 1 : Int) ≤ (c.after [' '] (x :: more ++ '\n' :: tail)).column := by
    simp only [Cursor.after, List.length_singleton]
    omega
  obtain ⟨e, herest, hecolumn, hplain⟩ := Scalar.plain_of_readsPlain hread rfl hleast
  refine ⟨e, herest, hecolumn, .step ?_ (by simp [standing]) (.refl _)⟩
  have hadd : (valued (level :: outer) ts (c.after [' '] (x :: more ++ '\n' :: tail))).addCandidate =
      .ok (valued (level :: outer) ts (c.after [' '] (x :: more ++ '\n' :: tail))) := rfl
  rw [step_valued hrest (begins_of_beginsPlain (hbegins.append _)) (by simpa using hcolumn),
    token_of_beginsPlain rfl rfl (hbegins.append _) (fun hzero => absurd hzero (by simp [valued, Cursor.after])),
    plain_eq hadd rfl hplain, String.ofList_toList]
  simp [push, valued, standing]

theorem token_of_quote {quote : Char} (hquote : quote = '"' ∨ quote = '\'') (hrest : r.cursor.rest = quote :: rest)
    (hcolumn : r.cursor.column ≠ 0) :
    r.token = r.keyPart fun c => (Scalar.quoted c).map fun (text, c) => (.scalar text false, c) := by
  have hprintable : isPrintable quote = true := by rcases hquote with rfl | rfl <;> decide
  unfold token
  simp only [isAtEnd_of_isPrintable hrest hprintable, Cursor.peek_eq hrest, hcolumn, decide_false, Bool.false_and,
    Bool.false_eq_true, if_false]
  rcases hquote with rfl | rfl <;> rfl

/-- A scalar in quotes is read. -/
theorem steps_quoted {quote : Char} (hquote : quote = '"' ∨ quote = '\'') (hrest : c.rest = ' ' :: quote :: rest)
    (hread : Scalar.quoted (c.after [' '] (quote :: rest)) = .ok (text, e)) (hcolumn : level ≤ c.column) :
    Steps 1 (valued (level :: outer) ts c) (valued (level :: outer) (ts ++ [.scalar text false]) e) := by
  refine .step ?_ (by simp [valued]) (.refl _)
  have hbegins : Begins (quote :: rest) := by
    intro x hx
    cases hx
    rcases hquote with rfl | rfl <;> decide
  have hadd : (valued (level :: outer) ts (c.after [' '] (quote :: rest))).addCandidate =
      .ok (valued (level :: outer) ts (c.after [' '] (quote :: rest))) := rfl
  have hscalar : Scalar.quoted (valued (level :: outer) ts (c.after [' '] (quote :: rest))).cursor = .ok (text, e) := hread
  rw [step_valued hrest hbegins (by simpa using hcolumn), token_of_quote hquote rfl (by simp [valued, Cursor.after]), keyPart, hadd]
  simp only [hscalar, Bind.bind, Except.bind, Except.map]
  simp [push, valued, Pure.pure, Except.pure]

/-! ### Coming to the next line -/

theorem arrives_standing (hrest : c.rest = rest) (hbegins : Begins rest) : Arrives columns ts c (standing columns ts c) := by
  refine arrives_of_toNextToken rfl ?_
  have hnext : ∀ fuel, toNextToken (fuel + 1) (standing columns ts c) = { standing columns ts c with cursor := c.after [] rest } :=
    toNextToken_of_blanks (n := 0) hrest hbegins
  rw [hnext, Cursor.after_nil hrest]
  rfl

theorem arrives_valued (hrest : c.rest = '\n' :: (blanks next ++ rest)) (hbegins : Begins rest) :
    Arrives columns ts ((c.nextLine (blanks next ++ rest)).after (blanks next) rest) (valued columns ts c) := by
  refine arrives_of_toNextToken rfl ?_
  obtain ⟨fuel, hfuel⟩ : ∃ fuel, (valued columns ts c).cursor.rest.length + 1 = fuel + 2 :=
    ⟨(blanks next ++ rest).length, by simp [valued, hrest]⟩
  rw [hfuel, toNextToken_of_break hrest rfl hbegins]
  rfl

theorem Arrives.close {k : Nat} (harrives : Arrives (k :: columns) ts c r) (hk : c.column < k) :
    Arrives columns (ts ++ [.blockEnd]) c r := by
  refine ⟨harrives.noCandidate, ?_⟩
  have hunwind : (standing (k :: columns) ts c).unwind c.column = (standing columns (ts ++ [.blockEnd]) c).unwind c.column := by
    simp [unwind, standing, hk, Array.replicate_succ']
  rw [harrives.approach_eq, hunwind]

/-- The end of the text closes the map at its beginning. -/
theorem run_end (harrives : Arrives [0] ts c r) (hrest : c.rest = []) (fuel : Nat) :
    run (fuel + 1) r = ⟨ts ++ [.blockEnd, .streamEnd], none⟩ := by
  have hend : (standing [0] ts c).token = .ok { standing [] (ts ++ [.blockEnd, .streamEnd]) c with candidates := [] } := by
    have hatEnd : (standing [0] ts c).cursor.isAtEnd = true := by simp [standing, Cursor.isAtEnd, Cursor.peek, hrest]
    unfold token
    simp only [hatEnd, if_true]
    simp [finish, unwind, standing, dropCandidate, candidate?, withoutCandidate, push, Bind.bind, Except.bind, Pure.pure, Except.pure]
  have hstep : (r.dropStale >>= step) = .ok (standing [] (ts ++ [.blockEnd, .streamEnd]) c) := by
    rw [dropStale_of_nil harrives.noCandidate]
    change r.approach >>= token = _
    rw [harrives.approach_eq, unwind_of_le (by simp [standing])]
    exact hend
  rw [run, hstep]
  simp [standing]

end TagTypes.Yaml.Tokens.Reader
