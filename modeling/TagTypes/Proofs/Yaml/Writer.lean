import Mathlib.Data.List.SplitBy
import Mathlib.Tactic
import TagTypes.Proofs.Text.Digit
import TagTypes.Yaml.Token.Reader
import TagTypes.Yaml.Writer

/-!
# What is written

Only printable characters of ASCII and line ends are written: a text with any other character goes in double quotes, with escapes for them. This is shown for entries with plain names, which can be told from what is written between them.
-/

namespace TagTypes.Yaml

/-! ### Well-formed entries -/

/-- The characters of a plain name. -/
def isPlainChar (c : Char) : Bool := c.isAlphanum || c = '_'

/-- A name that is read as a text of its own, and as a key. -/
structure IsName (name : String) : Prop where
  ne_empty : name ≠ ""
  plain : name.toList.all isPlainChar = true
  short : name.length ≤ Tokens.maxKeyLength
  isText : Tag.ofPlain name = .str

theorem isName_iff {name : String} : IsName name ↔ name ≠ "" ∧ name.toList.all isPlainChar = true ∧
    name.length ≤ Tokens.maxKeyLength ∧ Tag.ofPlain name = .str :=
  ⟨fun h => ⟨h.ne_empty, h.plain, h.short, h.isText⟩, fun ⟨hne, hplain, hshort, htext⟩ => ⟨hne, hplain, hshort, htext⟩⟩

instance (name : String) : Decidable (IsName name) := decidable_of_iff _ isName_iff.symm

namespace Entry

/-- Below this depth a text has room left of the width of a line. -/
def deepest : Nat := 38

mutual

/-- An entry at a depth is written so that it can be told from the others: a group is not empty and has no name twice. -/
def WellFormed (depth : Nat) : Entry → Prop
  | .text _ => depth ≤ deepest
  | .int _ | .bool _ => True
  | .group entries =>
    depth ≤ deepest ∧ entries ≠ [] ∧ (entries.map Prod.fst).Nodup ∧ AllWellFormed (depth + 1) entries

def AllWellFormed (depth : Nat) : List (String × Entry) → Prop
  | [] => True
  | (name, e) :: rest => IsName name ∧ WellFormed depth e ∧ AllWellFormed depth rest

end

theorem allWellFormed_iff {depth : Nat} {entries : List (String × Entry)} :
    AllWellFormed depth entries ↔ (∀ name ∈ entries.map Prod.fst, IsName name) ∧ ∀ e ∈ entries.map Prod.snd, e.WellFormed depth := by
  induction entries with
  | nil => simp [AllWellFormed]
  | cons first rest ih =>
    simp only [AllWellFormed, ih, List.map_cons, List.forall_mem_cons]
    tauto

end Entry

/-! ### Written characters -/

namespace Writer

/-- A printable character of ASCII or a line end. -/
def isCommon (c : Char) : Bool := c = '\n' || isPrintable c

/-- All characters of a text are common. -/
def Common (cs : List Char) : Prop := ∀ c ∈ cs, isCommon c = true

theorem common_append {cs ds : List Char} : Common (cs ++ ds) ↔ Common cs ∧ Common ds := List.forall_mem_append

theorem common_cons {c : Char} {cs : List Char} : Common (c :: cs) ↔ isCommon c = true ∧ Common cs := List.forall_mem_cons

theorem common_nil : Common [] := List.forall_mem_nil _

theorem common_replicate {c : Char} (hc : isCommon c = true) (n : Nat) : Common (List.replicate n c) :=
  fun _ hmem => List.eq_of_mem_replicate hmem ▸ hc

theorem common_blanks (n : Nat) : Common (blanks n) := common_replicate (by decide) n

theorem flatten_runs (cs : List Char) : (runs cs).flatten = cs := List.flatten_splitBy _ cs

theorem common_writeRuns {quote : Char → List Char} (hquote : ∀ c, isCommon c = true → Common (quote c))
    (indent column : Nat) (isFirst : Bool) {rs : List (List Char)} (hrs : Common rs.flatten) :
    Common (writeRuns quote indent column isFirst rs) := by
  fun_induction writeRuns quote indent column isFirst rs with
  | case1 => exact common_nil
  | case2 column isFirst run rest hhead hturn ih =>
    rw [List.flatten_cons, common_append] at hrs
    exact common_append.2 ⟨common_cons.2 ⟨by decide, common_blanks indent⟩, ih hrs.2⟩
  | case3 column isFirst run rest hhead hturn ih =>
    rw [List.flatten_cons, common_append] at hrs
    exact common_append.2 ⟨hrs.1, ih hrs.2⟩
  | case4 column isFirst run rest hhead ih =>
    rw [List.flatten_cons, common_append] at hrs
    exact common_append.2 ⟨common_append.2 ⟨common_replicate (by decide) _, common_blanks indent⟩, ih hrs.2⟩
  | case5 column isFirst run rest word hspace hbreak ih =>
    rw [List.flatten_cons, common_append] at hrs
    refine common_append.2 ⟨fun c hc => ?_, ih hrs.2⟩
    obtain ⟨d, hd, hcd⟩ := List.mem_flatMap.1 hc
    exact hquote d (hrs.1 d hd) c hcd

/-- All characters of a piece are printable, so it is part of a line. -/
def Inline (piece : List Char) : Prop := ∀ x ∈ piece, isPrintable x = true

theorem inline_cons {x : Char} {piece : List Char} : Inline (x :: piece) ↔ isPrintable x = true ∧ Inline piece :=
  List.forall_mem_cons

theorem inline_nil : Inline [] := List.forall_mem_nil _

theorem inline_blanks (n : Nat) : Inline (blanks n) := fun _ hx => List.eq_of_mem_replicate hx ▸ rfl

theorem Inline.common {piece : List Char} (hpiece : Inline piece) : Common piece := fun c hc => by
  rw [isCommon, hpiece c hc, Bool.or_true]

theorem inline_upperHexDigits (count n : Nat) : Inline (upperHexDigits count n) := by
  have hdigit : ∀ d < 16, isPrintable (Text.lowerHexDigit d).toUpper = true := by decide
  intro c hc
  obtain ⟨d, hd, rfl⟩ := List.mem_map.1 hc
  clear hc
  induction count generalizing n with
  | zero => cases hd
  | succ count ih =>
    rcases List.mem_append.1 hd with hd | hd
    · exact ih (n / 16) hd
    · cases List.mem_singleton.1 hd
      exact hdigit _ (Nat.mod_lt _ (by decide))

theorem inline_escape (c : Char) : Inline (escape c) := by
  unfold escape
  refine inline_cons.2 ⟨by decide, ?_⟩
  split
  case h_16 =>
    split_ifs
    · exact inline_cons.2 ⟨by decide, inline_upperHexDigits _ _⟩
    · exact inline_cons.2 ⟨by decide, inline_upperHexDigits _ _⟩
    · exact inline_cons.2 ⟨by decide, inline_upperHexDigits _ _⟩
  all_goals exact inline_cons.2 ⟨by decide, inline_nil⟩

theorem common_turn (indent : Nat) (next : Option Char) : Common (turn indent next) := by
  have hspace : Common (if next = some ' ' then ['\\'] else []) := by
    split
    · exact common_cons.2 ⟨by decide, common_nil⟩
    · exact common_nil
  exact common_append.2 ⟨common_cons.2 ⟨by decide, common_cons.2 ⟨by decide, common_blanks indent⟩⟩, hspace⟩

theorem common_writeEscaped (indent column : Nat) (isFirst afterEscape : Bool) (cs : List Char) :
    Common (writeEscaped indent column isFirst afterEscape cs) := by
  fun_induction writeEscaped indent column isFirst afterEscape cs with
  | case1 => exact common_nil
  | case2 column isFirst afterEscape c rest mayTurn hplain hturn ih =>
    have hc : isCommon c = true := by simp_all [isCommon]
    exact common_append.2 ⟨common_turn indent _, common_cons.2 ⟨hc, ih⟩⟩
  | case3 column isFirst afterEscape c rest mayTurn hplain hturn ih =>
    have hc : isCommon c = true := by simp_all [isCommon]
    exact common_cons.2 ⟨hc, ih⟩
  | case4 column isFirst afterEscape c rest mayTurn hplain piece after hturn ih =>
    exact common_append.2 ⟨common_append.2 ⟨(inline_escape c).common, common_turn indent _⟩, ih⟩
  | case5 column isFirst afterEscape c rest mayTurn hplain piece after hturn ih =>
    exact common_append.2 ⟨(inline_escape c).common, ih⟩

/-- What holds of a text without an escape. -/
theorem of_style_ne_double {text : String} (hstyle : style text ≠ .double) :
    Common text.toList ∧ hasPair ' ' '\n' text.toList = false ∧ hasPair '\n' ' ' text.toList = false := by
  unfold style at hstyle
  simp only at hstyle
  split at hstyle
  · exact absurd rfl hstyle
  · rename_i hcommon
    simp only [Bool.or_eq_true, not_or, Bool.not_eq_true, List.any_eq_false] at hcommon
    refine ⟨fun c hc => ?_, hcommon.1.1, hcommon.1.2⟩
    simpa [isCommon, or_iff_not_imp_left] using hcommon.2 c hc

/-- What holds of a text that is written as it is. -/
structure IsPlain (text : String) : Prop where
  ne_empty : text ≠ ""
  common : Common text.toList
  oneLine : '\n' ∉ text.toList
  head : text.toList.head? ≠ some ' '
  last : text.toList.getLast? ≠ some ' '
  unmarked : startsMarked text.toList = false
  noMark : hasMark text.toList = false

theorem isPlain_of_style {text : String} (hstyle : style text = .plain) : IsPlain text ∧ Tag.ofPlain text = .str := by
  have hdouble : style text ≠ .double := by
    rw [hstyle]
    decide
  obtain ⟨hcommon, -, -⟩ := of_style_ne_double hdouble
  unfold style at hstyle
  simp only at hstyle
  split at hstyle
  · cases hstyle
  · split at hstyle
    · cases hstyle
    · rename_i hplain
      simp only [isEdge, Bool.or_eq_true, decide_eq_true_eq, not_or, List.contains_iff_mem, ne_eq, not_not,
        Bool.not_eq_true] at hplain
      obtain ⟨⟨⟨⟨⟨hstr, hbreak⟩, hhead⟩, hlast⟩, hmarked⟩, hmark⟩ := hplain
      have hne : text ≠ "" := by
        rintro rfl
        cases hstr
      exact ⟨⟨hne, hcommon, hbreak, hhead.1, hlast.1, hmarked, hmark⟩, hstr⟩

theorem common_doubleQuote {c : Char} (hc : isCommon c = true) : Common (doubleQuote c) := by
  unfold doubleQuote
  split
  · exact common_cons.2 ⟨by decide, common_cons.2 ⟨by decide, common_nil⟩⟩
  · exact common_cons.2 ⟨hc, common_nil⟩

theorem common_writeText (indent column : Nat) (text : String) : Common (writeText indent column text) := by
  have hquote : ∀ quote, isCommon quote = true → Common [quote] := fun quote h => common_cons.2 ⟨h, common_nil⟩
  unfold writeText
  cases hstyle : style text with
  | plain =>
    refine common_writeRuns (fun c hc => hquote c hc) _ _ _ ?_
    rw [flatten_runs]
    exact (of_style_ne_double (by rw [hstyle]; decide)).1
  | single =>
    refine common_cons.2 ⟨by decide, common_append.2 ⟨common_writeRuns (fun _ => common_doubleQuote) _ _ _ ?_, hquote _ (by decide)⟩⟩
    rw [flatten_runs]
    exact (of_style_ne_double (by rw [hstyle]; decide)).1
  | double => exact common_cons.2 ⟨by decide, common_append.2 ⟨common_writeEscaped _ _ _ _ _, hquote _ (by decide)⟩⟩

theorem isPrintable_iff {c : Char} : isPrintable c = true ↔ 32 ≤ c.toNat ∧ c.toNat ≤ 126 := by
  simp only [isPrintable, Bool.and_eq_true, decide_eq_true_eq]
  exact Iff.rfl

theorem isPrintable_of_isAlphanum {c : Char} (hc : c.isAlphanum = true) : isPrintable c = true := by
  have hdigit : '0'.toNat = 48 ∧ '9'.toNat = 57 := by decide
  have hupper : 'A'.toNat = 65 ∧ 'Z'.toNat = 90 := by decide
  have hlower : 'a'.toNat = 97 ∧ 'z'.toNat = 122 := by decide
  have hranges : c.isAlphanum = ((decide (c.val ≥ 'A'.val ∧ c.val ≤ 'Z'.val) ||
    (decide (c.val ≥ 'a'.val) && decide (c.val ≤ 'z'.val))) || (decide (c.val ≥ '0'.val) && decide (c.val ≤ '9'.val))) := rfl
  simp only [hranges, Bool.or_eq_true, Bool.and_eq_true, decide_eq_true_eq, UInt32.le_iff_toNat_le, ge_iff_le] at hc
  change (('A'.toNat ≤ c.toNat ∧ c.toNat ≤ 'Z'.toNat) ∨ ('a'.toNat ≤ c.toNat ∧ c.toNat ≤ 'z'.toNat)) ∨
    ('0'.toNat ≤ c.toNat ∧ c.toNat ≤ '9'.toNat) at hc
  rw [isPrintable_iff]
  omega

theorem isPrintable_of_isPlainChar {c : Char} (hc : isPlainChar c = true) : isPrintable c = true := by
  rw [isPlainChar, Bool.or_eq_true, decide_eq_true_eq] at hc
  rcases hc with halpha | rfl
  · exact isPrintable_of_isAlphanum halpha
  · decide

theorem inline_of_isName {name : String} (hname : IsName name) : Inline name.toList :=
  fun c hc => isPrintable_of_isPlainChar (List.all_eq_true.1 hname.plain c hc)

theorem exists_cons_of_isName {name : String} (hname : IsName name) :
    ∃ x more, name.toList = x :: more ∧ isPlainChar x = true := by
  obtain ⟨x, more, hcons⟩ := List.exists_cons_of_ne_nil (l := name.toList) (by simpa using hname.ne_empty)
  exact ⟨x, more, hcons, List.all_eq_true.1 hname.plain x (by simp [hcons])⟩

theorem common_natDigits (n : Nat) : Common (Text.natDigits n) := by
  intro c hc
  have hdigit := Text.isDigit_of_mem_natDigits hc
  simp [isCommon, isPrintable_of_isAlphanum (c := c) (by simp [Char.isAlphanum, hdigit])]

theorem common_intText (n : Int) : Common (Text.intText n).toList := by
  cases n with
  | ofNat n => simpa [Text.intText, Text.natText] using common_natDigits n
  | negSucc n => simpa [Text.intText, common_cons, isCommon, isPrintable] using common_natDigits (n + 1)

mutual

theorem common_writeEntry {depth indent column : Nat} (e : Entry) (he : e.WellFormed depth) :
    Common (writeEntry indent column e) := by
  match e, he with
  | .text s, _ =>
    rw [writeEntry]
    exact common_append.2 ⟨common_cons.2 ⟨by decide, common_writeText _ _ s⟩, common_replicate (by decide) 1⟩
  | .int n, _ =>
    rw [writeEntry]
    exact common_append.2 ⟨common_cons.2 ⟨by decide, common_intText n⟩, common_replicate (by decide) 1⟩
  | .bool true, _ | .bool false, _ => simp [writeEntry, common_cons, common_nil, isCommon, isPrintable]
  | .group [], he => exact absurd rfl he.2.1
  | .group (first :: rest), he =>
    rw [writeEntry]
    exact common_cons.2 ⟨by decide, common_writeEntries (first :: rest) he.2.2.2⟩

theorem common_writeEntries {depth indent : Nat} (entries : List (String × Entry))
    (hentries : Entry.AllWellFormed depth entries) : Common (writeEntries indent entries) := by
  match entries, hentries with
  | [], _ => exact common_nil
  | (name, e) :: rest, ⟨hname, he, hrest⟩ =>
    rw [writeEntries]
    exact common_append.2 ⟨common_append.2 ⟨common_append.2 ⟨common_blanks indent, (inline_of_isName hname).common⟩,
      common_cons.2 ⟨by decide, common_writeEntry e he⟩⟩, common_writeEntries rest hrest⟩

end

end Writer

theorem toList_write (entries : List (String × Entry)) : (write entries).toList = Writer.writeEntries 0 entries :=
  String.toList_ofList

end TagTypes.Yaml
