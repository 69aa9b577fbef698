import Mathlib.Tactic
import TagTypes.Proofs.Json.Consumption

/-!
# Beginnings of texts

What the reader makes of a text does not depend on what follows, up to the place where it stops: a value with a mark behind it is found in every longer text, and where lists and objects lie too deep, they do so in every longer text. So a beginning of a text that can be read may be malformed, but nothing in it lies too deep.
-/

namespace TagTypes.Json

open Reader

variable {cs rest more : List Char} {c : Char} {v : Json}

/-! ### Tokens -/

theorem dropWhile_append_cons {p : Char → Bool} (hcs : cs.dropWhile p = c :: rest) (more : List Char) :
    (cs ++ more).dropWhile p = c :: (rest ++ more) := by
  rw [List.dropWhile_append, hcs]
  rfl

theorem skipSpace_append_cons (hcs : skipSpace cs = c :: rest) (more : List Char) :
    skipSpace (cs ++ more) = c :: (rest ++ more) :=
  dropWhile_append_cons hcs more

/-- Digits that end somewhere end there in a longer text as well. -/
theorem digits_append_cons {ds : List Char} (hcs : digits cs = (ds, c :: rest)) (more : List Char) :
    digits (cs ++ more) = (ds, c :: (rest ++ more)) := by
  obtain ⟨htake, hdrop⟩ := Prod.mk.inj hcs
  have hsplit := List.takeWhile_append_dropWhile (p := Char.isDigit) (l := cs)
  have hall : ∀ d ∈ ds, d.isDigit = true := htake ▸ isDigit_of_mem_digits
  have hstop : Char.isDigit c = false := by
    have hnot := List.head_dropWhile_not Char.isDigit (l := cs) (by simp [hdrop])
    simpa [hdrop] using hnot
  rw [← hsplit, htake, hdrop, List.append_assoc]
  exact digits_append hall (Text.stopsAt_cons.2 hstop)

theorem string_append {start : List Char} {s : String} (hs : string start cs = .ok (s, rest)) (more start' : List Char) :
    string start' (cs ++ more) = .ok (s, rest ++ more) := by
  obtain ⟨⟨units, after⟩, hunits, heq⟩ := bind_eq_ok hs
  cases heq
  obtain ⟨first, piece, rfl, -, hread⟩ := stringUnits_piece hunits
  rw [string, List.append_assoc, hread]
  rfl

theorem after?_eq_some_iff {word : List Char} : after? word cs = some rest ↔ cs = word ++ rest := by
  induction word generalizing cs with
  | nil => simp [after?, eq_comm]
  | cons w word ih =>
    cases cs with
    | nil => simp [after?]
    | cons d cs =>
      rw [after?, List.cons_append, List.cons.injEq]
      split
      · rename_i hsame
        rw [ih, and_iff_right hsame.symm]
      · rename_i hne
        refine ⟨fun hnone => ?_, fun heq => absurd heq.1.symm hne⟩
        cases hnone

theorem word?_append (hword : word? cs = some (v, rest)) (more : List Char) : word? (cs ++ more) = some (v, rest ++ more) := by
  have hwords : ∀ entry ∈ words, ∀ rest, word? (entry.1 ++ rest) = some (entry.2, rest) := by
    simp [words, word?, after?]
  obtain ⟨entry, hentry, hfound⟩ := List.exists_of_findSome?_eq_some hword
  obtain ⟨tail, htail, heq⟩ := Option.map_eq_some_iff.1 hfound
  cases heq
  rw [after?_eq_some_iff.1 htail, List.append_assoc, hwords entry hentry]

/-! ### Numbers -/

theorem wholePart_append_cons {whole : List Char} (hcs : wholePart cs = some (whole, c :: rest)) (more : List Char) :
    wholePart (cs ++ more) = some (whole, c :: (rest ++ more)) := by
  by_cases hzero : ∃ tail, cs = '0' :: tail
  · obtain ⟨tail, rfl⟩ := hzero
    cases hcs
    rfl
  · have hnone : ∀ tail, cs ≠ '0' :: tail := fun tail heq => hzero ⟨tail, heq⟩
    have hne : cs ≠ [] := by
      rintro rfl
      cases hcs
    have hnone' : ∀ tail, cs ++ more ≠ '0' :: tail := by
      obtain ⟨d, ds, rfl⟩ := List.exists_cons_of_ne_nil hne
      exact fun tail heq => hnone ds (by rw [(List.cons.inj heq).1])
    rw [wholePart.eq_2 _ hnone] at hcs
    rw [wholePart.eq_2 _ hnone']
    rcases hdigits : digits cs with ⟨ds, after⟩
    rw [hdigits] at hcs
    simp only at hcs
    split at hcs
    · cases hcs
    · rename_i hds
      cases hcs
      rw [digits_append_cons hdigits]
      simp only [hds]
      rfl

theorem exponent_append_cons {exp : List Char} (hcs : exponent cs = (exp, c :: rest)) (hc : isNumberChar c = false)
    (more : List Char) : exponent (cs ++ more) = (exp, c :: (rest ++ more)) := by
  have hstop : ∀ d tail, isNumberChar d = true → d :: tail ≠ c :: rest := by
    intro d tail hd heq
    rw [(List.cons.inj heq).1, hc] at hd
    cases hd
  by_cases hmark : ∃ d tail, (d = 'e' ∨ d = 'E') ∧ cs = d :: tail
  · obtain ⟨d, tail, hd, rfl⟩ := hmark
    have hnumber : isNumberChar d = true := by rcases hd with rfl | rfl <;> decide
    by_cases hsign : ∃ sign digs, (sign = '+' ∨ sign = '-') ∧ tail = sign :: digs
    · obtain ⟨sign, digs, hsign, rfl⟩ := hsign
      rw [exponent_signed hd hsign] at hcs
      rw [List.cons_append, List.cons_append, exponent_signed hd hsign]
      rcases hdigits : digits digs with ⟨ds, after⟩
      rw [hdigits] at hcs
      simp only at hcs
      split at hcs
      · exact absurd (Prod.mk.inj hcs).2 (hstop _ _ hnumber)
      · rename_i hds
        cases hcs
        rw [digits_append_cons hdigits, if_neg hds]
    · have hne : tail ≠ [] := by
        rintro rfl
        rw [show exponent [d] = ([], [d]) by rcases hd with rfl | rfl <;> rfl] at hcs
        exact hstop _ _ hnumber (Prod.mk.inj hcs).2
      obtain ⟨first, digs, rfl⟩ := List.exists_cons_of_ne_nil hne
      have hplus : ∀ extra digs', first :: (digs ++ extra) ≠ '+' :: digs' :=
        fun _ _ heq => hsign ⟨first, digs, Or.inl (List.cons.inj heq).1, rfl⟩
      have hminus : ∀ extra digs', first :: (digs ++ extra) ≠ '-' :: digs' :=
        fun _ _ heq => hsign ⟨first, digs, Or.inr (List.cons.inj heq).1, rfl⟩
      have hplus' := hplus []
      have hminus' := hminus []
      rw [List.append_nil] at hplus' hminus'
      rw [exponent_plain hd hplus' hminus'] at hcs
      rw [List.cons_append, List.cons_append, exponent_plain hd (hplus more) (hminus more), ← List.cons_append]
      rcases hdigits : digits (first :: digs) with ⟨ds, after⟩
      rw [hdigits] at hcs
      simp only at hcs
      split at hcs
      · exact absurd (Prod.mk.inj hcs).2 (hstop _ _ hnumber)
      · rename_i hds
        cases hcs
        rw [digits_append_cons hdigits, if_neg hds]
  · have hlower : ∀ tail, cs ≠ 'e' :: tail := fun tail heq => hmark ⟨_, _, Or.inl rfl, heq⟩
    have hupper : ∀ tail, cs ≠ 'E' :: tail := fun tail heq => hmark ⟨_, _, Or.inr rfl, heq⟩
    rw [exponent_none hlower hupper] at hcs
    cases hcs
    have hne : ∀ d, isNumberChar d = true → ∀ tail, c :: (rest ++ more) ≠ d :: tail := by
      intro d hd tail heq
      rw [← (List.cons.inj heq).1, hc] at hd
      cases hd
    exact exponent_none (hne 'e' (by decide)) (hne 'E' (by decide))

/-- The digits after a point, if what follows them does not stop the whole number too early. -/
theorem fraction_append_cons {frac : List Char} (hcs : fraction cs = (frac, c :: rest)) (hc : c ≠ '.') (more : List Char) :
    fraction (cs ++ more) = (frac, c :: (rest ++ more)) := by
  by_cases hpoint : ∃ tail, cs = '.' :: tail
  · obtain ⟨tail, rfl⟩ := hpoint
    rcases hdigits : digits tail with ⟨ds, after⟩
    rw [fraction, hdigits] at hcs
    rw [List.cons_append, fraction]
    simp only at hcs
    split at hcs
    · exact absurd (List.cons.inj (Prod.mk.inj hcs).2).1.symm hc
    · rename_i hds
      cases hcs
      simp only [digits_append_cons hdigits, if_neg hds]
  · have hnone : ∀ tail, cs ≠ '.' :: tail := fun tail heq => hpoint ⟨tail, heq⟩
    rw [fraction.eq_2 _ hnone] at hcs
    cases hcs
    exact fraction.eq_2 _ fun tail heq => hc (List.cons.inj heq).1

/-- A number begins with a digit, or with a sign and a digit. -/
theorem exists_digit_of_number (hcs : number cs = .ok (v, rest)) :
    ∃ negative d tail, cs = Binary64.sign negative ++ d :: tail ∧ d.isDigit = true := by
  obtain ⟨negative, body, hsign⟩ := exists_unsigned cs
  rw [number_unsigned hsign] at hcs
  cases hwhole : wholePart body with
  | none =>
    rw [hwhole] at hcs
    cases hcs
  | some found =>
    obtain ⟨d, tail, rfl, hd⟩ : ∃ d tail, body = d :: tail ∧ d.isDigit = true := by
      cases body with
      | nil => cases hwhole
      | cons d tail =>
        refine ⟨d, tail, rfl, ?_⟩
        by_cases hzero : d = '0'
        · rw [hzero]
          rfl
        · by_contra hd
          rw [wholePart.eq_2 _ fun rest heq => hzero (List.cons.inj heq).1, digits, List.takeWhile_cons_of_neg hd] at hwhole
          cases hwhole
    rcases hsign with ⟨rfl, rfl⟩ | ⟨-, rfl, rfl⟩
    · exact ⟨true, d, tail, rfl, hd⟩
    · exact ⟨false, d, tail, rfl, hd⟩

/-- A number that ends before another character is the same number in a longer text. -/
theorem number_append_cons (hcs : number cs = .ok (v, c :: rest)) (hc : isNumberChar c = false) (more : List Char) :
    number (cs ++ more) = .ok (v, c :: (rest ++ more)) := by
  obtain ⟨d, tail, hlead⟩ : ∃ d tail, cs = d :: tail := by
    obtain ⟨negative, d, tail, rfl, -⟩ := exists_digit_of_number hcs
    cases negative with
    | true => exact ⟨'-', d :: tail, rfl⟩
    | false => exact ⟨d, tail, rfl⟩
  obtain ⟨negative, body, hsign⟩ := exists_unsigned cs
  have hsign' : cs ++ more = '-' :: (body ++ more) ∧ negative = true ∨
      (∀ rest, cs ++ more ≠ '-' :: rest) ∧ cs ++ more = body ++ more ∧ negative = false := by
    rcases hsign with ⟨rfl, rfl⟩ | ⟨hplain, rfl, rfl⟩
    · exact Or.inl ⟨rfl, rfl⟩
    · refine Or.inr ⟨fun rest heq => hplain tail ?_, rfl, rfl⟩
      rw [hlead, List.cons_append] at heq
      rw [hlead, (List.cons.inj heq).1]
  rcases hwhole : wholePart body with _ | ⟨whole, after⟩
  · rw [number_unsigned hsign, hwhole] at hcs
    cases hcs
  · rcases hfraction : fraction after with ⟨frac, behind⟩
    rcases hexponent : exponent behind with ⟨exp, last⟩
    rw [number_eq_numberOf hsign hwhole hfraction hexponent] at hcs
    obtain ⟨w, hw, heq⟩ := map_eq_ok_iff.1 hcs
    cases heq
    -- each part ends before a character, since the last one does
    obtain ⟨e, behind, rfl, he⟩ : ∃ e tail, behind = e :: tail ∧ e ≠ '.' := by
      cases behind with
      | nil => cases hexponent
      | cons e tail =>
        refine ⟨e, tail, rfl, ?_⟩
        rintro rfl
        cases hexponent
        cases hc
    obtain ⟨a, after, rfl⟩ : ∃ a tail, after = a :: tail := by
      cases after with
      | nil => cases hfraction
      | cons a tail => exact ⟨a, tail, rfl⟩
    rw [number_eq_numberOf hsign' (wholePart_append_cons hwhole more) (fraction_append_cons hfraction he more)
      (exponent_append_cons hexponent hc more), hw]
    rfl

theorem word?_of_number (hcs : number cs = .ok (v, rest)) (more : List Char) : word? (cs ++ more) = none := by
  obtain ⟨negative, d, tail, rfl, hd⟩ := exists_digit_of_number hcs
  rw [List.append_assoc]
  exact word?_of_isDigit hd negative _

/-! ### Tokens do not lie deep -/

theorem stringUnits_ne_tooDeep (start cs : List Char) (collection : String) : stringUnits start cs ≠ .error (.tooDeep collection) := by
  fun_induction stringUnits start cs with
  | case1 | case2 | case3 | case5 | case6 | case8 | case9 =>
    intro hdeep
    cases hdeep
  | case4 _ _ _ _ _ _ _ _ ih | case7 _ _ _ _ _ _ ih | case10 _ _ _ _ _ _ _ _ ih =>
    rw [Ne, bind_eq_error_iff]
    rintro (hdeep | ⟨found, -, hfound⟩)
    · exact ih hdeep
    · cases hfound

theorem string_ne_tooDeep (start cs : List Char) (collection : String) : string start cs ≠ .error (.tooDeep collection) := by
  rw [string, Ne, bind_eq_error_iff]
  rintro (hdeep | ⟨found, -, hfound⟩)
  · exact stringUnits_ne_tooDeep _ _ _ hdeep
  · cases hfound

theorem number_ne_tooDeep (cs : List Char) (collection : String) : number cs ≠ .error (.tooDeep collection) := by
  obtain ⟨negative, body, hsign⟩ := exists_unsigned cs
  rcases hwhole : wholePart body with _ | ⟨whole, after⟩
  · rw [number_unsigned hsign, hwhole]
    intro hdeep
    cases hdeep
  · rcases hfraction : fraction after with ⟨frac, behind⟩
    rcases hexponent : exponent behind with ⟨exp, last⟩
    rw [number_eq_numberOf hsign hwhole hfraction hexponent, numberOf]
    split
    · split <;> simp [Except.map]
    · simp [Except.map]

/-! ### Values -/

/-- The reader finds in a longer text, with at least as much fuel, what it finds in a text: a value that ends before a character that goes on with no number, and items or fields up to their closing bracket. -/
structure ReadLonger (fuel : ℕ) : Prop where
  value : ∀ {depth cs v c rest}, Reader.value fuel depth cs = .ok (v, c :: rest) → isNumberChar c = false →
    ∀ extra more, Reader.value (fuel + extra) depth (cs ++ more) = .ok (v, c :: (rest ++ more))
  items : ∀ {depth cs vs rest}, Reader.items fuel depth cs = .ok (vs, rest) →
    ∀ extra more, Reader.items (fuel + extra) depth (cs ++ more) = .ok (vs, rest ++ more)
  fields : ∀ {depth cs fs rest}, Reader.fields fuel depth cs = .ok (fs, rest) →
    ∀ extra more, Reader.fields (fuel + extra) depth (cs ++ more) = .ok (fs, rest ++ more)

/-- What is too deep for the reader is too deep in a longer text, with at least as much fuel. -/
structure DeepLonger (fuel : ℕ) : Prop where
  value : ∀ {depth cs collection}, Reader.value fuel depth cs = .error (.tooDeep collection) →
    ∀ extra more, Reader.value (fuel + extra) depth (cs ++ more) = .error (.tooDeep collection)
  items : ∀ {depth cs collection}, Reader.items fuel depth cs = .error (.tooDeep collection) →
    ∀ extra more, Reader.items (fuel + extra) depth (cs ++ more) = .error (.tooDeep collection)
  fields : ∀ {depth cs collection}, Reader.fields fuel depth cs = .error (.tooDeep collection) →
    ∀ extra more, Reader.fields (fuel + extra) depth (cs ++ more) = .error (.tooDeep collection)

theorem value_nil (fuel depth : ℕ) : Reader.value fuel depth [] = .error (.fault .expectingValue []) := by
  cases fuel <;> rfl

theorem items_nil (fuel depth : ℕ) : Reader.items fuel depth [] = .error (.fault .expectingValue []) := by
  cases fuel with
  | zero => rfl
  | succ fuel => exact items_stop (value_nil fuel depth)

theorem fields_nil (fuel depth : ℕ) : Reader.fields fuel depth [] = .error (.fault .expectingName []) := by
  cases fuel <;> rfl

/-- Behind a value stands a blank or a mark, if a mark follows it behind blanks. -/
theorem exists_cons_of_skipSpace (hcs : skipSpace cs = c :: rest) (hc : isNumberChar c = false) :
    ∃ d tail, cs = d :: tail ∧ isNumberChar d = false := by
  cases cs with
  | nil => cases hcs
  | cons d tail =>
    refine ⟨d, tail, rfl, ?_⟩
    by_cases hspace : isSpace d = true
    · exact isNumberChar_of_isSpace hspace
    · rw [skipSpace, List.dropWhile_cons_of_neg hspace] at hcs
      rwa [(List.cons.inj hcs).1]

/-- There is something behind the blanks, if what is found there is not what is found in an empty text. -/
theorem exists_skipSpace_cons {α : Type} {f : List Char → α} {found : α} (hnil : f [] ≠ found) (hfound : f (skipSpace cs) = found) :
    ∃ d ds, skipSpace cs = d :: ds ∧ f (d :: ds) = found := by
  cases hskip : skipSpace cs with
  | nil =>
    rw [hskip] at hfound
    exact absurd hfound hnil
  | cons d ds => exact ⟨d, ds, rfl, by rw [← hskip, hfound]⟩

section Steps

variable {fuel depth : ℕ}

section Found

variable (ih : ReadLonger fuel)
include ih

/-- A value with a mark behind it is found in a longer text, and the mark as well. -/
theorem ReadLonger.value_marked {mark : Char} {tail : List Char} (hv : Reader.value fuel depth cs = .ok (v, rest))
    (hrest : skipSpace rest = mark :: tail) (hmark : isNumberChar mark = false) (extra : ℕ) (more : List Char) :
    ∃ rest', Reader.value (fuel + extra) depth (cs ++ more) = .ok (v, rest') ∧ skipSpace rest' = mark :: (tail ++ more) := by
  obtain ⟨d, after, rfl, hd⟩ := exists_cons_of_skipSpace hrest hmark
  exact ⟨_, ih.value hv hd extra more, skipSpace_append_cons hrest more⟩

theorem ReadLonger.value_succ (hv : Reader.value (fuel + 1) depth cs = .ok (v, c :: rest)) (hc : isNumberChar c = false)
    (extra : ℕ) (more : List Char) : Reader.value (fuel + extra + 1) depth (cs ++ more) = .ok (v, c :: (rest ++ more)) := by
  unfold Reader.value at hv
  split at hv
  · obtain ⟨⟨s, after⟩, hstring, hs⟩ := bind_eq_ok hv
    cases hs
    rw [List.cons_append, value_string, string_append hstring]
    rfl
  · split at hv
    · cases hv
    · split at hv
      · rename_i hclosed
        cases hv
        exact value_array_empty (skipSpace_append_cons hclosed more)
      · rename_i tail _ depth _ hopen
        obtain ⟨⟨vs, after⟩, hvs, heq⟩ := bind_eq_ok hv
        cases heq
        obtain ⟨d, ds, hskip, hvs⟩ := exists_skipSpace_cons (f := Reader.items fuel depth) (by simp [items_nil]) hvs
        rw [List.cons_append, value_array (skipSpace_append_cons hskip more) fun hd => hopen ds (by rw [hskip, hd]),
          ← List.cons_append, ih.items hvs]
        rfl
  · split at hv
    · cases hv
    · split at hv
      · rename_i hclosed
        cases hv
        exact value_object_empty (skipSpace_append_cons hclosed more)
      · rename_i tail _ depth _ hopen
        obtain ⟨⟨fs, after⟩, hfs, heq⟩ := bind_eq_ok hv
        cases heq
        obtain ⟨d, ds, hskip, hfs⟩ := exists_skipSpace_cons (f := Reader.fields fuel depth) (by simp [fields_nil]) hfs
        rw [List.cons_append, value_object (skipSpace_append_cons hskip more) fun hd => hopen ds (by rw [hskip, hd]),
          ← List.cons_append, ih.fields hfs]
        rfl
  · rename_i hquote hlist hobject
    cases cs with
    | nil => cases hv
    | cons d tail =>
      have hne : d ≠ '"' ∧ d ≠ '[' ∧ d ≠ '{' :=
        ⟨fun heq => hquote tail (by rw [heq]), fun heq => hlist tail (by rw [heq]), fun heq => hobject tail (by rw [heq])⟩
      rw [List.cons_append, value_of_word hne.1 hne.2.1 hne.2.2, ← List.cons_append]
      cases hfound : word? (d :: tail) with
      | some found =>
        rw [hfound] at hv
        cases hv
        rw [word?_append hfound]
        rfl
      | none =>
        rw [hfound] at hv
        simp only at hv
        rw [word?_of_number hv]
        exact number_append_cons hv hc more

theorem ReadLonger.items_succ {vs : List Json} (hvs : Reader.items (fuel + 1) depth cs = .ok (vs, rest)) (extra : ℕ)
    (more : List Char) : Reader.items (fuel + extra + 1) depth (cs ++ more) = .ok (vs, rest ++ more) := by
  rw [Reader.items] at hvs
  obtain ⟨⟨v, after⟩, hv, hvs⟩ := bind_eq_ok hvs
  simp only at hvs
  split at hvs
  · rename_i hlast
    cases hvs
    obtain ⟨after', hv', hlast'⟩ := ih.value_marked hv hlast (by decide) extra more
    exact items_last hv' hlast'
  · rename_i tail hnext
    obtain ⟨⟨others, last⟩, hothers, heq⟩ := bind_eq_ok hvs
    cases heq
    obtain ⟨after', hv', hnext'⟩ := ih.value_marked hv hnext (by decide) extra more
    obtain ⟨d, ds, hskip, hothers⟩ := exists_skipSpace_cons (f := Reader.items fuel depth) (by simp [items_nil]) hothers
    rw [items_more hv' hnext', skipSpace_append_cons hskip, ← List.cons_append, ih.items hothers]
    rfl
  · cases hvs

theorem ReadLonger.fields_succ {fs : List (String × Json)} (hfs : Reader.fields (fuel + 1) depth cs = .ok (fs, rest))
    (extra : ℕ) (more : List Char) : Reader.fields (fuel + extra + 1) depth (cs ++ more) = .ok (fs, rest ++ more) := by
  rw [Reader.fields.eq_def] at hfs
  simp only at hfs
  split at hfs
  · obtain ⟨⟨name, after⟩, hname, hfs⟩ := bind_eq_ok hfs
    simp only at hfs
    split at hfs
    · rename_i tail hcolon
      obtain ⟨⟨v, behind⟩, hv, hfs⟩ := bind_eq_ok hfs
      obtain ⟨d, ds, hskip, hv⟩ := exists_skipSpace_cons (f := Reader.value fuel depth) (by simp [value_nil]) hv
      have hname' := string_append hname more
      have hcolon' := skipSpace_append_cons hcolon more
      have hskip' := skipSpace_append_cons hskip more
      simp only at hfs
      split at hfs
      · rename_i hlast
        cases hfs
        obtain ⟨behind', hv', hlast'⟩ := ih.value_marked hv hlast (by decide) extra more
        rw [List.cons_append, ← hskip'] at hv'
        exact fields_last (hname' _) hcolon' hv' hlast'
      · rename_i tail' hnext
        obtain ⟨⟨others, last⟩, hothers, heq⟩ := bind_eq_ok hfs
        cases heq
        obtain ⟨behind', hv', hnext'⟩ := ih.value_marked hv hnext (by decide) extra more
        rw [List.cons_append, ← hskip'] at hv'
        obtain ⟨e, es, hskip₂, hothers⟩ := exists_skipSpace_cons (f := Reader.fields fuel depth) (by simp [fields_nil]) hothers
        rw [List.cons_append, fields_more (hname' _) hcolon' hv' hnext', skipSpace_append_cons hskip₂, ← List.cons_append,
          ih.fields hothers]
        rfl
      · cases hfs
    · cases hfs
  · cases hfs

end Found

section Deep

variable (ih : DeepLonger fuel) (hread : ReadLonger fuel) {collection : String}
include ih

theorem DeepLonger.value_succ (hdeep : Reader.value (fuel + 1) depth cs = .error (.tooDeep collection)) (extra : ℕ)
    (more : List Char) : Reader.value (fuel + extra + 1) depth (cs ++ more) = .error (.tooDeep collection) := by
  unfold Reader.value at hdeep
  split at hdeep
  · rcases bind_eq_error_iff.1 hdeep with hstring | ⟨found, -, hfound⟩
    · exact absurd hstring (string_ne_tooDeep _ _ _)
    · cases hfound
  · split at hdeep
    · cases hdeep
      exact value_array_zero
    · split at hdeep
      · cases hdeep
      · rename_i tail _ depth _ hopen
        rcases bind_eq_error_iff.1 hdeep with hitems | ⟨found, -, hfound⟩
        · obtain ⟨d, ds, hskip, hitems⟩ := exists_skipSpace_cons (f := Reader.items fuel depth) (by simp [items_nil]) hitems
          rw [List.cons_append, value_array (skipSpace_append_cons hskip more) fun hd => hopen ds (by rw [hskip, hd]),
            ← List.cons_append, ih.items hitems]
          rfl
        · cases hfound
  · split at hdeep
    · cases hdeep
      exact value_object_zero
    · split at hdeep
      · cases hdeep
      · rename_i tail _ depth _ hopen
        rcases bind_eq_error_iff.1 hdeep with hfields | ⟨found, -, hfound⟩
        · obtain ⟨d, ds, hskip, hfields⟩ := exists_skipSpace_cons (f := Reader.fields fuel depth) (by simp [fields_nil]) hfields
          rw [List.cons_append, value_object (skipSpace_append_cons hskip more) fun hd => hopen ds (by rw [hskip, hd]),
            ← List.cons_append, ih.fields hfields]
          rfl
        · cases hfound
  · split at hdeep
    · cases hdeep
    · exact absurd hdeep (number_ne_tooDeep _ _)

include hread

theorem DeepLonger.items_succ (hdeep : Reader.items (fuel + 1) depth cs = .error (.tooDeep collection)) (extra : ℕ)
    (more : List Char) : Reader.items (fuel + extra + 1) depth (cs ++ more) = .error (.tooDeep collection) := by
  rw [Reader.items] at hdeep
  rcases bind_eq_error_iff.1 hdeep with hitem | ⟨⟨v, after⟩, hv, hdeep⟩
  · exact items_stop (ih.value hitem extra more)
  · simp only at hdeep
    split at hdeep
    · cases hdeep
    · rename_i tail hnext
      rcases bind_eq_error_iff.1 hdeep with hothers | ⟨found, -, hfound⟩
      · obtain ⟨after', hv', hnext'⟩ := hread.value_marked hv hnext (by decide) extra more
        obtain ⟨d, ds, hskip, hothers⟩ := exists_skipSpace_cons (f := Reader.items fuel depth) (by simp [items_nil]) hothers
        rw [items_more hv' hnext', skipSpace_append_cons hskip, ← List.cons_append, ih.items hothers]
        rfl
      · cases hfound
    · cases hdeep

theorem DeepLonger.fields_succ (hdeep : Reader.fields (fuel + 1) depth cs = .error (.tooDeep collection)) (extra : ℕ)
    (more : List Char) : Reader.fields (fuel + extra + 1) depth (cs ++ more) = .error (.tooDeep collection) := by
  rw [Reader.fields.eq_def] at hdeep
  simp only at hdeep
  split at hdeep
  · rcases bind_eq_error_iff.1 hdeep with hstring | ⟨⟨name, after⟩, hname, hdeep⟩
    · exact absurd hstring (string_ne_tooDeep _ _ _)
    · simp only at hdeep
      split at hdeep
      · rename_i tail hcolon
        have hname' := string_append hname more
        have hcolon' := skipSpace_append_cons hcolon more
        rcases bind_eq_error_iff.1 hdeep with hvalue | ⟨⟨v, behind⟩, hv, hdeep⟩
        · obtain ⟨d, ds, hskip, hvalue⟩ := exists_skipSpace_cons (f := Reader.value fuel depth) (by simp [value_nil]) hvalue
          have hvalue' := ih.value hvalue extra more
          rw [List.cons_append, ← skipSpace_append_cons hskip more] at hvalue'
          exact fields_stop (hname' _) hcolon' hvalue'
        · obtain ⟨d, ds, hskip, hv⟩ := exists_skipSpace_cons (f := Reader.value fuel depth) (by simp [value_nil]) hv
          simp only at hdeep
          split at hdeep
          · cases hdeep
          · rename_i tail' hnext
            rcases bind_eq_error_iff.1 hdeep with hothers | ⟨found, -, hfound⟩
            · obtain ⟨behind', hv', hnext'⟩ := hread.value_marked hv hnext (by decide) extra more
              rw [List.cons_append, ← skipSpace_append_cons hskip more] at hv'
              obtain ⟨e, es, hskip₂, hothers⟩ := exists_skipSpace_cons (f := Reader.fields fuel depth) (by simp [fields_nil]) hothers
              rw [List.cons_append, fields_more (hname' _) hcolon' hv' hnext', skipSpace_append_cons hskip₂,
                ← List.cons_append, ih.fields hothers]
              rfl
            · cases hfound
          · cases hdeep
      · cases hdeep
  · cases hdeep

end Deep

end Steps

theorem readLonger : ∀ fuel, ReadLonger fuel
  | 0 => by
    refine ⟨fun hv => ?_, fun hvs => ?_, fun hfs => ?_⟩
    · cases hv
    · cases hvs
    · cases hfs
  | fuel + 1 =>
    have ih := readLonger fuel
    { value := fun hv hc extra more => by
        rw [Nat.add_right_comm]
        exact ih.value_succ hv hc extra more
      items := fun hvs extra more => by
        rw [Nat.add_right_comm]
        exact ih.items_succ hvs extra more
      fields := fun hfs extra more => by
        rw [Nat.add_right_comm]
        exact ih.fields_succ hfs extra more }

theorem deepLonger : ∀ fuel, DeepLonger fuel
  | 0 => by
    refine ⟨fun hdeep => ?_, fun hdeep => ?_, fun hdeep => ?_⟩ <;> cases hdeep
  | fuel + 1 =>
    have ih := deepLonger fuel
    have hread := readLonger fuel
    { value := fun hdeep extra more => by
        rw [Nat.add_right_comm]
        exact ih.value_succ hdeep extra more
      items := fun hdeep extra more => by
        rw [Nat.add_right_comm]
        exact ih.items_succ hread hdeep extra more
      fields := fun hdeep extra more => by
        rw [Nat.add_right_comm]
        exact ih.fields_succ hread hdeep extra more }

/-! ### Texts -/

/-- In a beginning of a text that can be read, nothing lies too deep. -/
theorem document_ne_tooDeep_of_beginning {text more : List Char} (hread : document (text ++ more) = .ok v) (collection : String) :
    document text ≠ .error (.tooDeep collection) := by
  intro hdeep
  unfold document at hdeep
  split at hdeep
  · cases hdeep
  · rename_i hmark
    rcases bind_eq_error_iff.1 hdeep with hvalue | ⟨⟨w, rest⟩, -, hrest⟩
    · obtain ⟨c, rest, hskip, hvalue⟩ :=
        exists_skipSpace_cons (f := Reader.value (2 * text.length + 2) maxDepth) (by simp [value_nil]) hvalue
      have hne : ∀ tail, text ++ more ≠ '\ufeff' :: tail := by
        cases text with
        | nil => cases hskip
        | cons d ds => exact fun tail heq => hmark ds (by rw [(List.cons.inj heq).1])
      have hlonger := (deepLonger _).value hvalue (2 * more.length) more
      have hfuel : 2 * text.length + 2 + 2 * more.length = 2 * (text ++ more).length + 2 := by
        rw [List.length_append]
        omega
      rw [document.eq_2 _ hne, skipSpace_append_cons hskip, ← List.cons_append, ← hfuel, hlonger] at hread
      cases hread
    · simp only at hrest
      split at hrest <;> cases hrest

theorem read_ne_tooDeep_of_beginning {text start : String} (hread : read text = .ok v) (hstart : start.toList <+: text.toList)
    (collection : String) : read start ≠ .error (.tooDeep collection) := by
  obtain ⟨more, hmore⟩ := hstart
  unfold read at hread ⊢
  cases hdocument : document text.toList with
  | error stop =>
    rw [hdocument] at hread
    cases hread
  | ok w =>
    rw [← hmore] at hdocument
    cases hbeginning : document start.toList with
    | ok u =>
      intro hdeep
      cases hdeep
    | error stop =>
      intro hdeep
      cases stop with
      | fault fault rest => cases hdeep
      | tooManyDigits digits => cases hdeep
      | tooDeep other => exact document_ne_tooDeep_of_beginning hdocument other hbeginning

end TagTypes.Json
