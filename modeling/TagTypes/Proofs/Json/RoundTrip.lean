import Mathlib.Tactic
import TagTypes.Proofs.Json.Layout

/-!
# Written values read back

Reading a written value gives the value `reread` says, whatever the layout: the value itself, unless a whole number in it has too many digits, lists and objects in it lie too deep, a floating point number in it is not in its one form, or an object in it has two fields of one name. A value that reading has given is none of these, so it always reads back as itself.
-/

namespace TagTypes.Json

open Reader Printer
open Text (StopsAt natDigits)

/-! ### What is read -/

/-- The number that the text of a number is read as. -/
def rereadReal : Binary64 → Binary64
  | .finite negative mantissa exponent =>
    Binary64.readDecimal (Binary64.print numberStyle (.finite negative mantissa exponent))
  | x => x

mutual

/-- What reading gives for the text of a value, if it may be nested at most `depth` deep. -/
def reread (depth : ℕ) : Json → Except Stop Json
  | .int n =>
    if (natDigits n.natAbs).length ≤ Text.maxDigits then .ok (.int n)
    else .error (.tooManyDigits (natDigits n.natAbs).length)
  | .real x => .ok (.real (rereadReal x))
  | .arr items =>
    match depth with
    | 0 => .error (.tooDeep "array")
    | depth + 1 => (rereadItems depth items).map .arr
  | .obj fields =>
    match depth with
    | 0 => .error (.tooDeep "object")
    | depth + 1 => (rereadFields depth fields).map ofFields
  | v => .ok v

def rereadItems (depth : ℕ) : List Json → Except Stop (List Json)
  | [] => .ok []
  | v :: rest => do
    let v ← reread depth v
    let rest ← rereadItems depth rest
    return v :: rest

def rereadFields (depth : ℕ) : List (String × Json) → Except Stop (List (String × Json))
  | [] => .ok []
  | (name, v) :: rest => do
    let v ← reread depth v
    let rest ← rereadFields depth rest
    return (name, v) :: rest

end

/-! ### One step of the reader -/

theorem skipSpace_append {blanks rest : List Char} (hblanks : ∀ c ∈ blanks, isSpace c = true)
    (hrest : StopsAt isSpace rest) : skipSpace (blanks ++ rest) = rest :=
  Text.dropWhile_append_of_stopsAt hblanks hrest

section Steps

variable {fuel depth : ℕ} {c : Char} {cs rest : List Char}

theorem value_string : value (fuel + 1) depth ('"' :: cs) =
    (string ('"' :: cs) cs).map fun found => (.str found.1, found.2) := by
  rw [value.eq_def]
  simp only
  cases string ('"' :: cs) cs <;> rfl

theorem value_array_zero : value (fuel + 1) 0 ('[' :: cs) = .error (.tooDeep "array") := by
  rw [value.eq_def]
  rfl

theorem value_object_zero : value (fuel + 1) 0 ('{' :: cs) = .error (.tooDeep "object") := by
  rw [value.eq_def]
  rfl

theorem value_array_empty (hcs : skipSpace cs = ']' :: rest) :
    value (fuel + 1) (depth + 1) ('[' :: cs) = .ok (.arr [], rest) := by
  rw [value.eq_def]
  simp only [hcs]

theorem value_object_empty (hcs : skipSpace cs = '}' :: rest) :
    value (fuel + 1) (depth + 1) ('{' :: cs) = .ok (.obj [], rest) := by
  rw [value.eq_def]
  simp only [hcs]

theorem value_array (hcs : skipSpace cs = c :: rest) (hc : c ≠ ']') :
    value (fuel + 1) (depth + 1) ('[' :: cs) =
      (items fuel depth (c :: rest)).map fun found => (.arr found.1, found.2) := by
  rw [value.eq_def]
  simp only [hcs]
  split
  · rename_i heq
    exact absurd (List.cons.inj heq).1 hc
  · cases items fuel depth (c :: rest) <;> rfl

theorem value_object (hcs : skipSpace cs = c :: rest) (hc : c ≠ '}') :
    value (fuel + 1) (depth + 1) ('{' :: cs) =
      (fields fuel depth (c :: rest)).map fun found => (ofFields found.1, found.2) := by
  rw [value.eq_def]
  simp only [hcs]
  split
  · rename_i heq
    exact absurd (List.cons.inj heq).1 hc
  · cases fields fuel depth (c :: rest) <;> rfl

end Steps

/-! ### How a written value begins -/

/-- A character that is no blank, closes no collection and marks no byte order. -/
def isOpening (c : Char) : Bool := !isSpace c && c ≠ ']' && c ≠ '}' && c ≠ '\ufeff'

theorem isOpening_of_isDigit {c : Char} (hc : c.isDigit = true) : isOpening c = true := by
  have hne {d : Char} (hd : d.isDigit = false) : c ≠ d := Binary64.isDigit_ne hc hd
  simp [isOpening, isSpace, hne (show (' ' : Char).isDigit = false by decide),
    hne (show ('\t' : Char).isDigit = false by decide), hne (show ('\n' : Char).isDigit = false by decide),
    hne (show ('\r' : Char).isDigit = false by decide), hne (show (']' : Char).isDigit = false by decide),
    hne (show ('}' : Char).isDigit = false by decide), hne (show ('\ufeff' : Char).isDigit = false by decide)]

theorem exists_opening_signed (negative : Bool) {n : Binary64.Numeral} (hn : n.WellFormed) :
    ∃ c cs, Binary64.sign negative ++ n.text = c :: cs ∧ isOpening c = true := by
  obtain ⟨c, cs, htext, hc⟩ := Binary64.exists_lead_signed negative hn
  refine ⟨c, cs, htext, ?_⟩
  rcases hc with rfl | hc
  · rfl
  · exact isOpening_of_isDigit hc

theorem wholeNumeral_text (n : ℕ) : (wholeNumeral n).text = natDigits n := by
  simp [wholeNumeral, Binary64.Numeral.text, Binary64.Numeral.fractionText, Binary64.Numeral.exponentText]

theorem Layout.exists_opening (L : Layout) (k : ℕ) (v : Json) :
    ∃ c cs, L.write k v = c :: cs ∧ isOpening c = true := by
  cases v with
  | null => exact ⟨'n', "ull".toList, rfl, rfl⟩
  | bool b => cases b with
    | false => exact ⟨'f', "alse".toList, rfl, rfl⟩
    | true => exact ⟨'t', "rue".toList, rfl, rfl⟩
  | int n =>
    rw [Layout.write, intText_toList, ← wholeNumeral_text]
    exact exists_opening_signed _ (wholeNumeral_wellFormed _)
  | real x =>
    rw [Layout.write]
    cases x with
    | nan => exact ⟨'N', "aN".toList, rfl, rfl⟩
    | infinite negative => cases negative with
      | false => exact ⟨'I', "nfinity".toList, rfl, rfl⟩
      | true => exact ⟨'-', "Infinity".toList, rfl, rfl⟩
    | finite negative mantissa exponent =>
      obtain ⟨n, hwell, -, htext, -⟩ := Binary64.exists_numeral_print numberStyle negative mantissa exponent
      rw [htext]
      exact exists_opening_signed negative hwell
  | str s => exact ⟨'"', _, by rw [Layout.write, quoted, List.cons_append], rfl⟩
  | arr items => cases items with
    | nil => exact ⟨'[', _, by rw [Layout.write], rfl⟩
    | cons v rest => exact ⟨'[', _, by rw [Layout.write], rfl⟩
  | obj fields => cases fields with
    | nil => exact ⟨'{', _, by rw [Layout.write], rfl⟩
    | cons f rest => exact ⟨'{', _, by rw [Layout.write], rfl⟩

/-! ### Numbers and words -/

section Leaves

variable {fuel depth : ℕ} {rest : List Char}

theorem value_null : value (fuel + 1) depth ("null".toList ++ rest) = .ok (.null, rest) := by
  change value (fuel + 1) depth ('n' :: 'u' :: 'l' :: 'l' :: rest) = _
  rw [value_of_word (by decide) (by decide) (by decide)]
  rfl

theorem value_bool (b : Bool) : value (fuel + 1) depth (boolText b ++ rest) = .ok (.bool b, rest) := by
  cases b with
  | true =>
    change value (fuel + 1) depth ('t' :: 'r' :: 'u' :: 'e' :: rest) = _
    rw [value_of_word (by decide) (by decide) (by decide)]
    rfl
  | false =>
    change value (fuel + 1) depth ('f' :: 'a' :: 'l' :: 's' :: 'e' :: rest) = _
    rw [value_of_word (by decide) (by decide) (by decide)]
    rfl

theorem value_nan : value (fuel + 1) depth (Binary64.print numberStyle .nan ++ rest) = .ok (.real .nan, rest) := by
  change value (fuel + 1) depth ('N' :: 'a' :: 'N' :: rest) = _
  rw [value_of_word (by decide) (by decide) (by decide)]
  rfl

theorem value_infinite (negative : Bool) :
    value (fuel + 1) depth (Binary64.print numberStyle (.infinite negative) ++ rest) =
      .ok (.real (.infinite negative), rest) := by
  cases negative with
  | true =>
    change value (fuel + 1) depth ('-' :: 'I' :: 'n' :: 'f' :: 'i' :: 'n' :: 'i' :: 't' :: 'y' :: rest) = _
    rw [value_of_word (by decide) (by decide) (by decide)]
    rfl
  | false =>
    change value (fuel + 1) depth ('I' :: 'n' :: 'f' :: 'i' :: 'n' :: 'i' :: 't' :: 'y' :: rest) = _
    rw [value_of_word (by decide) (by decide) (by decide)]
    rfl

theorem value_numeral (negative : Bool) {n : Binary64.Numeral} (hn : n.WellFormed) :
    value (fuel + 1) depth (Binary64.sign negative ++ n.text ++ rest) =
      number (Binary64.sign negative ++ n.text ++ rest) := by
  obtain ⟨c, cs, hwhole, hc⟩ := Binary64.Numeral.exists_whole_cons hn
  rw [List.append_assoc, text_append, hwhole, List.cons_append]
  exact value_of_isDigit hc negative _

theorem value_int (n : ℤ) (hrest : StopsAt isNumberChar rest) :
    value (fuel + 1) depth ((Text.intText n).toList ++ rest) =
      if (natDigits n.natAbs).length ≤ Text.maxDigits then .ok (.int n, rest)
      else .error (.tooManyDigits (natDigits n.natAbs).length) := by
  rw [← number_int n hrest, intText_toList, ← wholeNumeral_text]
  exact value_numeral _ (wholeNumeral_wellFormed _)

theorem value_real (x : Binary64) (hrest : StopsAt isNumberChar rest) :
    value (fuel + 1) depth (Binary64.print numberStyle x ++ rest) = .ok (.real (rereadReal x), rest) := by
  cases x with
  | nan => exact value_nan
  | infinite negative => exact value_infinite negative
  | finite negative mantissa exponent =>
    obtain ⟨n, hwell, hreal, htext, -⟩ := Binary64.exists_numeral_print numberStyle negative mantissa exponent
    rw [rereadReal, htext, value_numeral negative hwell, number_real negative hwell hreal hrest]

theorem value_str {char : Char → List Char} (hchar : ∀ c, Spells c (char c)) (s : String) :
    value (fuel + 1) depth (quoted char s ++ rest) = .ok (.str s, rest) := by
  rw [quoted, List.cons_append, List.cons_append, List.append_assoc, List.singleton_append, value_string,
    string_quoted hchar]
  rfl

end Leaves

/-! ### Items and fields -/

section Parts

variable {fuel depth : ℕ} {cs rest tail after last : List Char} {v : Json} {name : String} {stop : Stop}

theorem items_stop (hitem : value fuel depth cs = .error stop) : items (fuel + 1) depth cs = .error stop := by
  rw [items, hitem]
  rfl

theorem items_last (hitem : value fuel depth cs = .ok (v, rest)) (hrest : skipSpace rest = ']' :: tail) :
    items (fuel + 1) depth cs = .ok ([v], tail) := by
  rw [items, hitem]
  simp only [hrest, Bind.bind, Except.bind]
  rfl

theorem items_more (hitem : value fuel depth cs = .ok (v, rest)) (hrest : skipSpace rest = ',' :: tail) :
    items (fuel + 1) depth cs = (items fuel depth (skipSpace tail)).map fun found => (v :: found.1, found.2) := by
  rw [items, hitem]
  simp only [hrest, Bind.bind, Except.bind]
  cases items fuel depth (skipSpace tail) <;> rfl

theorem fields_stop (hname : string ('"' :: cs) cs = .ok (name, rest)) (hrest : skipSpace rest = ':' :: tail)
    (hvalue : value fuel depth (skipSpace tail) = .error stop) : fields (fuel + 1) depth ('"' :: cs) = .error stop := by
  rw [fields, hname]
  simp only [hrest, hvalue, Bind.bind, Except.bind]

theorem fields_last (hname : string ('"' :: cs) cs = .ok (name, rest))
    (hrest : skipSpace rest = ':' :: tail) (hvalue : value fuel depth (skipSpace tail) = .ok (v, after))
    (hafter : skipSpace after = '}' :: last) : fields (fuel + 1) depth ('"' :: cs) = .ok ([(name, v)], last) := by
  rw [fields, hname]
  simp only [hrest, hvalue, hafter, Bind.bind, Except.bind]
  rfl

theorem fields_more (hname : string ('"' :: cs) cs = .ok (name, rest))
    (hrest : skipSpace rest = ':' :: tail) (hvalue : value fuel depth (skipSpace tail) = .ok (v, after))
    (hafter : skipSpace after = ',' :: last) :
    fields (fuel + 1) depth ('"' :: cs) =
      (fields fuel depth (skipSpace last)).map fun found => ((name, v) :: found.1, found.2) := by
  rw [fields, hname]
  simp only [hrest, hvalue, hafter, Bind.bind, Except.bind]
  cases fields fuel depth (skipSpace last) <;> rfl

end Parts

/-! ### The whole value -/

theorem stopsAt_isSpace_opening {c : Char} {cs : List Char} (hc : isOpening c = true) : StopsAt isSpace (c :: cs) := by
  rw [Text.stopsAt_cons]
  simp only [isOpening, Bool.and_eq_true, Bool.not_eq_true'] at hc
  exact hc.1.1.1

theorem isNumberChar_of_isSpace {c : Char} (hc : isSpace c = true) : isNumberChar c = false := by
  simp only [isSpace, Bool.or_eq_true, decide_eq_true_eq] at hc
  rcases hc with ((rfl | rfl) | rfl) | rfl <;> decide

/-- No number goes on into blanks and a bracket. -/
theorem stopsAt_isNumberChar_close {blanks : List Char} (hblanks : ∀ c ∈ blanks, isSpace c = true) {c : Char}
    (hc : isNumberChar c = false) (rest : List Char) : StopsAt isNumberChar (blanks ++ c :: rest) := by
  cases blanks with
  | nil => exact Text.stopsAt_cons.2 hc
  | cons b blanks => exact Text.stopsAt_cons.2 (isNumberChar_of_isSpace (hblanks b (by simp)))

theorem ne_of_isOpening {c d : Char} (hc : isOpening c = true) (hd : isOpening d = false) : c ≠ d := by
  intro heq
  subst heq
  rw [hc] at hd
  exact Bool.noConfusion hd

theorem Layout.exists_opening_items (L : Layout) (k : ℕ) (v : Json) (rest : List Json) :
    ∃ c cs, L.writeItems k (v :: rest) = c :: cs ∧ isOpening c = true := by
  obtain ⟨c, cs, hcs, hc⟩ := L.exists_opening k v
  cases rest with
  | nil => exact ⟨c, cs, hcs, hc⟩
  | cons w rest =>
    refine ⟨c, cs ++ ',' :: (L.next k ++ L.writeItems k (w :: rest)), ?_, hc⟩
    simp [Layout.writeItems, hcs]

theorem Layout.exists_quote_fields (L : Layout) (k : ℕ) (f : String × Json) (rest : List (String × Json)) :
    ∃ cs, L.writeFields k (f :: rest) = '"' :: cs := by
  cases rest with
  | nil => exact ⟨_, by rw [Layout.writeFields, quoted, List.cons_append, List.cons_append]⟩
  | cons g rest =>
    refine ⟨f.1.toList.flatMap L.char ++ '"' :: ':' :: ' ' :: (L.write k f.2 ++ ',' :: (L.next k ++ L.writeFields k (g :: rest))), ?_⟩
    simp [Layout.writeFields, quoted]

theorem skipSpace_blank_write (L : Layout) (k : ℕ) (v : Json) (rest : List Char) :
    skipSpace (' ' :: (L.write k v ++ rest)) = L.write k v ++ rest := by
  obtain ⟨c, cs, hcs, hc⟩ := L.exists_opening k v
  rw [hcs]
  have hblank : ∀ b ∈ [' '], isSpace b = true := by simp [isSpace]
  exact skipSpace_append hblank (stopsAt_isSpace_opening hc)

section Whole

variable {L : Layout} (hL : L.Sound)

include hL

theorem skipSpace_close (k : ℕ) {c : Char} (hc : isSpace c = false) (rest : List Char) :
    skipSpace (L.close k ++ c :: rest) = c :: rest :=
  skipSpace_append (hL.close_blank k) (Text.stopsAt_cons.2 hc)

mutual

theorem value_write : ∀ (v : Json) (fuel depth k : ℕ) (rest : List Char),
    2 * (L.write k v).length ≤ fuel → StopsAt isNumberChar rest →
      value fuel depth (L.write k v ++ rest) = (reread depth v).map fun w => (w, rest)
  | v, 0, depth, k, rest, hfuel, _ => by
    obtain ⟨c, cs, hcs, -⟩ := L.exists_opening k v
    rw [hcs, List.length_cons] at hfuel
    omega
  | .null, fuel + 1, depth, k, rest, _, _ => by
    rw [Layout.write, value_null]
    rfl
  | .bool b, fuel + 1, depth, k, rest, _, _ => by
    rw [Layout.write, value_bool]
    rfl
  | .int n, fuel + 1, depth, k, rest, _, hrest => by
    rw [Layout.write, value_int n hrest, reread]
    split <;> rfl
  | .real x, fuel + 1, depth, k, rest, _, hrest => by
    rw [Layout.write, value_real x hrest]
    rfl
  | .str s, fuel + 1, depth, k, rest, _, _ => by
    rw [Layout.write, value_str hL.char_spells]
    rfl
  | .arr items, fuel + 1, 0, k, rest, _, _ => by
    cases items <;> rw [Layout.write, List.cons_append, value_array_zero] <;> rfl
  | .arr [], fuel + 1, depth + 1, k, rest, _, _ => by
    rw [Layout.write, List.cons_append, List.singleton_append,
      value_array_empty (show skipSpace (']' :: rest) = ']' :: rest from rfl)]
    rfl
  | .arr (v :: more), fuel + 1, depth + 1, k, rest, hfuel, _ => by
    obtain ⟨c, cs, hcs, hc⟩ := L.exists_opening_items (k + 1) v more
    simp only [Layout.write, List.length_cons, List.length_append] at hfuel
    have hitems := items_writeItems (v :: more) (List.cons_ne_nil v more) fuel depth (k + 1) (L.close k ++ ']' :: rest) rest
      (by omega) (stopsAt_isNumberChar_close (hL.close_blank k) (by decide) rest)
      (skipSpace_close hL k (by decide) rest)
    have hskip : skipSpace (L.first (k + 1) ++ (c :: (cs ++ (L.close k ++ ']' :: rest)))) = c :: (cs ++ (L.close k ++ ']' :: rest)) :=
      skipSpace_append (hL.first_blank _) (stopsAt_isSpace_opening hc)
    have htext : L.write k (.arr (v :: more)) ++ rest =
        '[' :: (L.first (k + 1) ++ (c :: (cs ++ (L.close k ++ ']' :: rest)))) := by
      simp [Layout.write, hcs]
    rw [hcs, List.cons_append] at hitems
    rw [htext, value_array hskip (ne_of_isOpening hc (by decide)), hitems, reread]
    cases rereadItems depth (v :: more) <;> rfl
  | .obj fields, fuel + 1, 0, k, rest, _, _ => by
    cases fields <;> rw [Layout.write, List.cons_append, value_object_zero] <;> rfl
  | .obj [], fuel + 1, depth + 1, k, rest, _, _ => by
    rw [Layout.write, List.cons_append, List.singleton_append,
      value_object_empty (show skipSpace ('}' :: rest) = '}' :: rest from rfl)]
    rfl
  | .obj (f :: more), fuel + 1, depth + 1, k, rest, hfuel, _ => by
    obtain ⟨cs, hcs⟩ := L.exists_quote_fields (k + 1) f more
    simp only [Layout.write, List.length_cons, List.length_append] at hfuel
    have hfields := fields_writeFields (f :: more) (List.cons_ne_nil f more) fuel depth (k + 1) (L.close k ++ '}' :: rest) rest
      (by omega) (stopsAt_isNumberChar_close (hL.close_blank k) (by decide) rest)
      (skipSpace_close hL k (by decide) rest)
    have hskip : skipSpace (L.first (k + 1) ++ ('"' :: (cs ++ (L.close k ++ '}' :: rest)))) = '"' :: (cs ++ (L.close k ++ '}' :: rest)) :=
      skipSpace_append (hL.first_blank _) (stopsAt_isSpace_opening (by decide))
    have htext : L.write k (.obj (f :: more)) ++ rest =
        '{' :: (L.first (k + 1) ++ ('"' :: (cs ++ (L.close k ++ '}' :: rest)))) := by
      simp [Layout.write, hcs]
    rw [hcs, List.cons_append] at hfields
    rw [htext, value_object hskip (by decide), hfields, reread]
    cases rereadFields depth (f :: more) <;> rfl

theorem items_writeItems : ∀ (vs : List Json), vs ≠ [] → ∀ (fuel depth k : ℕ) (tail rest : List Char),
    2 * (L.writeItems k vs).length + 1 ≤ fuel → StopsAt isNumberChar tail → skipSpace tail = ']' :: rest →
      items fuel depth (L.writeItems k vs ++ tail) = (rereadItems depth vs).map fun ws => (ws, rest)
  | [], hvs, _, _, _, _, _, _, _, _ => absurd rfl hvs
  | [v], _, fuel, depth, k, tail, rest, hfuel, hnumber, htail => by
    obtain ⟨fuel, rfl⟩ := Nat.exists_eq_add_one_of_ne_zero (show fuel ≠ 0 by omega)
    rw [Layout.writeItems] at hfuel ⊢
    have hitem := value_write v fuel depth k tail (by omega) hnumber
    rw [rereadItems]
    cases hread : reread depth v with
    | error stop =>
      rw [hread] at hitem
      rw [items_stop hitem]
      rfl
    | ok w =>
      rw [hread] at hitem
      rw [items_last hitem htail]
      rfl
  | v :: w :: more, _, fuel, depth, k, tail, rest, hfuel, hnumber, htail => by
    obtain ⟨fuel, rfl⟩ := Nat.exists_eq_add_one_of_ne_zero (show fuel ≠ 0 by omega)
    simp only [Layout.writeItems, List.length_append, List.length_cons] at hfuel
    obtain ⟨c, cs, hcs, hc⟩ := L.exists_opening_items k w more
    have htext : L.writeItems k (v :: w :: more) ++ tail =
        L.write k v ++ ',' :: (L.next k ++ (L.writeItems k (w :: more) ++ tail)) := by
      simp [Layout.writeItems]
    have hskip : skipSpace (L.next k ++ (L.writeItems k (w :: more) ++ tail)) = L.writeItems k (w :: more) ++ tail := by
      rw [hcs]
      exact skipSpace_append (hL.next_blank k) (stopsAt_isSpace_opening hc)
    have hitem := value_write v fuel depth k (',' :: (L.next k ++ (L.writeItems k (w :: more) ++ tail))) (by omega)
      (Text.stopsAt_cons.2 (by decide))
    have hmore := items_writeItems (w :: more) (List.cons_ne_nil w more) fuel depth k tail rest (by omega) hnumber htail
    rw [htext, rereadItems]
    cases hread : reread depth v with
    | error stop =>
      rw [hread] at hitem
      rw [items_stop hitem]
      rfl
    | ok u =>
      rw [hread] at hitem
      rw [items_more hitem rfl, hskip, hmore]
      cases rereadItems depth (w :: more) <;> rfl

theorem fields_writeFields : ∀ (fs : List (String × Json)), fs ≠ [] → ∀ (fuel depth k : ℕ) (tail rest : List Char),
    2 * (L.writeFields k fs).length + 1 ≤ fuel → StopsAt isNumberChar tail → skipSpace tail = '}' :: rest →
      fields fuel depth (L.writeFields k fs ++ tail) = (rereadFields depth fs).map fun gs => (gs, rest)
  | [], hfs, _, _, _, _, _, _, _, _ => absurd rfl hfs
  | [(name, v)], _, fuel, depth, k, tail, rest, hfuel, hnumber, htail => by
    obtain ⟨fuel, rfl⟩ := Nat.exists_eq_add_one_of_ne_zero (show fuel ≠ 0 by omega)
    simp only [Layout.writeFields, List.length_append, List.length_cons] at hfuel
    have htext : L.writeFields k [(name, v)] ++ tail =
        '"' :: (name.toList.flatMap L.char ++ '"' :: ':' :: ' ' :: (L.write k v ++ tail)) := by
      simp [Layout.writeFields, quoted]
    have hname := fun start => string_quoted hL.char_spells start (':' :: ' ' :: (L.write k v ++ tail)) name
    have hvalue := value_write v fuel depth k tail (by omega) hnumber
    rw [← skipSpace_blank_write L k v tail] at hvalue
    rw [htext, rereadFields]
    cases hread : reread depth v with
    | error stop =>
      rw [hread] at hvalue
      rw [fields_stop (hname _) rfl hvalue]
      rfl
    | ok w =>
      rw [hread] at hvalue
      rw [fields_last (hname _) rfl hvalue htail]
      rfl
  | (name, v) :: g :: more, _, fuel, depth, k, tail, rest, hfuel, hnumber, htail => by
    obtain ⟨fuel, rfl⟩ := Nat.exists_eq_add_one_of_ne_zero (show fuel ≠ 0 by omega)
    simp only [Layout.writeFields, List.length_append, List.length_cons] at hfuel
    obtain ⟨cs, hcs⟩ := L.exists_quote_fields k g more
    have htext : L.writeFields k ((name, v) :: g :: more) ++ tail =
        '"' :: (name.toList.flatMap L.char ++ '"' :: ':' :: ' ' ::
          (L.write k v ++ ',' :: (L.next k ++ (L.writeFields k (g :: more) ++ tail)))) := by
      simp [Layout.writeFields, quoted]
    have hskip : skipSpace (L.next k ++ (L.writeFields k (g :: more) ++ tail)) = L.writeFields k (g :: more) ++ tail := by
      rw [hcs]
      exact skipSpace_append (hL.next_blank k) (stopsAt_isSpace_opening (by decide))
    have hname := fun start => string_quoted hL.char_spells start
      (':' :: ' ' :: (L.write k v ++ ',' :: (L.next k ++ (L.writeFields k (g :: more) ++ tail)))) name
    have hvalue := value_write v fuel depth k (',' :: (L.next k ++ (L.writeFields k (g :: more) ++ tail))) (by omega)
      (Text.stopsAt_cons.2 (by decide))
    have hmore := fields_writeFields (g :: more) (List.cons_ne_nil g more) fuel depth k tail rest (by omega) hnumber htail
    rw [← skipSpace_blank_write L k v] at hvalue
    rw [htext, rereadFields]
    cases hread : reread depth v with
    | error stop =>
      rw [hread] at hvalue
      rw [fields_stop (hname _) rfl hvalue]
      rfl
    | ok u =>
      rw [hread] at hvalue
      rw [fields_more (hname _) rfl hvalue rfl, hskip, hmore]
      cases rereadFields depth (g :: more) <;> rfl

end

/-- What follows a value may be blanks. -/
theorem document_write_append (v : Json) {blanks : List Char} (hblanks : ∀ c ∈ blanks, isSpace c = true) :
    document (L.write 0 v ++ blanks) = reread maxDepth v := by
  have hstop : StopsAt isNumberChar blanks := by
    cases blanks with
    | nil => exact Text.stopsAt_nil _
    | cons c rest => exact Text.stopsAt_cons.2 (isNumberChar_of_isSpace (hblanks c (by simp)))
  have hvalue := value_write hL v (2 * (L.write 0 v ++ blanks).length + 2) maxDepth 0 blanks
    (by rw [List.length_append]; omega) hstop
  have hend : skipSpace blanks = [] := by
    have hall := skipSpace_append hblanks (Text.stopsAt_nil isSpace)
    rwa [List.append_nil] at hall
  obtain ⟨c, cs, hcs, hc⟩ := L.exists_opening 0 v
  have hskip : skipSpace (c :: (cs ++ blanks)) = c :: (cs ++ blanks) :=
    skipSpace_append (List.forall_mem_nil _) (stopsAt_isSpace_opening hc)
  rw [hcs, List.cons_append] at hvalue ⊢
  rw [document]
  · rw [hskip, hvalue]
    cases reread maxDepth v with
    | error stop => rfl
    | ok w =>
      simp only [Except.map, bind, Except.bind, hend]
      rfl
  · intro tail heq
    exact ne_of_isOpening hc (by decide) (List.cons.inj heq).1

theorem document_write (v : Json) : document (L.write 0 v) = reread maxDepth v := by
  have hnothing := document_write_append hL v (List.forall_mem_nil _)
  rwa [List.append_nil] at hnothing

end Whole

theorem read_compactText (v : Json) :
    read v.compactText = (reread maxDepth v).mapError (Stop.toError v.compactText.toList) := by
  rw [read, compactText, String.toList_ofList, ← write_compactLayout 0, document_write compactLayout_sound]

theorem read_indentedText (v : Json) :
    read v.indentedText = (reread maxDepth v).mapError (Stop.toError v.indentedText.toList) := by
  rw [read, indentedText, String.toList_ofList, ← write_indentedLayout 0, document_write indentedLayout_sound]

theorem read_indentedText_append (v : Json) {blanks : String} (hblanks : ∀ c ∈ blanks.toList, isSpace c = true) :
    read (v.indentedText ++ blanks) =
      (reread maxDepth v).mapError (Stop.toError (v.indentedText ++ blanks).toList) := by
  rw [read, String.toList_append, indentedText, String.toList_ofList, ← write_indentedLayout 0,
    document_write_append indentedLayout_sound v hblanks]

end TagTypes.Json
