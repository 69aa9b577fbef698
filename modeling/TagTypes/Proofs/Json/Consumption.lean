import Mathlib.Tactic
import TagTypes.Proofs.Json.Legible
import TagTypes.Text.Blank

/-!
# What a reader takes from a text

A token is a piece at the front of a text, and what is left of the text is shorter. So a value is found in as many steps as the characters in it allow for, whatever stands behind it, and more steps than that do not change what is found. A text in which a value is found is not blank.
-/

namespace TagTypes.Json

open Reader

/-! ### Pieces -/

theorem stringUnits_escape (start rest : List Char) {c escaped : Char} (hescaped : simpleEscape? c = some escaped) :
    stringUnits start ('\\' :: c :: rest) =
      (stringUnits start rest).map fun found => (escaped.toNat :: found.1, found.2) := by
  rw [stringUnits.eq_def]
  split
  · contradiction
  · rename_i heq
    exact absurd (List.cons.inj heq).1 (by decide)
  · rename_i heq
    obtain ⟨-, htail⟩ := List.cons.inj heq
    obtain ⟨rfl, -⟩ := List.cons.inj htail
    cases hescaped
  · rename_i heq
    obtain ⟨-, htail⟩ := List.cons.inj heq
    obtain ⟨rfl, -⟩ := List.cons.inj htail
    cases hescaped
  · rename_i heq
    obtain ⟨-, htail⟩ := List.cons.inj heq
    obtain ⟨rfl, rfl⟩ := List.cons.inj htail
    rw [hescaped]
    rfl
  · rename_i heq
    cases heq
  · rename_i hescape _ heq
    obtain ⟨hback, htail⟩ := List.cons.inj heq
    exact (hescape _ _ hback.symm htail.symm).elim

theorem hexUnit?_free {a b c d : Char} {unit : ℕ} (hunit : hexUnit? a b c d = some unit) :
    a ≠ '\r' ∧ b ≠ '\r' ∧ c ≠ '\r' ∧ d ≠ '\r' := by
  have hnone : hexValue? '\r' = none := by decide
  unfold hexUnit? at hunit
  split at hunit
  · rename_i ha hb hc hd
    refine ⟨?_, ?_, ?_, ?_⟩
    all_goals
      rintro rfl
      simp_all
  · cases hunit

theorem stringUnits_piece {start cs rest : List Char} {units : List ℕ} (hunits : stringUnits start cs = .ok (units, rest)) :
    ∃ first piece, cs = first :: piece ++ rest ∧ '\r' ∉ first :: piece ∧
      ∀ start more, stringUnits start (first :: piece ++ more) = .ok (units, more) := by
  fun_induction stringUnits start cs generalizing units rest with
  | case1 => cases hunits
  | case2 tail =>
    cases hunits
    exact ⟨'"', [], rfl, by decide, fun _ _ => rfl⟩
  | case3 => cases hunits
  | case4 a b c d e tail unit hunit ih =>
    obtain ⟨⟨us, after⟩, hus, heq⟩ := bind_eq_ok hunits
    cases heq
    obtain ⟨first, piece, hcs, hfree, hread⟩ := ih hus
    obtain ⟨rfl, rfl⟩ := List.cons.inj hcs
    refine ⟨'\\', 'u' :: a :: b :: c :: d :: e :: piece, rfl, ?_, fun start more => ?_⟩
    · obtain ⟨ha, hb, hc, hd⟩ := hexUnit?_free hunit
      rw [List.mem_cons, not_or] at hfree
      simp [ha.symm, hb.symm, hc.symm, hd.symm, hfree]
    · have hmore := hread start more
      rw [List.cons_append] at hmore
      simp only [List.cons_append, stringUnits, hunit, hmore, Bind.bind, Except.bind, pure, Except.pure]
  | case5 => cases hunits
  | case6 => cases hunits
  | case7 c tail hlong hshort escaped hescaped ih =>
    obtain ⟨⟨us, after⟩, hus, heq⟩ := bind_eq_ok hunits
    cases heq
    obtain ⟨first, piece, rfl, hfree, hread⟩ := ih hus
    refine ⟨'\\', c :: first :: piece, rfl, ?_, fun start more => ?_⟩
    · have hc : c ≠ '\r' := by
        rintro rfl
        cases hescaped
      rw [List.mem_cons, List.mem_cons, not_or, not_or]
      exact ⟨by decide, hc.symm, hfree⟩
    · have hsplit : '\\' :: c :: first :: piece ++ more = '\\' :: c :: (first :: piece ++ more) := rfl
      rw [hsplit, stringUnits_escape start _ hescaped, hread start more]
      rfl
  | case8 => cases hunits
  | case9 => cases hunits
  | case10 c tail hquote hlong hshort hescape hback hcontrol ih =>
    obtain ⟨⟨us, after⟩, hus, heq⟩ := bind_eq_ok hunits
    cases heq
    obtain ⟨first, piece, rfl, hfree, hread⟩ := ih hus
    refine ⟨c, first :: piece, rfl, ?_, fun start more => ?_⟩
    · have hc : c ≠ '\r' := by
        rintro rfl
        exact hcontrol (by decide)
      rw [List.mem_cons, not_or]
      exact ⟨hc.symm, hfree⟩
    · have hsplit : c :: first :: piece ++ more = c :: (first :: piece ++ more) := rfl
      rw [hsplit, stringUnits_plain start _ hquote (fun heq => hescape _ _ heq rfl) (not_lt.1 hcontrol), hread start more]
      rfl

/-- A number with the sign in front of it read already. -/
theorem number_unsigned {negative : Bool} {cs body : List Char}
    (hsign : cs = '-' :: body ∧ negative = true ∨ (∀ rest, cs ≠ '-' :: rest) ∧ cs = body ∧ negative = false) :
    number cs = match wholePart body with
      | none => .error (.fault .expectingValue cs)
      | some (whole, rest) =>
        if (fraction rest).1.isEmpty && (exponent (fraction rest).2).1.isEmpty then
          if whole.length ≤ Text.maxDigits then
            .ok (.int (Text.signed negative (decimalValue whole)), (exponent (fraction rest).2).2)
          else .error (.tooManyDigits whole.length)
        else
          .ok (.real (Binary64.readDecimal ((if negative then ['-'] else []) ++ whole ++ (fraction rest).1 ++
            (exponent (fraction rest).2).1)), (exponent (fraction rest).2).2) := by
  rcases hsign with ⟨rfl, rfl⟩ | ⟨hplain, rfl, rfl⟩
  · rfl
  · unfold number
    split
    rename_i heq
    split at heq
    · exact absurd rfl (hplain _)
    · cases heq
      rfl

theorem exists_unsigned (cs : List Char) : ∃ negative body,
    cs = '-' :: body ∧ negative = true ∨ (∀ rest, cs ≠ '-' :: rest) ∧ cs = body ∧ negative = false := by
  by_cases hminus : ∃ body, cs = '-' :: body
  · obtain ⟨body, rfl⟩ := hminus
    exact ⟨true, body, Or.inl ⟨rfl, rfl⟩⟩
  · exact ⟨false, cs, Or.inr ⟨fun rest heq => hminus ⟨rest, heq⟩, rfl, rfl⟩⟩

/-- The number with the given parts, read already. -/
def numberOf (negative : Bool) (whole frac exp : List Char) : Except Stop Json :=
  if frac.isEmpty && exp.isEmpty then
    if whole.length ≤ Text.maxDigits then .ok (.int (Text.signed negative (decimalValue whole)))
    else .error (.tooManyDigits whole.length)
  else .ok (.real (Binary64.readDecimal ((if negative then ['-'] else []) ++ whole ++ frac ++ exp)))

theorem number_eq_numberOf {negative : Bool} {cs body whole after frac behind exp last : List Char}
    (hsign : cs = '-' :: body ∧ negative = true ∨ (∀ rest, cs ≠ '-' :: rest) ∧ cs = body ∧ negative = false)
    (hwhole : wholePart body = some (whole, after)) (hfraction : fraction after = (frac, behind))
    (hexponent : exponent behind = (exp, last)) : number cs = (numberOf negative whole frac exp).map (·, last) := by
  rw [number_unsigned hsign, hwhole, numberOf]
  simp only [hfraction, hexponent]
  split
  · split <;> rfl
  · rfl

theorem exponent_signed {c d : Char} (hc : c = 'e' ∨ c = 'E') (hd : d = '+' ∨ d = '-') (rest : List Char) :
    exponent (c :: d :: rest) =
      if (digits rest).1.isEmpty then ([], c :: d :: rest) else ('e' :: d :: (digits rest).1, (digits rest).2) := by
  rcases hc with rfl | rfl <;> rcases hd with rfl | rfl <;> rfl

theorem exponent_plain {c : Char} (hc : c = 'e' ∨ c = 'E') {rest : List Char} (hplus : ∀ more, rest ≠ '+' :: more)
    (hminus : ∀ more, rest ≠ '-' :: more) :
    exponent (c :: rest) = if (digits rest).1.isEmpty then ([], c :: rest) else ('e' :: (digits rest).1, (digits rest).2) := by
  rcases hc with rfl | rfl
  · simp [exponent]
  · simp [exponent]

theorem exponent_none {cs : List Char} (hlower : ∀ rest, cs ≠ 'e' :: rest) (hupper : ∀ rest, cs ≠ 'E' :: rest) :
    exponent cs = ([], cs) := by
  unfold exponent
  simp [hlower, hupper]

/-! ### What is left -/

theorem length_string_lt {start cs rest : List Char} {s : String} (hs : string start cs = .ok (s, rest)) : rest.length < cs.length := by
  obtain ⟨⟨units, after⟩, hunits, heq⟩ := bind_eq_ok hs
  cases heq
  obtain ⟨first, piece, rfl, -, -⟩ := stringUnits_piece hunits
  simp only [List.cons_append, List.length_cons, List.length_append]
  omega

theorem length_digits_le (cs : List Char) : (digits cs).2.length ≤ cs.length := (List.dropWhile_sublist _).length_le

theorem length_skipSpace_le (cs : List Char) : (skipSpace cs).length ≤ cs.length := (List.dropWhile_sublist _).length_le

theorem length_fraction_le (cs : List Char) : (fraction cs).2.length ≤ cs.length := by
  unfold fraction
  split
  · rename_i rest
    have hdigits := length_digits_le rest
    simp only
    split
    · exact le_rfl
    · simp only [List.length_cons]
      omega
  · exact le_rfl

theorem length_exponent_le (cs : List Char) : (exponent cs).2.length ≤ cs.length := by
  unfold exponent
  simp only
  split
  case h_7 => exact le_rfl
  all_goals
    split
    · exact le_rfl
    · refine (length_digits_le _).trans ?_
      simp only [List.length_cons]
      omega

theorem length_digits_lt {cs : List Char} (hne : (digits cs).1.isEmpty = false) : (digits cs).2.length < cs.length := by
  have hboth : (digits cs).1.length + (digits cs).2.length = cs.length := by
    rw [← List.length_append, digits, List.takeWhile_append_dropWhile]
  have hsome : 0 < (digits cs).1.length := by simpa [List.length_pos_iff] using hne
  omega

theorem length_wholePart_lt {cs whole rest : List Char} (hwhole : wholePart cs = some (whole, rest)) : rest.length < cs.length := by
  unfold wholePart at hwhole
  split at hwhole
  · cases hwhole
    simp
  · simp only at hwhole
    split at hwhole
    · cases hwhole
    · rename_i hne
      cases hwhole
      exact length_digits_lt (by simpa using hne)

theorem length_number_lt {cs rest : List Char} {v : Json} (hv : number cs = .ok (v, rest)) : rest.length < cs.length := by
  obtain ⟨negative, body, hsign⟩ := exists_unsigned cs
  have hbody : body.length ≤ cs.length := by
    rcases hsign with ⟨rfl, -⟩ | ⟨-, rfl, -⟩
    · simp
    · exact le_rfl
  rw [number_unsigned hsign] at hv
  cases hwhole : wholePart body with
  | none =>
    rw [hwhole] at hv
    cases hv
  | some found =>
    obtain ⟨whole, after⟩ := found
    rw [hwhole] at hv
    have hafter := length_wholePart_lt hwhole
    have hfraction := length_fraction_le after
    have hexponent := length_exponent_le (fraction after).2
    have hrest : rest = (exponent (fraction after).2).2 := by
      simp only at hv
      split at hv
      · split at hv
        · cases hv
          rfl
        · cases hv
      · cases hv
        rfl
    rw [hrest]
    omega

theorem length_after? {word cs rest : List Char} (hrest : after? word cs = some rest) : rest.length + word.length = cs.length := by
  induction word generalizing cs with
  | nil =>
    cases hrest
    rfl
  | cons w word ih =>
    cases cs with
    | nil => cases hrest
    | cons c cs =>
      rw [after?] at hrest
      split at hrest
      · rw [List.length_cons, List.length_cons, ← ih hrest]
        omega
      · cases hrest

theorem length_word?_lt {cs rest : List Char} {v : Json} (hv : word? cs = some (v, rest)) : rest.length < cs.length := by
  have hwords : ∀ entry ∈ words, entry.1 ≠ [] := by decide
  obtain ⟨⟨word, w⟩, hmem, hw⟩ := List.exists_of_findSome?_eq_some hv
  obtain ⟨tail, htail, heq⟩ := Option.map_eq_some_iff.1 hw
  cases heq
  have hlength := length_after? htail
  have hsome : 0 < word.length := List.length_pos_iff.2 (hwords _ hmem)
  omega

/-! ### Values -/

/-- The reader finds `a` at the front of `cs`, with `rest` behind it, if only it may take two steps for each character of it. -/
def ReadBy {α : Type} (reader : ℕ → ℕ → List Char → Except Stop (α × List Char)) (depth : ℕ) (cs : List Char) (a : α)
    (rest : List Char) : Prop :=
  rest.length < cs.length ∧ ∀ fuel, 2 * cs.length ≤ fuel + 2 * rest.length → reader fuel depth cs = .ok (a, rest)

theorem ReadBy.intro {α : Type} {reader : ℕ → ℕ → List Char → Except Stop (α × List Char)} {depth : ℕ} {cs rest : List Char}
    {a : α} (hlength : rest.length < cs.length)
    (hread : ∀ fuel, 2 * cs.length ≤ fuel + 1 + 2 * rest.length → reader (fuel + 1) depth cs = .ok (a, rest)) :
    ReadBy reader depth cs a rest := by
  refine ⟨hlength, fun fuel hfuel => ?_⟩
  obtain ⟨fuel, rfl⟩ := Nat.exists_eq_add_one_of_ne_zero (show fuel ≠ 0 by omega)
  exact hread fuel hfuel

section Steps

variable {depth : ℕ} {cs rest tail after last : List Char} {v : Json} {vs : List Json} {name : String}
  {fs : List (String × Json)}

theorem readBy_string (hs : string ('"' :: cs) cs = .ok (name, rest)) : ReadBy value depth ('"' :: cs) (.str name) rest := by
  have hlength := length_string_lt hs
  refine .intro (by simp only [List.length_cons]; omega) fun fuel _ => ?_
  rw [value_string, hs]
  rfl

theorem readBy_word {c : Char} (hquote : c ≠ '"') (hlist : c ≠ '[') (hobject : c ≠ '{')
    (hv : word? (c :: cs) = some (v, rest) ∨ word? (c :: cs) = none ∧ number (c :: cs) = .ok (v, rest)) :
    ReadBy value depth (c :: cs) v rest := by
  rcases hv with hword | ⟨hword, hnumber⟩
  · refine .intro (length_word?_lt hword) fun fuel _ => ?_
    rw [value_of_word hquote hlist hobject, hword]
  · refine .intro (length_number_lt hnumber) fun fuel _ => ?_
    rw [value_of_word hquote hlist hobject, hword, hnumber]

theorem readBy_array_empty (hcs : skipSpace cs = ']' :: rest) : ReadBy value (depth + 1) ('[' :: cs) (.arr []) rest := by
  have hlength := length_skipSpace_le cs
  rw [hcs, List.length_cons] at hlength
  exact .intro (by simp only [List.length_cons]; omega) fun fuel _ => value_array_empty hcs

theorem readBy_array (hopen : ∀ more, skipSpace cs ≠ ']' :: more) (hitems : ReadBy items depth (skipSpace cs) vs rest) :
    ReadBy value (depth + 1) ('[' :: cs) (.arr vs) rest := by
  have hlength := length_skipSpace_le cs
  obtain ⟨hshorter, hread⟩ := hitems
  cases hcs : skipSpace cs with
  | nil =>
    rw [hcs] at hshorter
    cases hshorter
  | cons c more =>
    rw [hcs] at hlength hshorter hread
    refine .intro (by simp only [List.length_cons] at *; omega) fun fuel hfuel => ?_
    rw [value_array hcs fun hc => hopen more (by rw [hcs, hc]),
      hread fuel (by simp only [List.length_cons] at *; omega)]
    rfl

theorem readBy_object_empty (hcs : skipSpace cs = '}' :: rest) : ReadBy value (depth + 1) ('{' :: cs) (.obj []) rest := by
  have hlength := length_skipSpace_le cs
  rw [hcs, List.length_cons] at hlength
  exact .intro (by simp only [List.length_cons]; omega) fun fuel _ => value_object_empty hcs

theorem readBy_object (hopen : ∀ more, skipSpace cs ≠ '}' :: more) (hfields : ReadBy fields depth (skipSpace cs) fs rest) :
    ReadBy value (depth + 1) ('{' :: cs) (ofFields fs) rest := by
  have hlength := length_skipSpace_le cs
  obtain ⟨hshorter, hread⟩ := hfields
  cases hcs : skipSpace cs with
  | nil =>
    rw [hcs] at hshorter
    cases hshorter
  | cons c more =>
    rw [hcs] at hlength hshorter hread
    refine .intro (by simp only [List.length_cons] at *; omega) fun fuel hfuel => ?_
    rw [value_object hcs fun hc => hopen more (by rw [hcs, hc]),
      hread fuel (by simp only [List.length_cons] at *; omega)]
    rfl

theorem readBy_items_last (hv : ReadBy value depth cs v rest) (hrest : skipSpace rest = ']' :: tail) :
    ReadBy items depth cs [v] tail := by
  have hlength := length_skipSpace_le rest
  rw [hrest, List.length_cons] at hlength
  obtain ⟨hshorter, hread⟩ := hv
  exact .intro (by omega) fun fuel hfuel => items_last (hread fuel (by omega)) hrest

theorem readBy_items_more (hv : ReadBy value depth cs v rest) (hrest : skipSpace rest = ',' :: tail)
    (hmore : ReadBy items depth (skipSpace tail) vs last) : ReadBy items depth cs (v :: vs) last := by
  have hlength := length_skipSpace_le rest
  have htail := length_skipSpace_le tail
  rw [hrest, List.length_cons] at hlength
  obtain ⟨hshorter, hread⟩ := hv
  obtain ⟨hshorter', hread'⟩ := hmore
  refine .intro (by omega) fun fuel hfuel => ?_
  rw [items_more (hread fuel (by omega)) hrest, hread' fuel (by omega)]
  rfl

theorem readBy_fields_last (hname : string ('"' :: cs) cs = .ok (name, rest)) (hrest : skipSpace rest = ':' :: tail)
    (hv : ReadBy value depth (skipSpace tail) v after) (hafter : skipSpace after = '}' :: last) :
    ReadBy fields depth ('"' :: cs) [(name, v)] last := by
  have hstring := length_string_lt hname
  have hlength := length_skipSpace_le rest
  have htail := length_skipSpace_le tail
  have hlast := length_skipSpace_le after
  rw [hrest, List.length_cons] at hlength
  rw [hafter, List.length_cons] at hlast
  obtain ⟨hshorter, hread⟩ := hv
  refine .intro (by simp only [List.length_cons]; omega) fun fuel hfuel => ?_
  exact fields_last hname hrest (hread fuel (by simp only [List.length_cons] at hfuel; omega)) hafter

theorem readBy_fields_more (hname : string ('"' :: cs) cs = .ok (name, rest)) (hrest : skipSpace rest = ':' :: tail)
    (hv : ReadBy value depth (skipSpace tail) v after) (hafter : skipSpace after = ',' :: last) {final : List Char}
    (hmore : ReadBy fields depth (skipSpace last) fs final) : ReadBy fields depth ('"' :: cs) ((name, v) :: fs) final := by
  have hstring := length_string_lt hname
  have hlength := length_skipSpace_le rest
  have htail := length_skipSpace_le tail
  have hlast := length_skipSpace_le after
  have hfinal := length_skipSpace_le last
  rw [hrest, List.length_cons] at hlength
  rw [hafter, List.length_cons] at hlast
  obtain ⟨hshorter, hread⟩ := hv
  obtain ⟨hshorter', hread'⟩ := hmore
  refine .intro (by simp only [List.length_cons]; omega) fun fuel hfuel => ?_
  simp only [List.length_cons] at hfuel
  rw [fields_more hname hrest (hread fuel (by omega)) hafter, hread' fuel (by omega)]
  rfl

end Steps

/-! ### Blank texts -/

section Blank

open Text (isBlank)

variable {c : Char} (hc : isBlank c = true)
include hc

theorem ne_of_isBlank {x : Char} (hx : isBlank x = false) : x ≠ c := by
  rintro rfl
  rw [hc] at hx
  cases hx

theorem isDigit_of_isBlank : c.isDigit = false := by
  by_contra hdigit
  rw [Bool.not_eq_false] at hdigit
  have hrange : 48 ≤ c.toNat ∧ c.toNat ≤ 57 := by simpa [Char.isDigit, UInt32.le_iff_toNat_le] using hdigit
  have hspace : c ≠ ' ' := by
    rintro rfl
    simp at hrange
  simp only [isBlank, Text.isAsciiBlank, Bool.or_eq_true, Bool.and_eq_true, decide_eq_true_eq, hspace, false_or] at hc
  omega

theorem word?_of_isBlank (cs : List Char) : word? (c :: cs) = none := by
  have hwords : ∀ entry ∈ words, ∃ w word, entry.1 = w :: word ∧ isBlank w = false := by
    simp only [words, List.forall_mem_cons]
    exact ⟨⟨_, _, rfl, by decide⟩, ⟨_, _, rfl, by decide⟩, ⟨_, _, rfl, by decide⟩, ⟨_, _, rfl, by decide⟩,
      ⟨_, _, rfl, by decide⟩, ⟨_, _, rfl, by decide⟩, by simp⟩
  rw [word?, List.findSome?_eq_none_iff]
  rintro ⟨word, value⟩ hentry
  obtain ⟨w, tail, rfl, hw⟩ := hwords _ hentry
  simp only
  rw [after?, if_neg (ne_of_isBlank hc hw)]
  rfl

theorem number_of_isBlank (cs : List Char) : number (c :: cs) = .error (.fault .expectingValue (c :: cs)) := by
  have hwhole : wholePart (c :: cs) = none := by
    unfold wholePart
    split
    · rename_i heq
      cases heq
      exact absurd rfl (ne_of_isBlank hc (by decide))
    · simp [digits, isDigit_of_isBlank hc]
  unfold number
  split
  rename_i negative body heq
  split at heq
  · rename_i hminus
    cases hminus
    exact absurd rfl (ne_of_isBlank hc (by decide))
  · cases heq
    simp [hwhole]

theorem value_of_isBlank (fuel depth : ℕ) (cs : List Char) :
    value (fuel + 1) depth (c :: cs) = .error (.fault .expectingValue (c :: cs)) := by
  have hquote : c ≠ '"' := (ne_of_isBlank hc (by decide)).symm
  have hlist : c ≠ '[' := (ne_of_isBlank hc (by decide)).symm
  have hobject : c ≠ '{' := (ne_of_isBlank hc (by decide)).symm
  rw [value_of_word hquote hlist hobject, word?_of_isBlank hc]
  exact number_of_isBlank hc cs

end Blank

theorem isAllBlank_of_read {text : String} {v : Json} (hread : Json.read text = .ok v) : Text.isAllBlank text = false := by
  by_contra hblank
  rw [Bool.not_eq_false, Text.isAllBlank, List.all_eq_true] at hblank
  have hdocument : document text.toList = .ok v := by
    unfold Json.read at hread
    cases hfound : document text.toList with
    | error stop => rw [hfound] at hread; cases hread
    | ok found => rw [hfound] at hread; cases hread; rfl
  unfold document at hdocument
  split at hdocument
  · cases hdocument
  · have hskip : ∀ c ∈ skipSpace text.toList, Text.isBlank c = true := fun c hmem =>
      hblank c ((List.dropWhile_sublist _).subset hmem)
    have hvalue : ∃ stop, value (2 * text.toList.length + 2) maxDepth (skipSpace text.toList) = .error stop := by
      cases hcs : skipSpace text.toList with
      | nil => exact ⟨_, rfl⟩
      | cons c cs =>
        rw [hcs] at hskip
        exact ⟨_, value_of_isBlank (hskip c List.mem_cons_self) _ _ cs⟩
    obtain ⟨stop, hvalue⟩ := hvalue
    rw [hvalue] at hdocument
    cases hdocument

end TagTypes.Json
