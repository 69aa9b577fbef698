import Mathlib.Tactic
import TagTypes.Proofs.Disk.LineEnds
import TagTypes.Proofs.Json.Consumption
import TagTypes.Schema.Reader

/-!
# Line ends in JSON texts

A carriage return can stand in a JSON text only where a line end can stand as well, between its tokens. So a text that is read keeps its meaning if its line ends are unified, and a text of a schema describes the same schema.
-/

namespace TagTypes

namespace Json

open Reader

/-! ### Tokens -/

theorem skipSpace_unifyLineEnds (cs : List Char) : skipSpace (unifyLineEnds cs) = unifyLineEnds (skipSpace cs) := by
  fun_induction unifyLineEnds cs with
  | case1 => rfl
  | case2 rest ih => simpa [skipSpace, isSpace] using ih
  | case3 rest hrest ih => simpa [skipSpace, isSpace] using ih
  | case4 c rest hfirst hsecond ih =>
    by_cases hc : isSpace c = true
    · simpa [skipSpace, hc] using ih
    · rw [skipSpace, skipSpace, List.dropWhile_cons_of_neg hc, List.dropWhile_cons_of_neg hc]
      exact (unifyLineEnds_cons hsecond _).symm

theorem string_unifyLineEnds {start start' cs rest : List Char} {s : String} (hs : string start cs = .ok (s, rest)) :
    string start' (unifyLineEnds cs) = .ok (s, unifyLineEnds rest) := by
  obtain ⟨⟨units, after⟩, hunits, heq⟩ := bind_eq_ok hs
  cases heq
  obtain ⟨first, piece, rfl, hfree, hread⟩ := stringUnits_piece hunits
  rw [unifyLineEnds_append hfree, string, hread]
  rfl

theorem digits_unifyLineEnds (cs : List Char) : digits (unifyLineEnds cs) = ((digits cs).1, unifyLineEnds (digits cs).2) := by
  obtain ⟨htake, hdrop⟩ := takeWhile_dropWhile_unifyLineEnds (p := Char.isDigit) (by decide) (by decide) cs
  rw [digits, digits, htake, hdrop]

theorem fraction_unifyLineEnds (cs : List Char) :
    fraction (unifyLineEnds cs) = ((fraction cs).1, unifyLineEnds (fraction cs).2) := by
  by_cases hpoint : ∃ rest, cs = '.' :: rest
  · obtain ⟨rest, rfl⟩ := hpoint
    rw [unifyLineEnds_cons (by decide), fraction, fraction, digits_unifyLineEnds]
    simp only
    split
    · rw [unifyLineEnds_cons (by decide)]
    · rfl
  · have hnone : ∀ rest, cs ≠ '.' :: rest := fun rest heq => hpoint ⟨rest, heq⟩
    rw [fraction.eq_2 _ hnone, fraction.eq_2 _ (unifyLineEnds_ne_cons (by decide) hnone)]

theorem exponent_unifyLineEnds (cs : List Char) :
    exponent (unifyLineEnds cs) = ((exponent cs).1, unifyLineEnds (exponent cs).2) := by
  by_cases hmark : ∃ c rest, (c = 'e' ∨ c = 'E') ∧ cs = c :: rest
  · obtain ⟨c, rest, hc, rfl⟩ := hmark
    have hcr : c ≠ '\r' := by rcases hc with rfl | rfl <;> decide
    by_cases hsign : ∃ d more, (d = '+' ∨ d = '-') ∧ rest = d :: more
    · obtain ⟨d, more, hd, rfl⟩ := hsign
      have hdr : d ≠ '\r' := by rcases hd with rfl | rfl <;> decide
      rw [unifyLineEnds_cons hcr, unifyLineEnds_cons hdr, exponent_signed hc hd, exponent_signed hc hd, digits_unifyLineEnds]
      split
      · rw [unifyLineEnds_cons hcr, unifyLineEnds_cons hdr]
      · rfl
    · have hplus : ∀ more, rest ≠ '+' :: more := fun more heq => hsign ⟨_, _, Or.inl rfl, heq⟩
      have hminus : ∀ more, rest ≠ '-' :: more := fun more heq => hsign ⟨_, _, Or.inr rfl, heq⟩
      rw [unifyLineEnds_cons hcr, exponent_plain hc hplus hminus,
        exponent_plain hc (unifyLineEnds_ne_cons (by decide) hplus) (unifyLineEnds_ne_cons (by decide) hminus),
        digits_unifyLineEnds]
      split
      · rw [unifyLineEnds_cons hcr]
      · rfl
  · have hlower : ∀ rest, cs ≠ 'e' :: rest := fun rest heq => hmark ⟨_, _, Or.inl rfl, heq⟩
    have hupper : ∀ rest, cs ≠ 'E' :: rest := fun rest heq => hmark ⟨_, _, Or.inr rfl, heq⟩
    rw [exponent_none hlower hupper,
      exponent_none (unifyLineEnds_ne_cons (by decide) hlower) (unifyLineEnds_ne_cons (by decide) hupper)]

theorem wholePart_unifyLineEnds (cs : List Char) :
    wholePart (unifyLineEnds cs) = (wholePart cs).map fun found => (found.1, unifyLineEnds found.2) := by
  by_cases hzero : ∃ rest, cs = '0' :: rest
  · obtain ⟨rest, rfl⟩ := hzero
    rw [unifyLineEnds_cons (by decide)]
    rfl
  · have hnone : ∀ rest, cs ≠ '0' :: rest := fun rest heq => hzero ⟨rest, heq⟩
    rw [wholePart.eq_2 _ hnone, wholePart.eq_2 _ (unifyLineEnds_ne_cons (by decide) hnone), digits_unifyLineEnds]
    simp only
    split <;> rfl

theorem after?_unifyLineEnds {word : List Char} (hword : '\r' ∉ word ∧ '\n' ∉ word) (cs : List Char) :
    after? word (unifyLineEnds cs) = (after? word cs).map unifyLineEnds := by
  induction word generalizing cs with
  | nil => rfl
  | cons w word ih =>
    rw [List.mem_cons, List.mem_cons, not_or, not_or] at hword
    obtain ⟨⟨hreturn, hfree⟩, hfeed, hfree'⟩ := hword
    cases cs with
    | nil => rfl
    | cons c cs =>
      by_cases hc : w = c
      · subst hc
        rw [unifyLineEnds_cons (Ne.symm hreturn), after?, after?, if_pos rfl, if_pos rfl, ih ⟨hfree, hfree'⟩]
      · obtain ⟨rest, hrest⟩ := exists_unifyLineEnds_cons c cs
        have hfirst : w ≠ if c = '\r' then '\n' else c := by
          split
          · exact Ne.symm hfeed
          · exact hc
        rw [hrest, after?, after?, if_neg hfirst, if_neg hc]
        rfl

theorem word?_unifyLineEnds (cs : List Char) :
    word? (unifyLineEnds cs) = (word? cs).map fun found => (found.1, unifyLineEnds found.2) := by
  have hwords : ∀ entry ∈ words, '\r' ∉ entry.1 ∧ '\n' ∉ entry.1 := by decide
  unfold word?
  rw [List.map_findSome?, ← List.head?_filterMap, ← List.head?_filterMap]
  refine congrArg List.head? (List.filterMap_congr fun entry hentry => ?_)
  simp only [after?_unifyLineEnds (hwords entry hentry), Function.comp, Option.map_map]
  rfl

theorem number_unifyLineEnds {cs rest : List Char} {v : Json} (hv : number cs = .ok (v, rest)) :
    number (unifyLineEnds cs) = .ok (v, unifyLineEnds rest) := by
  obtain ⟨negative, body, hsign⟩ := exists_unsigned cs
  have hsign' : unifyLineEnds cs = '-' :: unifyLineEnds body ∧ negative = true ∨
      (∀ rest, unifyLineEnds cs ≠ '-' :: rest) ∧ unifyLineEnds cs = unifyLineEnds body ∧ negative = false := by
    rcases hsign with ⟨rfl, rfl⟩ | ⟨hplain, rfl, rfl⟩
    · exact Or.inl ⟨unifyLineEnds_cons (by decide) _, rfl⟩
    · exact Or.inr ⟨unifyLineEnds_ne_cons (by decide) hplain, rfl, rfl⟩
  rcases hwhole : wholePart body with _ | ⟨whole, after⟩
  · rw [number_unsigned hsign, hwhole] at hv
    cases hv
  · rcases hfraction : fraction after with ⟨frac, behind⟩
    rcases hexponent : exponent behind with ⟨exp, last⟩
    rw [number_eq_numberOf hsign hwhole hfraction hexponent] at hv
    obtain ⟨w, hw, heq⟩ := map_eq_ok_iff.1 hv
    cases heq
    have hwhole' : wholePart (unifyLineEnds body) = some (whole, unifyLineEnds after) := by
      rw [wholePart_unifyLineEnds, hwhole, Option.map_some]
    have hfraction' : fraction (unifyLineEnds after) = (frac, unifyLineEnds behind) := by
      rw [fraction_unifyLineEnds, hfraction]
    have hexponent' : exponent (unifyLineEnds behind) = (exp, unifyLineEnds rest) := by
      rw [exponent_unifyLineEnds, hexponent]
    rw [number_eq_numberOf hsign' hwhole' hfraction' hexponent', hw]
    rfl

/-! ### Values -/

/-- What is read from a text with some fuel is read from it with unified line ends. -/
structure ReadUnified (fuel : ℕ) : Prop where
  value : ∀ {depth cs v rest}, Reader.value fuel depth cs = .ok (v, rest) →
    ReadBy Reader.value depth (unifyLineEnds cs) v (unifyLineEnds rest)
  items : ∀ {depth cs vs rest}, Reader.items fuel depth cs = .ok (vs, rest) →
    ReadBy Reader.items depth (unifyLineEnds cs) vs (unifyLineEnds rest)
  fields : ∀ {depth cs fs rest}, Reader.fields fuel depth cs = .ok (fs, rest) →
    ReadBy Reader.fields depth (unifyLineEnds cs) fs (unifyLineEnds rest)

theorem readUnified_zero : ReadUnified 0 where
  value h := by cases h
  items h := by cases h
  fields h := by cases h

/-- A mark behind space is there with unified line ends as well. -/
theorem skipSpace_mark {cs rest : List Char} {c : Char} (hc : c ≠ '\r') (hcs : skipSpace cs = c :: rest) :
    skipSpace (unifyLineEnds cs) = c :: unifyLineEnds rest := by
  rw [skipSpace_unifyLineEnds, hcs, unifyLineEnds_cons hc]

/-- A word or a number is read alike. -/
theorem readBy_word_unifyLineEnds {depth : ℕ} {c : Char} {tail rest : List Char} {v : Json} (hquote : c ≠ '"') (hlist : c ≠ '[')
    (hobject : c ≠ '{')
    (hv : word? (c :: tail) = some (v, rest) ∨ word? (c :: tail) = none ∧ number (c :: tail) = .ok (v, rest)) :
    ReadBy Reader.value depth (unifyLineEnds (c :: tail)) v (unifyLineEnds rest) := by
  obtain ⟨more, hmore⟩ := exists_unifyLineEnds_cons c tail
  have hfirst : ∀ d, d ≠ '\n' → c ≠ d → (if c = '\r' then '\n' else c) ≠ d := by
    intro d hd hc
    split
    · exact hd.symm
    · exact hc
  have hword := word?_unifyLineEnds (c :: tail)
  have hnumber : number (c :: tail) = .ok (v, rest) → number (unifyLineEnds (c :: tail)) = .ok (v, unifyLineEnds rest) :=
    number_unifyLineEnds
  rw [hmore] at hword hnumber ⊢
  refine readBy_word (hfirst _ (by decide) hquote) (hfirst _ (by decide) hlist) (hfirst _ (by decide) hobject) ?_
  rw [hword]
  rcases hv with hfound | ⟨hnone, hread⟩
  · left
    rw [hfound]
    rfl
  · right
    rw [hnone]
    exact ⟨rfl, hnumber hread⟩

section Steps

variable {fuel depth : ℕ} {cs rest : List Char} (ih : ReadUnified fuel)
include ih

theorem ReadUnified.value_succ {v : Json} (hv : Reader.value (fuel + 1) depth cs = .ok (v, rest)) :
    ReadBy Reader.value depth (unifyLineEnds cs) v (unifyLineEnds rest) := by
  unfold Reader.value at hv
  split at hv
  · obtain ⟨⟨s, after⟩, hstring, hs⟩ := bind_eq_ok hv
    cases hs
    rw [unifyLineEnds_cons (by decide)]
    exact readBy_string (string_unifyLineEnds hstring)
  · rename_i tail
    rw [unifyLineEnds_cons (by decide)]
    split at hv
    · cases hv
    · split at hv
      · rename_i hclosed
        cases hv
        exact readBy_array_empty (skipSpace_mark (by decide) hclosed)
      · rename_i hopen
        obtain ⟨⟨vs, after⟩, hvs, heq⟩ := bind_eq_ok hv
        cases heq
        have hitems := ih.items hvs
        rw [← skipSpace_unifyLineEnds] at hitems
        refine readBy_array ?_ hitems
        rw [skipSpace_unifyLineEnds]
        exact unifyLineEnds_ne_cons (by decide) hopen
  · rename_i tail
    rw [unifyLineEnds_cons (by decide)]
    split at hv
    · cases hv
    · split at hv
      · rename_i hclosed
        cases hv
        exact readBy_object_empty (skipSpace_mark (by decide) hclosed)
      · rename_i hopen
        obtain ⟨⟨fs, after⟩, hfs, heq⟩ := bind_eq_ok hv
        cases heq
        have hfields := ih.fields hfs
        rw [← skipSpace_unifyLineEnds] at hfields
        refine readBy_object ?_ hfields
        rw [skipSpace_unifyLineEnds]
        exact unifyLineEnds_ne_cons (by decide) hopen
  · rename_i hquote hlist hobject
    cases cs with
    | nil => cases hv
    | cons c tail =>
      apply readBy_word_unifyLineEnds
      · exact fun heq => hquote _ (by rw [heq])
      · exact fun heq => hlist _ (by rw [heq])
      · exact fun heq => hobject _ (by rw [heq])
      · cases hfound : word? (c :: tail) with
        | some found =>
          rw [hfound] at hv
          cases hv
          exact Or.inl rfl
        | none =>
          rw [hfound] at hv
          exact Or.inr ⟨rfl, hv⟩

theorem ReadUnified.items_succ {vs : List Json} (hvs : Reader.items (fuel + 1) depth cs = .ok (vs, rest)) :
    ReadBy Reader.items depth (unifyLineEnds cs) vs (unifyLineEnds rest) := by
  rw [Reader.items] at hvs
  obtain ⟨⟨v, after⟩, hv, hvs⟩ := bind_eq_ok hvs
  simp only at hvs
  split at hvs
  · rename_i hlast
    cases hvs
    exact readBy_items_last (ih.value hv) (skipSpace_mark (by decide) hlast)
  · rename_i hnext
    obtain ⟨⟨more, last⟩, hmore, heq⟩ := bind_eq_ok hvs
    cases heq
    have hitems := ih.items hmore
    rw [← skipSpace_unifyLineEnds] at hitems
    exact readBy_items_more (ih.value hv) (skipSpace_mark (by decide) hnext) hitems
  · cases hvs

theorem ReadUnified.fields_succ {fs : List (String × Json)} (hfs : Reader.fields (fuel + 1) depth cs = .ok (fs, rest)) :
    ReadBy Reader.fields depth (unifyLineEnds cs) fs (unifyLineEnds rest) := by
  rw [Reader.fields.eq_def] at hfs
  simp only at hfs
  split at hfs
  · obtain ⟨⟨name, after⟩, hname, hfs⟩ := bind_eq_ok hfs
    rw [unifyLineEnds_cons (by decide)]
    simp only at hfs
    split at hfs
    · rename_i hcolon
      obtain ⟨⟨v, after⟩, hv, hfs⟩ := bind_eq_ok hfs
      have hvalue := ih.value hv
      rw [← skipSpace_unifyLineEnds] at hvalue
      have hcolon' := skipSpace_mark (by decide) hcolon
      simp only at hfs
      split at hfs
      · rename_i hlast
        cases hfs
        exact readBy_fields_last (string_unifyLineEnds hname) hcolon' hvalue (skipSpace_mark (by decide) hlast)
      · rename_i hnext
        obtain ⟨⟨more, last⟩, hmore, heq⟩ := bind_eq_ok hfs
        cases heq
        have hfields := ih.fields hmore
        rw [← skipSpace_unifyLineEnds] at hfields
        exact readBy_fields_more (string_unifyLineEnds hname) hcolon' hvalue (skipSpace_mark (by decide) hnext) hfields
      · cases hfs
    · cases hfs
  · cases hfs

end Steps

theorem readUnified_succ {fuel : ℕ} (ih : ReadUnified fuel) : ReadUnified (fuel + 1) where
  value := ih.value_succ
  items := ih.items_succ
  fields := ih.fields_succ

theorem readUnified : ∀ fuel, ReadUnified fuel
  | 0 => readUnified_zero
  | fuel + 1 => readUnified_succ (readUnified fuel)

theorem document_unifyLineEnds {text : List Char} {v : Json} (hv : document text = .ok v) :
    document (unifyLineEnds text) = .ok v := by
  unfold document at hv
  split at hv
  · cases hv
  · rename_i hmark
    obtain ⟨⟨u, rest⟩, hu, hrest⟩ := bind_eq_ok hv
    simp only at hrest
    split at hrest
    · rename_i hend
      cases hrest
      obtain ⟨-, hread⟩ := (readUnified _).value hu
      have hlength := length_skipSpace_le (unifyLineEnds text)
      rw [← skipSpace_unifyLineEnds] at hread
      rw [document.eq_2 _ (unifyLineEnds_ne_cons (by decide) hmark), hread _ (by omega)]
      have hend' : skipSpace (unifyLineEnds rest) = [] := by
        rw [skipSpace_unifyLineEnds, hend]
        rfl
      simp only [Bind.bind, Except.bind, hend']
      rfl
    · cases hrest

/-- A text that is read has the same value with unified line ends. -/
theorem read_unifyLineEnds {text : String} {v : Json} (hv : read text = .ok v) :
    read (String.ofList (unifyLineEnds text.toList)) = .ok v := by
  unfold read at hv ⊢
  cases hdocument : document text.toList with
  | error stop =>
    rw [hdocument] at hv
    cases hv
  | ok w =>
    rw [hdocument] at hv
    cases hv
    rw [String.toList_ofList, document_unifyLineEnds hdocument]
    rfl

end Json

/-- A text of a schema describes the same schema with unified line ends. -/
theorem Schema.parse_unifyLineEnds {key text : String} {s : Schema} (hs : Schema.parse key text = .ok s) :
    Schema.parse key (String.ofList (unifyLineEnds text.toList)) = .ok s := by
  unfold parse at hs ⊢
  cases hread : Json.read text with
  | error reason =>
    rw [hread] at hs
    cases hs
  | ok v =>
    rw [hread] at hs
    rw [Json.read_unifyLineEnds hread]
    exact hs

end TagTypes
