import Mathlib.Tactic
import TagTypes.Proofs.Dict
import TagTypes.Proofs.Except
import TagTypes.Proofs.Json.RoundTrip

/-!
# Values that read back as themselves

A legible value is the value of its own text. Whatever the reader gives is legible, so a value that was read once can be written and read again without loss.
-/

namespace TagTypes

namespace Json

open Reader Printer
open Text (natDigits)

/-- Nothing in the value is lost when it is written and read with at most `depth` collections inside one another. -/
inductive Legible : ℕ → Json → Prop
  | null {depth : ℕ} : Legible depth .null
  | bool {depth : ℕ} (b : Bool) : Legible depth (.bool b)
  | int {depth : ℕ} {n : ℤ} (hn : (natDigits n.natAbs).length ≤ Text.maxDigits) : Legible depth (.int n)
  | real {depth : ℕ} {x : Binary64} (hx : x.IsCanonical) : Legible depth (.real x)
  | str {depth : ℕ} (s : String) : Legible depth (.str s)
  | arr {depth : ℕ} {items : List Json} (hitems : ∀ v ∈ items, Legible depth v) : Legible (depth + 1) (.arr items)
  | obj {depth : ℕ} {fields : List (String × Json)} (hnames : (fields.map Prod.fst).Nodup)
      (hfields : ∀ f ∈ fields, Legible depth f.2) : Legible (depth + 1) (.obj fields)

/-! ### Legible values read back -/

theorem rereadReal_of_isCanonical {x : Binary64} (hx : x.IsCanonical) : rereadReal x = x := by
  cases x with
  | nan => rfl
  | infinite negative => rfl
  | finite negative mantissa exponent => exact Binary64.readDecimal_print numberStyle hx

theorem rereadItems_of_forall {depth : ℕ} {items : List Json} (hitems : ∀ v ∈ items, reread depth v = .ok v) :
    rereadItems depth items = .ok items := by
  induction items with
  | nil => rfl
  | cons v rest ih =>
    rw [rereadItems, hitems v (by simp), ih fun w hw => hitems w (by simp [hw])]
    rfl

theorem rereadFields_of_forall {depth : ℕ} {fields : List (String × Json)}
    (hfields : ∀ f ∈ fields, reread depth f.2 = .ok f.2) : rereadFields depth fields = .ok fields := by
  induction fields with
  | nil => rfl
  | cons f rest ih =>
    obtain ⟨name, v⟩ := f
    rw [rereadFields, hfields (name, v) (by simp), ih fun g hg => hfields g (by simp [hg])]
    rfl

theorem place_of_not_mem {name : String} {v : Json} {fields : List (String × Json)}
    (hname : name ∉ fields.map Prod.fst) : Dict.place name v fields = fields ++ [(name, v)] := by
  induction fields with
  | nil => rfl
  | cons f rest ih =>
    rw [List.map_cons, List.mem_cons, not_or] at hname
    rw [Dict.place, if_neg (Ne.symm hname.1), ih hname.2]
    rfl

theorem foldl_place {known fields : List (String × Json)} (hnames : ((known ++ fields).map Prod.fst).Nodup) :
    fields.foldl (fun known field => Dict.place field.1 field.2 known) known = known ++ fields := by
  induction fields generalizing known with
  | nil => rw [List.foldl_nil, List.append_nil]
  | cons f rest ih =>
    have hname : f.1 ∉ known.map Prod.fst := by
      rw [List.map_append, List.nodup_append] at hnames
      intro hmem
      exact hnames.2.2 f.1 hmem f.1 (by simp) rfl
    rw [List.foldl_cons, place_of_not_mem hname, ih (by simpa using hnames), List.append_assoc, List.singleton_append]

theorem ofFields_of_nodup {fields : List (String × Json)} (hnames : (fields.map Prod.fst).Nodup) :
    ofFields fields = .obj fields := by
  rw [ofFields, foldl_place (by simpa using hnames), List.nil_append]

theorem Legible.reread_eq {depth : ℕ} {v : Json} (hv : Legible depth v) : reread depth v = .ok v := by
  induction hv with
  | null => rfl
  | bool b => rfl
  | int hn => rw [reread, if_pos hn]
  | real hx => rw [reread, rereadReal_of_isCanonical hx]
  | str s => rfl
  | arr _ ih =>
    rw [reread, rereadItems_of_forall ih]
    rfl
  | obj hnames _ ih =>
    rw [reread, rereadFields_of_forall ih]
    exact congrArg Except.ok (ofFields_of_nodup hnames)

/-- A legible value is read from its one-line text. -/
theorem Legible.read_compactText {v : Json} (hv : Legible maxDepth v) : read v.compactText = .ok v := by
  rw [Json.read_compactText, hv.reread_eq]
  rfl

/-- A legible value is read from its indented text. -/
theorem Legible.read_indentedText {v : Json} (hv : Legible maxDepth v) : read v.indentedText = .ok v := by
  rw [Json.read_indentedText, hv.reread_eq]
  rfl

/-- A legible value is read from its indented text with blanks after it. -/
theorem Legible.read_indentedText_append {v : Json} (hv : Legible maxDepth v) {blanks : String}
    (hblanks : ∀ c ∈ blanks.toList, isSpace c = true) : read (v.indentedText ++ blanks) = .ok v := by
  rw [Json.read_indentedText_append v hblanks, hv.reread_eq]
  rfl

theorem Legible.mono {depth deeper : ℕ} {v : Json} (hv : Legible depth v) (hle : depth ≤ deeper) : Legible deeper v := by
  induction hv generalizing deeper with
  | null => exact .null
  | bool b => exact .bool b
  | int hn => exact .int hn
  | real hx => exact .real hx
  | str s => exact .str s
  | arr _ ih =>
    obtain ⟨deeper, rfl⟩ := Nat.exists_eq_add_one_of_ne_zero (show deeper ≠ 0 by omega)
    exact .arr fun v hv => ih v hv (by omega)
  | obj hnames _ ih =>
    obtain ⟨deeper, rfl⟩ := Nat.exists_eq_add_one_of_ne_zero (show deeper ≠ 0 by omega)
    exact .obj hnames fun f hf => ih f hf (by omega)

theorem nestingOfItems_le {depth : ℕ} {items : List Json} :
    nestingOfItems items ≤ depth ↔ ∀ v ∈ items, v.nesting ≤ depth := by
  induction items with
  | nil => simp [nestingOfItems]
  | cons v rest ih => rw [nestingOfItems, Nat.max_le, ih, List.forall_mem_cons]

theorem nestingOfFields_le {depth : ℕ} {fields : List (String × Json)} :
    nestingOfFields fields ≤ depth ↔ ∀ f ∈ fields, f.2.nesting ≤ depth := by
  induction fields with
  | nil => simp [nestingOfFields]
  | cons f rest ih => rw [nestingOfFields, Nat.max_le, ih, List.forall_mem_cons]

theorem Legible.nesting_le {depth : ℕ} {v : Json} (hv : Legible depth v) : v.nesting ≤ depth := by
  induction hv with
  | null | bool | int | real | str => exact Nat.zero_le _
  | arr _ ih => exact Nat.succ_le_succ (nestingOfItems_le.2 ih)
  | obj _ _ ih => exact Nat.succ_le_succ (nestingOfFields_le.2 ih)

/-! ### What the reader gives is legible -/

theorem Legible.ofFields {depth : ℕ} {fields : List (String × Json)} (hfields : ∀ f ∈ fields, Legible depth f.2) :
    Legible (depth + 1) (ofFields fields) := by
  suffices hfold : ∀ known : List (String × Json), (known.map Prod.fst).Nodup → (∀ f ∈ known, Legible depth f.2) →
      Legible (depth + 1) (.obj (fields.foldl (fun known field => Dict.place field.1 field.2 known) known)) from
    hfold [] (by simp) (by simp)
  induction fields with
  | nil => exact fun known hnames hknown => .obj hnames hknown
  | cons f rest ih =>
    intro known hnames hknown
    refine ih (fun g hg => hfields g (by simp [hg])) _ (Dict.nodup_place _ _ hnames) ?_
    intro g hg
    rcases Dict.mem_place hg with rfl | hg
    · exact hfields f (by simp)
    · exact hknown g hg

theorem isDigit_of_mem_digits {cs : List Char} : ∀ c ∈ (digits cs).1, c.isDigit = true :=
  List.all_eq_true.1 List.all_takeWhile

/-- The whole part of a number is made of digits, at least one. -/
theorem wholePart_digits {cs whole rest : List Char} (hwhole : wholePart cs = some (whole, rest)) :
    whole ≠ [] ∧ ∀ c ∈ whole, c.isDigit = true := by
  unfold wholePart at hwhole
  split at hwhole
  · cases hwhole
    exact ⟨by simp, by simp⟩
  · simp only at hwhole
    split at hwhole
    · cases hwhole
    · rename_i hne
      cases hwhole
      exact ⟨by simpa using hne, isDigit_of_mem_digits⟩

theorem length_natDigits_decimalValue_le {ds : List Char} (hne : ds ≠ []) (hds : ∀ c ∈ ds, c.isDigit = true) :
    (natDigits (decimalValue ds)).length ≤ ds.length :=
  (Text.length_natDigits_le_iff (List.length_pos_iff.2 hne)).2 (Text.decimalValue_lt hds)

theorem natAbs_signed (negative : Bool) (n : ℕ) : (Text.signed negative n).natAbs = n := by
  cases negative <;> simp [Text.signed]

theorem isCanonical_readDecimal (cs : List Char) : (Binary64.readDecimal cs).IsCanonical :=
  Binary64.isCanonical_ofDecimal _ _ _

theorem legible_of_number {cs rest : List Char} {v : Json} (hv : number cs = .ok (v, rest)) {depth : ℕ} :
    Legible depth v := by
  unfold number at hv
  simp only at hv
  split at hv
  · cases hv
  · rename_i whole after hwhole
    split at hv
    · split at hv
      · rename_i hlength
        cases hv
        obtain ⟨hne, hdigits⟩ := wholePart_digits hwhole
        refine .int ?_
        rw [natAbs_signed]
        exact (length_natDigits_decimalValue_le hne hdigits).trans hlength
      · cases hv
    · cases hv
      exact .real (isCanonical_readDecimal _)

theorem legible_of_word {cs rest : List Char} {v : Json} (hv : word? cs = some (v, rest)) {depth : ℕ} :
    Legible depth v := by
  obtain ⟨⟨word, w⟩, hmem, hw⟩ := List.exists_of_findSome?_eq_some hv
  obtain ⟨tail, -, heq⟩ := Option.map_eq_some_iff.1 hw
  cases heq
  simp only [words, List.mem_cons, List.not_mem_nil, or_false, Prod.mk.injEq] at hmem
  rcases hmem with ⟨-, rfl⟩ | ⟨-, rfl⟩ | ⟨-, rfl⟩ | ⟨-, rfl⟩ | ⟨-, rfl⟩ | ⟨-, rfl⟩
  · exact .null
  · exact .bool true
  · exact .bool false
  · exact .real trivial
  · exact .real trivial
  · exact .real trivial

/-- What `value`, `items` and `fields` give with some fuel is legible. -/
structure GivesLegible (fuel : ℕ) : Prop where
  value : ∀ {depth cs v rest}, Reader.value fuel depth cs = .ok (v, rest) → Legible depth v
  items : ∀ {depth cs vs rest}, Reader.items fuel depth cs = .ok (vs, rest) → ∀ v ∈ vs, Legible depth v
  fields : ∀ {depth cs fs rest}, Reader.fields fuel depth cs = .ok (fs, rest) → ∀ f ∈ fs, Legible depth f.2

theorem givesLegible_zero : GivesLegible 0 where
  value h := by cases h
  items h := by cases h
  fields h := by cases h

namespace GivesLegible

variable {fuel depth : ℕ} {cs rest : List Char} (ih : GivesLegible fuel)

include ih

theorem value_succ {v : Json} (hv : Reader.value (fuel + 1) depth cs = .ok (v, rest)) : Legible depth v := by
  unfold Reader.value at hv
  split at hv
  · obtain ⟨⟨s, after⟩, -, hs⟩ := bind_eq_ok hv
    cases hs
    exact .str s
  · split at hv
    · cases hv
    · split at hv
      · cases hv
        exact .arr (by simp)
      · obtain ⟨⟨vs, after⟩, hvs, heq⟩ := bind_eq_ok hv
        cases heq
        exact .arr (ih.items hvs)
  · split at hv
    · cases hv
    · split at hv
      · cases hv
        exact .obj (by simp) (by simp)
      · obtain ⟨⟨fs, after⟩, hfs, heq⟩ := bind_eq_ok hv
        cases heq
        exact .ofFields (ih.fields hfs)
  · split at hv
    · rename_i hword
      cases hv
      exact legible_of_word hword
    · exact legible_of_number hv

theorem items_succ {vs : List Json} (hvs : Reader.items (fuel + 1) depth cs = .ok (vs, rest)) :
    ∀ v ∈ vs, Legible depth v := by
  rw [Reader.items] at hvs
  obtain ⟨⟨v, after⟩, hv, hvs⟩ := bind_eq_ok hvs
  simp only at hvs
  split at hvs
  · cases hvs
    simpa using ih.value hv
  · obtain ⟨⟨more, last⟩, hmore, heq⟩ := bind_eq_ok hvs
    cases heq
    exact List.forall_mem_cons.2 ⟨ih.value hv, ih.items hmore⟩
  · cases hvs

theorem fields_succ {fs : List (String × Json)} (hfs : Reader.fields (fuel + 1) depth cs = .ok (fs, rest)) :
    ∀ f ∈ fs, Legible depth f.2 := by
  rw [Reader.fields.eq_def] at hfs
  simp only at hfs
  split at hfs
  · obtain ⟨⟨name, after⟩, -, hfs⟩ := bind_eq_ok hfs
    simp only at hfs
    split at hfs
    · obtain ⟨⟨v, after⟩, hv, hfs⟩ := bind_eq_ok hfs
      simp only at hfs
      split at hfs
      · cases hfs
        simpa using ih.value hv
      · obtain ⟨⟨more, last⟩, hmore, heq⟩ := bind_eq_ok hfs
        cases heq
        exact List.forall_mem_cons.2 ⟨ih.value hv, ih.fields hmore⟩
      · cases hfs
    · cases hfs
  · cases hfs

end GivesLegible

theorem givesLegible : ∀ fuel, GivesLegible fuel
  | 0 => givesLegible_zero
  | fuel + 1 => ⟨(givesLegible fuel).value_succ, (givesLegible fuel).items_succ, (givesLegible fuel).fields_succ⟩

/-- What is read from a text is legible. -/
theorem legible_of_read {text : String} {v : Json} (hv : read text = .ok v) : Legible maxDepth v := by
  unfold read at hv
  cases hdocument : document text.toList with
  | error stop =>
    rw [hdocument] at hv
    cases hv
  | ok w =>
    rw [hdocument] at hv
    cases hv
    unfold document at hdocument
    split at hdocument
    · cases hdocument
    · obtain ⟨⟨u, rest⟩, hu, hrest⟩ := bind_eq_ok hdocument
      simp only at hrest
      split at hrest
      · cases hrest
        exact (givesLegible _).value hu
      · cases hrest

end Json

end TagTypes
