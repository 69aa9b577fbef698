import Mathlib.Data.String.Basic
import Mathlib.Tactic
import TagTypes.Proofs.Schema.References
import TagTypes.Proofs.Text.Sorted
import TagTypes.Udt.Dependency

/-!
# The order of dependent types

Taking the least name that uses none of those left gives, if it never gets stuck, the first in the order of the dictionary of all orders in which no name stands before one that it uses. It gets stuck exactly if the uses run in a circle. Schemas are arranged along these names, or along the names in plain order if there is a circle: none is lost, those of one name stay together as they came, and so the names of the arranged schemas do not depend on how the schemas came.
-/

namespace TagTypes.Dependency

/-- No name uses itself in a circle. -/
def Acyclic (uses : String → String → Prop) : Prop := ∀ name, ¬Relation.TransGen uses name name

/-- No name stands before one that it uses. -/
def Respects (uses : String → String → Prop) (names : List String) : Prop :=
  names.Pairwise fun earlier later => ¬uses earlier later

/-! ### Taking the least name -/

section Take

variable {uses : String → String → Bool} {left taken : List String} {fuel : ℕ} {name : String}

/-- The first of the names left that uses none of them. -/
def next? (uses : String → String → Bool) (left : List String) : Option String :=
  left.find? fun name => left.all fun other => !uses name other

theorem take_of_next {fuel : ℕ} (hnext : next? uses left = some name) :
    take uses (fuel + 1) left = (take uses fuel (left.erase name)).map (name :: ·) := by
  cases left with
  | nil => cases hnext
  | cons first rest =>
    rw [next?] at hnext
    simp only [take, hnext]

theorem take_of_stuck {fuel : ℕ} (hnext : next? uses left = none) :
    take uses (fuel + 1) left = if left.isEmpty then some [] else none := by
  cases left with
  | nil => rfl
  | cons first rest =>
    rw [next?] at hnext
    simp only [take, hnext]
    rfl

theorem mem_of_next (hnext : next? uses left = some name) : name ∈ left := List.mem_of_find?_eq_some hnext

theorem not_uses_of_next (hnext : next? uses left = some name) : ∀ other ∈ left, ¬uses name other := by
  simpa using List.find?_some hnext

/-- What is taken is nothing, or the next name and then what is taken of the others. -/
theorem take_eq_some (htake : take uses fuel left = some taken) :
    left = [] ∧ taken = [] ∨
      ∃ less name rest, fuel = less + 1 ∧ next? uses left = some name ∧
        take uses less (left.erase name) = some rest ∧ taken = name :: rest := by
  have hnothing : (if left.isEmpty then some [] else none) = some taken → left = [] ∧ taken = [] := by
    cases left with
    | nil =>
      intro htaken
      cases htaken
      exact ⟨rfl, rfl⟩
    | cons first rest =>
      intro htaken
      cases htaken
  cases fuel with
  | zero => exact Or.inl (hnothing htake)
  | succ less =>
    cases hnext : next? uses left with
    | none =>
      rw [take_of_stuck hnext] at htake
      exact Or.inl (hnothing htake)
    | some name =>
      rw [take_of_next hnext] at htake
      obtain ⟨rest, hrest, rfl⟩ := Option.map_eq_some_iff.1 htake
      exact Or.inr ⟨less, name, rest, rfl, rfl, hrest, rfl⟩

/-- What holds of nothing, and with the next name of what is taken, holds of all that is taken. -/
theorem take_induction {P : List String → List String → Prop} (hnothing : P [] [])
    (hnext : ∀ left name rest, next? uses left = some name → P (left.erase name) rest → P left (name :: rest)) :
    ∀ {fuel : ℕ} {left taken : List String}, take uses fuel left = some taken → P left taken := by
  intro fuel
  induction fuel with
  | zero =>
    intro left taken htake
    rcases take_eq_some htake with ⟨rfl, rfl⟩ | ⟨less, name, rest, hfuel, -⟩
    · exact hnothing
    · cases hfuel
  | succ fuel ih =>
    intro left taken htake
    rcases take_eq_some htake with ⟨rfl, rfl⟩ | ⟨less, name, rest, hfuel, hname, hrest, rfl⟩
    · exact hnothing
    · cases hfuel
      exact hnext left name rest hname (ih hrest)

theorem perm_of_take (htake : take uses fuel left = some taken) : taken.Perm left := by
  refine take_induction (P := fun left taken => taken.Perm left) (.refl _) ?_ htake
  intro left name rest hname hrest
  exact (hrest.cons name).trans (List.perm_cons_erase (mem_of_next hname)).symm

theorem respects_of_take (htake : take uses fuel left = some taken) : Respects (uses · ·) taken := by
  refine (take_induction (P := fun left taken => taken.Perm left ∧ Respects (uses · ·) taken) ⟨.refl _, .nil⟩ ?_ htake).2
  intro left name rest hname hboth
  obtain ⟨hperm, hrest⟩ := hboth
  refine ⟨(hperm.cons name).trans (List.perm_cons_erase (mem_of_next hname)).symm, List.Pairwise.cons ?_ hrest⟩
  intro other hother
  exact not_uses_of_next hname other (List.mem_of_mem_erase (hperm.subset hother))

/-- Of names in order, the next one is the least that uses none of them. -/
theorem next_le (hsorted : left.Pairwise (· ≤ ·)) (hnext : next? uses left = some name) {other : String}
    (hother : other ∈ left) (hfree : ∀ used ∈ left, ¬uses other used) : name ≤ other := by
  obtain ⟨-, before, after, rfl, hbefore⟩ := List.find?_eq_some_iff_append.1 hnext
  rw [List.mem_append, List.mem_cons] at hother
  rcases hother with hother | rfl | hother
  · have hstuck := hbefore other hother
    simp only [Bool.not_eq_true', List.all_eq_false, Bool.not_eq_true', Bool.not_eq_false] at hstuck
    obtain ⟨used, hused, huses⟩ := hstuck
    exact absurd (by simpa using huses) (hfree used hused)
  · exact le_refl _
  · exact (List.pairwise_cons.1 (List.pairwise_append.1 hsorted).2.1).1 other hother

/-- What is taken from names in order comes first, in the order of the dictionary, of all their orders in which no name stands before one that it uses. -/
theorem least_of_take (hirrefl : ∀ name, ¬uses name name) (htake : take uses fuel left = some taken)
    (hsorted : left.Pairwise (· ≤ ·)) {other : List String} (hperm : other.Perm left) (hother : Respects (uses · ·) other) :
    taken = other ∨ List.Lex (· < ·) taken other := by
  suffices hall : left.Pairwise (· ≤ ·) → ∀ other : List String, other.Perm left → Respects (uses · ·) other →
      taken = other ∨ List.Lex (· < ·) taken other from hall hsorted other hperm hother
  refine take_induction (P := fun left taken => left.Pairwise (· ≤ ·) → ∀ other : List String, other.Perm left →
    Respects (uses · ·) other → taken = other ∨ List.Lex (· < ·) taken other) ?_ ?_ htake
  · intro _ other hperm _
    exact Or.inl hperm.eq_nil.symm
  · intro left name rest hname ih hsorted other hperm hother
    cases other with
    | nil =>
      rw [← hperm.nil_eq] at hname
      cases hname
    | cons first more =>
      have hfirst : first ∈ left := hperm.subset List.mem_cons_self
      have hfree : ∀ used ∈ left, ¬uses first used := by
        intro used hused
        rcases List.mem_cons.1 (hperm.symm.subset hused) with rfl | hused
        · exact hirrefl used
        · exact (List.pairwise_cons.1 hother).1 used hused
      rcases lt_or_eq_of_le (next_le hsorted hname hfirst hfree) with hlt | rfl
      · exact Or.inr (.rel hlt)
      · have hmore : more.Perm (left.erase name) := (hperm.trans (List.perm_cons_erase hfirst)).cons_inv
        rcases ih (hsorted.sublist List.erase_sublist) more hmore (List.pairwise_cons.1 hother).2 with rfl | hlex
        · exact Or.inl rfl
        · exact Or.inr (.cons hlex)

/-- Without a circle one of the names left uses none of them. -/
theorem exists_next (hacyclic : Acyclic (uses · ·)) (hleft : left ≠ []) : ∃ name, next? uses left = some name := by
  let before : String → String → Prop := fun used user => Relation.TransGen (fun user used => uses user used = true) user used
  have horder : IsStrictOrder String before :=
    { irrefl := hacyclic
      trans := fun a b c hab hbc => hbc.trans hab }
  have hwell := (List.finite_toSet left).wellFoundedOn (r := before)
  obtain ⟨first, hfirst⟩ := List.exists_mem_of_ne_nil left hleft
  obtain ⟨⟨name, hname⟩, -, hleast⟩ := hwell.has_min Set.univ ⟨⟨first, hfirst⟩, trivial⟩
  cases hnext : next? uses left with
  | some found => exact ⟨found, rfl⟩
  | none =>
    have hstuck := List.find?_eq_none.1 hnext name hname
    simp only [Bool.not_eq_true, List.all_eq_false, Bool.not_eq_true', Bool.not_eq_false] at hstuck
    obtain ⟨used, hused, huses⟩ := hstuck
    exact absurd (.single (by simpa using huses)) (hleast ⟨used, hused⟩ trivial)

theorem exists_take (hacyclic : Acyclic (uses · ·)) :
    ∀ {fuel : ℕ} {left : List String}, left.length ≤ fuel → ∃ taken, take uses fuel left = some taken := by
  intro fuel
  induction fuel with
  | zero =>
    intro left hfuel
    rw [List.length_eq_zero_iff.1 (Nat.le_zero.1 hfuel)]
    exact ⟨[], rfl⟩
  | succ fuel ih =>
    intro left hfuel
    by_cases hempty : left = []
    · rw [hempty]
      exact ⟨[], rfl⟩
    · obtain ⟨name, hnext⟩ := exists_next hacyclic hempty
      have hshorter : (left.erase name).length ≤ fuel := by
        rw [List.length_erase_of_mem (mem_of_next hnext)]
        omega
      obtain ⟨rest, hrest⟩ := ih hshorter
      exact ⟨name :: rest, by rw [take_of_next hnext, hrest]; rfl⟩

end Take

/-- Names in an order in which none stands before one that it uses have no circle among them. -/
theorem acyclic_of_respects {uses : String → String → Prop} {names : List String} (hrespects : Respects uses names)
    (hirrefl : ∀ name, ¬uses name name) (hmem : ∀ user used, uses user used → user ∈ names ∧ used ∈ names) :
    Acyclic uses := by
  have hstep : ∀ user used, uses user used → names.idxOf used < names.idxOf user := by
    intro user used huses
    obtain ⟨huser, hused⟩ := hmem user used huses
    by_contra hnot
    rcases Nat.lt_or_eq_of_le (not_lt.1 hnot) with hlt | heq
    · have hpair := List.pairwise_iff_getElem.1 hrespects _ _ (List.idxOf_lt_length_of_mem huser)
        (List.idxOf_lt_length_of_mem hused) hlt
      rw [List.getElem_idxOf, List.getElem_idxOf] at hpair
      exact hpair huses
    · have hsame := (List.idxOf_inj huser).1 heq
      subst hsame
      exact hirrefl user huses
  intro name hcircle
  have hless : ∀ {user used}, Relation.TransGen uses user used → names.idxOf used < names.idxOf user := by
    intro user used hway
    induction hway with
    | single huses => exact hstep _ _ huses
    | tail _ huses ih => exact (hstep _ _ huses).trans ih
  exact lt_irrefl _ (hless hcircle)

/-! ### The names of schemas -/

section Names

variable {schemas : List Schema} {name user used : String}

/-- Some schema called `user` refers to the type `used`, which is another one of those described. -/
def Uses (schemas : List Schema) (user used : String) : Prop :=
  used ≠ user ∧ (∃ s ∈ schemas, s.name = used) ∧ ∃ s ∈ schemas, s.name = user ∧ s.RefersTo used

theorem uses_eq_true_iff : uses schemas user used = true ↔ Uses schemas user used := by
  simp only [uses, Uses, Bool.and_eq_true, decide_eq_true_eq, List.any_eq_true, List.contains_iff_mem,
    Schema.mem_references_iff, and_assoc]

theorem not_uses_self : ¬uses schemas name name = true := by
  rw [uses_eq_true_iff]
  exact fun huses => huses.1 rfl

theorem mem_names_iff : name ∈ names schemas ↔ ∃ s ∈ schemas, s.name = name := by
  rw [names, Text.mem_sortedSet, List.mem_map]

theorem nodup_names (schemas : List Schema) : (names schemas).Nodup := Text.nodup_sortedSet _

theorem topological?_eq_none_iff : topological? schemas = none ↔ ¬Acyclic (Uses schemas) := by
  have hrelation : Uses schemas = (uses schemas · · = true) := by
    funext user used
    exact propext uses_eq_true_iff.symm
  rw [hrelation]
  constructor
  · intro hnone hacyclic
    obtain ⟨taken, htake⟩ := exists_take hacyclic (le_refl (names schemas).length)
    rw [topological?, htake] at hnone
    cases hnone
  · intro hcircle
    by_contra hsome
    obtain ⟨taken, htake⟩ := Option.ne_none_iff_exists'.1 hsome
    refine hcircle (acyclic_of_respects (respects_of_take htake) (fun _ => not_uses_self) ?_)
    intro user used huses
    obtain ⟨-, hused, s, hs, huser, -⟩ := uses_eq_true_iff.1 huses
    rw [(perm_of_take htake).mem_iff, (perm_of_take htake).mem_iff, mem_names_iff, mem_names_iff]
    exact ⟨⟨s, hs, huser⟩, hused⟩

theorem perm_orderedNames (schemas : List Schema) : (orderedNames schemas).Perm (names schemas) := by
  unfold orderedNames
  cases htake : topological? schemas with
  | none => exact .refl _
  | some taken => exact perm_of_take htake

theorem nodup_orderedNames (schemas : List Schema) : (orderedNames schemas).Nodup :=
  (perm_orderedNames schemas).nodup_iff.2 (nodup_names schemas)

theorem mem_orderedNames_iff : name ∈ orderedNames schemas ↔ ∃ s ∈ schemas, s.name = name := by
  rw [(perm_orderedNames schemas).mem_iff, mem_names_iff]

/-- The order of the names depends only on which schemas there are. -/
theorem orderedNames_congr {other : List Schema} (hsame : ∀ s, s ∈ other ↔ s ∈ schemas) :
    orderedNames other = orderedNames schemas := by
  have hnames : names other = names schemas := by
    refine Text.sortedSet_congr fun name => ?_
    simp only [List.mem_map, hsame]
  have huses : uses other = uses schemas := by
    funext user used
    rw [Bool.eq_iff_iff, uses_eq_true_iff, uses_eq_true_iff]
    simp only [Uses, hsame]
  simp only [orderedNames, topological?, hnames, huses]

end Names

/-! ### Schemas along their names -/

section Order

variable {schemas : List Schema}

theorem order_eq_flatMap (schemas : List Schema) :
    order schemas = (orderedNames schemas).flatMap fun name => schemas.filter fun s => s.name = name := by
  rw [order, arrange, List.map_id]
  rfl

/-- The names of schemas, each where it comes first. -/
def firstNames (schemas : List Schema) : List String := (schemas.map Schema.name).eraseDups

/-- Schemas that are put together by their names are the same schemas. -/
theorem perm_flatMap_filter {ns : List String} (hns : ns.Nodup) :
    ∀ {schemas : List Schema}, (∀ s ∈ schemas, s.name ∈ ns) →
      (ns.flatMap fun name => schemas.filter fun s => s.name = name).Perm schemas := by
  induction ns with
  | nil =>
    intro schemas hall
    have hempty : schemas = [] := List.eq_nil_iff_forall_not_mem.2 fun s hs => by simpa using hall s hs
    rw [hempty]
    exact .refl _
  | cons first rest ih =>
    intro schemas hall
    rw [List.nodup_cons] at hns
    have hrest : (rest.flatMap fun name => schemas.filter fun s => s.name = name) =
        rest.flatMap fun name => (schemas.filter fun s => s.name ≠ first).filter fun s => s.name = name := by
      refine List.flatMap_congr fun name hname => ?_
      rw [List.filter_filter]
      refine List.filter_congr fun s _ => ?_
      have hne : name ≠ first := fun heq => hns.1 (heq ▸ hname)
      grind
    rw [List.flatMap_cons, hrest]
    have hnames : ∀ s ∈ schemas.filter fun s => s.name ≠ first, s.name ∈ rest := by
      intro s hs
      rw [List.mem_filter, decide_eq_true_eq] at hs
      exact (List.mem_cons.1 (hall s hs.1)).resolve_left hs.2
    refine ((ih hns.2 hnames).append_left _).trans ?_
    simpa using List.filter_append_perm (fun s => decide (s.name = first)) schemas

/-- The arranged schemas are the schemas. -/
theorem perm_order (schemas : List Schema) : (order schemas).Perm schemas := by
  rw [order_eq_flatMap]
  exact perm_flatMap_filter (nodup_orderedNames schemas) fun s hs => mem_orderedNames_iff.2 ⟨s, hs, rfl⟩

theorem mem_order {s : Schema} : s ∈ order schemas ↔ s ∈ schemas := (perm_order schemas).mem_iff

theorem order_nil : order [] = [] := (perm_order []).eq_nil

theorem map_name_filter (schemas : List Schema) (name : String) :
    (schemas.filter fun s => s.name = name).map Schema.name = List.replicate ((schemas.map Schema.name).count name) name := by
  rw [← List.filter_beq, List.filter_map]
  exact congrArg (List.map Schema.name) (List.filter_congr fun s _ => (beq_eq_decide s.name name).symm)

theorem map_name_order (schemas : List Schema) :
    (order schemas).map Schema.name =
      (orderedNames schemas).flatMap fun name => List.replicate ((schemas.map Schema.name).count name) name := by
  rw [order_eq_flatMap, List.map_flatMap]
  exact List.flatMap_congr fun name _ => map_name_filter schemas name

/-- Of names that stand together, each is kept once. -/
theorem eraseDups_flatMap_replicate {ns : List String} {times : String → ℕ} (hns : ns.Nodup)
    (htimes : ∀ name ∈ ns, times name ≠ 0) : (ns.flatMap fun name => List.replicate (times name) name).eraseDups = ns := by
  induction ns with
  | nil => rfl
  | cons first rest ih =>
    rw [List.nodup_cons] at hns
    obtain ⟨more, hmore⟩ := Nat.exists_eq_succ_of_ne_zero (htimes first List.mem_cons_self)
    have hothers : ((List.replicate more first ++ rest.flatMap fun name => List.replicate (times name) name).filter
        fun name => !name == first) = rest.flatMap fun name => List.replicate (times name) name := by
      rw [List.filter_append, List.filter_eq_nil_iff.2 (by simp +contextual), List.nil_append, List.filter_eq_self]
      intro name hname
      obtain ⟨other, hother, hname⟩ := List.mem_flatMap.1 hname
      obtain rfl := (List.mem_replicate.1 hname).2
      have hne : name ≠ first := fun heq => hns.1 (heq ▸ hother)
      simpa using hne
    rw [List.flatMap_cons, hmore, List.replicate_succ, List.cons_append, List.eraseDups_cons, hothers,
      ih hns.2 fun name hname => htimes name (List.mem_cons_of_mem _ hname)]

theorem firstNames_order (schemas : List Schema) : firstNames (order schemas) = orderedNames schemas := by
  rw [firstNames, map_name_order]
  refine eraseDups_flatMap_replicate (nodup_orderedNames schemas) fun name hname => ?_
  obtain ⟨s, hs, rfl⟩ := mem_orderedNames_iff.1 hname
  rw [Ne, List.count_eq_zero, not_not]
  exact List.mem_map_of_mem hs

/-- What holds of the ordered names, two by two, holds of the names of the arranged schemas. -/
theorem pairwise_map_name_order {R : String → String → Prop} (hrefl : ∀ name, R name name)
    (hnames : (orderedNames schemas).Pairwise R) : ((order schemas).map Schema.name).Pairwise R := by
  rw [map_name_order, List.pairwise_flatMap]
  constructor
  · intro name _
    exact List.pairwise_replicate.2 (Or.inr (hrefl name))
  · refine hnames.imp fun hR x hx y hy => ?_
    rw [(List.mem_replicate.1 hx).2, (List.mem_replicate.1 hy).2]
    exact hR

theorem perm_firstNames (schemas : List Schema) : (orderedNames schemas).Perm (firstNames schemas) :=
  (perm_orderedNames schemas).trans (Text.perm_sorted _)

/-- The names of the schemas, in an order in which none stands before one that it uses. -/
structure IsTopological (schemas : List Schema) (ns : List String) : Prop where
  perm : ns.Perm (firstNames schemas)
  respects : Respects (Uses schemas) ns

/-- Without a circle the ordered names are the first, in the order of the dictionary, of the orders in which used types come first. -/
theorem least_orderedNames (hacyclic : Acyclic (Uses schemas)) :
    IsTopological schemas (orderedNames schemas) ∧
      ∀ ns, IsTopological schemas ns → orderedNames schemas = ns ∨ List.Lex (· < ·) (orderedNames schemas) ns := by
  have hrelation : Uses schemas = (uses schemas · · = true) := by
    funext user used
    exact propext uses_eq_true_iff.symm
  cases htake : topological? schemas with
  | none => exact absurd hacyclic (topological?_eq_none_iff.1 htake)
  | some taken =>
    have hnames : orderedNames schemas = taken := by rw [orderedNames, htake]; rfl
    refine ⟨⟨perm_firstNames schemas, ?_⟩, fun ns hns => ?_⟩
    · rw [hnames, hrelation]
      exact respects_of_take htake
    · have hperm : ns.Perm (names schemas) := hns.perm.trans (Text.perm_sorted _).symm
      have hrespects : Respects (uses schemas · · = true) ns := hrelation ▸ hns.respects
      rw [hnames]
      exact least_of_take (fun _ => not_uses_self) htake (Text.pairwise_sorted _) hperm hrespects

/-- Arranged schemas are the schemas that came, put together by name and within a name as they came. Without a circle of references each stands after all that it refers to, and no other order of the names with used ones first comes before theirs; with a circle the names stand in plain order. The names of arranged schemas do not depend on the order in which the schemas came. -/
theorem order_arranged (schemas : List Schema) :
    (order schemas).Perm schemas ∧
      order schemas = ((firstNames (order schemas)).flatMap fun name => schemas.filter fun s => s.name = name) ∧
      (Acyclic (Uses schemas) →
        (order schemas).Pairwise (fun earlier later => ¬Uses schemas earlier.name later.name) ∧
          IsTopological schemas (firstNames (order schemas)) ∧
          ∀ ns, IsTopological schemas ns →
            firstNames (order schemas) = ns ∨ List.Lex (· < ·) (firstNames (order schemas)) ns) ∧
      (¬Acyclic (Uses schemas) → ((order schemas).map Schema.name).Pairwise (· ≤ ·)) ∧
      ∀ other : List Schema, other.Perm schemas → (order other).map Schema.name = (order schemas).map Schema.name := by
  rw [firstNames_order]
  refine ⟨perm_order schemas, order_eq_flatMap schemas, fun hacyclic => ?_, fun hcircle => ?_, fun other hperm => ?_⟩
  · obtain ⟨htopological, hleast⟩ := least_orderedNames hacyclic
    refine ⟨List.pairwise_map.1 (pairwise_map_name_order ?_ htopological.respects), htopological, hleast⟩
    exact fun _ huses => huses.1 rfl
  · have hnames : orderedNames schemas = names schemas := by
      rw [orderedNames, topological?_eq_none_iff.2 hcircle]
      rfl
    refine pairwise_map_name_order (R := (· ≤ ·)) le_refl ?_
    rw [hnames]
    exact Text.pairwise_sorted _
  · rw [map_name_order, map_name_order, orderedNames_congr fun s => hperm.mem_iff]
    refine List.flatMap_congr fun name _ => ?_
    rw [(hperm.map Schema.name).count_eq]

end Order

end TagTypes.Dependency
