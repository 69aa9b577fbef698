import Mathlib.Tactic
import TagTypes.Proofs.Json.Halves
import TagTypes.Proofs.TagStore.Reopen

/-!
# Imports of many definitions

To import a list of definitions in one call is to import them in as many calls, one after the other: the same is stored, with the same qualities, unless a definition is too deep to be copied, at which the one call ends. What an import has stored, the same import finds in its place. So to repeat it changes nothing: under the policies that spare what is there no path that is taken is touched, and under the other one the last definition for a path is put there again.
-/

namespace TagTypes

namespace Tags

variable {tags : Tags} {policy : CollisionPolicy} {folder path : String} {v w : Json} {definitions : List Json}

/-! ### One definition -/

/-- What an import makes of one definition. -/
def importOne (policy : CollisionPolicy) (folder : String) (tags : Tags) (v : Json) : Quality × Tags :=
  match tags.admission policy folder v with
  | .settled q => (q, tags)
  | .store path => (.good, tags.insert path v)

/-- A definition is left aside if it can be put nowhere or its path is taken; else it is put at its path, and a path that was taken is one that may be overwritten. -/
theorem importOne_cases (policy : CollisionPolicy) (folder : String) (tags : Tags) (v : Json) :
    ((importOne policy folder tags v).2 = tags ∧ ∀ path, importPath? folder v = some path → tags.contains path = true) ∨
      ∃ path, importPath? folder v = some path ∧ (importOne policy folder tags v).2 = tags.insert path v ∧
        (tags.contains path = true → policy = .overwrite) := by
  unfold importOne
  rw [admission_eq]
  cases importPath? folder v with
  | none => exact Or.inl ⟨rfl, fun path hpath => by cases hpath⟩
  | some path =>
    cases htaken : tags.contains path with
    | false => exact Or.inr ⟨path, rfl, by simp [htaken], by simp [htaken]⟩
    | true =>
      cases policy with
      | overwrite => exact Or.inr ⟨path, rfl, by simp [htaken], fun _ => rfl⟩
      | _ => exact Or.inl ⟨by simp [htaken], fun other hother => by rwa [← Option.some.inj hother]⟩

theorem contains_insert (hpath : tags.contains path = true) (stored : String) (v : Json) :
    (Dict.insert tags stored v).contains path = true := by
  rw [Dict.contains, Dict.get?_insert]
  split
  · rfl
  · exact hpath

theorem contains_importOne_of_contains (hpath : tags.contains path = true) :
    (importOne policy folder tags v).2.contains path = true := by
  rcases importOne_cases policy folder tags v with ⟨hsame, -⟩ | ⟨stored, -, hstored, -⟩
  · rwa [hsame]
  · rw [hstored]
    exact contains_insert hpath stored v

theorem contains_importOne (hpath : importPath? folder v = some path) : (importOne policy folder tags v).2.contains path = true := by
  rcases importOne_cases policy folder tags v with ⟨hsame, htaken⟩ | ⟨stored, hpath', hstored, -⟩
  · rw [hsame, htaken path hpath]
  · cases hpath.symm.trans hpath'
    rw [hstored, Dict.contains, Dict.get?_insert, if_pos rfl]
    rfl

theorem importOne_eq_self (hpolicy : policy ≠ .overwrite) (htaken : ∀ path, importPath? folder v = some path → tags.contains path = true) :
    (importOne policy folder tags v).2 = tags := by
  rcases importOne_cases policy folder tags v with ⟨hsame, -⟩ | ⟨path, hpath, -, hoverwrite⟩
  · exact hsame
  · exact absurd (hoverwrite (htaken path hpath)) hpolicy

theorem get?_importOne (hpolicy : policy ≠ .overwrite) (hpath : tags.get? path = some w) :
    (importOne policy folder tags v).2.get? path = some w := by
  rcases importOne_cases policy folder tags v with ⟨hsame, -⟩ | ⟨stored, -, hstored, hoverwrite⟩
  · rwa [hsame]
  · have hother : stored ≠ path := by
      rintro rfl
      exact hpolicy (hoverwrite (Dict.contains_iff.2 ⟨w, hpath⟩))
    rw [hstored, Dict.get?_insert, if_neg hother, hpath]

/-! ### Many definitions -/

theorem importEach_cons (policy : CollisionPolicy) (folder : String) (v : Json) (rest : List Json) (tags : Tags) :
    importEach policy folder (v :: rest) tags =
      ((importOne policy folder tags v).1 :: (importEach policy folder rest (importOne policy folder tags v).2).1,
        (importEach policy folder rest (importOne policy folder tags v).2).2) := by
  rw [importEach, importOne]
  cases tags.admission policy folder v <;> rfl

theorem importEach_singleton (policy : CollisionPolicy) (folder : String) (v : Json) (tags : Tags) :
    importEach policy folder [v] tags = ([(importOne policy folder tags v).1], (importOne policy folder tags v).2) :=
  importEach_cons policy folder v [] tags

theorem length_importEach (policy : CollisionPolicy) (folder : String) (definitions : List Json) (tags : Tags) :
    (importEach policy folder definitions tags).1.length = definitions.length := by
  induction definitions generalizing tags with
  | nil => rfl
  | cons v rest ih => rw [importEach_cons, List.length_cons, List.length_cons, ih]

theorem contains_importEach_of_contains (hpath : tags.contains path = true) :
    (importEach policy folder definitions tags).2.contains path = true := by
  induction definitions generalizing tags with
  | nil => exact hpath
  | cons v rest ih =>
    rw [importEach_cons]
    exact ih (contains_importOne_of_contains hpath)

theorem contains_importEach (hv : v ∈ definitions) (hpath : importPath? folder v = some path) :
    (importEach policy folder definitions tags).2.contains path = true := by
  induction definitions generalizing tags with
  | nil => cases hv
  | cons first rest ih =>
    rw [importEach_cons]
    rcases List.mem_cons.1 hv with rfl | hv
    · exact contains_importEach_of_contains (contains_importOne hpath)
    · exact ih hv

/-- What is stored stays as it is, unless it may be overwritten. -/
theorem get?_importEach (hpolicy : policy ≠ .overwrite) (hpath : tags.get? path = some w) :
    (importEach policy folder definitions tags).2.get? path = some w := by
  induction definitions generalizing tags with
  | nil => exact hpath
  | cons v rest ih =>
    rw [importEach_cons]
    exact ih (get?_importOne hpolicy hpath)

/-- Of the definitions for one path, the last one overwrites the others. -/
theorem get?_foldl_put_last {before rest : List Json} (hpath : importPath? folder v = some path)
    (hrest : ∀ later ∈ rest, importPath? folder later ≠ some path) :
    ((before ++ v :: rest).foldl (put folder) tags).get? path = some v := by
  rw [List.foldl_append, List.foldl_cons, get?_foldl_put_of_ne hrest, get?_put, if_pos hpath]

/-! ### The same import again -/

theorem importEach_eq_self (hpolicy : policy ≠ .overwrite)
    (htaken : ∀ v ∈ definitions, ∀ path, importPath? folder v = some path → tags.contains path = true) :
    (importEach policy folder definitions tags).2 = tags := by
  induction definitions with
  | nil => rfl
  | cons v rest ih =>
    rw [List.forall_mem_cons] at htaken
    rw [importEach_cons, importOne_eq_self hpolicy htaken.1]
    exact ih htaken.2

theorem keys_foldl_put (htaken : ∀ v ∈ definitions, ∀ path, importPath? folder v = some path → tags.contains path = true) :
    (definitions.foldl (put folder) tags).keys = tags.keys := by
  induction definitions generalizing tags with
  | nil => rfl
  | cons v rest ih =>
    rw [List.forall_mem_cons] at htaken
    have hkeys : (put folder tags v).keys = tags.keys := by
      unfold put
      split
      · rename_i path hpath
        exact Dict.keys_insert_of_contains (htaken.1 path hpath) v
      · rfl
    rw [List.foldl_cons, ih, hkeys]
    intro w hw path hpath
    rw [Dict.contains, ← Dict.mem_keys_iff, hkeys, Dict.mem_keys_iff]
    exact htaken.2 w hw path hpath

theorem foldl_put_foldl_put (definitions : List Json) (folder : String) (tags : Tags)
    (htaken : ∀ v ∈ definitions, ∀ path, importPath? folder v = some path →
      (definitions.foldl (put folder) tags).contains path = true) :
    definitions.foldl (put folder) (definitions.foldl (put folder) tags) = definitions.foldl (put folder) tags := by
  refine Dict.eq_of_keys_of_get? (keys_foldl_put htaken) (funext fun path => ?_)
  have hlies (before : Tags) : (definitions.foldl (put folder) before).get? path =
      ((definitions.foldl (put folder) ∅).get? path).or (before.get? path) := get?_foldl_put
  rw [hlies (definitions.foldl (put folder) tags), hlies tags, ← Option.or_assoc, Option.or_self]

/-- An import finds what it stored in its place. -/
theorem importEach_importEach (policy : CollisionPolicy) (folder : String) (definitions : List Json) (tags : Tags) :
    (importEach policy folder definitions (importEach policy folder definitions tags).2).2 =
      (importEach policy folder definitions tags).2 := by
  have htaken : ∀ v ∈ definitions, ∀ path, importPath? folder v = some path →
      (importEach policy folder definitions tags).2.contains path = true := fun v hv path => contains_importEach hv
  by_cases hpolicy : policy = .overwrite
  · subst hpolicy
    simp only [importEach_overwrite] at htaken ⊢
    exact foldl_put_foldl_put definitions folder tags htaken
  · exact importEach_eq_self hpolicy htaken

/-! ### Attempts -/

theorem attemptEach_append (policy : CollisionPolicy) (folder : String) (before rest : List Json) (tags : Tags) :
    attemptEach policy folder (before ++ rest) tags =
      match attemptEach policy folder before tags with
      | (none, after) => (none, after)
      | (some qualities, after) =>
        ((attemptEach policy folder rest after).1.map (qualities ++ ·), (attemptEach policy folder rest after).2) := by
  induction before generalizing tags with
  | nil => simp [attemptEach]
  | cons v before ih =>
    rw [List.cons_append, attemptEach, attemptEach]
    cases tags.admission policy folder v with
    | settled q =>
      simp only [ih]
      rcases attemptEach policy folder before tags with ⟨_ | qualities, after⟩
      · rfl
      · simp [Function.comp_def]
    | store path =>
      cases isCopyable v with
      | false => rfl
      | true =>
        simp only [if_true, ih]
        rcases attemptEach policy folder before (tags.insert path v) with ⟨_ | qualities, after⟩
        · rfl
        · simp [Function.comp_def]

/-- An attempt succeeds, or it ends at a definition that is to be stored and cannot be copied. -/
theorem attemptEach_cases (policy : CollisionPolicy) (folder : String) (definitions : List Json) (tags : Tags) :
    attemptEach policy folder definitions tags =
        (some (importEach policy folder definitions tags).1, (importEach policy folder definitions tags).2) ∨
      ∃ before v rest, definitions = before ++ v :: rest ∧ isCopyable v = false ∧
        attemptEach policy folder before tags =
          (some (importEach policy folder before tags).1, (importEach policy folder before tags).2) ∧
        (∃ path, (importEach policy folder before tags).2.admission policy folder v = .store path) ∧
        attemptEach policy folder definitions tags = (none, (importEach policy folder before tags).2) := by
  induction definitions generalizing tags with
  | nil => exact Or.inl rfl
  | cons v rest ih =>
    -- the first definition is put in front of what the others give, or it is the one that ends the attempt
    have hfirst : isCopyable v = false ∧ (∃ path, tags.admission policy folder v = .store path) ∨
        ∀ others, attemptEach policy folder (v :: others) tags =
          ((attemptEach policy folder others (importOne policy folder tags v).2).1.map ((importOne policy folder tags v).1 :: ·),
            (attemptEach policy folder others (importOne policy folder tags v).2).2) := by
      unfold importOne
      cases hadmission : tags.admission policy folder v with
      | settled q => exact Or.inr fun others => by rw [attemptEach, hadmission]
      | store path =>
        cases hcopyable : isCopyable v with
        | false => exact Or.inl ⟨rfl, path, rfl⟩
        | true =>
          refine Or.inr fun others => ?_
          rw [attemptEach, hadmission]
          simp only [hcopyable, if_true]
    rcases hfirst with ⟨hcopyable, path, hpath⟩ | hfirst
    · refine Or.inr ⟨[], v, rest, rfl, hcopyable, rfl, ⟨path, hpath⟩, ?_⟩
      rw [attemptEach, hpath]
      simp only [hcopyable, Bool.false_eq_true, if_false]
      rfl
    · rcases ih (importOne policy folder tags v).2 with hok | ⟨before, w, after, rfl, hcopyable, hbefore, hw, hfailed⟩
      · left
        rw [hfirst, hok, importEach_cons]
        rfl
      · refine Or.inr ⟨v :: before, w, after, rfl, hcopyable, ?_, ?_, ?_⟩
        · rw [hfirst, hbefore, importEach_cons]
          rfl
        · rwa [importEach_cons]
        · rw [hfirst, hfailed, importEach_cons]
          rfl

theorem attemptEach_ok {qualities : List Quality} {after : Tags}
    (hok : attemptEach policy folder definitions tags = (some qualities, after)) :
    importEach policy folder definitions tags = (qualities, after) := by
  rcases attemptEach_cases policy folder definitions tags with himport | ⟨before, v, rest, -, -, -, -, hfailed⟩
  · rw [himport] at hok
    cases hok
    rfl
  · rw [hfailed] at hok
    cases hok

/-- Where all paths are taken and spared, nothing is left to be copied. -/
theorem attemptEach_eq_self (hpolicy : policy ≠ .overwrite)
    (htaken : ∀ v ∈ definitions, ∀ path, importPath? folder v = some path → tags.contains path = true) :
    ∃ qualities, attemptEach policy folder definitions tags = (some qualities, tags) := by
  induction definitions with
  | nil => exact ⟨[], rfl⟩
  | cons v rest ih =>
    rw [List.forall_mem_cons] at htaken
    obtain ⟨qualities, hrest⟩ := ih htaken.2
    cases hadmission : tags.admission policy folder v with
    | settled q =>
      refine ⟨q :: qualities, ?_⟩
      rw [attemptEach, hadmission]
      simp only [hrest]
      rfl
    | store path =>
      have hpath := importPath?_of_admission hadmission
      have hcontains := htaken.1 path hpath
      rw [admission_eq, hpath] at hadmission
      simp only [hcontains, if_true] at hadmission
      cases policy with
      | overwrite => exact absurd rfl hpolicy
      | abort => cases hadmission
      | ignore => cases hadmission

/-- An attempt that succeeded succeeds again, and finds what it stored in its place. -/
theorem attemptEach_again {qualities : List Quality} {after : Tags}
    (hok : attemptEach policy folder definitions tags = (some qualities, after)) :
    ∃ others, attemptEach policy folder definitions after = (some others, after) := by
  have himport := attemptEach_ok hok
  by_cases hpolicy : policy = .overwrite
  · subst hpolicy
    have hpasses : ∀ v ∈ definitions, passes folder v = true := by
      rw [attemptEach_overwrite] at hok
      by_contra hnot
      rw [if_neg fun hall => hnot (List.all_eq_true.1 hall)] at hok
      cases hok
    have hagain := importEach_importEach .overwrite folder definitions tags
    rw [himport] at hagain
    exact ⟨_, by rw [attemptEach_eq hpasses, hagain]⟩
  · refine attemptEach_eq_self hpolicy fun v hv path hpath => ?_
    have hstored : (importEach policy folder definitions tags).2.contains path = true := contains_importEach hv hpath
    rwa [himport] at hstored

/-- An attempt finds what it stored in its place, also if it ended at a definition that cannot be copied. -/
theorem attemptEach_attemptEach (policy : CollisionPolicy) (folder : String) (definitions : List Json) (tags : Tags) :
    (attemptEach policy folder definitions (attemptEach policy folder definitions tags).2).2 =
      (attemptEach policy folder definitions tags).2 := by
  rcases attemptEach_cases policy folder definitions tags with himport | ⟨before, v, rest, rfl, hcopyable, hbefore, hv, hfailed⟩
  · obtain ⟨others, hagain⟩ := attemptEach_again himport
    rw [himport, hagain]
  · -- the definitions before it are in their place, so it is to be stored again
    obtain ⟨others, hagain⟩ := attemptEach_again hbefore
    obtain ⟨path, hpath⟩ := hv
    rw [hfailed, attemptEach_append]
    simp only [hagain]
    rw [attemptEach, hpath]
    simp only [hcopyable, Bool.false_eq_true, if_false]

theorem get?_attemptEach (hpolicy : policy ≠ .overwrite) (hpath : tags.get? path = some w) :
    (attemptEach policy folder definitions tags).2.get? path = some w := by
  rcases attemptEach_cases policy folder definitions tags with himport | ⟨before, v, rest, -, -, -, -, hfailed⟩
  · rw [himport]
    exact get?_importEach hpolicy hpath
  · rw [hfailed]
    exact get?_importEach hpolicy hpath

/-- The last definition for a path overwrites those before, if it and they can be copied. -/
theorem get?_attemptEach_last {before rest : List Json} (hpasses : ∀ w ∈ before ++ [v], passes folder w = true)
    (hpath : importPath? folder v = some path) (hrest : ∀ later ∈ rest, importPath? folder later ≠ some path) :
    (attemptEach .overwrite folder (before ++ v :: rest) tags).2.get? path = some v := by
  have hsplit : before ++ v :: rest = (before ++ [v]) ++ rest := by simp
  have htake : ((before ++ [v]) ++ rest).takeWhile (passes folder) = before ++ v :: rest.takeWhile (passes folder) := by
    rw [List.takeWhile_append_of_pos hpasses, List.append_assoc, List.singleton_append]
  rw [attemptEach_overwrite, hsplit, htake]
  exact get?_foldl_put_last hpath fun later hlater => hrest later ((List.takeWhile_prefix _).subset hlater)

end Tags

/-! ### Texts without definitions -/

/-- The text gives no definitions: it cannot be read, or its value is neither an object nor a list. -/
def HoldsNoDefinitions (text : String) : Prop :=
  (∃ reason, Json.read text = .error reason) ∨
    ∃ v, Json.read text = .ok v ∧ (∀ fields, v ≠ .obj fields) ∧ ∀ items, v ≠ .arr items

/-- The text is turned down for what it says, not given up for its depth. -/
def PayloadFault.IsRefusal : PayloadFault → Prop
  | .unreadable | .wrongShape _ => True
  | .tooDeep _ => False

theorem exists_readDefinitions_error_iff {text : String} :
    (∃ fault, readDefinitions text = .error fault) ↔ HoldsNoDefinitions text := by
  unfold readDefinitions HoldsNoDefinitions
  cases Json.read text with
  | error reason => cases reason <;> simp
  | ok v => cases v <;> simp

theorem isRefusal_of_readDefinitions {text : String} (hdepth : ∀ collection, Json.read text ≠ .error (.tooDeep collection))
    {fault : PayloadFault} (hread : readDefinitions text = .error fault) : fault.IsRefusal := by
  unfold readDefinitions at hread
  split at hread
  · rename_i collection htext
    exact absurd htext (hdepth collection)
  · cases hread
    trivial
  · cases hread
  · cases hread
  · cases hread
    trivial

theorem readDefinitions_of_read {text : String} {items : List Json} (hread : Json.read text = .ok (.arr items)) :
    readDefinitions text = .ok items := by
  unfold readDefinitions
  rw [hread]

/-- Each item of a list that was read can be written as a list of its own. -/
theorem read_compactText_singleton {text : String} {items : List Json} (hread : Json.read text = .ok (.arr items)) {v : Json}
    (hv : v ∈ items) : Json.read (Json.arr [v]).compactText = .ok (.arr [v]) := by
  cases Json.legible_of_read hread with
  | arr hitems => exact (Json.Legible.arr (List.forall_mem_singleton.2 (hitems v hv))).read_compactText

namespace TagProvider

open Tags (attemptEach importPath?)

variable {p : TagProvider} {base text : String} {policy : CollisionPolicy} {d : Disk} {definitions : List Json}

/-! ### Calls of providers in memory -/

theorem importTags_of_error {fault : PayloadFault} (hread : readDefinitions text = .error fault) :
    p.importTags base text policy d = (.error (.payload fault), p, d) := by
  unfold importTags
  rw [hread]

theorem importTags_of_ok (hmemory : p.folder = none) (hread : readDefinitions text = .ok definitions) :
    p.importTags base text policy d =
      ((attemptEach policy (TagPath.normalize base) definitions p.tags).1.elim (.error .tooDeepToCopy) .ok,
        { p with tags := (attemptEach policy (TagPath.normalize base) definitions p.tags).2 }, d) := by
  unfold importTags
  rw [hread]
  exact importAll_eq hmemory policy _ d _ definitions

theorem attemptEach_of_importTags (hmemory : p.folder = none) (hread : readDefinitions text = .ok definitions)
    {qualities : List Quality} {after : TagProvider} {d' : Disk} (hok : p.importTags base text policy d = (.ok qualities, after, d')) :
    ∃ tags, attemptEach policy (TagPath.normalize base) definitions p.tags = (some qualities, tags) ∧
      after = { p with tags } ∧ d' = d := by
  rw [importTags_of_ok hmemory hread] at hok
  rcases hattempt : attemptEach policy (TagPath.normalize base) definitions p.tags with ⟨_ | found, tags⟩
  · rw [hattempt] at hok
    cases hok
  · rw [hattempt] at hok
    cases hok
    exact ⟨tags, rfl, rfl, rfl⟩

/-- Definitions that come in texts of their own are imported like a list of them. -/
theorem answerAll_importTags (hmemory : p.folder = none) {texts : List String}
    (hread : List.Forall₂ (fun single v => readDefinitions single = .ok [v]) texts definitions)
    {qualities : List Quality} {tags : Tags}
    (hattempt : attemptEach policy (TagPath.normalize base) definitions p.tags = (some qualities, tags)) :
    p.answerAll d (texts.map fun single => .importTags base single policy) =
      (qualities.map fun q => .ok [q], { p with tags }, d) := by
  induction hread generalizing p qualities with
  | nil =>
    cases hattempt
    rfl
  | @cons single v texts definitions hsingle _ ih =>
    have hsplit := Tags.attemptEach_append policy (TagPath.normalize base) [v] definitions p.tags
    rw [List.singleton_append, hattempt] at hsplit
    rcases hone : attemptEach policy (TagPath.normalize base) [v] p.tags with ⟨_ | first, between⟩
    · rw [hone] at hsplit
      cases hsplit
    · rw [hone] at hsplit
      simp only at hsplit
      rcases hothers : attemptEach policy (TagPath.normalize base) definitions between with ⟨_ | others, after⟩
      · rw [hothers] at hsplit
        cases hsplit
      · rw [hothers] at hsplit
        cases hsplit
        have hquality : first = [(Tags.importOne policy (TagPath.normalize base) p.tags v).1] :=
          ((congrArg Prod.fst (Tags.attemptEach_ok hone)).symm.trans
            (congrArg Prod.fst (Tags.importEach_singleton _ _ _ _)) :)
        have hanswer : p.answer d (.importTags base single policy) = (.ok first, { p with tags := between }, d) := by
          rw [answer, importTags_of_ok hmemory hsingle, hone]
          rfl
        have hrest := ih (p := { p with tags := between }) hmemory hothers
        simp only [List.map_cons, answerAll, List.head?_nil, Option.getD_none, hanswer, List.tail_nil, hrest]
        rw [hquality]
        rfl

theorem importTags_importTags (hmemory : p.folder = none) (base text : String) (policy : CollisionPolicy) (d : Disk) :
    ((p.importTags base text policy d).2.1.importTags base text policy d).2.1 = (p.importTags base text policy d).2.1 := by
  cases hread : readDefinitions text with
  | error fault => rw [importTags_of_error hread, importTags_of_error hread]
  | ok definitions =>
    have hagain (tags : Tags) : importTags { p with tags } base text policy d = _ := importTags_of_ok hmemory hread
    rw [importTags_of_ok hmemory hread]
    simp only [hagain, Tags.attemptEach_attemptEach]

/-- A definition of a tag with the given name and rate. -/
def rated (name : Json) (rate : ℤ) : Json := .obj [("name", name), ("tagType", .str "AtomicTag"), ("rate", .int rate)]

/-- Two definitions of one tag, and between them a value that is no definition and a tag whose name is no text. -/
def mixedItems : List Json := [rated (.str "T") 1, .bool true, rated (.int 2) 0, rated (.str "T") 2]

def mixed : String := (Json.arr mixedItems).compactText

/-- A provider that has the tag already. -/
def stocked : TagProvider := { name := "default", tags := Dict.insert ∅ "a/T" (rated (.str "T") 0) }

theorem legible_rated {name : Json} (hname : Json.Legible 1 name) {rate : ℤ}
    (hrate : (Text.natDigits rate.natAbs).length ≤ Text.maxDigits) : Json.Legible 2 (rated name rate) :=
  .obj (by simp) (by simp [hname, Json.Legible.str, Json.Legible.int hrate])

theorem read_mixed : Json.read mixed = .ok (.arr mixedItems) := by
  have hitems : Json.Legible 3 (.arr mixedItems) := by
    refine .arr (List.forall_mem_cons.2 ⟨legible_rated (.str _) (by decide), List.forall_mem_cons.2 ⟨.bool true,
      List.forall_mem_cons.2 ⟨legible_rated (.int (by decide)) (by decide), List.forall_mem_singleton.2 ?_⟩⟩⟩)
    exact legible_rated (.str _) (by decide)
  exact (hitems.mono (by decide)).read_compactText

/-- A text that is neither an object nor a list. -/
def number : String := (Json.int 42).compactText

/-- A list in a list, and so on. -/
def nestedLists : ℕ → Json
  | 0 => .arr []
  | depth + 1 => .arr [nestedLists depth]

theorem legible_nestedLists : ∀ depth, Json.Legible (depth + 1) (nestedLists depth)
  | 0 => .arr nofun
  | depth + 1 => .arr (List.forall_mem_singleton.2 (legible_nestedLists depth))

theorem nesting_nestedLists (depth : ℕ) : (nestedLists depth).nesting = depth + 1 := by
  induction depth with
  | zero => rfl
  | succ depth ih => simp [nestedLists, Json.nesting, Json.nestingOfItems, ih]

/-- A definition that can be read but not copied. -/
def deep : Json := .obj [("name", .str "A"), ("tagType", .str "AtomicTag"), ("value", nestedLists 600)]

theorem isCopyable_deep : Tags.isCopyable deep = false := by
  simp [Tags.isCopyable, deep, Json.nesting, Json.nestingOfFields, nesting_nestedLists, Tags.maxCopyDepth]

theorem legible_deep : Json.Legible 602 deep := by
  refine .obj (by simp) ?_
  simpa [Json.Legible.str] using legible_nestedLists 600

end TagProvider

end TagTypes
