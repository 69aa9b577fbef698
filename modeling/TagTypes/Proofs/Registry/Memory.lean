import Mathlib.Tactic
import TagTypes.Proofs.Registry.Simulation
import TagTypes.Proofs.TagStore.Import
import TagTypes.Proofs.Udt.Definition
import TagTypes.Proofs.Udt.Dependency

/-!
# Registries over tags in memory

What one synchronization and one removal do to the names and to the tags. A schema's type is stored if its name can name a tag and the text of its definition can be read; the types made for inline objects are stored beside it and never take a definition away. A removal goes well if there is a definition at the path of the type, which may be the path of other types as well.
-/

namespace TagTypes

open TagPath (IsName segments)

namespace Udt

/-- The definition that is stored for the type of a schema, if one can be stored. -/
def stored? (s : Schema) : Option Json :=
  if IsName s.name then (Json.reread Json.maxDepth (build s).toJson).toOption.filter Tags.isCopyable else none

theorem stored?_eq_some_iff {s : Schema} {v : Json} : stored? s = some v ↔
    IsName s.name ∧ Json.reread Json.maxDepth (build s).toJson = .ok v ∧ Tags.isCopyable v = true := by
  unfold stored?
  split
  · rename_i hname
    rw [Option.filter_eq_some_iff, and_iff_right hname]
    cases Json.reread Json.maxDepth (build s).toJson <;> simp [Except.toOption]
  · rename_i hname
    simp [hname]

theorem isName_of_stored? {s : Schema} (hs : (stored? s).isSome = true) : IsName s.name := by
  obtain ⟨v, hv⟩ := Option.isSome_iff_exists.1 hs
  exact (stored?_eq_some_iff.1 hv).1

/-- The type of a schema that was read is stored as it was built. -/
theorem stored?_of_legibleDefaults {s : Schema} (hs : s.LegibleDefaults) (hname : IsName s.name) :
    stored? s = some (build s).toJson :=
  stored?_eq_some_iff.2 ⟨hname, ((legible_build hs).mono (by decide)).reread_eq,
    Tags.isCopyable_of_legible (legible_build hs) (by decide)⟩

/-- Definitions with legible values can all be copied. -/
theorem passes_of_legibleValues {ds : List Definition} (hds : ∀ d ∈ ds, d.LegibleValues) (folder : String) :
    ∀ v ∈ ds.map Definition.toJson, Tags.passes folder v = true :=
  List.forall_mem_map.2 fun d hd => Tags.passes_of_isCopyable (Tags.isCopyable_of_legible (hds d hd).legible (by decide))

theorem importPath_of_reread {d : Definition} {depth : ℕ} {v : Json} (hv : Json.reread depth d.toJson = .ok v) :
    Tags.importPath? Registry.typesFolder v = if IsName d.name then some (Registry.typePath d.name) else none := by
  unfold Tags.importPath?
  rw [importName_of_reread hv]
  by_cases hempty : d.name = ""
  · rw [if_pos hempty, if_neg fun h => h.1 hempty]
  · rw [if_neg hempty]
    simp only [Registry.inFolder_typesFolder]
    by_cases hslash : '/' ∈ d.name.toList
    · rw [if_pos (by simpa using hslash), if_neg fun h => h.2 hslash]
    · rw [if_neg (by simpa using hslash), if_pos ⟨hempty, hslash⟩]

theorem readDefinitions_definitionText (s : Schema) :
    (readDefinitions (definitionText s)).toOption = (Json.reread Json.maxDepth (build s).toJson).toOption.map ([·]) := by
  unfold readDefinitions definitionText
  rw [Json.read_indentedText]
  cases hread : Json.reread Json.maxDepth (build s).toJson with
  | error stop => cases stop <;> rfl
  | ok v =>
    rw [Definition.toJson_eq, show Json.maxDepth = 989 + 1 from rfl, Json.reread] at hread
    cases hfields : Json.rereadFields 989 (build s).fields with
    | error stop =>
      rw [hfields] at hread
      cases hread
    | ok fields =>
      rw [hfields] at hread
      cases hread
      rfl

theorem forall_rereadItems {depth : ℕ} {ds : List Definition} {read : List Json}
    (hread : Json.rereadItems depth (ds.map Definition.toJson) = .ok read) :
    ∀ v ∈ read, ∃ d ∈ ds, Json.reread depth d.toJson = .ok v := by
  induction ds generalizing read with
  | nil =>
    cases hread
    simp
  | cons d rest ih =>
    rw [List.map_cons, Json.rereadItems] at hread
    obtain ⟨v, hv, hread⟩ := bind_eq_ok hread
    obtain ⟨more, hmore, hread⟩ := bind_eq_ok hread
    cases hread
    refine List.forall_mem_cons.2 ⟨⟨d, by simp, hv⟩, fun w hw => ?_⟩
    obtain ⟨d', hd', hw'⟩ := ih hmore w hw
    exact ⟨d', by simp [hd'], hw'⟩

/-- What is read from the text of nested definitions are these definitions. -/
theorem readDefinitions_nested (s : Schema) {read : List Json}
    (hread : readDefinitions (Json.arr ((nestedDefinitions s).map Definition.toJson)).compactText = .ok read) :
    ∀ v ∈ read, ∃ d ∈ nestedDefinitions s, Tags.importPath? Registry.typesFolder v =
      if IsName d.name then some (Registry.typePath d.name) else none := by
  unfold readDefinitions at hread
  rw [Json.read_compactText, show Json.maxDepth = 989 + 1 from rfl, Json.reread] at hread
  cases hitems : Json.rereadItems 989 ((nestedDefinitions s).map Definition.toJson) with
  | error stop =>
    rw [hitems] at hread
    cases stop <;> cases hread
  | ok items =>
    rw [hitems] at hread
    cases hread
    intro v hv
    obtain ⟨d, hd, hreread⟩ := forall_rereadItems hitems v hv
    exact ⟨d, hd, importPath_of_reread hreread⟩

end Udt

namespace Registry

open Udt (stored?)

/-- The paths of the types made for the inline objects of a schema. -/
def nestedPaths (s : Schema) : List String :=
  (((Udt.nestedDefinitions s).map Udt.Definition.name).filter fun name => IsName name).map typePath

section Delivery

variable (arrange : List Schema → Option (List Schema)) (s : Schema) (tags : Tags)

theorem importTypes_eq (text : String) :
    importTypes (Tags.access arrange) text tags =
      match readDefinitions text with
      | .error _ => (false, tags)
      | .ok definitions =>
        (definitions.all fun v => (Tags.importPath? typesFolder v).isSome && Tags.isCopyable v,
          (definitions.takeWhile (Tags.passes typesFolder)).foldl (Tags.put typesFolder) tags) := by
  unfold importTypes
  simp only [Tags.access, Tags.importText]
  cases readDefinitions text with
  | error fault => rfl
  | ok definitions =>
    simp only [normalize_typesFolder, Tags.attemptEach_overwrite, Prod.mk.injEq, and_true]
    -- an import without an error goes well where all have a path, and then all that pass are copyable
    have hgood : ∀ v, ((Tags.importPath? typesFolder v).isSome && Tags.isCopyable v) =
        (Tags.passes typesFolder v && (Tags.verdict typesFolder v).isGood) := by
      intro v
      rw [Tags.isGood_verdict, Tags.passes]
      cases Tags.importPath? typesFolder v <;> simp
    by_cases hpasses : definitions.all (Tags.passes typesFolder) = true
    · rw [if_pos hpasses, wentWell, List.all_map, Bool.eq_iff_iff, List.all_eq_true, List.all_eq_true]
      refine forall₂_congr fun v hv => ?_
      rw [hgood, List.all_eq_true.1 hpasses v hv, Bool.true_and, Function.comp]
    · rw [if_neg hpasses, wentWell, eq_comm, Bool.eq_false_iff]
      refine fun hall => hpasses (List.all_eq_true.2 fun v hv => ?_)
      have hv := List.all_eq_true.1 hall v hv
      rw [hgood, Bool.and_eq_true] at hv
      exact hv.1

theorem importTypes_definitionText :
    importTypes (Tags.access arrange) (Udt.definitionText s) tags =
      match stored? s with
      | some v => (true, tags.insert (typePath s.name) v)
      | none => (false, tags) := by
  have hread := Udt.readDefinitions_definitionText s
  rw [importTypes_eq]
  unfold Udt.stored?
  cases hreread : Json.reread Json.maxDepth (Udt.build s).toJson with
  | error stop =>
    rw [hreread] at hread
    cases hdefinitions : readDefinitions (Udt.definitionText s) with
    | error fault => simp [Except.toOption]
    | ok definitions =>
      rw [hdefinitions] at hread
      cases hread
  | ok v =>
    rw [hreread] at hread
    cases hdefinitions : readDefinitions (Udt.definitionText s) with
    | error fault =>
      rw [hdefinitions] at hread
      cases hread
    | ok definitions =>
      rw [hdefinitions] at hread
      cases hread
      have hpath := Udt.importPath_of_reread hreread
      change _ = if IsName s.name then _ else _ at hpath
      by_cases hname : IsName s.name
      · rw [if_pos hname] at hpath ⊢
        cases hcopyable : Tags.isCopyable v <;> simp [Tags.passes, Tags.put, hpath, hcopyable, Except.toOption, Option.filter, Udt.build]
      · rw [if_neg hname] at hpath ⊢
        simp [Tags.passes, Tags.put, hpath]

/-- The nested types of a schema are put at their paths, and nothing else is done for them. -/
theorem exists_importNested :
    ∃ read : List Json, (∀ v ∈ read, ∀ path, Tags.importPath? typesFolder v = some path → path ∈ nestedPaths s) ∧
      ∀ tags, importNested (Tags.access arrange) s tags = read.foldl (Tags.put typesFolder) tags := by
  unfold importNested Udt.nestedJson?
  cases hdefinitions : Udt.nestedDefinitions s with
  | nil => exact ⟨[], by simp, fun _ => rfl⟩
  | cons d rest =>
    cases hread : readDefinitions (Json.arr ((d :: rest).map Udt.Definition.toJson)).compactText with
    | error fault =>
      refine ⟨[], by simp, fun tags => ?_⟩
      simp only [importTypes_eq, hread]
      rfl
    | ok read =>
      refine ⟨read.takeWhile (Tags.passes typesFolder), fun v hv path hpath => ?_, fun tags => ?_⟩
      · rw [← hdefinitions] at hread
        obtain ⟨d', hd', hd'path⟩ := Udt.readDefinitions_nested s hread v ((List.takeWhile_prefix _).subset hv)
        rw [hpath] at hd'path
        split at hd'path
        · rename_i hname
          cases hd'path
          refine List.mem_map_of_mem (List.mem_filter.2 ⟨List.mem_map_of_mem hd', ?_⟩)
          simpa using hname
        · cases hd'path
      · simp only [importTypes_eq, hread]

theorem deliver_eq :
    deliver (Tags.access arrange) s tags =
      match stored? s with
      | some v => (true, (importNested (Tags.access arrange) s tags).insert (typePath s.name) v)
      | none => (false, importNested (Tags.access arrange) s tags) :=
  importTypes_definitionText arrange s _

theorem deliver_success : (deliver (Tags.access arrange) s tags).1 = (stored? s).isSome := by
  rw [deliver_eq]
  cases stored? s <;> rfl

variable {arrange s tags}

theorem ne_null_of_stored? {v : Json} (hv : stored? s = some v) : v ≠ .null := by
  obtain ⟨hname, hread, -⟩ := Udt.stored?_eq_some_iff.1 hv
  have hpath := Udt.importPath_of_reread hread
  rw [if_pos (show IsName (Udt.build s).name from hname)] at hpath
  exact Tags.ne_null_of_importPath? hpath

theorem config?_deliver {v : Json} (hv : stored? s = some v) :
    (deliver (Tags.access arrange) s tags).2.config? (typePath s.name) = some v := by
  rw [deliver_eq, hv]
  have hname := Udt.isName_of_stored? (by rw [hv]; rfl)
  exact (Tags.config?_insert (ne_null_of_stored? hv) _).trans (if_pos (normalize_typePath hname).symm)

theorem isSome_config?_deliver {path : String} (hpath : (tags.config? path).isSome = true) :
    ((deliver (Tags.access arrange) s tags).2.config? path).isSome = true := by
  obtain ⟨read, -, hnested⟩ := exists_importNested arrange s
  rw [deliver_eq, hnested]
  have hkept : ((read.foldl (Tags.put typesFolder) tags).config? path).isSome = true := Tags.isSome_config?_foldl_put hpath
  cases hstored : stored? s with
  | none => exact hkept
  | some v =>
    simp only
    rw [Tags.config?_insert (ne_null_of_stored? hstored)]
    split
    · rfl
    · exact hkept

theorem get?_importNested_of_notMem {path : String} (hnested : path ∉ nestedPaths s) :
    (importNested (Tags.access arrange) s tags).get? path = tags.get? path := by
  obtain ⟨read, hread, hfold⟩ := exists_importNested arrange s
  rw [hfold]
  exact Tags.get?_foldl_put_of_ne fun v hv hpath => hnested (hread v hv path hpath)

/-- Paths of other types are left alone. -/
theorem get?_deliver_of_ne {path : String} (hown : path ≠ typePath s.name) (hnested : path ∉ nestedPaths s) :
    (deliver (Tags.access arrange) s tags).2.get? path = tags.get? path := by
  rw [deliver_eq]
  cases stored? s with
  | none => exact get?_importNested_of_notMem hnested
  | some v =>
    simp only
    rw [Dict.get?_insert, if_neg (Ne.symm hown), get?_importNested_of_notMem hnested]

/-- The definitions of a schema lie over those that were there before. -/
theorem get?_deliver (tags : Tags) (path : String) : (deliver (Tags.access arrange) s tags).2.get? path =
    ((deliver (Tags.access arrange) s ∅).2.get? path).or (tags.get? path) := by
  obtain ⟨read, -, hfold⟩ := exists_importNested arrange s
  rw [deliver_eq, deliver_eq, hfold, hfold]
  cases stored? s with
  | none => exact Tags.get?_foldl_put
  | some v =>
    simp only [Dict.get?_insert]
    split
    · rfl
    · exact Tags.get?_foldl_put

/-- The types made for the inline objects of a schema that was read are all stored. -/
theorem isSome_config?_importNested (hs : s.LegibleDefaults) {path : String} (hpath : path ∈ nestedPaths s) :
    ((importNested (Tags.access arrange) s tags).config? path).isSome = true := by
  obtain ⟨name, hname, rfl⟩ := List.mem_map.1 hpath
  rw [List.mem_filter, List.mem_map, decide_eq_true_eq] at hname
  obtain ⟨⟨d, hd, rfl⟩, hname⟩ := hname
  have hread : readDefinitions (Json.arr ((Udt.nestedDefinitions s).map Udt.Definition.toJson)).compactText =
      .ok ((Udt.nestedDefinitions s).map Udt.Definition.toJson) := by
    unfold readDefinitions
    rw [((Udt.legible_nestedJson hs).mono (by decide)).read_compactText]
  have hnested : Udt.nestedJson? s = some (.arr ((Udt.nestedDefinitions s).map Udt.Definition.toJson)) := by
    unfold Udt.nestedJson?
    split
    · rename_i hnil
      rw [hnil] at hd
      cases hd
    · rfl
  have hlegible := Udt.legibleValues_nestedDefinitions hs
  have himport := Udt.importPath_of_reread (hlegible d hd).legible.reread_eq
  rw [if_pos hname] at himport
  unfold importNested
  rw [hnested]
  simp only [importTypes_eq, hread, List.takeWhile_eq_self_iff.2 (Udt.passes_of_legibleValues hlegible _)]
  exact Tags.isSome_config?_foldl_put_of_mem (List.mem_map_of_mem hd) himport (normalize_typePath hname)

/-- After a synchronization a definition is there if it was there before or if the schema describes it. -/
theorem isSome_config?_deliver_iff_or (hs : s.LegibleDefaults) {name : String} (hname : IsName name) :
    ((deliver (Tags.access arrange) s tags).2.config? (typePath name)).isSome = true ↔
      (tags.config? (typePath name)).isSome = true ∨ s.name = name ∨ typePath name ∈ nestedPaths s := by
  constructor
  · intro hstored
    by_cases hdescribed : s.name = name ∨ typePath name ∈ nestedPaths s
    · exact Or.inr hdescribed
    · left
      rw [not_or] at hdescribed
      have hkept : (deliver (Tags.access arrange) s tags).2.get? (typePath name) = tags.get? (typePath name) :=
        get?_deliver_of_ne (fun heq => hdescribed.1 (typePath_inj.1 heq).symm) hdescribed.2
      obtain ⟨v, hv⟩ := Option.isSome_iff_exists.1 hstored
      rw [Tags.config?_eq_some_iff, normalize_typePath hname, hkept, ← normalize_typePath hname, ← Tags.config?_eq_some_iff] at hv
      rw [hv]
      rfl
  · intro hcases
    rcases hcases with hkept | rfl | hnested
    · exact isSome_config?_deliver hkept
    · rw [config?_deliver (Udt.stored?_of_legibleDefaults hs hname)]
      rfl
    · have hput : ((importNested (Tags.access arrange) s tags).config? (typePath name)).isSome = true :=
        isSome_config?_importNested hs hnested
      rw [deliver_eq]
      cases hstored : stored? s with
      | none => exact hput
      | some v =>
        simp only
        rw [Tags.config?_insert (ne_null_of_stored? hstored)]
        split
        · rfl
        · exact hput

/-- A synchronization brings back a definition that is missing if and only if it is one that the schema describes. -/
theorem isSome_config?_deliver_iff (hs : s.LegibleDefaults) {name : String} (hname : IsName name)
    (hmissing : tags.get? (typePath name) = none) :
    ((deliver (Tags.access arrange) s tags).2.config? (typePath name)).isSome = true ↔
      s.name = name ∨ typePath name ∈ nestedPaths s := by
  have hnone : tags.config? (typePath name) = none := Tags.config?_eq_none (by rw [normalize_typePath hname, hmissing])
  rw [isSome_config?_deliver_iff_or hs hname, hnone]
  simp

end Delivery

theorem withdraw_eq (arrange : List Schema → Option (List Schema)) (type : String) (tags : Tags) :
    withdraw (Tags.access arrange) type tags =
      if tags.contains (TagPath.normalize (typePath type)) then (true, tags.erase (TagPath.normalize (typePath type)))
      else (false, tags) := by
  unfold withdraw
  simp only [Tags.access, Tags.removeEach]
  split <;> rfl

theorem mem_addType {type name : String} {registered : List String} :
    name ∈ addType type registered ↔ name ∈ registered ∨ name = type := by
  unfold addType
  split
  · rename_i hcontains
    rw [List.contains_iff_mem] at hcontains
    constructor
    · exact Or.inl
    · intro hcases
      rcases hcases with hname | rfl
      · exact hname
      · exact hcontains
  · rw [List.mem_append, List.mem_singleton]

section Calls

variable {σ : Type} {access : Access σ} {s : Schema} {type name : String} {r : Registry σ}

theorem fst_sync : (sync access s r).1 = (deliver access s r.tags).1 := rfl

theorem fst_remove : (remove access type r).1 = (withdraw access type r.tags).1 := rfl

/-- A synchronization registers the type if it goes well, and nothing else. -/
theorem mem_registered_sync_iff :
    name ∈ (sync access s r).2.registered ↔ name ∈ r.registered ∨ (sync access s r).1 = true ∧ name = s.name := by
  unfold sync
  simp only [tell]
  split
  · rename_i hsuccess
    rw [mem_addType, and_iff_right hsuccess]
  · rename_i hfailure
    simp [hfailure]

/-- A removal takes the name away if it goes well, and nothing else. -/
theorem mem_registered_remove_iff :
    name ∈ (remove access type r).2.registered ↔ name ∈ r.registered ∧ ¬((remove access type r).1 = true ∧ name = type) := by
  unfold remove
  simp only [tell]
  split
  · rename_i hsuccess
    simp [hsuccess]
  · rename_i hfailure
    simp [hfailure]

end Calls

section Steps

variable {arrange : List Schema → Option (List Schema)} {s : Schema} {type name path : String} {r : Registry Tags}

theorem mem_registered_sync :
    name ∈ (sync (Tags.access arrange) s r).2.registered ↔
      name ∈ r.registered ∨ (stored? s).isSome = true ∧ name = s.name := by
  rw [mem_registered_sync_iff, fst_sync, deliver_success]

theorem syncEach_cons {σ : Type} (access : Access σ) (s : Schema) (rest : List Schema) (r : Registry σ) :
    (syncEach access (s :: rest) r).2 = (syncEach access rest (sync access s r).2).2 := rfl

theorem tags_sync {σ : Type} (access : Access σ) (s : Schema) (r : Registry σ) :
    (sync access s r).2.tags = (deliver access s r.tags).2 := rfl

theorem mem_registered_syncEach (schemas : List Schema) : ∀ {r : Registry Tags},
    name ∈ (syncEach (Tags.access arrange) schemas r).2.registered ↔
      name ∈ r.registered ∨ ∃ s ∈ schemas, (stored? s).isSome = true ∧ name = s.name := by
  induction schemas with
  | nil =>
    intro r
    simp [syncEach]
  | cons s rest ih =>
    intro r
    rw [syncEach_cons, ih, mem_registered_sync, or_assoc]
    simp only [List.mem_cons, exists_eq_or_imp]

/-- Synchronizing schemas in the order of their references registers the types of all that can be stored. -/
theorem mem_registered_syncAll (schemas : List Schema) :
    name ∈ (syncAll (Tags.access fun schemas => some (Dependency.order schemas)) schemas r).2.registered ↔
      name ∈ r.registered ∨ ∃ s ∈ schemas, (stored? s).isSome = true ∧ name = s.name := by
  have hall : (syncAll (Tags.access fun schemas => some (Dependency.order schemas)) schemas r).2 =
      (syncEach (Tags.access fun schemas => some (Dependency.order schemas)) (Dependency.order schemas) r).2 := rfl
  rw [hall, mem_registered_syncEach]
  simp only [Dependency.mem_order]

theorem config?_sync {v : Json} (hv : stored? s = some v) :
    (sync (Tags.access arrange) s r).2.tags.config? (typePath s.name) = some v := by
  rw [tags_sync]
  exact config?_deliver hv

/-- To synchronize a schema again leaves the definitions as they are. -/
theorem config?_sync_sync :
    (sync (Tags.access arrange) s (sync (Tags.access arrange) s r).2).2.tags.config? =
      (sync (Tags.access arrange) s r).2.tags.config? := by
  apply Tags.config?_congr
  funext path
  rw [tags_sync, tags_sync, get?_deliver, get?_deliver r.tags, ← Option.or_assoc, Option.or_self]

theorem isSome_config?_sync (hpath : (r.tags.config? path).isSome = true) :
    ((sync (Tags.access arrange) s r).2.tags.config? path).isSome = true := by
  rw [tags_sync]
  exact isSome_config?_deliver hpath

theorem get?_sync_of_ne (hown : path ≠ typePath s.name) (hnested : path ∉ nestedPaths s) :
    (sync (Tags.access arrange) s r).2.tags.get? path = r.tags.get? path := by
  rw [tags_sync]
  exact get?_deliver_of_ne hown hnested

theorem mem_registered_remove :
    name ∈ (remove (Tags.access arrange) type r).2.registered ↔
      name ∈ r.registered ∧ ¬(r.tags.contains (TagPath.normalize (typePath type)) = true ∧ name = type) := by
  rw [mem_registered_remove_iff, fst_remove, withdraw_eq]
  split
  · rename_i hcontains
    rw [hcontains]
  · rename_i hcontains
    simp [hcontains]

theorem tags_remove :
    (remove (Tags.access arrange) type r).2.tags =
      if r.tags.contains (TagPath.normalize (typePath type)) then r.tags.erase (TagPath.normalize (typePath type))
      else r.tags := by
  unfold remove
  rw [withdraw_eq]
  by_cases hcontains : r.tags.contains (TagPath.normalize (typePath type)) = true
  · rw [if_pos hcontains, if_pos hcontains]
    rfl
  · rw [if_neg hcontains, if_neg hcontains]
    rfl

theorem get?_remove :
    (remove (Tags.access arrange) type r).2.tags.get? path =
      if TagPath.normalize (typePath type) = path then none else r.tags.get? path := by
  rw [tags_remove]
  by_cases hcontains : r.tags.contains (TagPath.normalize (typePath type)) = true
  · rw [if_pos hcontains, Dict.get?_erase]
  · rw [if_neg hcontains]
    split
    · rename_i hpath
      rw [Bool.not_eq_true, Dict.contains_eq_false_iff, hpath] at hcontains
      exact hcontains
    · rfl

/-- A removal leaves the definitions at all other paths. -/
theorem config?_remove_of_ne (hpath : TagPath.normalize (typePath type) ≠ TagPath.normalize path) :
    (remove (Tags.access arrange) type r).2.tags.config? path = r.tags.config? path := by
  rw [tags_remove]
  split
  · rw [Tags.config?_erase, if_neg hpath]
  · rfl

end Steps

end Registry

end TagTypes
