import Mathlib.Tactic
import TagTypes.Proofs.Registry.Memory
import TagTypes.Proofs.Udt.Nested

/-!
# What a synchronization stores

The definitions of a schema that was read come back from both written forms as they were built. So to synchronize such a schema puts its definitions, one after the other, over those that the provider holds, and nothing else happens to the provider. A definition whose name cannot name a tag is passed over; if that is the schema's own, the synchronization fails.
-/

namespace TagTypes

open TagPath (IsName)

namespace Udt

/-- All types of a schema: those made for its inline objects, then its own. -/
def definitions (s : Schema) : List Definition := nestedDefinitions s ++ [build s]

/-- The types of a schema that can be stored: those made for inline objects whose names have no slash, then its own, if its name can name a tag. -/
def storable (s : Schema) : List Definition :=
  (nestedDefinitions s).filter (fun d => '/' ∉ d.name.toList) ++ if IsName s.name then [build s] else []

theorem nestedDefinitions_eq_nil {s : Schema} (hnested : nestedJson? s = none) : nestedDefinitions s = [] := by
  unfold nestedJson? at hnested
  split at hnested
  · assumption
  · cases hnested

theorem name_ne_empty_of_mem_nested {s : Schema} {d : Definition} (hd : d ∈ nestedDefinitions s) : d.name ≠ "" := by
  rw [nestedDefinitions_eq_map, List.mem_map] at hd
  obtain ⟨n, -, rfl⟩ := hd
  have hname : (nodeDefinition s.name n).name = String.intercalate "_" (s.name :: n.path) := rfl
  obtain ⟨first, rest, hpath⟩ := List.exists_cons_of_ne_nil n.path_ne_nil
  rw [hname, hpath, String.intercalate_cons_cons]
  intro hempty
  have hmark : '_' ∈ (s.name ++ "_" ++ String.intercalate "_" (first :: rest)).toList := by simp
  rw [hempty] at hmark
  cases hmark

theorem storable_eq_filter (s : Schema) : storable s = (definitions s).filter fun d => IsName d.name := by
  have hnested : (nestedDefinitions s).filter (fun d => '/' ∉ d.name.toList) =
      (nestedDefinitions s).filter fun d => IsName d.name := by
    refine List.filter_congr fun d hd => ?_
    simp only [IsName, ne_eq, name_ne_empty_of_mem_nested hd, not_false_eq_true, true_and]
  have hown : (build s).name = s.name := rfl
  rw [storable, definitions, List.filter_append, hnested, List.filter_singleton, hown]
  by_cases hname : IsName s.name <;> simp [hname]

/-- A definition is imported under its own name, if that can name a tag. -/
theorem importPath?_toJson (d : Definition) :
    Tags.importPath? Registry.typesFolder d.toJson = if IsName d.name then some (Registry.typePath d.name) else none := by
  have hname : Tags.importName? d.toJson = if d.name = "" then none else some d.name := by
    obtain ⟨name, documentation, parentType, members⟩ := d
    by_cases hempty : name = "" <;>
      simp [Tags.importName?, Definition.toJson, Json.field?, Dict.lookup, Json.isFilled, Json.display, TagType.word, hempty]
  unfold Tags.importPath?
  rw [hname]
  by_cases hempty : d.name = ""
  · rw [if_pos hempty, if_neg fun h => h.1 hempty]
  · rw [if_neg hempty]
    simp only [Registry.inFolder_typesFolder]
    by_cases hslash : '/' ∈ d.name.toList
    · rw [if_pos (by simpa using hslash), if_neg fun h => h.2 hslash]
    · rw [if_neg (by simpa using hslash), if_pos ⟨hempty, hslash⟩]

/-! ### Both written forms -/

variable {s : Schema}

theorem legibleValues_definitions (hs : s.LegibleDefaults) : ∀ d ∈ definitions s, d.LegibleValues := by
  rw [definitions, List.forall_mem_append, List.forall_mem_singleton]
  exact ⟨legibleValues_nestedDefinitions hs, legibleValues_build hs⟩

/-- The type of a schema that was read comes back from its indented text. -/
theorem readDefinitions_build (hs : s.LegibleDefaults) : readDefinitions (definitionText s) = .ok [(build s).toJson] := by
  unfold readDefinitions definitionText
  rw [((legible_build hs).mono (by decide)).read_indentedText]
  rfl

/-- The types made for the inline objects of a schema that was read come back from their one-line text. -/
theorem readDefinitions_nestedJson (hs : s.LegibleDefaults) {v : Json} (hv : nestedJson? s = some v) :
    readDefinitions v.compactText = .ok ((nestedDefinitions s).map Definition.toJson) := by
  have hlist : v = .arr ((nestedDefinitions s).map Definition.toJson) := by
    unfold nestedJson? at hv
    split at hv
    · cases hv
    · exact (Option.some.inj hv).symm
  subst hlist
  unfold readDefinitions
  rw [((legible_nestedJson hs).mono (by decide)).read_compactText]

end Udt

namespace Tags

open Udt (Definition)

/-- Put definitions at the paths of their types, one after the other. -/
def storeEach (ds : List Definition) (tags : Tags) : Tags :=
  ds.foldl (fun tags d => tags.insert (Registry.typePath d.name) d.toJson) tags

theorem storeEach_append (ds more : List Definition) (tags : Tags) :
    storeEach (ds ++ more) tags = storeEach more (storeEach ds tags) := List.foldl_append

/-- Definitions whose names cannot name a tag are passed over. -/
theorem foldl_put_toJson (ds : List Definition) (tags : Tags) :
    (ds.map Definition.toJson).foldl (put Registry.typesFolder) tags = storeEach (ds.filter fun d => IsName d.name) tags := by
  induction ds generalizing tags with
  | nil => rfl
  | cons d rest ih =>
    rw [List.map_cons, List.foldl_cons, ih, put, Udt.importPath?_toJson]
    by_cases hname : IsName d.name
    · rw [if_pos hname, List.filter_cons_of_pos (by simpa using hname)]
      rfl
    · rw [if_neg hname, List.filter_cons_of_neg (by simpa using hname)]

theorem get?_storeEach_of_ne {ds : List Definition} {tags : Tags} {path : String}
    (hpath : ∀ d ∈ ds, Registry.typePath d.name ≠ path) : (storeEach ds tags).get? path = tags.get? path := by
  induction ds generalizing tags with
  | nil => rfl
  | cons d rest ih =>
    have hrest : (storeEach (d :: rest) tags).get? path = (tags.insert (Registry.typePath d.name) d.toJson).get? path :=
      ih fun other hother => hpath other (by simp [hother])
    rw [hrest, Dict.get?_insert, if_neg (hpath d (by simp))]

/-- Of definitions with distinct names none is overwritten. -/
theorem get?_storeEach_of_mem {ds : List Definition} {tags : Tags} {d : Definition} (hnames : (ds.map Definition.name).Nodup)
    (hd : d ∈ ds) : (storeEach ds tags).get? (Registry.typePath d.name) = some d.toJson := by
  obtain ⟨before, after, rfl⟩ := List.append_of_mem hd
  have hlater : ∀ other ∈ after, Registry.typePath other.name ≠ Registry.typePath d.name := by
    intro other hother heq
    rw [List.map_append, List.map_cons, List.nodup_append, List.nodup_cons] at hnames
    exact hnames.2.1.1 (List.mem_map.2 ⟨other, hother, Registry.typePath_inj.1 heq⟩)
  have hsplit : storeEach (before ++ d :: after) tags =
      storeEach after ((storeEach before tags).insert (Registry.typePath d.name) d.toJson) := storeEach_append _ _ _
  rw [hsplit, get?_storeEach_of_ne hlater, Dict.get?_insert, if_pos rfl]

end Tags

namespace Registry

open Udt (storable)

variable {arrange : List Schema → Option (List Schema)} {s : Schema}

/-! ### Registries over tags in memory -/

theorem importNested_eq (hs : s.LegibleDefaults) (tags : Tags) :
    importNested (Tags.access arrange) s tags =
      Tags.storeEach ((Udt.nestedDefinitions s).filter fun d => IsName d.name) tags := by
  unfold importNested
  cases hnested : Udt.nestedJson? s with
  | none =>
    rw [Udt.nestedDefinitions_eq_nil hnested]
    rfl
  | some v =>
    have hpasses := Udt.passes_of_legibleValues (Udt.legibleValues_nestedDefinitions hs) typesFolder
    simp only [importTypes_eq, Udt.readDefinitions_nestedJson hs hnested, List.takeWhile_eq_self_iff.2 hpasses]
    exact Tags.foldl_put_toJson _ _

/-- To synchronize a schema that was read is to put its types over what is there. -/
theorem tags_sync_eq (hs : s.LegibleDefaults) (r : Registry Tags) :
    (sync (Tags.access arrange) s r).2.tags = Tags.storeEach (storable s) r.tags := by
  have hown : (Udt.build s).name = s.name := rfl
  rw [tags_sync, deliver_eq, importNested_eq hs, Udt.storable_eq_filter, Udt.definitions, List.filter_append,
    Tags.storeEach_append, List.filter_singleton, hown]
  by_cases hname : IsName s.name
  · rw [Udt.stored?_of_legibleDefaults hs hname]
    simp only [hname, decide_true, cond_true]
    rfl
  · have hnone : Udt.stored? s = none := if_neg hname
    rw [hnone]
    simp only [hname, decide_false, cond_false]
    rfl

theorem success_sync (s : Schema) (r : Registry Tags) : (sync (Tags.access arrange) s r).1 = (Udt.stored? s).isSome := by
  have hsuccess : ∀ (access : Access Tags), (sync access s r).1 = (deliver access s r.tags).1 := fun _ => rfl
  rw [hsuccess, deliver_success]

theorem success_sync_iff (hs : s.LegibleDefaults) (r : Registry Tags) :
    (sync (Tags.access arrange) s r).1 = true ↔ IsName s.name := by
  rw [success_sync]
  constructor
  · exact Udt.isName_of_stored?
  · intro hname
    rw [Udt.stored?_of_legibleDefaults hs hname]
    rfl

theorem tags_syncEach_eq {schemas : List Schema} (hschemas : ∀ s ∈ schemas, s.LegibleDefaults) :
    ∀ r : Registry Tags,
      (syncEach (Tags.access arrange) schemas r).2.tags = Tags.storeEach (schemas.flatMap storable) r.tags := by
  induction schemas with
  | nil => exact fun _ => rfl
  | cons s rest ih =>
    intro r
    rw [syncEach_cons, ih fun other hother => hschemas other (by simp [hother]), tags_sync_eq (hschemas s (by simp)),
      List.flatMap_cons, Tags.storeEach_append]

/-! ### Registries over a provider in memory -/

/-- To synchronize a schema that was read puts its types, each as it was built, over what a provider in memory holds: those made for inline objects whose names have no slash, then its own, if its name is not empty and has no slash. It succeeds in just this case, and then the name is registered. Both written forms of the types are read as what was written. -/
theorem sync_stores {provider key text : String} (hs : Schema.parse key text = .ok s) {r : Registry Depot} {tags : Tags}
    (hr : r.tags.memory? provider = some tags) (arrange : List Schema → Option (List Schema)) :
    (sync (Depot.access provider arrange) s r).2.tags.memory? provider = some (Tags.storeEach (storable s) tags) ∧
      (∀ path, (∀ d ∈ storable s, typePath d.name ≠ path) → (Tags.storeEach (storable s) tags).get? path = tags.get? path) ∧
      ((sync (Depot.access provider arrange) s r).1 = true ↔ s.name ≠ "" ∧ '/' ∉ s.name.toList) ∧
      (∀ name, name ∈ (sync (Depot.access provider arrange) s r).2.registered ↔
        name ∈ r.registered ∨ (sync (Depot.access provider arrange) s r).1 = true ∧ name = s.name) ∧
      (∀ v, Udt.nestedJson? s = some v →
        readDefinitions v.compactText = .ok ((Udt.nestedDefinitions s).map Udt.Definition.toJson)) ∧
      readDefinitions (Udt.definitionText s) = .ok [(Udt.build s).toJson] := by
  have hread := Schema.legibleDefaults_parse hs
  have hrelated : Related (Depot.Keeps provider r.tags.disk) r { tags, registered := r.registered, log := r.log } :=
    ⟨⟨hr, rfl⟩, rfl, rfl⟩
  obtain ⟨hsuccess, hafter⟩ := sync_simulated (Depot.simulated provider r.tags.disk arrange) hrelated s
  refine ⟨?_, fun path => Tags.get?_storeEach_of_ne, ?_, fun name => ?_, fun v => Udt.readDefinitions_nestedJson hread,
    Udt.readDefinitions_build hread⟩
  · rw [hafter.tags.1, tags_sync_eq hread]
  · rw [hsuccess]
    exact success_sync_iff hread _
  · rw [hafter.registered, mem_registered_sync, hsuccess, success_sync]

/-- A property that is an object with the given members. -/
def inlineObject (members : List (String × Json)) : Json := .obj [("type", .str "object"), ("properties", .obj members)]

/-- A schema with the given title and properties. -/
def withProperties (title : String) (properties : List (String × Json)) : String :=
  (Json.obj [("title", .str title), ("properties", .obj properties)]).compactText

/-- A schema with two inline objects, of which one has a slash in its name. -/
def slashed : String :=
  withProperties "A" [("b", inlineObject [("c", .obj [("default", .str "é")])]), ("x/y", inlineObject [("d", .obj [])])]

/-- The type made for the object with a slash in its name is passed over. -/
theorem sync_stores_slashed : ∃ s, Schema.parse "k" slashed = .ok s ∧
    (Depot.ofMemory "default").memory? "default" = some ∅ ∧
    (Udt.definitions s).map Udt.Definition.name = ["A_b", "A_x/y", "A"] ∧
    (storable s).map Udt.Definition.name = ["A_b", "A"] ∧
    (sync (Depot.access "default" some) s { tags := Depot.ofMemory "default" }).2.tags.memory? "default" =
      some (Tags.storeEach (storable s) ∅) := by
  have hrun : (Schema.parse "k" slashed).toOption.map (fun s =>
      ((Udt.definitions s).map Udt.Definition.name, (storable s).map Udt.Definition.name)) =
      some (["A_b", "A_x/y", "A"], ["A_b", "A"]) := by
    decide +kernel
  obtain ⟨s, hs, hfound⟩ := Option.map_eq_some_iff.1 hrun
  obtain ⟨hall, hstored⟩ := Prod.mk.inj hfound
  have hparse := toOption_eq_some_iff.1 hs
  have hmemory := Depot.memory?_ofMemory "default"
  exact ⟨s, hparse, hmemory, hall, hstored, (sync_stores hparse (r := { tags := Depot.ofMemory "default" }) hmemory some).1⟩

end Registry

end TagTypes
