import Mathlib.Tactic
import TagTypes.CommandLine.Serve
import TagTypes.Proofs.Registry.Delivery
import TagTypes.Proofs.Registry.History

/-!
# Types that are shown and types that are brought

The command that shows the types of a schema writes them as one list, and a service brings them by two imports in other written forms. All forms read back as the same definitions, and to import a list is to import its parts one after the other. So whoever imports what the command shows gets what a synchronization brings, whatever the provider held before, and the qualities that the two imports would give, also where some of the definitions are rejected.
-/

namespace TagTypes

open TagPath (IsName)

namespace Udt

/-- The quality that an import into the folder of types gives to a definition. -/
def Definition.quality (d : Definition) : Quality := if IsName d.name then .good else .bad

theorem Definition.verdict_toJson (d : Definition) : Tags.verdict Registry.typesFolder d.toJson = d.quality := by
  unfold Tags.verdict quality
  rw [importPath?_toJson]
  by_cases hname : IsName d.name
  · rw [if_pos hname, if_pos hname]
    rfl
  · rw [if_neg hname, if_neg hname]
    rfl

/-- The types of a schema that was read come back from the text that is shown, with or without blanks after it. -/
theorem readDefinitions_exportText {s : Schema} (hs : s.LegibleDefaults) {blanks : String}
    (hblanks : ∀ c ∈ blanks.toList, Json.Reader.isSpace c = true) :
    readDefinitions (exportText s ++ blanks) = .ok ((definitions s).map Definition.toJson) := by
  have hlegible : Json.Legible 5 (.arr ((definitions s).map Definition.toJson)) := legible_list (legibleValues_definitions hs)
  unfold readDefinitions
  rw [exportText, ← definitions, (hlegible.mono (by decide)).read_indentedText_append hblanks]

end Udt

namespace Tags

open Udt (Definition)

/-- To import a text of definitions is to put those with a name that can name a tag, one after the other. -/
theorem importText_of_readDefinitions {text : String} {ds : List Definition}
    (hread : readDefinitions text = .ok (ds.map Definition.toJson)) (hds : ∀ d ∈ ds, d.LegibleValues) (tags : Tags) :
    importText Registry.typesFolder text .overwrite tags =
      (some (ds.map Definition.quality), storeEach (ds.filter fun d => IsName d.name) tags) := by
  unfold importText
  rw [hread]
  simp only [Registry.normalize_typesFolder, attemptEach_eq (Udt.passes_of_legibleValues hds _), importEach_overwrite, foldl_put_toJson, List.map_map, Function.comp_def,
    Definition.verdict_toJson]

end Tags

namespace Registry

open Udt (Definition storable)

variable {arrange : List Schema → Option (List Schema)} {s : Schema}

/-- The calls by which a schema that was read comes to tags in memory, with the qualities of its types. -/
theorem syncCalls_memory (hs : s.LegibleDefaults) (r : Registry Tags) :
    syncCalls (Tags.access arrange) s r =
      (Udt.nestedJson? s).toList.map (fun nested =>
        (importCall nested.compactText, some ((Udt.nestedDefinitions s).map Definition.quality))) ++
        [(importCall (Udt.definitionText s), some [(Udt.build s).quality])] := by
  have hown : ∀ tags, ((Tags.access arrange).importTags typesFolder (Udt.definitionText s) .overwrite tags).1 =
      some [(Udt.build s).quality] := by
    intro tags
    have hread : readDefinitions (Udt.definitionText s) = .ok ([Udt.build s].map Definition.toJson) := Udt.readDefinitions_build hs
    exact congrArg Prod.fst
      (Tags.importText_of_readDefinitions hread (List.forall_mem_singleton.2 (Udt.legibleValues_build hs)) tags)
  rw [syncCalls_eq rfl, hown]
  cases hnested : Udt.nestedJson? s with
  | none => rfl
  | some nested =>
    have hanswer : ((Tags.access arrange).importTags typesFolder nested.compactText .overwrite r.tags).1 =
        some ((Udt.nestedDefinitions s).map Definition.quality) :=
      congrArg Prod.fst (Tags.importText_of_readDefinitions (Udt.readDefinitions_nestedJson hs hnested)
        (Udt.legibleValues_nestedDefinitions hs) r.tags)
    rw [Option.toList_some, List.map_singleton, hanswer, List.map_singleton]

/-- What the command shows of a schema file, imported in one call into a provider in memory, leaves the provider as a synchronization of the schema leaves it, whatever it held before. The qualities of the one call are those that the synchronization gets for the types made for inline objects, if there are any, followed by the one that it gets for the schema's own type. -/
theorem importTags_shown {provider key text : String} (hs : Schema.parse key text = .ok s) {r : Registry Depot} {tags : Tags}
    (hr : r.tags.memory? provider = some tags) (arrange : List Schema → Option (List Schema)) :
    (∀ path disk, FilePath.stem path = key → Disk.readText disk path = .ok text →
      (CommandLine.Serve.showTypes path disk).output = Udt.exportText s ++ "\n") ∧
    ∀ shown, shown = Udt.exportText s ∨ shown = Udt.exportText s ++ "\n" →
      ((Depot.access provider arrange).importTags typesFolder shown .overwrite r.tags).2.memory? provider =
        some (Tags.storeEach (storable s) tags) ∧
      (sync (Depot.access provider arrange) s r).2.tags.memory? provider = some (Tags.storeEach (storable s) tags) ∧
      syncCalls (Depot.access provider arrange) s r =
        (Udt.nestedJson? s).toList.map (fun nested =>
          (importCall nested.compactText, some ((Udt.nestedDefinitions s).map Definition.quality))) ++
          [(importCall (Udt.definitionText s), some [(Udt.build s).quality])] ∧
      (Udt.nestedJson? s = none → Udt.nestedDefinitions s = []) ∧
      ((Depot.access provider arrange).importTags typesFolder shown .overwrite r.tags).1 =
        some ((Udt.nestedDefinitions s).map Definition.quality ++ [(Udt.build s).quality]) := by
  have hread := Schema.legibleDefaults_parse hs
  have hrelated : Related (Depot.Keeps provider r.tags.disk) r { tags, registered := r.registered, log := r.log } :=
    ⟨⟨hr, rfl⟩, rfl, rfl⟩
  have hsim := Depot.simulated provider r.tags.disk arrange
  constructor
  · intro path disk hkey htext
    unfold CommandLine.Serve.showTypes
    rw [htext, hkey]
    simp only [hs]
  · intro shown hshown
    have hdefinitions : readDefinitions shown = .ok ((Udt.definitions s).map Definition.toJson) := by
      rcases hshown with rfl | rfl
      · have hplain : readDefinitions (Udt.exportText s ++ "") = .ok ((Udt.definitions s).map Definition.toJson) :=
          Udt.readDefinitions_exportText hread (by simp)
        rwa [String.append_empty] at hplain
      · refine Udt.readDefinitions_exportText hread fun c hc => ?_
        rw [List.mem_singleton.1 hc]
        rfl
    obtain ⟨hcodes, hafter, -⟩ := hsim.importTags hrelated.tags typesFolder shown .overwrite
    have himport : (Tags.access arrange).importTags typesFolder shown .overwrite tags =
        (some ((Udt.definitions s).map Definition.quality), Tags.storeEach (storable s) tags) := by
      rw [Udt.storable_eq_filter]
      exact Tags.importText_of_readDefinitions hdefinitions (Udt.legibleValues_definitions hread) tags
    rw [himport] at hcodes hafter
    refine ⟨hafter, ?_, ?_, Udt.nestedDefinitions_eq_nil, ?_⟩
    · rw [(sync_simulated hsim hrelated s).2.tags.1, tags_sync_eq hread]
    · rw [syncCalls_simulated hsim hrelated s, syncCalls_memory hread]
    · rw [hcodes, Udt.definitions, List.map_append, List.map_singleton]

/-- The type made for the object with a slash in its name is rejected in the middle. -/
theorem importTags_shown_slashed : ∃ s, Schema.parse "k" slashed = .ok s ∧
    ((Depot.access "default" some).importTags typesFolder (Udt.exportText s) .overwrite (Depot.ofMemory "default")).1 =
      some [.good, .bad, .good] ∧
    ((Depot.access "default" some).importTags typesFolder (Udt.exportText s) .overwrite (Depot.ofMemory "default")).2.memory?
      "default" = (sync (Depot.access "default" some) s { tags := Depot.ofMemory "default" }).2.tags.memory? "default" := by
  have hrun : (Schema.parse "k" slashed).toOption.map (fun s =>
      ((Udt.nestedDefinitions s).map Definition.quality, (Udt.build s).quality)) = some ([.good, .bad], .good) := by
    decide +kernel
  obtain ⟨s, hs, hfound⟩ := Option.map_eq_some_iff.1 hrun
  obtain ⟨hnested, hown⟩ := Prod.mk.inj hfound
  have hparse := toOption_eq_some_iff.1 hs
  obtain ⟨-, hshown⟩ := importTags_shown hparse (r := { tags := Depot.ofMemory "default" }) (Depot.memory?_ofMemory "default") some
  obtain ⟨hafter, hsync, -, -, hcodes⟩ := hshown (Udt.exportText s) (Or.inl rfl)
  rw [hnested, hown] at hcodes
  exact ⟨s, hparse, hcodes, hafter.trans hsync.symm⟩

end Registry

end TagTypes
