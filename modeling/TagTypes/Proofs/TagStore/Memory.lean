import Mathlib.Tactic
import TagTypes.Depot
import TagTypes.Proofs.Dict
import TagTypes.Proofs.TagStore.Path

/-!
# Providers in memory

A provider without a folder never touches the disk, and its calls are functions of its tags. It fails only at texts that give no definitions and at a definition that it cannot copy. A depot in which such a provider is found under a name is, for all who reach the provider through it, nothing but those tags.
-/

namespace TagTypes

/-! ### Imports and removals as functions of the tags -/

namespace Tags

/-- Import definitions one after the other into a folder in normal form. -/
def importEach (policy : CollisionPolicy) (folder : String) : List Json → Tags → List Quality × Tags
  | [], tags => ([], tags)
  | definition :: rest, tags =>
    match tags.admission policy folder definition with
    | .settled q => let (qualities, tags) := importEach policy folder rest tags; (q :: qualities, tags)
    | .store path =>
      let (qualities, tags) := importEach policy folder rest (tags.insert path definition)
      (.good :: qualities, tags)

/-- Import definitions one after the other, up to one that is to be stored and cannot be copied. -/
def attemptEach (policy : CollisionPolicy) (folder : String) : List Json → Tags → Option (List Quality) × Tags
  | [], tags => (some [], tags)
  | definition :: rest, tags =>
    match tags.admission policy folder definition with
    | .settled q => let (qualities, tags) := attemptEach policy folder rest tags; (qualities.map (q :: ·), tags)
    | .store path =>
      if isCopyable definition then
        let (qualities, tags) := attemptEach policy folder rest (tags.insert path definition)
        (qualities.map (.good :: ·), tags)
      else (none, tags)

/-- Remove the definitions at some paths, one after the other. -/
def removeEach : List String → Tags → List Quality × Tags
  | [], tags => ([], tags)
  | path :: rest, tags =>
    if tags.contains (TagPath.normalize path) then
      let (qualities, tags) := removeEach rest (tags.erase (TagPath.normalize path))
      (.good :: qualities, tags)
    else
      let (qualities, tags) := removeEach rest tags
      (.notFound :: qualities, tags)

/-- Import the definitions in a text under a base path, if there are any to be read. -/
def importText (base text : String) (policy : CollisionPolicy) (tags : Tags) : Option (List Quality) × Tags :=
  match readDefinitions text with
  | .error _ => (none, tags)
  | .ok definitions => attemptEach policy (TagPath.normalize base) definitions tags

/-- Access to tags that are kept nowhere else. -/
def access (arrange : List Schema → Option (List Schema)) : Access Tags where
  lookup tags := (.found, tags)
  importTags := importText
  removeTags paths tags := let (qualities, tags) := removeEach paths tags; (some qualities, tags)
  arrange

end Tags

namespace TagProvider

variable {p : TagProvider}

/-- An import into memory, whatever would strike the writes of a provider with a folder. -/
theorem importAll_eq (hfolder : p.folder = none) (policy : CollisionPolicy) (folder : String) (disk : Disk)
    (strikes : List (Option Disk.Strike)) (definitions : List Json) :
    p.importAll policy folder disk strikes definitions =
      ((Tags.attemptEach policy folder definitions p.tags).1.elim (.error .tooDeepToCopy) .ok,
        { p with tags := (Tags.attemptEach policy folder definitions p.tags).2 }, disk) := by
  induction definitions generalizing p strikes with
  | nil => rfl
  | cons definition rest ih =>
    rw [importAll, Tags.attemptEach]
    cases p.tags.admission policy folder definition with
    | settled q =>
      simp only [ih hfolder]
      cases (Tags.attemptEach policy folder rest p.tags).1 <;> rfl
    | store path =>
      have hkeep : keep p.folder path definition strikes.head?.join disk = (.ok (), disk) := by simp only [keep, hfolder]
      simp only [hkeep, ih (p := { p with tags := p.tags.insert path definition }) hfolder]
      cases Tags.isCopyable definition with
      | false => rfl
      | true => cases (Tags.attemptEach policy folder rest (p.tags.insert path definition)).1 <;> rfl

theorem removeTags_eq (hfolder : p.folder = none) (disk : Disk) (paths : List String) :
    p.removeTags disk paths =
      (.ok (Tags.removeEach paths p.tags).1, { p with tags := (Tags.removeEach paths p.tags).2 }, disk) := by
  induction paths generalizing p with
  | nil => rfl
  | cons path rest ih =>
    rw [removeTags, Tags.removeEach]
    by_cases hpath : p.tags.contains (TagPath.normalize path)
    · have hdiscard : discard p.folder (TagPath.normalize path) disk = (.ok (), disk) := by simp only [discard, hfolder]
      simp only [hpath, hdiscard, ih (p := { p with tags := p.tags.erase (TagPath.normalize path) }) hfolder]
      rfl
    · simp only [hpath, ih hfolder]
      rfl

end TagProvider

/-! ### Depots with a provider in memory -/

namespace Depot

/-- The tags of the provider called `name`, if it is found and keeps them in memory only. -/
def memory? (name : String) (d : Depot) : Option Tags :=
  match d.reach, d.directory.find? name with
  | .reachable, some index =>
    match d.providers[index]? with
    | some (.keeping ⟨_, none, tags⟩) => some tags
    | _ => none
  | _, _ => none

/-- The definition that the provider called `name` keeps in memory at a path. -/
def config? (name path : String) (d : Depot) : Option Json := (d.memory? name).bind fun tags => tags.config? path

variable {name : String} {d : Depot} {tags : Tags}

theorem config?_of_memory? (hd : d.memory? name = some tags) (path : String) : d.config? name path = tags.config? path := by
  rw [config?, hd]
  rfl

theorem memory?_eq_some_iff :
    d.memory? name = some tags ↔ d.reach = .reachable ∧ ∃ index own, d.directory.find? name = some index ∧
      d.providers[index]? = some (.keeping ⟨own, none, tags⟩) := by
  unfold memory?
  constructor
  · intro h
    split at h
    · rename_i index hreach hfind
      split at h
      · rename_i own tags' hprovider
        cases h
        exact ⟨hreach, index, own, hfind, hprovider⟩
      · cases h
    · cases h
  · intro hfound
    obtain ⟨hreach, index, own, hfind, hprovider⟩ := hfound
    simp only [hreach, hfind, hprovider]

theorem lookup_eq_found (hd : d.memory? name = some tags) : d.lookup name = .found := by
  obtain ⟨hreach, index, own, hfind, -⟩ := memory?_eq_some_iff.1 hd
  simp only [lookup, hreach, hfind, Option.isSome_some, if_true]

/-- A call that does to the tags in memory what `after` says. -/
theorem callNamed_memory (hd : d.memory? name = some tags)
    (f : Disk → Provider → Except Provider.Failure (List Quality) × Provider × Disk)
    (result : Except Provider.Failure (List Quality)) (after : Tags)
    (hf : ∀ own, f d.disk (.keeping ⟨own, none, tags⟩) = (result, .keeping ⟨own, none, after⟩, d.disk)) :
    (d.callNamed name f).1 = result.toOption ∧ (d.callNamed name f).2.memory? name = some after ∧
      (d.callNamed name f).2.disk = d.disk := by
  obtain ⟨hreach, index, own, hfind, hprovider⟩ := memory?_eq_some_iff.1 hd
  have hcall : d.call index f =
      (some result, { d with providers := d.providers.set index (.keeping ⟨own, none, after⟩) }) := by
    rw [call, hprovider]
    simp only [hf own]
  have hnamed : d.callNamed name f =
      (result.toOption, { d with providers := d.providers.set index (.keeping ⟨own, none, after⟩) }) := by
    rw [callNamed, hfind]
    simp only [hcall]
    cases result <;> rfl
  rw [hnamed]
  refine ⟨rfl, memory?_eq_some_iff.2 ⟨hreach, index, own, hfind, ?_⟩, rfl⟩
  have hindex : index < d.providers.length := (List.getElem?_eq_some_iff.1 hprovider).1
  simp [hindex]

theorem importTags_memory (hd : d.memory? name = some tags) (arrange : List Schema → Option (List Schema))
    (base text : String) (policy : CollisionPolicy) :
    ((access name arrange).importTags base text policy d).1 = (tags.importText base text policy).1 ∧
      ((access name arrange).importTags base text policy d).2.memory? name = some (tags.importText base text policy).2 ∧
      ((access name arrange).importTags base text policy d).2.disk = d.disk := by
  cases hread : readDefinitions text with
  | error fault =>
    have hcall := callNamed_memory hd (Provider.importTags base text policy) (.error (.provider (.payload fault))) tags
      (fun own => by
        simp only [Provider.importTags, TagProvider.importTags, hread]
        rfl)
    simp only [Tags.importText, hread]
    exact hcall
  | ok definitions =>
    have hcall := callNamed_memory hd (Provider.importTags base text policy)
      ((Tags.attemptEach policy (TagPath.normalize base) definitions tags).1.elim (.error (.provider .tooDeepToCopy)) .ok)
      (Tags.attemptEach policy (TagPath.normalize base) definitions tags).2 (fun own => by
        simp only [Provider.importTags, TagProvider.importTags, hread]
        rw [TagProvider.importAll_eq rfl]
        cases (Tags.attemptEach policy (TagPath.normalize base) definitions tags).1 <;> rfl)
    simp only [Tags.importText, hread]
    refine ⟨hcall.1.trans ?_, hcall.2⟩
    cases (Tags.attemptEach policy (TagPath.normalize base) definitions tags).1 <;> rfl

theorem removeTags_memory (hd : d.memory? name = some tags) (arrange : List Schema → Option (List Schema))
    (paths : List String) :
    ((access name arrange).removeTags paths d).1 = some (tags.removeEach paths).1 ∧
      ((access name arrange).removeTags paths d).2.memory? name = some (tags.removeEach paths).2 ∧
      ((access name arrange).removeTags paths d).2.disk = d.disk :=
  callNamed_memory hd (Provider.removeTags paths) (.ok (tags.removeEach paths).1) (tags.removeEach paths).2
    (fun own => by
      rw [Provider.removeTags, TagProvider.removeTags_eq rfl]
      rfl)

/-- A depot whose one provider is in memory and has no tags yet. -/
def ofMemory (name : String) : Depot := ({} : Depot).add (.keeping { name })

theorem memory?_ofMemory (name : String) : (ofMemory name).memory? name = some ∅ := by
  simp [memory?, ofMemory, add, ProviderDirectory.find?, ProviderDirectory.register, Provider.name]

end Depot

end TagTypes
