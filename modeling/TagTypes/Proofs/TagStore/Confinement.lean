import Mathlib.Tactic
import TagTypes.Depot
import TagTypes.Proofs.Disk.Sparing
import TagTypes.Proofs.Registry.Invariant
import TagTypes.Proofs.TagStore.Folder

/-!
# Providers that stay in their folder

A provider with a folder changes files below it only, whatever it is asked to import into the folder of types or to remove. The name of an imported definition has no slash in it, so its file lies in the folder of types; and a path to be removed counts only if it is stored, so that it was imported or read from a file below the folder. The disk on which the folder was opened has proper names; what the names of the types are does not matter.
-/

namespace TagTypes

open TagPath (Filed IsName)

variable {allowed : List String → Prop} {root folder : FilePath} {d d' : Disk} {path : String} {v : Json}

/-- Every file below the path may be changed. -/
def Disk.Room (allowed : List String → Prop) (d : Disk) (root : FilePath) : Prop :=
  ∀ below, below ≠ [] → allowed (d.placeOf root ++ below)

theorem Disk.Room.spares (h : Disk.Room allowed d root) {others : List String → Prop} (hspares : Disk.Spares others d d') :
    Disk.Room allowed d' root := by
  intro below hbelow
  rw [hspares.placeOf]
  exact h below hbelow

/-- A name that a file can have: it is not empty, has no slash, and is no way to stay or to go up. -/
structure Disk.IsProper (name : String) : Prop where
  isName : IsName name
  plain : name ≠ "." ∧ name ≠ ".."

/-- Files and directories have proper names. -/
def Disk.Proper (d : Disk) : Prop := ∀ place ∈ d.nodes.keys, ∀ name ∈ place, Disk.IsProper name

/-- The ending of a file name can be dropped. -/
theorem TagPath.IsName.stemOf {name : String} (hname : IsName name) : IsName (FilePath.stemOf name) := by
  unfold FilePath.stemOf
  simp only
  split
  · exact hname
  · rename_i hstem
    rw [Bool.or_eq_true, not_or, Bool.not_eq_true, Bool.not_eq_true] at hstem
    constructor
    · intro hempty
      have hlist := congrArg String.toList hempty
      rw [String.toList_ofList] at hlist
      rw [List.reverse_eq_nil_iff.1 hlist] at hstem
      cases hstem.2
    · rw [String.toList_ofList, List.mem_reverse]
      intro hslash
      exact hname.2 (List.mem_reverse.1 ((List.dropWhile_sublist _).subset ((List.drop_sublist 1 _).subset hslash)))

/-- The tag path has a file below every folder. -/
def TagPath.IsFiled (path : String) : Prop := ∃ dirs name, Filed path dirs name

open TagPath (IsFiled)

namespace TagProvider

variable {p : TagProvider}

/-- If the provider has a folder, then it is the given one, and each stored path has a file below it. -/
def Housed (root : FilePath) (p : TagProvider) : Prop :=
  ∀ folder, p.folder = some folder → folder = root ∧ ∀ path, p.tags.contains path = true → IsFiled path

theorem spares_written (hroom : Disk.Room allowed d folder) (hpath : IsFiled path) {d₁ d' : Disk} (hgrown : Disk.Grown d d₁)
    {content : ByteArray} (hwrite : Disk.writeFile (fileFor folder path) content d₁ = (.ok (), d')) : Disk.Spares allowed d d' := by
  obtain ⟨dirs, name, hfiled⟩ := hpath
  rw [hfiled.fileFor_eq] at hwrite
  obtain ⟨target, hchanged⟩ := Disk.written_of_writeFile hwrite
  have hspares : Disk.Spares allowed d d₁ := hgrown.spares
  refine hspares.trans (hchanged.spares ?_)
  rw [Disk.placeOf_descend hfiled.notMem_up, List.append_assoc]
  exact hroom.spares hspares _ (by simp)

theorem spares_keep (hroom : Disk.Room allowed d folder) (hpath : IsFiled path) (v : Json) (strike : Option Disk.Strike) :
    Disk.Spares allowed d (keep (some folder) path v strike d).2 := by
  rcases hkeep : keep (some folder) path v strike d with ⟨e | ⟨⟩, d'⟩
  · rcases keep_error hkeep with ⟨-, hgrown⟩ | ⟨-, s, between, -, hgrown, hwrite⟩
    · exact hgrown.spares
    · exact spares_written hroom hpath hgrown hwrite
  · obtain ⟨-, between, hgrown, hwrite⟩ := keep_ok hkeep
    exact spares_written hroom hpath hgrown hwrite

theorem spares_discard (hroom : Disk.Room allowed d folder) (hpath : IsFiled path) :
    Disk.Spares allowed d (discard (some folder) path d).2 := by
  obtain ⟨dirs, name, hfiled⟩ := hpath
  rcases hdiscard : discard (some folder) path d with ⟨outcome, d'⟩
  simp only [discard, hfiled.fileFor_eq] at hdiscard
  obtain ⟨result, haction, -⟩ := onDisk_eq hdiscard
  rcases Disk.removeFileIfThere_cases haction with ⟨-, target, hchanged⟩ | ⟨rfl, -⟩
  · refine hchanged.spares ?_
    rw [Disk.placeOf_descend hfiled.notMem_up, List.append_assoc]
    exact hroom _ (by simp)
  · exact Disk.Spares.refl allowed _

/-- What a call leaves: the provider is housed as before, and files are changed at allowed places only. -/
structure Stays (allowed : List String → Prop) (root : FilePath) (d : Disk) (p : TagProvider) (d' : Disk) : Prop where
  housed : p.Housed root
  spares : Disk.Spares allowed d d'

theorem Stays.trans {d₁ : Disk} (hspares : Disk.Spares allowed d d₁) (h : Stays allowed root d₁ p d') :
    Stays allowed root d p d' := ⟨h.housed, hspares.trans h.spares⟩

theorem Housed.insert (h : p.Housed root) (hpath : IsFiled path) (v : Json) :
    Housed root { p with tags := p.tags.insert path v } := by
  intro folder hfolder
  obtain ⟨hroot, hfiled⟩ := h folder hfolder
  refine ⟨hroot, fun other hother => ?_⟩
  rw [Dict.contains, Dict.get?_insert] at hother
  split at hother
  · rename_i heq
    exact heq ▸ hpath
  · exact hfiled other hother

theorem Housed.erase (h : p.Housed root) (path : String) : Housed root { p with tags := p.tags.erase path } := by
  intro folder hfolder
  obtain ⟨hroot, hfiled⟩ := h folder hfolder
  refine ⟨hroot, fun other hother => ?_⟩
  rw [Dict.contains, Dict.get?_erase] at hother
  split at hother
  · cases hother
  · exact hfiled other hother

theorem Housed.spares_keep (h : p.Housed root) (hroom : Disk.Room allowed d root) (hpath : IsFiled path) (v : Json)
    (strike : Option Disk.Strike) : Disk.Spares allowed d (keep p.folder path v strike d).2 := by
  rcases hfolder : p.folder with _ | folder
  · exact Disk.Spares.refl allowed d
  · obtain ⟨rfl, -⟩ := h folder hfolder
    exact TagProvider.spares_keep hroom hpath v strike

theorem Housed.spares_discard (h : p.Housed root) (hroom : Disk.Room allowed d root)
    (hpath : p.tags.contains path = true) : Disk.Spares allowed d (discard p.folder path d).2 := by
  rcases hfolder : p.folder with _ | folder
  · exact Disk.Spares.refl allowed d
  · obtain ⟨rfl, hfiled⟩ := h folder hfolder
    exact TagProvider.spares_discard hroom (hfiled path hpath)

/-- A definition that is to be stored in the folder of types has its file there, whatever its name. -/
theorem isFiled_of_admission {tags : Tags} {policy : CollisionPolicy} {definition : Json}
    (hadmission : tags.admission policy (TagPath.normalize Registry.typesFolder) definition = .store path) : IsFiled path := by
  obtain ⟨name, hname, rfl⟩ := Tags.isName_of_admission hadmission
  exact ⟨_, name, TagPath.filed_inFolder (by decide) hname⟩

theorem stays_importAll (policy : CollisionPolicy) (strikes : List (Option Disk.Strike)) (definitions : List Json)
    (h : p.Housed root) (hroom : Disk.Room allowed d root) :
    Stays allowed root d (p.importAll policy (TagPath.normalize Registry.typesFolder) d strikes definitions).2.1
      (p.importAll policy (TagPath.normalize Registry.typesFolder) d strikes definitions).2.2 := by
  induction definitions generalizing p d strikes with
  | nil => exact ⟨h, Disk.Spares.refl allowed d⟩
  | cons definition rest ih =>
    rcases importAll_cons_cases p policy (TagPath.normalize Registry.typesFolder) d strikes definition rest with
      ⟨q, -, heq⟩ | ⟨path, hadmission, hstore⟩
    · rw [heq]
      exact ih _ h hroom
    · have hfiled := isFiled_of_admission hadmission
      have hkept := h.spares_keep hroom hfiled definition strikes.head?.join
      rcases hstore with ⟨-, heq⟩ | ⟨-, ⟨e, after, hkeep, heq⟩ | ⟨after, hkeep, heq⟩⟩
      · rw [heq]
        exact ⟨h, Disk.Spares.refl allowed d⟩
      · rw [hkeep] at hkept
        rw [heq]
        exact ⟨h, hkept⟩
      · rw [hkeep] at hkept
        rw [heq]
        exact (ih _ (h.insert hfiled definition) (hroom.spares hkept)).trans hkept

theorem stays_importTags (text : String) (policy : CollisionPolicy) (h : p.Housed root) (hroom : Disk.Room allowed d root) :
    Stays allowed root d (p.importTags Registry.typesFolder text policy d).2.1
      (p.importTags Registry.typesFolder text policy d).2.2 := by
  unfold importTags
  cases readDefinitions text with
  | error fault => exact ⟨h, Disk.Spares.refl allowed d⟩
  | ok definitions => exact stays_importAll policy _ definitions h hroom

theorem stays_removeTags (paths : List String) (h : p.Housed root) (hroom : Disk.Room allowed d root) :
    Stays allowed root d (p.removeTags d paths).2.1 (p.removeTags d paths).2.2 := by
  induction paths generalizing p d with
  | nil => exact ⟨h, Disk.Spares.refl allowed d⟩
  | cons path rest ih =>
    rw [removeTags]
    split
    · rename_i hstored
      have hgone := h.spares_discard hroom hstored
      rcases hdiscard : discard p.folder (TagPath.normalize path) d with ⟨e | ⟨⟩, after⟩
      · rw [hdiscard] at hgone
        exact ⟨h, hgone⟩
      · rw [hdiscard] at hgone
        exact (ih (h.erase _) (hroom.spares hgone)).trans hgone
    · exact ih h hroom

/-! ### Opening -/

/-- A file below a directory gives a path that has a file below every folder. -/
theorem isFiled_tagPathOf {parts : List String} (hproper : ∀ name ∈ parts, Disk.IsProper name) (hparts : parts ≠ []) :
    IsFiled (tagPathOf parts) := by
  obtain ⟨dirs, name, rfl⟩ := (List.eq_nil_or_concat parts).resolve_left hparts
  rw [List.concat_eq_append] at hproper ⊢
  have hname := hproper name (by simp)
  refine ⟨dirs, FilePath.stemOf name, ?_, ?_, ?_⟩
  · rw [tagPathOf, List.dropLast_concat, List.getLast?_concat, Option.getD_some]
  · intro part hpart
    rcases List.mem_append.1 hpart with hpart | hpart
    · exact (hproper part (List.mem_append_left _ hpart)).isName
    · rw [List.mem_singleton.1 hpart]
      exact hname.isName.stemOf
  · intro dir hdir
    exact (hproper dir (List.mem_append_left _ hdir)).plain

theorem isFiled_load {place : List String} {tags next : Tags} {parts : List String} (hfiled : IsFiled (tagPathOf parts))
    (htags : ∀ path, tags.contains path = true → IsFiled path) (hload : load d place tags parts = .ok next) :
    ∀ path, next.contains path = true → IsFiled path := by
  have hinserted : ∀ definition : Json, ∀ path, (tags.insert (tagPathOf parts) definition).contains path = true → IsFiled path := by
    intro definition path hpath
    rw [Dict.contains, Dict.get?_insert] at hpath
    split at hpath
    · rename_i heq
      exact heq ▸ hfiled
    · exact htags path hpath
  unfold load at hload
  split at hload
  · split at hload
    · cases hload
      exact htags
    · split at hload
      · cases hload
        exact hinserted _
      · cases hload
      · cases hload
        exact htags
  · cases hload
    exact htags

theorem isFiled_foldlM_load {place : List String} (places : List (List String))
    (hplaces : ∀ parts ∈ places, IsFiled (tagPathOf parts)) {tags last : Tags}
    (htags : ∀ path, tags.contains path = true → IsFiled path) (hload : places.foldlM (load d place) tags = .ok last) :
    ∀ path, last.contains path = true → IsFiled path := by
  induction places generalizing tags with
  | nil =>
    cases hload
    exact htags
  | cons parts rest ih =>
    obtain ⟨hparts, hrest⟩ := List.forall_mem_cons.1 hplaces
    rw [List.foldlM_cons] at hload
    cases hnext : load d place tags parts with
    | error e =>
      rw [hnext] at hload
      cases hload
    | ok next =>
      rw [hnext] at hload
      exact ih hrest (isFiled_load hparts htags hnext) hload

theorem isFiled_definitionPlaces (hproper : d.Proper) {place parts : List String} (hparts : parts ∈ definitionPlaces d place) :
    IsFiled (tagPathOf parts) := by
  have hbelow : parts ∈ (d.below place).map Prod.fst := by
    rw [definitionPlaces, List.mem_mergeSort] at hparts
    exact (List.mem_filter.1 hparts).1
  obtain ⟨⟨_, node⟩, hentry, rfl⟩ := List.mem_map.1 hbelow
  obtain ⟨⟨key, node'⟩, hkey, hsome⟩ := List.mem_filterMap.1 hentry
  simp only at hsome
  split at hsome
  · rename_i hlonger
    cases hsome
    rw [Bool.and_eq_true, decide_eq_true_eq] at hlonger
    refine isFiled_tagPathOf (fun name hname => ?_) ?_
    · exact hproper key (List.mem_map.2 ⟨_, hkey, rfl⟩) name (List.mem_of_mem_drop hname)
    · simpa using hlonger.2
  · cases hsome

/-- A provider that is opened on a folder of a disk with proper names is housed there. -/
theorem housed_openFolder (hproper : d.Proper) {name : String} {p : TagProvider} (hopen : openFolder name folder d = .ok p) :
    p.Housed folder := by
  unfold openFolder at hopen
  split at hopen
  · cases hopen
  · rename_i place hstatus
    cases hload : (definitionPlaces d place).foldlM (load d place) ∅ with
    | error e =>
      rw [hload] at hopen
      cases hopen
    | ok tags =>
      rw [hload] at hopen
      cases hopen
      intro other hother
      cases hother
      refine ⟨rfl, isFiled_foldlM_load _ (fun parts => isFiled_definitionPlaces hproper) (fun path hpath => ?_) hload⟩
      cases hpath
  · cases hopen
    intro other hother
    cases hother
    exact ⟨rfl, fun path hpath => by cases hpath⟩

end TagProvider

/-! ### Depots -/

namespace Provider

/-- A replay keeps no files. -/
def Housed (root : FilePath) : Provider → Prop
  | .keeping p => p.Housed root
  | .replaying _ => True

variable {p : Provider}

theorem housed_replay (call : TagCall) (r : Replay) : (replay call r).2.Housed root := by
  unfold replay
  rcases r.answer call with ⟨_ | _, r'⟩ <;> exact trivial

theorem stays_importTags (text : String) (policy : CollisionPolicy) (h : p.Housed root) (hroom : Disk.Room allowed d root) :
    (p.importTags Registry.typesFolder text policy d).2.1.Housed root ∧
      Disk.Spares allowed d (p.importTags Registry.typesFolder text policy d).2.2 := by
  cases p with
  | keeping p =>
    obtain ⟨hhoused, hspares⟩ := TagProvider.stays_importTags text policy h hroom
    exact ⟨hhoused, hspares⟩
  | replaying r => exact ⟨housed_replay _ r, Disk.Spares.refl allowed d⟩

theorem stays_removeTags (paths : List String) (h : p.Housed root) (hroom : Disk.Room allowed d root) :
    (p.removeTags paths d).2.1.Housed root ∧ Disk.Spares allowed d (p.removeTags paths d).2.2 := by
  cases p with
  | keeping p =>
    obtain ⟨hhoused, hspares⟩ := TagProvider.stays_removeTags paths h hroom
    exact ⟨hhoused, hspares⟩
  | replaying r => exact ⟨housed_replay _ r, Disk.Spares.refl allowed d⟩

end Provider

namespace Depot

variable {depot : Depot}

/-- The providers are housed, and since `d` files were changed at allowed places only. -/
structure Stays (allowed : List String → Prop) (root : FilePath) (d : Disk) (depot : Depot) : Prop where
  housed : ∀ p ∈ depot.providers, p.Housed root
  spares : Disk.Spares allowed d depot.disk

theorem Stays.withDisk (h : Stays allowed root d depot) (hspares : Disk.Spares allowed depot.disk d') :
    Stays allowed root d { depot with disk := d' } := ⟨h.housed, h.spares.trans hspares⟩

theorem Stays.callNamed (h : Stays allowed root d depot) (name : String)
    {f : Disk → Provider → Except Provider.Failure (List Quality) × Provider × Disk}
    (hf : ∀ p, p.Housed root → (f depot.disk p).2.1.Housed root ∧ Disk.Spares allowed depot.disk (f depot.disk p).2.2) :
    Stays allowed root d (depot.callNamed name f).2 := by
  have hcall : ∀ index, Stays allowed root d (depot.call index f).2 := by
    intro index
    unfold call
    cases hp : depot.providers[index]? with
    | none => exact h
    | some p =>
      obtain ⟨hhoused, hspares⟩ := hf p (h.housed p (List.mem_of_getElem? hp))
      refine ⟨fun other hother => ?_, h.spares.trans hspares⟩
      rcases List.mem_or_eq_of_mem_set hother with hother | rfl
      · exact h.housed other hother
      · exact hhoused
  unfold Depot.callNamed
  cases depot.directory.find? name with
  | none => exact h
  | some index =>
    have hindex := hcall index
    simp only
    split
    · rename_i heq
      rw [heq] at hindex
      exact hindex
    · rename_i heq
      rw [heq] at hindex
      exact hindex

/-- Whatever a registry asks of the providers, they stay in their folders. -/
theorem keeps_access (hroom : Disk.Room allowed d root) (name : String) (arrange : List Schema → Option (List Schema)) :
    (access name arrange).Keeps (Stays allowed root d) where
  lookup h := h
  importTags h text policy := h.callNamed name fun _ hp => Provider.stays_importTags text policy hp (hroom.spares h.spares)
  removeTags h paths := h.callNamed name fun _ hp => Provider.stays_removeTags paths hp (hroom.spares h.spares)

end Depot

end TagTypes
