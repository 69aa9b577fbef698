import Mathlib.Tactic
import TagTypes.Proofs.Json.Beginning
import TagTypes.Proofs.Json.LineEnds
import TagTypes.Proofs.TagStore.Folder
import TagTypes.Proofs.TagStore.Import
import TagTypes.Proofs.Text.Sorted

/-!
# Reopened folders

A provider that is opened over a folder takes in the files that are there. If another one has worked in the folder, alone and from the start, then the new provider holds what the old one holds, also after calls that failed. A file that was cut by a struck write is taken in as far as it can be read, under its own path: only there the two may differ. Only a folder that can never be made may be found missing at first and be no path at all later, since directories above it were made: then nothing was ever stored. A provider with a folder whose calls do not fail answers like one in memory.
-/

namespace TagTypes

namespace Disk

variable {d : Disk} {place parts : List String} {node : DiskNode}

theorem mem_below (hparts : parts ≠ []) (hnode : d.node? (place ++ parts) = some node) : (parts, node) ∈ d.below place := by
  have hplace : (place ++ parts).isEmpty = false := by simp [hparts]
  rw [node?, hplace, if_neg Bool.false_ne_true, ← Dict.mem_entries_iff] at hnode
  rw [below, List.mem_filterMap]
  refine ⟨_, hnode, ?_⟩
  have hlength : 0 < parts.length := List.length_pos_iff.2 hparts
  simp [hlength]

end Disk

namespace Tags

/-- What is stored at the paths of some names decides which of them are found in a folder. -/
theorem browse_congr {tags others : Tags} {path : String} {wanted : String → Bool}
    (hsame : ∀ name, wanted name = true → tags.get? (TagPath.inFolder (TagPath.normalize path) name) =
      others.get? (TagPath.inFolder (TagPath.normalize path) name)) :
    (tags.browse path).filter wanted = (others.browse path).filter wanted := by
  have hperm : ((tags.browse path).filter wanted).Perm ((others.browse path).filter wanted) := by
    refine (List.perm_ext_iff_of_nodup ((nodup_browse tags path).filter _) ((nodup_browse others path).filter _)).2 fun name => ?_
    rw [List.mem_filter, List.mem_filter, mem_browse, mem_browse]
    refine and_congr_left fun hname => ?_
    rw [hsame name hname]
  exact hperm.eq_of_pairwise (fun _ _ _ _ => le_antisymm) ((Text.pairwise_sorted _).filter _) ((Text.pairwise_sorted _).filter _)

end Tags

namespace TagProvider

open TagPath (Filed)

variable {p : TagProvider} {folder : FilePath} {d d' : Disk} {place parts cut : List String} {name path : String} {v : Json}

/-! ### Files that are taken in -/

theorem mem_definitionPlaces {node : DiskNode} (hnode : d.node? (place ++ parts) = some node)
    (hending : ".json".toList.isSuffixOf (parts.getLast?.getD "").toList = true) : parts ∈ definitionPlaces d place := by
  have hparts : parts ≠ [] := by
    rintro rfl
    cases hending
  rw [definitionPlaces, List.mem_mergeSort, List.mem_filter, List.mem_map]
  exact ⟨⟨_, Disk.mem_below hparts hnode, rfl⟩, hending⟩

namespace Mirrored

variable (h : Mirrored p folder d cut) (hstatus : d.status folder = .ok (place, .directory))
include h hstatus

/-- Each file below the folder is that of a path and holds what it should. -/
theorem holdsAt {content : ByteArray} (hnode : d.node? (place ++ parts) = some (.file content)) :
    HoldsAt p.tags cut (tagPathOf parts) content := by
  rw [Disk.eq_placeOf_of_status hstatus] at hnode
  obtain ⟨path, ⟨dirs, name, hfiled, rfl⟩, hholds⟩ := h.held parts content (Disk.content?_eq_some_iff.2 hnode)
  rwa [hfiled.tagPathOf_eq]

/-- To take in a file changes nothing but what is held at its path, which is then what the other provider stores there, unless the file is cut. -/
theorem load_eq_ok (start : Tags) (parts : List String) : ∃ next, load d place start parts = .ok next ∧ ∀ path ∉ cut,
    (next.get? path = start.get? path ∨ next.get? path = p.tags.get? path) ∧
      ((∃ content, d.node? (place ++ parts) = some (.file content)) → tagPathOf parts = path →
        next.get? path = p.tags.get? path) := by
  unfold load
  rcases hnode : d.node? (place ++ parts) with _ | (_ | content)
  · exact ⟨start, rfl, fun path _ => ⟨Or.inl rfl, fun hfile => by simp at hfile⟩⟩
  · exact ⟨start, rfl, fun path _ => ⟨Or.inl rfl, fun hfile => by simp at hfile⟩⟩
  · have hholds := h.holdsAt hstatus hnode
    rw [HoldsAt] at hholds
    split at hholds
    · -- what is read from a cut file is taken in under its own path only, and nothing in it lies too deep
      rename_i hcut
      obtain ⟨v, kept, hv, rfl⟩ := hholds
      have hne : ∀ path ∉ cut, tagPathOf parts ≠ path := fun path hpath heq => hpath (heq ▸ hcut)
      have hsame : ∀ path ∉ cut, (start.get? path = start.get? path ∨ start.get? path = p.tags.get? path) ∧
          ((∃ content, some (DiskNode.file (v.indentedText.toUTF8.extract 0 kept)) = some (.file content)) →
            tagPathOf parts = path → start.get? path = p.tags.get? path) :=
        fun path hpath => ⟨Or.inl rfl, fun _ heq => absurd heq (hne path hpath)⟩
      simp only
      cases hdecode : Disk.decodeText (v.indentedText.toUTF8.extract 0 kept) with
      | error fault => exact ⟨start, rfl, hsame⟩
      | ok text =>
        simp only
        have hbeginning := Disk.beginning_of_decodeText hdecode
        rw [← String.toList_ofList (l := unifyLineEnds v.indentedText.toList)] at hbeginning
        have hshallow := Json.read_ne_tooDeep_of_beginning (Json.read_unifyLineEnds hv.read_indentedText) hbeginning
        cases hread : Json.read text with
        | ok w =>
          refine ⟨_, rfl, fun path hpath => ⟨Or.inl ?_, fun _ heq => absurd heq (hne path hpath)⟩⟩
          rw [Dict.get?_insert, if_neg (hne path hpath)]
        | error fault =>
          cases fault with
          | malformed => exact ⟨start, rfl, hsame⟩
          | tooManyDigits => exact ⟨start, rfl, hsame⟩
          | tooDeep collection => exact absurd hread (hshallow collection)
    · obtain ⟨v, hstored, hv, rfl⟩ := hholds
      have hread := Json.read_unifyLineEnds hv.read_indentedText
      simp only [Disk.decodeText_toUTF8, hread]
      refine ⟨_, rfl, fun path _ => ?_⟩
      rw [Dict.get?_insert]
      by_cases hpath : tagPathOf parts = path
      · subst hpath
        rw [if_pos rfl, hstored]
        exact ⟨Or.inr rfl, fun _ _ => rfl⟩
      · rw [if_neg hpath]
        exact ⟨Or.inl rfl, fun _ hsame => absurd hsame hpath⟩

theorem foldlM_load_eq_ok (start : Tags) (places : List (List String)) :
    ∃ loaded, places.foldlM (load d place) start = .ok loaded ∧ ∀ path ∉ cut,
      (loaded.get? path = start.get? path ∨ loaded.get? path = p.tags.get? path) ∧
        ((∃ parts ∈ places, (∃ content, d.node? (place ++ parts) = some (.file content)) ∧ tagPathOf parts = path) →
          loaded.get? path = p.tags.get? path) := by
  induction places generalizing start with
  | nil => exact ⟨start, rfl, fun path _ => ⟨Or.inl rfl, fun hfile => by simp at hfile⟩⟩
  | cons parts rest ih =>
    obtain ⟨next, hnext, hfirst⟩ := h.load_eq_ok hstatus start parts
    obtain ⟨loaded, hloaded, hrest⟩ := ih next
    refine ⟨loaded, ?_, fun path huncut => ?_⟩
    · rw [List.foldlM_cons, hnext]
      exact hloaded
    · obtain ⟨hkept, htaken⟩ := hfirst path huncut
      obtain ⟨hkept', htaken'⟩ := hrest path huncut
      constructor
      · rcases hkept' with hkept' | hkept'
        · rwa [hkept']
        · exact Or.inr hkept'
      · -- what the first file gave may be set again later on, but then to the same definition
        rintro ⟨other, hother, hfile, hpath⟩
        rcases List.mem_cons.1 hother with rfl | hother
        · rcases hkept' with hkept' | hkept'
          · rw [hkept', htaken hfile hpath]
          · exact hkept'
        · exact htaken' ⟨other, hother, hfile, hpath⟩

/-- A provider that is opened over a folder that is there holds what the other one holds, but for definitions with cut files. -/
theorem openFolder_eq_ok (name : String) :
    ∃ loaded : Tags, openFolder name folder d = .ok { name, folder := some folder, tags := loaded } ∧
      ∀ path ∉ cut, loaded.get? path = p.tags.get? path := by
  obtain ⟨loaded, hloaded, htags⟩ := h.foldlM_load_eq_ok hstatus ∅ (definitionPlaces d place)
  refine ⟨loaded, ?_, fun path huncut => ?_⟩
  · unfold openFolder
    rw [hstatus]
    simp only [hloaded, bind, Except.bind, pure, Except.pure]
  · obtain ⟨hkept, htaken⟩ := htags path huncut
    cases hpath : p.tags.get? path with
    | none =>
      rw [hpath] at hkept
      simpa using hkept
    | some v =>
      obtain ⟨dirs, name, target, content, hfiled, htarget, hnode⟩ := h.exists_file hpath
      obtain ⟨place', hplace, rfl⟩ := Disk.status_above hfiled.notMem_up htarget
      cases hstatus.symm.trans hplace
      rw [List.append_assoc] at hnode
      have hmem : dirs ++ [name ++ ".json"] ∈ definitionPlaces d place := by
        refine mem_definitionPlaces hnode ?_
        rw [List.getLast?_concat, Option.getD_some, String.toList_append]
        exact List.isSuffixOf_iff_suffix.2 (List.suffix_append _ _)
      rw [← hpath]
      exact htaken ⟨_, hmem, ⟨_, hnode⟩, hfiled.tagPathOf_eq⟩

end Mirrored

/-- A provider that is opened over any folder holds what the other one holds, but for definitions with cut files. Where the path cannot lead anywhere it is not opened, and the other one holds nothing. -/
theorem Mirrored.openFolder_cases (h : Mirrored p folder d cut) (name : String) :
    (∃ loaded : Tags, openFolder name folder d = .ok { name, folder := some folder, tags := loaded } ∧
      ∀ path ∉ cut, loaded.get? path = p.tags.get? path) ∨
      openFolder name folder d = .error (.folder .nameTooLong) ∧ d.status folder = .error .nameTooLong ∧ p.tags = ∅ := by
  by_cases hthere : ∃ place, d.status folder = .ok (place, .directory)
  · obtain ⟨place, hstatus⟩ := hthere
    exact Or.inl (h.openFolder_eq_ok hstatus name)
  · have hempty := h.tags_eq_empty fun place hstatus => hthere ⟨place, hstatus⟩
    unfold openFolder
    split
    · rename_i hlong
      exact Or.inr ⟨rfl, hlong, hempty⟩
    · rename_i place hstatus
      exact absurd ⟨place, hstatus⟩ hthere
    · exact Or.inl ⟨∅, rfl, fun path _ => by rw [hempty]⟩

/-! ### Calls that do not fail -/

theorem withResult_eq_ok {α : Type} {q : Quality} {rest : Except ProviderError (List Quality) × α} {qualities : List Quality}
    {after : α} (hok : withResult q rest = (.ok qualities, after)) :
    ∃ others, rest = (.ok others, after) ∧ qualities = q :: others := by
  obtain ⟨result, after'⟩ := rest
  cases result with
  | error e => cases hok
  | ok others =>
    cases hok
    exact ⟨others, rfl, rfl⟩

variable {p' q : TagProvider} {qualities : List Quality}

theorem importAll_ok {policy : CollisionPolicy} {base : String} {definitions : List Json} {strikes : List (Option Disk.Strike)}
    (hok : p.importAll policy base d strikes definitions = (.ok qualities, p', d')) :
    Tags.attemptEach policy base definitions p.tags = (some qualities, p'.tags) := by
  induction definitions generalizing p d strikes qualities with
  | nil =>
    cases hok
    rfl
  | cons v rest ih =>
    rw [Tags.attemptEach]
    rcases importAll_cons_cases p policy base d strikes v rest with
      ⟨q, hadmission, heq⟩ | ⟨path, hadmission, ⟨-, heq⟩ | ⟨hcopyable, ⟨e, after, -, heq⟩ | ⟨after, -, heq⟩⟩⟩
    · rw [heq] at hok
      obtain ⟨others, hrest, rfl⟩ := withResult_eq_ok hok
      simp only [hadmission, ih hrest]
      rfl
    · rw [heq] at hok
      cases hok
    · rw [heq] at hok
      cases hok
    · rw [heq] at hok
      obtain ⟨others, hrest, rfl⟩ := withResult_eq_ok hok
      simp only [hadmission, hcopyable, if_true, ih hrest]
      rfl

theorem removeTags_ok {paths : List String} (hok : p.removeTags d paths = (.ok qualities, p', d')) :
    Tags.removeEach paths p.tags = (qualities, p'.tags) := by
  induction paths generalizing p d qualities with
  | nil =>
    cases hok
    rfl
  | cons path rest ih =>
    rw [removeTags] at hok
    rw [Tags.removeEach]
    by_cases hpath : p.tags.contains (TagPath.normalize path)
    · simp only [hpath, if_true] at hok ⊢
      rcases hdiscard : discard p.folder (TagPath.normalize path) d with ⟨_ | _, d₁⟩
      · simp only [hdiscard] at hok
        cases hok
      · simp only [hdiscard] at hok
        obtain ⟨others, hrest, rfl⟩ := withResult_eq_ok hok
        simp only [ih hrest]
    · simp only [hpath, Bool.false_eq_true, if_false] at hok ⊢
      obtain ⟨others, hrest, rfl⟩ := withResult_eq_ok hok
      simp only [ih hrest]

/-! ### Runs of calls -/

/-- Answer one call; `strikes` says what strikes the writes of the definitions in an import. -/
def answer (p : TagProvider) (disk : Disk) (call : TagCall) (strikes : List (Option Disk.Strike) := []) :
    Except ProviderError (List Quality) × TagProvider × Disk :=
  match call with
  | .importTags base text policy => p.importTags base text policy disk strikes
  | .removeTags paths => p.removeTags disk paths

/-- Answer one call after the other, also after one that failed. -/
def answerAll (p : TagProvider) (disk : Disk) (calls : List TagCall) (strikes : List (List (Option Disk.Strike)) := []) :
    List (Except ProviderError (List Quality)) × TagProvider × Disk :=
  match calls with
  | [] => ([], p, disk)
  | call :: rest =>
    let (result, p, disk) := p.answer disk call (strikes.head?.getD [])
    let (results, p, disk) := p.answerAll disk rest strikes.tail
    (result :: results, p, disk)

/-- The paths whose files are cut after a call. -/
def cutBy (p : TagProvider) (disk : Disk) (cut : List String) (call : TagCall) (strikes : List (Option Disk.Strike)) : List String :=
  match call with
  | .importTags base text policy =>
    match readDefinitions text with
    | .ok definitions => p.cutByImport policy (TagPath.normalize base) disk cut strikes definitions
    | .error _ => cut
  | .removeTags paths => p.cutByRemoval disk cut paths

/-- The paths whose files are cut after some calls. -/
def cutPaths (p : TagProvider) (disk : Disk) (cut : List String) : List TagCall → List (List (Option Disk.Strike)) → List String
  | [], _ => cut
  | call :: rest, strikes =>
    let now := strikes.head?.getD []
    let after := p.answer disk call now
    cutPaths after.2.1 after.2.2 (p.cutBy disk cut call now) rest strikes.tail

variable {call : TagCall} {calls : List TagCall} {strikes : List (List (Option Disk.Strike))}
  {results : List (Except ProviderError (List Quality))}

theorem answered_answer (h : Mirrored p folder d cut) (hcall : call.IsPlain) (now : List (Option Disk.Strike)) :
    Answered folder d (p.cutBy d cut call now) (p.answer d call now) := by
  cases call with
  | importTags base text policy =>
    obtain ⟨hbase, hwhole⟩ := hcall
    rw [answer, cutBy]
    cases hread : readDefinitions text with
    | error fault =>
      simp only [importTags, hread]
      exact .failed h _
    | ok definitions =>
      rw [importTags_of_readDefinitions hread hwhole]
      exact answered_importAll h policy hbase (legible_of_readDefinitions hread) now
  | removeTags paths => exact answered_removeTags h paths

/-- A provider in memory gives the same answer, if there is one, whatever strikes the writes of either. -/
theorem answer_memory (hcall : call.IsPlain) {now : List (Option Disk.Strike)} (hok : p.answer d call now = (.ok qualities, p', d'))
    (hmemory : q.folder = none) (htags : q.tags = p.tags) (elsewhere : Disk) (others : List (Option Disk.Strike)) :
    q.answer elsewhere call others = (.ok qualities, { q with tags := p'.tags }, elsewhere) := by
  cases call with
  | importTags base text policy =>
    rw [answer] at hok ⊢
    cases hread : readDefinitions text with
    | error fault =>
      simp only [importTags, hread] at hok
      cases hok
    | ok definitions =>
      rw [importTags_of_readDefinitions hread hcall.2] at hok ⊢
      rw [importAll_eq hmemory, htags, importAll_ok hok]
      rfl
  | removeTags paths =>
    rw [answer] at hok ⊢
    rw [removeTags_eq hmemory, htags, removeTags_ok hok]

/-- After any calls the provider is in step with its files. If none failed, then the disk is as before or the folder is there. -/
theorem mirrored_answerAll (h : Mirrored p folder d cut) (hplain : ∀ call ∈ calls, call.IsPlain)
    (hrun : p.answerAll d calls strikes = (results, p', d')) : Mirrored p' folder d' (p.cutPaths d cut calls strikes) ∧
      ((∀ result ∈ results, ∃ qualities, result = .ok qualities) →
        d' = d ∨ ∃ place, d'.status folder = .ok (place, .directory)) := by
  induction calls generalizing p d cut strikes results with
  | nil =>
    cases hrun
    exact ⟨h, fun _ => Or.inl rfl⟩
  | cons call rest ih =>
    rw [List.forall_mem_cons] at hplain
    have hfirst := answered_answer h hplain.1 (strikes.head?.getD [])
    rcases hanswer : p.answer d call (strikes.head?.getD []) with ⟨result, p₁, d₁⟩
    rcases hrest : p₁.answerAll d₁ rest strikes.tail with ⟨others, p₂, d₂⟩
    rw [hanswer] at hfirst
    simp only [answerAll, hanswer, hrest] at hrun
    cases hrun
    obtain ⟨hmirrored, hsettled⟩ := ih hfirst.mirrored hplain.2 hrest
    refine ⟨?_, fun hok => ?_⟩
    · simp only [cutPaths, hanswer]
      exact hmirrored
    · rw [List.forall_mem_cons] at hok
      obtain ⟨qualities, rfl⟩ := hok.1
      rcases hsettled hok.2 with rfl | hthere
      · exact hfirst.settled qualities rfl
      · exact Or.inr hthere

/-- If no write is struck, or no call fails, then no further file is cut. -/
theorem cutPaths_subset (h : Mirrored p folder d cut) (hplain : ∀ call ∈ calls, call.IsPlain)
    (hrun : p.answerAll d calls strikes = (results, p', d'))
    (hwhole : (∀ now ∈ strikes, ∀ strike ∈ now, strike = none) ∨ ∀ result ∈ results, ∃ qualities, result = .ok qualities) :
    p.cutPaths d cut calls strikes ⊆ cut := by
  induction calls generalizing p d cut strikes results with
  | nil => exact List.Subset.refl _
  | cons call rest ih =>
    rw [List.forall_mem_cons] at hplain
    have hfirst := answered_answer h hplain.1 (strikes.head?.getD [])
    rcases hanswer : p.answer d call (strikes.head?.getD []) with ⟨result, p₁, d₁⟩
    rcases hrest : p₁.answerAll d₁ rest strikes.tail with ⟨others, p₂, d₂⟩
    rw [hanswer] at hfirst
    simp only [answerAll, hanswer, hrest] at hrun
    cases hrun
    have hnow : p.cutBy d cut call (strikes.head?.getD []) ⊆ cut := by
      cases call with
      | removeTags paths => exact cutByRemoval_subset p d cut paths
      | importTags base text policy =>
        rw [cutBy]
        cases hread : readDefinitions text with
        | error fault => exact List.Subset.refl _
        | ok definitions =>
          refine cutByImport_subset h.keeps ?_
          rcases hwhole with hnone | hok
          · left
            cases strikes with
            | nil => nofun
            | cons now later => exact hnone now List.mem_cons_self
          · right
            rw [answer, importTags_of_readDefinitions hread hplain.1.2] at hanswer
            rw [hanswer]
            exact hok result List.mem_cons_self
    have hlater := ih hfirst.mirrored hplain.2 hrest <| hwhole.imp
      (fun hnone now hmem => hnone now (List.mem_of_mem_tail hmem)) fun hok => (List.forall_mem_cons.1 hok).2
    simp only [cutPaths, hanswer]
    exact List.Subset.trans hlater hnow

theorem answerAll_memory (hplain : ∀ call ∈ calls, call.IsPlain) (hrun : p.answerAll d calls strikes = (results, p', d'))
    (hok : ∀ result ∈ results, ∃ qualities, result = .ok qualities) (hmemory : q.folder = none) (htags : q.tags = p.tags)
    (elsewhere : Disk) : q.answerAll elsewhere calls = (results, { q with tags := p'.tags }, elsewhere) := by
  induction calls generalizing p q d strikes results with
  | nil =>
    cases hrun
    rw [answerAll, ← htags]
  | cons call rest ih =>
    rw [List.forall_mem_cons] at hplain
    rcases hanswer : p.answer d call (strikes.head?.getD []) with ⟨result, p₁, d₁⟩
    rcases hrest : p₁.answerAll d₁ rest strikes.tail with ⟨others, p₂, d₂⟩
    simp only [answerAll, hanswer, hrest] at hrun
    cases hrun
    rw [List.forall_mem_cons] at hok
    obtain ⟨qualities, rfl⟩ := hok.1
    have hfirst := answer_memory hplain.1 hanswer hmemory htags elsewhere []
    have hothers := ih (q := { q with tags := p₁.tags }) hplain.2 hrest hok.2 hmemory rfl
    simp only [answerAll, List.head?_nil, Option.getD_none, hfirst, List.tail_nil, hothers]

/-- A folder that has no files at first is opened without definitions. -/
theorem openFolder_bare {first : TagProvider} (hbare : d.Bare folder) (hopen : openFolder name folder d = .ok first) :
    first = { name, folder := some folder } := by
  have hmirrored : Mirrored { name, folder := some folder } folder d [] := mirrored_bare hbare []
  rcases hmirrored.openFolder_cases name with ⟨loaded, hloaded, htags⟩ | ⟨hfault, -⟩
  · cases hloaded.symm.trans hopen
    have hempty : loaded = ∅ := Dict.eq_empty_of_get? fun path => htags path (List.not_mem_nil)
    rw [hempty]
  · cases hfault.symm.trans hopen

/-- A definition whose name looks like that of a file. -/
def pointed : String := "\x7b\"name\": \"S.json\", \"tagType\": \"UdtType\", \"rate\": 0.5, \"note\": \"\\r\"\x7d"

/-- Calls that store a definition, turn down one that is no object, and store one with a name of two points. -/
def quiet : List TagCall :=
  [.importTags "/a//b/" pointed .abort, .importTags "" "[1, \x7b\"name\": \"..\", \"tagType\": 1\x7d]" .ignore]

/-- Then a call that fails, since a file is where it needs a directory, one that removes one of two paths, and one whose write is struck. -/
def working : List TagCall :=
  quiet ++ [.importTags "a/b/S.json.json" pointed .overwrite, .removeTags ["..", "a/b"], .importTags "a/b/c" pointed .ignore]

def lastStruck : List (List (Option Disk.Strike)) := [[], [], [], [], [some (.noRoom 3)]]

def opened : TagProvider := { name := "default", folder := some ⟨.here, ["tags"]⟩ }

def noted : List (Except ProviderError (List Quality)) × TagProvider × Disk := opened.answerAll {} quiet

def worked : List (Except ProviderError (List Quality)) × TagProvider × Disk := opened.answerAll {} working lastStruck

/-- The path of a folder with a name that is too long, below a directory that is missing. -/
def unreachable : FilePath := ⟨.here, ["a", String.ofList (List.replicate 256 'x')]⟩

def attempted : List (Except ProviderError (List Quality)) × TagProvider × Disk :=
  answerAll { name := "default", folder := some unreachable } {} [.importTags "" pointed .abort]

/-- A definition, and then one for its path with half a surrogate pair in it. -/
def halving : List TagCall := [.importTags "" (Json.obj [("name", .str "T"), ("tagType", .str "A")]).compactText .abort,
  .importTags "" "\x7b\"name\": \"T\", \"tagType\": \"\\ud800\"\x7d" .overwrite]

def halved : List (Except ProviderError (List Quality)) × TagProvider × Disk := opened.answerAll {} halving

end TagProvider

end TagTypes
