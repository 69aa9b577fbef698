import Mathlib.Tactic
import TagTypes.Proofs.TagStore.Reopen

/-!
# Folders and the definitions in them

What a folder shows and what is found at a path are two views of one store. They agree because each definition is stored at a path in normal form that ends in a name: an import puts it there, whatever the base path looks like, and a removal takes away whole definitions only. A path is looked at in its normal form alone, so paths with one normal form are as good as each other.
-/

namespace TagTypes

namespace TagPath

variable {path base name : String}

/-- A path at which a tag can be stored: it leads somewhere and is in normal form. -/
def IsTagPath (path : String) : Prop := path ≠ "" ∧ normalize path = path

theorem normalize_normalize (path : String) : normalize (normalize path) = normalize path :=
  normalize_eq_iff.2 (segments_normalize path)

/-- The path of a tag is its folder, a slash and its name, up to slashes that do not count. -/
theorem normalize_slash (hname : IsName name) (base : String) : normalize (base ++ "/" ++ name) = inFolder (normalize base) name := by
  rw [inFolder_normalize, normalize, segments_slash, segments_of_isName hname]

theorem isTagPath_inFolder (hname : IsName name) (base : String) : IsTagPath (inFolder (normalize base) name) := by
  constructor
  · intro hempty
    have hlist := congrArg String.toList hempty
    rw [toList_inFolder] at hlist
    exact hname.1 (String.toList_eq_nil_iff.1 (List.append_eq_nil_iff.1 hlist).2)
  · rw [← normalize_slash hname, normalize_normalize]

/-- What has no slash and stands last in the path of a tag is the name of the tag. -/
theorem isName_of_isTagPath (hpath : IsTagPath (inFolder (normalize base) name)) (hslash : '/' ∉ name.toList) : IsName name := by
  refine ⟨?_, hslash⟩
  rintro rfl
  by_cases hbase : normalize base = ""
  · rw [hbase] at hpath
    exact hpath.1 rfl
  · -- a path that ends in a slash is longer than its normal form
    have hnormal := hpath.2
    rw [inFolder, if_neg hbase, normalize, segments_slash, segments_empty, List.append_nil, ← normalize, normalize_normalize] at hnormal
    have hlength := congrArg String.length hnormal
    have hmark : "/".length = 1 := rfl
    simp only [String.length_append, hmark] at hlength
    omega

end TagPath

namespace Tags

open TagPath (IsName IsTagPath)

variable {tags : Tags} {folder path name : String} {v : Json}

/-- Definitions stand at paths of tags, and each is a definition indeed. -/
structure Tidy (tags : Tags) : Prop where
  isTagPath : ∀ path v, tags.get? path = some v → IsTagPath path
  ne_null : ∀ path, tags.get? path ≠ some .null

theorem tidy_empty : Tidy ∅ := ⟨fun _ _ hpath => (by cases hpath), fun _ hpath => (by cases hpath)⟩

theorem ne_null_of_admission {policy : CollisionPolicy} (hadmission : tags.admission policy folder v = .store path) : v ≠ .null := by
  rintro rfl
  cases hadmission

namespace Tidy

theorem insert (h : Tidy tags) (hpath : IsTagPath path) (hv : v ≠ .null) : Tidy (Dict.insert tags path v) where
  isTagPath other w hother := by
    rw [Dict.get?_insert] at hother
    split at hother
    · rename_i hsame
      exact hsame ▸ hpath
    · exact h.isTagPath other w hother
  ne_null other hother := by
    rw [Dict.get?_insert] at hother
    split at hother
    · exact hv (Option.some.inj hother)
    · exact h.ne_null other hother

theorem erase (h : Tidy tags) (path : String) : Tidy (Dict.erase tags path) where
  isTagPath other w hother := by
    rw [Dict.get?_erase] at hother
    split at hother
    · cases hother
    · exact h.isTagPath other w hother
  ne_null other hother := by
    rw [Dict.get?_erase] at hother
    split at hother
    · cases hother
    · exact h.ne_null other hother

theorem isSome_config?_iff (h : Tidy tags) :
    (tags.config? path).isSome = true ↔ (tags.get? (TagPath.normalize path)).isSome = true := by
  simp only [Option.isSome_iff_exists, config?_eq_some_iff]
  refine exists_congr fun v => and_iff_left_of_imp fun hv => ?_
  rintro rfl
  exact h.ne_null _ hv

/-- A folder shows a name if and only if there is a definition at the path of the name in this folder. -/
theorem mem_browse_iff (h : Tidy tags) :
    name ∈ tags.browse folder ↔ IsName name ∧ (tags.config? (folder ++ "/" ++ name)).isSome = true := by
  rw [mem_browse]
  constructor
  · rintro ⟨hslash, hstored⟩
    obtain ⟨v, hv⟩ := Option.isSome_iff_exists.1 hstored
    have hname := TagPath.isName_of_isTagPath (h.isTagPath _ v hv) hslash
    exact ⟨hname, h.isSome_config?_iff.2 (by rwa [TagPath.normalize_slash hname])⟩
  · rintro ⟨hname, hfound⟩
    refine ⟨hname.2, ?_⟩
    rw [← TagPath.normalize_slash hname]
    exact h.isSome_config?_iff.1 hfound

end Tidy

theorem config?_normalize_congr {other : String} (hsame : TagPath.normalize path = TagPath.normalize other) :
    tags.config? path = tags.config? other := by
  rw [config?, hsame, config?]

theorem browse_normalize_congr {other : String} (hsame : TagPath.normalize path = TagPath.normalize other) :
    tags.browse path = tags.browse other := by
  rw [browse, hsame, browse]

end Tags

namespace TagProvider

open TagPath (IsName)

variable {p : TagProvider} {d : Disk}

/-! ### Calls keep stores tidy -/

theorem tidy_importAll (h : p.tags.Tidy) (policy : CollisionPolicy) (base : String) (strikes : List (Option Disk.Strike))
    (definitions : List Json) : (p.importAll policy (TagPath.normalize base) d strikes definitions).2.1.tags.Tidy := by
  induction definitions generalizing p d strikes with
  | nil => exact h
  | cons definition rest ih =>
    rcases importAll_cons_cases p policy (TagPath.normalize base) d strikes definition rest with
      ⟨q, -, heq⟩ | ⟨path, hadmission, ⟨-, heq⟩ | ⟨-, ⟨e, after, -, heq⟩ | ⟨after, -, heq⟩⟩⟩
    · rw [heq]
      exact ih h _
    · rw [heq]
      exact h
    · rw [heq]
      exact h
    · obtain ⟨name, hname, rfl⟩ := Tags.isName_of_admission hadmission
      rw [heq]
      exact ih (h.insert (TagPath.isTagPath_inFolder hname base) (Tags.ne_null_of_admission hadmission)) _

theorem tidy_removeTags (h : p.tags.Tidy) (paths : List String) : (p.removeTags d paths).2.1.tags.Tidy := by
  induction paths generalizing p d with
  | nil => exact h
  | cons path rest ih =>
    rw [removeTags]
    split
    · rcases discard p.folder (TagPath.normalize path) d with ⟨e | ⟨⟩, after⟩
      · exact h
      · exact ih (h.erase _)
    · exact ih h

theorem tidy_answer (h : p.tags.Tidy) (call : TagCall) (strikes : List (Option Disk.Strike)) :
    (p.answer d call strikes).2.1.tags.Tidy := by
  cases call with
  | importTags base text policy =>
    rw [answer, importTags]
    cases readDefinitions text with
    | error fault => exact h
    | ok definitions => exact tidy_importAll h policy base _ definitions
  | removeTags paths => exact tidy_removeTags h paths

theorem tidy_answerAll (h : p.tags.Tidy) (calls : List TagCall) : (p.answerAll d calls).2.1.tags.Tidy := by
  induction calls generalizing p d with
  | nil => exact h
  | cons call rest ih => exact ih (tidy_answer h call [])

/-- To remove definitions, only the normal forms of the paths count. -/
theorem removeTags_normalize_congr {paths others : List String}
    (hsame : paths.map TagPath.normalize = others.map TagPath.normalize) : p.removeTags d paths = p.removeTags d others := by
  induction paths generalizing p d others with
  | nil => rw [List.map_eq_nil_iff.1 hsame.symm]
  | cons path rest ih =>
    rw [List.map_cons] at hsame
    obtain ⟨other, more, rfl, hother, hmore⟩ := List.map_eq_cons_iff.1 hsame.symm
    simp only [removeTags, hother, ih hmore.symm]

/-- After any calls of a provider in memory, whatever their base paths, texts and paths, a folder shows a name if and only if it is not empty, has no slash and there is a definition at the folder, a slash and the name; what it shows is in order and nothing twice. Paths with one normal form find the same definition, show the same names and remove the same. -/
theorem browse_answerAll {name : String} {elsewhere after : Disk} {calls : List TagCall}
    {results : List (Except ProviderError (List Quality))} (hrun : answerAll { name } elsewhere calls = (results, p, after)) :
    (∀ folder tag : String, tag ∈ p.tags.browse folder ↔
        tag ≠ "" ∧ '/' ∉ tag.toList ∧ (p.tags.config? (folder ++ "/" ++ tag)).isSome = true) ∧
      (∀ folder, (p.tags.browse folder).Pairwise (· ≤ ·) ∧ (p.tags.browse folder).Nodup) ∧
      (∀ path other, TagPath.normalize path = TagPath.normalize other →
        p.tags.config? path = p.tags.config? other ∧ p.tags.browse path = p.tags.browse other) ∧
      ∀ (d : Disk) (paths others : List String), paths.map TagPath.normalize = others.map TagPath.normalize →
        p.removeTags d paths = p.removeTags d others := by
  have htidy : p.tags.Tidy := by
    have hafter := tidy_answerAll (p := { name }) (d := elsewhere) Tags.tidy_empty calls
    rwa [hrun] at hafter
  refine ⟨fun folder tag => ?_, fun folder => ⟨Text.pairwise_sorted _, Tags.nodup_browse _ folder⟩,
    fun path other hsame => ⟨Tags.config?_normalize_congr hsame, Tags.browse_normalize_congr hsame⟩,
    fun d paths others hsame => removeTags_normalize_congr hsame⟩
  rw [htidy.mem_browse_iff, IsName, and_assoc]

/-- Calls with slashes all over: of two tags in the folder `a`, the one whose name is no text stays. -/
def slashed : List TagCall :=
  [.importTags "//a//" "[\x7b\"name\": \"T\", \"tagType\": 1\x7d, \x7b\"name\": 2, \"tagType\": 1\x7d]" .abort, .removeTags ["/a//T/"]]

def cleared : List (Except ProviderError (List Quality)) × TagProvider × Disk := answerAll { name := "default" } {} slashed

theorem browse_answerAll_slashed : answerAll { name := "default" } {} slashed = (cleared.1, cleared.2.1, cleared.2.2) ∧
    cleared.2.1.tags.browse "/a/" = ["2"] ∧ (cleared.2.1.tags.config? ("/a/" ++ "/" ++ "2")).isSome = true ∧
    (cleared.2.1.tags.config? ("/a/" ++ "/" ++ "T")).isSome = false ∧
    TagPath.normalize "a//2" = TagPath.normalize "/a/2/" ∧
    cleared.2.1.tags.config? "a//2" = cleared.2.1.tags.config? "/a/2/" ∧
    cleared.2.1.removeTags {} ["a//2"] = cleared.2.1.removeTags {} ["/a/2/"] := by
  have hrun : answerAll { name := "default" } {} slashed = (cleared.1, cleared.2.1, cleared.2.2) := by
    rw [Prod.mk.eta, cleared]
  have hshown : cleared.2.1.tags.browse "/a/" = ["2"] := by decide +kernel
  have hsame : TagPath.normalize "a//2" = TagPath.normalize "/a/2/" := by decide +kernel
  obtain ⟨hbrowse, -, hfound, hremoved⟩ := browse_answerAll hrun
  have htwo := (hbrowse "/a/" "2").1 (by rw [hshown]; simp)
  have hgone : (cleared.2.1.tags.config? ("/a/" ++ "/" ++ "T")).isSome ≠ true := by
    intro hstored
    have hmem := (hbrowse "/a/" "T").2 ⟨by decide, by decide, hstored⟩
    rw [hshown] at hmem
    exact absurd hmem (by simp)
  exact ⟨hrun, hshown, htwo.2.2, Bool.eq_false_iff.2 hgone, hsame, (hfound _ _ hsame).1,
    hremoved {} _ _ (by rw [List.map_singleton, List.map_singleton, hsame])⟩

end TagProvider

end TagTypes
