import Mathlib.Tactic
import TagTypes.Proofs.Disk.Below
import TagTypes.Proofs.Disk.FileName
import TagTypes.Proofs.Number.Numeral
import TagTypes.Proofs.TagStore.Path
import TagTypes.TagStore.Provider

/-!
# Files of definitions

A definition has its file in the directory that the folders of its path lead to. If none of these folders is called like a way to stay or to go up, then the path gives the file and the file gives the path, whatever points the name has in it. Each definition that is stored under a base path without such folders has a file of this kind.
-/

namespace TagTypes

namespace TagPath

/-! ### Joined parts -/

variable {dirs others parts : List String} {path name other base : String}

theorem intercalate_concat (dirs : List String) (name : String) :
    String.intercalate "/" (dirs ++ [name]) = if dirs = [] then name else String.intercalate "/" dirs ++ "/" ++ name := by
  induction dirs with
  | nil => rfl
  | cons dir rest ih =>
    rw [if_neg (List.cons_ne_nil _ _)]
    cases rest with
    | nil => rfl
    | cons next more =>
      rw [if_neg (List.cons_ne_nil _ _)] at ih
      rw [List.cons_append, List.cons_append, String.intercalate_cons_cons, ← List.cons_append, ih, String.intercalate_cons_cons]
      simp only [String.append_assoc]

theorem normalize_eq_empty_iff : normalize path = "" ↔ segments path = [] := by
  constructor
  · intro heq
    rw [← segments_normalize, heq, segments_empty]
  · intro heq
    rw [normalize, heq, String.intercalate_nil]

theorem inFolder_normalize (base name : String) :
    inFolder (normalize base) name = String.intercalate "/" (segments base ++ [name]) := by
  rw [inFolder, intercalate_concat]
  by_cases hsegments : segments base = []
  · rw [if_pos hsegments, if_pos (normalize_eq_empty_iff.2 hsegments)]
  · rw [if_neg hsegments, if_neg fun heq => hsegments (normalize_eq_empty_iff.1 heq), normalize]

theorem intercalate_append_ending (dirs : List String) (name ending : String) :
    String.intercalate "/" (dirs ++ [name]) ++ ending = String.intercalate "/" (dirs ++ [name ++ ending]) := by
  rw [intercalate_concat, intercalate_concat]
  split
  · rfl
  · simp only [String.append_assoc]

theorem IsName.append (hname : IsName name) {ending : String} (hending : '/' ∉ ending.toList) : IsName (name ++ ending) := by
  constructor
  · intro hempty
    have hlist := congrArg String.toList hempty
    rw [String.toList_append] at hlist
    exact hname.1 (String.toList_eq_nil_iff.1 (List.append_eq_nil_iff.1 hlist).1)
  · rw [String.toList_append, List.mem_append, not_or]
    exact ⟨hname.2, hending⟩

/-- Names joined by slashes do not begin with a slash. -/
theorem toList_intercalate_ne_cons (hparts : ∀ part ∈ parts, IsName part) (rest : List Char) :
    (String.intercalate "/" parts).toList ≠ '/' :: rest := by
  cases parts with
  | nil => simp
  | cons part more =>
    obtain ⟨hne, hslash⟩ := hparts part List.mem_cons_self
    obtain ⟨c, cs, hcs⟩ := List.exists_cons_of_ne_nil fun hnil => hne (String.toList_eq_nil_iff.1 hnil)
    have hc : c ≠ '/' := by
      rintro rfl
      exact hslash (by simp [hcs])
    have hfirst : ∃ tail, (String.intercalate "/" (part :: more)).toList = part.toList ++ tail := by
      cases more with
      | nil => exact ⟨[], by simp⟩
      | cons next more => exact ⟨_, by rw [String.intercalate_cons_cons, String.append_assoc, String.toList_append]⟩
    obtain ⟨tail, htail⟩ := hfirst
    rw [htail, hcs]
    intro heq
    exact hc (List.cons.inj heq).1

theorem parse_intercalate (hparts : ∀ part ∈ parts, IsName part ∧ part ≠ ".") :
    FilePath.parse (String.intercalate "/" parts) = ⟨.here, parts⟩ := by
  have hnames : ∀ part ∈ parts, IsName part := fun part hpart => (hparts part hpart).1
  have hanchor : FilePath.anchorOf (String.intercalate "/" parts) = .here := by
    have hslash := toList_intercalate_ne_cons hnames
    unfold FilePath.anchorOf
    split
    · rename_i heq
      exact absurd heq (hslash _)
    · rename_i heq
      exact absurd heq (hslash _)
    · rename_i heq
      exact absurd heq (hslash _)
    · rfl
  have hsegments : FilePath.partsOf (String.intercalate "/" parts) =
      (segments (String.intercalate "/" parts)).filter (· ≠ ".") := by
    rw [FilePath.partsOf, segments, List.filter_filter]
    apply List.filter_congr
    intro part hpart
    rw [Bool.and_comm]
  have hkept : parts.filter (· ≠ ".") = parts :=
    List.filter_eq_self.2 fun part hpart => by simpa using (hparts part hpart).2
  rw [FilePath.parse, hanchor, hsegments, segments_intercalate hnames, hkept]

/-! ### A path and its file -/

/-- The definition at `path` has its file, `name` with the ending, in the directory that `dirs` lead down to. -/
structure Filed (path : String) (dirs : List String) (name : String) : Prop where
  path_eq : path = String.intercalate "/" (dirs ++ [name])
  isName : ∀ part ∈ dirs ++ [name], IsName part
  plain : ∀ dir ∈ dirs, dir ≠ "." ∧ dir ≠ ".."

namespace Filed

variable (h : Filed path dirs name)
include h

theorem segments_eq : segments path = dirs ++ [name] := by
  rw [h.path_eq, segments_intercalate h.isName]

theorem notMem_up : ".." ∉ dirs := fun hup => (h.plain ".." hup).2 rfl

/-- A path has one file. -/
theorem unique (hother : Filed path others other) : dirs = others ∧ name = other := by
  obtain ⟨hdirs, hname⟩ := List.append_inj' (h.segments_eq.symm.trans hother.segments_eq) rfl
  exact ⟨hdirs, List.singleton_inj.1 hname⟩

theorem fileFor_eq (folder : FilePath) :
    TagProvider.fileFor folder path = (folder.descend dirs).child (name ++ ".json") := by
  have hparts : ∀ part ∈ dirs ++ [name ++ ".json"], IsName part ∧ part ≠ "." := by
    intro part hpart
    rcases List.mem_append.1 hpart with hpart | hpart
    · exact ⟨h.isName part (List.mem_append_left _ hpart), (h.plain part hpart).1⟩
    · rw [List.mem_singleton.1 hpart]
      refine ⟨(h.isName name (by simp)).append (by decide), fun heq => ?_⟩
      have hlength := congrArg (fun text : String => text.toList.length) heq
      simp at hlength
  rw [TagProvider.fileFor, h.path_eq, intercalate_append_ending, parse_intercalate hparts]
  simp [FilePath.join, FilePath.isAbsolute, FilePath.descend, FilePath.child]

/-- A file gives the path back. -/
theorem tagPathOf_eq : TagProvider.tagPathOf (dirs ++ [name ++ ".json"]) = path := by
  rw [TagProvider.tagPathOf, List.dropLast_concat, List.getLast?_concat, Option.getD_some,
    FilePath.stemOf_fileName (h.isName name (by simp)).1, ← h.path_eq]

/-- Two paths are the same if and only if their files are. -/
theorem path_eq_iff {otherPath : String} (hother : Filed otherPath others other) :
    path = otherPath ↔ dirs ++ [name ++ ".json"] = others ++ [other ++ ".json"] := by
  constructor
  · rintro rfl
    obtain ⟨rfl, rfl⟩ := h.unique hother
    rfl
  · intro heq
    rw [← h.tagPathOf_eq, heq, hother.tagPathOf_eq]

end Filed

theorem filed_inFolder (hbase : ∀ dir ∈ segments base, dir ≠ "." ∧ dir ≠ "..") (hname : IsName name) :
    Filed (inFolder (normalize base) name) (segments base) name where
  path_eq := inFolder_normalize base name
  isName part hpart := by
    rcases List.mem_append.1 hpart with hpart | hpart
    · exact isName_of_mem_segments hpart
    · rwa [List.mem_singleton.1 hpart]
  plain := hbase

end TagPath

/-! ### Names of definitions -/

namespace Json

theorem literalChars_real_ne_nil (x : Binary64) : Binary64.print Binary64.plainStyle x ≠ [] := by
  cases x with
  | nan => decide
  | infinite negative => cases negative <;> decide
  | finite negative mantissa exponent =>
    obtain ⟨n, hwell, -, htext, -⟩ := Binary64.exists_numeral_print Binary64.plainStyle negative mantissa exponent
    obtain ⟨c, cs, hlead, -⟩ := Binary64.exists_lead_signed negative hwell
    rw [htext, hlead]
    exact List.cons_ne_nil c cs

/-- A value that stands for something is shown by some text. -/
theorem display_ne_empty {v : Json} (hv : v.isFilled = true) : v.display ≠ "" := by
  have hliteral : literalChars v ≠ [] → v.literal ≠ "" := fun hne heq => hne (by
    rw [← String.toList_ofList (l := literalChars v)]
    exact String.toList_eq_nil_iff.2 heq)
  cases v with
  | null => cases hv
  | bool b => cases b <;> decide
  | int n =>
    apply hliteral
    rw [literalChars]
    cases n with
    | ofNat n => simp [Text.intText, Text.natText, Text.natDigits_ne_nil]
    | negSucc n => simp [Text.intText]
  | real x => exact hliteral (literalChars_real_ne_nil x)
  | str s => simpa [display, isFilled] using hv
  | arr items => exact hliteral (by simp [literalChars])
  | obj fields => exact hliteral (by simp [literalChars])

end Json

namespace Tags

open TagPath

variable {tags : Tags} {policy : CollisionPolicy} {folder path : String} {definition : Json}

theorem isName_of_admission (hadmission : tags.admission policy folder definition = .store path) :
    ∃ name, IsName name ∧ path = inFolder folder name := by
  unfold admission at hadmission
  cases himport : importName? definition with
  | none =>
    rw [himport] at hadmission
    cases hadmission
  | some name =>
    have hfilled : name ≠ "" := by
      unfold importName? at himport
      split at himport
      · split at himport
        · rename_i filled
          cases himport
          rw [Bool.and_eq_true] at filled
          exact Json.display_ne_empty filled.1
        · cases himport
      · cases himport
    rw [himport] at hadmission
    simp only at hadmission
    split at hadmission
    · cases hadmission
    · rename_i hslash
      refine ⟨name, ⟨hfilled, by simpa using hslash⟩, ?_⟩
      split at hadmission
      · cases policy <;> cases hadmission
        rfl
      · cases hadmission
        rfl

end Tags

end TagTypes
