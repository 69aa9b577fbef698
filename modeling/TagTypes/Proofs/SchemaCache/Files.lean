import Mathlib.Tactic
import TagTypes.Proofs.Disk.Directory
import TagTypes.Proofs.SchemaCache
import TagTypes.Proofs.Text.Sorted

/-!
# The files of a cache

If the cache directory is there and holds files only, then a cache takes every text that is a schema, under every key that has a file name and room for it, and it can remove whatever it has taken. Neither makes directories, so this stays so.
-/

namespace TagTypes

namespace Disk

variable {d : Disk} {p : FilePath}

/-- The path leads to a directory with nothing in it. -/
def isEmptyAt (d : Disk) (p : FilePath) : Bool :=
  match d.status p with
  | .ok (place, .directory) => (d.namesIn place).isEmpty
  | _ => false

theorem exists_of_isEmptyAt (h : d.isEmptyAt p = true) :
    ∃ place, d.status p = .ok (place, .directory) ∧ d.namesIn place = [] := by
  unfold isEmptyAt at h
  split at h
  · rename_i place hstatus
    exact ⟨place, hstatus, List.isEmpty_iff.1 h⟩
  · cases h

theorem mem_namesIn {place : List String} {name : String} :
    name ∈ d.namesIn place ↔ (d.node? (place ++ [name])).isSome = true := by
  unfold namesIn node?
  rw [Text.mem_sorted, List.mem_filterMap, if_neg (by simp), ← Dict.mem_keys_iff]
  constructor
  · intro hfound
    obtain ⟨key, hkey, hname⟩ := hfound
    split at hname
    · rename_i hplace
      obtain ⟨above, rfl⟩ := List.getLast?_eq_some_iff.1 hname
      rw [List.dropLast_concat] at hplace
      rw [← hplace]
      exact hkey
    · cases hname
  · intro hkey
    refine ⟨place ++ [name], hkey, ?_⟩
    rw [if_pos List.dropLast_concat, List.getLast?_concat]

theorem holdsFiles_of_isEmptyAt (h : d.isEmptyAt p = true) : ∃ place, d.HoldsFiles p place := by
  obtain ⟨place, hstatus, hnothing⟩ := exists_of_isEmptyAt h
  obtain ⟨hwalk, hnullFree⟩ := walk_of_status hstatus
  refine ⟨place, hwalk, hnullFree, fun name hnode => ?_⟩
  have hname : name ∈ d.namesIn place := by
    rw [mem_namesIn, hnode]
    rfl
  rw [hnothing] at hname
  cases hname

end Disk

namespace SchemaCache

open Disk (HoldsFiles IsFileName fits)

variable {c : SchemaCache} {directory : FilePath} {key text : String} {disk : Disk} {place : List String}

theorem loadAll_of_isEmptyAt (hdisk : disk.isEmptyAt directory = true) : loadAll directory disk = ∅ := by
  obtain ⟨place, hstatus, hnothing⟩ := Disk.exists_of_isEmptyAt hdisk
  have hnames : fileNames directory disk = [] := by
    unfold fileNames
    simp only [hstatus, hnothing, List.filter_nil]
  rw [loadAll, hnames]
  rfl

/-- A cache that can be prepared over an empty directory, as it is after that. -/
theorem exists_prepare_of_isEmptyAt (hready : (c.prepare disk).1.isOk = true ∧ (c.prepare disk).2.isEmptyAt directory = true) :
    ∃ saved after, c.prepare disk = (.ok saved, after) ∧ after.isEmptyAt directory = true := by
  rcases hprepare : c.prepare disk with ⟨e | saved, after⟩
  · rw [hprepare] at hready
    cases hready.1
  · rw [hprepare] at hready
    exact ⟨saved, after, rfl, hready.2⟩

theorem loadAll_of_not_directory (hnone : ∀ place, disk.status directory ≠ .ok (place, .directory)) :
    loadAll directory disk = ∅ := by
  have hnames : fileNames directory disk = [] := by
    unfold fileNames
    split
    · rename_i place hstatus
      exact absurd hstatus (hnone place)
    · rfl
  rw [loadAll, hnames]
  rfl

theorem isFileName_of_isValidKey (hkey : isValidKey key = true) : IsFileName (key ++ ".json") := by
  unfold isValidKey at hkey
  rw [Bool.and_eq_true, List.all_eq_true] at hkey
  constructor
  · intro hup
    have hlength := congrArg String.length hup
    rw [String.length_append] at hlength
    have hjson : ".json".length = 5 := rfl
    have hdots : "..".length = 2 := rfl
    omega
  · rw [String.toList_append, List.mem_append, not_or]
    constructor
    · intro hmem
      have hfree := hkey.2 _ hmem
      simp at hfree
    · decide

theorem ne_empty_of_isValidKey (hkey : isValidKey key = true) : key ≠ "" := by
  rintro rfl
  cases hkey

/-- The key has a file name and the directory has room for it. -/
def hasFile (directory : FilePath) (key : String) : Bool := isValidKey key && fits directory (key ++ ".json")

/-- The schema that a cache in the directory takes from a text, if it takes it. -/
def taken? (directory : FilePath) (key text : String) : Option Schema :=
  if hasFile directory key then (Schema.parse key text).toOption else none

theorem taken?_eq_some_iff {schema : Schema} :
    taken? directory key text = some schema ↔ hasFile directory key = true ∧ Schema.parse key text = .ok schema := by
  unfold taken?
  split
  · rename_i hfile
    rw [and_iff_right hfile]
    cases Schema.parse key text <;> simp [Except.toOption]
  · rename_i hfile
    simp [hfile]

theorem save_of_taken (hdisk : disk.HoldsFiles c.directory place) {schema : Schema}
    (htaken : taken? c.directory key text = some schema) :
    ∃ disk', c.save key text disk = (.ok (schema, { c with entries := c.entries.insert key ⟨schema, text⟩ }), disk') ∧
      disk'.HoldsFiles c.directory place := by
  obtain ⟨hfile, hparse⟩ := taken?_eq_some_iff.1 htaken
  rw [hasFile, Bool.and_eq_true] at hfile
  obtain ⟨disk', hwrite, hdisk'⟩ := hdisk.writeText_fits (isFileName_of_isValidKey hfile.1) hfile.2 text
  exact ⟨disk', save_of_writeText hfile.1 hparse hwrite, hdisk'⟩

theorem save_of_not_taken (hdisk : disk.HoldsFiles c.directory place) (htaken : taken? c.directory key text = none) :
    ∃ e, c.save key text disk = (.error e, disk) := by
  unfold save
  by_cases hkey : isValidKey key = true
  · rw [hkey]
    simp only [Bool.not_true, Bool.false_eq_true, if_false]
    cases hparse : Schema.parse key text with
    | error e => exact ⟨_, rfl⟩
    | ok schema =>
      have hfits : fits c.directory (key ++ ".json") = false := by
        by_contra hfits
        rw [Bool.not_eq_false] at hfits
        rw [taken?_eq_some_iff.2 ⟨by rw [hasFile, hkey, hfits]; rfl, hparse⟩] at htaken
        cases htaken
      simp only [fileFor, Disk.writeTextUnder_none, hdisk.writeText_of_not_fits (isFileName_of_isValidKey hkey) hfits]
      exact ⟨_, rfl⟩
  · rw [Bool.not_eq_true] at hkey
    rw [hkey]
    exact ⟨_, rfl⟩

theorem remove_of_hasFile (hdisk : disk.HoldsFiles c.directory place) (hfile : hasFile c.directory key = true) :
    ∃ disk', c.remove key disk = (.ok { c with entries := c.entries.erase key }, disk') ∧
      disk'.HoldsFiles c.directory place := by
  rw [hasFile, Bool.and_eq_true] at hfile
  obtain ⟨disk', hremove, hdisk'⟩ := hdisk.removeFileIfThere_fits (isFileName_of_isValidKey hfile.1) hfile.2
  exact ⟨disk', remove_of_removeFileIfThere hfile.1 hremove, hdisk'⟩

theorem remove_of_not_hasFile (hdisk : disk.HoldsFiles c.directory place) (hfile : hasFile c.directory key = false) :
    ∃ e, c.remove key disk = (.error e, disk) := by
  unfold remove
  by_cases hkey : isValidKey key = true
  · rw [hasFile, hkey, Bool.true_and] at hfile
    rw [hkey]
    simp only [Bool.not_true, Bool.false_eq_true, if_false, fileFor,
      hdisk.removeFileIfThere_of_not_fits (isFileName_of_isValidKey hkey) hfile]
    exact ⟨_, rfl⟩
  · rw [Bool.not_eq_true] at hkey
    rw [hkey]
    exact ⟨_, rfl⟩

end SchemaCache

end TagTypes
