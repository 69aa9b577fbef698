import Mathlib.Tactic
import TagTypes.Proofs.Dict
import TagTypes.Proofs.Disk.Making

/-!
# Files below a path

Where a path leads, if it leads anywhere, is said by its parts alone: each of them leads down, or up. So the files at this place and below it are the files below the path, also while directories on the way are missing. A path is bare if there are none.
-/

namespace TagTypes

/-- The path to a directory below, by the names on the way down. -/
def FilePath.descend (p : FilePath) (dirs : List String) : FilePath := { p with parts := p.parts ++ dirs }

namespace Disk

variable {d d' : Disk} {p : FilePath} {place dirs : List String}

/-- The place that parts lead to from a place, if they lead anywhere. -/
def resolve (place : List String) : List String → List String
  | [] => place
  | part :: rest => resolve (if part = ".." then place.dropLast else place ++ [part]) rest

/-- The place that a path leads to, if it leads anywhere. -/
def placeOf (d : Disk) (p : FilePath) : List String := resolve (d.start p) p.parts

theorem eq_resolve_of_walk {target parts : List String} (hwalk : d.walk place parts = .ok target) :
    target = resolve place parts := by
  induction parts generalizing place with
  | nil =>
    cases hwalk
    rfl
  | cons part rest ih =>
    rw [resolve]
    rcases walk_cons_eq_ok_iff.1 hwalk with ⟨hup, hrest⟩ | ⟨hdown, -, -, hrest⟩
    · rw [if_pos hup, ih hrest]
    · rw [if_neg hdown, ih hrest]

theorem eq_placeOf_of_status (hstatus : d.status p = .ok (place, .directory)) : place = d.placeOf p :=
  eq_resolve_of_walk (walk_of_status hstatus).1

theorem resolve_of_plain {parts : List String} (hup : ".." ∉ parts) : resolve place parts = place ++ parts := by
  induction parts generalizing place with
  | nil => rw [resolve, List.append_nil]
  | cons part rest ih =>
    rw [List.mem_cons, not_or] at hup
    rw [resolve, if_neg (Ne.symm hup.1), ih hup.2, List.append_assoc, List.singleton_append]

theorem placeOf_congr (hworking : d'.workingDirectory = d.workingDirectory) (p : FilePath) : d'.placeOf p = d.placeOf p := by
  rw [placeOf, placeOf, start, start, hworking]

/-- There are no files at the place that the path leads to, nor below it: there is an empty directory, or nothing. -/
def Bare (d : Disk) (p : FilePath) : Prop := ∀ below content, d.node? (d.placeOf p ++ below) ≠ some (.file content)

theorem bare_empty (p : FilePath) : Bare {} p := by
  intro below content hfile
  rw [node?] at hfile
  split at hfile <;> cases hfile

/-! ### Directories below -/

theorem short_of_descend (hshort : (p.descend dirs).text.utf8ByteSize ≤ maxPathBytes) : p.text.utf8ByteSize ≤ maxPathBytes := by
  induction dirs using List.reverseRecOn with
  | nil => simpa [FilePath.descend] using hshort
  | append_singleton above last ih =>
    have hchild : p.descend (above ++ [last]) = (p.descend above).child last := by
      simp [FilePath.descend, FilePath.child]
    rw [hchild] at hshort
    exact ih (short_of_child hshort)

/-- A directory with another one below it is there. -/
theorem status_above {target : List String} (hup : ".." ∉ dirs) (hstatus : d.status (p.descend dirs) = .ok (target, .directory)) :
    ∃ place, d.status p = .ok (place, .directory) ∧ target = place ++ dirs := by
  obtain ⟨hwalk, hnull⟩ := walk_of_status hstatus
  obtain ⟨place, hfirst, hrest⟩ := walk_append_eq_ok hwalk
  have hnullFree : NullFree p := fun part hpart => hnull part (List.mem_append_left _ hpart)
  refine ⟨place, status_of_walk hfirst hnullFree (short_of_descend (length_of_status hstatus)), ?_⟩
  rw [eq_resolve_of_walk hrest, resolve_of_plain hup]

/-! ### Names that are too long -/

theorem long_of_walk {parts : List String} (hwalk : d.walk place parts = .error .nameTooLong) :
    ∃ part ∈ parts, maxNameBytes < part.utf8ByteSize := by
  induction parts generalizing place with
  | nil => cases hwalk
  | cons part rest ih =>
    have hrest : ∀ next, d.walk next rest = .error .nameTooLong → ∃ part' ∈ part :: rest, maxNameBytes < part'.utf8ByteSize :=
      fun next hnext => by
        obtain ⟨part', hpart, hlong⟩ := ih hnext
        exact ⟨part', List.mem_cons_of_mem _ hpart, hlong⟩
    rw [walk] at hwalk
    split at hwalk
    · exact hrest _ hwalk
    · split at hwalk
      · rename_i hlong
        exact ⟨part, List.mem_cons_self, hlong⟩
      · split at hwalk
        · cases hwalk
        · cases hwalk
        · exact hrest _ hwalk

theorem long_of_locate (hshort : p.text.utf8ByteSize ≤ maxPathBytes) (hlocate : d.locate p = .error .nameTooLong) :
    ∃ part ∈ p.parts, maxNameBytes < part.utf8ByteSize := by
  unfold locate at hlocate
  rw [if_neg (not_lt.2 hshort)] at hlocate
  split at hlocate
  · cases hlocate
  · split at hlocate
    · cases hlocate
    · cases hwalk : d.walk (d.start p) p.parts with
      | ok place =>
        rw [hwalk] at hlocate
        cases hlocate
      | error fault =>
        rw [hwalk] at hlocate
        cases hlocate
        exact long_of_walk hwalk
    · rename_i name hdown hlast
      cases hwalk : d.walk (d.start p) p.parts.dropLast with
      | error fault =>
        rw [hwalk] at hlocate
        cases hlocate
        obtain ⟨part, hpart, hlong⟩ := long_of_walk hwalk
        exact ⟨part, List.dropLast_subset _ hpart, hlong⟩
      | ok place =>
        rw [hwalk] at hlocate
        simp only [bind, Except.bind] at hlocate
        split at hlocate
        · rename_i hlong
          exact ⟨name, List.mem_of_getLast? hlast, hlong⟩
        · cases hlocate

theorem locate_of_status_nameTooLong (hstatus : d.status p = .error .nameTooLong) : d.locate p = .error .nameTooLong := by
  unfold status at hstatus
  cases hlocate : d.locate p with
  | error fault =>
    rw [hlocate] at hstatus
    cases hstatus
    rfl
  | ok found =>
    rw [hlocate] at hstatus
    cases found with
    | directory _ => cases hstatus
    | entry directory name =>
      simp only [bind, Except.bind] at hstatus
      split at hstatus <;> cases hstatus

/-- A path that is too long on a disk is too long as a whole, and so on every disk, or in one of its parts. -/
theorem long_of_status (hstatus : d.status p = .error .nameTooLong) :
    (∀ d' : Disk, d'.status p = .error .nameTooLong) ∨ ∃ part ∈ p.parts, maxNameBytes < part.utf8ByteSize := by
  have hlocate := locate_of_status_nameTooLong hstatus
  by_cases hshort : p.text.utf8ByteSize ≤ maxPathBytes
  · exact Or.inr (long_of_locate hshort hlocate)
  · left
    intro d'
    have hnull : (p.parts.any (·.toList.contains '\x00')) = false := by
      by_contra hnull
      unfold locate at hlocate
      rw [if_pos (by simpa using hnull)] at hlocate
      cases hlocate
    unfold status locate
    rw [hnull, if_neg Bool.false_ne_true, if_pos (not_le.1 hshort)]
    rfl

end Disk

end TagTypes
