import Mathlib.Tactic
import TagTypes.Proofs.Disk.Below

/-!
# Files that are spared

A disk is compared with an earlier one at the places where nothing may change: there the same files are found, with the same contents. To make directories changes no file, and to write or remove a file changes the one at the place that the path leads to.
-/

namespace TagTypes.Disk

variable {d d' d'' : Disk} {p : FilePath} {place : List String} {name : String} {allowed : List String → Prop}

/-- The content of the file at a place, if there is a file. -/
def content? (d : Disk) (place : List String) : Option ByteArray :=
  match d.node? place with
  | some (.file content) => some content
  | _ => none

theorem content?_eq_some_iff {content : ByteArray} : d.content? place = some content ↔ d.node? place = some (.file content) := by
  unfold content?
  rcases d.node? place with _ | (_ | found) <;> simp

theorem content?_congr (hfile : ∀ content, d'.node? place = some (.file content) ↔ d.node? place = some (.file content)) :
    d'.content? place = d.content? place := by
  ext content
  rw [content?_eq_some_iff, content?_eq_some_iff, hfile]

/-- Files are changed at allowed places only. -/
structure Spares (allowed : List String → Prop) (d d' : Disk) : Prop where
  workingDirectory : d'.workingDirectory = d.workingDirectory
  content : ∀ place, ¬allowed place → d'.content? place = d.content? place

namespace Spares

theorem refl (allowed : List String → Prop) (d : Disk) : Spares allowed d d := ⟨rfl, fun _ _ => rfl⟩

theorem trans (h : Spares allowed d d') (h' : Spares allowed d' d'') : Spares allowed d d'' :=
  ⟨h'.workingDirectory.trans h.workingDirectory, fun place hplace => (h'.content place hplace).trans (h.content place hplace)⟩

theorem placeOf (h : Spares allowed d d') (p : FilePath) : d'.placeOf p = d.placeOf p := placeOf_congr h.workingDirectory p

end Spares

theorem Grown.spares (h : Grown d d') : Spares allowed d d' :=
  ⟨h.workingDirectory, fun _ _ => content?_congr fun _ => h.node?_file_iff⟩

theorem Changed.place_eq {found : Option ByteArray} (h : Changed p place name found d d') : place = d.placeOf p :=
  eq_resolve_of_walk h.before

theorem Changed.content? {found : Option ByteArray} (h : Changed p place name found d d') (other : List String) :
    d'.content? other = if place ++ [name] = other then found else d.content? other := by
  ext content
  rw [content?_eq_some_iff, h.node]
  split
  · cases found <;> simp
  · rw [content?_eq_some_iff]

theorem Changed.spares {found : Option ByteArray} (h : Changed p place name found d d')
    (hallowed : allowed (d.placeOf p ++ [name])) : Spares allowed d d' := by
  rw [← h.place_eq] at hallowed
  refine ⟨h.workingDirectory, fun other hother => content?_congr fun content => ?_⟩
  rw [h.node, if_neg]
  rintro rfl
  exact hother hallowed

/-- Where names lead down from a path. -/
theorem placeOf_descend {dirs : List String} (hup : ".." ∉ dirs) : d.placeOf (p.descend dirs) = d.placeOf p ++ dirs := by
  have hresolve : ∀ parts place, resolve place (parts ++ dirs) = resolve place parts ++ dirs := by
    intro parts
    induction parts with
    | nil => exact fun place => resolve_of_plain hup
    | cons part rest ih => exact fun place => ih _
  exact hresolve p.parts (d.start p)

end TagTypes.Disk
