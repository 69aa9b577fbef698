import Mathlib.Tactic
import TagTypes.Proofs.Disk.Writing

/-!
# Making directories

To make directories, whether that goes well or stops on the way, adds directories to the disk and nothing else: it only grows. On a grown disk each path that led to a directory leads there still, and no place has other files than before. Directories that could not be made are not there afterwards.
-/

namespace TagTypes.Disk

variable {d d' d'' : Disk} {p : FilePath} {place : List String}

/-- The second disk has what the first one has and perhaps more directories. -/
structure Grown (d d' : Disk) : Prop where
  workingDirectory : d'.workingDirectory = d.workingDirectory
  kept : ∀ place node, d.node? place = some node → d'.node? place = some node
  made : ∀ place content, d'.node? place = some (.file content) → d.node? place = some (.file content)

namespace Grown

theorem refl (d : Disk) : Grown d d := ⟨rfl, fun _ _ h => h, fun _ _ h => h⟩

theorem trans (h : Grown d d') (h' : Grown d' d'') : Grown d d'' where
  workingDirectory := h'.workingDirectory.trans h.workingDirectory
  kept place node hnode := h'.kept place node (h.kept place node hnode)
  made place content hfile := h.made place content (h'.made place content hfile)

theorem node?_file_iff (h : Grown d d') {content : ByteArray} :
    d'.node? place = some (.file content) ↔ d.node? place = some (.file content) :=
  ⟨h.made place content, h.kept place _⟩

end Grown

/-- The disks have the same files, at the same places and with the same contents. -/
def SameFiles (d d' : Disk) : Prop :=
  ∀ place content, d'.node? place = some (.file content) ↔ d.node? place = some (.file content)

theorem Grown.sameFiles (h : Grown d d') : SameFiles d d' := fun _ _ => h.node?_file_iff

theorem Grown.status (h : Grown d d') (hstatus : d.status p = .ok (place, .directory)) : d'.status p = .ok (place, .directory) :=
  status_mono h.workingDirectory (fun place => h.kept place .directory) hstatus

/-! ### One directory -/

theorem grown_set_directory {name : String} (hnone : d.node? (place ++ [name]) = none) :
    Grown d (d.set (place ++ [name]) .directory) where
  workingDirectory := rfl
  kept other node hnode := by
    rw [node?_set (by simp), if_neg, hnode]
    rintro rfl
    rw [hnone] at hnode
    cases hnode
  made other content hfile := by
    rw [node?_set (by simp)] at hfile
    split at hfile
    · cases hfile
    · exact hfile

/-- What came of an attempt to make a directory: the disk has grown, and if it went well, the path leads to a directory. -/
structure Makes (p : FilePath) (d : Disk) (outcome : Except DiskFault Unit × Disk) : Prop where
  grown : Grown d outcome.2
  status : outcome.1 = .ok () → ∃ place, outcome.2.status p = .ok (place, .directory)

theorem makes_error (p : FilePath) (d : Disk) (fault : DiskFault) : Makes p d (.error fault, d) :=
  ⟨.refl d, fun h => by cases h⟩

theorem makes_makeDirectory (p : FilePath) (d : Disk) : Makes p d (makeDirectory p d) := by
  unfold makeDirectory
  rw [bind_apply, ask_apply]
  cases hlocate : d.locate p with
  | error fault => exact makes_error p d fault
  | ok found =>
    cases found with
    | directory place => exact makes_error p d .alreadyThere
    | entry place name =>
      simp only
      rw [bind_apply, get_apply]
      cases hnode : d.node? (place ++ [name]) with
      | some node =>
        simp only [hnode]
        exact makes_error p d .alreadyThere
      | none =>
        simp only [hnode]
        have hgrown := grown_set_directory hnode
        obtain ⟨hnull, hup, hshort, above, habove, hwalk⟩ := locate_eq_ok hlocate
        refine ⟨hgrown, fun _ => ⟨place ++ [name], status_of_walk ?_ hnull (length_of_locate hlocate)⟩⟩
        have hthere : (d.set (place ++ [name]) .directory).node? (place ++ [name]) = some .directory := by
          rw [node?_set (by simp), if_pos rfl]
        rw [habove]
        exact walk_trans (walk_mono (fun other => hgrown.kept other .directory) hwalk)
          (walk_cons_eq_ok_iff.2 (Or.inr ⟨hup, hshort, hthere, rfl⟩))

theorem makes_ensureDirectory (p : FilePath) (d : Disk) : Makes p d (ensureDirectory p d) := by
  have hmake := makes_makeDirectory p d
  unfold ensureDirectory
  rw [tryCatch_apply]
  rcases houtcome : makeDirectory p d with ⟨outcome, d'⟩
  rw [houtcome] at hmake
  cases outcome with
  | ok u => exact hmake
  | error fault =>
    simp only
    rw [bind_apply, get_apply]
    simp only
    split
    · exact ⟨hmake.grown, fun h => by cases h⟩
    · rename_i hcaught
      refine ⟨hmake.grown, fun _ => ?_⟩
      have hthere : d'.isDirectoryAt p = true := by
        simp only [Bool.or_eq_true, not_or, Bool.not_eq_true', Bool.not_eq_false] at hcaught
        exact hcaught.2
      unfold isDirectoryAt at hthere
      split at hthere
      · rename_i place hstatus
        exact ⟨place, hstatus⟩
      · cases hthere

/-! ### A directory and those above it -/

theorem status_anchor (anchor : Anchor) (d : Disk) : ∃ place, d.status ⟨anchor, []⟩ = .ok (place, .directory) := by
  refine ⟨d.start ⟨anchor, []⟩, status_of_walk rfl ?_ ?_⟩
  · intro part hpart
    cases hpart
  · cases anchor <;> decide

theorem makes_ensureDirectoriesTo (anchor : Anchor) (names : List String) (d : Disk) :
    Makes ⟨anchor, names.reverse⟩ d (ensureDirectoriesTo anchor names d) := by
  induction names generalizing d with
  | nil => exact ⟨.refl d, fun _ => status_anchor anchor d⟩
  | cons name above ih =>
    have hfirst := makes_ensureDirectory ⟨anchor, (name :: above).reverse⟩ d
    rw [ensureDirectoriesTo, tryCatch_apply]
    rcases houtcome : ensureDirectory ⟨anchor, (name :: above).reverse⟩ d with ⟨outcome, d'⟩
    rw [houtcome] at hfirst
    cases outcome with
    | ok u => exact hfirst
    | error fault =>
      simp only
      split
      · rw [bind_apply]
        have habove := ih d'
        rcases hrest : ensureDirectoriesTo anchor above d' with ⟨outcome', d''⟩
        rw [hrest] at habove
        have hgrown := hfirst.grown.trans habove.grown
        cases outcome' with
        | error fault => exact ⟨hgrown, fun h => by cases h⟩
        | ok u =>
          have hlast := makes_ensureDirectory ⟨anchor, (name :: above).reverse⟩ d''
          exact ⟨hgrown.trans hlast.grown, hlast.status⟩
      · exact ⟨hfirst.grown, fun h => by cases h⟩

/-- To make a directory and those above it lets the disk grow, and if it goes well, the directory is there. -/
theorem makes_ensureDirectories (p : FilePath) (d : Disk) : Makes p d (ensureDirectories p d) := by
  simpa [ensureDirectories] using makes_ensureDirectoriesTo p.anchor p.parts.reverse d

/-- Nothing is made if the directory is there. -/
theorem ensureDirectories_of_status (hstatus : d.status p = .ok (place, .directory)) : ensureDirectories p d = (.ok (), d) := by
  obtain ⟨anchor, parts⟩ := p
  unfold ensureDirectories
  cases hparts : parts.reverse with
  | nil => rfl
  | cons name above =>
    have hpath : (name :: above).reverse = parts := by rw [← hparts, List.reverse_reverse]
    have hmake : makeDirectory ⟨anchor, parts⟩ d = (.error .alreadyThere, d) := by
      unfold makeDirectory
      rw [bind_apply, ask_apply]
      unfold status at hstatus
      cases hlocate : d.locate ⟨anchor, parts⟩ with
      | error fault =>
        rw [hlocate] at hstatus
        cases hstatus
      | ok found =>
        rw [hlocate] at hstatus
        cases found with
        | directory _ => rfl
        | entry directory last =>
          simp only [bind, Except.bind] at hstatus
          simp only
          rw [bind_apply, get_apply]
          split at hstatus
          · rename_i node hnode
            simp only [hnode]
            rfl
          · cases hstatus
    have hensure : ensureDirectory ⟨anchor, parts⟩ d = (.ok (), d) := by
      have hthere : d.isDirectoryAt ⟨anchor, parts⟩ = true := by
        unfold isDirectoryAt
        rw [hstatus]
      unfold ensureDirectory
      rw [tryCatch_apply, hmake]
      simp only
      rw [bind_apply, get_apply]
      simp only [hthere]
      rfl
    rw [ensureDirectoriesTo]
    simp only [hpath]
    rw [tryCatch_apply, hensure]

/-! ### Directories that cannot be made -/

theorem makeDirectory_error {fault : DiskFault} (hmake : makeDirectory p d = (.error fault, d')) :
    d' = d ∧ (d.locate p = .error fault ∨ fault = .alreadyThere) := by
  unfold makeDirectory at hmake
  rw [bind_apply, ask_apply] at hmake
  cases hlocate : d.locate p with
  | error reason =>
    rw [hlocate] at hmake
    cases hmake
    exact ⟨rfl, Or.inl rfl⟩
  | ok found =>
    rw [hlocate] at hmake
    cases found with
    | directory _ =>
      cases hmake
      exact ⟨rfl, Or.inr rfl⟩
    | entry directory name =>
      simp only at hmake
      rw [bind_apply, get_apply] at hmake
      cases hnode : d.node? (directory ++ [name]) with
      | some node =>
        simp only [hnode] at hmake
        cases hmake
        exact ⟨rfl, Or.inr rfl⟩
      | none =>
        simp only [hnode] at hmake
        cases hmake

theorem status_of_locate_error {fault : DiskFault} (hlocate : d.locate p = .error fault) : d.status p = .error fault := by
  unfold status
  rw [hlocate]
  rfl

/-- A directory that could not be made is not there. -/
theorem ensureDirectory_error {fault : DiskFault} (hensure : ensureDirectory p d = (.error fault, d')) :
    d' = d ∧ ∀ place, d.status p ≠ .ok (place, .directory) := by
  unfold ensureDirectory at hensure
  rw [tryCatch_apply] at hensure
  rcases hmake : makeDirectory p d with ⟨reason | _, d₁⟩
  · rw [hmake] at hensure
    obtain ⟨rfl, hreason⟩ := makeDirectory_error hmake
    simp only at hensure
    rw [bind_apply, get_apply] at hensure
    simp only at hensure
    split at hensure
    · rename_i hthrown
      cases hensure
      refine ⟨rfl, fun place hstatus => ?_⟩
      rcases hreason with hlocate | rfl
      · rw [status_of_locate_error hlocate] at hstatus
        cases hstatus
      · simp [isDirectoryAt, hstatus] at hthrown
    · cases hensure
  · rw [hmake] at hensure
    cases hensure

/-- A directory below which another one is there is there itself. -/
theorem status_of_child {name : String} (hstatus : d.status (p.child name) = .ok (place, .directory)) :
    ∃ above, d.status p = .ok (above, .directory) := by
  obtain ⟨hwalk, hnull⟩ := walk_of_status hstatus
  obtain ⟨above, hfirst, -⟩ := walk_append_eq_ok hwalk
  have hnullFree : NullFree p := fun part hpart => hnull part (List.mem_append_left _ hpart)
  exact ⟨above, status_of_walk hfirst hnullFree (short_of_child (length_of_status hstatus))⟩

theorem ensureDirectoriesTo_error {anchor : Anchor} {fault : DiskFault} (names : List String) :
    ∀ {d : Disk}, ensureDirectoriesTo anchor names d = (.error fault, d') →
      ∀ place, d'.status ⟨anchor, names.reverse⟩ ≠ .ok (place, .directory) := by
  induction names with
  | nil =>
    intro d hensure
    cases hensure
  | cons name above ih =>
    intro d hensure place hstatus
    rw [ensureDirectoriesTo, tryCatch_apply] at hensure
    rcases hfirst : ensureDirectory ⟨anchor, (name :: above).reverse⟩ d with ⟨reason | _, d₁⟩
    · rw [hfirst] at hensure
      obtain ⟨rfl, hnone⟩ := ensureDirectory_error hfirst
      simp only at hensure
      split at hensure
      · rw [bind_apply] at hensure
        rcases habove : ensureDirectoriesTo anchor above d₁ with ⟨reason' | _, d₂⟩
        · rw [habove] at hensure
          cases hensure
          have hchild : (⟨anchor, (name :: above).reverse⟩ : FilePath) = FilePath.child ⟨anchor, above.reverse⟩ name := by
            simp [FilePath.child]
          rw [hchild] at hstatus
          obtain ⟨target, hthere⟩ := status_of_child hstatus
          exact ih habove target hthere
        · rw [habove] at hensure
          obtain ⟨rfl, hlast⟩ := ensureDirectory_error hensure
          exact hlast place hstatus
      · cases hensure
        exact hnone place hstatus
    · rw [hfirst] at hensure
      cases hensure

/-- If a directory could not be made with those above it, then it is not there afterwards. -/
theorem ensureDirectories_error {fault : DiskFault} (hensure : ensureDirectories p d = (.error fault, d')) (place : List String) :
    d'.status p ≠ .ok (place, .directory) := by
  obtain ⟨anchor, parts⟩ := p
  simpa using ensureDirectoriesTo_error _ hensure place

end TagTypes.Disk
