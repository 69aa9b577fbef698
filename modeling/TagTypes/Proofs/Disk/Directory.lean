import Mathlib.Tactic
import TagTypes.Disk.TextFile

/-!
# Files in one directory

A path leads through directories, so it leads to the same place on every disk that has these directories. To write and to remove a file leaves the directories as they are. Whether that goes well, for a file in a directory that is there and has no directories in it, depends only on the lengths of the file's name and of its path.
-/

namespace TagTypes.Disk

/-! ### Actions one after the other -/

section Actions

variable {α β : Type}

theorem get_apply (d : Disk) : (get : DiskAction Disk) d = (.ok d, d) := rfl

theorem bind_apply (x : DiskAction α) (f : α → DiskAction β) (d : Disk) :
    (x >>= f) d = match x d with | (.ok a, d') => f a d' | (.error fault, d') => (.error fault, d') := by
  change (match x d with | (a, d') => ExceptT.bindCont f a d') = _
  rcases x d with ⟨a | fault, d'⟩ <;> rfl

theorem tryCatch_apply (x : DiskAction α) (handler : DiskFault → DiskAction α) (d : Disk) :
    tryCatch x handler d = match x d with | (.ok a, d') => (.ok a, d') | (.error fault, d') => handler fault d' := by
  have htry : tryCatch x handler = ExceptT.tryCatch x handler := rfl
  rw [htry, ExceptT.tryCatch]
  simp only [ExceptT.mk, bind, StateT.bind]
  rcases x d with ⟨a | fault, d'⟩ <;> rfl

theorem ask_apply (f : Disk → Except DiskFault α) (d : Disk) :
    ask f d = match f d with | .ok a => (.ok a, d) | .error fault => (.error fault, d) := by
  unfold ask
  rw [bind_apply, get_apply]
  simp only
  cases f d <;> rfl

end Actions

/-! ### Places -/

section Places

variable {d : Disk} {place other : List String}

theorem node?_set (hplace : place ≠ []) (node : DiskNode) :
    (d.set place node).node? other = if place = other then some node else d.node? other := by
  unfold node? set
  rw [Dict.get?_insert]
  cases other with
  | nil => simp [hplace]
  | cons part rest => rfl

theorem node?_remove (hplace : place ≠ []) :
    (d.remove place).node? other = if place = other then none else d.node? other := by
  unfold node? remove
  rw [Dict.get?_erase]
  cases other with
  | nil => simp [hplace]
  | cons part rest => rfl

end Places

/-! ### Ways -/

variable {d d' : Disk} {p : FilePath} {place target : List String} {name : String}

/-- A part of a way leads up, or down to a directory that is there. -/
theorem walk_cons_eq_ok_iff {part : String} {rest : List String} : d.walk place (part :: rest) = .ok target ↔
    part = ".." ∧ d.walk place.dropLast rest = .ok target ∨
    part ≠ ".." ∧ part.utf8ByteSize ≤ maxNameBytes ∧ d.node? (place ++ [part]) = some .directory ∧
      d.walk (place ++ [part]) rest = .ok target := by
  rw [walk]
  by_cases hup : part = ".."
  · simp [hup]
  · by_cases hlong : maxNameBytes < part.utf8ByteSize
    · simp [hup, hlong]
    · rcases hnode : d.node? (place ++ [part]) with _ | (_ | content)
      · simp [hup, hlong]
      · simp [hup, hlong, not_lt.1 hlong]
      · simp [hup, hlong]

theorem walk_mono (hdirectories : ∀ place, d.node? place = some .directory → d'.node? place = some .directory)
    {parts : List String} (hwalk : d.walk place parts = .ok target) : d'.walk place parts = .ok target := by
  induction parts generalizing place with
  | nil => exact hwalk
  | cons part rest ih =>
    rw [walk_cons_eq_ok_iff] at hwalk ⊢
    rcases hwalk with ⟨hup, hrest⟩ | ⟨hdown, hshort, hnode, hrest⟩
    · exact Or.inl ⟨hup, ih hrest⟩
    · exact Or.inr ⟨hdown, hshort, hdirectories _ hnode, ih hrest⟩

theorem walk_trans {between : List String} {parts more : List String} (hwalk : d.walk place parts = .ok between)
    (hmore : d.walk between more = .ok target) : d.walk place (parts ++ more) = .ok target := by
  induction parts generalizing place with
  | nil =>
    cases hwalk
    exact hmore
  | cons part rest ih =>
    rw [List.cons_append]
    rw [walk_cons_eq_ok_iff] at hwalk ⊢
    rcases hwalk with ⟨hup, hrest⟩ | ⟨hdown, hshort, hnode, hrest⟩
    · exact Or.inl ⟨hup, ih hrest⟩
    · exact Or.inr ⟨hdown, hshort, hnode, ih hrest⟩

/-- No part of the path has a null character in it. -/
def NullFree (p : FilePath) : Prop := ∀ part ∈ p.parts, '\x00' ∉ part.toList

theorem any_contains_eq_false_iff : (p.parts.any (·.toList.contains '\x00')) = false ↔ NullFree p := by
  simp [NullFree]

theorem NullFree.child (h : NullFree p) (hname : '\x00' ∉ name.toList) : NullFree (p.child name) := by
  intro part hpart
  rcases List.mem_append.1 hpart with hpart | hpart
  · exact h part hpart
  · rw [List.mem_singleton.1 hpart]
    exact hname

/-- What the parts of a located path say: all of them lead to a directory, or all but the last, which is a name. -/
theorem locate_eq_ok {found : Target} (hlocate : d.locate p = .ok found) : NullFree p ∧
    match found with
    | .directory place => d.walk (d.start p) p.parts = .ok place
    | .entry directory name => name ≠ ".." ∧ name.utf8ByteSize ≤ maxNameBytes ∧
        ∃ above, p.parts = above ++ [name] ∧ d.walk (d.start p) above = .ok directory := by
  unfold locate at hlocate
  split at hlocate
  · cases hlocate
  · rename_i hnull
    rw [Bool.not_eq_true, any_contains_eq_false_iff] at hnull
    refine ⟨hnull, ?_⟩
    split at hlocate
    · cases hlocate
    · split at hlocate
      · rename_i hlast
        cases hlocate
        rw [List.getLast?_eq_none_iff.1 hlast]
        rfl
      · cases hwalk : d.walk (d.start p) p.parts with
        | error fault =>
          rw [hwalk] at hlocate
          cases hlocate
        | ok place =>
          rw [hwalk] at hlocate
          cases hlocate
          rfl
      · rename_i name hdown hlast
        obtain ⟨above, habove⟩ := List.getLast?_eq_some_iff.1 hlast
        rw [habove, List.dropLast_concat] at hlocate
        cases hwalk : d.walk (d.start p) above with
        | error fault =>
          rw [hwalk] at hlocate
          cases hlocate
        | ok directory =>
          rw [hwalk] at hlocate
          by_cases hlong : maxNameBytes < name.utf8ByteSize
          · simp only [bind, Except.bind, if_pos hlong] at hlocate
            cases hlocate
          · simp only [bind, Except.bind, if_neg hlong, pure, Except.pure] at hlocate
            cases hlocate
            exact ⟨by simpa using hdown, not_lt.1 hlong, above, habove, hwalk⟩

/-- A directory that is there is found on the way through all parts of its path. -/
theorem walk_of_status (hstatus : d.status p = .ok (place, .directory)) :
    d.walk (d.start p) p.parts = .ok place ∧ NullFree p := by
  unfold status at hstatus
  cases hlocate : d.locate p with
  | error fault =>
    rw [hlocate] at hstatus
    cases hstatus
  | ok found =>
    obtain ⟨hnull, hfound⟩ := locate_eq_ok hlocate
    rw [hlocate] at hstatus
    refine ⟨?_, hnull⟩
    cases found with
    | directory _ =>
      cases hstatus
      exact hfound
    | entry directory name =>
      obtain ⟨hdown, hshort, above, habove, hwalk⟩ := hfound
      simp only [bind, Except.bind] at hstatus
      split at hstatus
      · rename_i node hnode
        cases hstatus
        rw [habove]
        exact walk_trans hwalk (walk_cons_eq_ok_iff.2 (Or.inr ⟨hdown, hshort, hnode, rfl⟩))
      · cases hstatus

/-- A file of the given name can be in the directory. -/
def fits (p : FilePath) (name : String) : Bool :=
  (p.child name).text.utf8ByteSize ≤ maxPathBytes && name.utf8ByteSize ≤ maxNameBytes

/-- The name of a file: neither the way up nor with a null character in it. -/
def IsFileName (name : String) : Prop := name ≠ ".." ∧ '\x00' ∉ name.toList

/-- A file of a directory is located if there is room for its name. -/
theorem locate_child_of_walk (hwalk : d.walk (d.start p) p.parts = .ok place) (hnullFree : NullFree p) (hname : IsFileName name) :
    d.locate (p.child name) = if fits p name then .ok (.entry place name) else .error .nameTooLong := by
  have hnull : NullFree (p.child name) := hnullFree.child hname.2
  have hchild : d.walk (d.start (p.child name)) p.parts = .ok place := hwalk
  have hparts : (p.child name).parts = p.parts ++ [name] := rfl
  unfold locate
  rw [any_contains_eq_false_iff.2 hnull, if_neg Bool.false_ne_true, hparts, List.getLast?_concat, List.dropLast_concat, hchild]
  by_cases hlong : maxPathBytes < (p.child name).text.utf8ByteSize
  · rw [if_pos hlong, if_neg (by simp [fits, hlong])]
  · rw [if_neg hlong]
    split
    · rename_i heq
      cases heq
    · rename_i heq
      cases heq
      exact absurd rfl hname.1
    · rename_i heq
      cases heq
      by_cases hnameLong : maxNameBytes < name.utf8ByteSize
      · rw [if_neg (by simp [fits, hnameLong])]
        simp [bind, Except.bind, hnameLong]
      · rw [if_pos (by simp [fits, not_lt.1 hlong, not_lt.1 hnameLong])]
        simp [bind, Except.bind, hnameLong, pure, Except.pure]

/-- The path `p` leads to a directory at `place` with no directories in it. -/
structure HoldsFiles (d : Disk) (p : FilePath) (place : List String) : Prop where
  walk : d.walk (d.start p) p.parts = .ok place
  nullFree : NullFree p
  files : ∀ name, d.node? (place ++ [name]) ≠ some .directory

namespace HoldsFiles

theorem locate_child (h : d.HoldsFiles p place) (hname : IsFileName name) :
    d.locate (p.child name) = if fits p name then .ok (.entry place name) else .error .nameTooLong :=
  locate_child_of_walk h.walk h.nullFree hname

/-- A change of one file in the directory leaves the directories as they are. -/
theorem of_file (h : d.HoldsFiles p place) (name : String) (hworking : d'.workingDirectory = d.workingDirectory)
    (hothers : ∀ other, place ++ [name] ≠ other → d'.node? other = d.node? other)
    (hfile : d'.node? (place ++ [name]) ≠ some .directory) : d'.HoldsFiles p place := by
  have hkept : ∀ other, d.node? other = some .directory → d'.node? other = some .directory := by
    intro other hother
    have hne : place ++ [name] ≠ other := by
      intro heq
      subst heq
      exact h.files name hother
    rw [hothers other hne, hother]
  have hstart : d'.start p = d.start p := by rw [start, start, hworking]
  refine ⟨?_, h.nullFree, fun other => ?_⟩
  · rw [hstart]
    exact walk_mono hkept h.walk
  · by_cases hsame : place ++ [name] = place ++ [other]
    · rw [← hsame]
      exact hfile
    · rw [hothers _ hsame]
      exact h.files other

/-! ### Writing and removing -/

theorem writeText_fits (h : d.HoldsFiles p place) (hname : IsFileName name) (hfits : fits p name = true) (text : String) :
    ∃ d', writeText (p.child name) text d = (.ok (), d') ∧ d'.HoldsFiles p place := by
  have hlocate := h.locate_child hname
  rw [if_pos hfits] at hlocate
  refine ⟨d.set (place ++ [name]) (.file text.toUTF8), ?_, h.of_file name rfl (fun other hne => ?_) ?_⟩
  · unfold writeText writeFile
    rw [bind_apply, ask_apply, hlocate]
    simp only
    rw [bind_apply, get_apply]
    rcases hnode : d.node? (place ++ [name]) with _ | (_ | content)
    · simp only [hnode]
      rfl
    · exact absurd hnode (h.files name)
    · simp only [hnode]
      rfl
  · rw [node?_set (by simp), if_neg hne]
  · rw [node?_set (by simp), if_pos rfl]
    simp

theorem writeText_of_not_fits (h : d.HoldsFiles p place) (hname : IsFileName name) (hfits : fits p name = false)
    (text : String) : writeText (p.child name) text d = (.error .nameTooLong, d) := by
  have hlocate := h.locate_child hname
  rw [hfits, if_neg Bool.false_ne_true] at hlocate
  unfold writeText writeFile
  rw [bind_apply, ask_apply, hlocate]

theorem removeFileIfThere_fits (h : d.HoldsFiles p place) (hname : IsFileName name) (hfits : fits p name = true) :
    ∃ d', removeFileIfThere (p.child name) d = (.ok (), d') ∧ d'.HoldsFiles p place := by
  have hlocate := h.locate_child hname
  rw [if_pos hfits] at hlocate
  unfold removeFileIfThere
  cases hnode : d.node? (place ++ [name]) with
  | none =>
    refine ⟨d, ?_, h⟩
    have hremove : removeFile (p.child name) d = (.error .missing, d) := by
      unfold removeFile
      rw [bind_apply, ask_apply, hlocate]
      simp only
      rw [bind_apply, get_apply]
      simp only [hnode]
      rfl
    rw [tryCatch_apply, hremove]
    rfl
  | some node =>
    cases node with
    | directory => exact absurd hnode (h.files name)
    | file content =>
      refine ⟨d.remove (place ++ [name]), ?_, h.of_file name rfl (fun other hne => ?_) ?_⟩
      · have hremove : removeFile (p.child name) d = (.ok (), d.remove (place ++ [name])) := by
          unfold removeFile
          rw [bind_apply, ask_apply, hlocate]
          simp only
          rw [bind_apply, get_apply]
          simp only [hnode]
          rfl
        rw [tryCatch_apply, hremove]
      · rw [node?_remove (by simp), if_neg hne]
      · rw [node?_remove (by simp), if_pos rfl]
        simp

theorem removeFileIfThere_of_not_fits (h : d.HoldsFiles p place) (hname : IsFileName name) (hfits : fits p name = false) :
    removeFileIfThere (p.child name) d = (.error .nameTooLong, d) := by
  have hlocate := h.locate_child hname
  rw [hfits, if_neg Bool.false_ne_true] at hlocate
  have hremove : removeFile (p.child name) d = (.error .nameTooLong, d) := by
    unfold removeFile
    rw [bind_apply, ask_apply, hlocate]
  unfold removeFileIfThere
  rw [tryCatch_apply, hremove]
  rfl

end HoldsFiles

end TagTypes.Disk
