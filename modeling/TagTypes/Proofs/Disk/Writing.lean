import Mathlib.Tactic
import TagTypes.Proofs.Disk.Directory
import TagTypes.Proofs.Disk.LineEnds

/-!
# One written or removed file

To write or to remove a file changes what is at one place, and nothing on the way there. So the directory is found as before, it has the same files beside the changed one, and each of them reads as before. A written file reads as the text, with its line ends unified. If it cannot be written or removed, nothing changes.
-/

namespace TagTypes

namespace Disk

theorem decodeText_toUTF8 (text : String) : decodeText text.toUTF8 = .ok (String.ofList (unifyLineEnds text.toList)) := by
  have hread : String.fromUTF8? text.toUTF8 = some text := dif_pos text.isValidUTF8
  unfold decodeText
  rw [hread]

/-- What is read from a beginning of the bytes of a text is a beginning of what is read from all of them. -/
theorem beginning_of_decodeText {text start : String} {kept : ℕ} (hstart : decodeText (text.toUTF8.extract 0 kept) = .ok start) :
    start.toList <+: unifyLineEnds text.toList := by
  unfold decodeText at hstart
  split at hstart
  · rename_i read hread
    cases hstart
    have hbytes : read.toByteArray = text.toUTF8.extract 0 kept := by
      unfold String.fromUTF8? at hread
      split at hread
      · exact (congrArg String.toByteArray (Option.some.inj hread)).symm
      · cases hread
    rw [String.toList_ofList]
    refine unifyLineEnds_isPrefix
      (List.isPrefix_of_utf8Encode_append_eq_utf8Encode (text.toUTF8.extract kept text.toUTF8.size) ?_)
    rw [String.utf8Encode_toList, String.utf8Encode_toList, hbytes, ByteArray.extract_append_extract]
    ext i <;> simp
  · cases hstart

/-! ### Ways to a directory -/

variable {d d' : Disk} {p : FilePath} {place target : List String} {name other text : String}

theorem walk_append_eq_ok {parts more : List String} (hwalk : d.walk place (parts ++ more) = .ok target) :
    ∃ between, d.walk place parts = .ok between ∧ d.walk between more = .ok target := by
  induction parts generalizing place with
  | nil => exact ⟨place, rfl, hwalk⟩
  | cons part rest ih =>
    rw [List.cons_append, walk_cons_eq_ok_iff] at hwalk
    rcases hwalk with ⟨hup, hrest⟩ | ⟨hdown, hshort, hnode, hrest⟩
    · obtain ⟨between, hfirst, hmore⟩ := ih hrest
      exact ⟨between, walk_cons_eq_ok_iff.2 (Or.inl ⟨hup, hfirst⟩), hmore⟩
    · obtain ⟨between, hfirst, hmore⟩ := ih hrest
      exact ⟨between, walk_cons_eq_ok_iff.2 (Or.inr ⟨hdown, hshort, hnode, hfirst⟩), hmore⟩

theorem length_of_locate {found : Target} (hlocate : d.locate p = .ok found) : p.text.utf8ByteSize ≤ maxPathBytes := by
  unfold locate at hlocate
  split at hlocate
  · cases hlocate
  · split at hlocate
    · cases hlocate
    · rename_i hshort
      exact not_lt.1 hshort

theorem utf8ByteSize_intercalate_le (separator name : String) (parts : List String) :
    (String.intercalate separator parts).utf8ByteSize ≤ (String.intercalate separator (parts ++ [name])).utf8ByteSize := by
  induction parts with
  | nil => exact Nat.zero_le _
  | cons part rest ih =>
    cases rest with
    | nil =>
      rw [List.singleton_append, String.intercalate_singleton, String.intercalate_cons_cons, String.utf8ByteSize_append,
        String.utf8ByteSize_append]
      omega
    | cons next more =>
      rw [List.cons_append] at ih
      rw [List.cons_append, List.cons_append, String.intercalate_cons_cons, String.intercalate_cons_cons]
      simp only [String.utf8ByteSize_append]
      omega

/-- A path with room for a child is not too long itself. -/
theorem short_of_child (hchild : (p.child name).text.utf8ByteSize ≤ maxPathBytes) : p.text.utf8ByteSize ≤ maxPathBytes := by
  have hparts := utf8ByteSize_intercalate_le "/" name p.parts
  unfold FilePath.text FilePath.child at hchild
  unfold FilePath.text
  cases hanchor : p.anchor with
  | here =>
    have hfull : (p.parts ++ [name]).isEmpty = false := by simp
    simp only [hanchor, hfull, Bool.false_eq_true, if_false] at hchild ⊢
    split
    · decide
    · exact hparts.trans hchild
  | root =>
    simp only [hanchor, String.utf8ByteSize_append] at hchild ⊢
    omega
  | doubleRoot =>
    simp only [hanchor, String.utf8ByteSize_append] at hchild ⊢
    omega

/-- The directory at the end of a way that is not too long is there. -/
theorem status_of_walk (hwalk : d.walk (d.start p) p.parts = .ok place) (hnull : NullFree p)
    (hshort : p.text.utf8ByteSize ≤ maxPathBytes) : d.status p = .ok (place, .directory) := by
  unfold status locate
  rw [any_contains_eq_false_iff.2 hnull, if_neg Bool.false_ne_true, if_neg (not_lt.2 hshort)]
  split
  · rename_i hlast
    rw [List.getLast?_eq_none_iff.1 hlast] at hwalk
    cases hwalk
    rfl
  · rw [hwalk]
    rfl
  · rename_i name hdown hlast
    obtain ⟨above, habove⟩ := List.getLast?_eq_some_iff.1 hlast
    rw [habove] at hwalk
    obtain ⟨between, hfirst, hrest⟩ := walk_append_eq_ok hwalk
    have hdown' : name ≠ ".." := by simpa using hdown
    rcases walk_cons_eq_ok_iff.1 hrest with ⟨hup, -⟩ | ⟨-, hname, hnode, hend⟩
    · exact absurd hup hdown'
    · cases hend
      rw [habove, List.dropLast_concat, hfirst]
      simp only [bind, Except.bind, pure, Except.pure, if_neg (not_lt.2 hname), hnode]

theorem length_of_status {node : DiskNode} (hstatus : d.status p = .ok (place, node)) : p.text.utf8ByteSize ≤ maxPathBytes := by
  unfold status at hstatus
  cases hlocate : d.locate p with
  | error fault =>
    rw [hlocate] at hstatus
    cases hstatus
  | ok found => exact length_of_locate hlocate

/-- A directory that is there is found on every disk that has the same directories and perhaps more. -/
theorem status_mono (hworking : d'.workingDirectory = d.workingDirectory)
    (hdirectories : ∀ place, d.node? place = some .directory → d'.node? place = some .directory)
    (hstatus : d.status p = .ok (place, .directory)) : d'.status p = .ok (place, .directory) := by
  obtain ⟨hwalk, hnull⟩ := walk_of_status hstatus
  have hstart : d'.start p = d.start p := by rw [start, start, hworking]
  refine status_of_walk ?_ hnull (length_of_status hstatus)
  rw [hstart]
  exact walk_mono hdirectories hwalk

/-- The entry that a child is located as has its name and is in the directory of the path. -/
theorem locate_child_eq_entry (hlocate : d.locate (p.child name) = .ok (.entry place other)) :
    name = other ∧ d.walk (d.start p) p.parts = .ok place := by
  obtain ⟨-, -, -, above, habove, hwalk⟩ := locate_eq_ok hlocate
  have hparts : p.parts ++ [name] = above ++ [other] := habove
  obtain ⟨rfl, hlast⟩ := List.append_inj' hparts rfl
  exact ⟨List.singleton_inj.1 hlast, hwalk⟩

/-- There is room for the name of what was located. -/
theorem fits_of_locate (hlocate : d.locate (p.child name) = .ok (.entry place name)) : fits p name = true := by
  have hlength := length_of_locate hlocate
  obtain ⟨-, -, hname, -⟩ := locate_eq_ok hlocate
  simp [fits, hlength, hname]

theorem status_child_of_walk (hwalk : d.walk (d.start p) p.parts = .ok place) (hnull : NullFree p) (hname : IsFileName name)
    (hfits : fits p name = true) {content : ByteArray} (hnode : d.node? (place ++ [name]) = some (.file content)) :
    d.status (p.child name) = .ok (place ++ [name], .file content) := by
  have hlocate := locate_child_of_walk hwalk hnull hname
  rw [if_pos hfits] at hlocate
  unfold status
  simp only [hlocate, bind, Except.bind, hnode, pure, Except.pure]

theorem readFile_of_status {content : ByteArray} (hstatus : d.status p = .ok (place, .file content)) :
    d.readFile p = .ok content := by
  rw [readFile, hstatus]
  rfl

theorem readText_of_status {content : ByteArray} (hstatus : d.status p = .ok (place, .file content)) :
    d.readText p = decodeText content := by
  rw [readText, readFile_of_status hstatus]

/-- What can be read from a directory is a file in it, and the directory is there. -/
theorem status_of_readText {text : String} (hread : d.readText (p.child name) = .ok text) :
    ∃ place content, d.status p = .ok (place, .directory) ∧ d.node? (place ++ [name]) = some (.file content) ∧
      decodeText content = .ok text := by
  unfold readText readFile status at hread
  cases hlocate : d.locate (p.child name) with
  | error fault =>
    rw [hlocate] at hread
    cases hread
  | ok found =>
    rw [hlocate] at hread
    cases found with
    | directory _ => cases hread
    | entry place last =>
      obtain ⟨rfl, hwalk⟩ := locate_child_eq_entry hlocate
      have hnull : NullFree p := fun part hpart => (locate_eq_ok hlocate).1 part (List.mem_append_left _ hpart)
      simp only [bind, Except.bind] at hread
      rcases hnode : d.node? (place ++ [name]) with _ | (_ | content)
      · simp only [hnode] at hread
        cases hread
      · simp only [hnode] at hread
        cases hread
      · simp only [hnode] at hread
        exact ⟨place, content, status_of_walk hwalk hnull (short_of_child (length_of_locate hlocate)), hnode, hread⟩

/-- A child of a directory that two disks have at the same place is located alike. -/
theorem locate_child_congr (hwalk : d'.walk (d'.start p) p.parts = d.walk (d.start p) p.parts) (hother : other ≠ "..") :
    d'.locate (p.child other) = d.locate (p.child other) := by
  have hparts : (p.child other).parts = p.parts ++ [other] := rfl
  have hstart : ∀ e : Disk, e.start (p.child other) = e.start p := fun _ => rfl
  unfold locate
  rw [hparts, List.getLast?_concat, List.dropLast_concat, hstart, hstart, hwalk]
  split
  · rfl
  · split
    · rfl
    · split
      · rename_i heq
        cases heq
      · rename_i heq
        cases heq
        exact absurd rfl hother
      · rfl

theorem isDirectoryAt_eq_false (hlocate : d.locate p = .ok (.entry place name))
    (hnode : d.node? (place ++ [name]) ≠ some .directory) : d.isDirectoryAt p = false := by
  unfold isDirectoryAt status
  simp only [hlocate, bind, Except.bind]
  rcases hfound : d.node? (place ++ [name]) with _ | (_ | content)
  · rfl
  · exact absurd hfound hnode
  · rfl

/-! ### Writing -/

/-- In the directory at `place`, where the path `p` leads, there is now the file `name` with the given content, or no file of this name. -/
structure Changed (p : FilePath) (place : List String) (name : String) (found : Option ByteArray) (d d' : Disk) : Prop where
  workingDirectory : d'.workingDirectory = d.workingDirectory
  before : d.walk (d.start p) p.parts = .ok place
  located : d.locate (p.child name) = .ok (.entry place name)
  isFile : d.node? (place ++ [name]) ≠ some .directory
  node : ∀ other, d'.node? other = if place ++ [name] = other then found.map .file else d.node? other

variable {content : ByteArray}

/-- A file can be written where a path leads, unless there is a directory. -/
theorem fst_writeFile (p : FilePath) (content : ByteArray) (d : Disk) :
    (writeFile p content d).1 =
      match d.locate p with
      | .error fault => .error fault
      | .ok _ => if d.isDirectoryAt p then .error .isDirectory else .ok () := by
  unfold writeFile isDirectoryAt status
  rw [bind_apply, ask_apply]
  cases d.locate p with
  | error fault => rfl
  | ok found =>
    cases found with
    | directory place => rfl
    | entry place last =>
      simp only
      rw [bind_apply, get_apply]
      rcases hnode : d.node? (place ++ [last]) with _ | (_ | content)
      all_goals
        simp only [hnode, bind, Except.bind]
        rfl

theorem fst_writeText (p : FilePath) (text : String) (d : Disk) :
    (writeText p text d).1 =
      match d.locate p with
      | .error fault => .error fault
      | .ok _ => if d.isDirectoryAt p then .error .isDirectory else .ok () :=
  fst_writeFile p text.toUTF8 d

theorem writeFile_error {fault : DiskFault} (hwrite : writeFile p content d = (.error fault, d')) : d' = d := by
  unfold writeFile at hwrite
  rw [bind_apply, ask_apply] at hwrite
  cases hlocate : d.locate p with
  | error reason =>
    rw [hlocate] at hwrite
    cases hwrite
    rfl
  | ok found =>
    rw [hlocate] at hwrite
    cases found with
    | directory place =>
      cases hwrite
      rfl
    | entry place last =>
      simp only at hwrite
      rw [bind_apply, get_apply] at hwrite
      rcases hnode : d.node? (place ++ [last]) with _ | (_ | content)
      · simp only [hnode] at hwrite
        cases hwrite
      · simp only [hnode] at hwrite
        cases hwrite
        rfl
      · simp only [hnode] at hwrite
        cases hwrite

theorem writeText_error {fault : DiskFault} (hwrite : writeText p text d = (.error fault, d')) : d' = d :=
  writeFile_error hwrite

/-- A fault that a way through directories may have. -/
def IsOfWay : DiskFault → Prop
  | .missing | .notDirectory | .nameTooLong => True
  | _ => False

theorem walk_fault {parts : List String} {fault : DiskFault} (hwalk : d.walk place parts = .error fault) : IsOfWay fault := by
  induction parts generalizing place with
  | nil => cases hwalk
  | cons part rest ih =>
    rw [walk] at hwalk
    split at hwalk
    · exact ih hwalk
    · split at hwalk
      · cases hwalk
        trivial
      · split at hwalk
        · cases hwalk
          trivial
        · cases hwalk
          trivial
        · exact ih hwalk

/-- A path leads nowhere if there is a null character in it, or for a fault of the way. -/
theorem locate_fault {fault : DiskFault} (hlocate : d.locate p = .error fault) :
    fault = .embeddedNull ∧ ¬NullFree p ∨ IsOfWay fault := by
  unfold locate at hlocate
  split at hlocate
  · rename_i hnull
    cases hlocate
    refine Or.inl ⟨rfl, fun hfree => ?_⟩
    rw [any_contains_eq_false_iff.2 hfree] at hnull
    cases hnull
  · right
    split at hlocate
    · cases hlocate
      trivial
    · split at hlocate
      · cases hlocate
      · cases hwalk : d.walk (d.start p) p.parts with
        | error other =>
          rw [hwalk] at hlocate
          cases hlocate
          exact walk_fault hwalk
        | ok place =>
          rw [hwalk] at hlocate
          cases hlocate
      · cases hwalk : d.walk (d.start p) p.parts.dropLast with
        | error other =>
          rw [hwalk] at hlocate
          cases hlocate
          exact walk_fault hwalk
        | ok place =>
          rw [hwalk] at hlocate
          simp only [bind, Except.bind] at hlocate
          split at hlocate
          · cases hlocate
            trivial
          · cases hlocate

theorem writeText_fault {fault : DiskFault} (hwrite : (writeText p text d).1 = .error fault) :
    fault = .embeddedNull ∧ ¬NullFree p ∨ IsOfWay fault ∨ fault = .isDirectory := by
  rw [fst_writeText] at hwrite
  cases hlocate : d.locate p with
  | error other =>
    rw [hlocate] at hwrite
    cases hwrite
    rcases locate_fault hlocate with hnull | hway
    · exact Or.inl hnull
    · exact Or.inr (Or.inl hway)
  | ok found =>
    rw [hlocate] at hwrite
    simp only at hwrite
    split at hwrite
    · cases hwrite
      exact Or.inr (Or.inr rfl)
    · cases hwrite

theorem writeText_ne_embeddedNull (hnull : NullFree p) : (writeText p text d).1 ≠ .error .embeddedNull := by
  intro hwrite
  rcases writeText_fault hwrite with ⟨-, hnot⟩ | hway | hdirectory
  · exact hnot hnull
  · exact hway
  · cases hdirectory

/-- A write that is not struck has no text without bytes. -/
theorem writeText_ne_unencodable : (writeText p text d).1 ≠ .error .unencodable := by
  intro hwrite
  rcases writeText_fault hwrite with ⟨hnull, -⟩ | hway | hdirectory
  · cases hnull
  · exact hway
  · cases hdirectory

theorem written_of_writeFile (hwrite : writeFile (p.child name) content d = (.ok (), d')) :
    ∃ place, Changed p place name (some content) d d' := by
  unfold writeFile at hwrite
  rw [bind_apply, ask_apply] at hwrite
  cases hlocate : d.locate (p.child name) with
  | error fault =>
    rw [hlocate] at hwrite
    cases hwrite
  | ok found =>
    rw [hlocate] at hwrite
    cases found with
    | directory place => cases hwrite
    | entry place last =>
      obtain ⟨rfl, hwalk⟩ := locate_child_eq_entry hlocate
      simp only at hwrite
      rw [bind_apply, get_apply] at hwrite
      have hfile : d.node? (place ++ [name]) ≠ some .directory := by
        intro hnode
        simp only [hnode] at hwrite
        cases hwrite
      have hset : d' = d.set (place ++ [name]) (.file content) := by
        simp only at hwrite
        cases hwrite
        rfl
      subst hset
      exact ⟨place, rfl, hwalk, hlocate, hfile, fun other => node?_set (by simp) _⟩

theorem written_of_writeText (hwrite : writeText (p.child name) text d = (.ok (), d')) :
    ∃ place, Changed p place name (some text.toUTF8) d d' :=
  written_of_writeFile hwrite

theorem Strike.exists_left_eq (strike : Strike) (content : ByteArray) : ∃ kept, strike.left content = content.extract 0 kept := by
  cases strike with
  | noRoom kept => exact ⟨kept, rfl⟩
  | unencodable => exact ⟨0, by simp [left]⟩

/-- A struck write fails as it would without the strike, or it leaves a beginning of the text in the file. -/
theorem writeTextUnder_some {strike : Strike} {result : Except DiskFault Unit}
    (hwrite : writeTextUnder (some strike) p text d = (result, d')) :
    (∃ fault, writeText p text d = (.error fault, d) ∧ result = .error fault ∧ d' = d) ∨
      (writeText p text d).1 = .ok () ∧ result = .error strike.fault ∧ writeFile p (strike.left text.toUTF8) d = (.ok (), d') := by
  have hsame := (fst_writeFile p (strike.left text.toUTF8) d).trans (fst_writeText p text d).symm
  simp only [writeTextUnder] at hwrite
  rw [bind_apply] at hwrite
  rcases hpart : writeFile p (strike.left text.toUTF8) d with ⟨fault | ⟨⟩, between⟩
  · obtain rfl := writeFile_error hpart
    rw [hpart] at hwrite hsame
    cases hwrite
    rcases hwhole : writeText p text d' with ⟨other, after⟩
    rw [hwhole] at hsame
    cases hsame
    obtain rfl := writeText_error hwhole
    exact Or.inl ⟨fault, rfl, rfl, rfl⟩
  · rw [hpart] at hwrite hsame
    cases hwrite
    exact Or.inr ⟨hsame.symm, rfl, rfl⟩

theorem writeTextUnder_some_cases {strike : Strike} {result : Except DiskFault Unit}
    (hwrite : writeTextUnder (some strike) (p.child name) text d = (result, d')) :
    (∃ fault, writeText (p.child name) text d = (.error fault, d) ∧ result = .error fault ∧ d' = d) ∨
      (writeText (p.child name) text d).1 = .ok () ∧ result = .error strike.fault ∧
        ∃ place, Changed p place name (some (strike.left text.toUTF8)) d d' :=
  (writeTextUnder_some hwrite).imp_right fun hcut => ⟨hcut.1, hcut.2.1, written_of_writeFile hcut.2.2⟩

namespace Changed

variable {found : Option ByteArray} (h : Changed p place name found d d')
include h

theorem nullFree : NullFree p := fun part hpart => (locate_eq_ok h.located).1 part (List.mem_append_left _ hpart)

theorem name_ne_up : name ≠ ".." := (locate_eq_ok h.located).2.1

theorem node?_directory (hnode : d.node? target = some .directory) : d'.node? target = some .directory := by
  rw [h.node, if_neg, hnode]
  rintro rfl
  exact h.isFile hnode

/-- Each path that led to a directory leads there still. -/
theorem status {q : FilePath} (hstatus : d.status q = .ok (target, .directory)) : d'.status q = .ok (target, .directory) :=
  status_mono h.workingDirectory (fun _ => h.node?_directory) hstatus

theorem status_before : d.status p = .ok (place, .directory) :=
  status_of_walk h.before h.nullFree (short_of_child (length_of_locate h.located))

theorem status_after : d'.status p = .ok (place, .directory) := h.status h.status_before

theorem after : d'.walk (d'.start p) p.parts = d.walk (d.start p) p.parts :=
  (walk_of_status h.status_after).1.trans h.before.symm

/-- A directory with files only stays one. -/
theorem holdsFiles (hfiles : d.HoldsFiles p target) : d'.HoldsFiles p target := by
  cases h.before.symm.trans hfiles.walk
  refine hfiles.of_file name h.workingDirectory (fun other hne => by rw [h.node, if_neg hne]) ?_
  rw [h.node, if_pos rfl]
  cases found <;> simp

/-- The children of the directory are located as before. -/
theorem locate_child (hup : other ≠ "..") : d'.locate (p.child other) = d.locate (p.child other) :=
  locate_child_congr h.after hup

theorem status_child_of_ne (hup : other ≠ "..") (hne : other ≠ name) :
    d'.status (p.child other) = d.status (p.child other) := by
  unfold Disk.status
  rw [h.locate_child hup]
  cases hfound : d.locate (p.child other) with
  | error fault => rfl
  | ok found =>
    cases found with
    | directory _ => rfl
    | entry directory last =>
      obtain ⟨rfl, hwalk⟩ := locate_child_eq_entry hfound
      cases h.before.symm.trans hwalk
      have hnode := h.node (place ++ [other])
      rw [if_neg (by simpa using hne.symm)] at hnode
      simp only [bind, Except.bind, hnode]

/-- The files beside the changed one read as before. -/
theorem readText_child_of_ne (hup : other ≠ "..") (hne : other ≠ name) :
    d'.readText (p.child other) = d.readText (p.child other) := by
  unfold readText readFile
  rw [h.status_child_of_ne hup hne]

/-- A directory is a child of the directory after the change if and only if it was one before. -/
theorem isDirectoryAt_child (hup : other ≠ "..") : d'.isDirectoryAt (p.child other) = d.isDirectoryAt (p.child other) := by
  by_cases hne : other = name
  · subst hne
    have hnode : d'.node? (place ++ [other]) ≠ some .directory := by
      rw [h.node, if_pos rfl]
      cases found <;> simp
    rw [isDirectoryAt_eq_false h.located h.isFile, isDirectoryAt_eq_false ((h.locate_child hup).trans h.located) hnode]
  · unfold isDirectoryAt
    rw [h.status_child_of_ne hup hne]

end Changed

/-- A written file is there with its text. -/
theorem Changed.status_child (h : Changed p place name (some text.toUTF8) d d') :
    d'.status (p.child name) = .ok (place ++ [name], .file text.toUTF8) := by
  have hname : IsFileName name := ⟨h.name_ne_up, (locate_eq_ok h.located).1 name (List.mem_append_right _ List.mem_cons_self)⟩
  have hnode := h.node (place ++ [name])
  rw [if_pos rfl, Option.map_some] at hnode
  exact status_child_of_walk (walk_of_status h.status_after).1 h.nullFree hname (fits_of_locate h.located) hnode

/-- A written file reads as the text with its line ends unified. -/
theorem Changed.readText_child (h : Changed p place name (some text.toUTF8) d d') :
    d'.readText (p.child name) = .ok (String.ofList (unifyLineEnds text.toList)) := by
  rw [readText_of_status h.status_child, decodeText_toUTF8]

/-! ### Removing -/

/-- No part of the way to a child of a directory that is there is missing. -/
theorem locate_child_ne_missing (hwalk : d.walk (d.start p) p.parts = .ok place) :
    d.locate (p.child name) ≠ .error .missing := by
  have hparts : (p.child name).parts = p.parts ++ [name] := rfl
  have hchild : d.walk (d.start (p.child name)) p.parts = .ok place := hwalk
  unfold locate
  rw [hparts, List.getLast?_concat, List.dropLast_concat]
  split
  · simp
  · split
    · simp
    · split
      · simp
      · rename_i heq
        cases heq
        rw [walk_trans hchild (walk_cons_eq_ok_iff.2 (Or.inl ⟨rfl, rfl⟩))]
        simp [Except.map]
      · rw [hchild]
        simp only [bind, Except.bind]
        split <;> simp [pure, Except.pure]

/-- A file can be removed, or is not there, where a path leads or a part of it is missing, unless there is a directory. -/
theorem fst_removeFileIfThere (p : FilePath) (d : Disk) :
    (removeFileIfThere p d).1 =
      match d.locate p with
      | .error fault => if fault = .missing then .ok () else .error fault
      | .ok _ => if d.isDirectoryAt p then .error .isDirectory else .ok () := by
  unfold removeFileIfThere isDirectoryAt status
  rw [tryCatch_apply]
  unfold removeFile
  rw [bind_apply, ask_apply]
  cases d.locate p with
  | error fault =>
    simp only
    split <;> rfl
  | ok found =>
    cases found with
    | directory place => rfl
    | entry place last =>
      simp only
      rw [bind_apply, get_apply]
      rcases hnode : d.node? (place ++ [last]) with _ | (_ | content)
      all_goals
        simp only [hnode, bind, Except.bind]
        rfl

/-- A file that is to go was there and is gone, or nothing changes; if that is called a success, the file was not there. -/
theorem removeFileIfThere_cases {result : Except DiskFault Unit}
    (hremove : removeFileIfThere (p.child name) d = (result, d')) :
    (result = .ok () ∧ ∃ place, Changed p place name none d d') ∨
      d' = d ∧ (result = .ok () → ∀ place, d.walk (d.start p) p.parts = .ok place → d.node? (place ++ [name]) = none) := by
  unfold removeFileIfThere at hremove
  rw [tryCatch_apply] at hremove
  unfold removeFile at hremove
  rw [bind_apply, ask_apply] at hremove
  cases hlocate : d.locate (p.child name) with
  | error fault =>
    rw [hlocate] at hremove
    simp only at hremove
    split at hremove
    · rename_i hmissing
      cases hremove
      subst hmissing
      exact Or.inr ⟨rfl, fun _ place hwalk => absurd hlocate (locate_child_ne_missing hwalk)⟩
    · cases hremove
      exact Or.inr ⟨rfl, fun h => by cases h⟩
  | ok found =>
    rw [hlocate] at hremove
    cases found with
    | directory place =>
      cases hremove
      exact Or.inr ⟨rfl, fun h => by cases h⟩
    | entry place last =>
      obtain ⟨rfl, hwalk⟩ := locate_child_eq_entry hlocate
      simp only at hremove
      rw [bind_apply, get_apply] at hremove
      rcases hnode : d.node? (place ++ [name]) with _ | (_ | content)
      · simp only [hnode] at hremove
        cases hremove
        refine Or.inr ⟨rfl, fun _ other hother => ?_⟩
        cases hwalk.symm.trans hother
        exact hnode
      · simp only [hnode] at hremove
        cases hremove
        exact Or.inr ⟨rfl, fun h => by cases h⟩
      · simp only [hnode] at hremove
        cases hremove
        exact Or.inl ⟨rfl, place, rfl, hwalk, hlocate, by simp [hnode], fun other => node?_remove (by simp)⟩

/-- Where a file was removed, or was not there, there is nothing. -/
theorem status_of_removeFileIfThere (hup : name ≠ "..") (hremove : removeFileIfThere (p.child name) d = (.ok (), d')) :
    (d'.status (p.child name)).isOk = false := by
  rcases removeFileIfThere_cases hremove with ⟨-, place, hremoved⟩ | ⟨rfl, hnone⟩
  · have hnode := hremoved.node (place ++ [name])
    rw [if_pos rfl, Option.map_none] at hnode
    unfold status
    simp only [hremoved.locate_child hup, hremoved.located, bind, Except.bind, hnode]
    rfl
  · unfold status
    cases hlocate : d'.locate (p.child name) with
    | error fault => rfl
    | ok found =>
      cases found with
      | directory place =>
        -- a directory is not removed, and that is no success
        have hfailed := fst_removeFileIfThere (p.child name) d'
        have hdirectory : d'.isDirectoryAt (p.child name) = true := by
          unfold isDirectoryAt status
          rw [hlocate]
          rfl
        simp only [hremove, hlocate, hdirectory, if_true] at hfailed
        cases hfailed
      | entry place last =>
        obtain ⟨rfl, hwalk⟩ := locate_child_eq_entry hlocate
        have hnode := hnone rfl place hwalk
        simp only [bind, Except.bind, hnode]
        rfl

end Disk

end TagTypes
