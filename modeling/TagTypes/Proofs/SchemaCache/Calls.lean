import Mathlib.Tactic
import TagTypes.Proofs.SchemaCache.Run

/-!
# Calls about one key

To save or to remove a schema is about one key: it sets or erases what is cached under the key and what is in the key's file, and nothing else. Whether it goes well does not depend on calls before it, whatever keys they were about. So calls about two keys come to the same in either order, and a call that is made once more changes nothing.
-/

namespace TagTypes.SchemaCache

/-- The key that a call is about, if it is about one. Calls with struck writes are left out. -/
def Action.key? : Action → Option String
  | .save key _ => some key
  | .remove key => some key
  | _ => none

/-- What a call about one key leaves under it, if it goes well. -/
def left? (s : SchemaCache × Disk) : Action → Option (Option CachedSchema)
  | .save key text => (s.1.save key text s.2).1.toOption.map fun saved => some ⟨saved.1, text⟩
  | .remove key => (s.1.remove key s.2).1.toOption.map fun _ => none
  | _ => none

/-- The place of a key's file, if the cache directory is found. -/
def filePlace? (s : SchemaCache × Disk) (key : String) : Option (List String) :=
  (s.2.walk (s.2.start s.1.directory) s.1.directory.parts).toOption.map (· ++ [key ++ ".json"])

variable {s : SchemaCache × Disk} {c : SchemaCache} {d d' : Disk} {a b : Action} {key other text : String}

/-! ### Whether a call goes well -/

theorem left?_save (c : SchemaCache) (d : Disk) (key text : String) :
    left? (c, d) (.save key text) =
      if isValidKey key && (Disk.writeText (c.fileFor key) text d).1.isOk then
        (Schema.parse key text).toOption.map fun schema => some ⟨schema, text⟩
      else none := by
  cases hkey : isValidKey key with
  | false => simp [left?, save, hkey, Except.toOption]
  | true =>
    cases hparse : Schema.parse key text with
    | error e => simp [left?, save, hkey, hparse, Except.toOption]
    | ok schema =>
      rcases hwrite : Disk.writeText (c.fileFor key) text d with ⟨fault | ⟨⟩, after⟩
      · cases fault <;> simp [left?, save, hkey, hparse, hwrite, Except.toOption, Except.isOk, Except.toBool]
      · simp [left?, save, hkey, hparse, hwrite, Except.toOption, Except.isOk, Except.toBool]

theorem left?_remove (c : SchemaCache) (d : Disk) (key : String) :
    left? (c, d) (.remove key) =
      if isValidKey key && (Disk.removeFileIfThere (c.fileFor key) d).1.isOk then some none else none := by
  cases hkey : isValidKey key with
  | false => simp [left?, remove, hkey, Except.toOption]
  | true =>
    rcases hremove : Disk.removeFileIfThere (c.fileFor key) d with ⟨fault | ⟨⟩, after⟩
    · cases fault <;> simp [left?, remove, hkey, hremove, Except.toOption, Except.isOk, Except.toBool]
    · simp [left?, remove, hkey, hremove, Except.toOption, Except.isOk, Except.toBool]

/-- Whether a call goes well depends on the directory and on where directories stand, not on files and cached schemas. -/
theorem left?_congr {c' : SchemaCache} (hdirectory : c'.directory = c.directory)
    (hlocate : ∀ name, name ≠ ".." → d'.locate (c.directory.child name) = d.locate (c.directory.child name))
    (hthere : ∀ name, name ≠ ".." → d'.isDirectoryAt (c.directory.child name) = d.isDirectoryAt (c.directory.child name))
    (a : Action) : left? (c', d') a = left? (c, d) a := by
  have hfile : ∀ key, c'.fileFor key = c.fileFor key := fun key => by rw [fileFor, fileFor, hdirectory]
  cases a with
  | save key text =>
    rw [left?_save, left?_save, hfile]
    cases hkey : isValidKey key with
    | false => rfl
    | true =>
      have hup := (isFileName_of_isValidKey hkey).1
      rw [Disk.fst_writeText, Disk.fst_writeText, fileFor, hlocate _ hup, hthere _ hup]
  | remove key =>
    rw [left?_remove, left?_remove, hfile]
    cases hkey : isValidKey key with
    | false => rfl
    | true =>
      have hup := (isFileName_of_isValidKey hkey).1
      rw [Disk.fst_removeFileIfThere, Disk.fst_removeFileIfThere, fileFor, hlocate _ hup, hthere _ hup]
  | prepare => rfl
  | struck key text strike => rfl
  | reload => rfl
  | edit disk => rfl

/-! ### What a call changes -/

/-- What a call about one key does: nothing, or it sets or erases the key's entry and its file. -/
inductive Turned (key : String) (s : SchemaCache × Disk) : Option (Option CachedSchema) → SchemaCache × Disk → Prop
  | failed : Turned key s none s
  | saved {place : List String} {e : CachedSchema} {disk : Disk}
      (hchanged : Disk.Changed s.1.directory place (key ++ ".json") (some e.text.toUTF8) s.2 disk) :
      Turned key s (some (some e)) ({ s.1 with entries := s.1.entries.insert key e }, disk)
  | removed {place : List String} {disk : Disk}
      (hchanged : Disk.Changed s.1.directory place (key ++ ".json") none s.2 disk) :
      Turned key s (some none) ({ s.1 with entries := s.1.entries.erase key }, disk)
  | missing (hnone : ∀ place, s.2.walk (s.2.start s.1.directory) s.1.directory.parts = .ok place →
        s.2.node? (place ++ [key ++ ".json"]) = none) :
      Turned key s (some none) ({ s.1 with entries := s.1.entries.erase key }, s.2)

theorem turned_act (ha : a.key? = some key) : Turned key s (left? s a) (act s a) := by
  obtain ⟨c, d⟩ := s
  cases a with
  | save own text =>
    cases ha
    rcases hsave : c.save key text d with ⟨e | ⟨schema, saved⟩, disk⟩
    · have hdisk : disk = d := save_disk hsave
      simp only [left?, act, hsave, hdisk]
      exact .failed
    · obtain ⟨-, -, rfl⟩ := save_ok hsave
      obtain ⟨place, hchanged⟩ := save_disk hsave
      simp only [left?, act, hsave]
      exact .saved (e := ⟨schema, text⟩) hchanged
  | remove own =>
    cases ha
    rcases hremove : c.remove key d with ⟨e | saved, disk⟩
    · have hdisk : disk = d := remove_disk hremove
      simp only [left?, act, hremove, hdisk]
      exact .failed
    · obtain ⟨-, rfl⟩ := remove_ok hremove
      simp only [left?, act, hremove]
      rcases remove_disk hremove with ⟨place, hchanged⟩ | ⟨rfl, hnone⟩
      · exact .removed hchanged
      · exact .missing hnone
  | prepare => cases ha
  | struck key text strike => cases ha
  | reload => cases ha
  | edit disk => cases ha

namespace Turned

variable {t : SchemaCache × Disk} {left : Option (Option CachedSchema)} (h : Turned key s left t)
include h

theorem directory : t.1.directory = s.1.directory := by
  cases h <;> rfl

/-- Only what is cached under the key is set or erased. -/
theorem get? (other : String) : t.1.entries.get? other = if key = other then left.getD (s.1.entries.get? other) else s.1.entries.get? other := by
  cases h with
  | failed => simp
  | saved _ => exact CachedSchemas.get?_insert ..
  | removed _ => exact CachedSchemas.get?_erase ..
  | missing _ => exact CachedSchemas.get?_erase ..

/-- Only the file of the key is written or removed. -/
theorem node? (place : List String) :
    t.2.node? place =
      if filePlace? s key = some place then left.elim (s.2.node? place) (Option.map fun e => .file e.text.toUTF8)
      else s.2.node? place := by
  have hplace : ∀ {found : List String}, s.2.walk (s.2.start s.1.directory) s.1.directory.parts = .ok found →
      filePlace? s key = some (found ++ [key ++ ".json"]) := by
    intro found hwalk
    rw [filePlace?, hwalk]
    rfl
  cases h with
  | failed => simp
  | saved hchanged => simp [hplace hchanged.before, hchanged.node]
  | removed hchanged => simp [hplace hchanged.before, hchanged.node]
  | missing hnone =>
    split
    · rename_i hfile
      obtain ⟨found, hwalk, rfl⟩ := Option.map_eq_some_iff.1 hfile
      exact hnone found (toOption_eq_some_iff.1 hwalk)
    · rfl

/-- The cache directory is found as before. -/
theorem filePlace? : filePlace? t other = filePlace? s other := by
  cases h with
  | failed => rfl
  | saved hchanged =>
    unfold SchemaCache.filePlace?
    simp only [hchanged.after]
  | removed hchanged =>
    unfold SchemaCache.filePlace?
    simp only [hchanged.after]
  | missing _ => rfl

/-- Another call goes well if and only if it did so before. -/
theorem left? (b : Action) : left? t b = left? s b := by
  have hcongr : ∀ {place : List String} {found : Option ByteArray} {disk : Disk} (entries : CachedSchemas),
      Disk.Changed s.1.directory place (key ++ ".json") found s.2 disk →
        SchemaCache.left? ({ s.1 with entries }, disk) b = SchemaCache.left? s b := by
    intro place found disk entries hchanged
    refine left?_congr (c := s.1) (d := s.2) ?_ ?_ ?_ b
    · rfl
    · exact fun _ hup => hchanged.locate_child hup
    · exact fun _ hup => hchanged.isDirectoryAt_child hup
  cases h with
  | failed => rfl
  | saved hchanged => exact hcongr _ hchanged
  | removed hchanged => exact hcongr _ hchanged
  | missing _ =>
    refine left?_congr (c := s.1) (d := s.2) ?_ ?_ ?_ b
    · rfl
    · exact fun _ _ => rfl
    · exact fun _ _ => rfl

theorem holdsFiles {place : List String} (hfiles : s.2.HoldsFiles s.1.directory place) : t.2.HoldsFiles s.1.directory place := by
  cases h with
  | failed => exact hfiles
  | saved hchanged => exact hchanged.holdsFiles hfiles
  | removed hchanged => exact hchanged.holdsFiles hfiles
  | missing _ => exact hfiles

end Turned

/-- In a directory with files only, a text is taken if it is a schema and there is room for the file of its key. -/
theorem left?_save_of_holdsFiles {place : List String} (hfiles : d.HoldsFiles c.directory place) (key text : String) :
    left? (c, d) (.save key text) = (taken? c.directory key text).map fun schema => some ⟨schema, text⟩ := by
  unfold left?
  cases htaken : taken? c.directory key text with
  | none =>
    obtain ⟨e, hsave⟩ := save_of_not_taken hfiles htaken
    simp only [hsave]
    rfl
  | some schema =>
    obtain ⟨d', hsave, -⟩ := save_of_taken hfiles htaken
    simp only [hsave]
    rfl

theorem left?_remove_of_holdsFiles {place : List String} (hfiles : d.HoldsFiles c.directory place) (key : String) :
    left? (c, d) (.remove key) = if hasFile c.directory key then some none else none := by
  unfold left?
  cases hfile : hasFile c.directory key with
  | false =>
    obtain ⟨e, hremove⟩ := remove_of_not_hasFile hfiles hfile
    simp only [hremove]
    rfl
  | true =>
    obtain ⟨d', hremove, -⟩ := remove_of_hasFile hfiles hfile
    simp only [hremove]
    rfl

/-! ### Two calls -/

/-- Two caches have the same directory, entries and files. -/
structure Same (s t : SchemaCache × Disk) : Prop where
  directory : s.1.directory = t.1.directory
  entries : s.1.entries.get? = t.1.entries.get?
  files : s.2.node? = t.2.node?

/-- Calls about different keys come to the same in either order. -/
theorem act_comm (ha : a.key? = some key) (hb : b.key? = some other) (hne : key ≠ other) :
    Same (act (act s a) b) (act (act s b) a) := by
  have hfirst := turned_act (s := s) ha
  have hfirst' := turned_act (s := s) hb
  have hsecond := turned_act (s := act s a) hb
  have hsecond' := turned_act (s := act s b) ha
  rw [hfirst.left?] at hsecond
  rw [hfirst'.left?] at hsecond'
  refine ⟨?_, ?_, ?_⟩
  · rw [hsecond.directory, hfirst.directory, hsecond'.directory, hfirst'.directory]
  · funext k
    rw [hsecond.get?, hfirst.get?, hsecond'.get?, hfirst'.get?]
    by_cases hkey : key = k
    · have hother : other ≠ k := fun heq => hne (hkey.trans heq.symm)
      simp [hkey, hother]
    · simp [hkey]
  · funext place
    rw [hsecond.node?, hfirst.node?, hsecond'.node?, hfirst'.node?, hfirst.filePlace?, hfirst'.filePlace?]
    by_cases hkey : filePlace? s key = some place
    · have hother : filePlace? s other ≠ some place := by
        intro heq
        obtain ⟨found, hfound, rfl⟩ := Option.map_eq_some_iff.1 hkey
        obtain ⟨found', hfound', hfile⟩ := Option.map_eq_some_iff.1 heq
        cases hfound.symm.trans hfound'
        have hname : other ++ ".json" = key ++ ".json" := List.singleton_inj.1 (List.append_cancel_left hfile)
        exact hne ((String.append_left_inj ".json").1 hname).symm
      rw [if_pos hkey, if_neg hother, if_neg hother, if_pos hkey]
    · rw [if_neg hkey, if_neg hkey]

/-- A call about one key that is made once more changes nothing. -/
theorem act_act (ha : a.key? = some key) : Same (act (act s a) a) (act s a) := by
  have hfirst := turned_act (s := s) ha
  have hsecond := turned_act (s := act s a) ha
  rw [hfirst.left?] at hsecond
  refine ⟨hsecond.directory, ?_, ?_⟩
  · funext k
    rw [hsecond.get?, hfirst.get?]
    split
    · cases left? s a <;> rfl
    · rfl
  · funext place
    rw [hsecond.node?, hfirst.node?, hfirst.filePlace?]
    split
    · cases left? s a <;> rfl
    · rfl

end TagTypes.SchemaCache
