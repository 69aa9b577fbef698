import Mathlib.Tactic
import TagTypes.Proofs.Disk.Sparing
import TagTypes.Proofs.TagStore.Batch

/-!
# Imports that fail

A provider with a folder writes the file of a definition before it takes the definition into its store, so a definition whose file cannot be written leaves no trace in the store, and none on the disk but directories; if the write was struck, its file has what the strike left. There is no way back behind the definitions before it: each of them was stored and has its file. So an import that fails ends where the import of these definitions alone would end, without a failure; and where none of them was stored, everything is as it was, but for the file of a struck write.
-/

namespace TagTypes.TagProvider

open Disk (Grown SameFiles Strike)

variable {p p' : TagProvider} {d d' : Disk} {base text folder : String} {policy : CollisionPolicy} {v : Json}
  {definitions : List Json} {strikes : List (Option Strike)} {e : ProviderError}

theorem withResult_eq_error {α : Type} {q : Quality} {rest : Except ProviderError (List Quality) × α} {after : α}
    (hfailed : withResult q rest = (.error e, after)) : rest = (.error e, after) := by
  obtain ⟨result, after'⟩ := rest
  cases result with
  | error other =>
    cases hfailed
    rfl
  | ok others => cases hfailed

/-- A file that is written under a strike would be written without it. -/
theorem keep_unstruck {path : String} {strike : Option Strike} (hkeep : keep p.folder path v strike d = (.ok (), d')) :
    keep p.folder path v none d = (.ok (), d') := by
  cases hfolder : p.folder with
  | none =>
    rw [hfolder] at hkeep
    exact hkeep
  | some root =>
    rw [hfolder] at hkeep
    obtain ⟨rfl, -⟩ := keep_ok hkeep
    exact hkeep

/-- The definition failed: it was to be stored, and it could not be copied or its file could not be written. -/
inductive Failed (p : TagProvider) (policy : CollisionPolicy) (folder : String) (strike : Option Strike) (v : Json) (d : Disk) :
    ProviderError → Disk → Prop where
  | uncopied {path : String} (hstore : p.tags.admission policy folder v = .store path) (hdeep : Tags.isCopyable v = false) :
      Failed p policy folder strike v d .tooDeepToCopy d
  | unwritten {path : String} {e : ProviderError} {d' : Disk} (hstore : p.tags.admission policy folder v = .store path)
      (hkeep : keep p.folder path v strike d = (.error e, d')) : Failed p policy folder strike v d e d'

/-- What a definition that failed leaves on the disk: the same files, but for its own where the write was struck, which has what the strike left of its text. -/
def Leaves (p : TagProvider) (policy : CollisionPolicy) (folder : String) (strike : Option Strike) (v : Json) (d d' : Disk) : Prop :=
  SameFiles d d' ∨ ∃ s root path between, strike = some s ∧ p.folder = some root ∧ p.tags.admission policy folder v = .store path ∧
    SameFiles d between ∧ Disk.writeFile (fileFor root path) (s.left v.indentedText.toUTF8) between = (.ok (), d')

theorem Leaves.sameFiles (h : Leaves p policy folder none v d d') : SameFiles d d' := by
  obtain hsame | ⟨s, root, path, between, hnone, -⟩ := h
  · exact hsame
  · cases hnone

theorem Failed.leaves {strike : Option Strike} (h : Failed p policy folder strike v d e d') :
    Leaves p policy folder strike v d d' := by
  cases h with
  | uncopied => exact Or.inl fun _ _ => Iff.rfl
  | @unwritten path e d' hstore hkeep =>
    cases hfolder : p.folder with
    | none =>
      rw [hfolder] at hkeep
      cases hkeep
    | some root =>
      rw [hfolder] at hkeep
      rcases keep_error hkeep with ⟨-, hgrown⟩ | ⟨-, s, between, hs, hgrown, hwrite⟩
      · exact Or.inl hgrown.sameFiles
      · exact Or.inr ⟨s, root, path, between, hs, hfolder, hstore, hgrown.sameFiles, hwrite⟩

/-- The definitions before the one that failed are imported without a failure, and nothing is done about those after it. -/
theorem importAll_failed (hfailed : p.importAll policy folder d strikes definitions = (.error e, p', d')) :
    ∃ before v after qualities d₁, definitions = before ++ v :: after ∧
      p.importAll policy folder d [] before = (.ok qualities, p', d₁) ∧
      Failed p' policy folder strikes[before.length]?.join v d₁ e d' := by
  induction definitions generalizing p d strikes with
  | nil => cases hfailed
  | cons v rest ih =>
    rcases importAll_cons_cases p policy folder d strikes v rest with
      ⟨q, hadmission, heq⟩ | ⟨path, hadmission, ⟨hdeep, heq⟩ | ⟨hcopyable, ⟨other, d₂, hkeep, heq⟩ | ⟨d₂, hkeep, heq⟩⟩⟩
    · rw [heq] at hfailed
      obtain ⟨before, w, after, qualities, d₁, rfl, hbefore, hw⟩ := ih (withResult_eq_error hfailed)
      refine ⟨v :: before, w, after, q :: qualities, d₁, rfl, ?_, by simpa using hw⟩
      rw [importAll_cons_settled hadmission, List.tail_nil, hbefore]
      rfl
    · cases heq.symm.trans hfailed
      exact ⟨[], v, rest, [], _, rfl, rfl, .uncopied hadmission hdeep⟩
    · cases heq.symm.trans hfailed
      rw [List.head?_eq_getElem?] at hkeep
      exact ⟨[], v, rest, [], d, rfl, rfl, .unwritten hadmission hkeep⟩
    · rw [heq] at hfailed
      obtain ⟨before, w, after, qualities, d₁, rfl, hbefore, hw⟩ := ih (withResult_eq_error hfailed)
      have hunstruck : keep p.folder path v ([] : List (Option Strike)).head?.join d = (.ok (), d₂) := keep_unstruck hkeep
      refine ⟨v :: before, w, after, .good :: qualities, d₁, rfl, ?_, by simpa using hw⟩
      rw [importAll_cons_store hadmission hcopyable hunstruck, List.tail_nil, hbefore]
      rfl

/-- Definitions that are left aside change nothing. -/
theorem importAll_settled (hsettled : ∀ v ∈ definitions, ∃ q, p.tags.admission policy folder v = .settled q) (d : Disk) :
    ∃ qualities, p.importAll policy folder d [] definitions = (.ok qualities, p, d) := by
  induction definitions with
  | nil => exact ⟨[], rfl⟩
  | cons v rest ih =>
    obtain ⟨⟨q, hq⟩, hrest⟩ := List.forall_mem_cons.1 hsettled
    obtain ⟨qualities, himport⟩ := ih hrest
    refine ⟨q :: qualities, ?_⟩
    rw [importAll_cons_settled hq, List.tail_nil, himport]
    rfl

/-- The definitions before another one in a text can be written as a text of their own. -/
theorem readDefinitions_before {before after : List Json} (hread : readDefinitions text = .ok (before ++ v :: after)) :
    readDefinitions (Json.arr before).compactText = .ok before := by
  have hitems : ∃ items : List Json, (∀ w ∈ before, w ∈ items) ∧ Json.Legible Json.maxDepth (.arr items) := by
    unfold readDefinitions at hread
    split at hread
    · cases hread
    · cases hread
    · -- an object is one definition, and there are none before it
      have hone := Except.ok.inj hread
      cases before with
      | nil => exact ⟨[], nofun, .arr nofun⟩
      | cons w rest => simp at hone
    · rename_i items htext
      cases hread
      exact ⟨_, fun w hw => List.mem_append_left _ hw, Json.legible_of_read htext⟩
    · cases hread
  obtain ⟨items, hmem, hlegible⟩ := hitems
  cases hlegible with
  | arr hall => exact readDefinitions_of_read (Json.Legible.arr fun w hw => hall w (hmem w hw)).read_compactText

theorem exists_error_of_isOk_eq_false {answer : Except ProviderError (List Quality) × TagProvider × Disk}
    (hfailed : answer.1.isOk = false) : ∃ e, answer = (.error e, answer.2.1, answer.2.2) := by
  obtain ⟨result, after⟩ := answer
  cases result with
  | ok qualities => cases hfailed
  | error e => exact ⟨e, rfl⟩

/-- A disk on which a file is where the provider would need the directory `b`. -/
def blocked : Disk := Disk.set (Disk.set {} ["tags"] .directory) ["tags", "b"] (.file "".toUTF8)

/-- A number, which is no definition, and a definition. -/
def followed : String := (Json.arr [.int 1, rated (.str "T") 0]).compactText

def stopped : Except ProviderError (List Quality) × TagProvider × Disk := opened.importTags "b" followed .overwrite blocked

/-- A definition, and another one with a null character in its name. -/
def nulled : String := (Json.arr [rated (.str "A") 0, rated (.str "\x00") 0]).compactText

def broken : Except ProviderError (List Quality) × TagProvider × Disk := opened.importTags "" nulled .overwrite {}

/-- The provider after the definition `T` was stored, and then an import of half a surrogate pair for its path. -/
def storing : Except ProviderError (List Quality) × TagProvider × Disk :=
  opened.importTags "" (Json.arr [rated (.str "T") 0]).compactText .overwrite {}

def emptying : Except ProviderError (List Quality) × TagProvider × Disk :=
  storing.2.1.importTags "" "\x7b\"name\": \"T\", \"tagType\": \"\\ud800\"\x7d" .overwrite storing.2.2

/-- The definitions of the provider are in step with its files after the definition `T` was stored. -/
theorem mirrored_storing : Mirrored storing.2.1 ⟨.here, ["tags"]⟩ storing.2.2 [] := by
  have hlegible : Json.Legible 3 (.arr [rated (.str "T") 0]) :=
    .arr (List.forall_mem_singleton.2 (legible_rated (.str _) (by decide)))
  have hread : readDefinitions (Json.arr [rated (.str "T") 0]).compactText = .ok [rated (.str "T") 0] :=
    readDefinitions_of_read (hlegible.mono (by decide)).read_compactText
  have hbare : Mirrored opened ⟨.here, ["tags"]⟩ {} [] := mirrored_bare (Disk.bare_empty _) []
  have hanswered := answered_importAll hbare .overwrite (show ∀ dir ∈ TagPath.segments "", dir ≠ "." ∧ dir ≠ ".." by decide +kernel)
    (legible_of_readDefinitions hread) []
  have hcut : opened.cutByImport .overwrite (TagPath.normalize "") {} [] [] [rated (.str "T") 0] = [] :=
    List.subset_nil.1 (cutByImport_subset rfl (Or.inl nofun))
  rw [hcut] at hanswered
  rw [storing, importTags_of_readDefinitions hread (Json.hasLoneHalf_compactText _)]
  exact hanswered.mirrored

end TagTypes.TagProvider
