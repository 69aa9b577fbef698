import Mathlib.Tactic
import TagTypes.Proofs.Disk.Sparing
import TagTypes.Proofs.Json.Legible
import TagTypes.Proofs.TagStore.File
import TagTypes.TagStore.Replay

/-!
# Definitions in step with their files

If only the provider works in its folder, and no files were there at first, then the files below the folder are at all times those of the stored definitions, each with the text of its definition. A call that fails on the way has written or removed the files of the definitions before, and these are in the store or gone from it; directories that were made for the next one have no files in them. Only a write that was struck leaves a file that is cut: it has a beginning of a text, until the definition at its path is stored or removed.
-/

namespace TagTypes

open TagPath (Filed)

/-- The call imports into no folder called like a way to stay or to go up, and no string in its text has half a surrogate pair in it. -/
def TagCall.IsPlain : TagCall → Prop
  | .importTags base text _ => (∀ dir ∈ TagPath.segments base, dir ≠ "." ∧ dir ≠ "..") ∧ Json.hasLoneHalf text = false
  | .removeTags _ => True

instance : DecidablePred TagCall.IsPlain
  | .importTags base text _ =>
    inferInstanceAs (Decidable ((∀ dir ∈ TagPath.segments base, dir ≠ "." ∧ dir ≠ "..") ∧ Json.hasLoneHalf text = false))
  | .removeTags _ => inferInstanceAs (Decidable True)

namespace TagProvider

open Disk (Grown Changed Strike)

variable {p : TagProvider} {folder : FilePath} {d d' : Disk} {place dirs cut : List String} {path name base : String} {v : Json}

/-! ### What calls do to the disk -/

theorem onDisk_eq {action : DiskAction Unit} {error : ProviderError} {outcome : Except ProviderError Unit}
    (haction : onDisk action error d = (outcome, d')) :
    ∃ result, action d = (result, d') ∧ (outcome = .ok () ↔ result = .ok ()) := by
  unfold onDisk at haction
  rcases hresult : action d with ⟨result, d₁⟩
  rw [hresult] at haction
  cases result with
  | ok u =>
    cases haction
    exact ⟨.ok u, rfl, by simp⟩
  | error fault =>
    refine ⟨.error fault, ?_, ?_⟩
    · cases fault <;> cases haction <;> rfl
    · cases fault <;> cases haction <;> simp

/-- The file of a definition is written when directories above it were made, or these could not be made. -/
theorem keep_cases {strike : Option Strike} {outcome : Except ProviderError Unit}
    (hkeep : keep (some folder) path v strike d = (outcome, d')) :
    ∃ d₁, Grown d d₁ ∧
      ((∃ e, outcome = .error e) ∧ d₁ = d' ∧ (∀ other, keep (some folder) path v other d = (outcome, d')) ∨
        ∀ other, keep (some folder) path v other d =
          onDisk (Disk.writeTextUnder other (fileFor folder path) v.indentedText) (.writeFailed (fileFor folder path)) d₁) := by
  have hgrown := (Disk.makes_ensureDirectories (fileFor folder path).parent d).grown
  rcases hmake : Disk.ensureDirectories (fileFor folder path).parent d with ⟨fault | ⟨⟩, d₁⟩
  · rw [hmake] at hgrown
    have hbind : ∀ other, (do
        Disk.ensureDirectories (fileFor folder path).parent
        Disk.writeTextUnder other (fileFor folder path) v.indentedText : DiskAction Unit) d = (.error fault, d₁) := fun other => by
      rw [Disk.bind_apply, hmake]
    have hsame : ∀ other, keep (some folder) path v other d = keep (some folder) path v strike d := fun other => by
      simp only [keep, onDisk, hbind]
    obtain ⟨result, haction, hiff⟩ := onDisk_eq hkeep
    rw [hbind] at haction
    cases haction
    refine ⟨d', hgrown, Or.inl ⟨?_, rfl, fun other => (hsame other).trans hkeep⟩⟩
    cases outcome with
    | ok u => cases hiff.1 rfl
    | error e => exact ⟨e, rfl⟩
  · rw [hmake] at hgrown
    have hbind : ∀ other, (do
        Disk.ensureDirectories (fileFor folder path).parent
        Disk.writeTextUnder other (fileFor folder path) v.indentedText : DiskAction Unit) d =
          Disk.writeTextUnder other (fileFor folder path) v.indentedText d₁ := fun other => by
      rw [Disk.bind_apply, hmake]
    exact ⟨d₁, hgrown, Or.inr fun other => by simp only [keep, onDisk, hbind]⟩

/-- A definition is kept or not by the way to its file alone: a strike lets fail what would have gone well, and leaves a beginning of the text in the file. -/
theorem keep_error {strike : Option Strike} {e : ProviderError} (hkeep : keep (some folder) path v strike d = (.error e, d')) :
    keep (some folder) path v none d = (.error e, d') ∧ Grown d d' ∨
      (keep (some folder) path v none d).1 = .ok () ∧ ∃ s between, strike = some s ∧ Grown d between ∧
        Disk.writeFile (fileFor folder path) (s.left v.indentedText.toUTF8) between = (.ok (), d') := by
  obtain ⟨d₁, hgrown, ⟨-, rfl, hsame⟩ | hwrites⟩ := keep_cases hkeep
  · exact Or.inl ⟨hsame none, hgrown⟩
  · rw [hwrites] at hkeep ⊢
    obtain ⟨result, haction, hiff⟩ := onDisk_eq hkeep
    cases strike with
    | none =>
      left
      refine ⟨hkeep, ?_⟩
      cases result with
      | ok u => cases hiff.2 rfl
      | error fault =>
        obtain rfl := Disk.writeText_error haction
        exact hgrown
    | some s =>
      rcases Disk.writeTextUnder_some haction with ⟨fault, hplain, rfl, rfl⟩ | ⟨hplain, rfl, hcut⟩
      · refine Or.inl ⟨?_, hgrown⟩
        rw [← hkeep]
        simp only [onDisk, haction, Disk.writeTextUnder_none, hplain]
      · refine Or.inr ⟨?_, s, d₁, rfl, hgrown, hcut⟩
        rcases hwrite : Disk.writeText (fileFor folder path) v.indentedText d₁ with ⟨written, d₂⟩
        rw [hwrite] at hplain
        cases hplain
        simp only [onDisk, Disk.writeTextUnder_none, hwrite]

/-- A kept definition is written to its file, and nothing strikes the write. -/
theorem keep_ok {strike : Option Strike} (hkeep : keep (some folder) path v strike d = (.ok (), d')) :
    strike = none ∧ ∃ d₁, Grown d d₁ ∧ Disk.writeText (fileFor folder path) v.indentedText d₁ = (.ok (), d') := by
  obtain ⟨d₁, hgrown, ⟨⟨e, he⟩, -, -⟩ | hwrites⟩ := keep_cases hkeep
  · cases he
  · rw [hwrites] at hkeep
    obtain ⟨result, haction, hiff⟩ := onDisk_eq hkeep
    cases hiff.1 rfl
    cases strike with
    | none => exact ⟨rfl, d₁, hgrown, haction⟩
    | some s =>
      rcases Disk.writeTextUnder_some haction with ⟨fault, -, hfault, -⟩ | ⟨-, hfault, -⟩
      · cases hfault
      · cases hfault

/-- A file that is there is gone once its definition is discarded; else nothing changes. -/
theorem discard_disk (hfiled : Filed path dirs name) {target : List String}
    (hstatus : d.status (folder.descend dirs) = .ok (target, .directory)) (hthere : d.node? (target ++ [name ++ ".json"]) ≠ none)
    {outcome : Except ProviderError Unit} (hdiscard : discard (some folder) path d = (outcome, d')) :
    match outcome with
    | .ok _ => ∃ target, Changed (folder.descend dirs) target (name ++ ".json") none d d'
    | .error _ => d' = d := by
  simp only [discard, hfiled.fileFor_eq] at hdiscard
  obtain ⟨result, haction, hiff⟩ := onDisk_eq hdiscard
  rcases Disk.removeFileIfThere_cases haction with ⟨hok, target', hchanged⟩ | ⟨hsame, hnone⟩
  · cases hiff.2 hok
    exact ⟨target', hchanged⟩
  · cases outcome with
    | error e => exact hsame
    | ok u => exact absurd (hnone (hiff.1 rfl) target (Disk.walk_of_status hstatus).1) hthere

/-! ### The files of a provider that works alone -/

/-- The file of the definition at a path, as a place relative to the folder. -/
def IsFileOf (path : String) (below : List String) : Prop :=
  ∃ dirs name, Filed path dirs name ∧ below = dirs ++ [name ++ ".json"]

theorem isFileOf_iff {other : String} {below above : List String} (hpath : IsFileOf path below) (hother : IsFileOf other above) :
    path = other ↔ below = above := by
  obtain ⟨dirs, name, hfiled, rfl⟩ := hpath
  obtain ⟨dirs', name', hfiled', rfl⟩ := hother
  exact hfiled.path_eq_iff hfiled'

/-- What the file of a path holds: the text of the definition that is stored there, from which it can be read again; where the file is cut, the beginning of such a text. -/
def HoldsAt (tags : Tags) (cut : List String) (path : String) (content : ByteArray) : Prop :=
  if path ∈ cut then ∃ v kept, Json.Legible Json.maxDepth v ∧ content = v.indentedText.toUTF8.extract 0 kept
  else ∃ v, tags.get? path = some v ∧ Json.Legible Json.maxDepth v ∧ content = v.indentedText.toUTF8

/-- Each stored definition has its file, and each file below the folder is that of a path and holds what it should. -/
structure Mirrored (p : TagProvider) (folder : FilePath) (d : Disk) (cut : List String) : Prop where
  keeps : p.folder = some folder
  stored : ∀ path v, p.tags.get? path = some v → ∃ dirs name target, Filed path dirs name ∧
    d.status (folder.descend dirs) = .ok (target, .directory) ∧ (d.content? (target ++ [name ++ ".json"])).isSome = true
  held : ∀ below content, d.content? (d.placeOf folder ++ below) = some content →
    ∃ path, IsFileOf path below ∧ HoldsAt p.tags cut path content

theorem mirrored_bare (hbare : d.Bare folder) (cut : List String) : Mirrored { name, folder := some folder } folder d cut where
  keeps := rfl
  stored path v h := by cases h
  held below content h := absurd (Disk.content?_eq_some_iff.1 h) (hbare below content)

/-- Where names lead down from the folder, and from there to a file. -/
theorem place_eq_of_status {target : List String} (hfiled : Filed path dirs name)
    (hstatus : d.status (folder.descend dirs) = .ok (target, .directory)) :
    target ++ [name ++ ".json"] = d.placeOf folder ++ (dirs ++ [name ++ ".json"]) := by
  rw [Disk.eq_placeOf_of_status hstatus, Disk.placeOf_descend hfiled.notMem_up, List.append_assoc]

namespace Mirrored

variable (h : Mirrored p folder d cut)
include h

theorem mono (hgrown : Grown d d') : Mirrored p folder d' cut := by
  have hcontent : ∀ place, d'.content? place = d.content? place := fun place => Disk.content?_congr fun _ => hgrown.node?_file_iff
  refine ⟨h.keeps, fun path v hpath => ?_, fun below content hfound => ?_⟩
  · obtain ⟨dirs, name, target, hfiled, hstatus, hthere⟩ := h.stored path v hpath
    exact ⟨dirs, name, target, hfiled, hgrown.status hstatus, by rw [hcontent, hthere]⟩
  · rw [Disk.placeOf_congr hgrown.workingDirectory, hcontent] at hfound
    exact h.held below content hfound

/-- What is stored at one path changes together with the file of this path. -/
theorem changed (hfiled : Filed path dirs name) {target : List String} {found : Option ByteArray}
    (hchanged : Changed (folder.descend dirs) target (name ++ ".json") found d d') {tags : Tags} {cut' : List String}
    (hstored : (tags.get? path).isSome = true → found.isSome = true)
    (hholds : ∀ content, found = some content → HoldsAt tags cut' path content)
    (hothers : ∀ other, path ≠ other → tags.get? other = p.tags.get? other ∧ (other ∈ cut' ↔ other ∈ cut)) :
    Mirrored { p with tags } folder d' cut' := by
  have hplace := place_eq_of_status hfiled hchanged.status_before
  refine ⟨h.keeps, fun other v hother => ?_, fun below content hfound => ?_⟩
  · by_cases hsame : path = other
    · subst hsame
      refine ⟨dirs, name, target, hfiled, hchanged.status_after, ?_⟩
      rw [hchanged.content?, if_pos rfl]
      exact hstored (by rw [hother]; rfl)
    · rw [(hothers other hsame).1] at hother
      obtain ⟨dirs', name', target', hfiled', hstatus, hthere⟩ := h.stored other v hother
      refine ⟨dirs', name', target', hfiled', hchanged.status hstatus, ?_⟩
      rw [hchanged.content?, if_neg, hthere]
      rw [hplace, place_eq_of_status hfiled' hstatus, List.append_cancel_left_eq, ← hfiled.path_eq_iff hfiled']
      exact hsame
  · rw [Disk.placeOf_congr hchanged.workingDirectory, hchanged.content?] at hfound
    have hsame : target ++ [name ++ ".json"] = d.placeOf folder ++ below ↔ dirs ++ [name ++ ".json"] = below := by
      rw [hplace, List.append_cancel_left_eq]
    by_cases hbelow : dirs ++ [name ++ ".json"] = below
    · rw [if_pos (hsame.2 hbelow)] at hfound
      exact ⟨path, ⟨dirs, name, hfiled, hbelow.symm⟩, hholds content hfound⟩
    · rw [if_neg fun heq => hbelow (hsame.1 heq)] at hfound
      obtain ⟨other, hfile, hcontent⟩ := h.held below content hfound
      have hne : path ≠ other := fun heq => hbelow ((isFileOf_iff ⟨dirs, name, hfiled, rfl⟩ hfile).1 heq)
      refine ⟨other, hfile, ?_⟩
      simp only [HoldsAt, hothers other hne]
      exact hcontent

theorem put (hfiled : Filed path dirs name) {target : List String} (hv : Json.Legible Json.maxDepth v)
    (hchanged : Changed (folder.descend dirs) target (name ++ ".json") (some v.indentedText.toUTF8) d d') :
    Mirrored { p with tags := p.tags.insert path v } folder d' (cut.filter (· ≠ path)) := by
  refine h.changed hfiled hchanged (fun _ => rfl) (fun content hcontent => ?_) fun other hne => ?_
  · rw [HoldsAt, if_neg (by simp)]
    exact ⟨v, by rw [Dict.get?_insert, if_pos rfl], hv, (Option.some.inj hcontent).symm⟩
  · simp [Dict.get?_insert, hne, Ne.symm hne]

theorem erased (hfiled : Filed path dirs name) {target : List String}
    (hchanged : Changed (folder.descend dirs) target (name ++ ".json") none d d') :
    Mirrored { p with tags := p.tags.erase path } folder d' (cut.filter (· ≠ path)) := by
  refine h.changed hfiled hchanged (fun hsome => ?_) nofun fun other hne => ?_
  · rw [Dict.get?_erase, if_pos rfl] at hsome
    cases hsome
  · simp [Dict.get?_erase, hne, Ne.symm hne]

/-- After a struck write the file is cut, and the store is as before. -/
theorem struck (hfiled : Filed path dirs name) {target : List String} {s : Strike} (hv : Json.Legible Json.maxDepth v)
    (hchanged : Changed (folder.descend dirs) target (name ++ ".json") (some (s.left v.indentedText.toUTF8)) d d') :
    Mirrored p folder d' (path :: cut) := by
  refine h.changed hfiled hchanged (fun _ => rfl) (fun content hcontent => ?_) fun other hne => ?_
  · obtain ⟨kept, hkept⟩ := s.exists_left_eq v.indentedText.toUTF8
    rw [HoldsAt, if_pos List.mem_cons_self]
    exact ⟨v, kept, hv, (Option.some.inj hcontent).symm.trans hkept⟩
  · simp [Ne.symm hne]

/-- The file of a stored definition is there, in its directory. -/
theorem exists_file (hpath : p.tags.get? path = some v) : ∃ dirs name target content, Filed path dirs name ∧
    d.status (folder.descend dirs) = .ok (target, .directory) ∧
    d.node? (target ++ [name ++ ".json"]) = some (.file content) := by
  obtain ⟨dirs, name, target, hfiled, hstatus, hthere⟩ := h.stored path v hpath
  obtain ⟨content, hcontent⟩ := Option.isSome_iff_exists.1 hthere
  exact ⟨dirs, name, target, content, hfiled, hstatus, Disk.content?_eq_some_iff.1 hcontent⟩

/-- Where there is no folder, nothing is stored. -/
theorem tags_eq_empty (hnone : ∀ place, d.status folder ≠ .ok (place, .directory)) : p.tags = ∅ :=
  Dict.eq_empty_of_get? fun path => by
    cases hpath : p.tags.get? path with
    | none => rfl
    | some v =>
      obtain ⟨dirs, name, target, content, hfiled, htarget, -⟩ := h.exists_file hpath
      obtain ⟨place, hstatus, -⟩ := Disk.status_above hfiled.notMem_up htarget
      exact absurd hstatus (hnone place)

end Mirrored

/-! ### Calls -/

section Import

variable {policy : CollisionPolicy} {directory : String}

theorem importAll_cons_settled {q : Quality} (hadmission : p.tags.admission policy directory v = .settled q) (d : Disk)
    (strikes : List (Option Strike)) (rest : List Json) :
    p.importAll policy directory d strikes (v :: rest) = withResult q (p.importAll policy directory d strikes.tail rest) := by
  rw [importAll, hadmission]

theorem importAll_cons_store (hadmission : p.tags.admission policy directory v = .store path)
    (hcopyable : Tags.isCopyable v = true) {strikes : List (Option Strike)}
    (hkeep : keep p.folder path v strikes.head?.join d = (.ok (), d')) (rest : List Json) :
    p.importAll policy directory d strikes (v :: rest) =
      withResult .good (importAll { p with tags := p.tags.insert path v } policy directory d' strikes.tail rest) := by
  rw [importAll, hadmission]
  simp only [hcopyable, hkeep, if_true]

/-- The first definition is settled, or it is to be stored. Then it cannot be copied, or its file cannot be written, or it is stored. Only where it is settled or stored, those after it are imported. -/
theorem importAll_cons_cases (p : TagProvider) (policy : CollisionPolicy) (directory : String) (d : Disk)
    (strikes : List (Option Strike)) (v : Json) (rest : List Json) :
    (∃ q, p.tags.admission policy directory v = .settled q ∧
      p.importAll policy directory d strikes (v :: rest) = withResult q (p.importAll policy directory d strikes.tail rest)) ∨
    ∃ path, p.tags.admission policy directory v = .store path ∧
      (Tags.isCopyable v = false ∧ p.importAll policy directory d strikes (v :: rest) = (.error .tooDeepToCopy, p, d) ∨
      Tags.isCopyable v = true ∧
        ((∃ e d', keep p.folder path v strikes.head?.join d = (.error e, d') ∧
          p.importAll policy directory d strikes (v :: rest) = (.error e, p, d')) ∨
        ∃ d', keep p.folder path v strikes.head?.join d = (.ok (), d') ∧
          p.importAll policy directory d strikes (v :: rest) =
            withResult .good (importAll { p with tags := p.tags.insert path v } policy directory d' strikes.tail rest))) := by
  cases hadmission : p.tags.admission policy directory v with
  | settled q => exact Or.inl ⟨q, rfl, importAll_cons_settled hadmission d strikes rest⟩
  | store path =>
    refine Or.inr ⟨path, rfl, ?_⟩
    cases hcopyable : Tags.isCopyable v with
    | false =>
      refine Or.inl ⟨rfl, ?_⟩
      rw [importAll, hadmission]
      simp only [hcopyable, Bool.false_eq_true, if_false]
    | true =>
      refine Or.inr ⟨rfl, ?_⟩
      rcases hkeep : keep p.folder path v strikes.head?.join d with ⟨e | ⟨⟩, d'⟩
      · refine Or.inl ⟨e, d', rfl, ?_⟩
        rw [importAll, hadmission]
        simp only [hcopyable, hkeep, if_true]
      · exact Or.inr ⟨d', rfl, importAll_cons_store hadmission hcopyable hkeep rest⟩

end Import

/-- The paths whose files are cut after an import. A struck write cuts the file of its definition, if it would have gone well without the strike; where a definition is stored, its file is not cut. -/
def cutByImport (p : TagProvider) (policy : CollisionPolicy) (folder : String) (disk : Disk) (cut : List String) :
    List (Option Strike) → List Json → List String
  | _, [] => cut
  | strikes, v :: rest =>
    match p.tags.admission policy folder v with
    | .settled _ => cutByImport p policy folder disk cut strikes.tail rest
    | .store path =>
      if Tags.isCopyable v then
        match keep p.folder path v none disk, strikes.head?.join with
        | (.error _, _), _ => cut
        | (.ok _, _), some _ => path :: cut
        | (.ok _, disk), none =>
          cutByImport { p with tags := p.tags.insert path v } policy folder disk (cut.filter (· ≠ path)) strikes.tail rest
      else cut

/-- The paths whose files are cut after a removal: a removed definition has no file any more. -/
def cutByRemoval (p : TagProvider) (disk : Disk) (cut : List String) : List String → List String
  | [] => cut
  | path :: rest =>
    let path := TagPath.normalize path
    if p.tags.contains path then
      match discard p.folder path disk with
      | (.error _, _) => cut
      | (.ok _, disk) => cutByRemoval { p with tags := p.tags.erase path } disk (cut.filter (· ≠ path)) rest
    else cutByRemoval p disk cut rest

/-- What becomes of a provider that answers: it is in step with its files. If it does not fail, then the disk is as before or the folder is there. -/
structure Answered (folder : FilePath) (d : Disk) (cut : List String)
    (outcome : Except ProviderError (List Quality) × TagProvider × Disk) : Prop where
  mirrored : Mirrored outcome.2.1 folder outcome.2.2 cut
  settled : ∀ qualities, outcome.1 = .ok qualities →
    outcome.2.2 = d ∨ ∃ place, outcome.2.2.status folder = .ok (place, .directory)

theorem ok_of_withResult {α : Type} {q : Quality} {rest : Except ProviderError (List Quality) × α} {qualities : List Quality}
    (hok : (withResult q rest).1 = .ok qualities) : ∃ others, rest.1 = .ok others := by
  obtain ⟨result, after⟩ := rest
  cases result with
  | error e => cases hok
  | ok others => exact ⟨others, rfl⟩

namespace Answered

variable {outcome : Except ProviderError (List Quality) × TagProvider × Disk}

theorem withResult (h : Answered folder d cut outcome) (q : Quality) :
    Answered folder d cut (TagProvider.withResult q outcome) where
  mirrored := h.mirrored
  settled qualities hok := by
    obtain ⟨others, hothers⟩ := ok_of_withResult hok
    exact h.settled others hothers

theorem of_status (h : Answered folder d' cut outcome) (hstatus : d'.status folder = .ok (place, .directory)) :
    Answered folder d cut outcome where
  mirrored := h.mirrored
  settled qualities hok := by
    rcases h.settled qualities hok with hsame | hthere
    · rw [hsame]
      exact Or.inr ⟨place, hstatus⟩
    · exact Or.inr hthere

theorem failed (h : Mirrored p folder d' cut) (e : ProviderError) : Answered folder d cut (.error e, p, d') where
  mirrored := h
  settled _ hok := by cases hok

theorem unchanged (h : Mirrored p folder d cut) (result : Except ProviderError (List Quality)) :
    Answered folder d cut (result, p, d) where
  mirrored := h
  settled _ _ := Or.inl rfl

end Answered

theorem answered_importAll (h : Mirrored p folder d cut) (policy : CollisionPolicy)
    (hbase : ∀ dir ∈ TagPath.segments base, dir ≠ "." ∧ dir ≠ "..") {definitions : List Json}
    (hdefinitions : ∀ v ∈ definitions, Json.Legible Json.maxDepth v) (strikes : List (Option Strike)) :
    Answered folder d (p.cutByImport policy (TagPath.normalize base) d cut strikes definitions)
      (p.importAll policy (TagPath.normalize base) d strikes definitions) := by
  induction definitions generalizing p d cut strikes with
  | nil => exact .unchanged h _
  | cons v rest ih =>
    rw [List.forall_mem_cons] at hdefinitions
    rw [cutByImport]
    rcases importAll_cons_cases p policy (TagPath.normalize base) d strikes v rest with
      ⟨q, hadmission, heq⟩ | ⟨path, hadmission, hstore⟩
    · simp only [heq, hadmission]
      exact (ih h hdefinitions.2 _).withResult q
    · obtain ⟨name, hname, rfl⟩ := Tags.isName_of_admission hadmission
      have hfiled := TagPath.filed_inFolder hbase hname
      rcases hstore with ⟨hdeep, heq⟩ | ⟨hcopyable, ⟨e, d', hkeep, heq⟩ | ⟨d', hkeep, heq⟩⟩
      · simp only [heq, hadmission, hdeep, Bool.false_eq_true, if_false]
        exact .failed h _
      · simp only [heq, hadmission, hcopyable, if_true]
        rw [h.keeps] at hkeep
        rcases keep_error hkeep with ⟨hplain, hgrown⟩ | ⟨hplain, s, between, hs, hgrown, hwrite⟩
        · -- the directories that were made have no files in them
          rw [← h.keeps] at hplain
          simp only [hplain]
          exact .failed (h.mono hgrown) e
        · rw [hfiled.fileFor_eq] at hwrite
          obtain ⟨target, hchanged⟩ := Disk.written_of_writeFile hwrite
          rw [← h.keeps] at hplain
          rcases hunstruck : keep p.folder (TagPath.inFolder (TagPath.normalize base) name) v none d with ⟨kept, after⟩
          rw [hunstruck] at hplain
          cases hplain
          simp only [hs]
          exact .failed ((h.mono hgrown).struck hfiled hdefinitions.1 hchanged) e
      · simp only [heq, hadmission, hcopyable, if_true]
        have hkept := hkeep
        rw [h.keeps] at hkept
        obtain ⟨hs, d₁, hgrown, hwrite⟩ := keep_ok hkept
        rw [hfiled.fileFor_eq] at hwrite
        obtain ⟨target, hchanged⟩ := Disk.written_of_writeText hwrite
        rw [hs] at hkeep
        simp only [hs, hkeep]
        obtain ⟨place, hstatus, -⟩ := Disk.status_above hfiled.notMem_up hchanged.status_after
        have hstored := (h.mono hgrown).put hfiled hdefinitions.1 hchanged
        exact ((ih hstored hdefinitions.2 _).withResult .good).of_status hstatus

/-- If no write is struck, or the import does not fail, then it cuts no files. -/
theorem cutByImport_subset (hfolder : p.folder = some folder) {policy : CollisionPolicy} {base : String} {definitions : List Json}
    {strikes : List (Option Strike)} (hwhole : (∀ strike ∈ strikes, strike = none) ∨
      ∃ qualities, (p.importAll policy base d strikes definitions).1 = .ok qualities) :
    p.cutByImport policy base d cut strikes definitions ⊆ cut := by
  induction definitions generalizing p d cut strikes with
  | nil => exact List.Subset.refl _
  | cons v rest ih =>
    have htail : (∀ strike ∈ strikes, strike = none) → ∀ strike ∈ strikes.tail, strike = none :=
      fun hnone strike hstrike => hnone strike (List.mem_of_mem_tail hstrike)
    rw [importAll] at hwhole
    rw [cutByImport]
    cases hadmission : p.tags.admission policy base v with
    | settled q =>
      simp only [hadmission] at hwhole
      exact ih hfolder (hwhole.imp htail fun ⟨qualities, hok⟩ => ok_of_withResult hok)
    | store path =>
      simp only [hadmission] at hwhole ⊢
      split
      · rename_i hcopyable
        rw [if_pos hcopyable] at hwhole
        rcases hplain : keep p.folder path v none d with ⟨e | ⟨⟩, d₁⟩
        · exact List.Subset.refl _
        · cases hhead : strikes.head?.join with
          | none =>
            simp only [hhead, hplain] at hwhole ⊢
            have hafter : { p with tags := p.tags.insert path v }.folder = some folder := hfolder
            refine List.Subset.trans (ih hafter ?_) List.filter_sublist.subset
            exact hwhole.imp htail fun ⟨qualities, hok⟩ => ok_of_withResult hok
          | some s =>
            exfalso
            rcases hwhole with hnone | ⟨qualities, hok⟩
            · cases strikes with
              | nil => cases hhead
              | cons strike others =>
                rw [hnone strike List.mem_cons_self] at hhead
                cases hhead
            · rcases hkeep : keep p.folder path v (some s) d with ⟨e | ⟨⟩, d₂⟩
              · simp only [hhead, hkeep] at hok
                cases hok
              · rw [hfolder] at hkeep
                cases (keep_ok hkeep).1
      · exact List.Subset.refl _

theorem cutByRemoval_subset (p : TagProvider) (d : Disk) (cut paths : List String) : p.cutByRemoval d cut paths ⊆ cut := by
  induction paths generalizing p d cut with
  | nil => exact List.Subset.refl _
  | cons path rest ih =>
    rw [cutByRemoval]
    split
    · split
      · exact List.Subset.refl _
      · exact List.Subset.trans (ih _ _ _) List.filter_sublist.subset
    · exact ih _ _ _

theorem answered_removeTags (h : Mirrored p folder d cut) (paths : List String) :
    Answered folder d (p.cutByRemoval d cut paths) (p.removeTags d paths) := by
  induction paths generalizing p d cut with
  | nil => exact .unchanged h _
  | cons path rest ih =>
    rw [removeTags, cutByRemoval]
    split
    · rename_i hcontains
      obtain ⟨v, hv⟩ := Dict.contains_iff.1 hcontains
      obtain ⟨dirs, name, target, content, hfiled, htarget, hfile⟩ := h.exists_file hv
      rcases hdiscard : discard p.folder (TagPath.normalize path) d with ⟨discarded, d'⟩
      have hdisk := discard_disk hfiled htarget (by simp [hfile]) (h.keeps ▸ hdiscard)
      cases discarded with
      | error e =>
        rw [hdisk]
        exact .failed h e
      | ok u =>
        obtain ⟨target, hchanged⟩ := hdisk
        obtain ⟨place, hstatus, -⟩ := Disk.status_above hfiled.notMem_up hchanged.status_after
        exact ((ih (h.erased hfiled hchanged)).withResult .good).of_status hstatus
    · exact (ih h).withResult .notFound

/-- The definitions in a text can be written and read again. -/
theorem legible_of_readDefinitions {text : String} {definitions : List Json} (hread : readDefinitions text = .ok definitions) :
    ∀ v ∈ definitions, Json.Legible Json.maxDepth v := by
  unfold readDefinitions at hread
  split at hread
  · cases hread
  · cases hread
  · rename_i fields htext
    cases hread
    simpa using Json.legible_of_read htext
  · rename_i items htext
    cases hread
    cases Json.legible_of_read htext with
    | arr hitems => exact fun v hv => (hitems v hv).mono (Nat.le_succ _)
  · cases hread

theorem importTags_of_readDefinitions {text : String} {definitions : List Json} (hread : readDefinitions text = .ok definitions)
    (hwhole : Json.hasLoneHalf text = false) (base : String) (policy : CollisionPolicy) (d : Disk) (strikes : List (Option Strike)) :
    p.importTags base text policy d strikes = p.importAll policy (TagPath.normalize base) d strikes definitions := by
  simp only [importTags, hread, hwhole, Bool.false_eq_true, if_false]

end TagProvider

end TagTypes
