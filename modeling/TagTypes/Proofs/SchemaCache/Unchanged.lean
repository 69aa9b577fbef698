import Mathlib.Tactic
import TagTypes.Proofs.Disk.Below
import TagTypes.Proofs.SchemaCache.Run

/-!
# Reloads without edits

If only the cache works in its directory, then a reload finds under each key what is cached there: it never reports a deletion. It finds the texts with unified line ends, so it reports each key as updated whose text was saved with carriage returns. And once the directory was read, or if it had no schemas at first, no file is overlooked but one: the file `.json` is one of the key `.json`, but it is not the one that goes when this key is removed.
-/

namespace TagTypes

namespace SchemaCache

variable {c : SchemaCache} {directory : FilePath} {d d' disk : Disk} {key name text : String} {schema : Schema}
  {s : SchemaCache × Disk} {a : Action} {actions : List Action}

/-! ### What calls do to a cache and its files -/

/-- What a call does to a cache and to what the files in its directory hold. -/
inductive Effect (c : SchemaCache) (d : Disk) : Action → SchemaCache × Disk → Prop
  /-- A call that fails. If it was to prepare the cache, then its directory is not there. -/
  | failed {a : Action} {d' : Disk} (hread : a ≠ .reload)
      (hsame : ∀ name, held? c.directory d' name = held? c.directory d name)
      (hnone : a = .prepare → ∀ name, held? c.directory d' name = none) : Effect c d a (c, d')
  | read {a : Action} {d' : Disk} : Effect c d a ({ c with entries := loadAll c.directory d' }, d')
  | saved {key text : String} {schema : Schema} {d' : Disk} (hkey : key ≠ "") (hparse : Schema.parse key text = .ok schema)
      (hown : held? c.directory d' (key ++ ".json") = some (CachedSchema.mk schema text).unified)
      (hothers : ∀ name, name ≠ ".." → name ≠ key ++ ".json" → held? c.directory d' name = held? c.directory d name) :
      Effect c d (.save key text) ({ c with entries := c.entries.insert key ⟨schema, text⟩ }, d')
  | removed {key : String} {d' : Disk} (hkey : key ≠ "") (hown : held? c.directory d' (key ++ ".json") = none)
      (hothers : ∀ name, name ≠ ".." → name ≠ key ++ ".json" → held? c.directory d' name = held? c.directory d name) :
      Effect c d (.remove key) ({ c with entries := c.entries.erase key }, d')

theorem effect_prepare (c : SchemaCache) (d : Disk) : Effect c d .prepare (act (c, d) .prepare) := by
  rcases houtcome : c.prepare d with ⟨_ | saved, d'⟩
  · simp only [act, houtcome]
    have hafter : ∀ place, d'.status c.directory ≠ .ok (place, .directory) := by
      unfold prepare at houtcome
      rcases hensure : Disk.ensureDirectories c.directory d with ⟨fault | _, d₁⟩
      · rw [hensure] at houtcome
        cases fault <;> cases houtcome <;> exact Disk.ensureDirectories_error hensure
      · rw [hensure] at houtcome
        cases houtcome
    have hbefore := (prepare_disk houtcome).2
    refine .failed (by simp) (fun name => ?_) fun _ name => held?_of_not_directory hafter
    rw [held?_of_not_directory hafter, held?_of_not_directory hbefore]
  · simp only [act, houtcome]
    rw [prepare_ok houtcome]
    exact .read

theorem effect_save (c : SchemaCache) (d : Disk) (key text : String) : Effect c d (.save key text) (act (c, d) (.save key text)) := by
  rcases houtcome : c.save key text d with ⟨_ | ⟨schema, saved⟩, d'⟩
  · simp only [act, houtcome]
    rw [save_disk houtcome]
    exact .failed (by simp) (fun _ => rfl) (by simp)
  · simp only [act, houtcome]
    obtain ⟨place, hwritten⟩ := save_disk houtcome
    obtain ⟨hvalid, hparse, rfl⟩ := save_ok houtcome
    have hkey := ne_empty_of_isValidKey hvalid
    exact .saved hkey hparse (held?_written hwritten hkey hparse) fun name => held?_changed_of_ne hwritten

theorem held?_of_missing
    (hnone : ∀ place, d.walk (d.start directory) directory.parts = .ok place → d.node? (place ++ [name]) = none) :
    held? directory d name = none := by
  cases hheld : held? directory d name with
  | none => rfl
  | some entry =>
    obtain ⟨place, hstatus, hthere⟩ := exists_of_held? hheld
    rw [Disk.mem_namesIn, hnone place (Disk.walk_of_status hstatus).1] at hthere
    cases hthere

theorem effect_remove (c : SchemaCache) (d : Disk) (key : String) : Effect c d (.remove key) (act (c, d) (.remove key)) := by
  rcases houtcome : c.remove key d with ⟨_ | saved, d'⟩
  · simp only [act, houtcome]
    rw [remove_disk houtcome]
    exact .failed (by simp) (fun _ => rfl) (by simp)
  · simp only [act, houtcome]
    obtain ⟨hvalid, rfl⟩ := remove_ok houtcome
    have hkey := ne_empty_of_isValidKey hvalid
    rcases remove_disk houtcome with ⟨place, hremoved⟩ | ⟨rfl, hnone⟩
    · refine .removed hkey (held?_of_missing fun other hother => ?_) fun name => held?_changed_of_ne hremoved
      cases (Disk.walk_of_status hremoved.status_after).1.symm.trans hother
      rw [hremoved.node, if_pos rfl, Option.map_none]
    · exact .removed hkey (held?_of_missing hnone) fun _ _ _ => rfl

theorem effect_act (s : SchemaCache × Disk) (ha : a.IsCall) : Effect s.1 s.2 a (act s a) := by
  cases a with
  | prepare => exact effect_prepare s.1 s.2
  | save key text => exact effect_save s.1 s.2 key text
  | remove key => exact effect_remove s.1 s.2 key
  | reload => exact .read
  | struck key text strike => exact ha.elim
  | edit disk => exact ha.elim

/-! ### Cached schemas -/

/-- Each cached schema is read again, its text with unified line ends. -/
def Kept (c : SchemaCache) (d : Disk) : Prop :=
  ∀ key entry, c.entries.get? key = some entry → (loadAll c.directory d).get? key = some entry.unified

theorem kept_empty (directory : FilePath) (d : Disk) : Kept { directory } d := by
  intro key entry hentry
  cases hentry

theorem kept_reloaded (c : SchemaCache) (d : Disk) : Kept { c with entries := loadAll c.directory d } d := by
  intro key entry hentry
  obtain ⟨name, -, hheld⟩ := exists_of_get?_loadAll hentry
  rw [unified_of_noReturn (noReturn_of_held? hheld)]
  exact hentry

theorem get?_loadAll_congr (hsame : ∀ name, held? directory d' name = held? directory d name) (key : String) :
    (loadAll directory d').get? key = (loadAll directory d).get? key := by
  by_cases hkey : key = ""
  · rw [hkey, get?_loadAll_empty, get?_loadAll_empty]
  · rw [get?_loadAll_eq hkey, get?_loadAll_eq hkey, hsame, hsame]

theorem Kept.effect (h : Kept c d) (heffect : Effect c d a s) : Kept s.1 s.2 := by
  cases heffect with
  | failed _ hsame _ =>
    intro key entry hentry
    rw [get?_loadAll_congr hsame]
    exact h key entry hentry
  | read => exact kept_reloaded c _
  | @saved saved text schema d' hkey hparse hown hothers =>
    intro key entry hentry
    simp only [CachedSchemas.get?_insert] at hentry
    split at hentry
    · rename_i hsame
      subst hsame
      cases hentry
      exact get?_loadAll_of_held? hkey hown
    · rename_i hne
      exact (get?_loadAll_of_ne hkey hne hothers).trans (h key entry hentry)
  | @removed removed d' hkey hown hothers =>
    intro key entry hentry
    simp only [CachedSchemas.get?_erase] at hentry
    split at hentry
    · cases hentry
    · rename_i hne
      exact (get?_loadAll_of_ne hkey hne hothers).trans (h key entry hentry)

theorem kept_run (hs : Kept s.1 s.2) (hcalls : ∀ a ∈ actions, a.IsCall) : Kept (run s actions).1 (run s actions).2 :=
  run_induction (P := fun s => Kept s.1 s.2) hs fun a ha s hs => hs.effect (effect_act s (hcalls a ha))

/-! ### Overlooked files -/

/-- If the file holds a schema, then the key is cached. -/
def Noticed (c : SchemaCache) (d : Disk) (key name : String) : Prop :=
  c.entries.get? key = none → held? c.directory d name = none

/-- After a call that reads the directory no file is overlooked, also if it fails, for then the directory is not there. -/
theorem noticed_of_reads (heffect : Effect c d a s) (hreads : a = .prepare ∨ a = .reload) (hname : IsNameFor key name) :
    Noticed s.1 s.2 key name := by
  cases heffect with
  | failed hread hsame hnone =>
    rcases hreads with hprepare | hreload
    · exact fun _ => hnone hprepare name
    · exact absurd hreload hread
  | read => exact fun hkey => get?_loadAll_eq_none_iff.1 hkey name hname
  | saved => simp at hreads
  | removed => simp at hreads

/-- No call makes that a file is overlooked, but the removal of a key that has another file. -/
theorem Noticed.effect (h : Noticed c d key name) (heffect : Effect c d a s) (hname : IsNameFor key name)
    (hremove : a = .remove key → name = key ++ ".json") : Noticed s.1 s.2 key name := by
  cases heffect with
  | failed _ hsame _ => exact fun hkey => (hsame name).trans (h hkey)
  | read => exact fun hkey => get?_loadAll_eq_none_iff.1 hkey name hname
  | @saved saved text schema d' hsaved hparse hown hothers =>
    intro hkey
    simp only [CachedSchemas.get?_insert] at hkey
    split at hkey
    · cases hkey
    · rename_i hne
      exact (hothers name hname.ne_up (hname.ne_fileName hsaved hne)).trans (h hkey)
  | @removed removed d' hremoved hown hothers =>
    intro hkey
    by_cases hsame : removed = key
    · subst hsame
      rw [hremove rfl]
      exact hown
    · simp only [CachedSchemas.get?_erase, if_neg hsame] at hkey
      exact (hothers name hname.ne_up (hname.ne_fileName hremoved hsame)).trans (h hkey)

theorem noticed_run (hcalls : ∀ a ∈ actions, a.IsCall) (hname : IsNameFor key name)
    (hremove : .remove key ∈ actions → name = key ++ ".json")
    (hreads : Noticed s.1 s.2 key name ∨ .prepare ∈ actions ∨ .reload ∈ actions) :
    Noticed (run s actions).1 (run s actions).2 key name := by
  induction actions generalizing s with
  | nil =>
    rw [run, List.foldl_nil]
    simpa using hreads
  | cons a rest ih =>
    rw [List.forall_mem_cons] at hcalls
    have heffect := effect_act s hcalls.1
    refine ih hcalls.2 (fun hrest => hremove (List.mem_cons_of_mem _ hrest)) ?_
    rw [List.mem_cons, List.mem_cons] at hreads
    rcases hreads with hnoticed | (hfirst | hrest) | (hfirst | hrest)
    · exact Or.inl (hnoticed.effect heffect hname fun hfirst => hremove (by rw [hfirst]; exact List.mem_cons_self))
    · exact Or.inl (noticed_of_reads heffect (Or.inl hfirst.symm) hname)
    · exact Or.inr (Or.inl hrest)
    · exact Or.inl (noticed_of_reads heffect (Or.inr hfirst.symm) hname)
    · exact Or.inr (Or.inr hrest)

/-! ### Texts without carriage returns -/

/-- No cached text has carriage returns. -/
def Unified (c : SchemaCache) : Prop := ∀ key entry, c.entries.get? key = some entry → '\r' ∉ entry.text.toList

theorem Unified.effect (h : Unified c) (heffect : Effect c d a s)
    (hsave : ∀ key text, a = .save key text → '\r' ∉ text.toList) : Unified s.1 := by
  cases heffect with
  | failed => exact h
  | read =>
    intro key entry hentry
    obtain ⟨name, -, hheld⟩ := exists_of_get?_loadAll hentry
    exact noReturn_of_held? hheld
  | saved =>
    intro key entry hentry
    simp only [CachedSchemas.get?_insert] at hentry
    split at hentry
    · cases hentry
      exact hsave _ _ rfl
    · exact h key entry hentry
  | removed =>
    intro key entry hentry
    simp only [CachedSchemas.get?_erase] at hentry
    split at hentry
    · cases hentry
    · exact h key entry hentry

theorem unified_run (hs : Unified s.1) (hcalls : ∀ a ∈ actions, a.IsCall)
    (hsave : ∀ key text, .save key text ∈ actions → '\r' ∉ text.toList) : Unified (run s actions).1 := by
  refine run_induction (P := fun s => Unified s.1) hs fun a ha s hs => ?_
  refine hs.effect (effect_act s (hcalls a ha)) fun key text hsaves => hsave key text ?_
  rw [← hsaves]
  exact ha

/-! ### What a reload reports -/

namespace Kept

variable (h : Kept c d)
include h

theorem deleted_reload : (c.reload d).1.deleted = [] := by
  rw [List.eq_nil_iff_forall_not_mem]
  intro key hkey
  obtain ⟨⟨entry, hentry⟩, hnone⟩ := mem_deleted.1 hkey
  rw [h key entry hentry] at hnone
  cases hnone

theorem mem_updated_reload_iff : key ∈ (c.reload d).1.updated ↔ ∃ text, c.text? key = some text ∧ '\r' ∈ text.toList := by
  constructor
  · intro hkey
    obtain ⟨before, after, hbefore, hafter, hne⟩ := mem_updated.1 hkey
    rw [h key before hbefore] at hafter
    cases hafter
    refine ⟨before.text, text?_eq_some_iff.2 ⟨before, hbefore, rfl⟩, ?_⟩
    by_contra htext
    exact hne (text_unified_eq_iff.2 htext).symm
  · intro hboth
    obtain ⟨text, htext, hreturn⟩ := hboth
    obtain ⟨entry, hentry, rfl⟩ := text?_eq_some_iff.1 htext
    exact mem_updated.2 ⟨entry, entry.unified, hentry, h key entry hentry,
      fun heq => text_unified_eq_iff.1 heq.symm hreturn⟩

theorem updated_reload_of_unified (hunified : Unified c) : (c.reload d).1.updated = [] := by
  rw [List.eq_nil_iff_forall_not_mem]
  intro key hkey
  obtain ⟨text, htext, hreturn⟩ := h.mem_updated_reload_iff.1 hkey
  obtain ⟨entry, hentry, rfl⟩ := text?_eq_some_iff.1 htext
  exact hunified key entry hentry hreturn

end Kept

theorem added_reload_of_noticed (hnoticed : ∀ key name, IsNameFor key name → Noticed c d key name) :
    (c.reload d).1.added = [] := by
  rw [List.eq_nil_iff_forall_not_mem]
  intro key hkey
  obtain ⟨hbefore, entry, hafter⟩ := mem_added.1 hkey
  obtain ⟨name, hname, hheld⟩ := exists_of_get?_loadAll hafter
  rw [hnoticed key name hname hbefore] at hheld
  cases hheld

/-- If the files that are written for keys are not overlooked, then a reload adds at most the key `.json`, for the file of this name. -/
theorem mem_added_reload_iff (hnoticed : ∀ key, key ≠ "" → Noticed c d key (key ++ ".json")) :
    key ∈ (c.reload d).1.added ↔
      key = ".json" ∧ c.text? ".json" = none ∧ (held? c.directory d ".json").isSome = true := by
  have hnone : c.text? ".json" = none ↔ c.entries.get? ".json" = none := by rw [text?_eq, Option.map_eq_none_iff]
  rw [hnone, Option.isSome_iff_exists]
  constructor
  · intro hkey
    obtain ⟨hbefore, entry, hafter⟩ := mem_added.1 hkey
    obtain ⟨name, ⟨hkey, rfl⟩ | ⟨rfl, rfl⟩, hheld⟩ := exists_of_get?_loadAll hafter
    · rw [hnoticed key hkey hbefore] at hheld
      cases hheld
    · exact ⟨rfl, hbefore, entry, hheld⟩
  · intro hjson
    obtain ⟨rfl, hbefore, entry, hheld⟩ := hjson
    refine mem_added.2 ⟨hbefore, Option.ne_none_iff_exists'.1 fun hafter => ?_⟩
    rw [get?_loadAll_eq_none_iff.1 hafter _ isNameFor_json] at hheld
    cases hheld

/-- Whatever calls of a cache came before, a reload reports no deletions, and it reports as updated just the keys whose texts have carriage returns. If the directory had no schemas at first or was read by one of the calls, then it reports at most the key `.json` as added, for a file of this name; and if no text was saved with carriage returns and this key was not removed, it reports nothing. -/
theorem reload_run (hcalls : ∀ a ∈ actions, a.IsCall) (hrun : run ({ directory }, disk) actions = (c, d)) :
    (c.reload d).1.deleted = [] ∧
    (∀ key, key ∈ (c.reload d).1.updated ↔ ∃ text, c.text? key = some text ∧ '\r' ∈ text.toList) ∧
    (loadAll directory disk = ∅ ∨ .prepare ∈ actions ∨ .reload ∈ actions →
      (∀ key, key ∈ (c.reload d).1.added ↔
        key = ".json" ∧ c.text? ".json" = none ∧ (held? directory d ".json").isSome = true) ∧
      ((∀ key text, .save key text ∈ actions → '\r' ∉ text.toList) → .remove ".json" ∉ actions →
        (c.reload d).1.any = false)) := by
  have hkept := kept_run (s := ({ directory }, disk)) (kept_empty directory disk) hcalls
  have hdirectory := directory_run ({ directory }, disk) actions
  rw [hrun] at hkept hdirectory
  cases hdirectory
  refine ⟨hkept.deleted_reload, fun key => hkept.mem_updated_reload_iff, fun hstart => ?_⟩
  have hnoticed : ∀ key name, IsNameFor key name → (.remove key ∈ actions → name = key ++ ".json") → Noticed c d key name := by
    intro key name hname hremove
    have hafter := noticed_run (s := ({ directory := c.directory }, disk)) hcalls hname hremove (by
      rcases hstart with hempty | hreads
      · refine Or.inl fun _ => get?_loadAll_eq_none_iff.1 ?_ name hname
        rw [hempty, CachedSchemas.get?_empty]
      · exact Or.inr hreads)
    rwa [hrun] at hafter
  refine ⟨fun key => mem_added_reload_iff fun key hkey => hnoticed key _ (isNameFor_fileName hkey) fun _ => rfl,
    fun hsave hremove => ?_⟩
  have hunified := unified_run (s := ({ directory := c.directory }, disk)) (fun key entry hentry => by cases hentry) hcalls hsave
  rw [hrun] at hunified
  have hadded : (c.reload d).1.added = [] := added_reload_of_noticed fun key name hname => hnoticed key name hname fun hremoved => by
    rcases hname with ⟨-, hown⟩ | ⟨rfl, -⟩
    · exact hown
    · exact absurd hremoved hremove
  rw [CacheChanges.any, hadded, hkept.updated_reload_of_unified hunified, hkept.deleted_reload]
  rfl

/-- Calls without carriage returns in their texts. -/
def plain : List Action := [.prepare, .save "k" "\x7b\x7d", .save ".json" "\x7b\x7d", .remove "k", .prepare]

/-- The reload reports the text with carriage returns as updated, and nothing after calls without such texts. -/
theorem reload_tried : "k" ∈ (tried.1.reload tried.2).1.updated ∧ (tried.1.reload tried.2).1.deleted = [] ∧
    (((run ({ directory := ⟨.here, ["a"]⟩ }, {}) plain).1.reload (run ({ directory := ⟨.here, ["a"]⟩ }, {}) plain).2).1.any = false ∧
      (run ({ directory := ⟨.here, ["a"]⟩ }, {}) plain).1.keys = [".json"]) := by
  have htried : ∀ a ∈ trying, a.IsCall := by simp [trying, Action.IsCall]
  have hplain : ∀ a ∈ plain, a.IsCall := by simp [plain, Action.IsCall]
  have hrun : run ({ directory := ⟨.here, ["a", "schemas"]⟩ }, {}) trying = (tried.1, tried.2) := Prod.mk.eta.symm
  obtain ⟨hdeleted, hupdated, -⟩ := reload_run htried hrun
  have hquiet := (reload_run hplain (Prod.mk.eta (p := run ({ directory := ⟨.here, ["a"]⟩ }, {}) plain)).symm).2.2
  have htext : tried.1.text? "k" = some spread := by decide +kernel
  refine ⟨(hupdated "k").2 ⟨spread, htext, by decide⟩, hdeleted, ?_, by decide +kernel⟩
  refine (hquiet (Or.inr (Or.inl (by simp [plain])))).2 (fun key text hsave => ?_) (by simp [plain])
  simp only [plain, List.mem_cons, Action.save.injEq, reduceCtorEq, false_or, or_false, List.not_mem_nil] at hsave
  rcases hsave with ⟨-, rfl⟩ | ⟨-, rfl⟩ <;> decide

/-- After a text with carriage returns was saved a reload finds a change. -/
theorem not_unchanged_tried : ¬∀ (directory : FilePath) (disk : Disk) (actions : List Action), disk.Bare directory →
    (∀ a ∈ actions, a.IsCall) → .prepare ∈ actions →
    ((run ({ directory }, disk) actions).1.reload (run ({ directory }, disk) actions).2).1.any = false := by
  intro hall
  have hany := hall ⟨.here, ["a", "schemas"]⟩ {} trying (Disk.bare_empty _) (by simp [trying, Action.IsCall]) (by simp [trying])
  exact absurd hany (by decide +kernel)

end SchemaCache

end TagTypes
