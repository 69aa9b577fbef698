import Mathlib.Tactic
import TagTypes.Proofs.Disk.Making
import TagTypes.Proofs.SchemaCache.Reload

/-!
# Runs of a cache

A run is what happens to a cache and its disk: calls, writes that are struck among them, and edits of the disk by others. Whatever happens, each cached schema is the one that its text describes. A call that fails changes no file, unless its write is struck: then the file of its key holds a beginning of the text, and the cache is as before.
-/

namespace TagTypes.SchemaCache

open Disk (Grown)

/-! ### Runs -/

/-- What happens to a cache: a call, which may be to save a schema with a write that is struck, or an edit of the disk by others. -/
inductive Action where
  | prepare
  | save (key text : String)
  | struck (key text : String) (strike : Disk.Strike)
  | remove (key : String)
  | reload
  | edit (disk : Disk)

/-- A call that fails leaves the cache as it is, but perhaps not the disk. -/
def act (s : SchemaCache × Disk) : Action → SchemaCache × Disk
  | .prepare =>
    match s.1.prepare s.2 with
    | (.ok c, disk) => (c, disk)
    | (.error _, disk) => (s.1, disk)
  | .save key text =>
    match s.1.save key text s.2 with
    | (.ok (_, c), disk) => (c, disk)
    | (.error _, disk) => (s.1, disk)
  | .struck key text strike =>
    match s.1.save key text s.2 strike with
    | (.ok (_, c), disk) => (c, disk)
    | (.error _, disk) => (s.1, disk)
  | .remove key =>
    match s.1.remove key s.2 with
    | (.ok c, disk) => (c, disk)
    | (.error _, disk) => (s.1, disk)
  | .reload => ((s.1.reload s.2).2, s.2)
  | .edit disk => (s.1, disk)

variable {s : SchemaCache × Disk} {c : SchemaCache} {directory : FilePath} {d d' : Disk} {key text : String} {actions : List Action}

/-- What becomes of a cache: it stays as it is, it is read anew, or one key is set or erased. -/
theorem act_cases (s : SchemaCache × Disk) (a : Action) :
    (act s a).1 = s.1 ∨ (act s a).1 = { s.1 with entries := loadAll s.1.directory (act s a).2 } ∨
      (∃ key text schema, Schema.parse key text = .ok schema ∧
        (act s a).1 = { s.1 with entries := s.1.entries.insert key ⟨schema, text⟩ }) ∨
      ∃ key, (act s a).1 = { s.1 with entries := s.1.entries.erase key } := by
  cases a with
  | prepare =>
    rcases houtcome : s.1.prepare s.2 with ⟨_ | c, disk⟩
    · simp only [act, houtcome, true_or]
    · simp only [act, houtcome]
      exact Or.inr (Or.inl (prepare_ok houtcome))
  | save key text =>
    rcases houtcome : s.1.save key text s.2 with ⟨_ | ⟨schema, c⟩, disk⟩
    · simp only [act, houtcome, true_or]
    · simp only [act, houtcome]
      obtain ⟨-, hparse, hsaved⟩ := save_ok houtcome
      exact Or.inr (Or.inr (Or.inl ⟨key, text, schema, hparse, hsaved⟩))
  | struck key text strike =>
    rcases houtcome : s.1.save key text s.2 strike with ⟨_ | ⟨schema, c⟩, disk⟩
    · simp only [act, houtcome, true_or]
    · simp only [act, houtcome]
      obtain ⟨-, hparse, hsaved⟩ := save_ok houtcome
      exact Or.inr (Or.inr (Or.inl ⟨key, text, schema, hparse, hsaved⟩))
  | remove key =>
    rcases houtcome : s.1.remove key s.2 with ⟨_ | c, disk⟩
    · simp only [act, houtcome, true_or]
    · simp only [act, houtcome]
      exact Or.inr (Or.inr (Or.inr ⟨key, (remove_ok houtcome).2⟩))
  | reload => exact Or.inr (Or.inl rfl)
  | edit disk => exact Or.inl rfl

theorem directory_act (s : SchemaCache × Disk) (a : Action) : (act s a).1.directory = s.1.directory := by
  rcases act_cases s a with heq | heq | ⟨key, text, schema, -, heq⟩ | ⟨key, heq⟩ <;> rw [heq]

theorem coherent_act (hs : Coherent s.1.entries) (a : Action) : Coherent (act s a).1.entries := by
  rcases act_cases s a with heq | heq | ⟨key, text, schema, hparse, heq⟩ | ⟨key, heq⟩ <;> rw [heq]
  · exact hs
  · exact coherent_loadAll _ _
  · exact hs.insert hparse
  · exact hs.erase key

/-! ### What calls do to the disk -/

theorem save_disk {outcome : Except CacheError (Schema × SchemaCache)} (hsave : c.save key text d = (outcome, d')) :
    match outcome with
    | .ok _ => ∃ place, Disk.Changed c.directory place (key ++ ".json") (some text.toUTF8) d d'
    | .error _ => d' = d := by
  unfold save at hsave
  split at hsave
  · cases hsave
    rfl
  · split at hsave
    · cases hsave
      rfl
    · rcases hwrite : Disk.writeText (c.fileFor key) text d with ⟨fault | ⟨⟩, disk⟩
      · obtain rfl := Disk.writeText_error hwrite
        rw [Disk.writeTextUnder_none, hwrite] at hsave
        cases fault <;> cases hsave <;> rfl
      · rw [Disk.writeTextUnder_none, hwrite] at hsave
        cases hsave
        exact Disk.written_of_writeText hwrite

theorem remove_disk {outcome : Except CacheError SchemaCache} (hremove : c.remove key d = (outcome, d')) :
    match outcome with
    | .ok _ => (∃ place, Disk.Changed c.directory place (key ++ ".json") none d d') ∨ d' = d ∧
        ∀ place, d.walk (d.start c.directory) c.directory.parts = .ok place → d.node? (place ++ [key ++ ".json"]) = none
    | .error _ => d' = d := by
  unfold remove at hremove
  split at hremove
  · cases hremove
    rfl
  · rcases houtcome : Disk.removeFileIfThere (c.fileFor key) d with ⟨result, d₁⟩
    rw [houtcome] at hremove
    rcases Disk.removeFileIfThere_cases houtcome with ⟨rfl, hremoved⟩ | ⟨rfl, hnone⟩
    · cases hremove
      exact Or.inl hremoved
    · cases result with
      | ok u =>
        cases hremove
        exact Or.inr ⟨rfl, hnone rfl⟩
      | error fault =>
        cases fault <;> cases hremove <;> rfl

theorem prepare_disk {outcome : Except CacheError SchemaCache} (hprepare : c.prepare d = (outcome, d')) :
    Grown d d' ∧
      match outcome with
      | .ok _ => ∃ place, d'.status c.directory = .ok (place, .directory)
      | .error _ => ∀ place, d.status c.directory ≠ .ok (place, .directory) := by
  have hmakes := Disk.makes_ensureDirectories c.directory d
  have hthere : ∀ fault, (Disk.ensureDirectories c.directory d).1 = .error fault →
      ∀ place, d.status c.directory ≠ .ok (place, .directory) := by
    intro fault hfault place hstatus
    rw [Disk.ensureDirectories_of_status hstatus] at hfault
    cases hfault
  unfold prepare at hprepare
  rcases houtcome : Disk.ensureDirectories c.directory d with ⟨result, d₁⟩
  rw [houtcome] at hprepare hmakes hthere
  cases result with
  | ok u =>
    cases hprepare
    exact ⟨hmakes.grown, hmakes.status rfl⟩
  | error fault =>
    cases fault <;> cases hprepare <;> exact ⟨hmakes.grown, hthere _ rfl⟩

/-- What a call to save a schema says when its write was struck. -/
def struckError (c : SchemaCache) (key : String) : Disk.Strike → CacheError
  | .noRoom _ => .writeFailed (c.fileFor key)
  | .unencodable => .unencodable

/-- A struck write leaves a beginning of the text in the file of the key; if the file cannot be written at all, or if the text is refused, then a strike makes no difference. -/
theorem save_struck {strike : Disk.Strike} {outcome : Except CacheError (Schema × SchemaCache)}
    (hsave : c.save key text d (some strike) = (outcome, d')) :
    (∃ e, outcome = .error e ∧ d' = d ∧ c.save key text d = (.error e, d)) ∨
      outcome = .error (c.struckError key strike) ∧ (c.save key text d).1.isOk = true ∧ isValidKey key = true ∧
        ∃ place, Disk.Changed c.directory place (key ++ ".json") (some (strike.left text.toUTF8)) d d' := by
  unfold save at hsave ⊢
  cases hkey : isValidKey key with
  | false =>
    rw [hkey] at hsave
    cases hsave
    exact Or.inl ⟨_, rfl, rfl, rfl⟩
  | true =>
    rw [hkey] at hsave
    simp only [Bool.not_true, Bool.false_eq_true, if_false] at hsave ⊢
    cases hparse : Schema.parse key text with
    | error e =>
      rw [hparse] at hsave
      cases hsave
      exact Or.inl ⟨_, rfl, rfl, rfl⟩
    | ok schema =>
      rw [hparse] at hsave
      simp only [Disk.writeTextUnder_none, fileFor] at hsave ⊢
      rcases hwrite : Disk.writeTextUnder (some strike) (c.directory.child (key ++ ".json")) text d with ⟨result, d₁⟩
      rcases Disk.writeTextUnder_some_cases hwrite with ⟨fault, hplain, rfl, rfl⟩ | ⟨hplain, rfl, hchanged⟩
      · rw [hwrite] at hsave
        rw [hplain]
        cases fault <;> cases hsave <;> exact Or.inl ⟨_, rfl, rfl, rfl⟩
      · rw [hwrite] at hsave
        rcases hwhole : Disk.writeText (c.directory.child (key ++ ".json")) text d with ⟨whole, d₂⟩
        rw [hwhole] at hplain
        cases hplain
        cases strike <;> cases hsave <;> exact Or.inr ⟨rfl, rfl, trivial, hchanged⟩

/-! ### Runs of calls -/

/-- The action is a call of the cache itself, with no write that is struck. -/
def Action.IsCall : Action → Prop
  | .edit _ | .struck _ _ _ => False
  | _ => True

def run (s : SchemaCache × Disk) (actions : List Action) : SchemaCache × Disk := actions.foldl act s

/-- What holds at first and is kept by each action of the run holds after it. -/
theorem run_induction {P : SchemaCache × Disk → Prop} (hs : P s) (hact : ∀ a ∈ actions, ∀ s, P s → P (act s a)) :
    P (run s actions) := by
  induction actions generalizing s with
  | nil => exact hs
  | cons a rest ih =>
    rw [List.forall_mem_cons] at hact
    exact ih (hact.1 s hs) hact.2

theorem directory_run (s : SchemaCache × Disk) (actions : List Action) : (run s actions).1.directory = s.1.directory :=
  run_induction (P := fun after => after.1.directory = s.1.directory) rfl fun a _ s hs => (directory_act s a).trans hs

theorem coherent_run (hs : Coherent s.1.entries) : Coherent (run s actions).1.entries :=
  run_induction (P := fun s => Coherent s.1.entries) hs fun a _ _ hs => coherent_act hs a

/-- A text of a schema with all three kinds of line ends. -/
def spread : String := "\x7b\r\n\"title\":\r\"T\"\n\x7d"

/-- Calls of a cache whose directory is missing at first. All but the second and the third of them fail. -/
def trying : List Action :=
  [.save "k" spread, .prepare, .save "k" spread, .save "" spread, .remove "..", .save "x" "1"]

def tried : SchemaCache × Disk := run ({ directory := ⟨.here, ["a", "schemas"]⟩ }, {}) trying

end TagTypes.SchemaCache
