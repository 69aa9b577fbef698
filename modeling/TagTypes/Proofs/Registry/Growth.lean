import Mathlib.Tactic
import TagTypes.Depot
import TagTypes.Proofs.Dict

/-!
# Registries that only grow

A registry that synchronizes schemas, and removes no type, takes nothing away: it registers names and drops none, it tells of no removal, and its provider is asked for imports only. This is so for every provider, whatever it answers. A provider that keeps its definitions has all paths that it had before, whether the import went well or broke off.
-/

namespace TagTypes

/-- Lookups and imports lead from a state only to states that `R` relates it to. -/
structure Access.Grows {σ : Type} (R : σ → σ → Prop) (access : Access σ) : Prop where
  refl : ∀ x, R x x
  trans : ∀ {x y z}, R x y → R y z → R x z
  lookup : ∀ x, R x (access.lookup x).2
  importTags : ∀ base text policy x, R x (access.importTags base text policy x).2

/-! ### Registries -/

namespace Registry

variable {σ : Type} {R : σ → σ → Prop} {access : Access σ} {r r' r'' : Registry σ}

/-- What was told before is told still, and no removal was told since; the states of the provider are related. -/
structure Kept (R : σ → σ → Prop) (r r' : Registry σ) : Prop where
  tags : R r.tags r'.tags
  events : ∃ told, r'.log.events = r.log.events ++ told ∧ ∀ e ∈ told, e.kind ≠ .typeRemoved

/-- No registered name is dropped either. -/
structure Grown (R : σ → σ → Prop) (r r' : Registry σ) : Prop extends Kept R r r' where
  registered : r.registered ⊆ r'.registered

section Laws

variable (h : access.Grows R)
include h

theorem Kept.refl (r : Registry σ) : Kept R r r := ⟨h.refl _, [], by simp⟩

theorem Grown.refl (r : Registry σ) : Grown R r r := ⟨Kept.refl h r, fun _ => id⟩

theorem Kept.trans (hr : Kept R r r') (hr' : Kept R r' r'') : Kept R r r'' := by
  obtain ⟨told, htold, hnone⟩ := hr.events
  obtain ⟨more, hmore, hnone'⟩ := hr'.events
  refine ⟨h.trans hr.tags hr'.tags, told ++ more, by rw [hmore, htold, List.append_assoc], ?_⟩
  exact List.forall_mem_append.2 ⟨hnone, hnone'⟩

theorem Grown.trans (hr : Grown R r r') (hr' : Grown R r' r'') : Grown R r r'' :=
  ⟨hr.toKept.trans h hr'.toKept, fun _ hname => hr'.registered (hr.registered hname)⟩

theorem grown_tell {e : Event} (he : e.kind ≠ .typeRemoved) (r : Registry σ) : Grown R r (r.tell e) where
  tags := h.refl _
  registered := fun _ => id
  events := by
    by_cases hopen : r.log.isOpen = true
    · exact ⟨[e], EventLog.events_tell hopen e, by simpa using he⟩
    · refine ⟨[], ?_, by simp⟩
      simp [tell, EventLog.tell, hopen]

theorem importTypes_grows (text : String) (x : σ) : R x (importTypes access text x).2 := h.importTags ..

theorem deliver_grows (s : Schema) (x : σ) : R x (deliver access s x).2 := by
  have hnested : ∀ y, R y (importNested access s y) := by
    intro y
    unfold importNested
    cases Udt.nestedJson? s with
    | none => exact h.refl y
    | some definitions => exact importTypes_grows h _ y
  have hlookup := h.lookup x
  unfold deliver
  rcases hfound : access.lookup x with ⟨answer, y⟩
  rw [hfound] at hlookup
  cases answer with
  | found => exact h.trans hlookup (h.trans (hnested y) (importTypes_grows h _ _))
  | absent => exact hlookup
  | failed => exact hlookup

theorem grown_sync (s : Schema) (r : Registry σ) : Grown R r (sync access s r).2 := by
  have hbrought : Grown R r { r with
      tags := (deliver access s r.tags).2
      registered := if (deliver access s r.tags).1 then addType s.name r.registered else r.registered } := by
    refine ⟨⟨deliver_grows h s r.tags, [], by simp⟩, fun name hname => ?_⟩
    simp only
    split
    · unfold addType
      split
      · exact hname
      · exact List.mem_append_left _ hname
    · exact hname
  exact hbrought.trans h (grown_tell h (by simp [Event.kind]) _)

theorem grown_syncEach (schemas : List Schema) (r : Registry σ) : Grown R r (syncEach access schemas r).2 := by
  induction schemas generalizing r with
  | nil => exact .refl h r
  | cons s rest ih => exact (grown_sync h s r).trans h (ih _)

theorem grown_syncAll (schemas : List Schema) (r : Registry σ) : Grown R r (syncAll access schemas r).2 := by
  unfold syncAll
  cases access.arrange schemas with
  | none => exact .refl h r
  | some ordered => exact grown_syncEach h ordered r

end Laws

end Registry

/-! ### Providers -/

def TagCall.IsImport : TagCall → Prop
  | .importTags .. => True
  | .removeTags _ => False

namespace TagProvider

variable {p : TagProvider} {path : String}

/-- An import takes no path away, however far it comes. -/
theorem contains_importAll (policy : CollisionPolicy) (folder : String) (disk : Disk) (strikes : List (Option Disk.Strike))
    (definitions : List Json) (hpath : p.tags.contains path = true) :
    (p.importAll policy folder disk strikes definitions).2.1.tags.contains path = true := by
  induction definitions generalizing p disk strikes with
  | nil => exact hpath
  | cons definition rest ih =>
    rw [importAll]
    cases p.tags.admission policy folder definition with
    | settled q => exact ih disk _ hpath
    | store stored =>
      simp only
      split
      · rcases keep p.folder stored definition strikes.head?.join disk with ⟨e | ⟨⟩, after⟩
        · exact hpath
        · apply ih after
          rw [Dict.contains, Dict.get?_insert]
          split
          · rfl
          · exact hpath
      · exact hpath

theorem contains_importTags (base text : String) (policy : CollisionPolicy) (disk : Disk)
    (hpath : p.tags.contains path = true) : (p.importTags base text policy disk).2.1.tags.contains path = true := by
  unfold importTags
  cases readDefinitions text with
  | error fault => exact hpath
  | ok definitions => exact contains_importAll policy _ disk _ definitions hpath

end TagProvider

namespace Provider

/-- A provider that keeps its definitions has lost no path, and one that writes down its calls was asked for imports only. -/
inductive Grown : Provider → Provider → Prop
  | keeping {p p' : TagProvider} (hkept : ∀ path, p.tags.contains path = true → p'.tags.contains path = true) :
      Grown (.keeping p) (.keeping p')
  | replaying {p p' : Replay} (imports : List TagCall) (hcalls : p'.calls = p.calls ++ imports)
      (himports : ∀ call ∈ imports, call.IsImport) : Grown (.replaying p) (.replaying p')

variable {p p' p'' : Provider}

theorem Grown.refl (p : Provider) : Grown p p := by
  cases p with
  | keeping p => exact .keeping fun _ => id
  | replaying p => exact .replaying [] (by simp) (by simp)

theorem Grown.trans (h : Grown p p') (h' : Grown p' p'') : Grown p p'' := by
  cases h with
  | keeping hkept =>
    cases h' with
    | keeping hkept' => exact .keeping fun path hpath => hkept' path (hkept path hpath)
  | replaying imports hcalls himports =>
    cases h' with
    | replaying more hmore himports' =>
      exact .replaying (imports ++ more) (by rw [hmore, hcalls, List.append_assoc])
        (List.forall_mem_append.2 ⟨himports, himports'⟩)

theorem grown_importTags (base text : String) (policy : CollisionPolicy) (disk : Disk) (p : Provider) :
    Grown p (importTags base text policy disk p).2.1 := by
  cases p with
  | keeping p => exact .keeping fun path hpath => TagProvider.contains_importTags base text policy disk hpath
  | replaying p =>
    have hcall : ∀ call ∈ [TagCall.importTags base text policy], call.IsImport := by simp [TagCall.IsImport]
    simp only [importTags, replay, Replay.answer]
    cases p.replies with
    | nil => exact .replaying _ rfl hcall
    | cons reply rest =>
      cases reply with
      | qualities qualities => exact .replaying _ rfl hcall
      | failure text => exact .replaying _ rfl hcall

end Provider

namespace Depot

/-- Each provider is in its place and has grown. -/
def Grown (d d' : Depot) : Prop :=
  ∀ (index : ℕ) (p : Provider), d.providers[index]? = some p → ∃ p', d'.providers[index]? = some p' ∧ p.Grown p'

variable {d d' d'' : Depot}

theorem Grown.refl (d : Depot) : Grown d d := fun _ p hp => ⟨p, hp, .refl p⟩

theorem Grown.trans (h : Grown d d') (h' : Grown d' d'') : Grown d d'' := by
  intro index p hp
  obtain ⟨p', hp', hgrown⟩ := h index p hp
  obtain ⟨p'', hp'', hgrown'⟩ := h' index p' hp'
  exact ⟨p'', hp'', hgrown.trans hgrown'⟩

theorem grown_withDisk (d : Depot) (disk : Disk) : Grown d { d with disk } := fun _ p hp => ⟨p, hp, .refl p⟩

theorem grown_callNamed (name : String)
    {f : Disk → Provider → Except Provider.Failure (List Quality) × Provider × Disk}
    (hf : ∀ (disk : Disk) (p : Provider), p.Grown (f disk p).2.1) (d : Depot) : Grown d (d.callNamed name f).2 := by
  have hcall : ∀ index, Grown d (d.call index f).2 := by
    intro index
    unfold call
    cases hp : d.providers[index]? with
    | none => exact .refl d
    | some p =>
      intro place other hother
      simp only
      by_cases hplace : index = place
      · subst hplace
        cases hp.symm.trans hother
        have hindex : index < d.providers.length := (List.getElem?_eq_some_iff.1 hp).1
        exact ⟨_, by simp [hindex], hf d.disk p⟩
      · exact ⟨other, by simp [List.getElem?_set_ne hplace, hother], .refl other⟩
  unfold callNamed
  cases d.directory.find? name with
  | none => exact .refl d
  | some index =>
    have hindex := hcall index
    simp only
    split
    · rename_i heq
      rw [heq] at hindex
      exact hindex
    · rename_i heq
      rw [heq] at hindex
      exact hindex

theorem grows_access (name : String) (arrange : List Schema → Option (List Schema)) :
    Access.Grows Grown (access name arrange) where
  refl := .refl
  trans := .trans
  lookup := .refl
  importTags base text policy d := grown_callNamed name (Provider.grown_importTags base text policy) d

end Depot

end TagTypes
