import Mathlib.Tactic
import TagTypes.Proofs.TagStore.Memory

/-!
# Registries over simulated providers

A registry sees no more of its provider than the answers to its calls. If two ways to a provider answer alike and keep their states related, then the registries over them go alike: they hold the same names, tell the same events and keep their providers related. A provider in memory is related to its tags alone.
-/

namespace TagTypes

/-- `a` and `b` answer alike in states that `R` relates, and the states after an answer are related again. -/
structure Access.Simulated {σ τ : Type} (R : σ → τ → Prop) (a : Access σ) (b : Access τ) : Prop where
  lookup : ∀ {x y}, R x y → (a.lookup x).1 = (b.lookup y).1 ∧ R (a.lookup x).2 (b.lookup y).2
  importTags : ∀ {x y}, R x y → ∀ base text policy,
    (a.importTags base text policy x).1 = (b.importTags base text policy y).1 ∧
      R (a.importTags base text policy x).2 (b.importTags base text policy y).2
  removeTags : ∀ {x y}, R x y → ∀ paths,
    (a.removeTags paths x).1 = (b.removeTags paths y).1 ∧ R (a.removeTags paths x).2 (b.removeTags paths y).2
  arrange : a.arrange = b.arrange

namespace Registry

variable {σ τ : Type} {R : σ → τ → Prop} {a : Access σ} {b : Access τ}

/-- Registries that differ in the states of their providers only, and these are related. -/
structure Related (R : σ → τ → Prop) (r : Registry σ) (q : Registry τ) : Prop where
  tags : R r.tags q.tags
  registered : r.registered = q.registered
  log : r.log = q.log

section Calls

variable {x : σ} {y : τ}

theorem importTypes_simulated (hsim : Access.Simulated R a b) (hxy : R x y) (text : String) :
    (importTypes a text x).1 = (importTypes b text y).1 ∧ R (importTypes a text x).2 (importTypes b text y).2 := by
  obtain ⟨hanswer, hstate⟩ := hsim.importTags hxy typesFolder text .overwrite
  exact ⟨congrArg wentWell hanswer, hstate⟩

theorem importNested_simulated (hsim : Access.Simulated R a b) (hxy : R x y) (s : Schema) :
    R (importNested a s x) (importNested b s y) := by
  unfold importNested
  cases Udt.nestedJson? s with
  | none => exact hxy
  | some definitions => exact (importTypes_simulated hsim hxy _).2

theorem deliver_simulated (hsim : Access.Simulated R a b) (hxy : R x y) (s : Schema) :
    (deliver a s x).1 = (deliver b s y).1 ∧ R (deliver a s x).2 (deliver b s y).2 := by
  obtain ⟨hanswer, hstate⟩ := hsim.lookup hxy
  unfold deliver
  rcases hx : a.lookup x with ⟨answer, x'⟩
  rcases hy : b.lookup y with ⟨answer', y'⟩
  rw [hx, hy] at hanswer hstate
  cases hanswer
  cases answer with
  | found => exact importTypes_simulated hsim (importNested_simulated hsim hstate s) _
  | absent => exact ⟨rfl, hstate⟩
  | failed => exact ⟨rfl, hstate⟩

theorem withdraw_simulated (hsim : Access.Simulated R a b) (hxy : R x y) (type : String) :
    (withdraw a type x).1 = (withdraw b type y).1 ∧ R (withdraw a type x).2 (withdraw b type y).2 := by
  obtain ⟨hanswer, hstate⟩ := hsim.lookup hxy
  unfold withdraw
  rcases hx : a.lookup x with ⟨answer, x'⟩
  rcases hy : b.lookup y with ⟨answer', y'⟩
  rw [hx, hy] at hanswer hstate
  cases hanswer
  cases answer with
  | found =>
    obtain ⟨hqualities, hafter⟩ := hsim.removeTags hstate [typePath type]
    exact ⟨congrArg wentWell hqualities, hafter⟩
  | absent => exact ⟨rfl, hstate⟩
  | failed => exact ⟨rfl, hstate⟩

end Calls

variable {r : Registry σ} {q : Registry τ}

theorem sync_simulated (hsim : Access.Simulated R a b) (hrq : Related R r q) (s : Schema) :
    (sync a s r).1 = (sync b s q).1 ∧ Related R (sync a s r).2 (sync b s q).2 := by
  obtain ⟨hanswer, hstate⟩ := deliver_simulated hsim hrq.tags s
  refine ⟨hanswer, hstate, ?_, ?_⟩
  · simp only [sync, tell, hanswer, hrq.registered]
  · simp only [sync, tell, hanswer, hrq.log]

theorem syncEach_simulated (hsim : Access.Simulated R a b) (schemas : List Schema) :
    ∀ {r : Registry σ} {q : Registry τ}, Related R r q →
      (syncEach a schemas r).1 = (syncEach b schemas q).1 ∧ Related R (syncEach a schemas r).2 (syncEach b schemas q).2 := by
  induction schemas with
  | nil => exact fun hrq => ⟨rfl, hrq⟩
  | cons s rest ih =>
    intro r q hrq
    obtain ⟨hanswer, hstate⟩ := sync_simulated hsim hrq s
    obtain ⟨hcount, hrest⟩ := ih hstate
    refine ⟨?_, hrest⟩
    simp only [syncEach, hanswer, hcount]

theorem syncAll_simulated (hsim : Access.Simulated R a b) (hrq : Related R r q) (schemas : List Schema) :
    (syncAll a schemas r).1 = (syncAll b schemas q).1 ∧ Related R (syncAll a schemas r).2 (syncAll b schemas q).2 := by
  unfold syncAll
  rw [hsim.arrange]
  cases b.arrange schemas with
  | none => exact ⟨rfl, hrq⟩
  | some ordered =>
    obtain ⟨hcount, hstate⟩ := syncEach_simulated hsim ordered hrq
    exact ⟨congrArg some hcount, hstate⟩

theorem remove_simulated (hsim : Access.Simulated R a b) (hrq : Related R r q) (type : String) :
    (remove a type r).1 = (remove b type q).1 ∧ Related R (remove a type r).2 (remove b type q).2 := by
  obtain ⟨hanswer, hstate⟩ := withdraw_simulated hsim hrq.tags type
  refine ⟨hanswer, hstate, ?_, ?_⟩
  · simp only [remove, tell, hanswer, hrq.registered]
  · simp only [remove, tell, hanswer, hrq.log]

theorem Related.tell (hrq : Related R r q) (e : Event) : Related R (r.tell e) (q.tell e) :=
  ⟨hrq.tags, hrq.registered, congrArg (fun log : EventLog => log.tell e) hrq.log⟩

/-- Remove types one after the other. -/
def removeEach (access : Access σ) (types : List String) (r : Registry σ) : Registry σ :=
  types.foldl (fun r type => (r.remove access type).2) r

theorem removeEach_cons (access : Access σ) (type : String) (rest : List String) (r : Registry σ) :
    removeEach access (type :: rest) r = removeEach access rest (r.remove access type).2 := rfl

theorem removeEach_simulated (hsim : Access.Simulated R a b) (types : List String) :
    ∀ {r : Registry σ} {q : Registry τ}, Related R r q → Related R (removeEach a types r) (removeEach b types q) := by
  induction types with
  | nil => exact fun hrq => hrq
  | cons type rest ih =>
    intro r q hrq
    rw [removeEach_cons, removeEach_cons]
    exact ih (remove_simulated hsim hrq type).2

/-- Remove the type of the schema before, if its name is given up. -/
def giveUp (access : Access σ) (previous : Option Schema) (schema : Schema) (r : Registry σ) : Registry σ :=
  match previous with
  | some before => if before.name ≠ schema.name then (r.remove access before.name).2 else r
  | none => r

theorem giveUp_of_same {access : Access σ} {previous : Option Schema} {schema : Schema}
    (hsame : ∀ before ∈ previous, before.name = schema.name) : giveUp access previous schema r = r := by
  cases previous with
  | none => rfl
  | some before => exact if_neg (not_not_intro (hsame before rfl))

theorem giveUp_of_renamed {access : Access σ} {before schema : Schema} (hne : before.name ≠ schema.name) :
    giveUp access (some before) schema r = (r.remove access before.name).2 := if_pos hne

/-- What holds of a registry and after the removal of a name holds after the name is given up. -/
theorem giveUp_induction {P : Registry σ → Prop} {access : Access σ} {previous : Option Schema} (schema : Schema) (hr : P r)
    (hremove : ∀ before ∈ previous, P (r.remove access before.name).2) : P (giveUp access previous schema r) := by
  by_cases hsame : ∀ before ∈ previous, before.name = schema.name
  · rw [giveUp_of_same hsame]
    exact hr
  · push Not at hsame
    obtain ⟨before, hbefore, hne⟩ := hsame
    cases hbefore
    rw [giveUp_of_renamed hne]
    exact hremove before rfl

/-- Bring a schema in the place of the one before. -/
def replace (access : Access σ) (previous : Option Schema) (schema : Schema) (r : Registry σ) : Registry σ :=
  ((r.giveUp access previous schema).sync access schema).2

theorem giveUp_simulated (hsim : Access.Simulated R a b) (hrq : Related R r q) (previous : Option Schema) (schema : Schema) :
    Related R (giveUp a previous schema r) (giveUp b previous schema q) := by
  cases previous with
  | none => exact hrq
  | some before =>
    unfold giveUp
    simp only
    split
    · exact (remove_simulated hsim hrq before.name).2
    · exact hrq

theorem replace_simulated (hsim : Access.Simulated R a b) (hrq : Related R r q) (previous : Option Schema) (schema : Schema) :
    Related R (replace a previous schema r) (replace b previous schema q) :=
  (sync_simulated hsim (giveUp_simulated hsim hrq previous schema) schema).2

end Registry

namespace Depot

/-- The provider called `name` keeps these tags in memory, and the disk is `disk`. -/
def Keeps (name : String) (disk : Disk) (d : Depot) (tags : Tags) : Prop := d.memory? name = some tags ∧ d.disk = disk

/-- A provider in memory is reached like its tags. -/
theorem simulated (name : String) (disk : Disk) (arrange : List Schema → Option (List Schema)) :
    Access.Simulated (Keeps name disk) (access name arrange) (Tags.access arrange) where
  lookup := fun ⟨hmemory, hdisk⟩ => ⟨lookup_eq_found hmemory, hmemory, hdisk⟩
  importTags := by
    intro d tags hfound base text policy
    obtain ⟨hmemory, rfl⟩ := hfound
    exact importTags_memory hmemory arrange base text policy
  removeTags := by
    intro d tags hboth paths
    obtain ⟨hmemory, rfl⟩ := hboth
    exact removeTags_memory hmemory arrange paths
  arrange := rfl

end Depot

end TagTypes
