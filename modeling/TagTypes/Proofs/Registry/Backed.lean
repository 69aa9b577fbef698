import Mathlib.Tactic
import TagTypes.Proofs.Registry.Memory

/-!
# Registered types and stored types

Names are registered as they are written, definitions are stored by path. A synchronization keeps the two in step: the type it registers has a name that can name a tag and is stored. A removal keeps them in step unless the path it is given leads to a registered type of another spelling: then that type is gone from the store and its name stays.
-/

namespace TagTypes.Registry

open TagPath (IsName segments normalize)

/-- Every registered type has a name that can name a tag. -/
def AllNamed (registered : List String) : Prop := ∀ name ∈ registered, IsName name

/-- Every registered type has a definition in the folder of types. -/
def AllStored (registered : List String) (tags : Tags) : Prop :=
  ∀ name ∈ registered, (tags.config? (typePath name)).isSome = true

/-- The path of `type` is the path of a registered type that is spelled otherwise. -/
def Strays (type : String) (registered : List String) : Prop := ∃ name ∈ registered, name ≠ type ∧ segments type = [name]

theorem not_strays_of_plain {type : String} (htype : '/' ∉ type.toList) (registered : List String) :
    ¬Strays type registered := by
  intro hfound
  obtain ⟨name, -, hne, hsegments⟩ := hfound
  exact hne (TagPath.eq_of_segments_eq_singleton htype hsegments).symm

/-! ### Registries over any provider -/

section Any

variable {σ : Type} {access : Access σ} {r : Registry σ}

theorem registered_remove_subset (type : String) : (remove access type r).2.registered ⊆ r.registered := by
  intro name hname
  unfold remove at hname
  simp only [tell] at hname
  split at hname
  · exact (List.mem_filter.1 hname).1
  · exact hname

end Any

/-! ### Registries over tags in memory -/

variable {arrange : List Schema → Option (List Schema)} {r : Registry Tags}

theorem AllNamed.sync (hr : AllNamed r.registered) (s : Schema) :
    AllNamed (sync (Tags.access arrange) s r).2.registered := by
  intro name hname
  rcases mem_registered_sync.1 hname with hname | ⟨hstored, rfl⟩
  · exact hr name hname
  · exact Udt.isName_of_stored? hstored

theorem AllNamed.remove (hr : AllNamed r.registered) (type : String) :
    AllNamed (remove (Tags.access arrange) type r).2.registered :=
  fun name hname => hr name (registered_remove_subset type hname)

theorem AllNamed.syncEach (schemas : List Schema) :
    ∀ {r : Registry Tags}, AllNamed r.registered → AllNamed (syncEach (Tags.access arrange) schemas r).2.registered := by
  induction schemas with
  | nil => exact fun hr => hr
  | cons s rest ih =>
    intro r hr
    rw [syncEach_cons]
    exact ih (hr.sync s)

theorem AllNamed.syncAll (hr : AllNamed r.registered) (schemas : List Schema) :
    AllNamed (syncAll (Tags.access arrange) schemas r).2.registered := by
  unfold Registry.syncAll
  cases (Tags.access arrange).arrange schemas with
  | none => exact hr
  | some ordered => exact AllNamed.syncEach ordered hr

theorem AllStored.sync (hr : AllStored r.registered r.tags) (s : Schema) :
    AllStored (sync (Tags.access arrange) s r).2.registered (sync (Tags.access arrange) s r).2.tags := by
  intro name hname
  rcases mem_registered_sync.1 hname with hname | ⟨hstored, rfl⟩
  · exact isSome_config?_sync (hr name hname)
  · obtain ⟨v, hv⟩ := Option.isSome_iff_exists.1 hstored
    rw [config?_sync hv]
    rfl

/-- A removal keeps the registered types stored if and only if it does not stray to another one. -/
theorem AllStored.remove_iff (hnamed : AllNamed r.registered) (hr : AllStored r.registered r.tags) (type : String) :
    AllStored (remove (Tags.access arrange) type r).2.registered (remove (Tags.access arrange) type r).2.tags ↔
      ¬Strays type r.registered := by
  constructor
  · intro hstored hfound
    obtain ⟨name, hname, hne, hsegments⟩ := hfound
    have hpath : normalize (typePath type) = normalize (typePath name) := by
      rw [normalize_typePath_eq_iff, hsegments, TagPath.segments_of_isName (hnamed name hname)]
    have hkept : name ∈ (Registry.remove (Tags.access arrange) type r).2.registered :=
      mem_registered_remove.2 ⟨hname, fun h => hne h.2⟩
    have hgone := hstored name hkept
    rw [tags_remove, hpath, if_pos (Tags.contains_of_config? (hr name hname)), Tags.config?_erase, if_pos rfl] at hgone
    exact Bool.noConfusion hgone
  · intro hstrays name hname
    obtain ⟨hname, hgone⟩ := mem_registered_remove.1 hname
    by_cases hcontains : r.tags.contains (normalize (typePath type)) = true
    · have hne : name ≠ type := fun heq => hgone ⟨hcontains, heq⟩
      have hpath : normalize (typePath type) ≠ normalize (typePath name) := by
        rw [Ne, normalize_typePath_eq_iff, TagPath.segments_of_isName (hnamed name hname)]
        exact fun hsegments => hstrays ⟨name, hname, hne, hsegments⟩
      rw [config?_remove_of_ne hpath]
      exact hr name hname
    · rw [tags_remove, if_neg hcontains]
      exact hr name hname

/-- Names and definitions are in step. -/
structure InStep (r : Registry Tags) : Prop where
  named : AllNamed r.registered
  stored : AllStored r.registered r.tags

theorem InStep.sync (hr : InStep r) (s : Schema) : InStep (sync (Tags.access arrange) s r).2 :=
  ⟨hr.named.sync s, hr.stored.sync s⟩

theorem InStep.remove_iff (hr : InStep r) (type : String) :
    InStep (remove (Tags.access arrange) type r).2 ↔ ¬Strays type r.registered :=
  ⟨fun h => (hr.stored.remove_iff hr.named type).1 h.stored,
    fun h => ⟨hr.named.remove type, (hr.stored.remove_iff hr.named type).2 h⟩⟩

theorem InStep.syncEach (schemas : List Schema) :
    ∀ {r : Registry Tags}, InStep r → InStep (syncEach (Tags.access arrange) schemas r).2 := by
  induction schemas with
  | nil => exact fun hr => hr
  | cons s rest ih =>
    intro r hr
    rw [syncEach_cons]
    exact ih (hr.sync s)

theorem InStep.syncAll (hr : InStep r) (schemas : List Schema) : InStep (syncAll (Tags.access arrange) schemas r).2 := by
  unfold Registry.syncAll
  cases (Tags.access arrange).arrange schemas with
  | none => exact hr
  | some ordered => exact InStep.syncEach ordered hr

theorem InStep.mem_remove (hr : InStep r) {type name : String} :
    name ∈ (remove (Tags.access arrange) type r).2.registered ↔ name ∈ r.registered ∧ name ≠ type := by
  rw [mem_registered_remove]
  refine and_congr_right fun hname => ?_
  constructor
  · intro hgone heq
    subst heq
    exact hgone ⟨Tags.contains_of_config? (hr.stored name hname), rfl⟩
  · exact fun hne h => hne h.2

theorem InStep.remove (hr : InStep r) {type : String} (htype : '/' ∉ type.toList) :
    InStep (remove (Tags.access arrange) type r).2 :=
  (hr.remove_iff type).2 (not_strays_of_plain htype _)

theorem InStep.removeEach {types : List String} (htypes : ∀ type ∈ types, '/' ∉ type.toList) :
    ∀ {r : Registry Tags}, InStep r → InStep (removeEach (Tags.access arrange) types r) := by
  induction types with
  | nil => exact fun hr => hr
  | cons type rest ih =>
    intro r hr
    rw [removeEach_cons]
    exact ih (fun other hother => htypes other (by simp [hother])) (hr.remove (htypes type (by simp)))

theorem InStep.mem_removeEach {types : List String} (htypes : ∀ type ∈ types, '/' ∉ type.toList) {name : String} :
    ∀ {r : Registry Tags}, InStep r →
      (name ∈ (Registry.removeEach (Tags.access arrange) types r).registered ↔ name ∈ r.registered ∧ name ∉ types) := by
  induction types with
  | nil =>
    intro r hr
    simp [Registry.removeEach]
  | cons type rest ih =>
    intro r hr
    have hrest : InStep (Registry.remove (Tags.access arrange) type r).2 := hr.remove (htypes type (by simp))
    rw [removeEach_cons, ih (fun other hother => htypes other (by simp [hother])) hrest, hr.mem_remove]
    simp only [List.mem_cons, not_or, and_assoc]

theorem AllNamed.removeEach (types : List String) :
    ∀ {r : Registry Tags}, AllNamed r.registered → AllNamed (Registry.removeEach (Tags.access arrange) types r).registered := by
  induction types with
  | nil => exact fun hr => hr
  | cons type rest ih =>
    intro r hr
    rw [removeEach_cons]
    exact ih (hr.remove type)

theorem AllNamed.giveUp (hr : AllNamed r.registered) (previous : Option Schema) (s : Schema) :
    AllNamed (Registry.giveUp (Tags.access arrange) previous s r).registered := by
  apply giveUp_induction (P := fun r => AllNamed r.registered) s hr
  intro before _
  exact hr.remove before.name

theorem InStep.giveUp (hr : InStep r) {previous : Option Schema} (hprevious : ∀ before ∈ previous, '/' ∉ before.name.toList)
    (s : Schema) : InStep (Registry.giveUp (Tags.access arrange) previous s r) := by
  apply giveUp_induction s hr
  intro before hbefore
  exact hr.remove (hprevious before hbefore)

theorem InStep.mem_giveUp (hr : InStep r) {previous : Option Schema} {s : Schema} {name : String} :
    name ∈ (Registry.giveUp (Tags.access arrange) previous s r).registered ↔
      name ∈ r.registered ∧ ∀ before ∈ previous, before.name = name → name = s.name := by
  by_cases hsame : ∀ before ∈ previous, before.name = s.name
  · rw [giveUp_of_same hsame]
    refine ⟨fun hname => ⟨hname, ?_⟩, And.left⟩
    intro before hbefore heq
    rw [← heq]
    exact hsame before hbefore
  · push Not at hsame
    obtain ⟨before, hbefore, hne⟩ := hsame
    cases hbefore
    rw [giveUp_of_renamed hne, hr.mem_remove]
    refine and_congr_right fun _ => ?_
    constructor
    · intro hname other hother heq
      cases hother
      exact absurd heq.symm hname
    · intro hall heq
      subst heq
      exact hne (hall before rfl rfl)

theorem AllNamed.replace (hr : AllNamed r.registered) (previous : Option Schema) (s : Schema) :
    AllNamed (Registry.replace (Tags.access arrange) previous s r).registered := by
  rw [Registry.replace]
  exact (hr.giveUp previous s).sync s

theorem InStep.replace (hr : InStep r) {previous : Option Schema} (hprevious : ∀ before ∈ previous, '/' ∉ before.name.toList)
    (s : Schema) : InStep (Registry.replace (Tags.access arrange) previous s r) := by
  rw [Registry.replace]
  exact (hr.giveUp hprevious s).sync s

/-! ### Runs of calls -/

/-- What may be asked of a registry. -/
inductive Call where
  | sync (s : Schema)
  | syncAll (schemas : List Schema)
  | remove (type : String)

def perform {σ : Type} (access : Access σ) (r : Registry σ) : Call → Registry σ
  | .sync s => (sync access s r).2
  | .syncAll schemas => (syncAll access schemas r).2
  | .remove type => (remove access type r).2

def run {σ : Type} (access : Access σ) (calls : List Call) (r : Registry σ) : Registry σ := calls.foldl (perform access) r

theorem run_cons {σ : Type} (access : Access σ) (call : Call) (rest : List Call) (r : Registry σ) :
    run access (call :: rest) r = run access rest (perform access r call) := rfl

theorem perform_simulated {σ τ : Type} {R : σ → τ → Prop} {a : Access σ} {b : Access τ} (hsim : Access.Simulated R a b)
    {r : Registry σ} {q : Registry τ} (hrq : Related R r q) (call : Call) :
    Related R (perform a r call) (perform b q call) := by
  cases call with
  | sync s => exact (sync_simulated hsim hrq s).2
  | syncAll schemas => exact (syncAll_simulated hsim hrq schemas).2
  | remove type => exact (remove_simulated hsim hrq type).2

theorem run_simulated {σ τ : Type} {R : σ → τ → Prop} {a : Access σ} {b : Access τ} (hsim : Access.Simulated R a b)
    (calls : List Call) : ∀ {r : Registry σ} {q : Registry τ}, Related R r q → Related R (run a calls r) (run b calls q) := by
  induction calls with
  | nil => exact fun hrq => hrq
  | cons call rest ih => exact fun hrq => ih (perform_simulated hsim hrq call)

/-- The call is a removal that strays to another registered type. -/
def Call.Stray (registered : List String) : Call → Prop
  | .remove type => Strays type registered
  | _ => False

theorem InStep.perform_iff (hr : InStep r) (call : Call) :
    InStep (perform (Tags.access arrange) r call) ↔ ¬call.Stray r.registered := by
  cases call with
  | sync s =>
    rw [perform]
    exact iff_of_true (hr.sync s) not_false
  | syncAll schemas =>
    rw [perform]
    exact iff_of_true (hr.syncAll schemas) not_false
  | remove type =>
    rw [perform]
    exact hr.remove_iff type

theorem InStep.run_iff (calls : List Call) : ∀ {r : Registry Tags}, InStep r →
    ((∀ k, InStep (run (Tags.access arrange) (calls.take k) r)) ↔
      ∀ (k : ℕ) (call : Call), calls[k]? = some call → ¬call.Stray (run (Tags.access arrange) (calls.take k) r).registered) := by
  induction calls with
  | nil =>
    intro r hr
    exact iff_of_true (fun k => by rw [List.take_nil]; exact hr) (fun k call hcall => by simp at hcall)
  | cons first rest ih =>
    intro r hr
    constructor
    · intro hall k call hcall
      have hfirst : InStep (perform (Tags.access arrange) r first) := by
        have hone := hall 1
        rwa [List.take_succ_cons, run_cons] at hone
      cases k with
      | zero =>
        cases hcall
        exact (hr.perform_iff first).1 hfirst
      | succ k =>
        rw [List.take_succ_cons, run_cons]
        refine (ih hfirst).1 (fun j => ?_) k call hcall
        have hnext := hall (j + 1)
        rwa [List.take_succ_cons, run_cons] at hnext
    · intro hnone k
      have hfirst : InStep (perform (Tags.access arrange) r first) := (hr.perform_iff first).2 (hnone 0 first rfl)
      cases k with
      | zero => exact hr
      | succ k =>
        rw [List.take_succ_cons, run_cons]
        refine (ih hfirst).2 (fun j call hcall => ?_) k
        have hnext := hnone (j + 1) call hcall
        rwa [List.take_succ_cons, run_cons] at hnext

theorem AllNamed.perform (hr : AllNamed r.registered) (call : Call) :
    AllNamed (perform (Tags.access arrange) r call).registered := by
  cases call with
  | sync s =>
    rw [Registry.perform]
    exact hr.sync s
  | syncAll schemas =>
    rw [Registry.perform]
    exact hr.syncAll schemas
  | remove type =>
    rw [Registry.perform]
    exact hr.remove type

theorem AllNamed.run (calls : List Call) :
    ∀ {r : Registry Tags}, AllNamed r.registered → AllNamed (run (Tags.access arrange) calls r).registered := by
  induction calls with
  | nil => exact fun hr => hr
  | cons call rest ih =>
    intro r hr
    rw [run_cons]
    exact ih (hr.perform call)

/-! ### Registries over a provider in memory -/

/-- Every registered type has a definition with the provider called `provider`, which keeps them in memory. -/
def StoredIn (provider : String) (r : Registry Depot) : Prop :=
  ∀ name ∈ r.registered, (r.tags.config? provider (typePath name)).isSome = true

section Provider

variable {provider : String} {d : Depot} {tags : Tags} (arrange : List Schema → Option (List Schema))

theorem storedIn_iff {disk : Disk} {r : Registry Depot} {q : Registry Tags} (hrq : Related (Depot.Keeps provider disk) r q) :
    StoredIn provider r ↔ AllStored q.registered q.tags := by
  unfold StoredIn AllStored
  rw [hrq.registered]
  exact forall₂_congr fun name _ => by rw [Depot.config?_of_memory? hrq.tags.1]

/-- In every state of a run that begins without registered types, all registered types are stored, if and only if no removal in it strays to a registered type of another spelling. -/
theorem storedIn_run_iff (hd : d.memory? provider = some tags) (calls : List Call) :
    (∀ k, StoredIn provider (run (Depot.access provider arrange) (calls.take k) { tags := d })) ↔
      ∀ (k : ℕ) (type : String), calls[k]? = some (.remove type) →
        ¬Strays type (run (Depot.access provider arrange) (calls.take k) { tags := d }).registered := by
  have hrelated := fun k => run_simulated (Depot.simulated provider d.disk arrange) (calls.take k)
    (r := { tags := d }) (q := { tags }) ⟨⟨hd, rfl⟩, rfl, rfl⟩
  have hnamed : ∀ k, AllNamed (run (Tags.access arrange) (calls.take k) { tags }).registered :=
    fun k => AllNamed.run (calls.take k) (by simp [AllNamed])
  have hstart : InStep { tags } := ⟨by simp [AllNamed], by simp [AllStored]⟩
  calc (∀ k, StoredIn provider (run (Depot.access provider arrange) (calls.take k) { tags := d }))
      ↔ ∀ k, InStep (run (Tags.access arrange) (calls.take k) { tags }) :=
        forall_congr' fun k => (storedIn_iff (hrelated k)).trans ⟨fun h => ⟨hnamed k, h⟩, InStep.stored⟩
    _ ↔ ∀ (k : ℕ) (call : Call), calls[k]? = some call →
          ¬call.Stray (run (Tags.access arrange) (calls.take k) { tags }).registered := InStep.run_iff calls hstart
    _ ↔ ∀ (k : ℕ) (type : String), calls[k]? = some (.remove type) →
          ¬Strays type (run (Depot.access provider arrange) (calls.take k) { tags := d }).registered := by
        constructor
        · intro h k type hcall
          rw [(hrelated k).registered]
          exact h k (.remove type) hcall
        · intro h k call hcall
          cases call with
          | sync s => exact not_false
          | syncAll schemas => exact not_false
          | remove type =>
            have htype := h k type hcall
            rw [(hrelated k).registered] at htype
            exact htype

/-- Removals in the spelling of the types keep all registered types stored. -/
theorem storedIn_run_spelled :
    (Depot.ofMemory "default").memory? "default" = some ∅ ∧
      ∀ k, StoredIn "default" (run (Depot.access "default" some)
        ([Call.sync { name := "A" }, .sync { name := "B" }, .remove "A"].take k) { tags := Depot.ofMemory "default" }) := by
  refine ⟨Depot.memory?_ofMemory "default", (storedIn_run_iff some (Depot.memory?_ofMemory "default") _).2 ?_⟩
  intro k type hcall
  have htype : type = "A" := by
    match k, hcall with
    | 2, hcall =>
      cases hcall
      rfl
  rw [htype]
  exact not_strays_of_plain (by decide) _

/-- A removal by the path `A/` takes the definition of `A` and leaves its name registered. -/
theorem not_storedIn_run_strayed :
    ¬∀ calls : List Call, StoredIn "default" (run (Depot.access "default" some) calls { tags := Depot.ofMemory "default" }) := by
  intro hall
  have hregistered : "A" ∈ (run (Depot.access "default" some) [.sync { name := "A" }, .remove "A/"]
      { tags := Depot.ofMemory "default" }).registered := by
    decide +kernel
  have hgone : ((run (Depot.access "default" some) [.sync { name := "A" }, .remove "A/"]
      { tags := Depot.ofMemory "default" }).tags.config? "default" (typePath "A")).isSome = false := by
    decide +kernel
  have hstored := hall [.sync { name := "A" }, .remove "A/"] "A" hregistered
  rw [hgone] at hstored
  exact Bool.noConfusion hstored

end Provider

end TagTypes.Registry
