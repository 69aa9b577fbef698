import Mathlib.Tactic
import TagTypes.Registry

/-!
# Calls that throw

A registry reaches its provider through calls that may throw. What an import throws is caught around the import, so that the import of a schema's own type is tried whatever becomes of the types made for its inline objects; what else is thrown is caught around the whole call. So nothing is thrown out of a registry, and what it gives is what the calls of the registry give.
-/

namespace TagTypes

/-- A computation over the state of a provider that may throw. What it did to the state before is not undone. -/
abbrev Throwing (σ : Type) := ExceptT Unit (StateM σ)

namespace Throwing

variable {σ : Type}

/-- Look for the provider; tells whether it is there. -/
def find (access : Access σ) : Throwing σ Bool := fun tags =>
  match access.lookup tags with
  | (.found, tags) => (.ok true, tags)
  | (.absent, tags) => (.ok false, tags)
  | (.failed, tags) => (.error (), tags)

/-- Call the provider. A call that fails throws. -/
def call (request : σ → Option (List Quality) × σ) : Throwing σ (List Quality) := fun tags =>
  match request tags with
  | (some qualities, tags) => (.ok qualities, tags)
  | (none, tags) => (.error (), tags)

/-- Whatever is thrown is a failure. -/
def guarded (action : Throwing σ Bool) : Throwing σ Bool := tryCatch action fun _ => pure false

/-- Import definitions. What the call throws gets no further. -/
def importTypes (access : Access σ) (text : String) : Throwing σ Bool := guarded do
  let qualities ← call (access.importTags Registry.typesFolder text .overwrite)
  pure (qualities.all Quality.isGood)

/-- Bring the types of a schema to the provider. -/
def deliver (access : Access σ) (s : Schema) : Throwing σ Bool := guarded do
  if ← find access then
    if let some definitions := Udt.nestedJson? s then
      let _ ← importTypes access definitions.compactText
    importTypes access (Udt.definitionText s)
  else
    pure false

/-- Take a type from the provider. -/
def withdraw (access : Access σ) (type : String) : Throwing σ Bool := guarded do
  if ← find access then
    let qualities ← call (access.removeTags [Registry.typePath type])
    pure (qualities.all Quality.isGood)
  else
    pure false

variable {α β : Type}

theorem bind_apply (x : Throwing σ α) (f : α → Throwing σ β) (tags : σ) : (x >>= f) tags =
    match x tags with
    | (.ok a, tags) => f a tags
    | (.error e, tags) => (.error e, tags) := by
  simp only [bind, ExceptT.bind, ExceptT.mk, StateT.bind, ExceptT.bindCont]
  rcases x tags with ⟨_ | a, tags'⟩ <;> rfl

theorem tryCatch_apply (x : Throwing σ α) (f : Unit → Throwing σ α) (tags : σ) : tryCatch x f tags =
    match x tags with
    | (.ok a, tags) => (.ok a, tags)
    | (.error e, tags) => f e tags := by
  simp only [tryCatch, tryCatchThe, MonadExceptOf.tryCatch, ExceptT.tryCatch, ExceptT.mk, bind, StateT.bind]
  rcases x tags with ⟨_ | a, tags'⟩ <;> rfl

section Handled

variable (access : Access σ) (tags : σ)

/-- Nothing that an import throws gets out of it. -/
theorem importTypes_apply (text : String) :
    importTypes access text tags = (.ok (Registry.importTypes access text tags).1, (Registry.importTypes access text tags).2) := by
  rw [importTypes, guarded, tryCatch_apply, bind_apply, call, Registry.importTypes]
  rcases access.importTags Registry.typesFolder text .overwrite tags with ⟨_ | qualities, tags'⟩ <;> rfl

/-- Nothing that a synchronization throws gets out of it. -/
theorem deliver_apply (s : Schema) :
    deliver access s tags = (.ok (Registry.deliver access s tags).1, (Registry.deliver access s tags).2) := by
  rw [deliver, guarded, tryCatch_apply, bind_apply, find, Registry.deliver]
  rcases access.lookup tags with ⟨_ | _ | _, tags'⟩
  · simp only [if_true, Registry.importNested]
    cases Udt.nestedJson? s with
    | none => simp only [importTypes_apply]
    | some definitions => simp only [bind_apply, importTypes_apply]
  · rfl
  · rfl

/-- Nothing that a removal throws gets out of it. -/
theorem withdraw_apply (type : String) :
    withdraw access type tags = (.ok (Registry.withdraw access type tags).1, (Registry.withdraw access type tags).2) := by
  rw [withdraw, guarded, tryCatch_apply, bind_apply, find, Registry.withdraw]
  rcases access.lookup tags with ⟨_ | _ | _, tags'⟩
  · rcases hcall : access.removeTags [Registry.typePath type] tags' with ⟨_ | qualities, tags''⟩ <;>
      simp only [if_true, bind_apply, call, hcall] <;> rfl
  · rfl
  · rfl

end Handled

end Throwing

end TagTypes
