import Mathlib.Tactic
import TagTypes.Registry

/-!
# Invariants of a provider

A registry reaches its provider by lookups, by imports into the folder of types and by removals. What all of these keep, every synchronization and every removal of a type keeps, whatever the provider answers.
-/

namespace TagTypes

/-- The calls that a registry makes keep `P`. -/
structure Access.Keeps {σ : Type} (P : σ → Prop) (access : Access σ) : Prop where
  lookup : ∀ {x}, P x → P (access.lookup x).2
  importTags : ∀ {x}, P x → ∀ text policy, P (access.importTags Registry.typesFolder text policy x).2
  removeTags : ∀ {x}, P x → ∀ paths, P (access.removeTags paths x).2

namespace Registry

variable {σ : Type} {P : σ → Prop} {access : Access σ} (h : access.Keeps P)
include h

theorem importTypes_keeps {x : σ} (hx : P x) (text : String) : P (importTypes access text x).2 := h.importTags hx text .overwrite

theorem importNested_keeps {x : σ} (hx : P x) (s : Schema) : P (importNested access s x) := by
  unfold importNested
  cases Udt.nestedJson? s with
  | none => exact hx
  | some definitions => exact importTypes_keeps h hx _

theorem deliver_keeps {x : σ} (hx : P x) (s : Schema) : P (deliver access s x).2 := by
  have hlookup := h.lookup hx
  unfold deliver
  rcases hfound : access.lookup x with ⟨answer, y⟩
  rw [hfound] at hlookup
  cases answer with
  | found => exact importTypes_keeps h (importNested_keeps h hlookup s) _
  | absent | failed => exact hlookup

theorem sync_keeps {r : Registry σ} (hr : P r.tags) (s : Schema) : P (sync access s r).2.tags := deliver_keeps h hr s

theorem syncEach_keeps (schemas : List Schema) {r : Registry σ} (hr : P r.tags) : P (syncEach access schemas r).2.tags := by
  induction schemas generalizing r with
  | nil => exact hr
  | cons s rest ih => exact ih (sync_keeps h hr s)

theorem syncAll_keeps {r : Registry σ} (hr : P r.tags) (schemas : List Schema) : P (syncAll access schemas r).2.tags := by
  unfold syncAll
  cases access.arrange schemas with
  | none => exact hr
  | some ordered => exact syncEach_keeps h ordered hr

theorem remove_keeps {r : Registry σ} (hr : P r.tags) (type : String) : P (remove access type r).2.tags := by
  have hlookup := h.lookup hr
  simp only [remove, withdraw, tell]
  rcases hfound : access.lookup r.tags with ⟨answer, y⟩
  rw [hfound] at hlookup
  cases answer with
  | found => exact h.removeTags hlookup _
  | absent | failed => exact hlookup

end Registry

end TagTypes
