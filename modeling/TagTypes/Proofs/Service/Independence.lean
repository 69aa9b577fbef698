import Mathlib.Tactic
import TagTypes.Proofs.Service.Effect

/-!
# Independent messages

A message concerns its key and some types: the one that its key has, or the key itself if it is to be deleted and nothing is cached under it, and those that its schema describes. What it does to caches, files, definitions and registered types depends on these alone and is done to these alone. So of two messages that are about different keys, and concern no types with the same path, it does not matter which one comes first.
-/

namespace TagTypes.Service

open Registry (Touches typePath)
open SchemaCache (act)
open TagPath (normalize)
open Udt (typeNames)

/-- The types that a message concerns. -/
def concerns (s : Service) (m : Message) : List String :=
  match s.activeCache? with
  | none => []
  | some cache =>
    (match m with
      | .received key _ => ((cache.schema? key).map Schema.name).toList
      | .deleted key => [typeOf cache key]) ++
    ((s.brought? cache m).map typeNames).getD []

/-- The messages are about different keys, and the paths of the types that they concern are different in normal form. -/
structure Independent (s : Service) (m other : Message) : Prop where
  key_ne : m.key ≠ other.key
  apart : ∀ type ∈ s.concerns m, ∀ otherType ∈ s.concerns other, normalize (typePath type) ≠ normalize (typePath otherType)

variable {s t : Service} {q q' : Registry Tags} {cache : SchemaCache} {m other : Message} {path : String}

/-- Only the paths of types that the message concerns are touched. -/
theorem exists_concern_of_touches (hactive : s.activeCache? = some cache)
    (htouch : Touches (s.gone? cache m) (s.brought? cache m) path) : ∃ type ∈ s.concerns m, normalize (typePath type) = path := by
  rw [concerns, hactive]
  simp only [List.mem_append]
  obtain ⟨type, htype, hpath⟩ | ⟨schema, hschema, name, hname, hpath⟩ := htouch
  · refine ⟨type, Or.inl ?_, hpath⟩
    cases m with
    | received key text =>
      obtain ⟨schema, -, hgone⟩ := Option.bind_eq_some_iff.1 htype
      unfold outgrown? at hgone
      split at hgone
      · rw [Option.filter_eq_some_iff] at hgone
        simp [hgone.1]
      · cases hgone
    | deleted key =>
      unfold gone? at htype
      simp only at htype
      split at htype
      · cases htype
        exact List.mem_singleton.2 rfl
      · cases htype
  · rw [Option.mem_def] at hschema
    refine ⟨name, Or.inr ?_, hpath⟩
    rw [hschema]
    exact hname

/-- What is cached under another key stays. -/
theorem schema?_act_of_ne (hne : m.key ≠ other.key) :
    (act (cache, s.disk) m.call).1.schema? other.key = cache.schema? other.key := by
  have hget := (SchemaCache.turned_act (s := (cache, s.disk)) m.key?_call).get? other.key
  rw [if_neg hne] at hget
  exact SchemaCache.schema?_congr hget

/-- For a message about another key the same type goes as if it had come first. -/
theorem Handled.gone?_eq (h : Handled s cache q m t q') (hne : m.key ≠ other.key) :
    t.gone? (act (cache, s.disk) m.call).1 other = s.gone? cache other := by
  have hkept : (act (cache, s.disk) m.call).1.schema? other.key = _ := schema?_act_of_ne hne
  have hbrought := h.brought?_eq other
  cases other with
  | received key text =>
    change (act (cache, s.disk) m.call).1.schema? key = cache.schema? key at hkept
    rw [gone?, gone?, hbrought]
    simp only [outgrown?, h.allowDelete, hkept]
  | deleted key =>
    change (act (cache, s.disk) m.call).1.schema? key = cache.schema? key at hkept
    rw [gone?, gone?, h.allowDelete, typeOf, typeOf, hkept]

/-- Two messages that are independent in a state of a service with a provider in memory come to the same in either order: the same files, the same cached schemas, the same definitions and the same registered types. -/
theorem take_comm (hmemory : (s.registry.tags.memory? s.settings.provider.name).isSome = true) (m other : Message)
    (hindependent : s.Independent m other) :
    Alike ((s.take m).take other) ((s.take other).take m) ∧
      ∀ name, name ∈ ((s.take m).take other).registry.registered ↔ name ∈ ((s.take other).take m).registry.registered := by
  cases hactive : s.activeCache? with
  | none =>
    rw [take_inactive hactive, take_inactive hactive, take_inactive hactive]
    exact ⟨⟨rfl, rfl, rfl⟩, fun _ => Iff.rfl⟩
  | some cache =>
    have hne := hindependent.key_ne
    obtain ⟨q, hq⟩ := exists_holds hmemory
    obtain ⟨q₁, hfirst⟩ := hq.handled hactive m
    obtain ⟨q₁₂, hboth⟩ := hfirst.holds.handled hfirst.active other
    obtain ⟨q₂, hfirst'⟩ := hq.handled hactive other
    obtain ⟨q₂₁, hboth'⟩ := hfirst'.holds.handled hfirst'.active m
    have hthen := hboth.exchanged
    have hthen' := hboth'.exchanged
    rw [hfirst.gone?_eq hne, hfirst.brought?_eq, hfirst.arrange] at hthen
    rw [hfirst'.gone?_eq hne.symm, hfirst'.brought?_eq, hfirst'.arrange] at hthen'
    have hapart : ∀ path, Touches (s.gone? cache m) (s.brought? cache m) path →
        ¬Touches (s.gone? cache other) (s.brought? cache other) path := by
      intro path htouch htouch'
      obtain ⟨type, htype, rfl⟩ := exists_concern_of_touches hactive htouch
      obtain ⟨otherType, hother, hpath⟩ := exists_concern_of_touches hactive htouch'
      exact hindependent.apart type htype otherType hother hpath.symm
    obtain ⟨htags, hregistered⟩ := hfirst.exchanged.comm hthen hfirst'.exchanged hthen' hapart
    constructor
    · apply alike_of_same hboth.active hboth'.active ?_ hboth.holds hboth'.holds htags
      rw [hboth.disk, hboth'.disk, hfirst.disk, hfirst'.disk]
      exact SchemaCache.act_comm m.key?_call other.key?_call hne
    · rw [← hboth.holds.registered, ← hboth'.holds.registered] at hregistered
      exact hregistered

/-- A new title for one key and the deletion of another one are independent, so the new title is registered and the other type is not stored, whichever comes first. -/
theorem take_comm_titles :
    (withTitles "A" "B").Independent (.received "a" (titled "C")) (.deleted "b") ∧
    "C" ∈ (((withTitles "A" "B").take (.received "a" (titled "C"))).take (.deleted "b")).registry.registered ∧
    (((withTitles "A" "B").take (.received "a" (titled "C"))).take (.deleted "b")).config? (typePath "B") = none := by
  have hmemory : ((withTitles "A" "B").registry.tags.memory? (withTitles "A" "B").settings.provider.name).isSome = true := by
    decide +kernel
  have hindependent : (withTitles "A" "B").Independent (.received "a" (titled "C")) (.deleted "b") :=
    ⟨by decide, by decide +kernel⟩
  have hother : "C" ∈ (((withTitles "A" "B").take (.deleted "b")).take (.received "a" (titled "C"))).registry.registered ∧
      ((((withTitles "A" "B").take (.deleted "b")).take (.received "a" (titled "C"))).config? (typePath "B")).isNone = true := by
    decide +kernel
  obtain ⟨halike, hregistered⟩ := take_comm hmemory _ _ hindependent
  rw [hregistered, halike.stored]
  exact ⟨hindependent, hother.1, Option.isNone_iff_eq_none.1 hother.2⟩

end TagTypes.Service
