import Mathlib.Tactic
import TagTypes.Proofs.Registry.Exchange
import TagTypes.Proofs.SchemaCache.Calls
import TagTypes.Proofs.Service.Trace

/-!
# The effect of a message

With a provider in memory a message does two things that have nothing to do with each other: the cache and the disk go through one call about the key of the message, and the registry exchanges types. Which type goes and which schema comes is said by the cache and the message. A schema that is delivered twice in a row leaves all as it is after the first time.
-/

namespace TagTypes.Service

open Registry (Exchanged)
open SchemaCache (act left?)

/-- The call of the cache that a message leads to. -/
def Message.call : Message → SchemaCache.Action
  | .received key text => .save key text
  | .deleted key => .remove key

theorem Message.key?_call (m : Message) : m.call.key? = some m.key := by cases m <;> rfl

/-- The schema that the cache takes from a message, if any. -/
def brought? (s : Service) (cache : SchemaCache) (m : Message) : Option Schema :=
  (left? (cache, s.disk) m.call).join.map CachedSchema.schema

/-- The type that is taken away for a message, if any. -/
def gone? (s : Service) (cache : SchemaCache) (m : Message) : Option String :=
  match m with
  | .received key _ => (s.brought? cache m).bind fun schema => s.outgrown? cache key schema
  | .deleted key => if s.allowDelete then some (typeOf cache key) else none

variable {s t : Service} {q q' : Registry Tags} {cache saved : SchemaCache} {m other : Message} {key text : String}
  {schema : Schema} {disk : Disk} {type : Option String}

/-! ### Types that are dropped -/

theorem activeCache?_dropType : (s.dropType type).activeCache? = s.activeCache? := by cases type <;> rfl

theorem allowDelete_dropType : (s.dropType type).allowDelete = s.allowDelete := by cases type <;> rfl

theorem arrange_dropType : (s.dropType type).arrange = s.arrange := by cases type <;> rfl

theorem Holds.disk_dropType (h : s.Holds q) (type : Option String) : (s.dropType type).disk = s.disk := by
  cases type with
  | none => rfl
  | some type => exact h.disk_removeType type

theorem Holds.exchanged_dropType (h : s.Holds q) (type : Option String) :
    ∃ q', (s.dropType type).Holds q' ∧ Exchanged s.arrange type none q q' := by
  cases type with
  | none => exact ⟨q, h, Registry.exchanged_nothing⟩
  | some type => exact ⟨_, h.removeType type, Registry.exchanged_remove type⟩

theorem deleted_active (hactive : s.activeCache? = some cache) :
    s.deleted key =
      match cache.remove key (s.dropType (s.gone? cache (.deleted key))).disk with
      | (.error _, disk) => (s.dropType (s.gone? cache (.deleted key))).withDisk disk
      | (.ok saved, disk) =>
        ({ s.dropType (s.gone? cache (.deleted key)) with cache := some saved }.withDisk disk).tell (.schemaDeleted key) := by
  rw [deleted, hactive, gone?]
  cases s.allowDelete <;> rfl

/-! ### Messages -/

/-- The service `t` with the registry `q'` is what the message makes of `s` with the registry `q`. -/
structure Handled (s : Service) (cache : SchemaCache) (q : Registry Tags) (m : Message) (t : Service) (q' : Registry Tags) :
    Prop where
  active : t.activeCache? = some (act (cache, s.disk) m.call).1
  disk : t.disk = (act (cache, s.disk) m.call).2
  allowDelete : t.allowDelete = s.allowDelete
  arrange : t.arrange = s.arrange
  holds : t.Holds q'
  exchanged : Exchanged s.arrange (s.gone? cache m) (s.brought? cache m) q q'

theorem Holds.handled_received (h : s.Holds q) (hactive : s.activeCache? = some cache) (key text : String) :
    ∃ q', Handled s cache q (.received key text) (s.received key text) q' := by
  rcases hsave : cache.save key text s.disk with ⟨e | ⟨schema, saved⟩, disk⟩
  · have hact : act (cache, s.disk) (.save key text) = (cache, disk) := by simp only [act, hsave]
    have hbrought : s.brought? cache (.received key text) = none := by
      simp only [brought?, Message.call, left?, hsave]
      rfl
    have hgone : s.gone? cache (.received key text) = none := by
      rw [gone?, hbrought]
      rfl
    rw [received_rejected hactive hsave]
    refine ⟨_, ?_, ?_, rfl, rfl, (h.withDisk disk).tell _, ?_⟩
    · rw [Message.call, hact]
      exact hactive
    · rw [Message.call, hact]
      rfl
    · rw [hbrought, hgone]
      exact Registry.exchanged_nothing.tell _
  · have hact : act (cache, s.disk) (.save key text) = (saved, disk) := by simp only [act, hsave]
    have hbrought : s.brought? cache (.received key text) = some schema := by
      simp only [brought?, Message.call, left?, hsave]
      rfl
    have hgone : s.gone? cache (.received key text) = s.outgrown? cache key schema := by
      rw [gone?, hbrought]
      rfl
    have hadmitted : (s.admitted saved disk key).Holds (q.tell (.schemaReceived key)) := (h.withDisk disk).tell _
    have hcached : (s.admitted saved disk key).activeCache? = some saved :=
      activeCache?_eq_some_iff.2 ⟨(activeCache?_eq_some_iff.1 hactive).1, rfl⟩
    obtain ⟨q', hq', hexchanged⟩ := hadmitted.exchanged_dropType (s.outgrown? cache key schema)
    have harrange : (s.admitted saved disk key).arrange = s.arrange := rfl
    rw [received_taken hactive hsave]
    refine ⟨_, ?_, ?_, allowDelete_dropType, arrange_dropType, hq'.syncType schema, ?_⟩
    · rw [Message.call, hact]
      exact activeCache?_dropType.trans hcached
    · rw [Message.call, hact]
      exact (hq'.disk_replace none schema).trans (hadmitted.disk_dropType _)
    · rw [hbrought, hgone, arrange_dropType, harrange]
      rw [harrange] at hexchanged
      exact hexchanged.of_tell.sync schema

theorem Holds.handled_deleted (h : s.Holds q) (hactive : s.activeCache? = some cache) (key : String) :
    ∃ q', Handled s cache q (.deleted key) (s.deleted key) q' := by
  have hbrought : s.brought? cache (.deleted key) = none := by
    simp only [brought?, Message.call, left?]
    cases (cache.remove key s.disk).1 <;> rfl
  have hdropped : (s.dropType (s.gone? cache (.deleted key))).activeCache? = some cache := activeCache?_dropType.trans hactive
  obtain ⟨q', hq', hexchanged⟩ := h.exchanged_dropType (s.gone? cache (.deleted key))
  rw [deleted_active hactive, h.disk_dropType]
  rcases hremove : cache.remove key s.disk with ⟨e | saved, disk⟩
  · have hact : act (cache, s.disk) (.remove key) = (cache, disk) := by simp only [act, hremove]
    refine ⟨_, ?_, ?_, allowDelete_dropType, arrange_dropType, hq'.withDisk disk, ?_⟩
    · rw [Message.call, hact]
      exact hdropped
    · rw [Message.call, hact]
      rfl
    · rw [hbrought]
      exact hexchanged
  · have hact : act (cache, s.disk) (.remove key) = (saved, disk) := by simp only [act, hremove]
    refine ⟨_, ?_, ?_, allowDelete_dropType, arrange_dropType, (hq'.withDisk disk).tell _, ?_⟩
    · rw [Message.call, hact]
      exact activeCache?_eq_some_iff.2 ⟨(activeCache?_eq_some_iff.1 hdropped).1, rfl⟩
    · rw [Message.call, hact]
      rfl
    · rw [hbrought]
      exact hexchanged.tell _

theorem Holds.handled (h : s.Holds q) (hactive : s.activeCache? = some cache) (m : Message) :
    ∃ q', Handled s cache q m (s.take m) q' := by
  cases m with
  | received key text => exact h.handled_received hactive key text
  | deleted key => exact h.handled_deleted hactive key

theorem take_inactive (hactive : s.activeCache? = none) (m : Message) : s.take m = s := by
  cases m with
  | received key text => exact received_inactive hactive
  | deleted key => exact deleted_inactive hactive

/-- A schema that came is cached. -/
theorem schema?_act_of_brought (hbrought : s.brought? cache m = some schema) :
    (act (cache, s.disk) m.call).1.schema? m.key = some schema := by
  obtain ⟨e, hentry, rfl⟩ := Option.map_eq_some_iff.1 hbrought
  have hget := (SchemaCache.turned_act (s := (cache, s.disk)) m.key?_call).get? m.key
  rw [if_pos rfl, Option.join_eq_some_iff.1 hentry, Option.getD_some] at hget
  exact SchemaCache.schema?_of_get? hget

namespace Handled

variable (h : Handled s cache q m t q')
include h

/-- The cache takes from a message what it would have taken before the other one. -/
theorem brought?_eq (other : Message) : t.brought? (act (cache, s.disk) m.call).1 other = s.brought? cache other := by
  have hleft := (SchemaCache.turned_act (s := (cache, s.disk)) m.key?_call).left? other.call
  rw [brought?, brought?, h.disk]
  exact congrArg (fun left => left.join.map CachedSchema.schema) hleft

end Handled

/-- Services are alike if their caches, files and tags are the same. -/
theorem alike_of_same {found : SchemaCache} (hs : s.activeCache? = some cache) (ht : t.activeCache? = some found)
    (hsame : SchemaCache.Same (cache, s.disk) (found, t.disk)) (hq : s.Holds q) (hq' : t.Holds q')
    (htags : q.tags.get? = q'.tags.get?) : Alike s t where
  cached := by
    rw [cached?_of_activeCache? hs, cached?_of_activeCache? ht]
    exact hsame.entries
  files := hsame.files
  stored := by
    rw [hq.config?_eq, hq'.config?_eq]
    exact Tags.config?_congr htags

/-! ### The same schema twice -/

/-- A text that is received twice in a row, whether it is accepted or not, leaves a service with a provider in memory as it is after the first time: the same files, the same cached schemas, the same definitions and the same registered types. -/
theorem received_received (hmemory : (s.registry.tags.memory? s.settings.provider.name).isSome = true) (key text : String) :
    Alike ((s.received key text).received key text) (s.received key text) ∧
      ∀ name, name ∈ ((s.received key text).received key text).registry.registered ↔
        name ∈ (s.received key text).registry.registered := by
  cases hactive : s.activeCache? with
  | none =>
    rw [received_inactive hactive, received_inactive hactive]
    exact ⟨⟨rfl, rfl, rfl⟩, fun _ => Iff.rfl⟩
  | some cache =>
    obtain ⟨q, hq⟩ := exists_holds hmemory
    obtain ⟨q₁, hfirst⟩ := hq.handled hactive (.received key text)
    obtain ⟨q₂, hsecond⟩ := hfirst.holds.handled hfirst.active (.received key text)
    -- the second time the key has the name already, so no type goes
    have hgone : (s.received key text).gone? (act (cache, s.disk) (.save key text)).1 (.received key text) = none := by
      have hbrought := hfirst.brought?_eq (.received key text)
      change (s.received key text).brought? (act (cache, s.disk) (.save key text)).1 (.received key text) = _ at hbrought
      rw [gone?, hbrought]
      cases htaken : s.brought? cache (.received key text) with
      | none => rfl
      | some schema =>
        have hcached : (act (cache, s.disk) (.save key text)).1.schema? key = some schema := schema?_act_of_brought htaken
        rw [Option.bind_some, outgrown?, hcached]
        simp [Option.filter]
    have hagain := hsecond.exchanged
    rw [hfirst.brought?_eq, hfirst.arrange] at hagain
    obtain ⟨htags, hregistered⟩ := hfirst.exchanged.again (hgone ▸ hagain)
    constructor
    · apply alike_of_same hsecond.active hfirst.active ?_ hsecond.holds hfirst.holds htags
      rw [hsecond.disk, hfirst.disk]
      exact SchemaCache.act_act (Message.key?_call (.received key text))
    · rw [← hsecond.holds.registered, ← hfirst.holds.registered] at hregistered
      exact hregistered

/-- A new title that is received twice is registered, and the title before is not stored. -/
theorem received_titled_twice :
    "C" ∈ (((withTitles "A" "B").received "a" (titled "C")).received "a" (titled "C")).registry.registered ∧
      (((withTitles "A" "B").received "a" (titled "C")).received "a" (titled "C")).config? (Registry.typePath "A") = none := by
  have hmemory : ((withTitles "A" "B").registry.tags.memory? (withTitles "A" "B").settings.provider.name).isSome = true := by
    decide +kernel
  have honce : "C" ∈ ((withTitles "A" "B").received "a" (titled "C")).registry.registered ∧
      (((withTitles "A" "B").received "a" (titled "C")).config? (Registry.typePath "A")).isNone = true := by
    decide +kernel
  obtain ⟨halike, hregistered⟩ := received_received hmemory "a" (titled "C")
  rw [hregistered, halike.stored]
  exact ⟨honce.1, Option.isNone_iff_eq_none.1 honce.2⟩

end TagTypes.Service
