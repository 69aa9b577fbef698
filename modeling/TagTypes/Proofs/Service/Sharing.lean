import Mathlib.Tactic
import TagTypes.Proofs.Service.Run

/-!
# Messages and the types of other keys

A message for one key may take a type away that another key has. Which type a message gives up is said by the cache and the message alone: the name a key had before, if the key gets a schema of another name, or the name of a deleted key, or the key itself if nothing is cached for it. No matter whether another key has the same name, the type at the path of that name is removed; it is there after the message only if the path was spelled otherwise than the name and the schema of the message describes the type again.
-/

namespace TagTypes.Service

open Registry (typePath nestedPaths)
open TagPath (IsName segments normalize)

/-- The type that a message gives up, if any. -/
def givenUp? (s : Service) (cache : SchemaCache) : Message → Option String
  | .received key text =>
    match (cache.save key text s.disk).1, cache.schema? key with
    | .ok (schema, _), some before => if before.name ≠ schema.name then some before.name else none
    | _, _ => none
  | .deleted key => some (typeOf cache key)

/-- The schema of a message describes a type, as its own or for an inline object. -/
def Message.Describes (type : String) : Message → Prop
  | .received key text => ∃ schema, Schema.parse key text = .ok schema ∧
      (schema.name = type ∨ typePath type ∈ nestedPaths schema)
  | .deleted _ => False

/-- The message takes a type away. -/
def TakesAway (s : Service) (cache : SchemaCache) (m : Message) (type : String) : Prop :=
  ∃ gone ∈ givenUp? s cache m, segments gone = [type] ∧ (gone = type ∨ ¬m.Describes type)

variable {s : Service} {q : Registry Tags} {cache saved : SchemaCache} {key text type : String} {schema : Schema} {disk : Disk}

theorem describes_received (hparse : Schema.parse key text = .ok schema) :
    (Message.received key text).Describes type ↔ schema.name = type ∨ typePath type ∈ nestedPaths schema := by
  constructor
  · intro hheld
    obtain ⟨parsed, hparsed, hdescribed⟩ := hheld
    rw [hparse] at hparsed
    cases hparsed
    exact hdescribed
  · exact fun hdescribed => ⟨schema, hparse, hdescribed⟩

theorem givenUp?_of_rejected {e : CacheError} (hsave : cache.save key text s.disk = (.error e, disk)) :
    givenUp? s cache (.received key text) = none := by
  rw [givenUp?, hsave]

theorem givenUp?_of_renamed (hsave : cache.save key text s.disk = (.ok (schema, saved), disk)) {before : Schema}
    (hbefore : cache.schema? key = some before) (hne : before.name ≠ schema.name) :
    givenUp? s cache (.received key text) = some before.name := by
  rw [givenUp?, hsave, hbefore]
  exact if_pos hne

theorem givenUp?_of_same (hsave : cache.save key text s.disk = (.ok (schema, saved), disk))
    (hsame : ∀ before ∈ cache.schema? key, before.name = schema.name) : givenUp? s cache (.received key text) = none := by
  rw [givenUp?, hsave]
  cases hbefore : cache.schema? key with
  | none => rfl
  | some before => exact if_neg (not_not_intro (hsame before hbefore))

theorem not_takesAway {m : Message} (hgiven : givenUp? s cache m = none) : ¬s.TakesAway cache m type := by
  intro htakes
  obtain ⟨gone, hgone, -⟩ := htakes
  rw [hgiven] at hgone
  cases hgone

section Removal

variable {gone : String}

/-- A removal by a path with other parts leaves a type as it is. -/
theorem present_remove_of_ne (arrange : List Schema → Option (List Schema)) (hname : IsName type)
    (hgone : segments gone ≠ [type]) (hregistered : type ∈ q.registered)
    (hstored : (q.tags.config? (typePath type)).isSome = true) :
    type ∈ (q.remove (Tags.access arrange) gone).2.registered ∧
      ((q.remove (Tags.access arrange) gone).2.tags.config? (typePath type)).isSome = true := by
  have hne : type ≠ gone := by
    intro heq
    subst heq
    exact hgone (TagPath.segments_of_isName hname)
  have hpath : normalize (typePath gone) ≠ normalize (typePath type) := by
    rw [Ne, Registry.normalize_typePath_eq_iff, TagPath.segments_of_isName hname]
    exact hgone
  rw [Registry.config?_remove_of_ne hpath]
  exact ⟨Registry.mem_registered_remove.2 ⟨hregistered, fun h => hne h.2⟩, hstored⟩

/-- A removal by a path with the same parts takes the definition of a type, and its name if it is spelled like that. -/
theorem gone_remove (arrange : List Schema → Option (List Schema)) (hname : IsName type)
    (hgone : segments gone = [type]) (hregistered : type ∈ q.registered)
    (hstored : (q.tags.config? (typePath type)).isSome = true) :
    (type ∈ (q.remove (Tags.access arrange) gone).2.registered ↔ gone ≠ type) ∧
      (q.remove (Tags.access arrange) gone).2.tags.get? (typePath type) = none := by
  have hpath : normalize (typePath gone) = normalize (typePath type) := by
    rw [Registry.normalize_typePath_eq_iff, TagPath.segments_of_isName hname, hgone]
  have hcontains : q.tags.contains (normalize (typePath gone)) = true := by
    rw [hpath]
    exact Tags.contains_of_config? hstored
  constructor
  · rw [Registry.mem_registered_remove]
    constructor
    · intro hfound heq
      obtain ⟨-, hkept⟩ := hfound
      subst heq
      exact hkept ⟨hcontains, rfl⟩
    · exact fun hne => ⟨hregistered, fun h => hne h.2.symm⟩
  · rw [Registry.tags_remove, if_pos hcontains, hpath, Registry.normalize_typePath hname, Dict.get?_erase, if_pos rfl]

end Removal

/-- What is left of a type after a schema came in the place of one with another name. -/
theorem present_sync_remove_iff {arrange : List Schema → Option (List Schema)} {gone : String}
    (hschema : schema.LegibleDefaults) (hne : gone ≠ schema.name) (hname : IsName type) (hregistered : type ∈ q.registered)
    (hstored : (q.tags.config? (typePath type)).isSome = true) :
    (type ∈ ((q.remove (Tags.access arrange) gone).2.sync (Tags.access arrange) schema).2.registered ∧
      (((q.remove (Tags.access arrange) gone).2.sync (Tags.access arrange) schema).2.tags.config? (typePath type)).isSome
        = true) ↔
      ¬(segments gone = [type] ∧ (gone = type ∨ ¬(schema.name = type ∨ typePath type ∈ nestedPaths schema))) := by
  by_cases hgone : segments gone = [type]
  · obtain ⟨hkept, hmissing⟩ := gone_remove arrange hname hgone hregistered hstored
    rw [Registry.mem_registered_sync, hkept, Registry.tags_sync, Registry.isSome_config?_deliver_iff hschema hname hmissing]
    constructor
    · intro hfound hboth
      obtain ⟨hspelled, hdescribed⟩ := hfound
      obtain ⟨-, hsame | hother⟩ := hboth
      · rcases hspelled with hspelled | ⟨-, htype⟩
        · exact hspelled hsame
        · exact hne (hsame.trans htype)
      · exact hother hdescribed
    · intro hnot
      have hspelled : gone ≠ type := fun hsame => hnot ⟨hgone, Or.inl hsame⟩
      exact ⟨Or.inl hspelled, not_not.1 fun hother => hnot ⟨hgone, Or.inr hother⟩⟩
  · obtain ⟨hkept, hthere⟩ := present_remove_of_ne arrange hname hgone hregistered hstored
    exact iff_of_true ⟨Registry.mem_registered_sync.2 (Or.inl hkept), Registry.isSome_config?_sync hthere⟩
      fun h => hgone h.1

namespace Orderly

theorem present_deleted_iff (h : Orderly s q) (hactive : s.activeCache? = some cache) (hpresent : s.Present type) :
    (s.deleted key).Present type ↔ ¬s.TakesAway cache (.deleted key) type := by
  obtain ⟨hregistered, hstored⟩ := h.holds.present_iff.1 hpresent
  have hname := h.named type hregistered
  have hafter : (s.deleted key).Present type ↔ (s.removeType (typeOf cache key)).Present type := by
    rcases hremove : cache.remove key (s.removeType (typeOf cache key)).disk with ⟨e | saved, disk⟩
    · rw [deleted_kept hactive h.allowDelete hremove]
      exact Iff.rfl
    · rw [deleted_removed hactive h.allowDelete hremove]
      exact Iff.rfl
  rw [hafter, (h.holds.removeType _).present_iff]
  by_cases hgone : segments (typeOf cache key) = [type]
  · obtain ⟨-, hmissing⟩ := gone_remove s.arrange hname hgone hregistered hstored
    refine iff_of_false ?_ (not_not_intro ⟨_, rfl, hgone, Or.inr not_false⟩)
    intro hfound
    obtain ⟨-, hkept⟩ := hfound
    obtain ⟨v, hv⟩ := Option.isSome_iff_exists.1 hkept
    have hget := (Tags.config?_eq_some_iff.1 hv).1
    rw [Registry.normalize_typePath hname, hmissing] at hget
    cases hget
  · refine iff_of_true (present_remove_of_ne s.arrange hname hgone hregistered hstored) ?_
    intro hboth
    obtain ⟨gone, hgiven, hsegments, -⟩ := hboth
    cases hgiven
    exact hgone hsegments

theorem present_received_iff (h : Orderly s q) (hactive : s.activeCache? = some cache) (hpresent : s.Present type) :
    (s.received key text).Present type ↔ ¬s.TakesAway cache (.received key text) type := by
  obtain ⟨hregistered, hstored⟩ := h.holds.present_iff.1 hpresent
  rcases hsave : cache.save key text s.disk with ⟨e | ⟨schema, saved⟩, disk⟩
  · rw [received_rejected hactive hsave]
    exact iff_of_true hpresent (not_takesAway (givenUp?_of_rejected hsave))
  · have hadmitted := h.admitted (activeCache?_eq_some_iff.1 hactive).2 hsave
    have hparse := (SchemaCache.save_ok hsave).2.1
    have harrange : (s.admitted saved disk key).arrange = s.arrange := rfl
    rw [received_saved hactive h.allowDelete hsave, (hadmitted.holds.replace _ _).present_iff, Registry.replace, harrange]
    by_cases hsame : ∀ before ∈ cache.schema? key, before.name = schema.name
    · rw [Registry.giveUp_of_same hsame]
      refine iff_of_true ?_ (not_takesAway (givenUp?_of_same hsave hsame))
      exact ⟨Registry.mem_registered_sync.2 (Or.inl hregistered), Registry.isSome_config?_sync hstored⟩
    · push Not at hsame
      obtain ⟨before, hbefore, hne⟩ := hsame
      rw [Option.mem_def] at hbefore
      rw [hbefore, Registry.giveUp_of_renamed hne, present_sync_remove_iff (q := q.tell (.schemaReceived key))
        (Schema.legibleDefaults_parse hparse) hne (h.named type hregistered) hregistered hstored, TakesAway,
        givenUp?_of_renamed hsave hbefore hne, describes_received hparse]
      simp

theorem present_message_iff (h : Orderly s q) (hactive : s.activeCache? = some cache) (m : Message) (hpresent : s.Present type) :
    (s.take m).Present type ↔ ¬s.TakesAway cache m type := by
  cases m with
  | received key text => exact h.present_received_iff hactive hpresent
  | deleted key => exact h.present_deleted_iff hactive hpresent

end Orderly

/-- In every state that a service with a provider in memory comes to, a type that is registered and stored, of whatever key, is so after a message if and only if the message does not take it away. -/
theorem present_take_iff {t : Service} {cache : SchemaCache} (hs : Fresh s) (ht : Reaches (fun _ _ => True) s t)
    (hactive : t.activeCache? = some cache) (m : Message) (hpresent : t.Present type) :
    (t.take m).Present type ↔ ¬t.TakesAway cache m type := by
  obtain ⟨q, hq, -⟩ := hs.orderly
  obtain ⟨q', hq'⟩ := hq.reaches ht
  exact hq'.present_message_iff hactive m hpresent

/-- A started service with schemas of the given titles under the keys `a` and `b`. -/
@[irreducible]
def withTitles (first second : String) : Service :=
  ofMemory.run [.start {}, .message (.received "a" (titled first)), .message (.received "b" (titled second))]

theorem reaches_withTitles (first second : String) : Reaches (fun _ _ => True) ofMemory (withTitles first second) := by
  unfold withTitles
  exact reaches_run _ _

/-- A deletion leaves a type of another name. -/
theorem present_deleted_other : ((withTitles "A" "B").take (.deleted "a")).Present "B" := by
  have hrun : (withTitles "A" "B").activeCache?.map (typeOf · "a") = some "A" ∧
      "B" ∈ (withTitles "A" "B").registry.registered ∧
      ((withTitles "A" "B").registry.tags.config? (withTitles "A" "B").settings.provider.name (typePath "B")).isSome = true := by
    decide +kernel
  obtain ⟨htype, hpresent⟩ := hrun
  obtain ⟨cache, hcache, htype⟩ := Option.map_eq_some_iff.1 htype
  apply (present_take_iff fresh_ofMemory (reaches_withTitles _ _) hcache (.deleted "a") hpresent).2
  intro hfound
  obtain ⟨gone, hgone, hsegments, -⟩ := hfound
  cases hgone
  rw [htype] at hsegments
  exact absurd hsegments (by decide +kernel)

/-- Of two keys with one title, the deletion of one takes the type of the other away. -/
theorem not_present_deleted_shared :
    ¬∀ (s t : Service) (cache : SchemaCache) (m : Message) (key : String) (schema : Schema), Fresh s →
      Reaches (fun _ _ => True) s t → t.activeCache? = some cache → key ≠ m.key → cache.schema? key = some schema →
      t.Present schema.name → (t.take m).Present schema.name := by
  intro hall
  have hrun : (withTitles "T" "T").activeCache?.map (fun cache => (cache.schema? "b").map Schema.name) = some (some "T") ∧
      ("T" ∈ (withTitles "T" "T").registry.registered ∧
        ((withTitles "T" "T").registry.tags.config? (withTitles "T" "T").settings.provider.name (typePath "T")).isSome
          = true) ∧
      "T" ∉ ((withTitles "T" "T").take (.deleted "a")).registry.registered := by
    decide +kernel
  obtain ⟨hname, hpresent, hgone⟩ := hrun
  obtain ⟨cache, hcache, hname⟩ := Option.map_eq_some_iff.1 hname
  obtain ⟨schema, hschema, htitle⟩ := Option.map_eq_some_iff.1 hname
  have hthere : (withTitles "T" "T").Present schema.name := by
    rw [htitle]
    exact hpresent
  have hafter := hall _ _ cache (.deleted "a") "b" schema fresh_ofMemory (reaches_withTitles _ _) hcache (by decide) hschema hthere
  rw [htitle] at hafter
  exact hgone hafter.1

end TagTypes.Service
