import Mathlib.Tactic
import TagTypes.Proofs.Service.Effect
import TagTypes.Proofs.Service.Messages
import TagTypes.Proofs.Udt.Naming

/-!
# Types that are left over

A message gives up one type at most: the one that a key had before it got another name, the one of a key that is deleted, or the one that is called like a key that is deleted and has no schema. A type made for an inline object is not given up together with the schema that it was made for. So if no two keys use one name, and no key without a schema is deleted that is spelled like a type of another key, a provider that was empty at first shows the types that the cached schemas describe and, beside them, the nested types of all schemas before, as far as no message gave up a type of that name since.
-/

namespace TagTypes.Service

open Registry (typePath)
open SchemaCache (act left? taken? hasFile)
open TagPath (IsName segments)
open Udt (typeNames)

/-! ### What messages bring and give up -/

/-- The names of the types that a schema describes for its inline objects. -/
def nestedNames (s : Schema) : List String := (Udt.nestedDefinitions s).map Udt.Definition.name

/-- The schema that a message brings, if it is accepted. -/
def Message.schema? (directory : FilePath) : Message → Option Schema
  | .received key text => taken? directory key text
  | .deleted _ => none

/-- The type that a message gives up after the messages before it. -/
def Message.gone? (directory : FilePath) (before : List Message) : Message → Option String
  | .received key text =>
    (taken? directory key text).bind fun schema =>
      ((lastSchema? directory before key).map Schema.name).filter (· ≠ schema.name)
  | .deleted key => some (((lastSchema? directory before key).map Schema.name).getD key)

/-- Some message was an event, and no message after it ended what it began; either may depend on the messages before. -/
def Since (event ended : List Message → Message → Prop) (messages : List Message) : Prop :=
  ∃ (i : ℕ) (m : Message), messages[i]? = some m ∧ event (messages.take i) m ∧
    ∀ (j : ℕ) (later : Message), i < j → messages[j]? = some later → ¬ended (messages.take j) later

/-- Some message brought a schema with the name, and no message after it gave up a type of this name. -/
def Remains (directory : FilePath) (names : Schema → List String) (messages : List Message) (name : String) : Prop :=
  Since (fun _ m => ∃ schema ∈ m.schema? directory, name ∈ names schema)
    (fun before later => ∃ type ∈ later.gone? directory before, segments type = [name]) messages

/-- The message deletes a key that has no schema and that is spelled like the name of a type. -/
def Message.Strikes (directory : FilePath) (name : String) (before : List Message) (m : Message) : Prop :=
  ∃ other, m = .deleted other ∧ lastSchema? directory before other = none ∧ segments other = [name]

/-- No message deletes a key without a schema that is spelled like a type of another key's schema. -/
def Spared (directory : FilePath) (messages : List Message) : Prop :=
  ∀ (i : ℕ) (m : Message), messages[i]? = some m → ∀ key schema, lastSchema? directory (messages.take i) key = some schema →
    ∀ name ∈ typeNames schema, ¬m.Strikes directory name (messages.take i)

/-- No two keys have a name in common, and every name can name a tag. -/
structure Unshared (directory : FilePath) (messages : List Message) : Prop where
  key_eq : ∀ m ∈ messages, ∀ other ∈ messages, ∀ schema ∈ m.schema? directory, ∀ found ∈ other.schema? directory,
    ∀ name ∈ typeNames schema, name ∈ typeNames found → m.key = other.key
  named : ∀ m ∈ messages, ∀ schema ∈ m.schema? directory, ∀ name ∈ typeNames schema, IsName name

variable {directory : FilePath} {messages : List Message} {m : Message} {key name type : String} {schema : Schema}
  {names : Schema → List String} {event ended : List Message → Message → Prop}

theorem nestedNames_subset (s : Schema) : nestedNames s ⊆ typeNames s := List.subset_cons_self _ _

theorem Message.legibleDefaults_schema? (hschema : m.schema? directory = some schema) : schema.LegibleDefaults := by
  cases m with
  | received key text => exact Schema.legibleDefaults_parse (SchemaCache.taken?_eq_some_iff.1 hschema).2
  | deleted key => cases hschema

/-- What is left under a key by a message about it. -/
theorem Message.outcome?_self (m : Message) :
    m.outcome? directory m.key =
      match m with
      | .received key text => (taken? directory key text).map some
      | .deleted _ => some none := by
  cases m <;> exact if_pos rfl

theorem Message.outcome?_of_ne (hne : m.key ≠ key) : m.outcome? directory key = none := by
  cases m <;> exact if_neg hne

theorem exists_message_of_lastSchema? (hschema : lastSchema? directory messages key = some schema) :
    ∃ m ∈ messages, m.key = key ∧ m.schema? directory = some schema := by
  obtain ⟨text, hmessage, htaken⟩ := taken_of_lastSchema? hschema
  exact ⟨_, hmessage, rfl, htaken⟩

/-- The type that goes is the one that the key had, or the key itself if it is deleted and has no schema. -/
theorem Message.gone?_cases (hgone : type ∈ m.gone? directory messages) :
    (∃ before, lastSchema? directory messages m.key = some before ∧ before.name = type) ∨
      m = .deleted type ∧ lastSchema? directory messages type = none := by
  cases m with
  | received key text =>
    obtain ⟨schema, -, hname⟩ := Option.bind_eq_some_iff.1 hgone
    rw [Option.filter_eq_some_iff] at hname
    exact Or.inl (Option.map_eq_some_iff.1 hname.1)
  | deleted key =>
    have heq : ((lastSchema? directory messages key).map Schema.name).getD key = type := Option.some.inj hgone
    cases hlast : lastSchema? directory messages key with
    | none =>
      rw [hlast] at heq
      subst heq
      exact Or.inr ⟨rfl, hlast⟩
    | some before =>
      rw [hlast] at heq
      exact Or.inl ⟨before, hlast, heq⟩

/-- A rejected message gives nothing up. -/
theorem Message.gone?_of_outcome? (houtcome : m.outcome? directory m.key = none) : m.gone? directory messages = none := by
  rw [Message.outcome?_self] at houtcome
  cases m with
  | received key text =>
    rw [Message.gone?, Option.map_eq_none_iff.1 houtcome]
    rfl
  | deleted key => cases houtcome

/-- As long as the type of a key does not go, the key has a schema of this name. -/
theorem exists_lastSchema?_concat (hschema : lastSchema? directory messages key = some schema)
    (hstays : schema.name ∉ m.gone? directory messages) :
    ∃ found, lastSchema? directory (messages ++ [m]) key = some found ∧ found.name = schema.name := by
  by_cases hkey : m.key = key
  · subst hkey
    cases m with
    | received key text =>
      have hlast : lastSchema? directory messages key = some schema := hschema
      cases htaken : taken? directory key text with
      | none =>
        refine ⟨schema, ?_, rfl⟩
        rw [lastSchema?_received, htaken]
        exact hschema
      | some found =>
        refine ⟨found, ?_, ?_⟩
        · rw [lastSchema?_received, htaken]
          exact Function.update_self ..
        · by_contra hne
          apply hstays
          rw [Message.gone?, htaken, Option.bind_some, hlast]
          simp [Option.filter, Ne.symm hne]
    | deleted key =>
      have hlast : lastSchema? directory messages key = some schema := hschema
      refine absurd ?_ hstays
      rw [Message.gone?, hlast]
      rfl
  · refine ⟨schema, ?_, rfl⟩
    rw [lastSchema?_concat, Message.outcome?_of_ne hkey, Option.getD_none, hschema]

theorem not_since_nil : ¬Since event ended [] := by
  rintro ⟨i, m, hm, -⟩
  cases hm

/-- What a message adds to the ones before: it is the event, or it does not end what began before. -/
theorem since_concat : Since event ended (messages ++ [m]) ↔
    event messages m ∨ Since event ended messages ∧ ¬ended messages m := by
  constructor
  · rintro ⟨i, found, hfound, hevent, hkept⟩
    obtain hi | hi := (Nat.le_of_lt_succ (by simpa using (List.getElem?_eq_some_iff.1 hfound).1)).lt_or_eq
    · rw [List.getElem?_append_left hi] at hfound
      rw [List.take_append_of_le_length hi.le] at hevent
      refine Or.inr ⟨⟨i, found, hfound, hevent, ?_⟩, ?_⟩
      · intro j later hj hlater
        have hlength : j < messages.length := (List.getElem?_eq_some_iff.1 hlater).1
        have hlater' := hkept j later hj (by rw [List.getElem?_append_left hlength, hlater])
        rwa [List.take_append_of_le_length hlength.le] at hlater'
      · have hlast := hkept messages.length m hi (by simp)
        rwa [List.take_left] at hlast
    · subst hi
      rw [List.getElem?_concat_length] at hfound
      cases hfound
      rw [List.take_left] at hevent
      exact Or.inl hevent
  · rintro (hevent | ⟨⟨i, found, hfound, hevent, hkept⟩, hlast⟩)
    · refine ⟨messages.length, m, List.getElem?_concat_length .., by rwa [List.take_left], ?_⟩
      intro j later hj hlater
      rw [List.getElem?_eq_none (by simpa using hj)] at hlater
      cases hlater
    · have hi : i < messages.length := (List.getElem?_eq_some_iff.1 hfound).1
      refine ⟨i, found, by rw [List.getElem?_append_left hi, hfound], by rwa [List.take_append_of_le_length hi.le], ?_⟩
      intro j later hj hlater
      obtain hlength | hlength := (Nat.le_of_lt_succ (by simpa using (List.getElem?_eq_some_iff.1 hlater).1)).lt_or_eq
      · rw [List.getElem?_append_left hlength] at hlater
        rw [List.take_append_of_le_length hlength.le]
        exact hkept j later hj hlater
      · subst hlength
        rw [List.getElem?_concat_length] at hlater
        cases hlater
        rw [List.take_left]
        exact hlast

/-- What remains after one more message: what it brings, and what remained before if it does not give it up. -/
theorem remains_concat : Remains directory names (messages ++ [m]) name ↔
    (∃ schema ∈ m.schema? directory, name ∈ names schema) ∨
      Remains directory names messages name ∧ ∀ type ∈ m.gone? directory messages, segments type ≠ [name] := by
  rw [Remains, since_concat, Remains]
  simp only [not_exists, not_and, ne_eq]

theorem Remains.mono {more : Schema → List String} (hnames : ∀ schema, names schema ⊆ more schema)
    (h : Remains directory names messages name) : Remains directory more messages name := by
  obtain ⟨i, m, hm, ⟨schema, hschema, hname⟩, hkept⟩ := h
  exact ⟨i, m, hm, ⟨schema, hschema, hnames schema hname⟩, hkept⟩

/-! ### Names that are not shared -/

namespace Spared

theorem of_append {more : List Message} (h : Spared directory (messages ++ more)) : Spared directory messages := by
  intro i m hm
  have hi : i < messages.length := (List.getElem?_eq_some_iff.1 hm).1
  have hboth := h i m (by rw [List.getElem?_append_left hi, hm])
  rwa [List.take_append_of_le_length hi.le] at hboth

theorem take (h : Spared directory messages) (n : ℕ) : Spared directory (messages.take n) := by
  rw [← List.take_append_drop n messages] at h
  exact h.of_append

theorem last (h : Spared directory (messages ++ [m])) (hschema : lastSchema? directory messages key = some schema)
    (hname : name ∈ typeNames schema) : ¬m.Strikes directory name messages := by
  have hall := h messages.length m (List.getElem?_concat_length ..)
  rw [List.take_left] at hall
  exact hall key schema hschema name hname

end Spared

namespace Unshared

theorem of_append {more : List Message} (h : Unshared directory (messages ++ more)) : Unshared directory messages where
  key_eq m hm other hother := h.key_eq m (List.mem_append_left _ hm) other (List.mem_append_left _ hother)
  named m hm := h.named m (List.mem_append_left _ hm)

theorem take (h : Unshared directory messages) (n : ℕ) : Unshared directory (messages.take n) := by
  rw [← List.take_append_drop n messages] at h
  exact h.of_append

theorem isName_of_lastSchema? (h : Unshared directory messages) (hschema : lastSchema? directory messages key = some schema)
    (hname : name ∈ typeNames schema) : IsName name := by
  obtain ⟨m, hm, -, hbrought⟩ := exists_message_of_lastSchema? hschema
  exact h.named m hm schema hbrought name hname

/-- A type of a key goes only by a message about this key, unless it is struck. -/
theorem key_eq_of_gone (h : Unshared directory messages) (hgone : type ∈ m.gone? directory messages)
    (hsegments : segments type = [name]) (hschema : lastSchema? directory messages key = some schema)
    (hname : name ∈ typeNames schema) (hspared : ¬m.Strikes directory name messages) : m.key = key := by
  rcases Message.gone?_cases hgone with ⟨before, hbefore, rfl⟩ | ⟨rfl, hnone⟩
  · have hplain := h.isName_of_lastSchema? hbefore List.mem_cons_self
    rw [TagPath.segments_of_isName hplain, List.singleton_inj] at hsegments
    subst hsegments
    obtain ⟨own, hown, hkey, hfound⟩ := exists_message_of_lastSchema? hbefore
    obtain ⟨other, hother, rfl, hbrought⟩ := exists_message_of_lastSchema? hschema
    rw [← hkey]
    exact h.key_eq own hown other hother before hfound schema hbrought before.name List.mem_cons_self hname
  · exact absurd ⟨type, rfl, hnone, hsegments⟩ hspared

/-- The names in a cached schema remain. -/
theorem remains_of_lastSchema? (h : Unshared directory messages) (hspared : Spared directory messages)
    (hnames : ∀ schema, names schema ⊆ typeNames schema) (hschema : lastSchema? directory messages key = some schema)
    (hname : name ∈ names schema) : Remains directory names messages name := by
  induction messages using List.reverseRecOn with
  | nil => cases hschema
  | append_singleton before m ih =>
    rw [remains_concat]
    rw [lastSchema?_concat] at hschema
    cases houtcome : m.outcome? directory key with
    | none =>
      rw [houtcome, Option.getD_none] at hschema
      refine Or.inr ⟨ih h.of_append hspared.of_append hschema, fun type hgone hsegments => ?_⟩
      have hkey := h.of_append.key_eq_of_gone hgone hsegments hschema (hnames schema hname)
        (hspared.last hschema (hnames schema hname))
      subst hkey
      rw [Message.gone?_of_outcome? houtcome] at hgone
      cases hgone
    | some left =>
      rw [houtcome, Option.getD_some] at hschema
      subst hschema
      by_cases hkey : m.key = key
      · subst hkey
        rw [Message.outcome?_self] at houtcome
        cases m with
        | received own text =>
          obtain ⟨found, hfound, heq⟩ := Option.map_eq_some_iff.1 houtcome
          cases heq
          exact Or.inl ⟨schema, hfound, hname⟩
        | deleted own => cases houtcome
      · rw [Message.outcome?_of_ne hkey] at houtcome
        cases houtcome

/-- A name remains if it is in a cached schema, or if it was that of a nested type and remains as such. -/
theorem remains_typeNames_iff (h : Unshared directory messages) (hspared : Spared directory messages) :
    Remains directory typeNames messages name ↔
      (∃ key schema, lastSchema? directory messages key = some schema ∧ name ∈ typeNames schema) ∨
        Remains directory nestedNames messages name := by
  constructor
  · intro hremains
    induction messages using List.reverseRecOn with
    | nil => exact absurd hremains not_since_nil
    | append_singleton before m ih =>
      rcases remains_concat.1 hremains with ⟨schema, hschema, hname⟩ | ⟨hbefore, hkept⟩
      · cases m with
        | received key text =>
          have htaken : taken? directory key text = some schema := hschema
          refine Or.inl ⟨key, schema, ?_, hname⟩
          rw [lastSchema?_received, htaken]
          exact Function.update_self ..
        | deleted key => cases hschema
      · rcases ih h.of_append hspared.of_append hbefore with ⟨key, schema, hschema, hname⟩ | hnested
        · rcases List.mem_cons.1 hname with rfl | hinline
          -- the main type: it was not given up, so its key still has a schema of this name
          · have hplain := TagPath.segments_of_isName (h.of_append.isName_of_lastSchema? hschema List.mem_cons_self)
            obtain ⟨found, hfound, hsame⟩ := exists_lastSchema?_concat hschema fun hgone => hkept schema.name hgone hplain
            refine Or.inl ⟨key, found, hfound, ?_⟩
            rw [← hsame]
            exact List.mem_cons_self
          -- a nested type: it remains by itself, whatever becomes of its schema
          · have hremained : Remains directory nestedNames before name :=
              h.of_append.remains_of_lastSchema? hspared.of_append nestedNames_subset hschema hinline
            exact Or.inr (remains_concat.2 (Or.inr ⟨hremained, hkept⟩))
        · exact Or.inr (remains_concat.2 (Or.inr ⟨hnested, hkept⟩))
  · rintro (⟨key, schema, hschema, hname⟩ | hnested)
    · exact h.remains_of_lastSchema? hspared (fun _ => List.Subset.refl _) hschema hname
    · exact hnested.mono nestedNames_subset

end Unshared

/-! ### What the provider shows -/

/-- The names of the types that the provider of the service shows. -/
def shownTypes (s : Service) : List String :=
  (((s.registry.tags.directory.find? s.settings.provider.name).bind fun index => s.registry.tags.providers[index]?).map
    (Provider.browse Registry.typesFolder)).getD []

/-- The service runs, may delete types and has its provider in memory; the cache holds what the messages left, the cache directory holds files only, and the provider has just the types that remain. -/
structure Tracked (directory : FilePath) (messages : List Message) (s : Service) (q : Registry Tags) : Prop where
  allowDelete : s.allowDelete = true
  holds : s.Holds q
  active : ∃ cache, s.activeCache? = some cache ∧ cache.directory = directory ∧
    cache.schema? = lastSchema? directory messages
  files : ∃ place, s.disk.HoldsFiles directory place
  stored : ∀ path, (q.tags.get? path).isSome = true ↔
    ∃ name, IsName name ∧ typePath name = path ∧ Remains directory typeNames messages name

variable {s : Service} {q : Registry Tags} {cache : SchemaCache} {place : List String}

theorem Holds.shownTypes_eq (h : s.Holds q) : s.shownTypes = q.tags.browse Registry.typesFolder := by
  obtain ⟨-, index, own, hfind, hprovider⟩ := Depot.memory?_eq_some_iff.1 (Registry.Related.tags h).1
  rw [shownTypes, hfind, Option.bind_some, hprovider]
  rfl

theorem Tracked.mem_shownTypes (h : Tracked directory messages s q) :
    name ∈ s.shownTypes ↔ IsName name ∧ Remains directory typeNames messages name := by
  rw [h.holds.shownTypes_eq, Tags.mem_browse, Registry.normalize_typesFolder, Registry.inFolder_typesFolder, h.stored]
  constructor
  · rintro ⟨-, other, hplain, hpath, hremains⟩
    rw [Registry.typePath_inj.1 hpath] at hplain hremains
    exact ⟨hplain, hremains⟩
  · rintro ⟨hplain, hremains⟩
    exact ⟨hplain.2, name, hplain, rfl, hremains⟩

theorem Working.tracked (h : Working directory [] s q) (hnothing : q.tags = ∅) : Tracked directory [] s q where
  allowDelete := h.allowDelete
  holds := h.holds
  active := h.active
  files := h.files
  stored path := by
    rw [hnothing]
    constructor
    · exact fun hpath => by cases hpath
    · rintro ⟨name, -, -, hremains⟩
      exact absurd hremains not_since_nil

section Step

variable (hfiles : s.disk.HoldsFiles cache.directory place)
include hfiles

/-- The cache takes the schemas that are accepted. -/
theorem brought?_eq_schema? (m : Message) : s.brought? cache m = m.schema? cache.directory := by
  cases m with
  | received key text =>
    rw [brought?, Message.call, SchemaCache.left?_save_of_holdsFiles hfiles, Message.schema?]
    cases taken? cache.directory key text <;> rfl
  | deleted key =>
    rw [brought?, Message.call, SchemaCache.left?_remove_of_holdsFiles hfiles, Message.schema?]
    split <;> rfl

/-- The service gives up what the messages say. -/
theorem gone?_eq_gone? (hdelete : s.allowDelete = true) (hschemas : cache.schema? = lastSchema? cache.directory messages)
    (m : Message) : s.gone? cache m = m.gone? cache.directory messages := by
  cases m with
  | received key text =>
    rw [gone?, brought?_eq_schema? hfiles, Message.schema?, Message.gone?]
    simp only [outgrown?, hdelete, if_true, hschemas]
  | deleted key =>
    rw [gone?, hdelete, if_pos rfl, typeOf, hschemas]
    rfl

/-- After the call for a message the cache holds what the messages left. -/
theorem schema?_act_eq (hschemas : cache.schema? = lastSchema? cache.directory messages) (m : Message) :
    (act (cache, s.disk) m.call).1.schema? = lastSchema? cache.directory (messages ++ [m]) := by
  have hturned := SchemaCache.turned_act (s := (cache, s.disk)) m.key?_call
  funext key
  have hget := congrArg (Option.map CachedSchema.schema) (hturned.get? key)
  have hbefore : (cache.entries.get? key).map CachedSchema.schema = lastSchema? cache.directory messages key :=
    (cache.schema?_eq key).symm.trans (congrFun hschemas key)
  rw [SchemaCache.schema?_eq, hget, lastSchema?_concat]
  by_cases hkey : m.key = key
  · subst hkey
    rw [if_pos rfl, Message.outcome?_self]
    cases m with
    | received key text =>
      rw [Message.call, SchemaCache.left?_save_of_holdsFiles hfiles]
      simp only
      cases taken? cache.directory key text with
      | none => exact hbefore
      | some schema => rfl
    | deleted key =>
      rw [Message.call, SchemaCache.left?_remove_of_holdsFiles hfiles]
      cases hfile : hasFile cache.directory key with
      | false => exact hbefore.trans (lastSchema?_eq_none hfile)
      | true => rfl
  · rw [if_neg hkey, Message.outcome?_of_ne hkey]
    exact hbefore

end Step

namespace Tracked

theorem take (h : Tracked directory messages s q) (m : Message) : ∃ q', Tracked directory (messages ++ [m]) (s.take m) q' := by
  obtain ⟨cache, hactive, rfl, hschemas⟩ := h.active
  obtain ⟨place, hfiles⟩ := h.files
  obtain ⟨q', hhandled⟩ := h.holds.handled hactive m
  have hturned := SchemaCache.turned_act (s := (cache, s.disk)) m.key?_call
  have hexchanged := hhandled.exchanged
  rw [brought?_eq_schema? hfiles, gone?_eq_gone? hfiles h.allowDelete hschemas] at hexchanged
  have hlegible : ∀ schema ∈ m.schema? cache.directory, schema.LegibleDefaults :=
    fun schema hschema => Message.legibleDefaults_schema? hschema
  refine ⟨q', hhandled.allowDelete.trans h.allowDelete, hhandled.holds, ⟨_, hhandled.active, hturned.directory, ?_⟩,
    ⟨place, ?_⟩, fun path => ?_⟩
  · exact schema?_act_eq hfiles hschemas m
  · rw [hhandled.disk]
    exact hturned.holdsFiles hfiles
  · have hiff : ∀ name, IsName name → ((q'.tags.get? (typePath name)).isSome = true ↔
        Remains cache.directory typeNames (messages ++ [m]) name) := by
      intro name hname
      rw [hexchanged.isSome_get?_typePath_iff hlegible hname, remains_concat, h.stored]
      simp only [Registry.typePath_inj]
      constructor
      · rintro (hbrought | ⟨⟨other, -, rfl, hremains⟩, hkept⟩)
        · exact Or.inl hbrought
        · exact Or.inr ⟨hremains, hkept⟩
      · rintro (hbrought | ⟨hremains, hkept⟩)
        · exact Or.inl hbrought
        · exact Or.inr ⟨⟨name, hname, rfl, hremains⟩, hkept⟩
    constructor
    · intro hpath
      obtain ⟨name, hname, rfl⟩ : ∃ name, IsName name ∧ typePath name = path := by
        rw [hexchanged.get?, Option.isSome_or, Bool.or_eq_true] at hpath
        rcases hpath with hbrought | hbefore
        · obtain ⟨-, -, name, -, hname, hpath⟩ := Registry.exists_name_of_get?_definitions hbrought
          exact ⟨name, hname, hpath⟩
        · split at hbefore
          · cases hbefore
          · obtain ⟨name, hname, hpath, -⟩ := (h.stored path).1 hbefore
            exact ⟨name, hname, hpath⟩
      exact ⟨name, hname, rfl, (hiff name hname).1 hpath⟩
    · rintro ⟨name, hname, rfl, hremains⟩
      exact (hiff name hname).2 hremains

theorem takeAll (h : Tracked directory [] s q) (messages : List Message) :
    ∃ q', Tracked directory messages (s.takeAll messages) q' := by
  induction messages using List.reverseRecOn with
  | nil => exact ⟨q, h⟩
  | append_singleton before m ih =>
    obtain ⟨q', hq'⟩ := ih
    rw [Service.takeAll, List.foldl_concat]
    exact hq'.take m

end Tracked

/-- After each of some messages to a service that was started on an empty cache directory with an empty provider, if no two keys use one name and no key without a schema is deleted in place of another key's type: the provider shows the types that the cached schemas describe and, beside them, just those that were made for inline objects of some schema before and were not given up since. -/
theorem shown_of_messages (hs : Fresh s) (hstopped : s.running = false)
    (harrange : s.arrange = fun schemas => some (Dependency.order schemas)) (k : Broker.Conditions) {cache : SchemaCache}
    {disk : Disk} (hprepare : SchemaCache.prepare { directory := cacheDirectory s.settings } s.disk = (.ok cache, disk))
    (hempty : disk.isEmptyAt (cacheDirectory s.settings) = true)
    (hnothing : s.registry.tags.memory? s.settings.provider.name = some ∅)
    (hunshared : Unshared (cacheDirectory s.settings) messages) (hspared : Spared (cacheDirectory s.settings) messages) (n : ℕ) :
    ∃ cache, ((s.start k).takeAll (messages.take n)).activeCache? = some cache ∧
      (∀ key, cache.schema? key = lastSchema? (cacheDirectory s.settings) (messages.take n) key) ∧
      ∀ name, name ∈ ((s.start k).takeAll (messages.take n)).shownTypes ↔
        (∃ key schema, cache.schema? key = some schema ∧ name ∈ typeNames schema) ∨
          Remains (cacheDirectory s.settings) nestedNames (messages.take n) name := by
  obtain ⟨q, hworking, htags⟩ := hs.exists_working_start hstopped harrange k hprepare hempty
  rw [hnothing] at htags
  obtain ⟨q', htracked⟩ := (hworking.tracked (Option.some.inj htags).symm).takeAll (messages.take n)
  obtain ⟨cache, hactive, -, hschemas⟩ := htracked.active
  have hbefore := hunshared.take n
  refine ⟨cache, hactive, fun key => by rw [hschemas], fun name => ?_⟩
  rw [htracked.mem_shownTypes, hschemas, ← hbefore.remains_typeNames_iff (hspared.take n)]
  constructor
  · exact fun hboth => hboth.2
  · intro hremains
    obtain ⟨i, m, hm, ⟨schema, hschema, hname⟩, -⟩ := id hremains
    exact ⟨hbefore.named m (List.mem_of_getElem? hm) schema hschema name hname, hremains⟩

/-! ### A schema that comes and goes -/

/-- A schema with an inline object comes and is deleted. -/
def passing : List Message := [.received "a" Udt.nesting, .deleted "a"]

theorem exists_schema_nesting : ∃ schema, taken? (cacheDirectory ofMemory.settings) "a" Udt.nesting = some schema ∧
    schema.name = "A" ∧ nestedNames schema = ["A_b"] := by
  have hread : (taken? (cacheDirectory ofMemory.settings) "a" Udt.nesting).map
      (fun schema => (schema.name, nestedNames schema)) = some ("A", ["A_b"]) := by
    decide +kernel
  obtain ⟨schema, htaken, hnames⟩ := Option.map_eq_some_iff.1 hread
  obtain ⟨hname, hnested⟩ := Prod.mk.inj hnames
  exact ⟨schema, htaken, hname, hnested⟩

theorem key_of_mem_passing (hm : m ∈ passing) : m.key = "a" := by
  rcases List.mem_pair.1 hm with rfl | rfl <;> rfl

theorem unshared_passing : Unshared (cacheDirectory ofMemory.settings) passing where
  key_eq m hm other hother _ _ _ _ _ _ _ := (key_of_mem_passing hm).trans (key_of_mem_passing hother).symm
  named m hm schema hschema name hname := by
    obtain ⟨read, htaken, hown, hnested⟩ := exists_schema_nesting
    have hnames : typeNames read = ["A", "A_b"] := by
      rw [← hown, ← hnested]
      rfl
    rcases List.mem_pair.1 hm with rfl | rfl
    · rw [Message.schema?, htaken] at hschema
      cases hschema
      rw [hnames] at hname
      have hall : ∀ name ∈ ["A", "A_b"], IsName name := by decide +kernel
      exact hall name hname
    · cases hschema

/-- The only key that is deleted has a schema then. -/
theorem spared_passing : Spared (cacheDirectory ofMemory.settings) passing := by
  obtain ⟨schema, htaken, -⟩ := exists_schema_nesting
  rintro i m hm key found hfound name - ⟨other, rfl, hnone, -⟩
  match i with
  | 0 => cases hm
  | 1 =>
    obtain rfl : "a" = other := by simpa [passing] using hm
    have hlast : lastSchema? (cacheDirectory ofMemory.settings) ([] ++ [.received "a" Udt.nesting]) "a" = none := hnone
    rw [lastSchema?_received, htaken] at hlast
    cases (Function.update_self (f := lastSchema? (cacheDirectory ofMemory.settings) []) "a" (some schema)).symm.trans hlast
  | i + 2 => cases hm

/-- The deletion gives up the type of the key and not the one of the inline object. -/
theorem remains_passing : Remains (cacheDirectory ofMemory.settings) nestedNames passing "A_b" := by
  obtain ⟨schema, htaken, hown, hnested⟩ := exists_schema_nesting
  have hlast : lastSchema? (cacheDirectory ofMemory.settings) ([] ++ [.received "a" Udt.nesting]) "a" = some schema := by
    rw [lastSchema?_received, htaken]
    exact Function.update_self ..
  have hcame : Remains (cacheDirectory ofMemory.settings) nestedNames ([] ++ [.received "a" Udt.nesting]) "A_b" := by
    refine remains_concat.2 (Or.inl ⟨schema, htaken, ?_⟩)
    rw [hnested]
    exact List.mem_cons_self
  have hstays : Remains (cacheDirectory ofMemory.settings) nestedNames
      (([] ++ [.received "a" Udt.nesting]) ++ [.deleted "a"]) "A_b" := by
    refine remains_concat.2 (Or.inr ⟨hcame, fun type hgone => ?_⟩)
    rw [Message.gone?, hlast, Option.map_some, Option.getD_some, hown] at hgone
    cases hgone
    decide +kernel
  exact hstays

theorem lastSchema?_passing (key : String) : lastSchema? (cacheDirectory ofMemory.settings) passing key = none := by
  have hlast : lastSchema? (cacheDirectory ofMemory.settings) ([.received "a" Udt.nesting] ++ [.deleted "a"]) key = none := by
    rw [lastSchema?_concat]
    by_cases hkey : "a" = key
    · rw [Message.outcome?, if_pos hkey]
      rfl
    · rw [Message.outcome?, if_neg hkey, Option.getD_none, ← List.nil_append [Message.received "a" Udt.nesting],
        lastSchema?_concat, Message.outcome?, if_neg hkey]
      rfl
  exact hlast

/-- When the schema is deleted nothing is cached, but the type of its inline object is shown. -/
theorem shown_passing : ∃ cache, ((ofMemory.start {}).takeAll (passing.take 2)).activeCache? = some cache ∧
    (∀ key, cache.schema? key = none) ∧ "A_b" ∈ ((ofMemory.start {}).takeAll (passing.take 2)).shownTypes := by
  obtain ⟨cache, disk, hprepare, hempty⟩ := exists_prepare_ofMemory
  obtain ⟨cache, hactive, hschemas, hshown⟩ := shown_of_messages fresh_ofMemory rfl rfl {} hprepare hempty
    (Depot.memory?_ofMemory "default") unshared_passing spared_passing 2
  refine ⟨cache, hactive, fun key => ?_, (hshown "A_b").2 (Or.inr remains_passing)⟩
  rw [hschemas]
  exact lastSchema?_passing key

/-- The provider may show types that no cached schema describes. -/
theorem not_shown_of_cached :
    ¬∀ (s : Service) (k : Broker.Conditions) (cache : SchemaCache) (disk : Disk) (messages : List Message) (n : ℕ),
      Fresh s → s.running = false → s.arrange = (fun schemas => some (Dependency.order schemas)) →
      SchemaCache.prepare { directory := cacheDirectory s.settings } s.disk = (.ok cache, disk) →
      disk.isEmptyAt (cacheDirectory s.settings) = true →
      s.registry.tags.memory? s.settings.provider.name = some ∅ → Unshared (cacheDirectory s.settings) messages →
      ∃ cache, ((s.start k).takeAll (messages.take n)).activeCache? = some cache ∧
        ∀ name, name ∈ ((s.start k).takeAll (messages.take n)).shownTypes ↔
          ∃ key schema, cache.schema? key = some schema ∧ name ∈ typeNames schema := by
  intro hall
  obtain ⟨cache, disk, hprepare, hempty⟩ := exists_prepare_ofMemory
  have hnothing : ofMemory.registry.tags.memory? ofMemory.settings.provider.name = some ∅ := Depot.memory?_ofMemory "default"
  obtain ⟨found, hfound, hshown⟩ := hall ofMemory {} cache disk passing 2 fresh_ofMemory rfl rfl hprepare hempty hnothing
    unshared_passing
  obtain ⟨q, hworking, htags⟩ := fresh_ofMemory.exists_working_start rfl rfl {} hprepare hempty
  rw [hnothing] at htags
  obtain ⟨q', htracked⟩ := (hworking.tracked (Option.some.inj htags).symm).takeAll (passing.take 2)
  obtain ⟨kept, hkept, -, hschemas⟩ := htracked.active
  cases hfound.symm.trans hkept
  have hthere : "A_b" ∈ ((ofMemory.start {}).takeAll (passing.take 2)).shownTypes :=
    htracked.mem_shownTypes.2 ⟨by decide, remains_passing.mono nestedNames_subset⟩
  obtain ⟨key, schema, hschema, -⟩ := (hshown "A_b").1 hthere
  rw [hschemas] at hschema
  cases (lastSchema?_passing key).symm.trans hschema

end TagTypes.Service
