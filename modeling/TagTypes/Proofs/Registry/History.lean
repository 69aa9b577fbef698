import Mathlib.Tactic
import TagTypes.Proofs.Registry.Backed
import TagTypes.Proofs.Registry.Throwing

/-!
# The history of a registry

However the provider behaves, be it that it is missing, that it gives any qualities or that any call to it throws, each synchronization and each removal comes to a result and tells it as one event. So the registered types can be read off the events: they are those whose last success is that they came and not that they went. A synchronization tries the types made for inline objects first, but it is the answer to the schema's own type that decides.
-/

namespace TagTypes

/-! ### Last successes -/

namespace Event

/-- The event tells that the type came or that it went. -/
def succeeded (type : String) : Event → Bool
  | .typeSynced name success | .typeRemoved name success => success && name = type
  | _ => false

theorem succeeded_typeSynced {type name : String} {success : Bool} :
    succeeded type (.typeSynced name success) = true ↔ success = true ∧ type = name := by
  rw [succeeded, Bool.and_eq_true, decide_eq_true_eq, eq_comm (a := name)]

theorem succeeded_typeRemoved {type name : String} {success : Bool} :
    succeeded type (.typeRemoved name success) = true ↔ success = true ∧ type = name := by
  rw [succeeded, Bool.and_eq_true, decide_eq_true_eq, eq_comm (a := name)]

/-- The last of the events that tells a success of the type. -/
def lastSuccess? (type : String) (events : List Event) : Option Event := (events.filter (succeeded type)).getLast?

theorem lastSuccess?_concat (type : String) (events : List Event) (e : Event) :
    lastSuccess? type (events ++ [e]) = if e.succeeded type then some e else lastSuccess? type events := by
  unfold lastSuccess?
  rw [List.filter_append, List.filter_singleton]
  cases e.succeeded type <;> simp

end Event

/-! ### Calls that are written down -/

namespace Access

variable {σ : Type}

/-- The access that also writes down each call with its answer. -/
def recording (access : Access σ) : Access (σ × List (TagCall × Option (List Quality))) where
  lookup x :=
    let (answer, tags) := access.lookup x.1
    (answer, tags, x.2)
  importTags base text policy x :=
    let (answer, tags) := access.importTags base text policy x.1
    (answer, tags, x.2 ++ [(.importTags base text policy, answer)])
  removeTags paths x :=
    let (answer, tags) := access.removeTags paths x.1
    (answer, tags, x.2 ++ [(.removeTags paths, answer)])
  arrange := access.arrange

/-- Accesses that answer alike make the same records. -/
theorem Simulated.recording {τ : Type} {R : σ → τ → Prop} {a : Access σ} {b : Access τ} (hsim : Simulated R a b) :
    Simulated (fun x y => R x.1 y.1 ∧ x.2 = y.2) a.recording b.recording where
  lookup := by
    rintro x y ⟨hxy, hcalls⟩
    obtain ⟨hanswer, hstate⟩ := hsim.lookup hxy
    exact ⟨hanswer, hstate, hcalls⟩
  importTags := by
    rintro x y ⟨hxy, hcalls⟩ base text policy
    obtain ⟨hanswer, hstate⟩ := hsim.importTags hxy base text policy
    exact ⟨hanswer, hstate, by simp only [Access.recording, hanswer, hcalls]⟩
  removeTags := by
    rintro x y ⟨hxy, hcalls⟩ paths
    obtain ⟨hanswer, hstate⟩ := hsim.removeTags hxy paths
    exact ⟨hanswer, hstate, by simp only [Access.recording, hanswer, hcalls]⟩
  arrange := hsim.arrange

end Access

namespace Registry

variable {σ : Type} {access : Access σ} {r : Registry σ} {s : Schema} {type name : String} {told : List Event}

/-- The calls that a synchronization makes, with their answers. -/
def syncCalls (access : Access σ) (s : Schema) (r : Registry σ) : List (TagCall × Option (List Quality)) :=
  (sync access.recording s { r with tags := (r.tags, []) }).2.tags.2

/-- The call for the import of types. -/
def importCall (text : String) : TagCall := .importTags typesFolder text .overwrite

theorem importTypes_recording (text : String) (x : σ × List (TagCall × Option (List Quality))) :
    importTypes access.recording text x = ((importTypes access text x.1).1, (importTypes access text x.1).2,
      x.2 ++ [(importCall text, (access.importTags typesFolder text .overwrite x.1).1)]) := rfl

theorem importNested_recording (s : Schema) (tags : σ) : importNested access.recording s (tags, []) =
    (importNested access s tags, (Udt.nestedJson? s).toList.map fun definitions =>
      (importCall definitions.compactText, (access.importTags typesFolder definitions.compactText .overwrite tags).1)) := by
  unfold importNested
  cases Udt.nestedJson? s <;> rfl

/-- A provider that is found is asked to import the types made for inline objects, if there are any, and then the schema's own type. -/
theorem syncCalls_eq {tags : σ} (hfound : access.lookup r.tags = (.found, tags)) (s : Schema) :
    syncCalls access s r =
      (Udt.nestedJson? s).toList.map (fun definitions =>
        (importCall definitions.compactText, (access.importTags typesFolder definitions.compactText .overwrite tags).1)) ++
        [(importCall (Udt.definitionText s),
          (access.importTags typesFolder (Udt.definitionText s) .overwrite (importNested access s tags)).1)] := by
  have hrecorded : deliver access.recording s (r.tags, []) =
      importTypes access.recording (Udt.definitionText s) (importNested access.recording s (tags, [])) := by
    simp only [deliver, Access.recording, hfound]
  rw [syncCalls, tags_sync, hrecorded, importNested_recording, importTypes_recording]

/-- The answer to the last call of a synchronization decides. -/
theorem exists_syncCalls (hfound : (access.lookup r.tags).1 = .found) (s : Schema) : ∃ nested own,
    syncCalls access s r =
      (Udt.nestedJson? s).toList.map (fun definitions => (importCall definitions.compactText, nested)) ++
        [(importCall (Udt.definitionText s), own)] ∧
      (sync access s r).1 = wentWell own := by
  rcases hlookup : access.lookup r.tags with ⟨answer, tags⟩
  rw [hlookup] at hfound
  cases hfound
  refine ⟨(Udt.nestedJson? s).bind fun definitions => (access.importTags typesFolder definitions.compactText .overwrite tags).1,
    (access.importTags typesFolder (Udt.definitionText s) .overwrite (importNested access s tags)).1, ?_, ?_⟩
  · rw [syncCalls_eq hlookup]
    cases Udt.nestedJson? s <;> rfl
  · have hdelivered : deliver access s r.tags = importTypes access (Udt.definitionText s) (importNested access s tags) := by
      simp only [deliver, hlookup]
    rw [fst_sync, hdelivered]
    rfl

/-- A provider that is not found is asked nothing. -/
theorem syncCalls_of_not_found (hlost : (access.lookup r.tags).1 ≠ .found) (s : Schema) :
    syncCalls access s r = [] ∧ (sync access s r).1 = false := by
  rw [syncCalls, tags_sync, fst_sync]
  rcases hlookup : access.lookup r.tags with ⟨answer, tags⟩
  cases answer with
  | found => exact absurd (by rw [hlookup]) hlost
  | absent | failed => simp only [deliver, Access.recording, hlookup, and_self]

/-- Registries over simulated providers make the same calls and get the same answers. -/
theorem syncCalls_simulated {τ : Type} {R : σ → τ → Prop} {a : Access σ} {b : Access τ} (hsim : Access.Simulated R a b)
    {r : Registry σ} {q : Registry τ} (hrq : Related R r q) (s : Schema) : syncCalls a s r = syncCalls b s q :=
  (sync_simulated hsim.recording ⟨⟨hrq.tags, rfl⟩, hrq.registered, hrq.log⟩ s).2.tags.2

/-! ### What a registry tells -/

theorem events_tell (hopen : r.log.isOpen = true) (e : Event) : (r.tell e).log.events = r.log.events ++ [e] :=
  EventLog.events_tell hopen e

theorem isOpen_tell (e : Event) : (r.tell e).log.isOpen = r.log.isOpen := EventLog.isOpen_tell _ e

theorem events_sync (hopen : r.log.isOpen = true) (s : Schema) :
    (sync access s r).2.log.events = r.log.events ++ [.typeSynced s.name (sync access s r).1] :=
  EventLog.events_tell hopen _

theorem isOpen_sync (s : Schema) : (sync access s r).2.log.isOpen = r.log.isOpen := EventLog.isOpen_tell _ _

theorem events_remove (hopen : r.log.isOpen = true) (type : String) :
    (remove access type r).2.log.events = r.log.events ++ [.typeRemoved type (remove access type r).1] :=
  EventLog.events_tell hopen _

theorem isOpen_remove (type : String) : (remove access type r).2.log.isOpen = r.log.isOpen := EventLog.isOpen_tell _ _

theorem fst_syncEach_cons (s : Schema) (rest : List Schema) : (syncEach access (s :: rest) r).1 =
    if (sync access s r).1 then (syncEach access rest (sync access s r).2).1 + 1
    else (syncEach access rest (sync access s r).2).1 := rfl

/-- The events of synchronizations that gave these results. -/
def syncEvents (schemas : List Schema) (results : List Bool) : List Event :=
  List.zipWith (fun s success => .typeSynced s.name success) schemas results

/-- Schemas that are synchronized one after the other are told one by one, and those that went well are counted. -/
theorem exists_events_syncEach (access : Access σ) (schemas : List Schema) : ∀ {r : Registry σ}, r.log.isOpen = true →
    ∃ results : List Bool, results.length = schemas.length ∧
      (syncEach access schemas r).2.log.events = r.log.events ++ syncEvents schemas results ∧
      (syncEach access schemas r).1 = results.count true := by
  induction schemas with
  | nil => exact fun _ => ⟨[], rfl, (List.append_nil _).symm, rfl⟩
  | cons s rest ih =>
    intro r hopen
    obtain ⟨results, hlength, hevents, hcount⟩ := ih (r := (sync access s r).2) ((isOpen_sync s).trans hopen)
    refine ⟨(sync access s r).1 :: results, by rw [List.length_cons, List.length_cons, hlength], ?_, ?_⟩
    · rw [syncEach_cons, hevents, events_sync hopen, List.append_assoc]
      rfl
    · rw [fst_syncEach_cons, hcount, List.count_cons]
      cases (sync access s r).1 <;> rfl

/-! ### Registered types by the events -/

/-- The names are those of the types whose last success is that they came. -/
def Reflects (registered : List String) (told : List Event) : Prop :=
  ∀ name, name ∈ registered ↔ Event.lastSuccess? name told = some (.typeSynced name true)

theorem Reflects.sync (h : Reflects r.registered told) (s : Schema) :
    Reflects (sync access s r).2.registered (told ++ [.typeSynced s.name (sync access s r).1]) := by
  intro name
  rw [mem_registered_sync_iff, h name, Event.lastSuccess?_concat]
  simp only [Event.succeeded_typeSynced]
  split
  · rename_i hsuccess
    obtain ⟨hsuccess, rfl⟩ := hsuccess
    simp [hsuccess]
  · rename_i hother
    rw [or_iff_left hother]

theorem Reflects.remove (h : Reflects r.registered told) (type : String) :
    Reflects (remove access type r).2.registered (told ++ [.typeRemoved type (remove access type r).1]) := by
  intro name
  rw [mem_registered_remove_iff, h name, Event.lastSuccess?_concat]
  simp only [Event.succeeded_typeRemoved]
  split
  · rename_i hsuccess
    obtain ⟨hsuccess, rfl⟩ := hsuccess
    simp [hsuccess]
  · rename_i hother
    rw [and_iff_left hother]

/-- A registry that listens and has told something since `before`, by which its registered types can be told. -/
def Follows (before : List Event) (r : Registry σ) : Prop :=
  r.log.isOpen = true ∧ ∃ told, r.log.events = before ++ told ∧ Reflects r.registered told

variable {before : List Event}

theorem Follows.sync (h : Follows before r) (s : Schema) : Follows before (sync access s r).2 := by
  obtain ⟨hopen, told, hevents, hreflects⟩ := h
  refine ⟨(isOpen_sync s).trans hopen, _, ?_, hreflects.sync s⟩
  rw [events_sync hopen, hevents, List.append_assoc]

theorem Follows.remove (h : Follows before r) (type : String) : Follows before (remove access type r).2 := by
  obtain ⟨hopen, told, hevents, hreflects⟩ := h
  refine ⟨(isOpen_remove type).trans hopen, _, ?_, hreflects.remove type⟩
  rw [events_remove hopen, hevents, List.append_assoc]

theorem Follows.syncEach (schemas : List Schema) :
    ∀ {r : Registry σ}, Follows before r → Follows before (syncEach access schemas r).2 := by
  induction schemas with
  | nil => exact fun h => h
  | cons s rest ih => exact fun h => ih (h.sync s)

theorem Follows.perform (h : Follows before r) (call : Call) : Follows before (perform access r call) := by
  cases call with
  | sync s => exact h.sync s
  | remove type => exact h.remove type
  | syncAll schemas =>
    rw [Registry.perform, syncAll]
    cases access.arrange schemas with
    | none => exact h
    | some ordered => exact Follows.syncEach ordered h

theorem Follows.run (access : Access σ) (calls : List Call) :
    ∀ {r : Registry σ}, Follows before r → Follows before (run access calls r) := by
  induction calls with
  | nil => exact fun h => h
  | cons call rest ih => exact fun h => ih (h.perform call)

/-! ### Any calls to any provider -/

/-- What becomes of a call to synchronize a schema: it throws nothing, tells its result as one event, and asks a provider that is found for the types made for inline objects first and then for the schema's own, by which alone the result is decided. -/
structure SyncHandled (access : Access σ) (s : Schema) (r : Registry σ) : Prop where
  caught : Throwing.deliver access s r.tags = (.ok (sync access s r).1, (sync access s r).2.tags)
  events : (sync access s r).2.log.events = r.log.events ++ [.typeSynced s.name (sync access s r).1]
  found : (access.lookup r.tags).1 = .found → ∃ nested own,
    syncCalls access s r =
      (Udt.nestedJson? s).toList.map (fun definitions => (importCall definitions.compactText, nested)) ++
        [(importCall (Udt.definitionText s), own)] ∧
      (sync access s r).1 = wentWell own
  lost : (access.lookup r.tags).1 ≠ .found → syncCalls access s r = [] ∧ (sync access s r).1 = false

/-- What becomes of a call to remove a type: it throws nothing and tells its result as one event. -/
structure RemoveHandled (access : Access σ) (type : String) (r : Registry σ) : Prop where
  caught : Throwing.withdraw access type r.tags = (.ok (remove access type r).1, (remove access type r).2.tags)
  events : (remove access type r).2.log.events = r.log.events ++ [.typeRemoved type (remove access type r).1]

/-- What becomes of a call to synchronize schemas: if they can be arranged, then each of them is told in this order with its result and the successes are counted, and otherwise nothing happens. -/
structure SyncAllHandled (access : Access σ) (schemas : List Schema) (r : Registry σ) : Prop where
  arranged : access.arrange schemas ≠ none → (Dependency.order schemas).Perm schemas ∧
    ∃ results : List Bool, results.length = schemas.length ∧
      (syncAll access schemas r).2.log.events = r.log.events ++ syncEvents (Dependency.order schemas) results ∧
      (syncAll access schemas r).1 = some (results.count true)
  stuck : access.arrange schemas = none → syncAll access schemas r = (none, r)

theorem syncHandled (hopen : r.log.isOpen = true) (s : Schema) : SyncHandled access s r where
  caught := Throwing.deliver_apply access r.tags s
  events := events_sync hopen s
  found hfound := exists_syncCalls hfound s
  lost hlost := syncCalls_of_not_found hlost s

theorem removeHandled (hopen : r.log.isOpen = true) (type : String) : RemoveHandled access type r where
  caught := Throwing.withdraw_apply access r.tags type
  events := events_remove hopen type

theorem syncAllHandled (harrange : ∀ schemas ordered, access.arrange schemas = some ordered → ordered = Dependency.order schemas)
    (hopen : r.log.isOpen = true) (schemas : List Schema) : SyncAllHandled access schemas r where
  arranged harranged := by
    obtain ⟨ordered, hordered⟩ := Option.ne_none_iff_exists'.1 harranged
    obtain rfl := harrange schemas ordered hordered
    have hall : syncAll access schemas r = (some (syncEach access (Dependency.order schemas) r).1,
        (syncEach access (Dependency.order schemas) r).2) := by
      rw [syncAll, hordered]
    obtain ⟨results, hlength, hevents, hcount⟩ := exists_events_syncEach access (Dependency.order schemas) hopen
    refine ⟨Dependency.perm_order schemas, results, ?_, ?_, ?_⟩
    · rw [hlength, (Dependency.perm_order schemas).length_eq]
    · rw [hall, hevents]
    · rw [hall, hcount]
  stuck hstuck := by rw [syncAll, hstuck]

/-- After any calls to a registry that listens and had no names, over a provider that does what it likes, the registered types are those whose last success among the events told is that they came. No call to synchronize a schema or to remove a type throws, and each tells its result as one event; whatever the types made for inline objects come to, the schema's own type is tried and decides. A call to synchronize schemas tells of each of them in the order of their references and counts the successes; if the schemas cannot be arranged, then nothing happens. -/
theorem run_told (harrange : ∀ schemas ordered, access.arrange schemas = some ordered → ordered = Dependency.order schemas)
    (hopen : r.log.isOpen = true) (hnew : r.registered = []) (calls : List Call) :
    (∃ told, (run access calls r).log.events = r.log.events ++ told ∧
      ∀ name, name ∈ (run access calls r).registered ↔ Event.lastSuccess? name told = some (.typeSynced name true)) ∧
    (∀ s, SyncHandled access s (run access calls r)) ∧
    (∀ type, RemoveHandled access type (run access calls r)) ∧
    ∀ schemas, SyncAllHandled access schemas (run access calls r) := by
  have hstart : Follows r.log.events r := by
    refine ⟨hopen, [], (List.append_nil _).symm, fun name => ?_⟩
    rw [hnew]
    exact iff_of_false List.not_mem_nil (by simp [Event.lastSuccess?])
  obtain ⟨hstill, htold⟩ := hstart.run access calls
  exact ⟨htold, syncHandled hstill, removeHandled hstill, syncAllHandled harrange hstill⟩

/-- A schema with one inline object. -/
def nesting : Schema :=
  { name := "A", properties := [{ name := "b", type := some "object", nested := [{ name := "c" }] }] }

/-- A provider that throws when it is first called, then goes well and then finds nothing. -/
def faltering : Depot :=
  ({} : Depot).add (.replaying
    { name := "default", replies := [.failure "out of reach", .qualities [.good], .qualities [.notFound]] })

/-- The import of the type made for the inline object throws and the removal finds nothing, so the schema's own type stays registered. -/
theorem run_told_faltering :
    (run (Depot.access "default" fun schemas => some (Dependency.order schemas)) [.sync nesting, .remove "A"]
      { tags := faltering }).log.events = [.typeSynced "A" true, .typeRemoved "A" false] ∧
    "A" ∈ (run (Depot.access "default" fun schemas => some (Dependency.order schemas)) [.sync nesting, .remove "A"]
      { tags := faltering }).registered := by
  have hlog : (run (Depot.access "default" fun schemas => some (Dependency.order schemas)) [.sync nesting, .remove "A"]
      { tags := faltering }).log.events = [.typeSynced "A" true, .typeRemoved "A" false] := by
    decide +kernel
  have harrange : ∀ schemas ordered, (Depot.access "default" fun schemas => some (Dependency.order schemas)).arrange schemas =
      some ordered → ordered = Dependency.order schemas :=
    fun _ _ hordered => (Option.some.inj hordered).symm
  obtain ⟨⟨told, hevents, hreflects⟩, -⟩ :=
    run_told harrange (r := { tags := faltering }) rfl rfl [.sync nesting, .remove "A"]
  rw [hlog] at hevents
  cases hevents
  exact ⟨hlog, (hreflects "A").2 rfl⟩

end Registry

end TagTypes
