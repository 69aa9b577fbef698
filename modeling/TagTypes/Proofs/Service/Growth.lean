import Mathlib.Tactic
import TagTypes.Proofs.Registry.Growth
import TagTypes.Proofs.Service.Effect

/-!
# Services that may not delete types

If the settings do not allow that types are deleted, then nothing that happens to a service takes a type away: not a new title, not a deletion, not a scan that finds files changed or gone. Its providers lose no path and are asked for imports only, no removal is told, and from one start to the next the registered types only become more. Schemas are deleted all the same, with their files.
-/

namespace TagTypes.Service

/-- The settings are the same, and the registry was kept; it may have been cleared of registered names. -/
structure Kept (s t : Service) : Prop where
  settings : t.settings = s.settings
  registry : Registry.Kept Depot.Grown s.registry t.registry

/-- The settings are the same, and the registry has grown. -/
structure Grown (s t : Service) : Prop where
  settings : t.settings = s.settings
  registry : Registry.Grown Depot.Grown s.registry t.registry

def Action.IsStart : Action → Prop
  | .start _ => True
  | _ => False

variable {s t u : Service} {cache : SchemaCache} {disk : Disk}

theorem grows_access (s : Service) : s.access.Grows Depot.Grown := Depot.grows_access _ _

theorem Grown.kept (h : Grown s t) : Kept s t := ⟨h.settings, h.registry.toKept⟩

theorem Grown.refl (s : Service) : Grown s s := ⟨rfl, .refl s.grows_access _⟩

theorem Grown.trans (h : Grown s t) (h' : Grown t u) : Grown s u :=
  ⟨h'.settings.trans h.settings, h.registry.trans s.grows_access h'.registry⟩

theorem Kept.trans (h : Kept s t) (h' : Kept t u) : Kept s u :=
  ⟨h'.settings.trans h.settings, h.registry.trans s.grows_access h'.registry⟩

theorem Kept.allowDelete (h : Kept s t) : t.allowDelete = s.allowDelete := by rw [Service.allowDelete, h.settings, Service.allowDelete]

/-! ### Steps -/

theorem grown_withDisk (s : Service) (disk : Disk) : Grown s (s.withDisk disk) :=
  ⟨rfl, ⟨Depot.grown_withDisk _ disk, [], by simp [withDisk]⟩, fun _ => id⟩

theorem grown_tell {e : Event} (he : e.kind ≠ .typeRemoved) (s : Service) : Grown s (s.tell e) :=
  ⟨rfl, Registry.grown_tell s.grows_access he _⟩

theorem grown_syncType (schema : Schema) (s : Service) : Grown s (s.syncType schema) :=
  ⟨rfl, Registry.grown_sync s.grows_access schema _⟩

theorem grown_syncAll (schemas : List Schema) (s : Service) : Grown s (s.syncAll schemas) :=
  ⟨rfl, Registry.grown_syncAll s.grows_access schemas _⟩

/-- What is neither settings nor registry does not count. -/
theorem Grown.withParts (h : Grown s t) (running : Bool) (cache : Option SchemaCache) (feed : Option Broker.Feed)
    (attached scanning : Bool) (timer : List TimerCall) :
    Grown s { t with running, cache, feed, attached, scanning, timer } := ⟨h.settings, h.registry⟩

theorem Grown.withCache (h : Grown s t) (cache : SchemaCache) : Grown s { t with cache := some cache } :=
  h.withParts t.running (some cache) t.feed t.attached t.scanning t.timer

section Steps

variable (hdelete : s.allowDelete = false)
include hdelete

theorem grown_received (key text : String) : Grown s (s.received key text) := by
  cases hactive : s.activeCache? with
  | none =>
    rw [received_inactive hactive]
    exact .refl s
  | some cache =>
    rcases hsave : cache.save key text s.disk with ⟨e | ⟨schema, saved⟩, disk⟩
    · rw [received_rejected hactive hsave]
      exact (grown_withDisk s disk).trans (grown_tell (by simp [Event.kind]) _)
    · have hkept : s.outgrown? cache key schema = none := by rw [outgrown?, hdelete, if_neg Bool.false_ne_true]
      have hadmitted : Grown s (s.admitted saved disk key) :=
        (((Grown.refl s).withCache saved).trans (grown_withDisk _ disk)).trans (grown_tell (by simp [Event.kind]) _)
      rw [received_taken hactive hsave, hkept]
      exact hadmitted.trans (grown_syncType schema _)

theorem gone?_deleted (cache : SchemaCache) (key : String) : s.gone? cache (.deleted key) = none := by
  rw [gone?, hdelete, if_neg Bool.false_ne_true]

theorem grown_deleted (key : String) : Grown s (s.deleted key) := by
  cases hactive : s.activeCache? with
  | none =>
    rw [deleted_inactive hactive]
    exact .refl s
  | some cache =>
    rw [deleted_active hactive, gone?_deleted hdelete]
    rcases cache.remove key (s.dropType none).disk with ⟨e | saved, disk⟩
    · exact grown_withDisk s disk
    · exact (((Grown.refl s).withCache saved).trans (grown_withDisk _ disk)).trans (grown_tell (by simp [Event.kind]) _)

theorem grown_scan : Grown s s.scan := by
  cases hactive : s.activeCache? with
  | none =>
    rw [scan_inactive hactive]
    exact .refl s
  | some cache =>
    have hreloaded := (Grown.refl s).withCache (cache.reload s.disk).2
    have hkept : { s with cache := some (cache.reload s.disk).2 }.allowDelete = false := hdelete
    rw [scan, hactive]
    simp only [hkept, Bool.false_eq_true, if_false]
    split
    · exact hreloaded
    · exact hreloaded.trans (grown_syncAll _ _)

theorem grown_take (m : Message) : Grown s (s.take m) := by
  cases m with
  | received key text => exact grown_received hdelete key text
  | deleted key => exact grown_deleted hdelete key

theorem grown_handle (signal : Broker.Signal) : Grown s (s.handle signal) := by
  cases signal with
  | received name text => exact grown_received hdelete name text
  | deleted name => exact grown_deleted hdelete name
  | connected => exact grown_tell (by simp [Event.kind]) s
  | disconnected cause => exact grown_tell (by simp [Event.kind]) s

theorem grown_startWith (k : Broker.Conditions) (cache : SchemaCache) : Grown s (s.startWith k cache) := by
  apply startWith_induction (P := Grown s) (Q := Grown s)
  · exact fun t feed attached ht => ht.withParts t.running t.cache feed attached t.scanning t.timer
  · exact fun signal _ t ht => ht.trans (grown_handle (ht.kept.allowDelete.trans hdelete) signal)
  · exact fun t ht => ht.withParts true t.cache t.feed t.attached t.scanning t.timer
  · exact fun t ht => ht.trans (grown_syncAll _ t)
  · exact fun t scanning timer ht => ht.withParts t.running t.cache t.feed t.attached scanning timer
  · exact (Grown.refl s).withCache cache

/-- A start clears the registered types, and then they grow. -/
theorem kept_start (k : Broker.Conditions) : Kept s (s.start k) := by
  have hcleared : Kept s s.cleared := ⟨rfl, Depot.Grown.refl _, [], by simp [cleared]⟩
  have hdelete' : s.cleared.allowDelete = false := hdelete
  rcases hprepare : SchemaCache.prepare { directory := cacheDirectory s.settings } s.disk with ⟨e | cache, disk⟩
  · rw [start_unprepared hprepare]
    have hstopped := grown_withDisk s.cleared disk
    exact hcleared.trans (hstopped.withParts true s.cache s.feed s.attached s.scanning s.timer).kept
  · rw [start_prepared hprepare]
    have hdisk := grown_withDisk s.cleared disk
    have hstarted : Grown (s.cleared.withDisk disk) ((s.cleared.withDisk disk).startWith k cache) :=
      grown_startWith (hdisk.kept.allowDelete.trans hdelete') k cache
    exact hcleared.trans (hdisk.trans hstarted).kept

theorem grown_perform {a : Action} (ha : ¬a.IsStart) : Grown s (s.perform a) := by
  cases a with
  | start k => exact absurd trivial ha
  | stop k =>
    obtain ⟨feed, attached, scanning, timer, hstop⟩ := stop_eq k s
    rw [perform, hstop]
    exact (Grown.refl s).withParts false s.cache feed attached scanning timer
  | message m => exact grown_take hdelete m
  | scan => exact grown_scan hdelete
  | edit disk => exact grown_withDisk s disk

theorem kept_perform (a : Action) : Kept s (s.perform a) := by
  cases a with
  | start k => exact kept_start hdelete k
  | _ => exact (grown_perform hdelete id).kept

/-! ### Runs -/

theorem kept_run (actions : List Action) : Kept s (s.run actions) := by
  induction actions using List.reverseRecOn with
  | nil => exact (Grown.refl s).kept
  | append_singleton before a ih =>
    rw [run, List.foldl_concat]
    exact ih.trans (kept_perform (ih.allowDelete.trans hdelete) a)

theorem grown_run {actions : List Action} (hactions : ∀ a ∈ actions, ¬a.IsStart) : Grown s (s.run actions) := by
  induction actions using List.reverseRecOn with
  | nil => exact .refl s
  | append_singleton before a ih =>
    have hbefore := ih fun b hb => hactions b (List.mem_append_left _ hb)
    rw [run, List.foldl_concat]
    exact hbefore.trans (grown_perform (hbefore.kept.allowDelete.trans hdelete) (hactions a (by simp)))

/-- A deletion takes the schema from the cache and its file from the disk, if the file can be removed. -/
theorem deleted_removable (hactive : s.activeCache? = some cache) {key : String} (hkey : SchemaCache.isValidKey key = true)
    (hremovable : (Disk.removeFileIfThere (cache.fileFor key) s.disk).1.isOk = true) :
    (s.deleted key).cached? = Function.update s.cached? key none ∧
      ((s.deleted key).disk.status (cache.fileFor key)).isOk = false := by
  rcases hremove : Disk.removeFileIfThere (cache.fileFor key) s.disk with ⟨fault | ⟨⟩, disk⟩
  · rw [hremove] at hremovable
    cases hremovable
  · have hgone : cache.remove key (s.dropType none).disk = _ := SchemaCache.remove_of_removeFileIfThere hkey hremove
    rw [deleted_active hactive, gone?_deleted hdelete, hgone]
    constructor
    · rw [cached?_of_activeCache? hactive]
      funext other
      have hget : ({ cache with entries := cache.entries.erase key } : SchemaCache).entries.get? other = _ :=
        cache.entries.get?_erase key other
      refine hget.trans ?_
      rw [Function.update_apply]
      simp only [eq_comm]
    · exact Disk.status_of_removeFileIfThere (SchemaCache.isFileName_of_isValidKey hkey).1 hremove

end Steps

/-- Whatever happens to a service that may not delete types, its providers lose no path and are asked for no removal, and no removal is told; as long as it is not started anew, no registered type is dropped. A schema whose file can be removed is deleted all the same, from the cache and from the disk. -/
theorem run_without_deletion (hdelete : s.allowDelete = false) (actions : List Action) :
    s.registry.tags.Grown (s.run actions).registry.tags ∧
    (∃ told, (s.run actions).registry.log.events = s.registry.log.events ++ told ∧ ∀ e ∈ told, e.kind ≠ .typeRemoved) ∧
    ((∀ a ∈ actions, ¬a.IsStart) → s.registry.registered ⊆ (s.run actions).registry.registered) ∧
    ∀ cache key, (s.run actions).activeCache? = some cache → SchemaCache.isValidKey key = true →
      (Disk.removeFileIfThere (cache.fileFor key) (s.run actions).disk).1.isOk = true →
        ((s.run actions).deleted key).cached? = Function.update (s.run actions).cached? key none ∧
        (((s.run actions).deleted key).disk.status (cache.fileFor key)).isOk = false := by
  have hkept := kept_run hdelete actions
  refine ⟨hkept.registry.tags, hkept.registry.events, ?_, ?_⟩
  · exact fun hactions => (grown_run hdelete hactions).registry.registered
  · intro cache key hactive hkey hremovable
    exact deleted_removable (hkept.allowDelete.trans hdelete) hactive hkey hremovable

/-- A service that may not delete types, after it was started and got a schema of the given title under the key `a`. -/
@[irreducible]
def withKept (title : String) : Service :=
  run [.start {}, .message (.received "a" (titled title))]
    { ofMemory with settings := { broker := { enabled := false }, provider := { allowDelete := false } } }

/-- A title before stays registered, and the schema can still be deleted. -/
theorem run_without_deletion_titles :
    "A" ∈ ((withKept "A").run [.message (.received "a" (titled "B")), .scan]).registry.registered ∧
    ((withKept "A").run [.message (.received "a" (titled "B")), .scan]).cached? "a" ≠ none ∧
    (((withKept "A").run [.message (.received "a" (titled "B")), .scan]).deleted "a").cached? "a" = none := by
  have hdelete : (withKept "A").allowDelete = false := by decide +kernel
  have hregistered : "A" ∈ (withKept "A").registry.registered := by decide +kernel
  have hrun : ((withKept "A").run [.message (.received "a" (titled "B")), .scan]).activeCache?.map (fun cache =>
      ((cache.entries.get? "a").isSome, (Disk.removeFileIfThere (cache.fileFor "a")
        ((withKept "A").run [.message (.received "a" (titled "B")), .scan]).disk).1.isOk)) = some (true, true) := by
    decide +kernel
  obtain ⟨cache, hactive, hrun⟩ := Option.map_eq_some_iff.1 hrun
  obtain ⟨hcached, hremovable⟩ := Prod.mk.inj hrun
  obtain ⟨-, -, hgrown, hdeleted⟩ := run_without_deletion hdelete [.message (.received "a" (titled "B")), .scan]
  obtain ⟨hgone, -⟩ := hdeleted cache "a" hactive (by decide) hremovable
  refine ⟨hgrown (by simp [Action.IsStart]) hregistered, ?_, ?_⟩
  · rw [cached?_of_activeCache? hactive]
    exact Option.isSome_iff_ne_none.1 hcached
  · rw [hgone, Function.update_self]

end TagTypes.Service
