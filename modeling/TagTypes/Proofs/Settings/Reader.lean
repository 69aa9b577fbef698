import Mathlib.Tactic
import TagTypes.Proofs.Except
import TagTypes.Settings.File

/-!
# Reading settings

The entries that are written for settings also say how settings are read: under the name of each entry stands its value, and the default of the entry says of which kind the value has to be. So all settings are read alike. Reading fails only if a value that is nested too deep stands under a name, or an infinite number where a whole one is wanted; a value that is missing, null or of another kind leaves the default.
-/

namespace TagTypes.Settings

open Yaml (Value Entry)

variable {root : Value} {fields : Fields} {name : String} {s t : Settings}

/-! ### Entries -/

theorem broker_entries_injective : BrokerSettings.entries.Injective := by
  rintro ⟨⟩ ⟨⟩ hentries
  simp only [BrokerSettings.entries, List.cons.injEq, Prod.mk.injEq, Entry.text.injEq, Entry.int.injEq, Entry.bool.injEq,
    true_and, and_true] at hentries
  obtain ⟨rfl, rfl, rfl, rfl, rfl, rfl, rfl, rfl, rfl, rfl, rfl, rfl, rfl, rfl, rfl⟩ := hentries
  rfl

theorem cache_entries_injective : CacheSettings.entries.Injective := by
  rintro ⟨⟩ ⟨⟩ hentries
  simp only [CacheSettings.entries, List.cons.injEq, Prod.mk.injEq, Entry.text.injEq, Entry.int.injEq, true_and,
    and_true] at hentries
  obtain ⟨rfl, rfl⟩ := hentries
  rfl

theorem provider_entries_injective : ProviderSettings.entries.Injective := by
  rintro ⟨⟩ ⟨⟩ hentries
  simp only [ProviderSettings.entries, List.cons.injEq, Prod.mk.injEq, Entry.text.injEq, Entry.bool.injEq, true_and,
    and_true] at hentries
  obtain ⟨rfl, rfl, rfl⟩ := hentries
  rfl

/-- The entries of settings determine them. -/
theorem entries_injective : Settings.entries.Injective := by
  rintro ⟨⟩ ⟨⟩ hentries
  simp only [entries, List.cons.injEq, Prod.mk.injEq, Entry.text.injEq, Entry.group.injEq, true_and, and_true] at hentries
  obtain ⟨rfl, hbroker, hcache, hprovider⟩ := hentries
  rw [broker_entries_injective hbroker, cache_entries_injective hcache, provider_entries_injective hprovider]

/-! ### One setting -/

/-- The whole number that a value is worth for the setting of this name. For the level of delivery a truth value is worth none, and only 0, 1 and 2 count. -/
def wholeFor? (name : String) (v : Value) : Option Int :=
  if name = "qos" then
    match v with
    | .bool _ => none
    | v => (whole? v).toOption.join.filter fun n => 0 ≤ n && n ≤ 2
  else (whole? v).toOption.join

/-- What a value is worth for the setting of this name, if it is of the kind of the default. -/
def converted? (root : Value) (name : String) (default : Entry) (v : Value) : Option Entry :=
  match default with
  | .text _ => (root.text v).toOption.map .text
  | .int _ => (wholeFor? name v).map .int
  | .bool _ => (truth? v).map .bool
  | .group _ => none

/-- A setting as it is read: the converted value under its name, or the default if there is no value, a null one or one that cannot be converted. -/
def setting (root : Value) (fields : Fields) (name : String) (default : Entry) : Entry :=
  ((value? fields name).bind (converted? root name default)).getD default

/-- The settings of one group, read from the fields of its section. -/
def readGroup (root : Value) (fields : Fields) (defaults : List (String × Entry)) : List (String × Entry) :=
  defaults.map fun e => (e.1, setting root fields e.1 e.2)

/-- A group of settings stands in a section of its own. -/
def readEntry (root : Value) (fields : Fields) (e : String × Entry) : String × Entry :=
  match e.2 with
  | .group inner => (e.1, .group (readGroup root (sectionFields root fields e.1) inner))
  | default => (e.1, setting root fields e.1 default)

/-- A value that cannot be passed over: one that is nested too deep, or an infinite number for a setting that wants a whole one. -/
def Blocks (root : Value) (default : Entry) (v : Value) : Prop :=
  isTooDeep root v = true ∨ (∃ n, default = .int n) ∧ ∃ negative, v = .real (.infinite negative)

/-- Such a value stands under the name of a setting. -/
def IsBlocked (root : Value) (fields : Fields) (e : String × Entry) : Prop := ∃ v, value? fields e.1 = some v ∧ Blocks root e.2 v

/-- Such a value stands under the name of some setting. -/
def HasBlocked (root : Value) : Prop :=
  ∃ e ∈ ({} : Settings).entries, match e.2 with
    | .group inner => ∃ f ∈ inner, IsBlocked root (sectionFields root (rootFields root) e.1) f
    | _ => IsBlocked root (rootFields root) e

/-- How settings of one kind are converted: a value that does not block the setting is worth what the kind says. -/
structure Converts {α : Type} (root : Value) (name : String) (kind : α → Entry) (convert : Value → Except ReadFault (Option α)) : Prop where
  injective : kind.Injective
  fails : ∀ v default fault, convert v = .error fault → Blocks root (kind default) v
  yields : ∀ v default found, convert v = .ok found →
    converted? root name (kind default) v = found.map kind ∧ ¬∃ n negative, kind default = .int n ∧ v = .real (.infinite negative)

variable {α : Type} {kind : α → Entry} {convert : Value → Except ReadFault (Option α)} {default x : α}

/-- A setting is read unless its value blocks it, and is then the converted value or the default. -/
theorem get_eq (fields : Fields) (hconverts : Converts root name kind convert) (default : α) :
    (IsBlocked root fields (name, kind default) ∧ ∃ fault, get root fields name convert default = .error fault) ∨
      ¬IsBlocked root fields (name, kind default) ∧ ∃ x, get root fields name convert default = .ok x ∧
        setting root fields name (kind default) = kind x := by
  unfold get setting IsBlocked
  -- `get` and `setting` look at the same value, and part only where it blocks
  cases hvalue : value? fields name with
  | none => exact Or.inr ⟨by simp, default, rfl, rfl⟩
  | some v =>
    simp only [Option.some.injEq, exists_eq_left', Option.bind_some]
    cases hdeep : isTooDeep root v with
    | true => exact Or.inl ⟨Or.inl hdeep, .tooDeep, rfl⟩
    | false =>
      simp only [Bool.false_eq_true, if_false]
      cases hconvert : convert v with
      | error fault => exact Or.inl ⟨hconverts.fails v default fault hconvert, fault, rfl⟩
      | ok found =>
        obtain ⟨hfound, hfinite⟩ := hconverts.yields v default found hconvert
        refine Or.inr ⟨?_, found.getD default, rfl, ?_⟩
        · rintro (hblocks | ⟨⟨n, hn⟩, negative, hv⟩)
          · rw [hdeep] at hblocks
            cases hblocks
          · exact hfinite ⟨n, negative, hn, hv⟩
        · rw [hfound]
          cases found <;> rfl

/-- A setting is read as this entry in place of the default. -/
def Reads (root : Value) (fields : Fields) (default e : String × Entry) : Prop :=
  default.1 = e.1 ∧ ¬IsBlocked root fields default ∧ setting root fields default.1 default.2 = e.2

theorem get_eq_ok_iff (hconverts : Converts root name kind convert) :
    get root fields name convert default = .ok x ↔ Reads root fields (name, kind default) (name, kind x) := by
  unfold Reads
  rcases get_eq fields hconverts default with ⟨hblocked, fault, hfault⟩ | ⟨hfree, y, hy, hsetting⟩
  · simp [hblocked, hfault]
  · rw [hy, hsetting, hconverts.injective.eq_iff]
    simp [hfree]

theorem text_eq_ok_iff {default x : String} :
    text root fields name default = .ok x ↔ Reads root fields (name, .text default) (name, .text x) := by
  refine get_eq_ok_iff ⟨fun _ _ => Entry.text.inj, nofun, fun v default found hfound => ?_⟩
  cases hfound
  exact ⟨rfl, by simp⟩

theorem bool_eq_ok_iff {default x : Bool} :
    bool root fields name default = .ok x ↔ Reads root fields (name, .bool default) (name, .bool x) := by
  refine get_eq_ok_iff ⟨fun _ _ => Entry.bool.inj, nofun, fun v default found hfound => ?_⟩
  cases hfound
  exact ⟨rfl, by simp⟩

/-- Only an infinite number is no whole number that could be passed over. -/
theorem whole?_eq_error_iff {v : Value} {fault : ReadFault} :
    whole? v = .error fault ↔ fault = .infinite ∧ ∃ negative, v = .real (.infinite negative) := by
  constructor
  · intro hfault
    cases v with
    | real x =>
      cases x with
      | infinite negative =>
        cases hfault
        exact ⟨rfl, negative, rfl⟩
      | _ => cases hfault
    | _ => cases hfault
  · rintro ⟨rfl, negative, rfl⟩
    rfl

theorem int_eq_ok_iff (hname : name ≠ "qos") {default x : Int} :
    int root fields name default = .ok x ↔ Reads root fields (name, .int default) (name, .int x) := by
  refine get_eq_ok_iff ⟨fun _ _ => Entry.int.inj, fun v default fault hfault => ?_, fun v default found hfound => ?_⟩
  · exact Or.inr ⟨⟨default, rfl⟩, (whole?_eq_error_iff.1 hfault).2⟩
  · refine ⟨by simp [converted?, wholeFor?, hname, hfound, Except.toOption], ?_⟩
    rintro ⟨-, negative, -, rfl⟩
    cases hfound

theorem level_eq_ok_iff {default x : Int} :
    level root fields "qos" default = .ok x ↔ Reads root fields ("qos", .int default) ("qos", .int x) := by
  have hlevel : ∀ v, (∀ b, v ≠ .bool b) → level? v = (whole? v).map fun n => n.filter fun n => 0 ≤ n && n ≤ 2 := by
    intro v hv
    cases v with
    | bool b => exact absurd rfl (hv b)
    | _ => rfl
  refine get_eq_ok_iff ⟨fun _ _ => Entry.int.inj, fun v default fault hfault => ?_, fun v default found hfound => ?_⟩
  · have hv : ∀ b, v ≠ .bool b := by
      rintro b rfl
      cases hfault
    rw [hlevel v hv] at hfault
    cases hwhole : whole? v with
    | error other => exact Or.inr ⟨⟨default, rfl⟩, (whole?_eq_error_iff.1 hwhole).2⟩
    | ok n =>
      rw [hwhole] at hfault
      cases hfault
  · refine ⟨?_, ?_⟩
    · by_cases hv : ∃ b, v = .bool b
      · obtain ⟨b, rfl⟩ := hv
        cases hfound
        rfl
      · rw [hlevel v fun b hb => hv ⟨b, hb⟩] at hfound
        obtain ⟨n, hn, rfl⟩ := map_eq_ok_iff.1 hfound
        cases v with
        | bool b => exact absurd ⟨b, rfl⟩ hv
        | _ => simp [converted?, wholeFor?, hn, Except.toOption]
    · rintro ⟨-, negative, -, rfl⟩
      cases hfound

theorem level_mem {default n : Int} (hdefault : 0 ≤ default ∧ default ≤ 2) (hn : level root fields name default = .ok n) :
    0 ≤ n ∧ n ≤ 2 := by
  unfold level get at hn
  split at hn
  · cases hn
    exact hdefault
  · rename_i v _
    split at hn
    · cases hn
    · obtain ⟨found, hfound, rfl⟩ := map_eq_ok_iff.1 hn
      unfold level? at hfound
      split at hfound
      · cases hfound
        exact hdefault
      · obtain ⟨whole, -, rfl⟩ := map_eq_ok_iff.1 hfound
        cases hlevel : whole.filter fun n => 0 ≤ n && n ≤ 2 with
        | none => exact hdefault
        | some m => simpa using (Option.filter_eq_some_iff.1 hlevel).2

/-! ### Sections -/

/-- Every setting of a group is read if none is blocked. -/
theorem forall₂_reads_iff {defaults found : List (String × Entry)} :
    List.Forall₂ (Reads root fields) defaults found ↔
      (∀ e ∈ defaults, ¬IsBlocked root fields e) ∧ found = readGroup root fields defaults := by
  constructor
  · intro hreads
    induction hreads with
    | nil => exact ⟨by simp, rfl⟩
    | @cons default e defaults found hfirst _ ih =>
      obtain ⟨hname, hfree, hsetting⟩ := hfirst
      refine ⟨List.forall_mem_cons.2 ⟨hfree, ih.1⟩, ?_⟩
      exact List.cons_eq_cons.2 ⟨Prod.ext hname.symm hsetting.symm, ih.2⟩
  · rintro ⟨hfree, rfl⟩
    rw [readGroup, List.forall₂_map_right_iff]
    exact List.forall₂_same.2 fun e he => ⟨rfl, hfree e he, rfl⟩

theorem readBroker_eq_ok_iff {b : BrokerSettings} :
    readBroker root fields = .ok b ↔ List.Forall₂ (Reads root fields) ({} : BrokerSettings).entries b.entries := by
  simp only [readBroker, bind_eq_ok_iff, BrokerSettings.entries, List.forall₂_cons, List.forall₂_nil_left_iff, and_true,
    bool_eq_ok_iff, text_eq_ok_iff, level_eq_ok_iff, int_eq_ok_iff (show "connection_timeout_sec" ≠ "qos" by decide),
    int_eq_ok_iff (show "keepalive_sec" ≠ "qos" by decide), int_eq_ok_iff (show "reconnect_max_delay_sec" ≠ "qos" by decide)]
  constructor
  · rintro ⟨_, henabled, _, hurl, _, hclient, _, htopic, _, huser, _, hpassword, _, hqos, _, hclean, _, htimeout, _, halive, _,
      hreconnect, _, hdelay, _, hca, _, hcertificate, _, hkey, hb⟩
    cases hb
    exact ⟨henabled, hurl, hclient, htopic, huser, hpassword, hqos, hclean, htimeout, halive, hreconnect, hdelay, hca,
      hcertificate, hkey⟩
  · rintro ⟨henabled, hurl, hclient, htopic, huser, hpassword, hqos, hclean, htimeout, halive, hreconnect, hdelay, hca,
      hcertificate, hkey⟩
    exact ⟨_, henabled, _, hurl, _, hclient, _, htopic, _, huser, _, hpassword, _, hqos, _, hclean, _, htimeout, _, halive, _,
      hreconnect, _, hdelay, _, hca, _, hcertificate, _, hkey, rfl⟩

theorem readCache_eq_ok_iff {c : CacheSettings} :
    readCache root fields = .ok c ↔ List.Forall₂ (Reads root fields) ({} : CacheSettings).entries c.entries := by
  simp only [readCache, bind_eq_ok_iff, CacheSettings.entries, List.forall₂_cons, List.forall₂_nil_left_iff, and_true,
    text_eq_ok_iff, int_eq_ok_iff (show "scan_interval_sec" ≠ "qos" by decide)]
  constructor
  · rintro ⟨_, hpath, _, hinterval, hc⟩
    cases hc
    exact ⟨hpath, hinterval⟩
  · rintro ⟨hpath, hinterval⟩
    exact ⟨_, hpath, _, hinterval, rfl⟩

theorem readProvider_eq_ok_iff {p : ProviderSettings} :
    readProvider root fields = .ok p ↔ List.Forall₂ (Reads root fields) ({} : ProviderSettings).entries p.entries := by
  simp only [readProvider, bind_eq_ok_iff, ProviderSettings.entries, List.forall₂_cons, List.forall₂_nil_left_iff, and_true,
    text_eq_ok_iff, bool_eq_ok_iff]
  constructor
  · rintro ⟨_, hname, _, hdelete, _, hstorage, hp⟩
    cases hp
    exact ⟨hname, hdelete, hstorage⟩
  · rintro ⟨hname, hdelete, hstorage⟩
    exact ⟨_, hname, _, hdelete, _, hstorage, rfl⟩

theorem not_hasBlocked_iff : ¬HasBlocked root ↔
    ¬IsBlocked root (rootFields root) ("data_dir", .text ({} : Settings).dataDirectory) ∧
      (∀ e ∈ ({} : BrokerSettings).entries, ¬IsBlocked root (sectionFields root (rootFields root) "mqtt") e) ∧
      (∀ e ∈ ({} : CacheSettings).entries, ¬IsBlocked root (sectionFields root (rootFields root) "schema_cache") e) ∧
      ∀ e ∈ ({} : ProviderSettings).entries, ¬IsBlocked root (sectionFields root (rootFields root) "tag_provider") e := by
  unfold HasBlocked entries
  simp only [List.exists_mem_cons_iff, not_or, not_exists, not_and, List.not_mem_nil, false_and, exists_false, not_false_iff, and_true]

/-- Settings are read unless one of them is blocked, and every entry is then what is read for it. -/
theorem ofValue_eq_ok_iff :
    ofValue root = .ok s ↔
      ¬HasBlocked root ∧ s.entries = ({} : Settings).entries.map (readEntry root (rootFields root)) := by
  simp only [ofValue, bind_eq_ok_iff, text_eq_ok_iff, readBroker_eq_ok_iff, readCache_eq_ok_iff, readProvider_eq_ok_iff,
    forall₂_reads_iff, not_hasBlocked_iff]
  constructor
  · rintro ⟨directory, ⟨-, hdirectory, hsetting⟩, broker, hbroker, cache, hcache, provider, hprovider, hs⟩
    cases hs
    refine ⟨⟨hdirectory, hbroker.1, hcache.1, hprovider.1⟩, ?_⟩
    simp only [entries, List.map_cons, List.map_nil, readEntry, hsetting, hbroker.2, hcache.2, hprovider.2]
  · rintro ⟨⟨hdirectory, hbroker, hcache, hprovider⟩, hentries⟩
    simp only [entries, List.map_cons, List.map_nil, readEntry, List.cons.injEq, Prod.mk.injEq, true_and, and_true, Entry.group.injEq] at hentries
    obtain ⟨hsetting, hbroker', hcache', hprovider'⟩ := hentries
    exact ⟨s.dataDirectory, ⟨rfl, hdirectory, hsetting.symm⟩, s.broker, ⟨hbroker, hbroker'⟩, s.cache, ⟨hcache, hcache'⟩, s.provider,
      ⟨hprovider, hprovider'⟩, rfl⟩

theorem qos_mem_of_readBroker {b : BrokerSettings} (hb : readBroker root fields = .ok b) : 0 ≤ b.qos ∧ b.qos ≤ 2 := by
  simp only [readBroker, bind_eq_ok_iff] at hb
  obtain ⟨_, -, _, -, _, -, _, -, _, -, _, -, qos, hqos, hb⟩ := hb
  obtain ⟨_, -, _, -, _, -, _, -, _, -, _, -, _, -, _, -, hb⟩ := hb
  cases hb
  exact level_mem (by decide) hqos

theorem qos_mem_of_ofValue (hs : ofValue root = .ok s) : 0 ≤ s.broker.qos ∧ s.broker.qos ≤ 2 := by
  simp only [ofValue, bind_eq_ok_iff] at hs
  obtain ⟨directory, -, broker, hbroker, cache, -, provider, -, hs⟩ := hs
  cases hs
  exact qos_mem_of_readBroker hbroker

end TagTypes.Settings
