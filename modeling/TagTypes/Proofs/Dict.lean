import Mathlib.Tactic
import TagTypes.Dict

/-!
# What a dictionary holds

The entries of a dictionary, its keys and the values it gives for keys say the same.
-/

namespace TagTypes.Dict

variable {α : Type u} {β : Type v} [DecidableEq α]

theorem mem_of_lookup {k : α} {v : β} {xs : List (α × β)} (hlookup : lookup k xs = some v) : (k, v) ∈ xs := by
  induction xs with
  | nil => simp [lookup] at hlookup
  | cons e xs ih =>
    obtain ⟨k', v'⟩ := e
    rw [lookup] at hlookup
    split at hlookup
    · rename_i hk
      cases hlookup
      simp [hk]
    · exact List.mem_cons_of_mem _ (ih hlookup)

theorem lookup_eq_none_iff {k : α} {xs : List (α × β)} : lookup k xs = none ↔ k ∉ xs.map Prod.fst := by
  induction xs with
  | nil => simp [lookup]
  | cons e xs ih =>
    obtain ⟨k', v'⟩ := e
    rw [lookup]
    split
    · rename_i hk
      simp [hk]
    · rename_i hk
      simp [ih, Ne.symm hk]

theorem lookup_of_mem {k : α} {v : β} {xs : List (α × β)} (hnodup : (xs.map Prod.fst).Nodup) (hmem : (k, v) ∈ xs) :
    lookup k xs = some v := by
  induction xs with
  | nil => simp at hmem
  | cons e xs ih =>
    obtain ⟨k', v'⟩ := e
    rw [List.map_cons, List.nodup_cons] at hnodup
    rcases List.mem_cons.1 hmem with heq | hmem
    · cases heq
      rw [lookup, if_pos rfl]
    · have hne : k' ≠ k := by
        intro hsame
        subst hsame
        exact hnodup.1 (List.mem_map.2 ⟨(k', v), hmem, rfl⟩)
      rw [lookup, if_neg hne, ih hnodup.2 hmem]

theorem mem_place {k : α} {v : β} {e : α × β} {xs : List (α × β)} (he : e ∈ place k v xs) : e = (k, v) ∨ e ∈ xs := by
  induction xs with
  | nil => exact Or.inl (by simpa [place] using he)
  | cons e' xs ih =>
    obtain ⟨k', v'⟩ := e'
    rw [place] at he
    split at he
    · rcases List.mem_cons.1 he with rfl | he
      · exact Or.inl rfl
      · exact Or.inr (List.mem_cons_of_mem _ he)
    · rcases List.mem_cons.1 he with rfl | he
      · exact Or.inr List.mem_cons_self
      · exact (ih he).imp_right (List.mem_cons_of_mem _)

variable {d : Dict α β}

theorem mem_entries_iff {k : α} {v : β} : (k, v) ∈ d.entries ↔ d.get? k = some v :=
  ⟨lookup_of_mem d.nodup, mem_of_lookup⟩

theorem mem_keys_iff {k : α} : k ∈ d.keys ↔ (d.get? k).isSome = true := by
  rw [Option.isSome_iff_ne_none, Ne, get?, lookup_eq_none_iff, not_not, keys]

theorem contains_iff {k : α} : d.contains k = true ↔ ∃ v, d.get? k = some v := by
  rw [contains, Option.isSome_iff_exists]

theorem contains_eq_false_iff {k : α} : d.contains k = false ↔ d.get? k = none := by
  rw [contains, Option.isSome_eq_false_iff, Option.isNone_iff_eq_none]

theorem mem_values_iff {v : β} : v ∈ d.values ↔ ∃ k, d.get? k = some v := by
  simp only [values, List.mem_map, Prod.exists, ← mem_entries_iff, exists_eq_right]

theorem get?_foldl_insert {value : α → β} {ks : List α} {k : α} :
    (ks.foldl (fun d k => d.insert k (value k)) d).get? k = if k ∈ ks then some (value k) else d.get? k := by
  induction ks generalizing d with
  | nil => simp
  | cons first rest ih =>
    rw [List.foldl_cons, ih, get?_insert]
    by_cases hfirst : first = k
    · simp [hfirst]
    · simp [hfirst, Ne.symm hfirst]

/-- A dictionary made of keys with a value for each has just these keys. -/
theorem get?_ofList_map {value : α → β} {ks : List α} {k : α} :
    (ofList (ks.map fun k => (k, value k))).get? k = if k ∈ ks then some (value k) else none := by
  rw [ofList, List.foldl_map, get?_foldl_insert, get?_empty]

theorem eq_empty_of_get? (hnone : ∀ k, d.get? k = none) : d = ∅ := by
  obtain ⟨entries, hnodup⟩ := d
  cases entries with
  | nil => rfl
  | cons e rest => simpa [get?, lookup] using hnone e.1

theorem erase_of_get?_eq_none {k : α} (hnone : d.get? k = none) : d.erase k = d := by
  obtain ⟨entries, hnodup⟩ := d
  have hkey : k ∉ entries.map Prod.fst := lookup_eq_none_iff.1 hnone
  have hkept : entries.filter (fun e => e.1 ≠ k) = entries := by
    refine List.filter_eq_self.2 fun e he => decide_eq_true ?_
    rintro rfl
    exact hkey (List.mem_map_of_mem he)
  simp only [erase, hkept]

theorem keys_insert_of_contains {k : α} (hk : d.contains k = true) (v : β) : (d.insert k v).keys = d.keys := by
  rw [keys_insert, if_pos (mem_keys_iff.2 hk)]

theorem entries_eq_filterMap (d : Dict α β) : d.entries = d.keys.filterMap fun k => (d.get? k).map (Prod.mk k) := by
  rw [keys, List.filterMap_map]
  have hsame : d.entries.filterMap ((fun k => (d.get? k).map (Prod.mk k)) ∘ Prod.fst) = d.entries.filterMap some := by
    refine List.filterMap_congr fun entry hentry => ?_
    rw [Function.comp_apply, mem_entries_iff.1 hentry]
    rfl
  rw [hsame, List.filterMap_some]

/-- The keys in their order and their values make a dictionary. -/
theorem eq_of_keys_of_get? {e : Dict α β} (hkeys : d.keys = e.keys) (hget : d.get? = e.get?) : d = e := by
  have hentries : d.entries = e.entries := by rw [entries_eq_filterMap, entries_eq_filterMap e, hkeys, hget]
  cases d
  cases e
  cases hentries
  rfl

end TagTypes.Dict
