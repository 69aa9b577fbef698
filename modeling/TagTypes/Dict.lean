/-!
# Dictionaries that keep their order

A finite map as a list of entries with distinct keys, in the order in which the keys first came in. Setting a key that is present changes its value where it stands; a new key goes to the end. Tag stores, caches, subscriptions and the fields of written objects are such dictionaries, so their order is the order an answer shows.
-/

namespace TagTypes

/-- A finite map whose entries stand in the order of their first insertion. -/
structure Dict (α : Type u) (β : Type v) where
  entries : List (α × β)
  nodup : (entries.map Prod.fst).Nodup := by simp

namespace Dict

variable {α : Type u} {β : Type v} [DecidableEq α]

instance : Inhabited (Dict α β) := ⟨⟨[], .nil⟩⟩

instance : EmptyCollection (Dict α β) := ⟨⟨[], .nil⟩⟩

def keys (d : Dict α β) : List α := d.entries.map Prod.fst

def values (d : Dict α β) : List β := d.entries.map Prod.snd

def size (d : Dict α β) : Nat := d.entries.length

/-- The value of the first entry of `xs` with key `k`. -/
def lookup (k : α) : List (α × β) → Option β
  | [] => none
  | (k', v) :: xs => if k' = k then some v else lookup k xs

/-- Give `k` the value `v` where `k` stands, or at the end. -/
def place (k : α) (v : β) : List (α × β) → List (α × β)
  | [] => [(k, v)]
  | (k', v') :: xs => if k' = k then (k, v) :: xs else (k', v') :: place k v xs

theorem mem_map_fst_place {k x : α} {v : β} {xs : List (α × β)} :
    x ∈ (place k v xs).map Prod.fst ↔ x = k ∨ x ∈ xs.map Prod.fst := by
  induction xs with
  | nil => simp [place]
  | cons e xs ih =>
    obtain ⟨k', v'⟩ := e
    by_cases h : k' = k
    · subst h; simp [place]
    · simp only [place, if_neg h, List.map_cons, List.mem_cons, ih]
      constructor <;> rintro (h | h | h) <;> simp [h]

theorem nodup_place (k : α) (v : β) {xs : List (α × β)} (h : (xs.map Prod.fst).Nodup) :
    ((place k v xs).map Prod.fst).Nodup := by
  induction xs with
  | nil => simp [place]
  | cons e xs ih =>
    obtain ⟨k', v'⟩ := e
    simp only [List.map_cons, List.nodup_cons] at h
    by_cases hk : k' = k
    · subst hk; simpa [place] using h
    · simp only [place, if_neg hk, List.map_cons, List.nodup_cons, mem_map_fst_place]
      exact ⟨fun hm => hm.elim hk h.1, ih h.2⟩

omit [DecidableEq α] in
theorem nodup_filter (p : α × β → Bool) {xs : List (α × β)} (h : (xs.map Prod.fst).Nodup) :
    ((xs.filter p).map Prod.fst).Nodup :=
  h.sublist (List.filter_sublist.map _)

def get? (d : Dict α β) (k : α) : Option β := lookup k d.entries

def contains (d : Dict α β) (k : α) : Bool := (d.get? k).isSome

def insert (d : Dict α β) (k : α) (v : β) : Dict α β :=
  ⟨place k v d.entries, nodup_place k v d.nodup⟩

def erase (d : Dict α β) (k : α) : Dict α β :=
  ⟨d.entries.filter (fun e => e.1 ≠ k), nodup_filter _ d.nodup⟩

/-- Insert one entry after the other: of two entries with one key the later value stands, in the place of the earlier. -/
def ofList (xs : List (α × β)) : Dict α β :=
  xs.foldl (fun d e => d.insert e.1 e.2) ∅

theorem lookup_place (k x : α) (v : β) (xs : List (α × β)) :
    lookup x (place k v xs) = if k = x then some v else lookup x xs := by
  induction xs with
  | nil => simp [place, lookup]
  | cons e xs ih =>
    obtain ⟨k', v'⟩ := e
    by_cases hk : k' = k
    · subst hk
      by_cases hx : k' = x <;> simp [place, lookup, hx]
    · by_cases hx : k' = x
      · subst hx
        simp [place, lookup, hk, Ne.symm hk]
      · simp [place, lookup, hk, hx, ih]

theorem lookup_filter_ne (k x : α) (xs : List (α × β)) :
    lookup x (xs.filter (fun e => e.1 ≠ k)) = if k = x then none else lookup x xs := by
  induction xs with
  | nil => simp [lookup]
  | cons e xs ih =>
    obtain ⟨k', v'⟩ := e
    by_cases hk : k' = k
    · subst hk
      by_cases hx : k' = x
      · simpa [hx] using ih
      · simpa [lookup, hx] using ih
    · by_cases hx : k' = x
      · subst hx
        simp [lookup, hk, Ne.symm hk]
      · simpa [lookup, hk, hx] using ih

theorem map_fst_place (k : α) (v : β) (xs : List (α × β)) :
    (place k v xs).map Prod.fst = if k ∈ xs.map Prod.fst then xs.map Prod.fst else xs.map Prod.fst ++ [k] := by
  induction xs with
  | nil => simp [place]
  | cons e xs ih =>
    obtain ⟨k', v'⟩ := e
    by_cases hk : k' = k
    · subst hk; simp [place]
    · simp only [place, if_neg hk, List.map_cons, ih, List.mem_cons, Ne.symm hk, false_or]
      split <;> rfl

/-- A key that is there keeps its place when its value changes, a new one comes last. -/
theorem keys_insert (d : Dict α β) (k : α) (v : β) :
    (d.insert k v).keys = if k ∈ d.keys then d.keys else d.keys ++ [k] :=
  map_fst_place k v d.entries

theorem keys_erase (d : Dict α β) (k : α) : (d.erase k).keys = d.keys.filter (· ≠ k) := by
  simp only [keys, erase, List.filter_map]
  rfl

@[simp] theorem get?_empty (x : α) : (∅ : Dict α β).get? x = none := rfl

@[simp] theorem get?_insert (d : Dict α β) (k x : α) (v : β) :
    (d.insert k v).get? x = if k = x then some v else d.get? x :=
  lookup_place k x v d.entries

@[simp] theorem get?_erase (d : Dict α β) (k x : α) :
    (d.erase k).get? x = if k = x then none else d.get? x :=
  lookup_filter_ne k x d.entries

end Dict

end TagTypes
