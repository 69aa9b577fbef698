import Mathlib.Tactic
import TagTypes.Proofs.Dict
import TagTypes.Proofs.Udt.Dependency

/-!
# Kahn's algorithm

The names of schemas can be ordered without a search through all that are left: count for each name how many it waits for, keep those that wait for none in a heap, and again and again take the least of the heap and count its users down. This gives the same names in the same order, and it fails in the same cases.

What ties the two together is that each count is the number of names left that the name uses, so that the heap holds the names that use none of those left.
-/

namespace TagTypes.Dependency

/-- How many names each waiting name waits for, and the names that wait for none. -/
structure Kahn where
  waiting : Dict String ℕ
  ready : List String

namespace Kahn

/-- The name waits for one name less; it is ready if that was the last. -/
def release (k : Kahn) (name : String) : Kahn :=
  match k.waiting.get? name with
  | none => k
  | some count =>
    if count = 1 then { waiting := k.waiting.erase name, ready := name :: k.ready }
    else { k with waiting := k.waiting.insert name (count - 1) }

/-- Take the least ready name and release its users, until none is ready; it fails if names wait then. -/
def run (users : String → List String) : ℕ → Kahn → Option (List String)
  | 0, k => if k.waiting.entries.isEmpty && k.ready.isEmpty then some [] else none
  | fuel + 1, k =>
    match Text.sorted k.ready with
    | [] => if k.waiting.entries.isEmpty then some [] else none
    | name :: rest => (run users fuel ((users name).foldl release { k with ready := rest })).map (name :: ·)

/-- The names to which edges lead from this one. -/
def usersIn (edges : List (String × String)) (name : String) : List String := (edges.filter (·.1 = name)).map Prod.snd

/-- How many edges lead to the name. -/
def degreeIn (edges : List (String × String)) (name : String) : ℕ := (edges.filter (·.2 = name)).length

/-- What each node waits for before one is taken. -/
def start (edges : List (String × String)) (nodes : List String) : Kahn where
  waiting := Dict.ofList ((nodes.filter fun name => degreeIn edges name ≠ 0).map fun name => (name, degreeIn edges name))
  ready := nodes.filter fun name => degreeIn edges name = 0

/-- The nodes of a graph in the order that Kahn's algorithm finds, if it finds one. -/
def sort (edges : List (String × String)) (nodes : List String) : Option (List String) :=
  run (usersIn edges) nodes.length (start edges nodes)

/-! ### Releasing users -/

section Release

variable {k : Kahn} {name other : String} {released : List String}

theorem get?_release : (k.release name).waiting.get? other =
    if name = other then (k.waiting.get? other).bind fun count => if count = 1 then none else some (count - 1)
    else k.waiting.get? other := by
  unfold release
  by_cases hother : name = other
  · subst hother
    rw [if_pos rfl]
    cases hcount : k.waiting.get? name with
    | none => exact hcount
    | some count =>
      simp only [Option.bind_some]
      split <;> simp
  · rw [if_neg hother]
    cases k.waiting.get? name with
    | none => rfl
    | some count =>
      simp only
      split <;> simp [hother]

theorem mem_ready_release :
    other ∈ (k.release name).ready ↔ other ∈ k.ready ∨ other = name ∧ k.waiting.get? name = some 1 := by
  unfold release
  cases k.waiting.get? name with
  | none => simp
  | some count =>
    simp only
    split
    · rename_i hone
      simp [hone, or_comm]
    · rename_i hmore
      simp [hmore]

theorem get?_foldl_release (hreleased : released.Nodup) : (released.foldl release k).waiting.get? other =
    if other ∈ released then (k.waiting.get? other).bind fun count => if count = 1 then none else some (count - 1)
    else k.waiting.get? other := by
  induction released generalizing k with
  | nil => simp
  | cons first rest ih =>
    rw [List.nodup_cons] at hreleased
    rw [List.foldl_cons, ih hreleased.2, get?_release]
    by_cases hfirst : first = other
    · subst hfirst
      simp [hreleased.1]
    · simp [hfirst, Ne.symm hfirst]

theorem mem_ready_foldl_release (hreleased : released.Nodup) : other ∈ (released.foldl release k).ready ↔
    other ∈ k.ready ∨ other ∈ released ∧ k.waiting.get? other = some 1 := by
  induction released generalizing k with
  | nil => simp
  | cons first rest ih =>
    rw [List.nodup_cons] at hreleased
    rw [List.foldl_cons, ih hreleased.2, mem_ready_release, get?_release]
    by_cases hfirst : first = other
    · subst hfirst
      simp [hreleased.1]
    · simp [hfirst, Ne.symm hfirst]

/-- No name is ready twice, and none that is ready waits. -/
def Apart (k : Kahn) : Prop := k.ready.Nodup ∧ ∀ name ∈ k.ready, k.waiting.get? name = none

theorem Apart.release (hk : k.Apart) (name : String) : (k.release name).Apart := by
  obtain ⟨hnodup, hnone⟩ := hk
  have hwaits : ∀ other ∈ (k.release name).ready, (k.release name).waiting.get? other = none := by
    intro other hother
    rw [get?_release]
    rcases mem_ready_release.1 hother with hready | ⟨rfl, hone⟩
    · rw [hnone other hready]
      split <;> rfl
    · rw [if_pos rfl, hone]
      rfl
  refine ⟨?_, hwaits⟩
  unfold Kahn.release
  cases hcount : k.waiting.get? name with
  | none => exact hnodup
  | some count =>
    simp only
    split
    · refine List.nodup_cons.2 ⟨fun hready => ?_, hnodup⟩
      rw [hnone name hready] at hcount
      cases hcount
    · exact hnodup

theorem Apart.foldl_release (hk : k.Apart) : (released.foldl Kahn.release k).Apart :=
  List.foldlRecOn released Kahn.release hk fun _ hk name _ => hk.release name

end Release

/-! ### The counts along a run -/

/-- The counts are those of the names left: the names that use none of those left are ready, and each other one waits for as many as it uses. -/
structure Tracks (uses : String → String → Bool) (left : List String) (k : Kahn) : Prop where
  nodup : left.Nodup
  apart : k.Apart
  mem_ready : ∀ name, name ∈ k.ready ↔ name ∈ left ∧ left.countP (uses name) = 0
  get?_waiting : ∀ name, k.waiting.get? name =
    if name ∈ left ∧ left.countP (uses name) ≠ 0 then some (left.countP (uses name)) else none

section Tracks

variable {uses : String → String → Bool} {left rest : List String} {name : String} {k : Kahn}

theorem Tracks.isEmpty_eq (htracks : Tracks uses left k) :
    (k.waiting.entries.isEmpty && k.ready.isEmpty) = left.isEmpty := by
  rw [Bool.eq_iff_iff, Bool.and_eq_true, List.isEmpty_iff, List.isEmpty_iff, List.isEmpty_iff]
  constructor
  · intro hempty
    refine List.eq_nil_iff_forall_not_mem.2 fun name hname => ?_
    by_cases hcount : left.countP (uses name) = 0
    · have hready : name ∈ k.ready := (htracks.mem_ready name).2 ⟨hname, hcount⟩
      rw [hempty.2] at hready
      cases hready
    · have hwaits := htracks.get?_waiting name
      rw [if_pos ⟨hname, hcount⟩, Dict.get?, hempty.1] at hwaits
      cases hwaits
  · rintro rfl
    constructor
    · refine List.eq_nil_iff_forall_not_mem.2 fun e he => ?_
      have hwaits := htracks.get?_waiting e.1
      rw [Dict.mem_entries_iff.1 he, if_neg (by simp)] at hwaits
      cases hwaits
    · refine List.eq_nil_iff_forall_not_mem.2 fun name hname => ?_
      simpa using ((htracks.mem_ready name).1 hname).1

/-- The least ready name is the next one. -/
theorem Tracks.next_eq_head (htracks : Tracks uses left k) (hsorted : left.Pairwise (· ≤ ·)) :
    next? uses left = (Text.sorted k.ready).head? := by
  have hmem : ∀ other, other ∈ Text.sorted k.ready ↔ other ∈ left ∧ ∀ used ∈ left, ¬uses other used := by
    intro other
    rw [Text.mem_sorted, htracks.mem_ready, List.countP_eq_zero]
  cases hnext : next? uses left with
  | none =>
    have hstuck : Text.sorted k.ready = [] := by
      refine List.eq_nil_iff_forall_not_mem.2 fun other hother => ?_
      obtain ⟨hleft, hfree⟩ := (hmem other).1 hother
      have hall := List.find?_eq_none.1 hnext other hleft
      exact hall (by simpa using hfree)
    rw [hstuck]
    rfl
  | some name =>
    have hname : name ∈ Text.sorted k.ready := (hmem name).2 ⟨mem_of_next hnext, not_uses_of_next hnext⟩
    cases hready : Text.sorted k.ready with
    | nil =>
      rw [hready] at hname
      cases hname
    | cons first rest =>
      have hfirst := (hmem first).1 (hready ▸ List.mem_cons_self)
      have hle : first ≤ name := by
        have hpairs := Text.pairwise_sorted k.ready
        rw [hready] at hpairs hname
        rcases List.mem_cons.1 hname with rfl | hrest
        · exact le_refl _
        · exact (List.pairwise_cons.1 hpairs).1 name hrest
      exact congrArg some (le_antisymm (next_le hsorted hnext hfirst.1 hfirst.2) hle)

/-- To take a name and release its users keeps the counts right. -/
theorem Tracks.release (htracks : Tracks uses left k) (hready : Text.sorted k.ready = name :: rest)
    {users : List String} (husers : users.Nodup) (hmem : ∀ user ∈ left, user ∈ users ↔ uses user name) :
    Tracks uses (left.erase name) (users.foldl Kahn.release { k with ready := rest }) := by
  have hperm : (name :: rest).Perm k.ready := hready ▸ Text.perm_sorted k.ready
  obtain ⟨hfresh, hrest⟩ := List.nodup_cons.1 (hperm.nodup_iff.2 htracks.apart.1)
  have hname : name ∈ k.ready := hperm.subset List.mem_cons_self
  have hleft : name ∈ left := ((htracks.mem_ready name).1 hname).1
  have hnone : k.waiting.get? name = none := htracks.apart.2 name hname
  have hapart : Apart { k with ready := rest } :=
    ⟨hrest, fun other hother => htracks.apart.2 other (hperm.subset (List.mem_cons_of_mem _ hother))⟩
  have hcount : ∀ other, (left.erase name).countP (uses other) =
      left.countP (uses other) - if uses other name then 1 else 0 := fun other => by simp [List.countP_erase, hleft]
  have hpositive : ∀ other, uses other name → 0 < left.countP (uses other) :=
    fun other huses => List.countP_pos_iff.2 ⟨name, hleft, huses⟩
  refine ⟨htracks.nodup.erase name, hapart.foldl_release, ?_, ?_⟩
  · intro other
    rw [mem_ready_foldl_release husers]
    by_cases hsame : other = name
    · subst hsame
      simp [hfresh, hnone, htracks.nodup.not_mem_erase]
    · have hothers : other ∈ rest ↔ other ∈ k.ready := by simp [← hperm.mem_iff, hsame]
      simp only [List.mem_erase_of_ne hsame, hcount, hothers, htracks.mem_ready, htracks.get?_waiting]
      have huser := hmem other
      have hpos := hpositive other
      -- Only the count of a user changes, and by one: it gets ready if it waited for this name alone.
      grind
  · intro other
    rw [get?_foldl_release husers]
    by_cases hsame : other = name
    · subst hsame
      simp [hnone, htracks.nodup.not_mem_erase]
    · simp only [List.mem_erase_of_ne hsame, hcount, htracks.get?_waiting]
      have huser := hmem other
      have hpos := hpositive other
      grind

/-- As long as the counts are right, what is run is what is taken. -/
theorem Tracks.run_eq_take {users : String → List String} {nodes : List String}
    (hnodup : ∀ name, (users name).Nodup) (hmem : ∀ name ∈ nodes, ∀ user ∈ nodes, user ∈ users name ↔ uses user name)
    {fuel : ℕ} (hnodes : left ⊆ nodes) (hsorted : left.Pairwise (· ≤ ·)) (htracks : Tracks uses left k) :
    run users fuel k = take uses fuel left := by
  induction fuel generalizing left k with
  | zero => rw [run, take, htracks.isEmpty_eq]
  | succ fuel ih =>
    have hhead := htracks.next_eq_head hsorted
    rw [run]
    cases hready : Text.sorted k.ready with
    | nil =>
      have hnone : k.ready = [] := (hready ▸ Text.perm_sorted k.ready).symm.eq_nil
      rw [hready] at hhead
      rw [take_of_stuck hhead, ← htracks.isEmpty_eq, hnone, List.isEmpty_nil, Bool.and_true]
    | cons name rest =>
      rw [hready] at hhead
      have hleft := mem_of_next hhead
      rw [take_of_next hhead]
      have hrelease := htracks.release hready (hnodup name) fun user huser => hmem name (hnodes hleft) user (hnodes huser)
      have hrest := ih (fun other hother => hnodes (List.mem_of_mem_erase hother)) (hsorted.sublist List.erase_sublist) hrelease
      exact congrArg (Option.map (name :: ·)) hrest

end Tracks

/-! ### The graph of schemas -/

section Graph

variable {schemas : List Schema} {name user used : String}

theorem mem_edges_iff :
    (used, user) ∈ edges schemas ↔ used ∈ names schemas ∧ user ∈ names schemas ∧ uses schemas user used := by
  simp [edges]

theorem nodup_edges (schemas : List Schema) : (edges schemas).Nodup := by
  refine List.nodup_flatMap.2 ⟨fun used _ => ?_, (nodup_names schemas).imp ?_⟩
  · exact ((nodup_names schemas).filter _).map fun user other heq => congrArg Prod.snd heq
  · intro used other hne e hused hother
    obtain ⟨user, -, rfl⟩ := List.mem_map.1 hused
    obtain ⟨user', -, heq⟩ := List.mem_map.1 hother
    exact hne (congrArg Prod.fst heq).symm

theorem mem_usersIn_iff :
    user ∈ usersIn (edges schemas) name ↔ name ∈ names schemas ∧ user ∈ names schemas ∧ uses schemas user name := by
  simp [usersIn, mem_edges_iff]

theorem nodup_usersIn (schemas : List Schema) (name : String) : (usersIn (edges schemas) name).Nodup := by
  refine List.Nodup.map_on ?_ ((nodup_edges schemas).filter _)
  intro e he e' he' hsame
  have hfrom : e.1 = name := of_decide_eq_true (List.mem_filter.1 he).2
  have hfrom' : e'.1 = name := of_decide_eq_true (List.mem_filter.1 he').2
  exact Prod.ext (hfrom.trans hfrom'.symm) hsame

/-- As many edges lead to a name as there are names that it uses. -/
theorem degreeIn_edges (hname : name ∈ names schemas) :
    degreeIn (edges schemas) name = (names schemas).countP (uses schemas name) := by
  have hto : ∀ e ∈ (edges schemas).filter (·.2 = name), e.2 = name := fun e he => of_decide_eq_true (List.mem_filter.1 he).2
  have hnodup : (((edges schemas).filter (·.2 = name)).map Prod.fst).Nodup :=
    ((nodup_edges schemas).filter _).map_on fun e he e' he' hsame => Prod.ext hsame ((hto e he).trans (hto e' he').symm)
  have hperm : (((edges schemas).filter (·.2 = name)).map Prod.fst).Perm ((names schemas).filter (uses schemas name)) := by
    rw [List.perm_ext_iff_of_nodup hnodup ((nodup_names schemas).filter _)]
    intro used
    simp [mem_edges_iff, hname]
  rw [degreeIn, List.countP_eq_length_filter, ← hperm.length_eq, List.length_map]

theorem tracks_start (schemas : List Schema) :
    Tracks (uses schemas) (names schemas) (start (edges schemas) (names schemas)) := by
  have hready : ∀ name, name ∈ (start (edges schemas) (names schemas)).ready ↔
      name ∈ names schemas ∧ (names schemas).countP (uses schemas name) = 0 := by
    intro name
    rw [start, List.mem_filter, decide_eq_true_eq]
    exact and_congr_right fun hname => by rw [degreeIn_edges hname]
  have hwaiting : ∀ name, (start (edges schemas) (names schemas)).waiting.get? name =
      if name ∈ names schemas ∧ (names schemas).countP (uses schemas name) ≠ 0 then
        some ((names schemas).countP (uses schemas name)) else none := by
    intro name
    rw [start, Dict.get?_ofList_map]
    by_cases hname : name ∈ names schemas
    · simp [hname, degreeIn_edges hname]
    · simp [hname]
  refine ⟨nodup_names schemas, ⟨(nodup_names schemas).filter _, fun name hname => ?_⟩, hready, hwaiting⟩
  rw [hwaiting, if_neg fun hboth => hboth.2 ((hready name).1 hname).2]

/-- Kahn's algorithm finds the order that taking the least free name finds, and it fails in the same cases. -/
theorem sort_eq_topological? (schemas : List Schema) : sort (edges schemas) (names schemas) = topological? schemas := by
  have hmem : ∀ name ∈ names schemas, ∀ user ∈ names schemas,
      user ∈ usersIn (edges schemas) name ↔ uses schemas user name := by
    intro name hname user huser
    rw [mem_usersIn_iff]
    exact ⟨fun hedge => hedge.2.2, fun huses => ⟨hname, huser, huses⟩⟩
  exact (tracks_start schemas).run_eq_take (nodup_usersIn schemas) hmem (List.Subset.refl _) (Text.pairwise_sorted _)

theorem sort_eq_none_iff : sort (edges schemas) (names schemas) = none ↔ ¬Acyclic (Uses schemas) := by
  rw [sort_eq_topological?, topological?_eq_none_iff]

theorem orderedNames_eq_sort (schemas : List Schema) :
    orderedNames schemas = (sort (edges schemas) (names schemas)).getD (names schemas) := by
  rw [sort_eq_topological?, orderedNames]

end Graph

end Kahn

end TagTypes.Dependency
