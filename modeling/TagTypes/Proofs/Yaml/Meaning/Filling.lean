import Mathlib.Data.List.TakeWhile
import Mathlib.Tactic
import TagTypes.Proofs.Except
import TagTypes.Yaml.Meaning

/-!
# Filling a document

In a document without merged maps whose keys are different texts, every node means what its own content says. The collections that were met and are not filled yet are the only exceptions while the meanings are found, and the members of all the others were met.
-/

namespace TagTypes.Yaml.Meaning

variable {nodes : Nodes} {id : NodeId} {m : Meaning} {t : Table}

/-! ### What a node means -/

/-- The name of an entry, and the place of its value. -/
structure IsNamed (nodes : Nodes) (entry : NodeId × NodeId) (named : String × NodeId) : Prop where
  key : nodes[entry.1]? = some ⟨.str, .scalar named.1⟩
  value : entry.2 = named.2
  bound : named.2 < nodes.size

def keyed (named : List (String × NodeId)) : List (Value × NodeId) := named.map fun n => (.str n.1, n.2)

inductive Means (nodes : Nodes) (id : NodeId) : Meaning → Prop
  | scalar {tag : Tag} {text : String} {v : Value} (hnode : nodes[id]? = some ⟨tag, .scalar text⟩)
      (hvalue : ofScalar? tag text = some (.ok v)) : Means nodes id (.scalar v)
  | map {entries : List (NodeId × NodeId)} {named : List (String × NodeId)} (hnode : nodes[id]? = some ⟨.map, .map entries⟩)
      (hentries : List.Forall₂ (IsNamed nodes) entries named) (hnodup : (named.map Prod.fst).Nodup) :
      Means nodes id (.map (keyed named))

/-- Every node means something. -/
def IsPlain (nodes : Nodes) : Prop := ∀ id < nodes.size, ∃ m, Means nodes id m

theorem IsNamed.unique {entry : NodeId × NodeId} {n n' : String × NodeId} (h : IsNamed nodes entry n) (h' : IsNamed nodes entry n') :
    n = n' := by
  have hkey := h.key.symm.trans h'.key
  simp only [Option.some.injEq, Node.mk.injEq, Content.scalar.injEq, true_and] at hkey
  exact Prod.ext hkey (h.value.symm.trans h'.value)

theorem Means.unique {m' : Meaning} (h : Means nodes id m) (h' : Means nodes id m') : m = m' := by
  cases h with
  | scalar hnode hvalue =>
    cases h' with
    | scalar hnode' hvalue' =>
      cases hnode.symm.trans hnode'
      cases hvalue.symm.trans hvalue'
      rfl
    | map hnode' => cases hnode.symm.trans hnode'
  | map hnode hentries =>
    cases h' with
    | scalar hnode' => cases hnode.symm.trans hnode'
    | map hnode' hentries' =>
      cases hnode.symm.trans hnode'
      rw [List.right_unique_forall₂' (fun _ _ _ h h' => h.unique h') hentries hentries']

theorem Means.lt_size (h : Means nodes id m) : id < nodes.size := by
  cases h with
  | scalar hnode => exact (Array.getElem?_eq_some_iff.1 hnode).1
  | map hnode => exact (Array.getElem?_eq_some_iff.1 hnode).1

/-! ### Maps without merged ones -/

theorem modify_eq_self {α : Type} {a : Array α} {i : Nat} {f : α → α} (hf : ∀ x, a[i]? = some x → f x = x) :
    a.modify i f = a := by
  refine Array.ext_getElem? fun j => ?_
  rw [Array.getElem?_modify]
  split
  · rename_i hij
    subst hij
    cases hfound : a[i]? with
    | none => rfl
    | some x => rw [Option.map_some, hf x hfound]
  · rfl

theorem flatten_eq {entries : List (NodeId × NodeId)} {named : List (String × NodeId)} {tag : Tag}
    (hnode : nodes[id]? = some ⟨tag, .map entries⟩) (hentries : List.Forall₂ (IsNamed nodes) entries named) :
    nodes.flatten id = .ok nodes := by
  have hall : nodes.entries id = entries := by rw [Nodes.entries, hnode]
  have hkeys : ∀ entry ∈ entries, ∃ text, nodes[entry.1]? = some ⟨.str, .scalar text⟩ := by
    intro entry hentry
    obtain ⟨i, hi, rfl⟩ := List.getElem_of_mem hentry
    exact ⟨_, (List.Forall₂.get hentries hi (hentries.length_eq ▸ hi)).key⟩
  have hunmerged : entries.takeWhile (!nodes.isMerge ·) = entries := by
    refine List.takeWhile_eq_self_iff.2 fun entry hentry => ?_
    obtain ⟨text, htext⟩ := hkeys entry hentry
    simp [Nodes.isMerge, Nodes.tagOf, htext]
  have hdefaults : nodes.nameDefaults entries = nodes := by
    clear hall hunmerged hnode hentries
    induction entries with
    | nil => rfl
    | cons entry rest ih =>
      obtain ⟨text, htext⟩ := hkeys entry List.mem_cons_self
      have hsame : (nodes.modify entry.1 fun node => if node.tag = .value then { node with tag := .str } else node) = nodes := by
        refine modify_eq_self fun node hnode => if_neg ?_
        cases htext.symm.trans hnode
        exact Tag.noConfusion
      rw [Nodes.nameDefaults, List.foldl_cons, hsame]
      exact ih fun e he => hkeys e (List.mem_cons_of_mem _ he)
  have hset : nodes.setEntries id entries = nodes := by
    refine modify_eq_self fun node hfound => ?_
    cases hnode.symm.trans hfound
    rfl
  rw [Nodes.flatten, Nodes.mergeInto, hall]
  simp only [hunmerged, List.drop_length, List.nil_append, hdefaults, hset]

/-! ### Tables -/

namespace Table

def found (t : Table) (id : NodeId) : Option Meaning := t.meanings[id]?.join

def given (t : Table) (id : NodeId) (m : Meaning) : Table := { t with meanings := t.meanings.modify id fun _ => some m }

/-- The nodes of which no meaning is known. -/
def missing (t : Table) : Finset NodeId := {id ∈ Finset.range t.meanings.size | t.found id = none}

/-- How many steps are left at most. -/
def work (t : Table) : Nat := t.missing.card + t.pending.length

@[simp] theorem size_given : (t.given id m).meanings.size = t.meanings.size := Array.size_modify

theorem found_given (hid : id < t.meanings.size) (other : NodeId) :
    (t.given id m).found other = if id = other then some m else t.found other := by
  rw [found, found, given, Array.getElem?_modify]
  split
  · rename_i heq
    subst heq
    rw [Array.getElem?_eq_getElem hid]
    rfl
  · rfl

theorem isSome_found_given (other : NodeId) (hother : (t.found other).isSome) : ((t.given id m).found other).isSome := by
  by_cases hid : id < t.meanings.size
  · rw [found_given hid]
    split
    · rfl
    · exact hother
  · have hsame : t.given id m = t := by
      rw [given, modify_eq_self fun x hx => absurd (Array.getElem?_eq_some_iff.1 hx).1 hid]
    rwa [hsame]

theorem mem_missing : id ∈ t.missing ↔ id < t.meanings.size ∧ t.found id = none := by
  simp [missing]

theorem missing_given (hid : id < t.meanings.size) : (t.given id m).missing = t.missing.erase id := by
  ext other
  rw [Finset.mem_erase, mem_missing, mem_missing, size_given, found_given hid]
  by_cases heq : id = other
  · simp [heq]
  · simp [heq, Ne.symm heq]

end Table

/-- What is known while the meanings are found: they are right, and the members of a collection were met, except for the collections in `late` and for those put off. -/
structure Fits (nodes : Nodes) (late : List NodeId) (t : Table) : Prop where
  nodes_eq : t.nodes = nodes
  active_eq : t.active = []
  size_eq : t.meanings.size = nodes.size
  isMap_late : ∀ id ∈ late ++ t.pending, ∃ entries, nodes[id]? = some ⟨.map, .map entries⟩
  means : ∀ id m, t.found id = some m → id ∉ late ++ t.pending →
    Means nodes id m ∧ ∀ other ∈ m.members, (t.found other).isSome

/-- What becomes of a table when a node is met. -/
structure Grows (nodes : Nodes) (t t' : Table) : Prop where
  isSome_found : ∀ id, (t.found id).isSome → (t'.found id).isSome
  work_le : t'.work ≤ t.work
  fits : ∀ late, Fits nodes late t → Fits nodes late t'

theorem Grows.refl (t : Table) : Grows nodes t t := ⟨fun _ h => h, le_rfl, fun _ h => h⟩

theorem Grows.trans {t' t'' : Table} (h : Grows nodes t t') (h' : Grows nodes t' t'') : Grows nodes t t'' :=
  ⟨fun id hid => h'.isSome_found id (h.isSome_found id hid), h'.work_le.trans h.work_le,
    fun late hlate => h'.fits late (h.fits late hlate)⟩

theorem work_given_lt (hid : id < t.meanings.size) (hnew : t.found id = none) : (t.given id m).work + 1 ≤ t.work := by
  have hcard := Finset.card_erase_add_one (Table.mem_missing.2 ⟨hid, hnew⟩)
  rw [Table.work, Table.work, Table.missing_given hid]
  change (t.missing.erase id).card + t.pending.length + 1 ≤ _
  omega

/-- A scalar gets its value. -/
theorem grows_scalar {v : Value} (hmeans : Means nodes id (.scalar v)) (hid : id < t.meanings.size) (hnew : t.found id = none) :
    Grows nodes t (t.given id (.scalar v)) := by
  refine ⟨fun other => Table.isSome_found_given other, Nat.le_of_succ_le (work_given_lt hid hnew), fun late hfits => ?_⟩
  refine ⟨hfits.nodes_eq, hfits.active_eq, Table.size_given.trans hfits.size_eq, hfits.isMap_late, fun other m hfound hother => ?_⟩
  rw [Table.found_given hid] at hfound
  split at hfound
  · rename_i heq
    cases hfound
    exact ⟨heq ▸ hmeans, fun other hmem => by cases hmem⟩
  · obtain ⟨hm, hmembers⟩ := hfits.means other m hfound hother
    exact ⟨hm, fun other hmem => Table.isSome_found_given other (hmembers other hmem)⟩

/-- A map is put off. -/
theorem grows_map {entries : List (NodeId × NodeId)} (hnode : nodes[id]? = some ⟨.map, .map entries⟩) (hid : id < t.meanings.size)
    (hnew : t.found id = none) : Grows nodes t { t.given id (.map []) with pending := t.pending ++ [id] } := by
  refine ⟨fun other => Table.isSome_found_given other, ?_, fun late hfits => ?_⟩
  · have hwork := work_given_lt (m := .map []) hid hnew
    simp only [Table.work, List.length_append, List.length_singleton] at hwork ⊢
    exact Nat.add_assoc _ _ 1 ▸ hwork
  · refine ⟨hfits.nodes_eq, hfits.active_eq, Table.size_given.trans hfits.size_eq, fun other hother => ?_,
      fun other m hfound hother => ?_⟩
    · rw [← List.append_assoc, List.mem_append, List.mem_singleton] at hother
      rcases hother with hother | rfl
      · exact hfits.isMap_late other hother
      · exact ⟨entries, hnode⟩
    · rw [← List.append_assoc, List.mem_append, List.mem_singleton, not_or] at hother
      change (t.given id (.map [])).found other = _ at hfound
      rw [Table.found_given hid, if_neg (Ne.symm hother.2)] at hfound
      obtain ⟨hm, hmembers⟩ := hfits.means other m hfound hother.1
      exact ⟨hm, fun other hmem => Table.isSome_found_given other (hmembers other hmem)⟩

/-! ### Meeting a node -/

variable {late : List NodeId}

theorem tagOf_of_node {tag : Tag} {content : Content} (hnode : nodes[id]? = some ⟨tag, content⟩) : nodes.tagOf id = tag := by
  rw [Nodes.tagOf, hnode]
  rfl

theorem run_get : (get : Finding Table).run t = .ok (t, t) := rfl

theorem run_meaning? (id : NodeId) : (meaning? id).run t = .ok (t.found id, t) := rfl

theorem run_findScalar {tag : Tag} {text : String} {v : Value} (hnode : t.nodes[id]? = some ⟨tag, .scalar text⟩)
    (hvalue : ofScalar? tag text = some (.ok v)) : (findScalar id tag).run t = .ok ((), t.given id (.scalar v)) := by
  have htext : textOf t.nodes (t.nodes.size + 1) id = .ok text := by rw [textOf, hnode]
  have hlift : (liftM (Except.ok text : Except Fault String) : Finding String).run t = .ok (text, t) := rfl
  rw [findScalar, run_bind_of_ok run_get]
  simp only [htext, hnode]
  rw [run_bind_of_ok hlift, hvalue]
  rfl

theorem isScalar_of_ofScalar? {tag : Tag} {text : String} {result : Except Fault Value} (hvalue : ofScalar? tag text = some result) :
    isScalar tag = true := by
  cases tag <;> first | rfl | cases hvalue

theorem find_found {m : Meaning} (hfound : t.found id = some m) (now : Bool) (fuel : Nat) :
    (find now (fuel + 1) id).run t = .ok ((), t) := by
  rw [find, run_bind_of_ok (run_meaning? id), hfound]
  rfl

theorem find_new_scalar (hnew : t.found id = none) (hactive : t.active = []) (now : Bool) (fuel : Nat) {tag : Tag}
    (htag : t.nodes.tagOf id = tag) (hscalar : isScalar tag = true) :
    (find now (fuel + 1) id).run t = (findScalar id tag).run t := by
  rw [find, run_bind_of_ok (run_meaning? id), hnew]
  dsimp only
  rw [if_neg (by decide), run_bind_of_ok run_get, hactive, if_neg (by simp), run_bind_of_ok run_get, htag]
  exact congrArg (StateT.run · t) (if_pos hscalar)

theorem find_new_map (hnew : t.found id = none) (hactive : t.active = []) (fuel : Nat) (htag : t.nodes.tagOf id = .map) :
    (find false (fuel + 1) id).run t = .ok ((), { t.given id (.map []) with pending := t.pending ++ [id] }) := by
  rw [find, run_bind_of_ok (run_meaning? id), hnew]
  dsimp only
  rw [if_neg (by decide), run_bind_of_ok run_get, hactive, if_neg (by simp), run_bind_of_ok run_get, htag, if_neg (by decide)]
  rfl

/-- A scalar that was met has its value. -/
theorem find_scalar {v : Value} (hmeans : Means nodes id (.scalar v)) (hfits : Fits nodes late t) (now : Bool) (fuel : Nat) :
    ∃ t', (find now (fuel + 1) id).run t = .ok ((), t') ∧ Grows nodes t t' ∧ t'.found id = some (.scalar v) := by
  obtain ⟨tag, text, hnode, hvalue⟩ : ∃ tag text, nodes[id]? = some ⟨tag, .scalar text⟩ ∧ ofScalar? tag text = some (.ok v) := by
    cases hmeans with
    | scalar hnode hvalue => exact ⟨_, _, hnode, hvalue⟩
  have hid : id < t.meanings.size := hfits.size_eq ▸ hmeans.lt_size
  cases hfound : t.found id with
  | some m =>
    have hsettled : id ∉ late ++ t.pending := by
      intro hlate
      obtain ⟨entries, hmap⟩ := hfits.isMap_late id hlate
      cases hnode.symm.trans hmap
    have hm := (hfits.means id m hfound hsettled).1.unique hmeans
    exact ⟨t, find_found hfound now fuel, .refl t, hm ▸ hfound⟩
  | none =>
    refine ⟨_, ?_, grows_scalar hmeans hid hfound, by rw [Table.found_given hid, if_pos rfl]⟩
    rw [find_new_scalar hfound hfits.active_eq now fuel (tagOf_of_node (hfits.nodes_eq ▸ hnode)) (isScalar_of_ofScalar? hvalue)]
    exact run_findScalar (hfits.nodes_eq ▸ hnode) hvalue

/-- A node that was met has a meaning, which is not the last one if it is a map. -/
theorem find_value (hmeans : Means nodes id m) (hfits : Fits nodes late t) (fuel : Nat) :
    ∃ t', (find false (fuel + 1) id).run t = .ok ((), t') ∧ Grows nodes t t' ∧ (t'.found id).isSome := by
  cases hmeans with
  | scalar hnode hvalue =>
    obtain ⟨t', hrun, hgrows, hfound⟩ := find_scalar (.scalar hnode hvalue) hfits false fuel
    exact ⟨t', hrun, hgrows, by rw [hfound]; rfl⟩
  | map hnode hentries hnodup =>
    have hid : id < t.meanings.size := hfits.size_eq ▸ (Means.lt_size (.map hnode hentries hnodup))
    cases hfound : t.found id with
    | some m => exact ⟨t, find_found hfound false fuel, .refl t, by rw [hfound]; rfl⟩
    | none =>
      refine ⟨_, find_new_map hfound hfits.active_eq fuel (tagOf_of_node (hfits.nodes_eq ▸ hnode)), grows_map hnode hid hfound, ?_⟩
      change ((t.given id (.map [])).found id).isSome
      rw [Table.found_given hid, if_pos rfl]
      rfl

/-! ### The entries of a map -/

theorem placeEntry_keyed {named : List (String × NodeId)} {name : String} (hname : name ∉ named.map Prod.fst) :
    placeEntry (.str name) id (keyed named) = keyed (named ++ [(name, id)]) := by
  induction named with
  | nil => rfl
  | cons first rest ih =>
    rw [List.map_cons, List.mem_cons, not_or] at hname
    have hother : (Value.str first.1).sameKey (.str name) = false := decide_eq_false (Ne.symm hname.1)
    rw [keyed, List.map_cons, placeEntry, if_neg (by rw [hother]; decide)]
    exact congrArg ((Value.str first.1, first.2) :: ·) (ih hname.2)

/-- If every step adds an entry, then all entries are added. -/
theorem run_foldlM_keyed {step : List (Value × NodeId) → NodeId × NodeId → Finding (List (Value × NodeId))}
    (hstep : ∀ entry n placed t, IsNamed nodes entry n → n.1 ∉ placed.map Prod.fst → Fits nodes late t →
      ∃ t', (step (keyed placed) entry).run t = .ok (keyed (placed ++ [n]), t') ∧ Grows nodes t t' ∧ (t'.found n.2).isSome)
    {entries : List (NodeId × NodeId)} {named : List (String × NodeId)} (hentries : List.Forall₂ (IsNamed nodes) entries named)
    {placed : List (String × NodeId)} (hnodup : ((placed ++ named).map Prod.fst).Nodup) (hfits : Fits nodes late t) :
    ∃ t', (entries.foldlM step (keyed placed)).run t = .ok (keyed (placed ++ named), t') ∧ Grows nodes t t' ∧
      ∀ n ∈ named, (t'.found n.2).isSome := by
  induction hentries generalizing placed t with
  | nil => exact ⟨t, by rw [List.append_nil]; rfl, .refl t, fun n hn => by cases hn⟩
  | @cons entry n entries named hentry hrest ih =>
    have hfresh : n.1 ∉ placed.map Prod.fst := by
      rw [List.map_append, List.map_cons, List.nodup_append] at hnodup
      exact fun hmem => hnodup.2.2 _ hmem _ List.mem_cons_self rfl
    have hassoc : placed ++ n :: named = placed ++ [n] ++ named := by simp
    obtain ⟨between, hfirst, hgrows, hn⟩ := hstep entry n placed t hentry hfresh hfits
    obtain ⟨t', hlater, hgrows', hnamed⟩ := ih (hassoc ▸ hnodup) (hgrows.fits late hfits)
    refine ⟨t', ?_, hgrows.trans hgrows', List.forall_mem_cons.2 ⟨hgrows'.isSome_found _ hn, hnamed⟩⟩
    rw [List.foldlM_cons, run_bind_of_ok hfirst, hlater, hassoc]

theorem run_entries {entries : List (NodeId × NodeId)} {named : List (String × NodeId)} (hplain : IsPlain nodes)
    (hnode : nodes[id]? = some ⟨.map, .map entries⟩) (hentries : List.Forall₂ (IsNamed nodes) entries named)
    (hnodup : (named.map Prod.fst).Nodup) (hfits : Fits nodes late t) (fuel : Nat) :
    ∃ t', (Meaning.entries false (fuel + 2) id).run t = .ok (keyed named, t') ∧ Grows nodes t t' ∧
      ∀ n ∈ named, (t'.found n.2).isSome := by
  have hnode' : t.nodes[id]? = some ⟨.map, .map entries⟩ := hfits.nodes_eq ▸ hnode
  have hflatten : t.nodes.flatten id = .ok t.nodes := by
    rw [hfits.nodes_eq]
    exact flatten_eq hnode hentries
  have hlift : (liftM (Except.ok t.nodes : Except Fault Nodes) : Finding Nodes).run t = .ok (t.nodes, t) := rfl
  have hset : (modify fun t' => { t' with nodes := t.nodes } : Finding Unit).run t = .ok ((), t) := rfl
  have hall : t.nodes.entries id = entries := by rw [Nodes.entries, hnode']
  rw [Meaning.entries, run_bind_of_ok run_get]
  simp only [hnode']
  rw [run_bind_of_ok run_get, hflatten, run_bind_of_ok hlift, run_bind_of_ok hset, hall]
  refine run_foldlM_keyed ?_ hentries (List.nil_append named ▸ hnodup) hfits
  intro entry n placed t hentry hfresh hfits
  obtain ⟨between, hkey, hgrows, hname⟩ := find_scalar (.scalar hentry.key rfl) hfits true fuel
  obtain ⟨m, hm⟩ := hplain n.2 hentry.bound
  obtain ⟨t', hvalue, hgrows', hn⟩ := find_value hm (hgrows.fits late hfits) fuel
  refine ⟨t', ?_, hgrows.trans hgrows', hn⟩
  rw [run_bind_of_ok hkey, run_bind_of_ok (run_meaning? _), hname]
  dsimp only
  rw [hentry.value, run_bind_of_ok hvalue, placeEntry_keyed hfresh]
  rfl

theorem run_contents {entries : List (NodeId × NodeId)} {named : List (String × NodeId)} (hplain : IsPlain nodes)
    (hnode : nodes[id]? = some ⟨.map, .map entries⟩) (hentries : List.Forall₂ (IsNamed nodes) entries named)
    (hnodup : (named.map Prod.fst).Nodup) (hfits : Fits nodes late t) (fuel : Nat) :
    ∃ t', (contents false (fuel + 3) id .map).run t = .ok (.map (keyed named), t') ∧ Grows nodes t t' ∧
      ∀ n ∈ named, (t'.found n.2).isSome := by
  obtain ⟨t', hrun, hgrows, hnamed⟩ := run_entries hplain hnode hentries hnodup hfits fuel
  refine ⟨t', ?_, hgrows, hnamed⟩
  rw [contents]
  exact (run_bind_of_ok hrun).trans rfl

/-! ### All maps -/

theorem fits_filled {named : List (String × NodeId)} (hmeans : Means nodes id (.map (keyed named))) (hfits : Fits nodes [id] t)
    (hnamed : ∀ n ∈ named, (t.found n.2).isSome) : Fits nodes [] (t.given id (.map (keyed named))) := by
  have hid : id < t.meanings.size := hfits.size_eq ▸ hmeans.lt_size
  refine ⟨hfits.nodes_eq, hfits.active_eq, Table.size_given.trans hfits.size_eq,
    fun other hother => hfits.isMap_late other (List.mem_cons_of_mem _ hother), fun other m hfound hother => ?_⟩
  rw [Table.found_given hid] at hfound
  split at hfound
  · rename_i heq
    cases hfound
    refine ⟨heq ▸ hmeans, fun other hmem => Table.isSome_found_given other ?_⟩
    simp only [members, keyed, List.map_map, List.mem_map] at hmem
    obtain ⟨n, hn, rfl⟩ := hmem
    exact hnamed n hn
  · rename_i hne
    have hother : other ∉ [id] ++ t.pending := by
      rw [List.singleton_append, List.mem_cons, not_or]
      exact ⟨Ne.symm hne, hother⟩
    obtain ⟨hm, hmembers⟩ := hfits.means other m hfound hother
    exact ⟨hm, fun other hmem => Table.isSome_found_given other (hmembers other hmem)⟩

/-- A step fills a map and leaves less to do. -/
theorem fillPending_cons {rest : List NodeId} (hplain : IsPlain nodes) (hfits : Fits nodes [] t) (hpending : t.pending = id :: rest)
    (fuel : Nat) : ∃ t', (fillPending (fuel + 1)).run t = (fillPending fuel).run t' ∧ Fits nodes [] t' ∧ t'.work < t.work ∧
      ∀ other, (t.found other).isSome → (t'.found other).isSome := by
  obtain ⟨entries, hnode⟩ := hfits.isMap_late id (by simp [hpending])
  obtain ⟨m, hm⟩ := hplain id (Array.getElem?_eq_some_iff.1 hnode).1
  cases hm with
  | scalar hnode' => cases hnode.symm.trans hnode'
  | @map entries named hnode hentries hnodup =>
    have htaken : Fits nodes [id] { t with pending := rest } := by
      refine ⟨hfits.nodes_eq, hfits.active_eq, hfits.size_eq, ?_, ?_⟩
      · simpa [hpending] using hfits.isMap_late
      · rw [List.singleton_append, ← hpending]
        exact hfits.means
    obtain ⟨between, hcontents, hgrows, hnamed⟩ := run_contents hplain hnode hentries hnodup htaken (3 * nodes.size)
    have hbetween := hgrows.fits [id] htaken
    have hid : id < between.meanings.size := hbetween.size_eq ▸ (Array.getElem?_eq_some_iff.1 hnode).1
    refine ⟨between.given id (.map (keyed named)), ?_, fits_filled (.map hnode hentries hnodup) hbetween hnamed, ?_,
      fun other hother => Table.isSome_found_given other (hgrows.isSome_found other hother)⟩
    · have htake : (modify fun t => { t with pending := rest } : Finding Unit).run t = .ok ((), { t with pending := rest }) := rfl
      rw [fillPending, run_bind_of_ok run_get, hpending]
      dsimp only
      rw [run_bind_of_ok htake, run_bind_of_ok run_get]
      dsimp only
      rw [hfits.nodes_eq, tagOf_of_node hnode]
      rw [hfits.nodes_eq] at hcontents
      exact (run_bind_of_ok hcontents).trans rfl
    · have hwork : (between.given id (.map (keyed named))).work ≤ between.work := by
        rw [Table.work, Table.work, Table.missing_given hid]
        exact Nat.add_le_add_right (Finset.card_erase_le) _
      have hless : Table.work { t with pending := rest } < t.work := by
        rw [Table.work, Table.work, hpending, List.length_cons]
        exact Nat.lt_succ_self _
      exact (hwork.trans hgrows.work_le).trans_lt hless

theorem run_fillPending (hplain : IsPlain nodes) (fuel : Nat) (hfits : Fits nodes [] t) (hfuel : t.work < fuel) :
    ∃ t', (fillPending fuel).run t = .ok ((), t') ∧ Fits nodes [] t' ∧ t'.pending = [] ∧
      ∀ id, (t.found id).isSome → (t'.found id).isSome := by
  induction fuel generalizing t with
  | zero => exact absurd hfuel (Nat.not_lt_zero _)
  | succ fuel ih =>
    cases hpending : t.pending with
    | nil =>
      refine ⟨t, ?_, hfits, hpending, fun id hid => hid⟩
      rw [fillPending, run_bind_of_ok run_get, hpending]
      rfl
    | cons id rest =>
      obtain ⟨between, hstep, hbetween, hless, hkept⟩ := fillPending_cons hplain hfits hpending fuel
      obtain ⟨t', hrun, hfits', hdone, hkept'⟩ := ih hbetween (by omega)
      exact ⟨t', hstep.trans hrun, hfits', hdone, fun id hid => hkept' id (hkept id hid)⟩

/-- All that is known is right, and it is known of all members. -/
def IsSettled (nodes : Nodes) (meanings : Array (Option Meaning)) : Prop :=
  ∀ (id : NodeId) (m : Meaning), meanings[id]?.join = some m →
    Means nodes id m ∧ ∀ other ∈ m.members, (meanings[other]?.join).isSome

theorem all_eq_ok (hplain : IsPlain nodes) (hid : id < nodes.size) :
    ∃ meanings, all nodes id = .ok meanings ∧ IsSettled nodes meanings ∧ (meanings[id]?.join).isSome := by
  let start : Table := { nodes, meanings := Array.replicate nodes.size none }
  have hnone : ∀ other, start.found other = none := by
    intro other
    rw [Table.found, Array.getElem?_replicate]
    split <;> rfl
  have hstart : Fits nodes [] start :=
    ⟨rfl, rfl, Array.size_replicate, fun other hother => (by cases hother), fun other m hm => by rw [hnone] at hm; cases hm⟩
  have hwork : start.work ≤ nodes.size := by
    have hcard : start.missing.card ≤ start.meanings.size := (Finset.card_filter_le _ _).trans_eq (Finset.card_range _)
    exact (Nat.add_zero _).trans_le (hcard.trans_eq hstart.size_eq)
  obtain ⟨m, hm⟩ := hplain id hid
  obtain ⟨between, hfind, hgrows, hfound⟩ := find_value hm hstart (3 * nodes.size + 2)
  obtain ⟨t', hrun, hfits, hdone, hkept⟩ := run_fillPending hplain (nodes.size + 1) (hgrows.fits [] hstart)
    (Nat.lt_succ_of_le (hgrows.work_le.trans hwork))
  refine ⟨t'.meanings, ?_, fun other m hm => hfits.means other m hm (by simp [hdone]), hkept id hfound⟩
  have hall : (do
        find false (fuelFor nodes) id
        fillPending (nodes.size + 1) : Finding Unit).run start = .ok ((), t') := (run_bind_of_ok hfind).trans hrun
  rw [all]
  exact (congrArg (· >>= fun found => pure found.2.meanings) hall).trans rfl

end TagTypes.Yaml.Meaning
