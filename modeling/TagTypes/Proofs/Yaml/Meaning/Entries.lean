import Mathlib.Tactic
import TagTypes.Proofs.Yaml.Meaning.Filling
import TagTypes.Proofs.Yaml.Node.Entries

/-!
# The value of written entries

The nodes of entries make a plain document in which every member stands after the map that it belongs to. Its value is the one that was written.
-/

namespace TagTypes.Yaml

open Meaning (Means IsNamed keyed)
open Writer (Inline)

/-! ### Nodes in their places -/

/-- The nodes stand in the table from a place on. -/
def Stands (nodes : Nodes) : NodeId → List Node → Prop
  | _, [] => True
  | id, node :: rest => nodes[id]? = some node ∧ Stands nodes (id + 1) rest

variable {nodes : Nodes} {id start : Nat}

theorem stands_append {first second : List Node} :
    Stands nodes id (first ++ second) ↔ Stands nodes id first ∧ Stands nodes (id + first.length) second := by
  induction first generalizing id with
  | nil => simp [Stands]
  | cons node first ih => simp [Stands, ih, and_assoc, Nat.add_assoc, Nat.add_comm 1]

theorem stands_toArray (before all : List Node) : Stands (before ++ all).toArray before.length all := by
  induction all generalizing before with
  | nil => trivial
  | cons node rest ih =>
    have hrest := ih (before ++ [node])
    rw [List.append_assoc, List.singleton_append, List.length_append, List.length_singleton] at hrest
    exact ⟨by simp, hrest⟩

theorem Stands.le_size {all : List Node} (hstands : Stands nodes id all) (hne : all ≠ []) : id + all.length ≤ nodes.size := by
  induction all generalizing id with
  | nil => exact absurd rfl hne
  | cons node rest ih =>
    obtain ⟨hnode, hrest⟩ := hstands
    have hid := (Array.getElem?_eq_some_iff.1 hnode).1
    rw [List.length_cons]
    by_cases hrestne : rest = []
    · rw [hrestne]
      exact hid
    · have hle := ih hrest hrestne
      omega

/-! ### Meanings -/

namespace Entry

/-- The names of entries with the places of their values, where the first key is at `start`. -/
def named (start : NodeId) : List (String × Entry) → List (String × NodeId)
  | [] => []
  | (name, e) :: rest => (name, start + 1) :: named (start + 1 + e.count) rest

/-- The meaning of an entry at a place. -/
def meaning (id : NodeId) : Entry → Meaning
  | .group entries => .map (keyed (named (id + 1) entries))
  | e => .scalar e.value

theorem map_fst_named (start : Nat) (entries : List (String × Entry)) :
    (named start entries).map Prod.fst = entries.map Prod.fst := by
  induction entries generalizing start with
  | nil => rfl
  | cons first rest ih => rw [named, List.map_cons, List.map_cons, ih]

theorem lt_of_mem_named {entries : List (String × Entry)} {n : String × NodeId} (hn : n ∈ named start entries) :
    start < n.2 := by
  induction entries generalizing start with
  | nil => cases hn
  | cons first rest ih =>
    rw [named, List.mem_cons] at hn
    rcases hn with rfl | hn
    · exact Nat.lt_succ_self _
    · have hlt := ih hn
      omega

theorem one_le_count (e : Entry) : 1 ≤ e.count := by
  cases e <;> simp [count]

theorem stands_nodesOf_cons {name : String} {e : Entry} {rest : List (String × Entry)} :
    Stands nodes start (nodesOf start ((name, e) :: rest)) ↔
      nodes[start]? = some ⟨.str, .scalar name⟩ ∧ Stands nodes (start + 1) (e.nodes (start + 1)) ∧
        Stands nodes (start + 1 + e.count) (nodesOf (start + 1 + e.count) rest) := by
  rw [nodesOf, List.cons_append, Stands, stands_append, length_nodes]

theorem hasTooLongAmong_values_cons {name : String} {e : Entry} {rest : List (String × Entry)} :
    Value.hasTooLongAmong (values ((name, e) :: rest)) = false ↔
      e.value.hasTooLong = false ∧ Value.hasTooLongAmong (values rest) = false := by
  rw [values, Value.hasTooLongAmong, Bool.or_eq_false_iff, Bool.or_eq_false_iff, and_assoc]
  exact and_iff_right rfl

/-- The keys of entries are names, and the values stand after them. -/
theorem forall₂_isNamed {entries : List (String × Entry)} (hstands : Stands nodes start (nodesOf start entries)) :
    List.Forall₂ (IsNamed nodes) (members start entries) (named start entries) := by
  induction entries generalizing start with
  | nil => exact .nil
  | cons first rest ih =>
    obtain ⟨name, e⟩ := first
    obtain ⟨hkey, hvalue, hrest⟩ := stands_nodesOf_cons.1 hstands
    have hcount := e.one_le_count
    have hne : e.nodes (start + 1) ≠ [] := by
      rw [← List.length_pos_iff, length_nodes]
      exact hcount
    have hend := hvalue.le_size hne
    rw [length_nodes] at hend
    exact .cons ⟨hkey, rfl, show start + 1 < nodes.size by omega⟩ (ih hrest)

theorem length_natDigits_le {n : Int} (hn : Value.isTooLong n = false) : (Text.natDigits n.natAbs).length ≤ Text.maxDigits := by
  have hmax : 0 < Text.maxDigits := by decide
  unfold Value.isTooLong at hn
  -- the bound itself is a number of 4301 digits
  generalize Text.maxDigits = k at hn hmax ⊢
  exact Nat.toDigits_length 10 _ k hmax (not_le.1 (of_decide_eq_false hn))

theorem ofScalar?_int {n : Int} (hn : Value.isTooLong n = false) :
    Meaning.ofScalar? .int (Text.intText n) = some (.ok (.int n)) := by
  rw [Meaning.ofScalar?, whole_intText (length_natDigits_le hn)]
  rfl

theorem ofScalar?_bool (b : Bool) : Meaning.ofScalar? .bool (if b then "true" else "false") = some (.ok (.bool b)) := by
  have htruth : Meaning.truthOf? (Text.lower (if b then "true" else "false")) = some b := by cases b <;> decide +kernel
  rw [Meaning.ofScalar?, Meaning.ofBool]
  simp only [htruth]

/-- An entry means what was written. -/
theorem means_meaning {depth : Nat} (e : Entry) (he : e.WellFormed depth) (htexts : e.value.hasTooLong = false)
    (hstands : Stands nodes id (e.nodes id)) : Means nodes id (e.meaning id) := by
  cases e with
  | text s => exact .scalar hstands.1 rfl
  | int n =>
    rw [value, Value.hasTooLong] at htexts
    exact .scalar hstands.1 (ofScalar?_int htexts)
  | bool b => exact .scalar hstands.1 (ofScalar?_bool b)
  | group entries =>
    have hnodup : ((named (id + 1) entries).map Prod.fst).Nodup := by
      rw [map_fst_named]
      exact he.2.2.1
    exact .map hstands.1 (forall₂_isNamed hstands.2) hnodup

theorem lt_of_mem_members_meaning {e : Entry} {other : Nat} (hother : other ∈ (e.meaning id).members) : id < other := by
  cases e with
  | text _ | int _ | bool _ => cases hother
  | group entries =>
    simp only [meaning, Meaning.members, keyed, List.map_map, List.mem_map] at hother
    obtain ⟨n, hn, rfl⟩ := hother
    exact Nat.lt_of_succ_lt (lt_of_mem_named hn)

/-- The node means something, and its members stand after it. -/
def Descends (nodes : Nodes) (id : Nat) : Prop := ∃ m, Means nodes id m ∧ ∀ other ∈ m.members, id < other

mutual

theorem descends_nodes {depth start : Nat} (e : Entry) (he : e.WellFormed depth) (htexts : e.value.hasTooLong = false)
    (hstands : Stands nodes start (e.nodes start)) (hid : start ≤ id ∧ id < start + e.count) : Descends nodes id := by
  by_cases hfirst : id = start
  · subst hfirst
    exact ⟨_, means_meaning e he htexts hstands, fun other => lt_of_mem_members_meaning⟩
  · cases e with
    | text _ | int _ | bool _ =>
      rw [count] at hid
      omega
    | group entries =>
      rw [count] at hid
      rw [value, Value.hasTooLong] at htexts
      exact descends_nodesOf entries he.2.2.2 htexts hstands.2 (by omega)

theorem descends_nodesOf {depth start : Nat} (entries : List (String × Entry)) (hentries : AllWellFormed depth entries)
    (htexts : Value.hasTooLongAmong (values entries) = false) (hstands : Stands nodes start (nodesOf start entries))
    (hid : start ≤ id ∧ id < start + countOf entries) : Descends nodes id := by
  match entries, hentries with
  | [], _ =>
    rw [countOf] at hid
    omega
  | (name, e) :: rest, ⟨hname, he, hrest⟩ =>
    rw [countOf] at hid
    obtain ⟨hkey, hvalue, hlater⟩ := stands_nodesOf_cons.1 hstands
    obtain ⟨htext, htexts⟩ := hasTooLongAmong_values_cons.1 htexts
    by_cases hfirst : id = start
    · exact ⟨.scalar (.str name), .scalar (hfirst ▸ hkey) rfl, fun other hother => by cases hother⟩
    · by_cases hlt : id < start + 1 + e.count
      · exact descends_nodes e he htext hvalue (by omega)
      · exact descends_nodesOf rest hrest htexts hlater (by omega)

end

end Entry

/-! ### The value of a document -/

namespace Meaning

variable {meanings : Array (Option Meaning)}

section Descending

variable (hsettled : IsSettled nodes meanings) (hdescends : ∀ id < nodes.size, Entry.Descends nodes id)

include hsettled hdescends

theorem lt_of_mem_membersOf {other : Nat} (hother : other ∈ membersOf meanings id) : id < other := by
  unfold membersOf at hother
  cases hfound : meanings[id]?.join with
  | none => simp [hfound] at hother
  | some m =>
    have hmeans := (hsettled id m hfound).1
    obtain ⟨m', hmeans', hlater⟩ := hdescends id hmeans.lt_size
    rw [hfound] at hother
    exact hlater other (hmeans.unique hmeans' ▸ hother)

theorem reaches_eq_false {goal : Nat} (fuel : Nat) (todo seen : List NodeId) (htodo : ∀ id ∈ todo, goal < id) :
    reaches meanings goal fuel todo seen = false := by
  induction fuel generalizing todo seen with
  | zero => rw [reaches]
  | succ fuel ih =>
    cases todo with
    | nil =>
      rw [reaches]
      exact Nat.succ_ne_zero fuel
    | cons id rest =>
      rw [List.forall_mem_cons] at htodo
      have hmembers : ∀ other ∈ membersOf meanings id ++ rest, goal < other := by
        rw [List.forall_mem_append]
        exact ⟨fun other hother => htodo.1.trans (lt_of_mem_membersOf hsettled hdescends hother), htodo.2⟩
      rw [reaches, ih rest seen htodo.2, ih _ _ hmembers, ite_self, Bool.or_false]
      exact decide_eq_false (ne_of_gt htodo.1)

/-- No collection contains itself if all members stand after it. -/
theorem isCyclic_eq_false (id : Nat) : isCyclic meanings id = false :=
  reaches_eq_false hsettled hdescends _ _ _ fun _ hother => lt_of_mem_membersOf hsettled hdescends hother

end Descending

mutual

theorem value_meaning {depth id : Nat} (hsettled : IsSettled nodes meanings) (e : Entry) {fuel : Nat} {path : List NodeId}
    (he : e.WellFormed depth) (htexts : e.value.hasTooLong = false) (hstands : Stands nodes id (e.nodes id))
    (hfound : (meanings[id]?.join).isSome) (hpath : ∀ other ∈ path, other < id) (hfuel : e.count ≤ fuel) :
    value meanings (fun _ => false) fuel path id = e.value := by
  obtain ⟨m, hm⟩ := Option.isSome_iff_exists.1 hfound
  obtain ⟨hmeans, hmembers⟩ := hsettled id m hm
  have hnew : path.contains id = false := by
    rw [← Bool.not_eq_true, List.contains_iff_mem]
    exact fun hmem => lt_irrefl _ (hpath id hmem)
  obtain ⟨fuel, rfl⟩ := Nat.exists_eq_add_one.2 (e.one_le_count.trans hfuel)
  rw [hmeans.unique (e.means_meaning he htexts hstands)] at hm hmembers
  rw [value, hm]
  dsimp only
  rw [hnew, if_neg (by decide), if_neg (by decide)]
  cases e with
  | text _ | int _ | bool _ => rfl
  | group entries =>
    rw [Entry.value, Value.hasTooLong] at htexts
    rw [Entry.count] at hfuel
    have hinner : ∀ other ∈ id :: path, other < id + 1 :=
      List.forall_mem_cons.2 ⟨Nat.lt_succ_self id, fun other hother => (hpath other hother).trans (Nat.lt_succ_self id)⟩
    have hfound : ∀ n ∈ Entry.named (id + 1) entries, (meanings[n.2]?.join).isSome := fun n hn =>
      hmembers n.2 (List.mem_map_of_mem (List.mem_map_of_mem hn))
    exact congrArg Value.map (values_named hsettled entries he.2.2.2 htexts hstands.2 hfound hinner (Nat.le_of_succ_le_succ hfuel))

theorem values_named {depth start : Nat} (hsettled : IsSettled nodes meanings) (entries : List (String × Entry))
    {fuel : Nat} {path : List NodeId} (hentries : Entry.AllWellFormed depth entries)
    (htexts : Value.hasTooLongAmong (Entry.values entries) = false) (hstands : Stands nodes start (Entry.nodesOf start entries))
    (hfound : ∀ n ∈ Entry.named start entries, (meanings[n.2]?.join).isSome) (hpath : ∀ other ∈ path, other < start)
    (hfuel : Entry.countOf entries ≤ fuel) :
    (keyed (Entry.named start entries)).map (fun (k, id) => (k, value meanings (fun _ => false) fuel path id)) =
      Entry.values entries := by
  match entries, hentries with
  | [], _ => rfl
  | (name, e) :: rest, ⟨hname, he, hrest⟩ =>
    rw [Entry.countOf] at hfuel
    obtain ⟨-, hfirst, hlater⟩ := Entry.stands_nodesOf_cons.1 hstands
    obtain ⟨htext, htexts⟩ := Entry.hasTooLongAmong_values_cons.1 htexts
    rw [Entry.named, List.forall_mem_cons] at hfound
    have hvalue := value_meaning hsettled e he htext hfirst hfound.1
      (fun other hother => (hpath other hother).trans (Nat.lt_succ_self _)) (show e.count ≤ fuel by omega)
    have hvalues := values_named hsettled rest hrest htexts hlater hfound.2
      (fun other hother => (hpath other hother).trans (show start < start + 1 + e.count by omega))
      (show Entry.countOf rest ≤ fuel by omega)
    rw [Entry.named, Entry.values, keyed, List.map_cons, List.map_cons]
    exact congrArg₂ List.cons (congrArg (Value.str name, ·) hvalue) hvalues

end

end Meaning

/-- The value of a document of entries is what was written. -/
theorem Document.value_nodes {depth : Nat} {e : Entry} (he : e.WellFormed depth) (htexts : e.value.hasTooLong = false) :
    Document.value { nodes := (e.nodes 0).toArray, root := some 0 } = .ok e.value := by
  have hstands : Stands (e.nodes 0).toArray 0 (e.nodes 0) := stands_toArray [] (e.nodes 0)
  have hsize : (e.nodes 0).toArray.size = e.count := by rw [List.size_toArray, Entry.length_nodes]
  have hdescends : ∀ id < (e.nodes 0).toArray.size, Entry.Descends (e.nodes 0).toArray id := fun id hid =>
    Entry.descends_nodes e he htexts hstands ⟨Nat.zero_le id, by rwa [Nat.zero_add, ← hsize]⟩
  have hplain : Meaning.IsPlain (e.nodes 0).toArray := fun id hid => (hdescends id hid).imp fun _ => And.left
  obtain ⟨meanings, hall, hsettled, hroot⟩ := Meaning.all_eq_ok hplain (hsize ▸ e.one_le_count : 0 < _)
  have hcyclic : Meaning.isCyclic meanings = fun _ => false := funext (Meaning.isCyclic_eq_false hsettled hdescends)
  have hvalue : Meaning.value meanings (Meaning.isCyclic meanings) ((e.nodes 0).toArray.size + 1) [] 0 = e.value := by
    rw [hcyclic]
    exact Meaning.value_meaning hsettled e he htexts hstands hroot (List.forall_mem_nil _) (by omega)
  rw [Document.value]
  dsimp only
  rw [hall]
  exact congrArg Except.ok hvalue

mutual

theorem Entry.WellFormed.mono {depth deeper : Nat} (hle : depth ≤ deeper) {e : Entry} (he : e.WellFormed deeper) :
    e.WellFormed depth := by
  match e, he with
  | .text _, he => exact hle.trans he
  | .int _, _ | .bool _, _ => trivial
  | .group _, ⟨hshallow, hne, hnodup, hentries⟩ =>
    exact ⟨hle.trans hshallow, hne, hnodup, AllWellFormed.mono (Nat.succ_le_succ hle) hentries⟩

theorem Entry.AllWellFormed.mono {depth deeper : Nat} (hle : depth ≤ deeper) {entries : List (String × Entry)}
    (hentries : Entry.AllWellFormed deeper entries) : Entry.AllWellFormed depth entries := by
  match entries, hentries with
  | [], _ => trivial
  | _ :: _, ⟨hname, he, hrest⟩ => exact ⟨hname, WellFormed.mono hle he, AllWellFormed.mono hle hrest⟩

end

/-- Written entries are read again, below a line with a comment too. -/
theorem read_write {front : List Char} (hfront : Tokens.Reader.IsFront front) {entries : List (String × Entry)}
    (hentries : (Entry.group entries).WellFormed 0) (htexts : (Entry.group entries).value.hasTooLong = false) :
    read (String.ofList front ++ write entries) = .ok (Entry.group entries).value := by
  have htext : String.ofList front ++ write entries = String.ofList (front ++ Writer.writeEntries 0 entries) := by
    rw [write, ← String.ofList_append]
  have hall := hentries.2.2.2.mono (Nat.zero_le 1)
  have hdocument := Document.read_of_tokens hall (Tokens.read_writeEntries hfront hall hentries.2.1)
  rw [read, htext, hdocument]
  exact Document.value_nodes hentries htexts

end TagTypes.Yaml
