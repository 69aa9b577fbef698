import Mathlib.Tactic
import TagTypes.Proofs.Except
import TagTypes.Proofs.Yaml.Token.Entries
import TagTypes.Yaml.Node.Reader

/-!
# The nodes of written entries

The tokens of entries are read into a table of nodes in which a map stands before its members, a key before its value, and an entry before the later ones.
-/

namespace TagTypes.Yaml

open Document (Reader)

namespace Entry

mutual

/-- The number of nodes of an entry. -/
def count : Entry → Nat
  | .text _ | .int _ | .bool _ => 1
  | .group entries => countOf entries + 1

def countOf : List (String × Entry) → Nat
  | [] => 0
  | (_, e) :: rest => 1 + e.count + countOf rest

end

/-- The places of keys and values, where the first key is at `start`. -/
def members (start : NodeId) : List (String × Entry) → List (NodeId × NodeId)
  | [] => []
  | (_, e) :: rest => (start, start + 1) :: members (start + 1 + e.count) rest

mutual

/-- The nodes of an entry, where the first is at `start`. -/
def nodes (start : NodeId) : Entry → List Node
  | .text s => [⟨.str, .scalar s⟩]
  | .int n => [⟨.int, .scalar (Text.intText n)⟩]
  | .bool b => [⟨.bool, .scalar (if b then "true" else "false")⟩]
  | .group entries => ⟨.map, .map (members (start + 1) entries)⟩ :: nodesOf (start + 1) entries

def nodesOf (start : NodeId) : List (String × Entry) → List Node
  | [] => []
  | (name, e) :: rest => ⟨.str, .scalar name⟩ :: e.nodes (start + 1) ++ nodesOf (start + 1 + e.count) rest

end

mutual

theorem length_nodes (start : NodeId) (e : Entry) : (e.nodes start).length = e.count := by
  match e with
  | .text _ | .int _ | .bool _ => rfl
  | .group entries => rw [nodes, count, List.length_cons, length_nodesOf]

theorem length_nodesOf (start : NodeId) (entries : List (String × Entry)) : (nodesOf start entries).length = countOf entries := by
  match entries with
  | [] => rfl
  | (name, e) :: rest =>
    rw [nodesOf, countOf, List.length_append, List.length_cons, length_nodes, length_nodesOf]
    omega

end

end Entry

namespace Document

variable {r : Reader} {t u : Token} {later : List Token}

/-! ### Single steps -/

theorem run_peek (htokens : r.tokens = t :: later) : peek.run r = .ok (t, r) := by
  obtain ⟨tokens, fault, nodes, anchors, handles⟩ := r
  cases htokens
  rfl

theorem run_pass (htokens : r.tokens = t :: later) : pass.run r = .ok ((), { r with tokens := later }) := by
  obtain ⟨tokens, fault, nodes, anchors, handles⟩ := r
  cases htokens
  rfl

theorem run_passIf (htokens : r.tokens = t :: later) : (passIf t).run r = .ok (true, { r with tokens := later }) := by
  rw [passIf, run_bind_of_ok (run_peek htokens), if_pos rfl, run_bind_of_ok (run_pass htokens)]
  rfl

theorem run_passIf_ne (htokens : r.tokens = t :: later) (hne : t ≠ u) : (passIf u).run r = .ok (false, r) := by
  rw [passIf, run_bind_of_ok (run_peek htokens), if_neg hne]
  rfl

theorem run_nextIs (htokens : r.tokens = t :: later) (ts : List Token) : (nextIs ts).run r = .ok (ts.contains t, r) := by
  rw [nextIs, run_bind_of_ok (run_peek htokens)]
  rfl

/-- A token with which no anchor and no tag is given, and that stands for no other node. -/
def IsPlainToken : Token → Prop
  | .alias _ | .anchor _ | .tag _ _ => False
  | _ => True

theorem run_properties (htokens : r.tokens = t :: later) (ht : IsPlainToken t) : properties.run r = .ok ({}, r) := by
  have hanchor : anchor?.run r = .ok (none, r) := by
    rw [anchor?, run_bind_of_ok (run_peek htokens)]
    cases t <;> first | rfl | exact ht.elim
  have htag : tag?.run r = .ok (none, r) := by
    rw [tag?, run_bind_of_ok (run_peek htokens)]
    cases t <;> first | rfl | exact ht.elim
  rw [properties, run_bind_of_ok hanchor]
  dsimp only
  rw [run_bind_of_ok htag]
  rfl

theorem run_addAnchored (node : Node) : (addAnchored {} node).run r = .ok (r.nodes.size, { r with nodes := r.nodes.push node }) := by
  rfl

theorem node_scalar {fuel depth : Nat} (hdepth : depth ≤ maxDepth) (form : Form) {text : String} {isPlain : Bool}
    (htokens : r.tokens = .scalar text isPlain :: later) : (node (fuel + 1) depth form).run r =
      .ok (r.nodes.size, { r with tokens := later, nodes := r.nodes.push ⟨({} : Properties).scalarTag text isPlain, .scalar text⟩ }) := by
  rw [node, run_bind_of_ok (run_peek htokens)]
  dsimp only
  rw [if_neg (not_lt.2 hdepth), run_bind_of_ok (run_properties htokens trivial), run_bind_of_ok (run_peek htokens)]
  dsimp only
  rw [run_bind_of_ok (run_pass htokens)]
  rfl

/-- A map in block form is read by its entries, for which there is a place in front of them. -/
theorem node_mappingStart {fuel depth : Nat} (hdepth : depth ≤ maxDepth) {form : Form} (hform : form ≠ .flow)
    (htokens : r.tokens = .mappingStart :: later) {entries : List (NodeId × NodeId)} {r' : Reader}
    (hentries : (blockEntries fuel depth).run { r with tokens := later, nodes := r.nodes.push ⟨.map, .map []⟩ } = .ok (entries, r')) :
    (node (fuel + 1) depth form).run r =
      .ok (r.nodes.size, { r' with nodes := r'.nodes.modify r.nodes.size fun node => { node with content := .map entries } }) := by
  rw [node, run_bind_of_ok (run_peek htokens)]
  dsimp only
  rw [if_neg (not_lt.2 hdepth), run_bind_of_ok (run_properties htokens trivial), run_bind_of_ok (run_peek htokens)]
  dsimp only
  rw [if_neg (by simp), if_pos (by simpa using hform), run_bind_of_ok (run_pass htokens), mapNode,
    run_bind_of_ok (run_addAnchored _)]
  exact (run_bind_of_ok hentries).trans rfl

theorem nodeUnless_eq {fuel depth : Nat} (form : Form) {ts : List Token} (htokens : r.tokens = t :: later) (ht : t ∉ ts) :
    (nodeUnless (fuel + 1) depth form ts).run r = (node fuel (depth + 1) form).run r := by
  rw [nodeUnless, run_bind_of_ok (run_nextIs htokens ts), if_neg]
  simpa using ht

/-- An entry of a map in block form is read: its name, its value, and what comes after. -/
theorem blockEntries_cons {fuel depth : Nat} {name : String} (hname : IsName name) (hdepth : depth + 1 ≤ maxDepth)
    (htokens : r.tokens = .key :: .scalar name true :: .value :: t :: later) (ht : t ∉ [.key, .value, .blockEnd])
    {value : NodeId} {entries : List (NodeId × NodeId)} {r' r'' : Reader}
    (hvalue : (node (fuel + 1) (depth + 1) .entry).run
      { r with tokens := t :: later, nodes := r.nodes.push ⟨.str, .scalar name⟩ } = .ok (value, r'))
    (hrest : (blockEntries (fuel + 2) depth).run r' = .ok (entries, r'')) :
    (blockEntries (fuel + 3) depth).run r = .ok ((r.nodes.size, value) :: entries, r'') := by
  have htag : ({} : Properties).scalarTag name true = .str := hname.isText
  have hkey : (nodeUnless (fuel + 2) depth .entry [.key, .value, .blockEnd]).run
      { r with tokens := .scalar name true :: .value :: t :: later } =
        .ok (r.nodes.size, { r with tokens := .value :: t :: later, nodes := r.nodes.push ⟨.str, .scalar name⟩ }) := by
    rw [nodeUnless_eq .entry rfl (by simp), node_scalar hdepth .entry rfl, htag]
  have hvalue' : (nodeUnless (fuel + 2) depth .entry [.key, .value, .blockEnd]).run
      { r with tokens := t :: later, nodes := r.nodes.push ⟨.str, .scalar name⟩ } = .ok (value, r') := by
    rw [nodeUnless_eq .entry rfl ht, hvalue]
  rw [blockEntries]
  dsimp only
  rw [run_bind_of_ok (run_passIf htokens), if_pos rfl, run_bind_of_ok hkey, run_bind_of_ok (run_passIf rfl), if_pos rfl]
  refine (run_bind_of_ok hvalue').trans ?_
  rw [run_bind_of_ok hrest]
  rfl

/-! ### Entries -/

theorem tokens_eq_cons (e : Entry) :
    ∃ t later, e.tokens = t :: later ∧ (t = .mappingStart ∨ ∃ text isPlain, t = .scalar text isPlain) := by
  match e with
  | .text s => exact ⟨_, _, by rw [Entry.tokens], .inr ⟨_, _, rfl⟩⟩
  | .int n => exact ⟨_, _, by rw [Entry.tokens], .inr ⟨_, _, rfl⟩⟩
  | .bool b => exact ⟨_, _, by rw [Entry.tokens], .inr ⟨_, _, rfl⟩⟩
  | .group entries => exact ⟨_, _, by rw [Entry.tokens]; rfl, .inl rfl⟩

theorem scalarTag_text (s : String) : ({} : Properties).scalarTag s (Writer.style s = .plain) = .str := by
  by_cases hstyle : Writer.style s = .plain
  · rw [decide_eq_true hstyle]
    exact (Writer.isPlain_of_style hstyle).2
  · rw [decide_eq_false hstyle]
    rfl

theorem scalarTag_bool (b : Bool) : ({} : Properties).scalarTag (if b then "true" else "false") true = .bool := by
  cases b <;> decide +kernel

theorem modify_push_append {ns : Nodes} {n : Node} (later : List Node) (f : Node → Node) :
    (ns.push n ++ later.toArray).modify ns.size f = ns ++ (f n :: later).toArray := by
  have hlist : ∀ before : List Node, (before ++ n :: later).modify before.length f = before ++ f n :: later := by
    intro before
    induction before with
    | nil => rfl
    | cons m before ih => rw [List.cons_append, List.length_cons, List.modify_succ_cons, ih, List.cons_append]
  apply Array.toList_inj.1
  simpa using hlist ns.toList

mutual

theorem node_entry {depth : Nat} (e : Entry) (he : e.WellFormed depth) (fuel : Nat) (r : Reader) (later : List Token)
    (hdepth : depth ≤ Entry.deepest + 1) (hfuel : e.tokens.length ≤ fuel) (htokens : r.tokens = e.tokens ++ later) :
    (node fuel (depth + 1) .entry).run r =
      .ok (r.nodes.size, { r with tokens := later, nodes := r.nodes ++ (e.nodes r.nodes.size).toArray }) := by
  have hallowed : depth + 1 ≤ maxDepth := by
    have hdeepest : Entry.deepest = 38 := rfl
    have hmax : maxDepth = 485 := rfl
    omega
  match e, he with
  | .text s, _ =>
    rw [Entry.tokens] at hfuel htokens
    obtain ⟨fuel, rfl⟩ := Nat.exists_eq_add_one.2 (Nat.lt_of_lt_of_le Nat.zero_lt_one hfuel)
    rw [node_scalar hallowed _ htokens, scalarTag_text, Entry.nodes]
    simp
  | .int n, _ =>
    rw [Entry.tokens] at hfuel htokens
    obtain ⟨fuel, rfl⟩ := Nat.exists_eq_add_one.2 (Nat.lt_of_lt_of_le Nat.zero_lt_one hfuel)
    have htag : ({} : Properties).scalarTag (Text.intText n) true = .int := ofPlain_intText n
    rw [node_scalar hallowed _ htokens, htag, Entry.nodes]
    simp
  | .bool b, _ =>
    rw [Entry.tokens] at hfuel htokens
    obtain ⟨fuel, rfl⟩ := Nat.exists_eq_add_one.2 (Nat.lt_of_lt_of_le Nat.zero_lt_one hfuel)
    rw [node_scalar hallowed _ htokens, scalarTag_bool, Entry.nodes]
    simp
  | .group entries, he =>
    obtain ⟨hshallow, -, -, hentries⟩ := he
    rw [Entry.tokens] at hfuel htokens
    obtain ⟨fuel, rfl⟩ := Nat.exists_eq_add_one.2 (Nat.lt_of_lt_of_le (Nat.succ_pos _) hfuel)
    have htokens : r.tokens = .mappingStart :: (Entry.tokensOf entries ++ .blockEnd :: later) := by simpa using htokens
    have hfuel : (Entry.tokensOf entries).length + 1 ≤ fuel := by
      simp only [List.cons_append, List.length_cons, List.length_append, List.length_nil] at hfuel
      omega
    have hread := blockEntries_entries entries hentries fuel
      { r with tokens := Entry.tokensOf entries ++ .blockEnd :: later, nodes := r.nodes.push ⟨.map, .map []⟩ } later (by omega) hfuel rfl
    rw [node_mappingStart hallowed (by decide) htokens hread, Entry.nodes]
    simp only [modify_push_append, Array.size_push]

theorem blockEntries_entries {depth : Nat} (entries : List (String × Entry)) (hentries : Entry.AllWellFormed depth entries)
    (fuel : Nat) (r : Reader) (later : List Token) (hdepth : depth ≤ Entry.deepest + 1)
    (hfuel : (Entry.tokensOf entries).length + 1 ≤ fuel) (htokens : r.tokens = Entry.tokensOf entries ++ .blockEnd :: later) :
    (blockEntries fuel depth).run r = .ok (Entry.members r.nodes.size entries,
      { r with tokens := later, nodes := r.nodes ++ (Entry.nodesOf r.nodes.size entries).toArray }) := by
  obtain ⟨fuel, rfl⟩ := Nat.exists_eq_add_one.2 (Nat.lt_of_lt_of_le (Nat.succ_pos _) hfuel)
  match entries, hentries with
  | [], _ =>
    rw [Entry.tokensOf, List.nil_append] at htokens
    rw [blockEntries]
    dsimp only
    rw [run_bind_of_ok (run_passIf_ne htokens (by decide)), if_neg (by decide), run_bind_of_ok (run_passIf htokens)]
    rw [if_pos rfl, StateT.run_pure]
    simp [Entry.members, Entry.nodesOf, pure, Except.pure]
  | (name, e) :: more, ⟨hname, he, hmore⟩ =>
    rw [Entry.tokensOf] at hfuel htokens
    simp only [List.cons_append, List.nil_append, List.append_assoc, List.length_cons, List.length_append] at hfuel htokens
    obtain ⟨fuel, rfl⟩ : ∃ f, fuel = f + 2 := ⟨fuel - 2, by omega⟩
    obtain ⟨t, remaining, hcons, ht⟩ := tokens_eq_cons e
    have hdeepest : Entry.deepest = 38 := rfl
    have hmax : maxDepth = 485 := rfl
    have hvalue := node_entry e he (fuel + 1)
      { r with tokens := e.tokens ++ (Entry.tokensOf more ++ .blockEnd :: later), nodes := r.nodes.push ⟨.str, .scalar name⟩ }
      (Entry.tokensOf more ++ .blockEnd :: later) hdepth (by omega) rfl
    have hrest := blockEntries_entries more hmore (fuel + 2)
      { r with tokens := Entry.tokensOf more ++ .blockEnd :: later,
               nodes := r.nodes.push ⟨.str, .scalar name⟩ ++ (e.nodes (r.nodes.size + 1)).toArray } later hdepth (by omega) rfl
    rw [Array.size_push] at hvalue
    rw [hcons, List.cons_append] at hvalue htokens
    have hread := blockEntries_cons hname (by omega) htokens (by rcases ht with rfl | ⟨_, _, rfl⟩ <;> simp) hvalue hrest
    rw [hread, Entry.members, Entry.nodesOf]
    simp [Entry.length_nodes, Nat.add_assoc, Nat.add_comm 1]

end

/-! ### The document -/

theorem run_ending (fuel : Nat) (htokens : r.tokens = [.streamEnd]) : (ending (fuel + 1)).run r = .ok ((), { r with tokens := [] }) := by
  rw [ending, run_bind_of_ok (run_passIf_ne htokens (by decide)), if_neg (by decide), run_bind_of_ok (run_passIf htokens)]
  rfl

/-- The document of a text of entries is the group of them. -/
theorem read_of_tokens {text : String} {entries : List (String × Entry)} (hentries : Entry.AllWellFormed 0 entries)
    (htext : Tokens.read text = ⟨.mappingStart :: Entry.tokensOf entries ++ [.blockEnd, .streamEnd], none⟩) :
    read text = .ok { nodes := ((Entry.group entries).nodes 0).toArray, root := some 0 } := by
  have hdocument : ∀ (fuel : Nat) (r : Reader), (Entry.tokensOf entries).length + 1 ≤ fuel →
      r.tokens = .mappingStart :: (Entry.tokensOf entries ++ [.blockEnd, .streamEnd]) → r.nodes = #[] →
      (document (fuel + 1)).run r = .ok (some 0,
        { r with tokens := [], handles := standardHandles, nodes := ((Entry.group entries).nodes 0).toArray }) := by
    intro fuel r hfuel htokens hnodes
    have hread := blockEntries_entries entries hentries fuel
      { r with tokens := Entry.tokensOf entries ++ [.blockEnd, .streamEnd], handles := standardHandles,
               nodes := r.nodes.push ⟨.map, .map []⟩ } [.streamEnd] (Nat.zero_le _) hfuel rfl
    have hhandles : (modify fun r => { r with handles := standardHandles } : Reading Unit).run r =
        .ok ((), { r with handles := standardHandles }) := rfl
    have hnode := node_mappingStart (r := { r with handles := standardHandles }) (Nat.zero_le maxDepth)
      (show Form.block ≠ .flow by decide) htokens hread
    rw [document, run_bind_of_ok (run_peek htokens), if_neg (by decide)]
    dsimp only
    rw [run_bind_of_ok hhandles, run_bind_of_ok hnode, run_bind_of_ok (run_ending _ rfl)]
    simp only [hnodes]
    rw [StateT.run_pure]
    simp [Entry.nodes, pure, Except.pure]
  rw [read, htext]
  refine (congrArg (Except.bind · _) (hdocument _ _ ?_ ?_ rfl)).trans rfl
  · simp
    omega
  · simp

end Document

end TagTypes.Yaml
