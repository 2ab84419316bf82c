import Stochastic.Proofs.Graph.Index
import Stochastic.Proofs.Graph.Unfolding

/-!
# Nodes as trees

Keys compare inputs by their numbers, not by what they are.  But in a graph that is made by
adding nodes this is the same: no two nodes unfold to the same tree.  The reason is that a tree
determines the trees of the inputs, so by induction on its height it determines their numbers,
and with them the key; and under a key there is one node.

Samples, observations and queries are not shared, so each of them is a leaf with its number.

## Main definitions

* `Tree` — trees.
* `Columns.tree?` — the tree that a node unfolds to.

## Main results

* `Graph.eq_of_fold?` — nodes with the same tree are the same.
* `Graph.tree?_eq_some_iff` — the nodes with a tree are those with the key of its root.
* `Graph.shared_of_added` — graphs made by adding nodes share all they can.
-/

namespace Stochastic

/-- What a node is, all the way down. -/
inductive Tree where
  | constant (declared : Option ValueType) (value : Tensor.Key)
  | distribution (family : Family) (inputs : List Tree)
  | operator (op : Operator) (inputs : List Tree)
  | conversion (c : Conversion) (inputs : List Tree)
  /-- Samples, observations and queries are each on their own. -/
  | leaf (n : NodeId)

/-- The tree of node `n` of a kind, from the trees of its inputs. -/
def Tree.ofNode (n : NodeId) (kind : NodeKind) (inputs : List Tree) : Tree :=
  match kind with
  | .constant value declared => .constant declared value.key
  | .distribution f => .distribution f inputs
  | .operator op => .operator op inputs
  | .conversion c => .conversion c inputs
  | .sample => .leaf n
  | .observation _ => .leaf n
  | .query => .leaf n

/-- The tree that a node unfolds to.  Without cycles no path is longer than there are nodes. -/
def Columns.tree? (c : Columns) (n : NodeId) : Option Tree :=
  c.fold? (fun n kind ts => some (Tree.ofNode n kind ts)) c.count n

/-- Trees with the same root: they are leaves with one number, or the roots have the same key if
their inputs do. -/
theorem Tree.key_eq_of_ofNode_eq {a b : NodeId} {kind kind' : NodeKind} {ts us : List Tree}
    {xs ys : List NodeId} (h : ofNode a kind ts = ofNode b kind' us) (hxs : ts = us → xs = ys) :
    a = b ∨ kind.isDeterministic = true ∧ NodeKey.of? kind xs = NodeKey.of? kind' ys := by
  cases kind with
  | constant | distribution | operator | conversion =>
    cases kind' <;> simp_all [ofNode, NodeKey.of?, NodeKind.isDeterministic]
  | sample | observation | query => cases kind' <;> simp_all [ofNode]

/-- A node that is determined by its inputs has the same tree as any other with its key. -/
theorem Tree.ofNode_eq_of_alike {kind kind' : NodeKind} (h : NodeKind.Alike kind kind')
    (hdet : kind'.isDeterministic = true) (a b : NodeId) (ts : List Tree) :
    ofNode a kind ts = ofNode b kind' ts := by
  cases h with
  | refl => cases kind <;> first | rfl | cases hdet
  | constant declared shape data =>
    have hkey := NodeKind.key_of_alike (.constant declared shape data) []
    simpa [NodeKey.of?, ofNode] using hkey

namespace Graph

variable {g : Graph} {kind : NodeKind} {xs : List NodeId} {a b n k : Nat} {t : Tree}
  {ts : List Tree}

/-! ## Nodes with one tree -/

/-- Lists of nodes that unfold to the same trees are equal if this holds of their members. -/
theorem eq_of_forall₂ {R : NodeId → Tree → Prop} {xs ys : List NodeId}
    (hxs : List.Forall₂ R xs ts) (hys : List.Forall₂ R ys ts)
    (h : ∀ x ∈ xs, ∀ y ∈ ys, ∀ t, R x t → R y t → x = y) : xs = ys := by
  induction hxs generalizing ys with
  | nil =>
    cases hys
    rfl
  | cons hx _ ih =>
    cases hys with
    | cons hy hys =>
      obtain rfl := h _ List.mem_cons_self _ List.mem_cons_self _ hx hy
      rw [ih hys fun x hx y hy => h x (List.mem_cons_of_mem _ hx) y (List.mem_cons_of_mem _ hy)]

/-- **Nodes with the same tree are the same**, if all are found.  The induction is on the depth to
which they are unfolded. -/
theorem eq_of_fold? (h : WellFormed g) (hfound : ∀ n < g.count, Found g n)
    (ha : a < g.count) (hb : b < g.count)
    (hta : g.fold? (fun n kind ts => some (Tree.ofNode n kind ts)) k a = some t)
    (htb : g.fold? (fun n kind ts => some (Tree.ofNode n kind ts)) k b = some t) : a = b := by
  induction k generalizing a b t with
  | zero => cases hta
  | succ k ih =>
    obtain ⟨ts, hts, hta⟩ := fold?_succ.1 hta
    obtain ⟨us, hus, htb⟩ := fold?_succ.1 htb
    have hinputs : ts = us → g.inputs a = g.inputs b := by
      rintro rfl
      exact eq_of_forall₂ hts hus fun x hx y hy _ => ih (h.input_lt hx) (h.input_lt hy)
    have hroot := Option.some.inj (hta.trans htb.symm)
    rcases Tree.key_eq_of_ofNode_eq hroot hinputs with heq | ⟨hdet, hkey⟩
    · exact heq
    · obtain ⟨key, hk⟩ := NodeKey.exists_of? hdet (h.arities a ha)
      exact (hfound a ha).eq (hfound b hb) hk hkey.symm

theorem exists_tree? (hg : Added g) (hn : n < g.count) : ∃ t, g.tree? n = some t := by
  obtain ⟨h, -⟩ := wellFormed_typed_of_built hg.built
  have hac := acyclic_of_built hg.built
  obtain ⟨t, ht⟩ : ∃ t, g.fold? (fun n kind ts => some (Tree.ofNode n kind ts))
      ((g.ancestors n).card + 1) n = some t := exists_fold? h hac (fun _ _ _ _ => ⟨_, rfl⟩) hn
  exact ⟨t, fold?_le (card_ancestors_lt_count hac hn) ht⟩

theorem eq_of_tree? (hg : Added g) (ha : a < g.count) (hb : b < g.count)
    (hta : g.tree? a = some t) (htb : g.tree? b = some t) : a = b :=
  eq_of_fold? (wellFormed_typed_of_built hg.built).1 (found_of_added hg) ha hb hta htb

/-- The tree of a node has those of its inputs below the root. -/
theorem tree?_eq (hg : Added g) (hn : n < g.count)
    (hts : List.Forall₂ (fun x t => g.tree? x = some t) (g.inputs n) ts) :
    g.tree? n = some (.ofNode n (g.kindOf n) ts) := by
  obtain ⟨t, ht⟩ := exists_tree? hg hn
  have hdeeper : g.fold? (fun n kind ts => some (Tree.ofNode n kind ts)) (g.count + 1) n =
      some (.ofNode n (g.kindOf n) ts) := fold?_succ.2 ⟨ts, hts, rfl⟩
  rw [ht, fold?_unique ht hdeeper]

/-! ## The node that an addition asks for -/

/-- The nodes with the tree of a node that is asked for are those with its key. -/
theorem tree?_eq_some_iff (hg : Added g) (hdet : kind.isDeterministic = true)
    (hp : Passes g.toColumns kind xs)
    (hts : List.Forall₂ (fun x t => g.tree? x = some t) xs ts) (hn : n < g.count) :
    g.tree? n = some (.ofNode g.count kind ts) ↔ g.keyOf? n = NodeKey.of? kind xs := by
  obtain ⟨h, -⟩ := wellFormed_typed_of_built hg.built
  constructor
  · intro htree
    obtain ⟨us, hus⟩ := exists_forall₂ fun x hx => exists_tree? hg (h.input_lt (n := n) hx)
    rw [tree?_eq hg hn hus] at htree
    have hinputs : us = ts → g.inputs n = xs := by
      rintro rfl
      exact eq_of_forall₂ hus hts fun x hx y hy _ => eq_of_tree? hg (h.input_lt hx) (hp.known y hy)
    rcases Tree.key_eq_of_ofNode_eq (Option.some.inj htree) hinputs with heq | ⟨-, hkey⟩
    · exact absurd heq (Nat.ne_of_lt hn)
    · exact hkey
  · intro hkey
    obtain ⟨key, hk⟩ := NodeKey.exists_of? hdet hp.arity
    obtain ⟨halike, hinputs⟩ := NodeKind.alike_of_key (h.arities n hn) hp.arity (hkey.trans hk) hk
    rw [tree?_eq hg hn (hinputs ▸ hts), Tree.ofNode_eq_of_alike halike hdet n g.count ts]

/-- A node that is appended has the tree that was asked for. -/
theorem tree?_append (hg : Added g) (hp : Passes g.toColumns kind xs)
    (hts : List.Forall₂ (fun x t => g.tree? x = some t) xs ts) :
    (g.append kind xs).tree? g.count = some (.ofNode g.count kind ts) := by
  obtain ⟨h, -⟩ := wellFormed_typed_of_built hg.built
  rw [Columns.tree?, count_append]
  refine fold?_succ.2 ⟨ts, ?_, by rw [kindOf_append, if_pos rfl]⟩
  rw [inputs_append h, if_pos rfl]
  -- the nodes below are those that were there, and they are what they were
  refine ((List.forall₂_and_left _ _).2 ⟨hp.known, hts⟩).imp fun x t hx => ?_
  refine fold?_congr h (fun a ha => ?_) (fun a ha => ?_) hx.1 hx.2
  · rw [kindOf_append, if_neg (Nat.ne_of_lt ha)]
  · rw [inputs_append h, if_neg (Nat.ne_of_lt ha)]

/-- **Graphs made by adding nodes share all they can.**  Every node has a tree, and no two nodes
have the same.  An addition of a node that is determined by its inputs, and that passes the
checks, asks for a tree: if a node has it, the addition finds this node and changes nothing, and
otherwise it adds one node, which has it. -/
theorem shared_of_added (hg : Added g) :
    (∀ n < g.count, ∃ t, g.tree? n = some t) ∧
    (∀ a < g.count, ∀ b < g.count, ∀ t, g.tree? a = some t → g.tree? b = some t → a = b) ∧
    ∀ kind xs, kind.isDeterministic = true → Passes g.toColumns kind xs →
      ∃ ts, List.Forall₂ (fun x t => g.tree? x = some t) xs ts ∧
        ((g.add kind xs).state.count = g.count + 1 ↔
          ∀ n < g.count, g.tree? n ≠ some (.ofNode g.count kind ts)) ∧
        (∀ n < g.count, g.tree? n = some (.ofNode g.count kind ts) →
          g.add kind xs = ⟨g, .ok n, []⟩) ∧
        ((∀ n < g.count, g.tree? n ≠ some (.ofNode g.count kind ts)) →
          (g.add kind xs).result = .ok g.count ∧
            (g.add kind xs).state.tree? g.count = some (.ofNode g.count kind ts)) := by
  refine ⟨fun n hn => exists_tree? hg hn, fun a ha b hb t => eq_of_tree? hg ha hb, ?_⟩
  intro kind xs hdet hp
  obtain ⟨h, -⟩ := wellFormed_typed_of_built hg.built
  obtain ⟨ts, hts⟩ := exists_forall₂ fun x hx => exists_tree? hg (hp.known x hx)
  obtain ⟨k, hk⟩ := NodeKey.exists_of? hdet hp.arity
  have hhas : ∀ n < g.count, (g.tree? n = some (.ofNode g.count kind ts) ↔
      g.index.get? k = some n) := by
    intro n hn
    rw [tree?_eq_some_iff hg hdet hp hts hn, hk, get?_index_iff h (found_of_added hg)]
    exact ⟨fun hkey => ⟨hn, hkey⟩, fun hkey => hkey.2⟩
  refine ⟨ts, hts, ?_⟩
  cases hget : g.index.get? k with
  | some m =>
    have hm : m < g.count := (h.indexed hget).1
    have htree := (hhas m hm).2 hget
    have hadd := add_of_shared?_eq_some hp ((shared?_eq hk).trans hget)
    refine ⟨?_, fun n hn hn' => ?_, fun hnone => absurd htree (hnone m hm)⟩
    · rw [hadd]
      exact ⟨fun hcount => absurd hcount (by simp), fun hnone => absurd htree (hnone m hm)⟩
    · rw [hadd, eq_of_tree? hg hn hm hn' htree]
  | none =>
    have hnone : ∀ n < g.count, g.tree? n ≠ some (.ofNode g.count kind ts) := by
      intro n hn htree
      cases hget.symm.trans ((hhas n hn).1 htree)
    have hadd := add_of_shared?_eq_none hp ((shared?_eq hk).trans hget)
    refine ⟨?_, fun n hn htree => absurd htree (hnone n hn), fun _ => ?_⟩
    · rw [hadd]
      exact ⟨fun _ => hnone, fun _ => count_append⟩
    · rw [hadd]
      exact ⟨rfl, tree?_append hg hp hts⟩

namespace Twofold

/-- The sum of two draws from one distribution.  The two zeros are one constant. -/
def nodes : List (NodeKind × List NodeId) :=
  [(.constant (.scalar 0) none, []), (.constant (.scalar (-0.0)) none, []),
    (.constant (.scalar 1) none, []), (.distribution .normal, [0, 1]), (.sample, [2]),
    (.sample, [2]), (.operator .addition, [3, 4])]

def graph : Graph := nodes.foldl (fun g node => (g.add node.1 node.2).state) .empty

theorem added_graph : Added graph := added_foldl_add nodes .empty

theorem passes_addition {x y : Nat} (hx : x = 3 ∨ x = 4) (hy : y = 3 ∨ y = 4) :
    Passes graph.toColumns (.operator .addition) [x, y] := by
  have hknown : ∀ z ∈ [3, 4], z < graph.count ∧ (graph.kindOf z).isValue = true := by
    decide +kernel
  have hall : ∀ z ∈ [x, y], z ∈ [3, 4] := by
    rcases hx with rfl | rfl <;> rcases hy with rfl | rfl <;> simp
  exact ⟨fun z hz => (hknown z (hall z hz)).1,
    check_eq_ok.2 ⟨rfl, fun z hz => (hknown z (hall z hz)).2, rfl⟩⟩

end Twofold

/-- The two draws are different nodes, so their sum in the other order is a new node; in the same
order it is found. -/
theorem shared_of_added_twofold :
    Added Twofold.graph ∧ Twofold.graph.count = 6 ∧
    Twofold.graph.add (.operator .addition) [3, 4] = ⟨Twofold.graph, .ok 5, []⟩ ∧
    ∃ ts, List.Forall₂ (fun x t => Twofold.graph.tree? x = some t) [4, 3] ts ∧
      ∀ n < 6, Twofold.graph.tree? n ≠ some (.ofNode 6 (.operator .addition) ts) := by
  obtain ⟨-, -, hadd⟩ := shared_of_added Twofold.added_graph
  have hcount : Twofold.graph.count = 6 := by decide +kernel
  refine ⟨Twofold.added_graph, hcount, ?_, ?_⟩
  · have hp := Twofold.passes_addition (.inl rfl) (.inr rfl)
    obtain ⟨ts, hts, -, hfound, -⟩ := hadd _ _ rfl hp
    have hlt : 5 < Twofold.graph.count := by decide +kernel
    exact hfound 5 hlt ((tree?_eq_some_iff Twofold.added_graph rfl hp hts hlt).2 (by decide +kernel))
  · obtain ⟨ts, hts, hgrows, -, -⟩ :=
      hadd _ _ rfl (Twofold.passes_addition (.inr rfl) (.inl rfl))
    rw [hcount] at hgrows
    exact ⟨ts, hts, hgrows.1 (by decide +kernel)⟩

end Graph

end Stochastic
