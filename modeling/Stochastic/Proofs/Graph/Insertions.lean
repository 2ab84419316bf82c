import Mathlib.Data.List.Dedup
import Stochastic.Proofs.Graph.Redirection
import Stochastic.Proofs.Graph.Repetition

/-!
# What a pass adds

What a pass has to add can be read off the graph it begins with.  Each input that does not meet
what is asked of it wants one node in its place, many inputs may want the same node, and some of
these nodes may be there already.  A pass that succeeds adds those that are missing, each once,
and its report counts them.

Nodes are shared through the index while other nodes are listed anew under other keys.  Nodes
that can stand in for others are never listed anew, since their inputs are not replaced, and so
each of them is found again.

## Main definitions

* `Columns.unmet` — the demands that are not met.
* `Columns.missing` — what is wanted for them and is not there.
* `Graph.Supplied` — nodes have been added for some of what is missing.
* `Graph.newNodes` — the nodes from a number on.
* `Graph.Tallies` — a report has gone up by the numbers of nodes that were added.

## Main results

* `Graph.supplied_adjusts`, `Graph.supplied_solve` — one adjustment, and the whole pass.
* `Graph.perm_missing` — once all demands are met, all that was missing is there.
* `Graph.tallies_meetSlot`, `Graph.report_solve` — the report, after one input and a whole pass.
* `Graph.solve_adds_missing` — what a pass adds and reports.
-/

namespace Stochastic

/-- Whether a node of this kind is a conversion. -/
def NodeKind.isConversion : NodeKind → Bool
  | .conversion _ => true
  | _ => false

namespace Insertion

def isConversion : Insertion → Bool
  | .conversion _ _ => true
  | .constant _ _ => false

def isConstant : Insertion → Bool
  | .conversion _ _ => false
  | .constant _ _ => true

theorem length_eq (ws : List Insertion) :
    ws.length = ws.countP isConversion + ws.countP isConstant := by
  rw [List.length_eq_countP_add_countP isConversion]
  congr 1
  refine List.countP_congr fun w _ => ?_
  cases w <;> simp [isConversion, isConstant]

end Insertion

namespace Columns

/-- The demands that are not met. -/
def unmet (c : Columns) : List Graph.Demand :=
  (c.demands (List.range c.count)).filter fun d =>
    !d.required.satisfied (c.carried d.input) (c.typeOf d.input)

/-- What is wanted for the demands that are not met and is not there, each once. -/
def missing (c : Columns) : List Insertion :=
  (c.unmet.map fun d => c.wanted d.input d.required.target).dedup.filter fun w =>
    decide (∀ n < c.count, c.insertion? n ≠ some w)

end Columns

namespace Graph

variable {base g g' g₁ : Graph} {p p' p₁ : Pass} {kind : NodeKind} {xs : List NodeId}
variable {n m x slot : Nat} {t : ValueType} {required : Requirement} {w : Insertion}

theorem mem_unmet (h : WellFormed g) {d : Demand} : d ∈ g.unmet ↔
    (g.inputs d.consumer)[d.slot]? = some d.input ∧
      (g.requirements d.consumer)[d.slot]? = some d.required ∧
      ¬ d.required.satisfied (g.carried d.input) (g.typeOf d.input) = true := by
  simp only [Columns.unmet, Columns.demands, List.mem_filter, List.mem_flatMap, List.mem_range,
    mem_demandsOf, Bool.not_eq_eq_eq_not, Bool.not_true, Bool.not_eq_true]
  constructor
  · rintro ⟨⟨n, -, rfl, hx, hrequired⟩, hunmet⟩
    exact ⟨hx, hrequired, hunmet⟩
  · rintro ⟨hx, hrequired, hunmet⟩
    exact ⟨⟨_, h.lt_of_mem_inputs (List.mem_of_getElem? hx), rfl, hx, hrequired⟩, hunmet⟩

theorem mem_missing : w ∈ g.missing ↔
    (∃ d ∈ g.unmet, g.wanted d.input d.required.target = w) ∧
      ∀ n < g.count, g.insertion? n ≠ some w := by
  simp [Columns.missing]

theorem nodup_missing (g : Graph) : g.missing.Nodup := (List.nodup_dedup _).filter _

/-! ## One adjustment -/

/-- A graph in the middle of a pass over another one.  The nodes that were there stand in for
what they did, each of the others is one that was missing, and all that can stand in for others
are found. -/
structure Supplied (base g : Graph) : Prop where
  redirected : Redirected base g
  kept : ∀ n < base.count, g.insertion? n = base.insertion? n
  added : ∀ n < g.count, base.count ≤ n → ∃ w ∈ base.missing, g.insertion? n = some w
  found : ∀ n < g.count, ∀ w, g.insertion? n = some w → Found g n

/-- Two nodes that are found and can stand in for the same are one. -/
theorem eq_of_insertion? (hn : g.insertion? n = some w) (hm : g.insertion? m = some w)
    (hfn : Found g n) (hfm : Found g m) : n = m := by
  rw [Columns.insertion?_eq] at hn hm
  obtain ⟨k, hk, hw⟩ := Option.bind_eq_some_iff.1 hn
  obtain ⟨k', hk', hw'⟩ := Option.bind_eq_some_iff.1 hm
  obtain rfl := Insertion.ofKey?_inj hw hw'
  exact hfn.eq hfm hk (hk'.trans hk.symm)

/-- No node is added to stand in for another if one that can is found. -/
theorem StandsIn.eq_of_found (hs : StandsIn g x t g₁ m) (hn : g.insertion? n = some (g.wanted x t))
    (hfound : Found g n) : g₁ = g := by
  obtain ⟨kind, xs, k, hi, hk, hwanted⟩ := hs.exists_key
  rw [Columns.insertion?_eq] at hn
  obtain ⟨k', hk', hw⟩ := Option.bind_eq_some_iff.1 hn
  obtain rfl := Insertion.ofKey?_inj hwanted hw
  have hshared : g.shared? kind xs = some n := (shared?_eq hk).trans (hfound k hk')
  unfold insert at hi
  rw [hshared] at hi
  split at hi
  · cases hi
  split at hi
  · cases hi
  · cases hi
    rfl

theorem supplied_adjusts (hb : WellFormed base) (hsup : Supplied base g) (ha : Adjusts g g') :
    Supplied base g' := by
  have hu := hsup.redirected.underway
  obtain ⟨g₁, n, slot, x, t, m, hc⟩ := hsup.redirected.exists_corrects hb ha
  refine ⟨redirected_adjusts hb hsup.redirected ha, fun a hlt => ?_, fun a hlt hge => ?_,
    fun a hlt w hw => ?_⟩
  · rw [hc.kept a (Nat.lt_of_lt_of_le hlt hu.count_le), hsup.kept a hlt]
  · rw [hc.replaced.count] at hlt
    by_cases hold : a < g.count
    · rw [hc.kept a hold]
      exact hsup.added a hold hge
    -- the node is new, so what is wanted was not found
    obtain rfl := hc.standsIn.eq_of_count_le hlt (Nat.not_lt.1 hold)
    refine ⟨base.wanted x t, mem_missing.2 ⟨⟨⟨n, slot, x, .exact t⟩, ?_, rfl⟩, ?_⟩, hc.insertion⟩
    · exact (mem_unmet hb).2 ⟨hc.input, hc.required, hc.unmet⟩
    · intro k hk hthere
      rw [← hsup.kept k hk, ← hc.wanted] at hthere
      have hfound := hsup.found k (Nat.lt_of_lt_of_le hk hu.count_le) _ hthere
      rw [hc.standsIn.eq_of_found hthere hfound] at hlt
      exact hold hlt
  · rw [hc.replaced.count] at hlt
    -- the node whose input is replaced asks for a type, and is another one
    have han : a ≠ n := by
      rintro rfl
      rw [hc.kept a (Nat.lt_of_lt_of_le hc.lt hu.count_le), hsup.kept a hc.lt,
        Columns.insertion?_eq_none hc.required] at hw
      cases hw
    obtain ⟨kind, xs, hi⟩ := hc.standsIn.exists_insert
    refine found_rewire hc.replaced.first.wellFormed hc.rewired han
      (found_insert hu.wellFormed hi (fun hold => ?_) hlt)
    exact hsup.found a hold w ((hc.kept a hold).symm.trans hw)

/-! ## A whole pass -/

theorem Supplied.refl (hg : Added g) : Supplied g g := by
  obtain ⟨h, ht⟩ := wellFormed_typed_of_built hg.built
  exact ⟨.refl h ht, fun _ _ => rfl, fun _ hn hge => absurd hn (Nat.not_lt.2 hge),
    fun n hn _ _ => found_of_added hg n hn⟩

theorem supplied_solve (hg : Added g) : Supplied g (solve g).state := by
  obtain ⟨h, ht⟩ := wellFormed_typed_of_built hg.built
  exact (solve_keeps h ht (.refl hg) fun _ _ hsup ha => supplied_adjusts h hsup ha).2.2

/-- The nodes of a graph from a number on. -/
def newNodes (base : Nat) (g : Graph) : List NodeId := List.range' base (g.count - base)

theorem mem_newNodes (hle : base.count ≤ g.count) :
    n ∈ newNodes base.count g ↔ base.count ≤ n ∧ n < g.count := by
  rw [newNodes, List.mem_range'_1]
  omega

/-- **Once all demands are met, all that was missing is there**, and nothing else has been
added. -/
theorem perm_missing (hb : WellFormed base) (hsup : Supplied base g) (hsat : Satisfied g) :
    ((newNodes base.count g).map g.insertion?).Perm (base.missing.map some) := by
  have hu := hsup.redirected.underway
  have hnew := fun {n} => mem_newNodes (n := n) hu.count_le
  refine (List.perm_ext_iff_of_nodup ?_
    ((nodup_missing base).map (Option.some_injective _))).2 fun o => ?_
  · -- two new nodes that stand in for the same would be found under one key
    refine List.Nodup.map_on (fun a ha b hb heq => ?_) List.nodup_range'
    obtain ⟨hge, hlt⟩ := hnew.1 ha
    obtain ⟨w, -, hw⟩ := hsup.added a hlt hge
    have hw' := heq.symm.trans hw
    exact eq_of_insertion? hw hw' (hsup.found a hlt w hw) (hsup.found b (hnew.1 hb).2 w hw')
  · simp only [List.mem_map]
    constructor
    · rintro ⟨n, hn, rfl⟩
      obtain ⟨hge, hlt⟩ := hnew.1 hn
      obtain ⟨w, hmem, hw⟩ := hsup.added n hlt hge
      exact ⟨w, hmem, hw.symm⟩
    · rintro ⟨w, hmem, rfl⟩
      obtain ⟨⟨d, hd, rfl⟩, hnot⟩ := mem_missing.1 hmem
      obtain ⟨hx, hrequired, hunmet⟩ := (mem_unmet hb).1 hd
      -- the demand is met by now, so the node that was wanted has taken the place of the input
      have hn := Nat.lt_of_lt_of_le (hb.lt_of_mem_inputs (List.mem_of_getElem? hx)) hu.count_le
      obtain ⟨m, hr⟩ := hsup.redirected.redirects hb hx hrequired hunmet (hsat _ hn _)
      refine ⟨m, hnew.2 ⟨?_, hu.wellFormed.input_lt (List.mem_of_getElem? hr.input)⟩, hr.insertion⟩
      by_contra hlt
      have hlt := Nat.not_le.1 hlt
      exact hnot m hlt ((hsup.kept m hlt).symm.trans hr.insertion)

/-! ## The report -/

/-- The report has gone up by the numbers of conversions and constants that were added. -/
structure Tallies (p p' : Pass) : Prop where
  conversions : p'.report.conversions + p.graph.kinds.countP NodeKind.isConversion =
    p.report.conversions + p'.graph.kinds.countP NodeKind.isConversion
  constants : p'.report.constants + p.graph.kinds.countP NodeKind.isConstant =
    p.report.constants + p'.graph.kinds.countP NodeKind.isConstant

namespace Tallies

theorem refl (p : Pass) : Tallies p p := ⟨rfl, rfl⟩

theorem trans (h : Tallies p p₁) (h' : Tallies p₁ p') : Tallies p p' := by
  obtain ⟨h₁, h₂⟩ := h
  obtain ⟨h₁', h₂'⟩ := h'
  exact ⟨by omega, by omega⟩

end Tallies

theorem kinds_insert (hi : g.insert kind xs = .ok (g', n)) :
    g'.kinds = g.kinds ∨ g'.kinds = g.kinds ++ [kind] := by
  obtain ⟨-, -, ⟨-, rfl⟩ | ⟨-, rfl⟩⟩ := insert_eq_ok hi
  · exact .inl rfl
  · exact .inr rfl

theorem report_add (h : Solver.add kind xs p = .ok n p') : p'.report = p.report := by
  unfold Solver.add at h
  dsimp only at h
  split at h <;> cases h
  rfl

/-- A report that goes up by one if a node is added tallies. -/
theorem tallies_of_add (hadd : Solver.add kind xs p = .ok n p₁) (hgraph : p'.graph = p₁.graph)
    (hconversions : p'.report.conversions = p₁.report.conversions +
      if p.graph.count < p₁.graph.count then [kind].countP NodeKind.isConversion else 0)
    (hconstants : p'.report.constants = p₁.report.constants +
      if p.graph.count < p₁.graph.count then [kind].countP NodeKind.isConstant else 0) :
    Tallies p p' := by
  rw [report_add hadd] at hconversions hconstants
  rcases kinds_insert (add_eq_ok hadd) with hkinds | hkinds
  · rw [if_neg (by simp [Columns.count, hkinds])] at hconversions hconstants
    exact ⟨by rw [hgraph, hkinds, hconversions]; rfl, by rw [hgraph, hkinds, hconstants]; rfl⟩
  · rw [if_pos (by simp [Columns.count, hkinds])] at hconversions hconstants
    constructor
    · rw [hgraph, hkinds, List.countP_append, hconversions]
      omega
    · rw [hgraph, hkinds, List.countP_append, hconstants]
      omega

theorem tallies_materialize {value : Tensor Float} (h : materialize value t p = .ok n p') :
    Tallies p p' := by
  unfold materialize at h
  simp only [Step.bind_eq_ok, Step.get_eq_ok, Step.modify_eq_ok, Step.pure_eq_ok] at h
  obtain ⟨_, _, ⟨rfl, rfl⟩, n', p₁, hadd, _, _, rfl, rfl, rfl⟩ := h
  refine tallies_of_add hadd ?_ ?_ ?_ <;> split <;> rfl

theorem tallies_convert {c : Conversion} (h : convert c x slot m p = .ok n p') : Tallies p p' := by
  unfold convert at h
  simp only [Step.bind_eq_ok, Step.get_eq_ok, Step.modify_eq_ok, Step.pure_eq_ok] at h
  obtain ⟨_, _, ⟨rfl, rfl⟩, n', p₁, hadd, _, _, rfl, rfl, rfl⟩ := h
  refine tallies_of_add hadd ?_ ?_ ?_ <;> split <;> rfl

theorem tallies_standIn (h : standIn n slot x t p = .ok m p') : Tallies p p' := by
  unfold standIn at h
  rw [Step.get_bind] at h
  cases hk : p.graph.kindOf x with
  | constant value declared =>
    rw [hk] at h
    exact tallies_materialize h
  | _ =>
    rw [hk] at h
    cases hc : Conversion.reaching? t with
    | none =>
      rw [hc] at h
      exact absurd h Step.throw_ne_ok
    | some c =>
      rw [hc] at h
      exact tallies_convert h

theorem tallies_meet {o : Option NodeId} (h : meet n slot x required p = .ok o p') :
    Tallies p p' := by
  unfold meet at h
  rw [Step.get_bind] at h
  split at h
  · cases h
    exact .refl p
  split at h
  · exact absurd h Step.throw_ne_ok
  split at h
  · obtain ⟨m, p₁, hm, hp⟩ := Step.bind_eq_ok.1 h
    cases hp
    exact tallies_standIn hm
  · exact absurd h Step.throw_ne_ok

/-- Replacing an input adds no node and reports none. -/
theorem tallies_rewire (hr : Solver.rewire n slot m p = .ok () p') : Tallies p p' := by
  have hkinds := kinds_rewire (rewireStep_eq_ok hr)
  have hreport : p'.report = p.report := by
    unfold Solver.rewire at hr
    split at hr <;> cases hr
    rfl
  exact ⟨by rw [hreport, hkinds], by rw [hreport, hkinds]⟩

theorem tallies_meetSlot {edge : (NodeId × Requirement) × Nat}
    (h : meetSlot n edge p = .ok () p') : Tallies p p' := by
  unfold meetSlot at h
  obtain ⟨o, p₁, hmeet, hrest⟩ := Step.bind_eq_ok.1 h
  have htally := tallies_meet hmeet
  cases o with
  | none =>
    cases hrest
    exact htally
  | some m => exact htally.trans (tallies_rewire hrest)

theorem tallies_solveNode (h : solveNode n p = .ok () p') : Tallies p p' := by
  unfold solveNode at h
  rw [Step.get_bind] at h
  exact Step.forM_relates Tallies.refl Tallies.trans (fun _ _ => tallies_meetSlot) h

/-- How many of the nodes of a graph in the middle of a pass are of some kind. -/
theorem Underway.countP_kinds (hu : Underway base g) (f : NodeKind → Bool) :
    g.kinds.countP f =
      base.kinds.countP f + (newNodes base.count g).countP fun n => f (g.kindOf n) := by
  have hkinds : ∀ g : Graph, g.kinds = (List.range g.count).map g.kindOf := by
    intro g
    apply List.ext_getElem
    · simp [Columns.count]
    · intro i hi _
      simp [Columns.kindOf, List.getElem?_eq_getElem hi]
  have hrange : List.range g.count = List.range base.count ++ newNodes base.count g := by
    have happend := @List.range'_append_1 0 base.count (g.count - base.count)
    rw [Nat.zero_add, Nat.add_sub_cancel' hu.count_le] at happend
    rw [newNodes, List.range_eq_range', List.range_eq_range', happend]
  rw [hkinds g, hrange, List.map_append, List.countP_append, List.countP_map, List.countP_map,
    hkinds base, List.countP_map]
  congr 1
  refine List.countP_congr fun n hn => ?_
  simp [hu.kindOf n (List.mem_range.1 hn)]

/-- The report of a pass counts the conversions and the constants among the new nodes. -/
theorem report_solve {report : Report} (hu : Underway g (solve g).state)
    (h : (solve g).result = .ok report) :
    (report.conversions = (newNodes g.count (solve g).state).countP fun n =>
      ((solve g).state.kindOf n).isConversion) ∧
    report.constants = (newNodes g.count (solve g).state).countP fun n =>
      ((solve g).state.kindOf n).isConstant := by
  obtain ⟨order, p, horder, hrun, hstate⟩ := solve_eq_ok h
  cases (solve_result_of_ok horder hrun).symm.trans h
  obtain ⟨hconversions, hconstants⟩ :=
    Step.forM_relates Tallies.refl Tallies.trans (fun _ _ => tallies_solveNode) hrun
  rw [← hstate, hu.countP_kinds] at hconversions hconstants
  dsimp only at hconversions hconstants
  exact ⟨by omega, by omega⟩

/-! ## What is added and what is reported -/

theorem isConversion_of_insertion? (h : g.insertion? n = some w) :
    (g.kindOf n).isConversion = w.isConversion ∧ (g.kindOf n).isConstant = w.isConstant := by
  unfold Columns.insertion? at h
  split at h
  · rename_i hk
    cases h
    rw [hk]
    exact ⟨rfl, rfl⟩
  · rename_i hk _
    cases h
    rw [hk]
    exact ⟨rfl, rfl⟩
  · cases h

/-- The new nodes of some kind are as many as are missing of this kind. -/
theorem countP_newNodes {f : NodeKind → Bool} {q : Insertion → Bool} (hsup : Supplied base g)
    (hperm : ((newNodes base.count g).map g.insertion?).Perm (base.missing.map some))
    (hfq : ∀ {n w}, g.insertion? n = some w → f (g.kindOf n) = q w) :
    ((newNodes base.count g).countP fun n => f (g.kindOf n)) = base.missing.countP q := by
  have hcount := hperm.countP_eq (Option.any q)
  rw [List.countP_map, List.countP_map] at hcount
  have hmissing : base.missing.countP (Option.any q ∘ some) = base.missing.countP q := rfl
  rw [← hmissing, ← hcount]
  refine List.countP_congr fun n hn => ?_
  obtain ⟨hge, hlt⟩ := (mem_newNodes hsup.redirected.underway.count_le).1 hn
  obtain ⟨w, -, hw⟩ := hsup.added n hlt hge
  rw [hfq hw, Function.comp_apply, hw]
  rfl

/-- **A pass that succeeds adds what is missing, each once, and reports it.**  Among what is
wanted for the inputs that do not meet what is asked of them, a conversion of a node to a type is
missing if there is none, and a constant with a declared type if there is none of the same value
with this type.  Each node that is added is read by a node. -/
theorem solve_adds_missing {report : Report} (hg : Added g) (h : (solve g).result = .ok report) :
    g.missing.Nodup ∧
    ((newNodes g.count (solve g).state).map (solve g).state.insertion?).Perm
      (g.missing.map some) ∧
    report.conversions = g.missing.countP Insertion.isConversion ∧
    report.constants = g.missing.countP Insertion.isConstant ∧
    (solve g).state.count = g.count + (report.conversions + report.constants) ∧
    ∀ n < (solve g).state.count, g.count ≤ n → (solve g).state.consumersOf n ≠ [] := by
  obtain ⟨hw, -⟩ := wellFormed_typed_of_built hg.built
  have hsup := supplied_solve hg
  have hu := hsup.redirected.underway
  have hperm := perm_missing hw hsup (satisfied_state_solve hg.built h).2
  obtain ⟨hconversions, hconstants⟩ := report_solve hu h
  rw [countP_newNodes hsup hperm fun hw => (isConversion_of_insertion? hw).1] at hconversions
  rw [countP_newNodes hsup hperm fun hw => (isConversion_of_insertion? hw).2] at hconstants
  refine ⟨nodup_missing g, hperm, hconversions, hconstants, ?_, fun n hn hge hnone => ?_⟩
  · have hlength := hperm.length_eq
    rw [List.length_map, List.length_map, newNodes, List.length_range', Insertion.length_eq]
      at hlength
    have hle := hu.count_le
    omega
  · obtain ⟨a, -, slot, hget, -⟩ := hsup.redirected.inserted.read n hn hge
    have hmem := hu.wellFormed.mem_consumersOf.2 (List.mem_of_getElem? hget)
    rw [hnone] at hmem
    cases hmem

namespace Reused

/-- One draw is the mean of a normal variable and the location of another, and one constant is the
scale of three.  There is a constant of the type that the sum asks for. -/
def nodes : List (NodeKind × List NodeId) :=
  [(.constant (.scalar 2) none, []), (.distribution .halfCauchy, [0]), (.sample, [1]),
    (.distribution .normal, [2, 0]), (.distribution .studentT, [2, 2, 0]), (.sample, [3]),
    (.operator .addition, [5, 0]), (.constant (.scalar 2) (some .real), []), (.query, [6])]

def graph : Graph := nodes.foldl (fun g node => (g.add node.1 node.2).state) .empty

theorem added_graph : Added graph := added_foldl_add nodes .empty

theorem solve_graph : (solve graph).result = .ok ⟨1, 1⟩ := by
  have hresult : (solve graph).result.toOption = some ⟨1, 1⟩ := by decide +kernel
  cases h : (solve graph).result with
  | ok report => rw [h] at hresult; cases hresult; rfl
  | error e => rw [h] at hresult; cases hresult

end Reused

/-- Six inputs do not meet what is asked of them, and two nodes are added. -/
theorem solve_adds_missing_reused :
    Added Reused.graph ∧ Reused.graph.unmet.length = 6 ∧ Reused.graph.missing =
      [.conversion 2 .real, .constant (Tensor.scalar 2).key .positiveReal] ∧
    (solve Reused.graph).result = .ok ⟨1, 1⟩ ∧
    ((newNodes 9 (solve Reused.graph).state).map (solve Reused.graph).state.insertion?).Perm
      (Reused.graph.missing.map some) ∧
    (solve Reused.graph).state.count = 11 := by
  have hcount : Reused.graph.count = 9 := by decide +kernel
  obtain ⟨-, hperm, -, -, hgrowth, -⟩ :=
    solve_adds_missing Reused.added_graph Reused.solve_graph
  rw [hcount] at hperm hgrowth
  exact ⟨Reused.added_graph, by decide +kernel, by decide +kernel, Reused.solve_graph, hperm,
    hgrowth⟩

end Graph

end Stochastic
