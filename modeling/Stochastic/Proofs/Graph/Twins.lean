import Stochastic.Proofs.Graph.Index

/-!
# Twins

Replacing inputs can give two nodes one key.  The index then has one of these twins under the
key.  If this one goes on to another key, its entry is taken out, and the twin that stays is not
put in its place: it is there, but an addition that asks for it does not find it, and adds a
third.  Nothing else goes wrong, and all is well again once a node comes to the key anew.

## Main definitions

* `Graph.Action`, `Graph.after` — additions and replacements, and the graph they lead to.
* `Graph.Action.Parts` — the node that is found under a key leaves a twin behind.
* `Graph.Forsaken` — this has happened to a key, and no node has come to the key since.

## Main results

* `Graph.get?_index_of_forsaken`, `Graph.forsaken_of_get?_index` — under a key that some node has
  nothing is found exactly if the key is forsaken.
* `Graph.add_finds_iff` — when an addition finds a node that is there.
-/

namespace Stochastic.Graph

variable {g : Graph} {kind : NodeKind} {xs : List NodeId} {k : NodeKey}
variable {m : Nat}

/-! ## Additions and replacements -/

/-- An addition or a replacement. -/
inductive Action where
  | add (kind : NodeKind) (inputs : List NodeId)
  | rewire (consumer : NodeId) (slot : Nat) (replacement : NodeId)

namespace Action

/-- The graph after an action, which is as it was if the action fails. -/
def apply (g : Graph) : Action → Graph
  | .add kind inputs => (g.add kind inputs).state
  | .rewire consumer slot replacement =>
    match g.rewire consumer slot replacement with
    | .ok g' => g'
    | .error _ => g

/-- The action asks for a node with the key, or it gives the key to a node. -/
def Gives (g : Graph) (k : NodeKey) : Action → Prop
  | .add kind inputs => Passes g.toColumns kind inputs ∧ NodeKey.of? kind inputs = some k
  | .rewire consumer slot replacement =>
    ∃ g', g.rewire consumer slot replacement = .ok g' ∧ g'.keyOf? consumer = some k

/-- The action takes the key from the node that is found under it, while another node has it as
well. -/
def Parts (g : Graph) (k : NodeKey) (a : Action) : Prop :=
  ∃ n, g.index.get? k = some n ∧ (a.apply g).keyOf? n ≠ some k ∧
    ∃ m < g.count, m ≠ n ∧ g.keyOf? m = some k

theorem wellFormed_apply (h : WellFormed g) (a : Action) : WellFormed (a.apply g) := by
  cases a with
  | add kind xs =>
    rcases state_add g kind xs with hstate | ⟨hcheck, hxs, -, hstate⟩
    · rwa [apply, hstate]
    · rw [apply, hstate]
      exact wellFormed_append h hxs (check_eq_ok.1 hcheck).1
  | rewire c slot r =>
    rw [apply]
    cases hr : g.rewire c slot r with
    | error e => exact h
    | ok g' => exact wellFormed_rewire h hr

theorem built_apply (hg : Built g) {a : Action} (hac : Acyclic (a.apply g)) :
    Built (a.apply g) := by
  cases a with
  | add kind xs => exact hg.add kind xs
  | rewire c slot r =>
    rw [apply] at hac ⊢
    cases hr : g.rewire c slot r with
    | error e => exact hg
    | ok g' =>
      rw [hr] at hac
      exact .rewire hg hr hac

/-- After an action that gives a key to a node, or asks for a node with it, there is one under the
key. -/
theorem Gives.get?_index_ne_none (h : WellFormed g) {a : Action} (ha : a.Gives g k) :
    (a.apply g).index.get? k ≠ none := by
  cases a with
  | add kind xs =>
    obtain ⟨hp, hk⟩ := ha
    rw [apply]
    cases hs : g.shared? kind xs with
    | some n =>
      rw [add_of_shared?_eq_some hp hs, ← shared?_eq hk, hs]
      exact nofun
    | none =>
      rw [add_of_shared?_eq_none hp hs, get?_index_append, if_pos hk]
      simp
  | rewire c slot r =>
    obtain ⟨g', hr, hk⟩ := ha
    rw [apply, hr]
    dsimp only
    rw [get?_index_rewire h hr, if_pos hk]
    simp

/-- Where nothing is under a key nothing will be, unless the action gives the key to a node or
asks for a node with it. -/
theorem get?_index_apply_eq_none (h : WellFormed g) (hget : g.index.get? k = none) {a : Action}
    (ha : ¬ a.Gives g k) : (a.apply g).index.get? k = none := by
  cases a with
  | add kind xs =>
    rw [apply]
    rcases state_add g kind xs with hstate | ⟨hcheck, hxs, -, hstate⟩
    · rwa [hstate]
    · have hk : NodeKey.of? kind xs ≠ some k := fun hk => ha ⟨⟨hxs, hcheck⟩, hk⟩
      rw [hstate, get?_index_append, hget, if_neg hk]
      rfl
  | rewire c slot r =>
    rw [apply]
    cases hr : g.rewire c slot r with
    | error e => exact hget
    | ok g' =>
      have hk : g'.keyOf? c ≠ some k := fun hk => ha ⟨g', hr, hk⟩
      dsimp only
      rw [get?_index_rewire h hr, hget, if_neg hk]
      simp

/-- Nothing is under a key when it has been taken from the node that was found under it. -/
theorem Parts.get?_index_eq_none (h : WellFormed g) {a : Action} (ha : a.Parts g k) :
    (a.apply g).index.get? k = none := by
  obtain ⟨n, hget, hleaves, -⟩ := ha
  obtain ⟨hn, hkey⟩ := h.indexed hget
  have hkey : g.keyOf? n = some k := hkey
  cases a with
  | add kind xs =>
    -- an addition changes the keys of no nodes that are there
    refine absurd ?_ hleaves
    rw [apply]
    rcases state_add g kind xs with hstate | ⟨-, -, -, hstate⟩
    · rw [hstate, hkey]
    · rw [hstate, keyOf?_append h, if_neg (Nat.ne_of_lt hn), hkey]
  | rewire c slot r =>
    rw [apply] at hleaves ⊢
    cases hr : g.rewire c slot r with
    | error e =>
      rw [hr] at hleaves
      exact absurd hkey hleaves
    | ok g' =>
      rw [hr] at hleaves
      dsimp only at hleaves ⊢
      have hnc : n = c := by
        by_contra hne
        exact hleaves ((keyOf?_rewire h hr hne).trans hkey)
      subst hnc
      rw [get?_index_rewire h hr, if_pos ⟨hkey, hget⟩, if_neg hleaves]
      rfl

/-- If some node has a key and nothing is found under it, then this was so before the action, or
the action took the key from the node that was found. -/
theorem not_found_or_parts (h : WellFormed g) {a : Action}
    (hget : (a.apply g).index.get? k = none) (hm : m < (a.apply g).count)
    (hkey : (a.apply g).keyOf? m = some k) :
    (g.index.get? k = none ∧ ∃ m < g.count, g.keyOf? m = some k) ∨ a.Parts g k := by
  have hnot : ¬ a.Gives g k := fun ha => ha.get?_index_ne_none h hget
  cases a with
  | add kind xs =>
    rw [apply] at hget hm hkey
    rcases state_add g kind xs with hstate | ⟨hcheck, hxs, -, hstate⟩
    · rw [hstate] at hget hm hkey
      exact .inl ⟨hget, m, hm, hkey⟩
    · rw [hstate, get?_index_append, Option.or_eq_none_iff] at hget
      rw [hstate, count_append] at hm
      rw [hstate, keyOf?_append h] at hkey
      by_cases hcount : m = g.count
      · rw [if_pos hcount] at hkey
        exact absurd ⟨⟨hxs, hcheck⟩, hkey⟩ hnot
      · rw [if_neg hcount] at hkey
        exact .inl ⟨hget.1, m, by omega, hkey⟩
  | rewire c slot r =>
    cases hr : g.rewire c slot r with
    | error e =>
      rw [apply, hr] at hget hm hkey
      exact .inl ⟨hget, m, hm, hkey⟩
    | ok g' =>
      have happly : (Action.rewire c slot r).apply g = g' := by rw [apply, hr]
      rw [happly] at hget hm hkey
      have hc : g'.keyOf? c ≠ some k := fun hc => hnot ⟨g', hr, hc⟩
      have hmc : m ≠ c := by
        rintro rfl
        exact hc hkey
      rw [keyOf?_rewire h hr hmc] at hkey
      rw [get?_index_rewire h hr, Option.or_eq_none_iff] at hget
      have hlt : m < g.count := by
        rwa [Columns.count, kinds_rewire hr] at hm
      by_cases hold : g.keyOf? c = some k ∧ g.index.get? k = some c
      · exact .inr ⟨c, hold.2, by rwa [happly], m, hlt, hmc, hkey⟩
      · rw [if_neg hold] at hget
        exact .inl ⟨hget.1, m, hlt, hkey⟩

end Action

/-! ## Histories -/

/-- The graph after a sequence of actions, beginning with the empty graph. -/
def after (actions : List Action) : Graph := actions.foldl Action.apply .empty

theorem after_snoc (actions : List Action) (a : Action) :
    after (actions ++ [a]) = a.apply (after actions) := by
  rw [after, List.foldl_append]
  rfl

theorem wellFormed_after (actions : List Action) : WellFormed (after actions) := by
  induction actions using List.reverseRecOn with
  | nil => exact .empty
  | append_singleton actions a ih =>
    rw [after_snoc]
    exact a.wellFormed_apply ih

/-- The graph after actions of which none makes a cycle is built. -/
theorem built_after {actions : List Action}
    (hac : ∀ l, l <+: actions → Acyclic (after l)) : Built (after actions) := by
  induction actions using List.reverseRecOn with
  | nil => exact .empty
  | append_singleton actions a ih =>
    have hlast := hac _ List.prefix_rfl
    rw [after_snoc] at hlast ⊢
    exact Action.built_apply (ih fun l hl => hac l (hl.trans (List.prefix_append _ _))) hlast

/-- The node that was found under a key has gone to another one and left a twin behind, and since
then no node has come to the key, nor has one been asked for. -/
inductive Forsaken (k : NodeKey) : List Action → Prop
  | parts {actions : List Action} {a : Action} :
    a.Parts (after actions) k → Forsaken k (actions ++ [a])
  | stays {actions : List Action} {a : Action} :
    Forsaken k actions → ¬ a.Gives (after actions) k → Forsaken k (actions ++ [a])

theorem get?_index_of_forsaken {actions : List Action} (h : Forsaken k actions) :
    (after actions).index.get? k = none := by
  induction h with
  | @parts actions a hparts =>
    rw [after_snoc]
    exact hparts.get?_index_eq_none (wellFormed_after actions)
  | @stays actions a _ hnot ih =>
    rw [after_snoc]
    exact Action.get?_index_apply_eq_none (wellFormed_after actions) ih hnot

theorem forsaken_of_get?_index {actions : List Action}
    (hget : (after actions).index.get? k = none) (hm : m < (after actions).count)
    (hkey : (after actions).keyOf? m = some k) : Forsaken k actions := by
  induction actions using List.reverseRecOn generalizing m with
  | nil => exact absurd hm (Nat.not_lt_zero m)
  | append_singleton actions a ih =>
    rw [after_snoc] at hget hm hkey
    have h := wellFormed_after actions
    rcases Action.not_found_or_parts h hget hm hkey with ⟨hget', m', hm', hkey'⟩ | hparts
    · exact .stays (ih hget' hm' hkey') fun ha => ha.get?_index_ne_none h hget
    · exact .parts hparts

/-- **When an addition finds a node that is there.**  After any sequence of additions and
replacements, let a node of some kind that reads some nodes be there, and let a node of this kind
be determined by what it reads and pass the checks.  Adding it finds a node like this and changes
nothing, exactly if its key is not forsaken; otherwise it adds another. -/
theorem add_finds_iff (actions : List Action) (hdet : kind.isDeterministic = true)
    (hp : Passes (after actions).toColumns kind xs)
    (hthere : ∃ m < (after actions).count,
      NodeKind.Alike ((after actions).kindOf m) kind ∧ (after actions).inputs m = xs) :
    ∃ k, NodeKey.of? kind xs = some k ∧
      ((∃ n < (after actions).count,
        NodeKind.Alike ((after actions).kindOf n) kind ∧ (after actions).inputs n = xs ∧
          (after actions).add kind xs = ⟨after actions, .ok n, []⟩) ↔ ¬ Forsaken k actions) ∧
      (Forsaken k actions → ((after actions).add kind xs).result = .ok (after actions).count ∧
        ((after actions).add kind xs).state.count = (after actions).count + 1) := by
  have h := wellFormed_after actions
  obtain ⟨k, hk⟩ := NodeKey.exists_of? hdet hp.arity
  have hshared := shared?_eq (g := after actions) hk
  refine ⟨k, hk, ⟨?_, fun hnot => ?_⟩, fun hforsaken => ?_⟩
  · rintro ⟨n, hn, -, -, hadd⟩ hforsaken
    rw [get?_index_of_forsaken hforsaken] at hshared
    rw [add_of_shared?_eq_none hp hshared] at hadd
    have hcount := congrArg (fun r => r.state.count) hadd
    simp at hcount
  · obtain ⟨m, hm, halike, hinputs⟩ := hthere
    have hkey : (after actions).keyOf? m = some k := by
      rw [Columns.keyOf?, hinputs, NodeKind.key_of_alike halike, hk]
    cases hget : (after actions).index.get? k with
    | none => exact absurd (forsaken_of_get?_index hget hm hkey) hnot
    | some n =>
      obtain ⟨hn, hkey'⟩ := h.indexed hget
      obtain ⟨halike', hinputs'⟩ := NodeKind.alike_of_key (h.arities n hn) hp.arity hkey' hk
      exact ⟨n, hn, halike', hinputs', add_of_shared?_eq_some hp (hshared.trans hget)⟩
  · rw [get?_index_of_forsaken hforsaken] at hshared
    rw [add_of_shared?_eq_none hp hshared]
    exact ⟨rfl, count_append⟩

namespace Parted

/-- Two sums of which the second comes to read what the first does. -/
def before : List Action :=
  [.add (.constant (.scalar 1) (some .real)) [], .add (.constant (.scalar 2) (some .real)) [],
    .add (.constant (.scalar 3) (some .real)) [], .add (.operator .addition) [0, 1],
    .add (.operator .addition) [0, 2], .rewire 4 1 1]

/-- Then the first sum comes to read what the second did. -/
def actions : List Action := before ++ [.rewire 3 1 2]

theorem built_actions : Built (after actions) := by
  apply built_after
  intro l hl
  have hrank : ∀ l ∈ actions.inits, ∀ n < (after l).spans.length, ∀ x ∈ (after l).inputs n,
      x < n := by decide +kernel
  exact acyclic_of_spans id (hrank l ((List.mem_inits l actions).2 hl))

theorem passes_sum {l : List Action} (hl : l = before ∨ l = actions) :
    Passes (after l).toColumns (.operator .addition) [0, 1] := by
  have hknown : ∀ x ∈ [0, 1], x < (after l).count ∧ ((after l).kindOf x).isValue = true := by
    rcases hl with rfl | rfl <;> decide +kernel
  exact ⟨fun x hx => (hknown x hx).1, check_eq_ok.2 ⟨rfl, fun x hx => (hknown x hx).2, rfl⟩⟩

theorem sum_there {l : List Action} (hl : l = before ∨ l = actions) :
    4 < (after l).count ∧ NodeKind.Alike ((after l).kindOf 4) (.operator .addition) ∧
      (after l).inputs 4 = [0, 1] := by
  have hlt : 4 < (after l).count := by rcases hl with rfl | rfl <;> decide +kernel
  have hkey : (after l).keyOf? 4 = some (.operator .addition [0, 1]) := by
    rcases hl with rfl | rfl <;> decide +kernel
  exact ⟨hlt, NodeKind.alike_of_key ((wellFormed_after l).arities 4 hlt) rfl hkey rfl⟩

end Parted

/-- While both sums read the same the first is found; when it has gone none is. -/
theorem add_finds_iff_parted :
    ((after Parted.before).add (.operator .addition) [0, 1]).result.toOption = some 3 ∧
    ((after Parted.actions).add (.operator .addition) [0, 1]).result.toOption = some 5 ∧
    ∃ k, NodeKey.of? (.operator .addition) [0, 1] = some k ∧ ¬ Forsaken k Parted.before ∧
      Forsaken k Parted.actions := by
  have hbefore : ((after Parted.before).add (.operator .addition) [0, 1]).result.toOption =
      some 3 := by decide +kernel
  have hafter : ((after Parted.actions).add (.operator .addition) [0, 1]).result.toOption =
      some 5 := by decide +kernel
  obtain ⟨k, hk, -, hadds⟩ := add_finds_iff Parted.before rfl (Parted.passes_sum (.inl rfl))
    ⟨4, Parted.sum_there (.inl rfl)⟩
  obtain ⟨k', hk', hfinds, -⟩ := add_finds_iff Parted.actions rfl (Parted.passes_sum (.inr rfl))
    ⟨4, Parted.sum_there (.inr rfl)⟩
  obtain rfl : k = k' := Option.some.inj (hk.symm.trans hk')
  refine ⟨hbefore, hafter, k, hk, fun hforsaken => ?_, ?_⟩
  · rw [(hadds hforsaken).1] at hbefore
    have hcount : (after Parted.before).count = 5 := by decide +kernel
    rw [hcount] at hbefore
    cases hbefore
  · by_contra hnot
    obtain ⟨n, hn, -, -, hadd⟩ := hfinds.2 hnot
    have hcount : (after Parted.actions).count = 5 := by decide +kernel
    rw [hadd] at hafter
    cases hafter
    omega

/-- The second sum is still there, but an addition that asks for it adds another node. -/
theorem not_add_finds_parted :
    Built (after Parted.actions) ∧
    Passes (after Parted.actions).toColumns (.operator .addition) [0, 1] ∧
    (4 < (after Parted.actions).count ∧
      NodeKind.Alike ((after Parted.actions).kindOf 4) (.operator .addition) ∧
      (after Parted.actions).inputs 4 = [0, 1]) ∧
    ¬ ∃ n < (after Parted.actions).count,
      NodeKind.Alike ((after Parted.actions).kindOf n) (.operator .addition) ∧
        (after Parted.actions).inputs n = [0, 1] ∧
        ((after Parted.actions).add (.operator .addition) [0, 1]).result = .ok n := by
  refine ⟨Parted.built_actions, Parted.passes_sum (.inr rfl), Parted.sum_there (.inr rfl), ?_⟩
  rintro ⟨n, hn, -, -, hadd⟩
  have hresult : ((after Parted.actions).add (.operator .addition) [0, 1]).result.toOption =
      some 5 := by decide +kernel
  have hcount : (after Parted.actions).count = 5 := by decide +kernel
  rw [hadd] at hresult
  cases hresult
  omega

end Stochastic.Graph
