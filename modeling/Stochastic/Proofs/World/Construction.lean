import Stochastic.Proofs.World.Evaluation
import Stochastic.Proofs.World.Isolation
import Stochastic.Proofs.World.Quiet

/-!
# Worlds agree with plain evaluation

A world generates a variable once and keeps it: whoever reads it afterwards is given what is
there.  If draws depend on the distribution only and programs are deterministic, this makes no
difference.  In a world that is built by requests from fixed observations, every variable is the
one that plain recursive evaluation comes to, which knows nothing of worlds; and the variables
that are there are those that come up when the requests are evaluated.  So it does not matter in
which order variables are requested, nor when changes are accepted.

What is carried along while programs run is that every variable so far is as it evaluates.  A
program that reads such variables is given what evaluation would give it, so it reads on and comes
to a distribution as evaluation would, and the variable that it generates is as it evaluates, too.

## Main definitions

* `Evaluation.Describes` — a variable is as an evaluation says.
* `World.Scope` — what is assumed of a model and the identifiers that come up.
* `World.Faithful` — every variable of a world is as it evaluates.
* `World.Builds` — the worlds that are built by requests.

## Main results

* `World.Scope.execute` — a program comes to what it would come to by evaluation.
* `World.Builds.faithful` — a world that is built by requests is faithful.
* `World.builds_evaluated` — what is in such a world, and that the order of requests does not
  matter.
-/

namespace Stochastic

/-- The variable that an evaluation comes to, as long as nothing reads it; constrained values are
`moved` to the real line or not. -/
def Evaluation.variable (e : Evaluation) (moved : Bool) : Variable :=
  .create e.distribution e.value (.ofList e.reads) moved

/-- A variable has the value and distribution that an evaluation has come to, the log-probability
that belongs to them, and what was read as its parents, in the order of the first reads. -/
structure Evaluation.Describes (e : Evaluation) (v : Variable) : Prop where
  value : v.value = e.value
  distribution : v.distribution = e.distribution
  logProb : v.logProb = e.distribution.logProb e.value
  parents : v.parents = .ofList e.reads

theorem Evaluation.describes_of_core {e : Evaluation} {v : Variable} {moved : Bool}
    (h : v.core = e.variable moved) : e.Describes v := by
  have hfield : ∀ {α : Type} (f : Variable → α), f v.core = f (e.variable moved) :=
    fun f => by rw [h]
  exact ⟨hfield (·.value), hfield (·.distribution), hfield (·.logProb), hfield (·.parents)⟩

namespace World

variable {m : Model} {config : Config} {moved : Bool} {observed : Table Ident (Tensor Float)}
  {occurs : Ident → Prop} {w w' : World} {r r' : Run} {n k c p : Ident} {v : Variable}
  {ex : Executor}

/-- What is assumed of a model, given the identifiers that come up: programs end with an error as
soon as a read fails, draws depend on the distribution only, whatever is asked for comes up, and
equal identifiers that come up have the same program. -/
structure Scope (m : Model) (observed : Table Ident (Tensor Float)) (occurs : Ident → Prop) :
    Prop where
  propagates : m.Propagates
  forced : m.sampler.Forced
  closed : ∀ {n p}, occurs n → m.Asks observed (m.program n) p → occurs p
  deterministic : ∀ {n n'}, occurs n → occurs n' → (n == n') = true → m.program n = m.program n'

/-- Every variable of a world is what some identifier that comes up evaluates to. -/
structure Faithful (m : Model) (moved : Bool) (observed : Table Ident (Tensor Float))
    (occurs : Ident → Prop) (w : World) : Prop where
  config : w.config.transformConstrained = moved
  observations : w.observations = observed
  evaluated : ∀ {n v}, w.lookup? n = some v → ∃ n' e, (n == n') = true ∧ occurs n' ∧
    m.Evaluates observed n' e ∧ v.core = e.variable moved

/-- Who reads a variable, and marks, have nothing to do with it. -/
theorem Faithful.sameCores (h : Faithful m moved observed occurs w) (hs : w.SameCores w')
    (hc : w'.config = w.config) (ho : w'.observations = w.observations) :
    Faithful m moved observed occurs w' where
  config := by rw [hc, h.config]
  observations := ho.trans h.observations
  evaluated hv := by
    obtain ⟨v', hv', hcore⟩ := hs.symm.exists_core hv
    obtain ⟨n', e, hn, hoccurs, he, hv'⟩ := h.evaluated hv'
    exact ⟨n', e, hn, hoccurs, he, hcore.symm.trans hv'⟩

theorem Faithful.restores (h : Faithful m moved observed occurs r.world) (hs : Restores r r') :
    Faithful m moved observed occurs r'.world := by
  have hg := grows_of_moves hs.moves
  exact h.sameCores hs.cores hg.config hg.observations

/-- A fresh value is the one that is settled on in evaluation. -/
theorem settled?_of_freshValue {d : Distribution} {value : Tensor Float}
    (hs : m.sampler.Forced) (h : freshValue m n d r = .ok value r') :
    m.settled? r.world.observations n d = some value := by
  rcases freshValue_eq_ok h with ⟨ho, -⟩ | ⟨ho, hdraw, -⟩
  · rw [Model.settled?, ho, Option.some_or]
  · rw [hs.draw?_eq] at hdraw
    rw [Model.settled?, ho, Option.none_or, hdraw]
    rfl

/-- Executing a program in a faithful world keeps it so; the program comes to what it would come to
by evaluation, and its frame has recorded what it has read. -/
def Executor.Agrees (m : Model) (moved : Bool) (observed : Table Ident (Tensor Float))
    (occurs : Ident → Prop) (ex : Executor) : Prop :=
  ∀ {n r d parents r'}, Faithful m moved observed occurs r.world → occurs n →
    ex n r = .ok (d, parents) r' → Faithful m moved observed occurs r'.world ∧
      ∃ reads, parents = .ofList reads ∧ m.Comes observed (m.program n) reads d

namespace Scope

variable (hS : Scope m observed occurs)

include hS

/-- What is there under an identifier that comes up is what this identifier evaluates to. -/
theorem evaluated (h : Faithful m moved observed occurs w) (hn : occurs n)
    (hv : w.lookup? n = some v) :
    ∃ e, m.Evaluates observed n e ∧ v.core = e.variable moved := by
  obtain ⟨n', e, hnn', hn', he, hcore⟩ := h.evaluated hv
  exact ⟨e, he.congr (BEq.symm hnn') (hS.deterministic hn' hn (BEq.symm hnn')), hcore⟩

/-- A variable that is created is the one that its identifier evaluates to. -/
theorem create (hex : ex.Agrees m moved observed occurs)
    (h : Faithful m moved observed occurs r.world) (hn : occurs n)
    (ho : World.create m ex n r = .ok () r') : Faithful m moved observed occurs r'.world := by
  obtain ⟨d, parents, r₁, value, r₂, hx, hv, rfl⟩ := create_eq_ok.1 ho
  obtain ⟨h₁, reads, rfl, hcomes⟩ := hex h hn hx
  -- what its program came to, together with the value that it got, is an evaluation
  have hvalue := settled?_of_freshValue hS.forced hv
  rw [h₁.observations] at hvalue
  have he : m.Evaluates observed n ⟨value, d, reads⟩ := Model.evaluates_iff.2 ⟨hcomes, hvalue⟩
  have h₂ : Faithful m moved observed occurs r₂.world :=
    h₁.restores (Step.after_eq_of_ok hv ▸ restores_freshValue m n d r₁)
  refine ⟨h₂.config, h₂.observations, fun {k v} hk => ?_⟩
  rw [Run.world_creating, lookup?_put] at hk
  by_cases hnk : (n == k) = true
  · rw [if_pos hnk] at hk
    cases hk
    refine ⟨n, _, BEq.symm hnk, hn, he, ?_⟩
    rw [h₂.config]
    rfl
  · rw [if_neg hnk] at hk
    exact h₂.evaluated hk

theorem provide (hex : ex.Agrees m moved observed occurs)
    (h : Faithful m moved observed occurs r.world) (hn : occurs n)
    (ho : World.provide m ex n r = .ok () r') : Faithful m moved observed occurs r'.world := by
  rcases provide_eq_ok ho with ⟨-, hc⟩ | ⟨-, hr⟩ | ⟨-, rfl⟩
  · exact hS.create hex h hn hc
  · exact h.restores (Step.after_eq_of_ok hr ▸ restores_revive n r)
  · exact h

omit hS in
theorem connect (h : Faithful m moved observed occurs r.world)
    (ho : World.connect n r = .ok () r') : Faithful m moved observed occurs r'.world := by
  rcases connect_cases n r with ⟨-, hc⟩ | ⟨f, fs, -, hw, hc⟩
  · rw [hc] at ho
    cases ho
    exact h
  · rw [hc] at ho
    rw [← hw] at h
    exact h.restores (Step.after_eq_of_ok ho ▸ restores_attach f.node n (r.noting n))

/-- A read in a faithful world is answered as by evaluation. -/
theorem read (hex : ex.Agrees m moved observed occurs) {x : Tensor Float}
    (h : Faithful m moved observed occurs r.world) (hn : occurs n)
    (ho : World.read m ex n r = .ok x r') : Faithful m moved observed occurs r'.world ∧
      ∃ e, m.Evaluates observed n e ∧ e.value = x := by
  obtain ⟨-, r₁, hpr, hc, hx⟩ := read_eq_ok ho
  have h' := connect (hS.provide hex h hn hpr) hc
  -- be it new or not, and under whichever spelling it was created
  obtain ⟨v, hv, rfl⟩ := Option.map_eq_some_iff.1 hx
  obtain ⟨e, he, hcore⟩ := hS.evaluated h' hn hv
  exact ⟨h', e, he, (Evaluation.describes_of_core hcore).value.symm⟩

/-- A program in a faithful world reads and comes to what it would by evaluation, and each read
is recorded in its frame. -/
theorem run (hex : ex.Agrees m moved observed occurs) (hp : ex.Proceeds) {α : Type}
    {program : Program α} (hprog : program.Propagates)
    (hasks : ∀ p, m.Asks observed program p → occurs p) {a : α} {f : Frame} {fs : List Frame}
    (h : Faithful m moved observed occurs r.world) (hf : r.frames = f :: fs)
    (ho : program.run (fun p => (World.read m ex p).attempt) throw r = .ok a r') :
    Faithful m moved observed occurs r'.world ∧ ∃ reads, m.Comes observed program reads a ∧
      r'.frames = { f with parents := reads.foldl OrderedSet.insert f.parents } :: fs := by
  induction program generalizing r f with
  | done b =>
    obtain ⟨rfl, rfl⟩ := Step.pure_eq_ok.1 ho
    exact ⟨h, [], Model.comes_done b, hf⟩
  | fail e => exact absurd ho Step.throw_ne_ok
  | ask n next ih =>
    obtain ⟨x, r₁, hread, hrest⟩ := run_ask_eq_ok hprog ho
    obtain ⟨h₁, e, he, rfl⟩ := hS.read hex h (hasks n .here) hread
    -- whatever is asked for later on is asked for by the whole program
    obtain ⟨h', reads, hcomes, hframes⟩ := ih (.ok e.value) (hprog.2 _)
      (fun p hp => hasks p (.later he hp)) h₁ (frames_of_read hp hread hf) hrest
    exact ⟨h', n :: reads, Model.comes_ask_iff.2 ⟨e, reads, he, hcomes, rfl⟩, hframes⟩

/-- **A program comes to what it would come to by evaluation**, to any depth of nesting. -/
theorem execute (depth : Nat) : (World.execute m depth).Agrees m moved observed occurs := by
  induction depth with
  | zero =>
    intro n r d parents r' _ _ ho
    cases ho
  | succ depth ih =>
    intro n r d parents r' h hn ho
    obtain ⟨r₁, hb, rfl, rfl⟩ := execute_succ_eq_ok ho
    obtain ⟨h₁, reads, hcomes, hframes⟩ :=
      hS.run ih (execute_proceeds m depth) (hS.propagates n) (fun p => hS.closed hn)
        (r := { r with frames := ⟨n, .empty⟩ :: r.frames }) h rfl hb
    refine ⟨h₁, reads, ?_, hcomes⟩
    rw [hframes]
    rfl

/-- A request that succeeds keeps a world faithful, and what was requested is there. -/
theorem update (h : Faithful m moved observed occurs w) (hn : occurs n) {x : Tensor Float}
    (ho : (World.update m w n).result = .ok x) :
    Faithful m moved observed occurs (World.update m w n).state ∧
      ∃ v, (World.update m w n).state.lookup? n = some v := by
  obtain ⟨r', hr, hstate⟩ := Step.reply_eq_ok ho
  have hstate : (World.update m w n).state = r'.world := hstate
  change World.read m (World.execute m w.config.maxDepth) n { world := w } = .ok x r' at hr
  obtain ⟨h', -⟩ := hS.read (hS.execute _) (r := { world := w }) h hn hr
  obtain ⟨-, r₁, -, -, hx⟩ := read_eq_ok hr
  obtain ⟨v, hv, -⟩ := Option.map_eq_some_iff.1 hx
  rw [hstate]
  exact ⟨h', v, hv⟩

end Scope

/-! ## Worlds that are built by requests -/

/-- The worlds that come from an empty one with fixed observations by requests that succeed, with
changes accepted anywhere in between. -/
inductive Builds (m : Model) (config : Config) (observations : List (Ident × Tensor Float)) :
    List Ident → World → Prop where
  | start : Builds m config observations [] ((World.new config).observe observations).state
  | request {requests : List Ident} {w : World} (n : Ident) {value : Tensor Float}
      (built : Builds m config observations requests w)
      (succeeds : (update m w n).result = .ok value) :
      Builds m config observations (requests ++ [n]) (update m w n).state
  | accept {requests : List Ident} {w : World} (built : Builds m config observations requests w) :
      Builds m config observations requests w.accept.state

namespace Builds

variable {observations : List (Ident × Tensor Float)} {requests requests' : List Ident}

/-- The same as `request`, if it is only known that the request succeeds. -/
theorem request_of_isOk (h : Builds m config observations requests w) (n : Ident)
    (hok : (update m w n).result.isOk = true) :
    Builds m config observations (requests ++ [n]) (update m w n).state := by
  cases hr : (update m w n).result with
  | ok value => exact h.request n hr
  | error e =>
    rw [hr] at hok
    cases hok

theorem reachable (h : Builds m config observations requests w) : Reachable m w := by
  induction h with
  | start => exact (Reachable.new config).step (.observe observations)
  | @request requests w n value built succeeds ih =>
    have hstep := ih.step (.update n)
    rw [carryOut, perform, orRejected_map, orRejected, succeeds] at hstep
    exact hstep
  | accept built ih => exact ih.step .accept

/-- Nothing is ever marked. -/
theorem unmarked (h : Builds m config observations requests w) : w.Unmarked := by
  induction h with
  | start => exact fun n => rfl
  | @request requests w n value built succeeds ih =>
    intro k
    show ((visit m n).reply w).state.overlay.isMarked k = false
    rw [state_reply]
    refine Bool.eq_false_iff.2 fun hk => ?_
    have hw := (progress_visit m n { world := w }).marks k hk
    rw [ih k] at hw
    cases hw
  | accept built ih => exact fun n => rfl

/-- What is there stays. -/
theorem lookup?_accept_eq (h : Builds m config observations requests w) (n : Ident) :
    w.accept.state.lookup? n = w.lookup? n := by
  rw [lookup?_accept, h.unmarked.live?_eq]

/-- A world that is built by requests is faithful, and what was requested is there. -/
theorem faithful (hS : Scope m (.ofList observations) occurs)
    (h : Builds m config observations requests w) (hr : ∀ n ∈ requests, occurs n) :
    Faithful m config.transformConstrained (.ofList observations) occurs w ∧
      ∀ n ∈ requests, ∃ v, w.lookup? n = some v := by
  induction h with
  | start =>
    refine ⟨⟨rfl, rfl, fun hv => ?_⟩, fun n hn => ?_⟩
    · cases hv
    · cases hn
  | @request requests w n value built succeeds ih =>
    obtain ⟨hfaithful, hthere⟩ := ih fun k hk => hr k (List.mem_append_left _ hk)
    obtain ⟨hfaithful', hn⟩ := hS.update hfaithful (hr n (by simp)) succeeds
    refine ⟨hfaithful', fun k hk => ?_⟩
    rcases List.mem_append.1 hk with hk | hk
    · -- what was there before this request is still there
      obtain ⟨v, hv⟩ := hthere k hk
      obtain ⟨v', hv', -⟩ :=
        (grows_of_moves (progress_visit m n { world := w }).moves).exists_core hv
      rw [← state_reply] at hv'
      exact ⟨v', hv'⟩
    · obtain rfl := List.mem_singleton.1 hk
      exact hn
  | accept built ih =>
    obtain ⟨hfaithful, hthere⟩ := ih hr
    have heq := built.lookup?_accept_eq
    refine ⟨hfaithful.sameCores (fun n => by rw [heq]) rfl rfl, fun n hn => ?_⟩
    rw [heq]
    exact hthere n hn

/-- In a world that is built by requests, what a variable reads is there. -/
theorem exists_parent (hm : m.Propagates) (h : Builds m config observations requests w)
    (hv : w.lookup? n = some v) (hp : v.parents.contains p = true) :
    ∃ u, w.lookup? p = some u := by
  -- the edge is recorded on the other side as well
  have hreads : w.Reads n p := (reads_of_lookup? (h.unmarked n) hv).2 hp
  obtain ⟨-, u, hu, -⟩ := lists_iff.1 ((symmetric_of_reachable hm h.reachable n p).1 hreads)
  exact ⟨u, hu⟩

/-- Who lists whom follows from who reads whom, and that is part of what variables are. -/
theorem lists_iff_of_sameCores (hm : m.Propagates) (h : Builds m config observations requests w)
    (h' : Builds m config observations requests' w') (hs : w.SameCores w') :
    w.Lists p c ↔ w'.Lists p c := by
  rw [← symmetric_of_reachable hm h.reachable, ← symmetric_of_reachable hm h'.reachable]
  constructor
  · intro hr
    exact hs.symm.reads_of_reads (fun n hn => absurd hn (by rw [h'.unmarked n]; nofun)) hr
  · intro hr
    exact hs.reads_of_reads (fun n hn => absurd hn (by rw [h.unmarked n]; nofun)) hr

end Builds

section Requests

variable {observations : List (Ident × Tensor Float)} {requests requests' : List Ident}

theorem scope_of_requests (hm : m.Propagates) (hs : m.sampler.Forced)
    (hd : m.Deterministic observed requests) : Scope m observed (m.Occurs observed requests) where
  propagates := hm
  forced := hs
  closed := .read
  deterministic := hd _ _

/-- Whatever comes up is there, and is what it evaluates to. -/
theorem Builds.evaluates (hS : Scope m (.ofList observations)
      (m.Occurs (.ofList observations) requests))
    (h : Builds m config observations requests w)
    (hn : m.Occurs (.ofList observations) requests n) :
    ∃ e v, m.Evaluates (.ofList observations) n e ∧ w.lookup? n = some v ∧
      v.core = e.variable config.transformConstrained := by
  obtain ⟨hfaithful, hthere⟩ := h.faithful hS fun k hk => .request hk
  obtain ⟨v, hv⟩ : ∃ v, w.lookup? n = some v := by
    induction hn with
    | request requested => exact hthere _ requested
    | @read n p reader asks ih =>
      -- the reader is there, it has run to its end, and so its reads are there
      obtain ⟨v, hv⟩ := ih
      obtain ⟨e, he, hcore⟩ := hS.evaluated hfaithful reader hv
      have hp := asks.mem (Model.evaluates_iff.1 he).1
      refine h.exists_parent hS.propagates hv ?_
      rw [(Evaluation.describes_of_core hcore).parents, OrderedSet.contains_ofList]
      exact List.contains_iff_exists_mem_beq.2 ⟨p, hp, BEq.refl p⟩
  obtain ⟨e, he, hcore⟩ := hS.evaluated hfaithful hn hv
  exact ⟨e, v, he, hv, hcore⟩

/-- What one list of requests has put there, another one with the same requests has put there as
well, up to who reads it. -/
theorem Builds.exists_core (hm : m.Propagates) (hs : m.sampler.Forced)
    (hd : m.Deterministic (.ofList observations) requests)
    (h : Builds m config observations requests w) (h' : Builds m config observations requests' w')
    (hsame : ∀ n, n ∈ requests' ↔ n ∈ requests) (hv : w.lookup? n = some v) :
    ∃ v', w'.lookup? n = some v' ∧ v'.core = v.core := by
  have hS := scope_of_requests hm hs hd
  have hoccurs : ∀ {k}, m.Occurs (.ofList observations) requests' k ↔
      m.Occurs (.ofList observations) requests k :=
    ⟨fun hk => hk.mono fun n hn => (hsame n).1 hn, fun hk => hk.mono fun n hn => (hsame n).2 hn⟩
  have hS' : Scope m (.ofList observations) (m.Occurs (.ofList observations) requests') :=
    scope_of_requests hm hs fun a b ha hb => hd a b (hoccurs.1 ha) (hoccurs.1 hb)
  -- the variable is what an identifier evaluates to that comes up in either case
  obtain ⟨hfaithful, -⟩ := h.faithful hS fun k hk => .request hk
  obtain ⟨n', e, hnn', hn', he, hcore⟩ := hfaithful.evaluated hv
  obtain ⟨e', v', he', hv', hcore'⟩ := h'.evaluates hS' (hoccurs.2 hn')
  obtain rfl := he.unique he'
  exact ⟨v', (lookup?_congr w' hnn').trans hv', hcore'.trans hcore.symm⟩

theorem Builds.sameCores (hm : m.Propagates) (hs : m.sampler.Forced)
    (hd : m.Deterministic (.ofList observations) requests)
    (h : Builds m config observations requests w) (h' : Builds m config observations requests' w')
    (hsame : ∀ n, n ∈ requests' ↔ n ∈ requests) : w.SameCores w' := by
  intro n
  cases hv : w.lookup? n with
  | some v =>
    obtain ⟨v', hv', hcore⟩ := h.exists_core hm hs hd h' hsame hv
    rw [hv', Option.map_some, hcore, Option.map_some]
  | none =>
    cases hv' : w'.lookup? n with
    | none => rfl
    | some v' =>
      -- then it would be there in the first world, too, by the same argument
      have hd' : m.Deterministic (.ofList observations) requests' := fun a b ha hb =>
        hd a b (ha.mono fun n hn => (hsame n).1 hn) (hb.mono fun n hn => (hsame n).1 hn)
      obtain ⟨v, hv₀, -⟩ := h'.exists_core hm hs hd' h (fun n => (hsame n).symm) hv'
      cases hv.symm.trans hv₀

/-- **Worlds agree with plain evaluation.**  Let draws depend on the distribution only, and let
programs be deterministic and end with an error as soon as a read fails.  In a world that is built
from fixed observations by requests that succeed, with changes accepted anywhere in between:
every variable has the value, distribution, log-probability and parents that its identifier
evaluates to by plain recursion; the variables that are there are exactly those that come up, that
is, are requested or are read by one that comes up; and the same requests in another order, if they
succeed as well, build the same variables with the same readers. -/
theorem builds_evaluated (hm : m.Propagates) (hs : m.sampler.Forced)
    (hd : m.Deterministic (.ofList observations) requests)
    (h : Builds m config observations requests w) :
    let observed := Table.ofList observations
    (∀ n v, w.lookup? n = some v → ∃ n' e, (n == n') = true ∧ m.Occurs observed requests n' ∧
        m.Evaluates observed n' e ∧ e.Describes v) ∧
      (∀ n, m.Occurs observed requests n → ∃ e v, m.Evaluates observed n e ∧
        w.live? n = some v ∧ e.Describes v) ∧
      ∀ requests' w', requests'.Perm requests → Builds m config observations requests' w' →
        w.SameCores w' ∧ ∀ p c, w.Lists p c ↔ w'.Lists p c := by
  have hS := scope_of_requests hm hs hd
  refine ⟨fun n v hv => ?_, fun n hn => ?_, fun requests' w' hperm h' => ?_⟩
  · obtain ⟨hfaithful, -⟩ := h.faithful hS fun k hk => .request hk
    obtain ⟨n', e, hnn', hn', he, hcore⟩ := hfaithful.evaluated hv
    exact ⟨n', e, hnn', hn', he, Evaluation.describes_of_core hcore⟩
  · obtain ⟨e, v, he, hv, hcore⟩ := h.evaluates hS hn
    exact ⟨e, v, he, (h.unmarked.live?_eq n).trans hv, Evaluation.describes_of_core hcore⟩
  · have hcores := h.sameCores hm hs hd h' fun n => hperm.mem_iff
    exact ⟨hcores, fun p c => h.lists_iff_of_sameCores hm h' hcores⟩

end Requests

/-! ## Two requests in either order -/

section Pairs

variable (m : Model) (observations : List (Ident × Tensor Float)) (n k : Ident)

/-- The world in which one variable has been requested and accepted. -/
def afterOne : World :=
  (update m ((World.new {}).observe observations).state n).state.accept.state

/-- The world in which another one has been requested after that. -/
def afterTwo : World := (update m (afterOne m observations n) k).state

/-- Whether both requests succeed. -/
def bothSucceed : Bool :=
  (update m ((World.new {}).observe observations).state n).result.isOk &&
    (update m (afterOne m observations n) k).result.isOk

variable {m observations n k}

theorem builds_afterTwo (h : bothSucceed m observations n k = true) :
    Builds m {} observations [n, k] (afterTwo m observations n k) := by
  obtain ⟨hn, hk⟩ := Bool.and_eq_true_iff.1 h
  exact ((Builds.start.request_of_isOk n hn).accept).request_of_isOk k hk

end Pairs

namespace Forked

/-- The value that `shared` is known to have. -/
def observations : List (Ident × Tensor Float) := [(shared, .scalar 0.5)]

/-- Programs look at names only. -/
theorem model_deterministic (observed : Table Ident (Tensor Float)) (requests : List Ident) :
    model.Deterministic observed requests := by
  intro n n' _ _ h
  have hname : n.name = n'.name := congrArg Ident.Key.name (Ident.beq_iff.1 h)
  simp only [model, hname]

end Forked

/-- Two readers that share an observed variable, requested in either order: the variable that
comes up in between is as it evaluates, and both worlds have the same variables and readers. -/
theorem builds_evaluated_forked :
    let observed := Table.ofList Forked.observations
    let w := afterTwo Forked.model Forked.observations Forked.early Forked.late
    let w' := afterTwo Forked.model Forked.observations Forked.late Forked.early
    Forked.model.Propagates ∧ Forked.model.sampler.Forced ∧
      Forked.model.Deterministic observed [Forked.early, Forked.late] ∧
      Builds Forked.model {} Forked.observations [Forked.early, Forked.late] w ∧
      Builds Forked.model {} Forked.observations [Forked.late, Forked.early] w' ∧
      w.Reads Forked.early Forked.shared ∧
      (∃ v n' e, w.lookup? Forked.shared = some v ∧ (Forked.shared == n') = true ∧
        Forked.model.Occurs observed [Forked.early, Forked.late] n' ∧
        Forked.model.Evaluates observed n' e ∧ e.Describes v) ∧
      w.SameCores w' ∧ ∀ p c, w.Lists p c ↔ w'.Lists p c := by
  intro observed w w'
  have hforced : Forked.model.sampler.Forced := fun _ _ => rfl
  have hdet := Forked.model_deterministic observed [Forked.early, Forked.late]
  have hw : Builds Forked.model {} Forked.observations [Forked.early, Forked.late] w := by
    apply builds_afterTwo
    decide +kernel
  have hw' : Builds Forked.model {} Forked.observations [Forked.late, Forked.early] w' := by
    apply builds_afterTwo
    decide +kernel
  have hthere : (w.lookup? Forked.shared).isSome = true := by decide +kernel
  obtain ⟨v, hv⟩ := Option.isSome_iff_exists.1 hthere
  obtain ⟨heach, -, horder⟩ := builds_evaluated Forked.model_propagates hforced hdet hw
  obtain ⟨n', e, hn', hoccurs, he, hdescribes⟩ := heach Forked.shared v hv
  obtain ⟨hcores, hlists⟩ := horder _ w' (List.Perm.swap ..) hw'
  exact ⟨Forked.model_propagates, hforced, hdet, hw, hw', by decide +kernel,
    ⟨v, n', e, hv, hn', hoccurs, he, hdescribes⟩, hcores, hlists⟩

namespace Spelled

/-- A variable that is read for one spelling of zero. -/
def root : Ident := ⟨"root", []⟩

/-- A variable with zero as its argument. -/
def plus : Ident := ⟨"leaf", [.float 0]⟩

/-- The same variable, with its argument spelled in another way. -/
def minus : Ident := ⟨"leaf", [.float (-0)]⟩

/-- Two variables; the program of the second one tells the two zeros apart. -/
def model : Model where
  program n :=
    match n.args with
    | [.float x] => if 1 / x < 0 then do return .uniform (← .readItem root) 1
      else return .uniform 0 1
    | _ => return .uniform 0 1
  sampler _ _ := .scalar 0.25

end Spelled

/-- If equal identifiers have different programs, it does matter which one is requested first. -/
example :
    let w := afterTwo Spelled.model [] Spelled.plus Spelled.minus
    let w' := afterTwo Spelled.model [] Spelled.minus Spelled.plus
    (Spelled.plus == Spelled.minus) = true ∧
      bothSucceed Spelled.model [] Spelled.plus Spelled.minus = true ∧
      bothSucceed Spelled.model [] Spelled.minus Spelled.plus = true ∧
      ¬ w.Reads Spelled.plus Spelled.root ∧ w'.Reads Spelled.plus Spelled.root := by
  decide +kernel

end World

end Stochastic
