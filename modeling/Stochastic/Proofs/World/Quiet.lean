import Stochastic.Proofs.World.Vain

/-!
# Runs that create and mark nothing

What executing a program again does to a world is in general hard to say: the program may have
variables created and revived, and dropping what it read before may mark others.  If none of
this happens, it can be said exactly.  The variable gets what its program comes to with the
values that are there, it is listed as a reader by the variables that are read now, and it is
taken from the lists of those that are not read any more.  All else stays as it is, up to the
traces of reads in vain.

A program that asks for a variable that is not there is then told that it cannot be generated, in
one way or another.  Most programs give up at this point.  One that does not may come to several
things; but if it can do without, it comes to one only.

## Main definitions

* `Program.consult` — what a program reads and comes to, if all that it asks for is there.
* `Program.Comes` — what a program may read and come to, if nothing is generated on the way.
* `Program.Candid` — a program that does not go on after a read in vain.
* `World.Yields`, `World.Leads` — the same for the program of a variable.
* `World.Relists` — a world that differs from another only in who reads what.
* `World.Reexecuted` — a world in which one variable has been executed again.

## Main results

* `Program.Comes.eq_of_consult` — what a program comes to if all that it asks for is there.
* `Program.Comes.still_reads` — a program that has read a variable reads it again if no value but
  its own is another one.
* `World.execute_clean` — executing a program.
* `World.reexecute_clean` — executing the program of a variable again.
-/

namespace Stochastic

/-! ## What programs come to -/

namespace Program

variable {α : Type} {self t : Ident} {values values' : Ident → Option (Tensor Float)}
  {program : Program α} {reads reads' : List Ident} {a a' : α}

/-- What the program of a variable is given by other variables and what it comes to, if these
have the given values.  A program that reads its own variable is told so; a variable that has no
value would have to be generated, and then there is no result. -/
def consult (self : Ident) (values : Ident → Option (Tensor Float)) :
    Program α → Option (List Ident × α)
  | .done a => some ([], a)
  | .fail _ => none
  | .ask n next =>
    if self == n then (next (.error (.cyclic n))).consult self values
    else match values n with
      | none => none
      | some v => ((next (.ok v)).consult self values).map fun result => (n :: result.1, result.2)

theorem consult_self {n : Ident} {next : Except World.Error (Tensor Float) → Program α}
    (h : (self == n) = true) :
    (Program.ask n next).consult self values = (next (.error (.cyclic n))).consult self values := by
  rw [consult, if_pos h]

theorem consult_other {n : Ident} {next : Except World.Error (Tensor Float) → Program α}
    (h : (self == n) = false) :
    (Program.ask n next).consult self values = match values n with
      | none => none
      | some v => ((next (.ok v)).consult self values).map fun result =>
        (n :: result.1, result.2) := by
  rw [consult, if_neg (Bool.eq_false_iff.1 h)]

/-- A read of another variable that is there, and then the rest of the program. -/
theorem consult_other_eq_some {n : Ident} {next : Except World.Error (Tensor Float) → Program α}
    (h : (self == n) = false)
    (hc : (Program.ask n next).consult self values = some (reads, a)) :
    ∃ v reads₁, values n = some v ∧ reads = n :: reads₁ ∧
      (next (.ok v)).consult self values = some (reads₁, a) := by
  rw [consult_other h] at hc
  cases hv : values n with
  | none =>
    rw [hv] at hc
    cases hc
  | some v =>
    rw [hv] at hc
    obtain ⟨⟨reads₁, b⟩, hrest, heq⟩ := Option.map_eq_some_iff.1 hc
    cases heq
    exact ⟨v, reads₁, rfl, rfl, hrest⟩

/-- What the program of a variable may be given by other variables and what it may come to, if
these have the given values.  A variable that has no value cannot be generated, for whatever
reason. -/
inductive Comes (self : Ident) (values : Ident → Option (Tensor Float)) :
    Program α → List Ident → α → Prop where
  | done (a : α) : Comes self values (.done a) [] a
  | self {n next reads a} (hn : (self == n) = true)
      (h : Comes self values (next (.error (.cyclic n))) reads a) :
      Comes self values (.ask n next) reads a
  | there {n next v reads a} (hn : (self == n) = false) (hv : values n = some v)
      (h : Comes self values (next (.ok v)) reads a) :
      Comes self values (.ask n next) (n :: reads) a
  | missing {n next e reads a} (hn : (self == n) = false) (hv : values n = none)
      (h : Comes self values (next (.error e)) reads a) :
      Comes self values (.ask n next) reads a

namespace Comes

theorem of_consult (h : program.consult self values = some (reads, a)) :
    Comes self values program reads a := by
  induction program generalizing reads with
  | done b =>
    cases h
    exact .done _
  | fail e => cases h
  | ask n next ih =>
    cases hn : self == n with
    | true =>
      rw [consult_self hn] at h
      exact .self hn (ih _ h)
    | false =>
      obtain ⟨v, reads₁, hv, rfl, hrest⟩ := consult_other_eq_some hn h
      exact .there hn hv (ih _ hrest)

/-- A program is given the values of other variables only, and these have values. -/
theorem exists_value (h : Comes self values program reads a) {n : Ident} (hn : n ∈ reads) :
    (self == n) = false ∧ ∃ v, values n = some v := by
  induction h with
  | done => cases hn
  | self _ _ ih => exact ih hn
  | there hk hv _ ih =>
    rcases List.mem_cons.1 hn with rfl | hn
    · exact ⟨hk, _, hv⟩
    · exact ih hn
  | missing _ _ _ ih => exact ih hn

/-- If all that it asks for is there, a program comes to one thing only. -/
theorem eq_of_consult (h : Comes self values program reads' a')
    (hc : program.consult self values = some (reads, a)) : reads' = reads ∧ a' = a := by
  induction h generalizing reads with
  | done =>
    cases hc
    exact ⟨rfl, rfl⟩
  | self hn _ ih =>
    rw [consult_self hn] at hc
    exact ih hc
  | there hn hv _ ih =>
    obtain ⟨v, reads₁, hv', rfl, hrest⟩ := consult_other_eq_some hn hc
    cases hv.symm.trans hv'
    obtain ⟨rfl, rfl⟩ := ih hrest
    exact ⟨rfl, rfl⟩
  | missing hn hv _ _ =>
    obtain ⟨v, reads₁, hv', -, -⟩ := consult_other_eq_some hn hc
    cases hv.symm.trans hv'

/-- A program that has read `t` reads it again if no value but that of `t` is another one: up to
the first read of `t` it is answered as before. -/
theorem still_reads (h : Comes self values' program reads' a')
    (hvalues : ∀ n, (t == n) = false → values' n = values n)
    (ht' : ∀ n, (t == n) = true → ∃ v, values' n = some v)
    (hc : program.consult self values = some (reads, a)) (ht : reads.contains t = true) :
    reads'.contains t = true := by
  induction h generalizing reads with
  | done =>
    cases hc
    cases ht
  | self hn _ ih =>
    rw [consult_self hn] at hc
    exact ih hc ht
  | @there n _ _ _ _ hn hv' _ ih =>
    obtain ⟨v, reads₁, hv, rfl, hrest⟩ := consult_other_eq_some hn hc
    rw [List.contains_cons, Bool.or_eq_true] at ht ⊢
    by_cases htn : (t == n) = true
    · exact .inl htn
    · rw [hvalues n (Bool.eq_false_iff.2 htn), hv] at hv'
      cases hv'
      exact .inr (ih hrest (ht.resolve_left htn))
  | @missing n _ _ _ _ hn hv' _ _ =>
    -- what was there the first time is there now
    obtain ⟨v, reads₁, hv, -, -⟩ := consult_other_eq_some hn hc
    cases htn : t == n with
    | true =>
      obtain ⟨x, hx⟩ := ht' n htn
      cases hv'.symm.trans hx
    | false =>
      rw [hvalues n htn, hv] at hv'
      cases hv'

end Comes

/-- The program does not go on after a read in vain: it ends with an error once a read has failed,
or all that it asks for is there. -/
def Candid (self : Ident) (values : Ident → Option (Tensor Float)) (program : Program α) : Prop :=
  program.Propagates ∨ (program.consult self values).isSome = true

/-- What comes after a read of the program's own variable. -/
theorem Candid.after_self {n : Ident} {next : Except World.Error (Tensor Float) → Program α}
    (h : (Program.ask n next).Candid self values) (hn : (self == n) = true) :
    (next (.error (.cyclic n))).Candid self values := by
  rcases h with ⟨hfail, -⟩ | h
  · obtain ⟨e, he⟩ := hfail (.cyclic n)
    rw [he]
    exact .inl trivial
  · rw [consult_self hn] at h
    exact .inr h

/-- What comes after a read of another variable that is there. -/
theorem Candid.after_other {n : Ident} {next : Except World.Error (Tensor Float) → Program α}
    {v : Tensor Float} (h : (Program.ask n next).Candid self values) (hn : (self == n) = false)
    (hv : values n = some v) : (next (.ok v)).Candid self values := by
  rcases h with ⟨-, hgo⟩ | h
  · exact .inl (hgo v)
  · rw [consult_other hn, hv, Option.isSome_map] at h
    exact .inr h

/-- A program that goes on after a read in vain is not of this kind. -/
theorem Candid.exists_fail {n : Ident} {next : Except World.Error (Tensor Float) → Program α}
    (h : (Program.ask n next).Candid self values) (hn : (self == n) = false)
    (hv : values n = none) (e : World.Error) : ∃ e', next (.error e) = .fail e' := by
  rcases h with ⟨hfail, -⟩ | h
  · exact hfail e
  · rw [consult_other hn, hv] at h
    cases h

end Program

namespace World

variable {w w' w'' : World} {r r' r'' : Run} {m : Model} {n k c p t : Ident} {v : Variable}
  {names : Ident → Prop}

/-- With the given values of variables, the program of `c` reads the variables in `parents`, finds
all that it asks for, and comes to the distribution `d`. -/
def Yields (m : Model) (values : Ident → Option (Tensor Float)) (c : Ident) (d : Distribution)
    (parents : OrderedSet Ident) : Prop :=
  ∃ reads, (m.program c).consult c values = some (reads, d) ∧
    ∀ p, parents.contains p = reads.contains p

/-- With the given values of variables, the program of `c` may read the variables in `parents` and
come to the distribution `d`, without any variable being generated. -/
def Leads (m : Model) (values : Ident → Option (Tensor Float)) (c : Ident) (d : Distribution)
    (parents : OrderedSet Ident) : Prop :=
  ∃ reads, (m.program c).Comes c values reads d ∧ ∀ p, parents.contains p = reads.contains p

theorem Yields.leads {values : Ident → Option (Tensor Float)} {d : Distribution}
    {parents : OrderedSet Ident} (h : Yields m values c d parents) :
    Leads m values c d parents := by
  obtain ⟨reads, hc, hp⟩ := h
  exact ⟨reads, .of_consult hc, hp⟩

namespace Leads

variable {values values' : Ident → Option (Tensor Float)} {d d' : Distribution}
  {parents parents' : OrderedSet Ident}

theorem eq_of_yields (h' : Leads m values c d' parents') (h : Yields m values c d parents) :
    d' = d ∧ ∀ p, parents'.contains p = parents.contains p := by
  obtain ⟨reads, hc, hp⟩ := h
  obtain ⟨reads', hc', hp'⟩ := h'
  obtain ⟨rfl, rfl⟩ := hc'.eq_of_consult hc
  exact ⟨rfl, fun p => (hp' p).trans (hp p).symm⟩

theorem exists_value (h : Leads m values c d parents) (hp : parents.contains p = true) :
    (c == p) = false ∧ ∃ n, (p == n) = true ∧ ∃ x, values n = some x := by
  obtain ⟨reads, hc, hreads⟩ := h
  rw [hreads] at hp
  obtain ⟨n, hn, hpn⟩ := List.contains_iff_exists_mem_beq.1 hp
  obtain ⟨hself, hx⟩ := hc.exists_value hn
  exact ⟨Bool.eq_false_iff.2 fun hcp => Bool.eq_false_iff.1 hself (BEq.trans hcp hpn), n, hpn, hx⟩

/-- A variable that is read is read again if no value but its own is another one. -/
theorem still_reads (h' : Leads m values' c d' parents') (h : Yields m values c d parents)
    (hvalues : ∀ n, (t == n) = false → values' n = values n)
    (ht' : ∀ n, (t == n) = true → ∃ v, values' n = some v)
    (ht : parents.contains t = true) : parents'.contains t = true := by
  obtain ⟨reads, hc, hp⟩ := h
  obtain ⟨reads', hc', hp'⟩ := h'
  rw [hp] at ht
  rw [hp']
  exact hc'.still_reads hvalues ht' hc ht

end Leads

/-! ## Executing a program -/

/-- The names in question are names of variables that are there, unless the program stops at the
first read in vain. -/
def Certain (names : Ident → Prop) (w : World) (self : Ident) {α : Type} (program : Program α) :
    Prop :=
  ∀ a, names a → w.contains a = true ∨ program.Candid self w.known

theorem Certain.of_known_eq {α : Type} {program : Program α} {self : Ident}
    (h : Certain names w self program) (hk : w'.known = w.known) :
    Certain names w' self program := by
  intro a ha
  rw [contains_eq_of_known hk, hk]
  exact h a ha

/-- A program that goes on after it has asked for a variable that is not there is told that there
is none.  Then the names in question are names of variables that are there, and none of them has
become a reader. -/
theorem gains_of_missing {α : Type} {next : Except World.Error (Tensor Float) → Program α}
    {depth : Nat} {self : Ident} {answer : Except World.Error (Tensor Float)} {a : α} {r₁ : Run}
    (hu : r.world.Unmarked) (hk : Certain names r.world self (.ask n next))
    (hself : (self == n) = false) (hstack : (r.frames.any fun f => f.node == n) = false)
    (hn : r.world.lookup? n = none)
    (hattempt : (read m (execute m depth) n).attempt r = .ok answer r₁)
    (hrest : (next answer).run (fun p => (read m (execute m depth) p).attempt) throw r₁ = .ok a r')
    (hclean : r'.Clean) :
    ∃ e, answer = .error e ∧ r₁.frames = r.frames ∧
      (∀ b, names b → r.world.contains b = true) ∧
      Gains names (fun _ _ => false) r.world r₁.world := by
  have hex := execute_proceeds m depth
  have hclean₁ : r₁.Clean := clean_of_moves (moves_of_run hex hrest) hclean
  have hafter : (read m (execute m depth) n).after r = r₁ := by
    rw [← Step.after_attempt, Step.after_eq_of_ok hattempt]
  obtain ⟨e, hread⟩ := read_missing hstack hn (hafter ▸ hclean₁)
  have hfail : (read m (execute m depth) n).attempt r =
      .ok (.error e) ((execute m depth n).after r) := by
    rw [Step.attempt, hread]
  cases hfail.symm.trans hattempt
  have hvalue : r.world.known n = none := by rw [known, hn, Option.map_none]
  have hthere : ∀ b, names b → r.world.contains b = true := fun b hb => by
    rcases hk b hb with h | hcandid
    · exact h
    · obtain ⟨e', he'⟩ := hcandid.exists_fail hself hvalue e
      rw [he'] at hrest
      exact absurd hrest Step.throw_ne_ok
  exact ⟨e, rfl, (hex n r).1.2, hthere, gains_execute m depth hu hn hthere hclean₁⟩

/-- **A program that is run without anything being generated.**  It reads and comes to what it may
do when it is answered with the values that are there, and the variables that it reads list
its own as a reader. -/
theorem run_clean {α : Type} {program : Program α} {depth : Nat} {a : α} {f : Frame}
    (hf : r.frames = [f]) (hu : r.world.Unmarked) (hk : Certain names r.world f.node program)
    (ho : program.run (fun p => (read m (execute m depth) p).attempt) throw r = .ok a r')
    (hclean : r'.Clean) :
    ∃ reads parents, program.Comes f.node r.world.known reads a ∧
      r'.frames = [{ f with parents }] ∧
      (∀ p, parents.contains p = (f.parents.contains p || reads.contains p)) ∧
      Gains names (fun k b => reads.contains k && b == f.node) r.world r'.world := by
  induction program generalizing r f with
  | done b =>
    obtain ⟨rfl, rfl⟩ := Step.pure_eq_ok.1 ho
    exact ⟨[], f.parents, .done _, hf, fun p => (Bool.or_false _).symm, .refl _⟩
  | fail e => exact absurd ho Step.throw_ne_ok
  | ask n next ih =>
    obtain ⟨answer, r₁, hattempt, hrest⟩ := Step.bind_eq_ok.1 ho
    have hstack : (r.frames.any fun f => f.node == n) = (f.node == n) := by
      rw [hf, List.any_cons, List.any_nil, Bool.or_false]
    cases hn : f.node == n with
    | true =>
      have hself : (read m (execute m depth) n).attempt r = .ok (.error (.cyclic n)) r := by
        rw [Step.attempt, read_running m _ (hstack.trans hn)]
      cases hself.symm.trans hattempt
      obtain ⟨reads, parents, hc, hrun⟩ :=
        ih _ hf hu (fun b hb => (hk b hb).imp_right fun hcand => hcand.after_self hn) hrest
      exact ⟨reads, parents, .self hn hc, hrun⟩
    | false =>
      have hstack := hstack.trans hn
      cases hv : r.world.lookup? n with
      | some v =>
        have hvalue : r.world.known n = some v.value := by rw [known, hv, Option.map_some]
        obtain ⟨r₂, hread, hf₂, hgains⟩ :=
          read_there names m (execute m depth) hf hu hstack hv
        have hok : (read m (execute m depth) n).attempt r = .ok (.ok v.value) r₂ := by
          rw [Step.attempt, hread]
        cases hok.symm.trans hattempt
        have hafter : Certain names r.world f.node (next (.ok v.value)) := fun b hb =>
          (hk b hb).imp_right fun hcand => hcand.after_other hn hvalue
        obtain ⟨reads, parents, hc, hf', hparents, hgains'⟩ :=
          ih _ hf₂ (hgains.unmarked hu) (hafter.of_known_eq hgains.known_eq) hrest
        rw [hgains.known_eq] at hc
        refine ⟨n :: reads, parents, .there hn hvalue hc, hf', fun p => ?_, ?_⟩
        · rw [hparents p, OrderedSet.contains_insert, List.contains_cons, Bool.or_assoc]
        · refine (hgains.trans hgains').congr fun k b _ => ?_
          rw [List.contains_cons, Bool.and_or_distrib_right, BEq.comm]
      | none =>
        have hvalue : r.world.known n = none := by rw [known, hv, Option.map_none]
        obtain ⟨e, rfl, hf₁, hthere, hgains⟩ :=
          gains_of_missing hu hk hn hstack hv hattempt hrest hclean
        have hafter : Certain names r.world f.node (next (.error e)) := fun b hb =>
          .inl (hthere b hb)
        obtain ⟨reads, parents, hc, hf', hparents, hgains'⟩ :=
          ih _ (hf₁.trans hf) (hgains.unmarked hu) (hafter.of_known_eq hgains.known_eq) hrest
        rw [hgains.known_eq] at hc
        exact ⟨reads, parents, .missing hn hvalue hc, hf', hparents, hgains.trans hgains'⟩

/-- **The program of a variable, executed without anything being generated.** -/
theorem execute_clean {depth : Nat} {d : Distribution} {parents : OrderedSet Ident}
    (hf : r.frames = []) (hu : r.world.Unmarked) (hk : Certain names r.world c (m.program c))
    (ho : execute m depth c r = .ok (d, parents) r') (hclean : r'.Clean) :
    r'.frames = [] ∧ Leads m r.world.known c d parents ∧
      Gains names (fun k a => parents.contains k && a == c) r.world r'.world := by
  cases depth with
  | zero => cases ho
  | succ depth =>
    obtain ⟨r₁, hbody, rfl, rfl⟩ := execute_succ_eq_ok ho
    have hframes : (⟨c, .empty⟩ :: r.frames : List Frame) = [⟨c, .empty⟩] := by rw [hf]
    obtain ⟨reads, ps, hc, hf₁, hps, hgains⟩ :=
      run_clean (r := { r with frames := ⟨c, .empty⟩ :: r.frames }) hframes hu hk hbody hclean
    have hparents : ∀ p, ps.contains p = reads.contains p := fun p =>
      (hps p).trans (Bool.false_or _)
    rw [hf₁]
    refine ⟨rfl, ⟨reads, hc, hparents⟩, hgains.congr fun k a _ => ?_⟩
    rw [← hparents]
    rfl

/-! ## Dropping what is not read any more -/

/-- The variables of both worlds are the same, up to who reads them, which `change` tells. -/
structure Relists (change : Ident → OrderedSet Ident → OrderedSet Ident) (w w' : World) :
    Prop where
  lookup?_eq : ∀ k, w'.lookup? k =
    (w.lookup? k).map fun v => { v with children := change k v.children }
  marks : ∀ k, w'.overlay.isMarked k = w.overlay.isMarked k

namespace Relists

variable {f g : Ident → OrderedSet Ident → OrderedSet Ident}

theorem refl (w : World) : Relists (fun _ s => s) w w :=
  ⟨fun k => by cases w.lookup? k <;> rfl, fun _ => rfl⟩

theorem trans (h : Relists f w w') (h' : Relists g w' w'') :
    Relists (fun k s => g k (f k s)) w w'' := by
  refine ⟨fun k => ?_, fun k => (h'.marks k).trans (h.marks k)⟩
  rw [h'.lookup?_eq, h.lookup?_eq, Option.map_map]
  rfl

theorem congr (h : Relists f w w')
    (hfg : ∀ k v, w.lookup? k = some v → f k v.children = g k v.children) : Relists g w w' := by
  refine ⟨fun k => ?_, h.marks⟩
  rw [h.lookup?_eq]
  cases hv : w.lookup? k with
  | none => rfl
  | some v => rw [Option.map_some, Option.map_some, hfg k v hv]

theorem unmarked (h : Relists f w w') (hw : w.Unmarked) : w'.Unmarked :=
  fun k => (h.marks k).trans (hw k)

end Relists

theorem relists_relist (hv : r.world.lookup? n = some v)
    (change : OrderedSet Ident → OrderedSet Ident) :
    Relists (fun k s => if n == k then change s else s) r.world
      (r.relist n v (change v.children)).world := by
  refine ⟨fun k => ?_, fun k => isMarked_relist ..⟩
  rw [lookup?_relist]
  by_cases hk : (n == k) = true
  · rw [if_pos hk, ← lookup?_congr _ hk, hv, Option.map_some, if_pos hk]
  · simp only [if_neg hk]
    cases r.world.lookup? k <;> rfl

/-- The readers of a variable with `c` taken away if the variable is among those dropped. -/
def unlinked (c : Ident) (ps : List Ident) (k : Ident) (s : OrderedSet Ident) : OrderedSet Ident :=
  if ps.contains k then s.erase c else s

theorem unlinked_unlinked {ps : List Ident} (hp : ∀ q ∈ ps, (q == p) = false) (k : Ident)
    (s : OrderedSet Ident) : unlinked c ps k (unlinked c [p] k s) = unlinked c (p :: ps) k s := by
  unfold unlinked
  rw [List.contains_cons, List.contains_cons, List.contains_nil, Bool.or_false]
  cases hkp : k == p with
  | false => rfl
  | true =>
    -- what equals `p` is not dropped a second time
    have hk : ¬ ps.contains k = true := fun hk => by
      obtain ⟨q, hq, hkq⟩ := List.contains_iff_exists_mem_beq.1 hk
      exact Bool.eq_false_iff.1 (hp q hq) (BEq.trans (BEq.symm hkq) hkp)
    rw [if_neg hk]
    rfl

/-- A variable that loses a reader and is not marked for it has one reader less. -/
theorem detach_clean (ho : detach c p r = .ok () r') (hclean : r'.Clean) :
    r'.frames = r.frames ∧ Relists (unlinked c [p]) r.world r'.world := by
  change detachWithin (r.world.size + 1) c p r = _ at ho
  rw [detachWithin_succ] at ho
  cases hv : r.world.lookup? p with
  | none =>
    rw [hv] at ho
    cases ho
  | some v =>
    rw [hv] at ho
    simp only at ho
    by_cases ha : (r.relist p v (v.children.erase c)).abandons p (v.children.erase c) = true
    · rw [if_pos ha] at ho
      have hsheds : Sheds (((r.relist p v (v.children.erase c)).marking p).write (markLine p)) r' :=
        Step.after_eq_of_ok ho ▸
          Step.after_forM Sheds.refl Sheds.trans (sheds_detachWithin r.world.size p) _
      exact absurd (clean_of_moves hsheds.moves hclean) (not_clean_marking _ _)
    · rw [if_neg ha] at ho
      cases ho
      refine ⟨Run.frames_relist .., (relists_relist hv (·.erase c)).congr fun k u _ => ?_⟩
      rw [unlinked, List.contains_cons, List.contains_nil, Bool.or_false, BEq.comm]

theorem forM_detach_clean {ps : List Ident} (hps : ps.Pairwise fun a b => (b == a) = false)
    (ho : (ps.forM (detach c) : Step Unit) r = .ok () r') (hclean : r'.Clean) :
    r'.frames = r.frames ∧ Relists (unlinked c ps) r.world r'.world := by
  induction ps generalizing r with
  | nil =>
    obtain rfl := Step.forM_nil_eq_ok.1 ho
    exact ⟨rfl, Relists.refl _⟩
  | cons p ps ih =>
    obtain ⟨r₁, hp, hrest⟩ := Step.forM_cons_eq_ok.1 ho
    obtain ⟨hhead, hps⟩ := List.pairwise_cons.1 hps
    obtain ⟨hf₁, hrel₁⟩ := detach_clean hp (clean_of_moves (sheds_forM_detach hrest).moves hclean)
    obtain ⟨hf', hrel'⟩ := ih hps hrest
    exact ⟨hf'.trans hf₁, (hrel₁.trans hrel').congr fun k u _ => unlinked_unlinked hhead k _⟩

/-! ## Executing a variable again -/

theorem contains_dropped (v : Variable) (parents : OrderedSet Ident) (k : Ident) :
    (dropped v parents).contains k = (v.parents.contains k && !parents.contains k) := by
  rw [Bool.eq_iff_iff, Bool.and_eq_true, Bool.not_eq_true', dropped, OrderedSet.contains,
    List.contains_iff_exists_mem_beq, List.contains_iff_exists_mem_beq]
  simp only [List.mem_filter, Bool.not_eq_true']
  constructor
  · rintro ⟨p, ⟨hp, hnew⟩, hkp⟩
    exact ⟨⟨p, hp, hkp⟩, (OrderedSet.contains_congr parents hkp).trans hnew⟩
  · rintro ⟨⟨p, hp, hkp⟩, hnew⟩
    exact ⟨p, ⟨hp, (OrderedSet.contains_congr parents hkp).symm.trans hnew⟩, hkp⟩

/-- The readers of a variable after `c` has been executed again: `c` is one of them if it reads
the variable now, and is not if it only did before. -/
def relinked (c : Ident) (old new : OrderedSet Ident) (k : Ident) (s : OrderedSet Ident) :
    OrderedSet Ident :=
  if new.contains k then s.insert c else if old.contains k then s.erase c else s

/-- A variable `u`, found under `k`, and what has become of it after `c` has been executed again,
which read `old` and now reads `new`: if it is `c` itself it has what the program has come to, and
`c` may have come or gone as a reader. -/
structure Revisited (names : Ident → Prop) (c : Ident) (d : Distribution)
    (old new : OrderedSet Ident) (k : Ident) (u u' : Variable) : Prop where
  core : u'.core = (if c == k then revised u d new else u).core
  contains : ∀ a, names a →
    u'.children.contains a = (relinked c old new k u.children).contains a
  readers : new.contains k = true → u.children.toList <+: u'.children.toList

/-- Between two worlds without marks, `c` has been executed again.  It was `v`, and its program
has come to `d` and read `new`. -/
structure Reexecuted (m : Model) (names : Ident → Prop) (c : Ident) (v : Variable)
    (d : Distribution) (new : OrderedSet Ident) (w w' : World) : Prop where
  unmarked : w.Unmarked
  unmarked' : w'.Unmarked
  found : w.lookup? c = some v
  leads : Leads m w.known c d new
  revisited : ∀ k, Option.Rel (Revisited names c d v.parents new k) (w.lookup? k) (w'.lookup? k)

/-- What the readers that are added and those that are dropped come to. -/
theorem contains_unlinked {u u₁ : Variable} {new : OrderedSet Ident} {a : Ident}
    (hg : Gained names (fun a => new.contains k && a == c) u u₁) (ha : names a) (v : Variable) :
    (unlinked c (dropped v new) k u₁.children).contains a =
      (relinked c v.parents new k u.children).contains a := by
  have hcontains := hg.contains a ha
  unfold unlinked relinked
  rw [contains_dropped]
  cases hnew : new.contains k with
  | true =>
    rw [hnew, Bool.true_and] at hcontains
    rw [Bool.not_true, Bool.and_false, if_neg Bool.false_ne_true, if_pos rfl, hcontains,
      OrderedSet.contains_insert]
  | false =>
    rw [hnew, Bool.false_and, Bool.or_false] at hcontains
    rw [Bool.not_false, Bool.and_true, if_neg Bool.false_ne_true]
    split
    · rw [OrderedSet.contains_erase, OrderedSet.contains_erase, hcontains]
    · exact hcontains

theorem revisited_of_gained {u u₁ : Variable} {d : Distribution} {new : OrderedSet Ident}
    (hg : Gained names (fun a => new.contains k && a == c) u u₁) (v : Variable) :
    Revisited names c d v.parents new k u
      { if c == k then revised u₁ d new else u₁ with
        children := unlinked c (dropped v new) k u₁.children } where
  core := by
    rw [hg.eq_with]
    split <;> rfl
  contains _ ha := contains_unlinked hg ha v
  readers hk := by
    have hkept : (dropped v new).contains k = false := by
      rw [contains_dropped, hk, Bool.not_true, Bool.and_false]
    rw [unlinked, hkept]
    exact hg.readers

/-- **A variable that is executed again without anything being generated or marked.**  It has
what its program comes to, and its readers and those of all others are as they were, up to the
links from the variable itself. -/
theorem reexecute_clean (hf : r.frames = []) (hu : r.world.Unmarked)
    (hk : Certain names r.world c (m.program c)) (hv : r.world.lookup? c = some v)
    (ho : reexecute m c r = .ok () r') (hclean : r'.Clean) :
    r'.frames = [] ∧ ∃ d new, Reexecuted m names c v d new r.world r'.world := by
  obtain ⟨d, new, r₁, v₁, hx, hv₁, hd⟩ := reexecute_eq_ok.1 ho
  have hclean₁ : r₁.Clean := clean_of_replace (clean_of_moves (sheds_forM_detach hd).moves hclean)
  obtain ⟨hf₁, hleads, hgains⟩ := execute_clean hf hu hk hx hclean₁
  have hdistinct : (dropped v₁ new).Pairwise fun a b => (b == a) = false :=
    v₁.parents.distinct.sublist List.filter_sublist
  obtain ⟨hf', hrel'⟩ := forM_detach_clean hdistinct hd hclean
  have hmarks : r'.world.Unmarked := hrel'.unmarked fun k =>
    (isMarked_replace ..).trans (hgains.unmarked hu k)
  refine ⟨hf'.trans ((Run.frames_replace ..).trans hf₁), d, new, hu, hmarks, hv, hleads,
    fun k => ?_⟩
  obtain ⟨v₂, hv₂, hgv⟩ := hgains.exists_gained hv
  cases hv₁.symm.trans hv₂
  rw [hrel'.lookup?_eq, lookup?_replace, ← parents_of_core hgv.core]
  cases hu₀ : r.world.lookup? k with
  | none =>
    have hne : (c == k) = false := BEq.comm.trans (beq_eq_false_of_lookup? hu₀ hv)
    rw [hne, hgains.lookup?_eq_none hu₀]
    exact .none
  | some u =>
    obtain ⟨u₁, hu₁, hg⟩ := hgains.exists_gained hu₀
    have hrevisited := revisited_of_gained (d := d) hg v₁
    by_cases hck : (c == k) = true
    · rw [lookup?_congr _ hck, hu₁] at hv₁
      cases hv₁
      rw [if_pos hck] at hrevisited ⊢
      exact .some hrevisited
    · rw [if_neg hck] at hrevisited ⊢
      rw [hu₁]
      exact .some hrevisited

end World

end Stochastic
