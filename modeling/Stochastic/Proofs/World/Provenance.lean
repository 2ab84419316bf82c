import Stochastic.World.Variable

/-!
# What a variable keeps of its past

Five fields of a variable are computed from its distribution and its value.  A new value refreshes
all of them that depend on the value, under the transforms that are there.  A new distribution
refreshes the log-probability and whether the variable is discrete; the transforms, and with them
the value on the real line and the Jacobian, stay as they are.

So all that a variable keeps of its past are the transforms of the distribution that it was created
with, whatever has become of it since.  It is as good as new exactly if these are the transforms
of its present distribution.  Otherwise a discrete variable may be moved to the real line, and a
score may contain the Jacobian of a support that the variable no longer has.

## Main definitions

* `Distribution.transforms` — the transforms of a new variable with a distribution.
* `Variable.Change`, `Variable.change` — a new value, or a new distribution.
* `Variable.movedBy` — the variable with given transforms, all else computed from its distribution
  and its value.

## Main results

* `Variable.foldl_change` — a variable after any changes.
* `Variable.changed_eq_create_iff` — when it is the one that would be created now.
* `Variable.changed_ne_create_recast` — a discrete variable with the transform of a positive one.
-/

namespace Stochastic

/-- The transforms of a variable that is created with a distribution, if transforms are wanted. -/
def Distribution.transforms (d : Distribution) (wanted : Bool) : List Transform :=
  if d.isDiscrete then [] else d.support.transforms wanted

namespace Variable

/-- A change that computes fields of a variable anew. -/
inductive Change where
  | value (x : Tensor Float)
  | distribution (d : Distribution)

/-- The value that a change brings. -/
def Change.value? : Change → Option (Tensor Float)
  | .value x => some x
  | .distribution _ => none

/-- The distribution that a change brings. -/
def Change.distribution? : Change → Option Distribution
  | .value _ => none
  | .distribution d => some d

/-- Makes a change. -/
def change (v : Variable) : Change → Variable
  | .value x => v.setValue x
  | .distribution d => v.setDistribution d

/-- A variable that nothing reads, with the given transforms.  Its other fields are computed from
its distribution and its value. -/
def movedBy (ts : List Transform) (d : Distribution) (x : Tensor Float)
    (parents : OrderedSet Ident) : Variable :=
  { distribution := d
    value := x
    logProb := d.logProb x
    parents
    children := .empty
    proposal := none
    isDiscrete := d.isDiscrete
    transforms := ts
    unconstrained := (Transform.unconstrain ts x).1
    jacobian := (Transform.unconstrain ts x).2 }

variable (ts : List Transform) (d : Distribution) (x : Tensor Float) (parents : OrderedSet Ident)

/-- A new variable has the transforms of its distribution. -/
theorem create_eq_movedBy (wanted : Bool) :
    create d x parents wanted = movedBy (d.transforms wanted) d x parents := rfl

@[simp] theorem change_value (x' : Tensor Float) :
    (movedBy ts d x parents).change (.value x') = movedBy ts d x' parents := rfl

@[simp] theorem change_distribution (d' : Distribution) :
    (movedBy ts d x parents).change (.distribution d') = movedBy ts d' x parents := rfl

/-- **After any changes** a variable has the last value and the last distribution that it was
given, and the transforms that it had in the beginning. -/
theorem foldl_change (changes : List Change) :
    changes.foldl change (movedBy ts d x parents) =
      movedBy ts ((changes.filterMap Change.distribution?).getLastD d)
        ((changes.filterMap Change.value?).getLastD x) parents := by
  induction changes generalizing d x with
  | nil => rfl
  | cons c changes ih =>
    -- each change replaces one of the two, and the later ones are made to what it leaves
    cases c with
    | value x' =>
      simp only [List.foldl_cons, change_value, ih, List.filterMap_cons, Change.value?,
        Change.distribution?, List.getLastD_cons]
    | distribution d' =>
      simp only [List.foldl_cons, change_distribution, ih, List.filterMap_cons, Change.value?,
        Change.distribution?, List.getLastD_cons]

theorem movedBy_inj {ts ts' : List Transform} :
    movedBy ts d x parents = movedBy ts' d x parents ↔ ts = ts' := by
  constructor
  · intro h
    exact congrArg Variable.transforms h
  · rintro rfl
    rfl

/-- **A variable remembers the transforms that it was created with, and nothing else.**  After any
changes, it has the last value and distribution, and their log-probability; but the transforms, by
which the value on the real line and the Jacobian are computed, are those of the first distribution.
So it is the variable that would be created now exactly if the first and the last distribution have
the same transforms. -/
theorem changed_eq_create_iff (wanted : Bool) (changes : List Change) :
    let v := changes.foldl change (create d x parents wanted)
    let d' := (changes.filterMap Change.distribution?).getLastD d
    let x' := (changes.filterMap Change.value?).getLastD x
    v = movedBy (d.transforms wanted) d' x' parents ∧
      (v = create d' x' parents wanted ↔ d.transforms wanted = d'.transforms wanted) := by
  intro v d' x'
  have hv : v = movedBy (d.transforms wanted) d' x' parents := foldl_change ..
  refine ⟨hv, ?_⟩
  rw [hv, create_eq_movedBy, movedBy_inj]

/-- A positive variable that becomes discrete keeps its transform, which no discrete variable is
created with. -/
theorem changed_ne_create_recast :
    let v := (create (.halfNormal 1) (.scalar 2) .empty true).change
      (.distribution (.binomial 3 0.5))
    v.isDiscrete = true ∧ v.transforms = [.log] ∧
      (create v.distribution v.value v.parents true).transforms = [] ∧
      v ≠ create v.distribution v.value v.parents true := by
  refine ⟨rfl, rfl, rfl, fun h => ?_⟩
  have ht := congrArg Variable.transforms h
  cases ht

end Variable

end Stochastic
