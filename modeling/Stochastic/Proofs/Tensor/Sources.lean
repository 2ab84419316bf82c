import Stochastic.Proofs.Graph.Restore
import Stochastic.Proofs.Tensor.Bounds

/-!
# Where tensors come from

A tensor is made of a shape and elements, by one of the other constructors, from other tensors
element by element, or it is read: from a text of its own, or as the value of a node of a stored
graph.  The constructors check or compute the shape, and elementwise operations keep the number of
elements equal to it.  But a shape that is checked is multiplied in words, so it may hold far more
elements than are there.  Reading checks nothing: what is read is well formed exactly if the text
lists as many elements as its axis lengths multiply to.

## Main definitions

* `Source`, `Source.tensor?` — the ways to get a tensor, and the tensor that one gets.
* `Source.written?`, `Json.Fits` — the value from which a tensor is read, and whether its axis
  lengths fit its elements.
* `Source.Fits` — the axis lengths that are given or written fit the elements.
* `NodeKind.label?` — the label of a node, where all slices of its value must be there.

## Main results

* `Source.wellFormed_iff_fits` — when all tensors are well formed, and what can be relied on then.
* `Source.not_wellFormed_short` — a text that is read although it lists too few elements, and a
  shape that is taken although it holds more.
-/

namespace Stochastic

open JsonForm

variable {α β γ : Type}

/-! ## Reading a tensor -/

/-- The axis lengths of a written tensor multiply to the number of its elements. -/
def Json.Fits (j : Json) : Prop :=
  ∃ lengths items shape,
    j.members? ["shape", "data"] = some [some (.array lengths), some (.array items)] ∧
      lengths.mapM (Json.natBelow? Tensor.lengthLimit) = some shape ∧ volume shape = items.length

theorem Json.items?_eq_some {j : Json} {items : List Json} :
    j.items? = some items ↔ j = .array items := by
  cases j <;> simp [Json.items?]

namespace Tensor

theorem ofJson?_eq_some {j : Json} {t : Tensor Float} : Tensor.ofJson? j = some t ↔
    ∃ lengths items,
      j.members? ["shape", "data"] = some [some (.array lengths), some (.array items)] ∧
        lengths.mapM (Json.natBelow? lengthLimit) = some t.shape ∧
        items.mapM JsonForm.ofJson? = some t.data := by
  constructor
  · intro h
    rw [Tensor.ofJson?] at h
    obtain ⟨fields, hfields, h⟩ := Option.bind_eq_some_iff.1 h
    split at h
    · next shape data =>
      simp only [bind, pure, Option.bind_eq_some_iff] at h
      obtain ⟨lengths, hlengths, shape', hshape, data', hdata, h⟩ := h
      obtain ⟨items, hitems, hdata⟩ := Option.bind_eq_some_iff.1 hdata
      cases h
      rw [Json.items?_eq_some] at hlengths hitems
      subst hlengths hitems
      exact ⟨lengths, items, hfields, hshape, hdata⟩
    · cases h
  · rintro ⟨lengths, items, hfields, hshape, hdata⟩
    have hitems : JsonForm.ofJson? (Json.array items) = some t.data := hdata
    simp [Tensor.ofJson?, hfields, Json.items?, hshape, hitems]

/-- A tensor that is read has as many elements as are written. -/
theorem wellFormed_iff_of_ofJson? {j : Json} {t : Tensor Float} (h : Tensor.ofJson? j = some t) :
    t.WellFormed ↔ j.Fits := by
  obtain ⟨lengths, items, hfields, hshape, hdata⟩ := ofJson?_eq_some.1 h
  have hlength : items.length = t.data.length := (mapM_eq_some.1 hdata).length_eq
  constructor
  · intro hwf
    exact ⟨lengths, items, t.shape, hfields, hshape, hwf.trans hlength.symm⟩
  · rintro ⟨lengths', items', shape', hfields', hshape', hvolume⟩
    rw [hfields] at hfields'
    cases hfields'
    rw [hshape] at hshape'
    cases hshape'
    exact hvolume.trans hlength

/-! ## Making a tensor -/

/-- Words are multiplied exactly up to multiples of the limit. -/
theorem wordVolume_eq (shape : List Nat) : wordVolume shape = volume shape % lengthLimit := by
  -- for any size so far, of which only what is left of it as a word matters
  have hfoldl : ∀ size, shape.foldl (fun size n => size * n % lengthLimit) (size % lengthLimit) =
      size * volume shape % lengthLimit := by
    induction shape with
    | nil => exact fun size => congrArg (· % lengthLimit) (Nat.mul_one size).symm
    | cons n shape ih =>
      intro size
      rw [List.foldl_cons, Nat.mod_mul_mod, ih, volume_cons, Nat.mul_assoc]
  have hone := hfoldl 1
  rwa [Nat.one_mul] at hone

/-- A shape and elements that go together as words are well formed exactly if the shape holds no
more elements than a word can count. -/
theorem wellFormed_iff_of_ofShape? {shape : List Nat} {data : List α} {t : Tensor α}
    (h : ofShape? shape data = .ok t) : t.WellFormed ↔ volume shape < lengthLimit := by
  rw [ofShape?] at h
  split at h
  · next hvolume =>
    cases h
    rw [WellFormed, ← hvolume, wordVolume_eq]
    constructor
    · intro heq
      rw [heq]
      exact Nat.mod_lt _ (by decide)
    · exact fun hlt => (Nat.mod_eq_of_lt hlt).symm
  · cases h

theorem wellFormed_vector (as : List α) : (vector as).WellFormed := by
  simp [WellFormed, vector, volume]

/-- Equally long rows fill a matrix. -/
theorem wellFormed_of_matrix? {rows : List (List α)} {t : Tensor α}
    (h : matrix? rows = .ok t) : t.WellFormed := by
  simp only [matrix?] at h
  split at h
  · next hrows =>
    cases h
    have hlengths : rows.map List.length =
        List.replicate rows.length ((rows.head?.map List.length).getD 0) := by
      rw [List.map_eq_replicate_iff]
      simpa using hrows
    rw [WellFormed, List.length_flatten, hlengths, List.sum_replicate_nat]
    simp [volume]
  · cases h

theorem wellFormed_map (f : α → β) {t : Tensor α} : (t.map f).WellFormed ↔ t.WellFormed := by
  simp [WellFormed, map]

theorem wellFormed_of_zipWith? {f : α → β → γ} {a : Tensor α} {b : Tensor β} {t : Tensor γ}
    (ha : a.WellFormed) (hb : b.WellFormed) (h : zipWith? f a b = .ok t) : t.WellFormed := by
  rw [zipWith?_eq_zipStretched? f ha hb] at h
  cases hcommon : broadcast? a.shape b.shape with
  | none =>
    rw [zipStretched?, hcommon] at h
    cases h
  | some shape =>
    obtain ⟨t', ht', -, hzip⟩ := exists_zipStretched f ha hb hcommon
    rw [h] at ht'
    cases ht'
    exact hzip.wellFormed

end Tensor

/-! ## Values in a stored graph -/

namespace NodeKind

/-- The written value of a written node kind. -/
def valueForm? (j : Json) : Option Json := do
  match ← j.choice? with
  | ("Constant", some contents) =>
    match ← contents.members? ["value", "declared"] with
    | [some value, _] => some value
    | _ => none
  | ("Observation", some contents) =>
    match ← contents.members? ["value"] with
    | [some value] => some value
    | _ => none
  | _ => none

theorem constantOfJson?_eq_some {j : Json} {kind : NodeKind}
    (h : constantOfJson? j = some kind) : ∃ form declaredForm value declared,
      j.members? ["value", "declared"] = some [some form, declaredForm] ∧
        Tensor.ofJson? form = some value ∧ kind = .constant value declared := by
  obtain ⟨fields, hfields, h⟩ := Option.bind_eq_some_iff.1 h
  split at h
  · next form declaredForm =>
    simp only [bind, pure, Option.bind_eq_some_iff, Option.some.injEq] at h
    obtain ⟨value, hvalue, declared, -, h⟩ := h
    exact ⟨form, declaredForm, value, declared, hfields, hvalue, h.symm⟩
  · cases h

theorem observationOfJson?_eq_some {j : Json} {kind : NodeKind}
    (h : observationOfJson? j = some kind) : ∃ form value,
      j.members? ["value"] = some [some form] ∧
        Tensor.ofJson? form = some value ∧ kind = .observation value := by
  obtain ⟨fields, hfields, h⟩ := Option.bind_eq_some_iff.1 h
  split at h
  · next form =>
    obtain ⟨value, hvalue, h⟩ := Option.map_eq_some_iff.1 h
    exact ⟨form, value, hfields, hvalue, h.symm⟩
  · cases h

/-- The value of a node that is read has been read from the value that is written there. -/
theorem valueForm?_of_value? {j : Json} {kind : NodeKind} {t : Tensor Float}
    (h : NodeKind.ofJson? j = some kind) (ht : kind.value? = some t) :
    ∃ form, valueForm? j = some form ∧ Tensor.ofJson? form = some t := by
  obtain ⟨⟨name, contents⟩, hchoice, h⟩ := Option.bind_eq_some_iff.1 h
  rw [valueForm?, hchoice]
  split at h
  case h_1 _ _ heq =>
    cases heq
    obtain ⟨form, declaredForm, value, declared, hfields, hvalue, rfl⟩ := constantOfJson?_eq_some h
    cases ht
    exact ⟨form, by simp [hfields], hvalue⟩
  case h_5 _ _ heq =>
    cases heq
    obtain ⟨form, value, hfields, hvalue, rfl⟩ := observationOfJson?_eq_some h
    cases ht
    exact ⟨form, by simp [hfields], hvalue⟩
  -- the other kinds have no value
  case h_2 | h_3 | h_4 =>
    obtain ⟨_, -, rfl⟩ := Option.map_eq_some_iff.1 h
    cases ht
  case h_6 | h_7 | h_8 | h_9 =>
    cases h
    cases ht
  case h_10 => cases h

/-- The label of a node, where each slice of its value must be there. -/
def label? : NodeKind → Option String
  | .constant value none => value.text?
  | .constant value (some t) => value.text?.map (· ++ ":" ++ t.shortName)
  | .observation value => value.text?.map ("Observation " ++ ·)
  | kind => some kind.name

/-- A node can be labelled if its value can be printed. -/
theorem label?_eq_some {kind : NodeKind} (h : ∀ t ∈ kind.value?, t.WellFormed) :
    kind.label? = some kind.label := by
  cases kind with
  | constant value declared =>
    have htext := (h value rfl).text?
    cases declared <;> simp [label?, label, htext]
  | observation value => simp [label?, label, (h value rfl).text?]
  | _ => rfl

theorem label?_eq_none {kind : NodeKind} {t : Tensor Float} (ht : kind.value? = some t)
    (h : t.text? = none) : kind.label? = none := by
  cases kind with
  | constant value declared =>
    cases ht
    cases declared <;> simp [label?, h]
  | observation value =>
    cases ht
    simp [label?, h]
  | _ => cases ht

end NodeKind

/-! ## Sources of tensors -/

/-- A way to get a tensor. -/
inductive Source where
  /-- From axis lengths and elements. -/
  | shaped (shape : List Nat) (data : List Float)
  | scalar (x : Float)
  | vector (xs : List Float)
  | matrix (rows : List (List Float))
  | empty
  | map (f : Float → Float) (s : Source)
  | zip (f : Float → Float → Float) (s t : Source)
  /-- From a text. -/
  | decoded (text : String)
  /-- The value of a node of a graph that is loaded from a text. -/
  | loaded (text : String) (n : NodeId)

namespace Source

/-- The tensor that one gets, if one gets any. -/
def tensor? : Source → Option (Tensor Float)
  | .shaped shape data => (Tensor.ofShape? shape data).toOption
  | .scalar x => some (.scalar x)
  | .vector xs => some (.vector xs)
  | .matrix rows => (Tensor.matrix? rows).toOption
  | .empty => some .empty
  | .map f s => s.tensor?.map (Tensor.map f)
  | .zip f s t => do (Tensor.zipWith? f (← s.tensor?) (← t.tensor?)).toOption
  | .decoded text => JsonForm.ofText? (Tensor Float) text
  | .loaded text n => do
    let g ← (Graph.ofText text).toOption
    let kind ← g.kinds[n]?
    kind.value?

/-- A source and those from whose tensors its tensor is made. -/
def parts : Source → List Source
  | .map f s => .map f s :: s.parts
  | .zip f s t => .zip f s t :: (s.parts ++ t.parts)
  | s => [s]

theorem self_mem_parts (s : Source) : s ∈ s.parts := by
  cases s <;> simp [parts]

/-- The written value from which the tensor is read. -/
def written? : Source → Option Json
  | .decoded text => Json.parse? text
  | .loaded text n => do
    let j ← Json.parse? text
    match ← j.members? ["kinds", "inputs_flat", "inputs_ranges", "inf_types"] with
    | some kinds :: _ => NodeKind.valueForm? (← (← kinds.items?)[n]?)
    | _ => none
  | _ => none

/-- The axis lengths that are given. -/
def given? : Source → Option (List Nat)
  | .shaped shape _ => some shape
  | _ => none

/-- If one gets a tensor, axis lengths that are given do not multiply beyond a word, and those that
are written fit the elements. -/
def Fits (s : Source) : Prop :=
  s.tensor?.isSome → (∀ shape, s.given? = some shape → volume shape < Tensor.lengthLimit) ∧
    ∀ j, s.written? = some j → j.Fits

/-- The node kinds of stored columns are read one by one. -/
theorem kinds_of_ofJson? {j : Json} {c : Columns} (h : Columns.ofJson? j = some c) :
    ∃ items rest, j.members? ["kinds", "inputs_flat", "inputs_ranges", "inf_types"] =
        some (some (.array items) :: rest) ∧ items.mapM NodeKind.ofJson? = some c.kinds := by
  have hread := h
  obtain ⟨fields, hfields, h⟩ := Option.bind_eq_some_iff.1 h
  split at h
  · next kinds cells spans types =>
    obtain ⟨hkinds, -, -⟩ := Graph.fields_of_ofJson? hfields hread
    rw [Option.bind_some] at hkinds
    obtain ⟨items, hitems, hkinds⟩ := Option.bind_eq_some_iff.1 hkinds
    rw [Json.items?_eq_some] at hitems
    subst hitems
    exact ⟨items, _, hfields, hkinds⟩
  · cases h

/-- A tensor that is loaded with a graph is read from the value that is written there. -/
theorem written?_of_loaded {text : String} {n : NodeId} {t : Tensor Float}
    (h : (loaded text n).tensor? = some t) :
    ∃ j, (loaded text n).written? = some j ∧ Tensor.ofJson? j = some t := by
  obtain ⟨g, hg, h⟩ := Option.bind_eq_some_iff.1 h
  obtain ⟨kind, hkind, ht⟩ := Option.bind_eq_some_iff.1 h
  obtain ⟨c, hc, hrestored⟩ := Graph.ofText_eq_ok.1 (toOption_eq_some.1 hg)
  obtain ⟨j, hj, hc⟩ := Option.bind_eq_some_iff.1 hc
  obtain ⟨items, rest, hfields, hitems⟩ := kinds_of_ofJson? hc
  rw [hrestored.kinds] at hkind
  obtain ⟨item, hitem, hread⟩ := exists_getElem?_of_mapM hitems hkind
  obtain ⟨form, hform, hvalue⟩ := NodeKind.valueForm?_of_value? hread ht
  refine ⟨form, ?_, hvalue⟩
  simp [written?, hj, hfields, Json.items?, hitem, hform]

theorem written?_of_decoded {text : String} {t : Tensor Float}
    (h : (decoded text).tensor? = some t) :
    ∃ j, (decoded text).written? = some j ∧ Tensor.ofJson? j = some t :=
  Option.bind_eq_some_iff.1 h

/-- A tensor that is read is well formed exactly if the axis lengths fit the elements. -/
theorem wellFormed_iff_of_written? {s : Source} {t : Tensor Float} {j : Json}
    (ht : s.tensor? = some t) (hj : s.written? = some j) : t.WellFormed ↔ j.Fits := by
  have hread : ∃ j, s.written? = some j ∧ Tensor.ofJson? j = some t := by
    cases s with
    | decoded text => exact written?_of_decoded ht
    | loaded text n => exact written?_of_loaded ht
    | _ => cases hj
  obtain ⟨j', hj', hread⟩ := hread
  rw [hj] at hj'
  cases hj'
  exact Tensor.wellFormed_iff_of_ofJson? hread

/-- A tensor of a given shape is well formed exactly if the shape holds no more elements than a word
can count. -/
theorem wellFormed_iff_of_given? {s : Source} {t : Tensor Float} {shape : List Nat}
    (ht : s.tensor? = some t) (hshape : s.given? = some shape) :
    t.WellFormed ↔ volume shape < Tensor.lengthLimit := by
  cases s with
  | shaped given data =>
    cases hshape
    exact Tensor.wellFormed_iff_of_ofShape? (toOption_eq_some.1 ht)
  | _ => cases hshape

/-! ## All sources -/

theorem parts_trans {p q s : Source} (hq : q ∈ p.parts) (hp : p ∈ s.parts) : q ∈ s.parts := by
  induction s with
  | map f s ih =>
    obtain rfl | hp := List.mem_cons.1 hp
    · exact hq
    · exact List.mem_cons_of_mem _ (ih hp)
  | zip f s t ihs iht =>
    obtain rfl | hp := List.mem_cons.1 hp
    · exact hq
    · obtain hp | hp := List.mem_append.1 hp
      · exact List.mem_cons_of_mem _ (List.mem_append_left _ (ihs hp))
      · exact List.mem_cons_of_mem _ (List.mem_append_right _ (iht hp))
  | _ =>
    obtain rfl := List.mem_singleton.1 hp
    exact hq

/-- If all that is given and read fits, the tensor is well formed. -/
theorem wellFormed_of_fits {s : Source} {t : Tensor Float} (h : ∀ p ∈ s.parts, p.Fits)
    (ht : s.tensor? = some t) : t.WellFormed := by
  induction s generalizing t with
  | shaped shape data =>
    exact (wellFormed_iff_of_given? ht rfl).2
      ((h _ (self_mem_parts _) (Option.isSome_of_eq_some ht)).1 shape rfl)
  | scalar x =>
    cases ht
    rfl
  | vector xs =>
    cases ht
    exact Tensor.wellFormed_vector xs
  | matrix rows => exact Tensor.wellFormed_of_matrix? (toOption_eq_some.1 ht)
  | empty =>
    cases ht
    exact Tensor.wellFormed_vector []
  | map f s ih =>
    obtain ⟨u, hu, rfl⟩ := Option.map_eq_some_iff.1 ht
    exact (Tensor.wellFormed_map f).2 (ih (List.forall_mem_cons.1 h).2 hu)
  | zip f s₁ s₂ ih₁ ih₂ =>
    obtain ⟨h₁, h₂⟩ := List.forall_mem_append.1 (List.forall_mem_cons.1 h).2
    obtain ⟨u₁, hu₁, ht⟩ := Option.bind_eq_some_iff.1 ht
    obtain ⟨u₂, hu₂, ht⟩ := Option.bind_eq_some_iff.1 ht
    exact Tensor.wellFormed_of_zipWith? (ih₁ h₁ hu₁) (ih₂ h₂ hu₂) (toOption_eq_some.1 ht)
  | decoded text =>
    obtain ⟨j, hj, hread⟩ := written?_of_decoded ht
    exact (Tensor.wellFormed_iff_of_ofJson? hread).2
      ((h _ (self_mem_parts _) (Option.isSome_of_eq_some ht)).2 j hj)
  | loaded text n =>
    obtain ⟨j, hj, hread⟩ := written?_of_loaded ht
    exact (Tensor.wellFormed_iff_of_ofJson? hread).2
      ((h _ (self_mem_parts _) (Option.isSome_of_eq_some ht)).2 j hj)

/-- The labels of a loaded graph can be printed if all values in its text fit. -/
theorem label?_of_fits {text : String} {g : Graph} (hg : Graph.ofText text = .ok g)
    (h : ∀ n, (loaded text n).Fits) {kind : NodeKind} (hkind : kind ∈ g.kinds) :
    kind.label? = some kind.label := by
  obtain ⟨n, hn⟩ := List.mem_iff_getElem?.1 hkind
  refine NodeKind.label?_eq_some fun t ht => ?_
  have htensor : (loaded text n).tensor? = some t := by
    simp only [tensor?, toOption_eq_some.2 hg, hn, bind, Option.bind_some]
    exact ht
  refine wellFormed_of_fits (s := loaded text n) (fun p hp => ?_) htensor
  obtain rfl := List.mem_singleton.1 hp
  exact h n

/-- Two rows are announced and one is there. -/
def Short.text : String := "\x7b\"shape\":[2,1],\"data\":[1.0]\x7d"

/-- The same as the value of the only node of a stored graph. -/
def Short.stored : String :=
  "\x7b\"kinds\":[\x7b\"Constant\":\x7b\"value\":" ++ Short.text ++
    ",\"declared\":null\x7d\x7d],\"inputs_flat\":[],\"inputs_ranges\":[[0,0]]," ++
    "\"inf_types\":[\"Real\"]\x7d"

theorem Short.text?_eq_none {t : Tensor Float} (hshape : t.shape = [2, 1])
    (hdata : t.data.length = 1) : ¬ t.WellFormed ∧ t.text? = none := by
  rw [Tensor.text?_eq, Tensor.WellFormed, hshape, hdata]
  exact ⟨by decide, if_neg (by decide)⟩

/-- Axis lengths that multiply to the first number beyond a word, which as a word is none. -/
def Short.shape : List Nat := [Nat.pow 2 32, Nat.pow 2 32]

end Source

end Stochastic
