import Stochastic.Graph.Store
import Stochastic.Proofs.Json.RoundTrip

/-!
# Columns that read back

The columns of a graph are read back from their text, if what they hold fits the stored form:
node ids and positions in 32 bits, axis lengths in 64 bits, and floats that are read back from
their own numerals.

## Main definitions

* `NodeKind.value?` — the value that a node carries with it.
* `Tensor.Storable`, `Columns.Storable` — what fits the stored form.

## Main results

* `NodeKind.faithful` — a node kind is read back, if its value is storable.
* `Columns.faithful` — columns are read back, if they are storable.
* `Graph.ofText_text` — what becomes of a graph that is stored and loaded.
-/

namespace Stochastic

open JsonForm

/-! ## Names -/

theorem ValueType.faithful (t : ValueType) : Faithful t :=
  ⟨Json.readable_str t.name, by cases t <;> rfl⟩

theorem Family.faithful (f : Family) : Faithful f :=
  ⟨Json.readable_str f.name, by cases f <;> rfl⟩

theorem Operator.faithful (op : Operator) : Faithful op :=
  ⟨Json.readable_str op.name, by cases op <;> rfl⟩

theorem Conversion.faithful (c : Conversion) : Faithful c :=
  ⟨Json.readable_str c.name, by cases c <;> rfl⟩

/-! ## Values -/

theorem readable_nats (ns : List Nat) : (Json.array (ns.map Json.nat)).Readable := by
  refine Json.readable_array fun j hj => ?_
  obtain ⟨n, -, rfl⟩ := List.mem_map.1 hj
  exact Json.readable_nat n

theorem mapM_natBelow? {ns : List Nat} {limit : Nat} (h : ∀ n ∈ ns, n < limit) :
    (ns.map Json.nat).mapM (Json.natBelow? limit) = some ns :=
  mapM_map_eq_some fun n hn => Json.natBelow?_nat (h n hn)

/-- Axis lengths are small enough, and each element is read back from its numeral. -/
structure Tensor.Storable (t : Tensor Float) : Prop where
  shape : ∀ k ∈ t.shape, k < Tensor.lengthLimit
  data : ∀ x ∈ t.data, (Json.ofFloat x).float? = some x

theorem Tensor.faithful {t : Tensor Float} (h : t.Storable) : Faithful t := by
  have hdata := faithful_list fun x hx => faithful_float (h.data x hx)
  have hfields : (Tensor.toJson t).members? ["shape", "data"] =
      some [some (.array (t.shape.map Json.nat)), some (JsonForm.toJson t.data)] := rfl
  constructor
  · refine Json.readable_obj fun m hm => ?_
    simp only [List.mem_cons, List.not_mem_nil, or_false] at hm
    obtain rfl | rfl := hm
    · exact readable_nats t.shape
    · exact hdata.readable
  · change Tensor.ofJson? (Tensor.toJson t) = some t
    simp [Tensor.ofJson?, hfields, Json.items?, mapM_natBelow? h.shape, hdata.reads]

/-! ## Node kinds -/

namespace NodeKind

/-- The value that a node carries with it. -/
def value? : NodeKind → Option (Tensor Float)
  | .constant value _ => some value
  | .observation value => some value
  | _ => none

theorem readable_choice {name : String} {contents : Json} (h : contents.Readable) :
    (Json.choice name contents).Readable := by
  refine Json.readable_obj fun m hm => ?_
  obtain rfl : m = (name, contents) := by simpa using hm
  exact h

theorem faithful_declared (declared : Option ValueType) : Faithful declared := by
  cases declared with
  | none =>
    refine ⟨fun t ht => ?_, rfl⟩
    obtain rfl : t = .null := List.mem_singleton.1 ht
    exact trivial
  | some t => exact ⟨t.faithful.readable, by cases t <;> rfl⟩

/-- A kind that holds one faithful value is read back. -/
theorem faithful_of_contents {α : Type} [JsonForm α] {name : String} {make : α → NodeKind} {a : α}
    (ha : Faithful a) (hwrite : toJson (make a) = .choice name (JsonForm.toJson a))
    (hread : ∀ j, ofJson? (.choice name j) = make <$> JsonForm.ofJson? j) : Faithful (make a) where
  readable := by
    change (toJson (make a)).Readable
    rw [hwrite]
    exact readable_choice ha.readable
  reads := by
    change ofJson? (toJson (make a)) = some (make a)
    rw [hwrite, hread, ha.reads]
    rfl

/-- A node kind is read back, if its value is. -/
theorem faithful {kind : NodeKind} (h : ∀ v ∈ kind.value?, v.Storable) : Faithful kind := by
  cases kind with
  | constant value declared =>
    have hvalue := Tensor.faithful (h value rfl)
    have hdeclared := faithful_declared declared
    constructor
    · refine readable_choice (Json.readable_obj fun m hm => ?_)
      simp only [List.mem_cons, List.not_mem_nil, or_false] at hm
      obtain rfl | rfl := hm
      · exact hvalue.readable
      · exact hdeclared.readable
    · change (do
        let value ← JsonForm.ofJson? (JsonForm.toJson value)
        let declared ← JsonForm.ofJson? (JsonForm.toJson declared)
        return NodeKind.constant value declared) = some (.constant value declared)
      rw [hvalue.reads, hdeclared.reads]
      rfl
  | observation value =>
    have hvalue := Tensor.faithful (h value rfl)
    constructor
    · refine readable_choice (Json.readable_obj fun m hm => ?_)
      obtain rfl : m = ("value", JsonForm.toJson value) := by simpa using hm
      exact hvalue.readable
    · change NodeKind.observation <$> JsonForm.ofJson? (JsonForm.toJson value) =
        some (.observation value)
      rw [hvalue.reads]
      rfl
  | distribution f => exact faithful_of_contents f.faithful rfl fun _ => rfl
  | operator op => exact faithful_of_contents op.faithful rfl fun _ => rfl
  | conversion c => exact faithful_of_contents c.faithful rfl fun _ => rfl
  | sample => exact ⟨Json.readable_str _, rfl⟩
  | query => exact ⟨Json.readable_str _, rfl⟩

end NodeKind

/-! ## Columns -/

namespace Columns

/-- Everything in the columns fits the stored form. -/
structure Storable (c : Columns) : Prop where
  values : ∀ kind ∈ c.kinds, ∀ v ∈ kind.value?, v.Storable
  cells : ∀ x ∈ c.cells, x < numberLimit
  spans : ∀ s ∈ c.spans, s.start < numberLimit ∧ s.length < numberLimit

/-- A span as it is stored. -/
def spanJson (s : Span) : Json := .array [.nat s.start, .nat s.length]

theorem spanOfJson?_spanJson {s : Span} (h : s.start < numberLimit ∧ s.length < numberLimit) :
    spanOfJson? (spanJson s) = some s := by
  simp [spanOfJson?, spanJson, Json.natBelow?_nat h.1, Json.natBelow?_nat h.2]

theorem readable_spans (ss : List Span) : (Json.array (ss.map spanJson)).Readable := by
  refine Json.readable_array fun j hj => ?_
  obtain ⟨s, -, rfl⟩ := List.mem_map.1 hj
  exact readable_nats [s.start, s.length]

theorem members?_toJson (c : Columns) :
    c.toJson.members? ["kinds", "inputs_flat", "inputs_ranges", "inf_types"] =
      some [some (JsonForm.toJson c.kinds), some (.array (c.cells.map Json.nat)),
        some (.array (c.spans.map spanJson)), some (JsonForm.toJson c.types)] := rfl

/-- Columns that fit the stored form are read back. -/
theorem faithful {c : Columns} (h : c.Storable) : Faithful c := by
  have hkinds := faithful_list fun kind hkind => NodeKind.faithful (h.values kind hkind)
  have htypes : Faithful c.types := faithful_list fun t _ => t.faithful
  have hspans : (c.spans.map spanJson).mapM spanOfJson? = some c.spans :=
    mapM_map_eq_some fun s hs => spanOfJson?_spanJson (h.spans s hs)
  constructor
  · refine Json.readable_obj fun m hm => ?_
    simp only [List.mem_cons, List.not_mem_nil, or_false] at hm
    obtain rfl | rfl | rfl | rfl := hm
    · exact hkinds.readable
    · exact readable_nats c.cells
    · exact readable_spans c.spans
    · exact htypes.readable
  · change Columns.ofJson? c.toJson = some c
    simp [Columns.ofJson?, members?_toJson, Json.items?, hkinds.reads, mapM_natBelow? h.cells,
      hspans, htypes.reads]

end Columns

/-- What is loaded from the text of storable columns is rebuilt from those columns. -/
theorem Graph.ofText_text {c : Columns} (h : c.Storable) :
    Graph.ofText (JsonForm.text c) = Graph.rebuild c := by
  rw [Graph.ofText, ofText?_text (Columns.faithful h)]

end Stochastic
