import Mathlib.Data.Finset.Card
import Stochastic.Proofs.Node.Widening
import Stochastic.Tensor.TensorSet

/-!
# What a set of tensors remembers

A set of tensors is compared with the list of all tensors that were ever put into it, repetitions
included.  Every answer of the set can be read off this history: the members are the first
occurrence of each key, and a tensor is new exactly if no earlier one has its key.

The text of a set is sorted, so the order of the history does not matter to it.  Which of several
tensors with one key came first matters only if these are written differently.

## Main definitions

* `TensorSet.firsts` — the first occurrence of each key in a list.
* `TensorSet.Call`, `TensorSet.run` — calls from outside, and what a set makes of them.
* `TensorSet.answers` — what a history makes of them.

## Main results

* `TensorSet.holds_insert`, `TensorSet.run_eq` — one insertion, and any calls in turn.
* `TensorSet.text_eq_of_perm` — the text does not depend on the order of insertion.
* `Tensor.key_eq_iff` — when two tensors have one key.
* `TensorSet.agrees_with_history` — a set answers as its history does.
-/

namespace Stochastic

/-- Two tensors have one key exactly if they have one shape, and their elements are pairwise the
same, or both zeros, or both NaNs. -/
theorem Tensor.key_eq_iff {t u : Tensor Float} :
    t.key = u.key ↔ t.shape = u.shape ∧
      List.Forall₂ (fun x y : Float => x.toBits = y.toBits ∨ ((x == 0) = true ∧ (y == 0) = true) ∨
        (x.isNaN = true ∧ y.isNaN = true)) t.data u.data := by
  have hbits : t.data.map floatKey = u.data.map floatKey ↔
      List.Forall₂ (fun x y => floatKey x = floatKey y) t.data u.data := by
    rw [← List.forall₂_eq_eq_eq, List.forall₂_map_left_iff, List.forall₂_map_right_iff]
  simp only [key, Key.mk.injEq, hbits, ValueType.floatKey_eq_iff]

namespace TensorSet

variable {s : TensorSet} {t u : Tensor Float} {ts us history : List (Tensor Float)}

/-! ## First occurrences -/

/-- The members of a list whose key no earlier member has, in order. -/
def firsts : List (Tensor Float) → List (Tensor Float)
  | [] => []
  | t :: ts => t :: (firsts ts).filter fun u => u.key ≠ t.key

theorem mem_of_mem_firsts (h : t ∈ firsts ts) : t ∈ ts := by
  induction ts with
  | nil => exact h
  | cons u ts ih =>
    rcases List.mem_cons.1 h with rfl | h
    · exact List.mem_cons_self
    · exact List.mem_cons_of_mem u (ih (List.mem_of_mem_filter h))

/-- Every key of the list is there. -/
theorem mem_keys_firsts (k : Tensor.Key) :
    k ∈ (firsts ts).map Tensor.key ↔ k ∈ ts.map Tensor.key := by
  induction ts with
  | nil => rfl
  | cons t ts ih =>
    have hfilter : k ∈ ((firsts ts).filter fun u => u.key ≠ t.key).map Tensor.key ↔
        k ∈ ts.map Tensor.key ∧ k ≠ t.key := by
      rw [← ih]
      simp only [List.mem_map, List.mem_filter, decide_eq_true_eq]
      constructor
      · rintro ⟨u, ⟨hu, hne⟩, rfl⟩
        exact ⟨⟨u, hu, rfl⟩, hne⟩
      · rintro ⟨⟨u, hu, rfl⟩, hne⟩
        exact ⟨u, ⟨hu, hne⟩, rfl⟩
    rw [firsts, List.map_cons, List.map_cons, List.mem_cons, List.mem_cons, hfilter]
    by_cases hk : k = t.key
    · simp only [hk, true_or]
    · simp only [hk, false_or, ne_eq, not_false_iff, and_true]

/-- No key is there twice. -/
theorem nodup_keys_firsts (ts : List (Tensor Float)) : ((firsts ts).map Tensor.key).Nodup := by
  induction ts with
  | nil => exact List.nodup_nil
  | cons t ts ih =>
    rw [firsts, List.map_cons, List.nodup_cons]
    refine ⟨?_, ih.sublist (List.filter_sublist.map Tensor.key)⟩
    intro hmem
    obtain ⟨u, hu, hkey⟩ := List.mem_map.1 hmem
    have hne := (List.mem_filter.1 hu).2
    exact absurd hkey (by simpa using hne)

/-- A tensor at the end of the list counts only if its key is new. -/
theorem firsts_concat (ts : List (Tensor Float)) (t : Tensor Float) :
    firsts (ts ++ [t]) = if t.key ∈ ts.map Tensor.key then firsts ts else firsts ts ++ [t] := by
  induction ts with
  | nil => rfl
  | cons a ts ih =>
    rw [List.cons_append, firsts, ih, List.map_cons]
    by_cases hold : t.key ∈ ts.map Tensor.key
    · rw [if_pos hold, if_pos (List.mem_cons_of_mem _ hold), firsts]
    · rw [if_neg hold, List.filter_append]
      by_cases ha : t.key = a.key
      · -- the first member has the key, and so it takes the last one away
        have hlast : ([t].filter fun u => u.key ≠ a.key) = [] := by simp [ha]
        rw [hlast, List.append_nil, if_pos (by rw [ha]; exact List.mem_cons_self), firsts]
      · have hlast : ([t].filter fun u => u.key ≠ a.key) = [t] := by simp [ha]
        have hnew : t.key ∉ a.key :: ts.map Tensor.key := by
          rw [List.mem_cons]
          exact not_or.2 ⟨ha, hold⟩
        rw [hlast, if_neg hnew, firsts, List.cons_append]

/-! ## One call -/

/-- The set holds the first occurrences of a history, each under its key. -/
def Holds (s : TensorSet) (history : List (Tensor Float)) : Prop :=
  s.items.entries = (firsts history).map fun t => (t.key, t)

theorem Holds.toList (h : s.Holds history) : s.toList = firsts history := by
  rw [TensorSet.toList, Table.values, h, List.map_map]
  exact List.map_id _

theorem Holds.contains_iff (h : s.Holds history) :
    s.contains t = true ↔ t.key ∈ history.map Tensor.key := by
  have hentries : s.items.entries = (firsts history).map fun t => (t.key, t) := h
  rw [contains, Table.contains, Option.isSome_iff_exists, ← mem_keys_firsts, List.mem_map]
  simp only [Table.get?_eq_some_iff, hentries, List.mem_map, Prod.mk.injEq, beq_iff_eq]
  constructor
  · rintro ⟨u, k, hk, u', hu', hkey, rfl⟩
    exact ⟨u', hu', hkey.trans hk⟩
  · rintro ⟨u, hu, hkey⟩
    exact ⟨u, u.key, hkey, u, hu, rfl, rfl⟩

/-- The size of the set is the number of different keys. -/
theorem Holds.size (h : s.Holds history) :
    s.size = (history.map Tensor.key).toFinset.card := by
  have hkeys : (history.map Tensor.key).toFinset = ((firsts history).map Tensor.key).toFinset := by
    ext k
    rw [List.mem_toFinset, List.mem_toFinset, mem_keys_firsts]
  rw [hkeys, List.toFinset_card_of_nodup (nodup_keys_firsts history), List.length_map,
    TensorSet.size, Table.size, h, List.length_map]

/-- A tensor is new exactly if no earlier one has its key. -/
theorem Holds.insert_fst (h : s.Holds history) (t : Tensor Float) :
    (s.insert t).1 = decide (t.key ∉ history.map Tensor.key) := by
  rw [TensorSet.insert]
  by_cases hold : s.contains t = true
  · rw [if_pos hold, decide_eq_false (not_not_intro (h.contains_iff.1 hold))]
  · have hnew : t.key ∉ history.map Tensor.key := fun hmem => hold (h.contains_iff.2 hmem)
    rw [if_neg hold, decide_eq_true hnew]

/-- **An insertion extends the history.** -/
theorem holds_insert (h : s.Holds history) (t : Tensor Float) :
    (s.insert t).2.Holds (history ++ [t]) := by
  rw [Holds, firsts_concat]
  by_cases hold : s.contains t = true
  · rw [if_pos (h.contains_iff.1 hold), TensorSet.insert, if_pos hold]
    exact h
  · rw [if_neg fun hmem => hold (h.contains_iff.2 hmem), List.map_append,
      entries_insert (Bool.eq_false_iff.2 hold), h]
    rfl

theorem holds_ofList (ts : List (Tensor Float)) : (ofList ts).Holds ts := by
  have hfold : ∀ {s : TensorSet} {history}, s.Holds history →
      (ts.foldl (fun s t => (s.insert t).2) s).Holds (history ++ ts) := by
    induction ts with
    | nil =>
      intro s history h
      rwa [List.append_nil]
    | cons t ts ih =>
      intro s history h
      rw [List.foldl_cons, List.append_cons]
      exact ih (holds_insert h t)
  have hempty : empty.Holds [] := rfl
  exact hfold hempty

/-! ## Calls in turn -/

/-- A call from outside. -/
inductive Call where
  | insert (t : Tensor Float)
  | contains (t : Tensor Float)
  | size
  | toList

/-- What a call is answered with. -/
inductive Answer where
  | flag (b : Bool)
  | count (n : Nat)
  | members (ts : List (Tensor Float))

/-- What a set answers, and the set that is left. -/
def serve (s : TensorSet) : Call → Answer × TensorSet
  | .insert t => (.flag (s.insert t).1, (s.insert t).2)
  | .contains t => (.flag (s.contains t), s)
  | .size => (.count s.size, s)
  | .toList => (.members s.toList, s)

/-- The answers of a set to calls in turn, and the set that is left. -/
def run (s : TensorSet) : List Call → List Answer × TensorSet
  | [] => ([], s)
  | call :: calls =>
    let (answer, s') := s.serve call
    let (answers, s'') := s'.run calls
    (answer :: answers, s'')

/-- The tensors that a call puts in, be they new or not. -/
def Call.inserted : Call → List (Tensor Float)
  | .insert t => [t]
  | .contains _ => []
  | .size => []
  | .toList => []

/-- What all tensors that were put in so far say to a call. -/
def Call.answer (history : List (Tensor Float)) : Call → Answer
  | .insert t => .flag (decide (t.key ∉ history.map Tensor.key))
  | .contains t => .flag (decide (t.key ∈ history.map Tensor.key))
  | .size => .count (history.map Tensor.key).toFinset.card
  | .toList => .members (firsts history)

/-- The answers of a history to calls in turn. -/
def answers (history : List (Tensor Float)) : List Call → List Answer
  | [] => []
  | call :: calls => call.answer history :: answers (history ++ call.inserted) calls

/-- One call is answered as the history says, and extends it by what it puts in. -/
theorem serve_eq (h : s.Holds history) (call : Call) :
    (s.serve call).1 = call.answer history ∧
      (s.serve call).2.Holds (history ++ call.inserted) := by
  cases call with
  | insert t => exact ⟨congrArg Answer.flag (h.insert_fst t), holds_insert h t⟩
  | contains t =>
    have hflag : s.contains t = decide (t.key ∈ history.map Tensor.key) := by
      rw [Bool.eq_iff_iff, h.contains_iff, decide_eq_true_eq]
    exact ⟨congrArg Answer.flag hflag, by rwa [Call.inserted, List.append_nil]⟩
  | size => exact ⟨congrArg Answer.count h.size, by rwa [Call.inserted, List.append_nil]⟩
  | toList => exact ⟨congrArg Answer.members h.toList, by rwa [Call.inserted, List.append_nil]⟩

/-- So are any calls in turn. -/
theorem run_eq (h : s.Holds history) (calls : List Call) :
    (s.run calls).1 = answers history calls ∧
      (s.run calls).2.Holds (history ++ calls.flatMap Call.inserted) := by
  induction calls generalizing s history with
  | nil => exact ⟨rfl, by rwa [List.flatMap_nil, List.append_nil]⟩
  | cons call calls ih =>
    obtain ⟨hanswer, hnext⟩ := serve_eq h call
    obtain ⟨hanswers, hlast⟩ := ih hnext
    rw [List.flatMap_cons, ← List.append_assoc]
    exact ⟨congrArg₂ List.cons hanswer hanswers, hlast⟩

/-! ## The text of a set -/

theorem mergeSort_eq_of_perm {as bs : List String} (h : as.Perm bs) :
    (as.mergeSort fun a b => decide (a ≤ b)) = bs.mergeSort fun a b => decide (a ≤ b) := by
  have hsorted : ∀ cs : List String,
      (cs.mergeSort fun a b => decide (a ≤ b)).Pairwise fun a b => decide (a ≤ b) = true := by
    apply List.pairwise_mergeSort
    · intro a b c hab hbc
      rw [decide_eq_true_eq] at *
      exact String.le_trans hab hbc
    · intro a b
      rw [Bool.or_eq_true, decide_eq_true_eq, decide_eq_true_eq]
      exact String.le_total a b
  apply List.Perm.eq_of_pairwise _ (hsorted as) (hsorted bs)
  · exact (List.mergeSort_perm as _).trans (h.trans (List.mergeSort_perm bs _).symm)
  · intro a b _ _ hab hba
    exact String.le_antisymm (of_decide_eq_true hab) (of_decide_eq_true hba)

/-- If tensors with one key are written alike, the first occurrences are written in the same way up
to their order, however the list is ordered. -/
theorem texts_perm (h : ts.Perm us)
    (halike : ∀ t ∈ ts, ∀ u ∈ ts, t.key = u.key → t.text = u.text) :
    ((firsts ts).map Tensor.text).Perm ((firsts us).map Tensor.text) := by
  -- the text of a member depends on its key only
  let written : Tensor.Key → String := fun k =>
    ((ts.find? fun t => t.key = k).map Tensor.text).getD ""
  have hwritten : ∀ t ∈ ts, written t.key = t.text := by
    intro t ht
    cases hfind : ts.find? fun u => u.key = t.key with
    | none =>
      have hno := List.find?_eq_none.1 hfind t ht
      simp at hno
    | some u =>
      have hkey : u.key = t.key := by simpa using List.find?_some hfind
      simp only [written, hfind, Option.map_some, Option.getD_some]
      exact halike u (List.mem_of_find?_eq_some hfind) t ht hkey
  have htexts : ∀ {vs : List (Tensor Float)}, (∀ t ∈ vs, t ∈ ts) →
      (firsts vs).map Tensor.text = ((firsts vs).map Tensor.key).map written := by
    intro vs hvs
    rw [List.map_map]
    exact List.map_congr_left fun t ht => (hwritten t (hvs t (mem_of_mem_firsts ht))).symm
  rw [htexts fun t ht => ht, htexts fun t ht => h.mem_iff.2 ht]
  apply List.Perm.map
  rw [List.perm_ext_iff_of_nodup (nodup_keys_firsts ts) (nodup_keys_firsts us)]
  intro k
  rw [mem_keys_firsts, mem_keys_firsts, (h.map Tensor.key).mem_iff]

/-- **The text of a set does not depend on the order of insertion**, if tensors with one key are
written alike. -/
theorem text_eq_of_perm {s' : TensorSet} (hs : s.Holds ts) (hs' : s'.Holds us) (h : ts.Perm us)
    (halike : ∀ t ∈ ts, ∀ u ∈ ts, t.key = u.key → t.text = u.text) : s.text = s'.text := by
  rw [text, text, hs.toList, hs'.toList, mergeSort_eq_of_perm (texts_perm h halike)]

/-! ## Summary -/

/-- **A set of tensors answers as its history does.**  A tensor is new exactly if no earlier one has
its key, the members are the first occurrence of each key, and the size is the number of keys.  Two
sets have one text if the same tensors were put into them, in whatever order and by whatever calls,
as long as those with one key are written alike.  Tensors have one key exactly if they have one
shape, and elements that are the same or both zeros or both NaNs. -/
theorem agrees_with_history :
    (∀ initial calls, ((ofList initial).run calls).1 = answers initial calls) ∧
    (∀ initial calls initial' calls',
      (initial ++ calls.flatMap Call.inserted).Perm (initial' ++ calls'.flatMap Call.inserted) →
      (∀ t ∈ initial ++ calls.flatMap Call.inserted,
        ∀ u ∈ initial ++ calls.flatMap Call.inserted, t.key = u.key → t.text = u.text) →
      ((ofList initial).run calls).2.text = ((ofList initial').run calls').2.text) ∧
    (∀ t u : Tensor Float, t.key = u.key ↔ t.shape = u.shape ∧
      List.Forall₂ (fun x y : Float => x.toBits = y.toBits ∨ ((x == 0) = true ∧ (y == 0) = true) ∨
        (x.isNaN = true ∧ y.isNaN = true)) t.data u.data) := by
  refine ⟨?_, ?_, fun t u => Tensor.key_eq_iff⟩
  · intro initial calls
    exact (run_eq (holds_ofList initial) calls).1
  · intro initial calls initial' calls' hperm halike
    exact text_eq_of_perm (run_eq (holds_ofList initial) calls).2
      (run_eq (holds_ofList initial') calls').2 hperm halike

/-- The two zeros are one member, and the same number in another shape is another one.  If the
latter comes first, the text stays the same. -/
theorem agrees_with_history_zeros :
    ((ofList [.scalar 0]).run
        [.insert (.scalar (-0)), .insert (.vector [0]), .contains (.vector [-0]), .size]).1 =
      [.flag false, .flag true, .flag true, .count 2] ∧
    ((ofList [.scalar 0]).run [.insert (.scalar 0), .insert (.vector [0])]).2.text =
      ((ofList [.vector [0]]).run [.insert (.scalar 0), .insert (.scalar 0)]).2.text := by
  obtain ⟨hanswers, htext, -⟩ := agrees_with_history
  refine ⟨?_, ?_⟩
  · rw [hanswers]
    rfl
  · apply htext
    · exact @List.perm_append_comm (Tensor Float) [.scalar 0, .scalar 0] [.vector [0]]
    · have hne : (Tensor.scalar (0 : Float)).key ≠ (Tensor.vector [0]).key := by decide
      intro t ht u hu hkey
      simp only [List.flatMap_cons, List.flatMap_nil, Call.inserted, List.mem_append,
        List.mem_singleton, List.append_nil, or_self_left] at ht hu
      rcases ht with rfl | rfl <;> rcases hu with rfl | rfl
      · rfl
      · exact absurd hkey hne
      · exact absurd hkey.symm hne
      · rfl

end TensorSet

end Stochastic
