/-!
# Sets in order of insertion

A finite set that remembers the order in which its members came.  Members are
compared by `==`, so a set keeps the first of several equal spellings.

## Main definitions

* `OrderedSet` — the members, first come first, no two of them equal.
* `OrderedSet.insert`, `OrderedSet.erase`, `OrderedSet.contains`.

## Main results

* `OrderedSet.contains_insert`, `OrderedSet.contains_erase` — the members after a
  change.
* `OrderedSet.contains_ofList` — the members of the set of a list.
-/

namespace Stochastic

/-- A finite set with its members in order of insertion. -/
structure OrderedSet (α : Type) [BEq α] where
  toList : List α
  /-- No member equals an earlier one. -/
  distinct : toList.Pairwise fun a b => (b == a) = false

namespace OrderedSet

variable {α : Type} [BEq α]

/-- The set without members. -/
def empty : OrderedSet α := ⟨[], .nil⟩

instance : Inhabited (OrderedSet α) := ⟨empty⟩

@[simp] theorem toList_empty : (empty : OrderedSet α).toList = [] := rfl

/-- Whether a member equal to `a` is in the set. -/
def contains (s : OrderedSet α) (a : α) : Bool := s.toList.contains a

theorem pairwise_append_singleton {s : OrderedSet α} {a : α} (h : ¬ s.contains a = true) :
    (s.toList ++ [a]).Pairwise fun a b => (b == a) = false := by
  refine List.pairwise_append.2 ⟨s.distinct, List.pairwise_singleton .., fun b hb c hc => ?_⟩
  obtain rfl := List.mem_singleton.1 hc
  exact Bool.eq_false_iff.2 fun hcb => h (List.contains_iff_exists_mem_beq.2 ⟨b, hb, hcb⟩)

/-- Adds `a` behind the other members unless an equal one is there. -/
def insert (s : OrderedSet α) (a : α) : OrderedSet α :=
  if h : s.contains a then s else ⟨s.toList ++ [a], pairwise_append_singleton h⟩

/-- Removes the member equal to `a`; the others keep their order. -/
def erase (s : OrderedSet α) (a : α) : OrderedSet α :=
  ⟨s.toList.erase a, s.distinct.sublist List.erase_sublist⟩

/-- Whether there are no members. -/
def isEmpty (s : OrderedSet α) : Bool := s.toList.isEmpty

/-- How many members there are. -/
def size (s : OrderedSet α) : Nat := s.toList.length

/-- The set of the members of a list, in order of first occurrence. -/
def ofList (as : List α) : OrderedSet α := as.foldl insert empty

theorem toList_insert (s : OrderedSet α) (a : α) :
    (s.insert a).toList = if s.contains a then s.toList else s.toList ++ [a] := by
  unfold insert
  split <;> simp_all

theorem insert_of_contains {s : OrderedSet α} {a : α} (h : s.contains a = true) :
    s.insert a = s := dif_pos h

/-- An element that is inserted comes last. -/
theorem prefix_insert (s : OrderedSet α) (a : α) : s.toList <+: (s.insert a).toList := by
  rw [toList_insert]
  split
  · exact List.prefix_rfl
  · exact List.prefix_append ..

@[simp] theorem toList_erase (s : OrderedSet α) (a : α) :
    (s.erase a).toList = s.toList.erase a := rfl

@[simp] theorem contains_empty (a : α) : (empty : OrderedSet α).contains a = false := rfl

theorem contains_of_prefix {s s' : OrderedSet α} {a : α} (h : s.toList <+: s'.toList)
    (ha : s.contains a = true) : s'.contains a = true := by
  obtain ⟨b, hb, hab⟩ := List.contains_iff_exists_mem_beq.1 ha
  exact List.contains_iff_exists_mem_beq.2 ⟨b, h.subset hb, hab⟩

/-- A set that only continues another one, by members of that one, is that one. -/
theorem eq_of_prefix {s s' : OrderedSet α} (h : s.toList <+: s'.toList)
    (hs : ∀ a ∈ s'.toList, s.contains a = true) : s' = s := by
  obtain ⟨l, hl⟩ := h
  cases l with
  | nil =>
    rw [List.append_nil] at hl
    cases s
    cases s'
    cases hl
    rfl
  | cons b l =>
    -- the first of the others would equal one that comes before it
    have hb : b ∈ b :: l := List.mem_cons_self
    have hdistinct := s'.distinct
    rw [← hl] at hdistinct hs
    obtain ⟨a, ha, hba⟩ := List.contains_iff_exists_mem_beq.1 (hs b (List.mem_append_right _ hb))
    rw [(List.pairwise_append.1 hdistinct).2.2 a ha b hb] at hba
    cases hba

/-- Equal elements are members of the same sets. -/
theorem contains_congr [PartialEquivBEq α] (s : OrderedSet α) {a b : α} (h : (a == b) = true) :
    s.contains a = s.contains b := by
  rw [Bool.eq_iff_iff]
  simp only [contains, List.contains_iff_exists_mem_beq]
  constructor
  · rintro ⟨c, hc, hac⟩
    exact ⟨c, hc, BEq.trans (BEq.symm h) hac⟩
  · rintro ⟨c, hc, hbc⟩
    exact ⟨c, hc, BEq.trans h hbc⟩

/-- After an insertion the members are those of before and the one inserted. -/
theorem contains_insert [EquivBEq α] (s : OrderedSet α) (a b : α) :
    (s.insert a).contains b = (s.contains b || b == a) := by
  cases hsa : s.contains a with
  | true =>
    have hi : (s.insert a).toList = s.toList := by rw [toList_insert, if_pos hsa]
    cases hba : b == a with
    | false => rw [contains, hi, Bool.or_false, contains]
    | true => rw [contains, hi, Bool.or_true, ← contains, contains_congr s hba, hsa]
  | false =>
    have hi : (s.insert a).toList = s.toList ++ [a] := by rw [toList_insert, hsa]; rfl
    rw [contains, hi, List.contains_append, contains]
    simp

/-- After an erasure the members are those of before but the one erased. -/
theorem contains_erase [EquivBEq α] (s : OrderedSet α) (a b : α) :
    (s.erase a).contains b = (s.contains b && !(b == a)) := by
  obtain ⟨l, hl⟩ := s
  simp only [contains, toList_erase]
  induction l with
  | nil => rfl
  | cons c l ih =>
    obtain ⟨hc, hl⟩ := List.pairwise_cons.1 hl
    rw [List.erase_cons]
    by_cases hca : (c == a) = true
    · -- The member erased is the first one, which equals no later one.
      rw [if_pos hca, List.contains_cons]
      cases hba : b == a with
      | true =>
        have hbl : l.contains b = false := by
          refine Bool.eq_false_iff.2 fun hb => ?_
          obtain ⟨d, hd, hbd⟩ := List.contains_iff_exists_mem_beq.1 hb
          have hdc : (d == c) = true :=
            BEq.trans (BEq.trans (BEq.symm hbd) hba) (BEq.symm hca)
          exact Bool.eq_false_iff.1 (hc d hd) hdc
        rw [hbl, Bool.not_true, Bool.and_false]
      | false =>
        have hbc : (b == c) = false :=
          Bool.eq_false_iff.2 fun h => Bool.eq_false_iff.1 hba (BEq.trans h hca)
        rw [hbc, Bool.false_or, Bool.not_false, Bool.and_true]
    · rw [if_neg hca, List.contains_cons, List.contains_cons, ih hl]
      cases hbc : b == c with
      | true =>
        have hba : (b == a) = false :=
          Bool.eq_false_iff.2 fun h => hca (BEq.trans (BEq.symm hbc) h)
        simp [hba]
      | false => simp

theorem contains_foldl_insert [EquivBEq α] (s : OrderedSet α) (as : List α) (b : α) :
    (as.foldl insert s).contains b = (s.contains b || as.contains b) := by
  induction as generalizing s with
  | nil => exact (Bool.or_false _).symm
  | cons a as ih => rw [List.foldl_cons, ih, contains_insert, List.contains_cons, Bool.or_assoc]

/-- The members of the set of a list are those of the list. -/
theorem contains_ofList [EquivBEq α] (as : List α) (b : α) :
    (ofList as).contains b = as.contains b := by
  rw [ofList, contains_foldl_insert, contains_empty, Bool.false_or]

end OrderedSet

end Stochastic
