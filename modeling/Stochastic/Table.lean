/-!
# Tables in order of insertion

A finite map that remembers the order in which its keys came.  Keys are compared
by `==`; a table keeps the first of several equal spellings of a key, and
replacing a value keeps the place of its key.

## Main definitions

* `Table` — keys with their values, first come first, no two keys equal.
* `Table.get?`, `Table.insert`, `Table.erase`, `Table.modify`.

## Main results

* `Table.get?_insert`, `Table.get?_erase` — what a table holds after a change.
* `Table.get?_eq_some_iff` — a table holds exactly its entries.
-/

namespace Stochastic

/-- A finite map with its keys in order of insertion. -/
structure Table (κ ν : Type) [BEq κ] where
  entries : List (κ × ν)
  /-- No key equals a later one. -/
  distinct : entries.Pairwise fun e e' => (e.1 == e'.1) = false

namespace Table

variable {κ ν : Type} [BEq κ]

/-- The table without entries. -/
def empty : Table κ ν := ⟨[], .nil⟩

instance : Inhabited (Table κ ν) := ⟨empty⟩

/-- The keys, in order. -/
def keys (t : Table κ ν) : List κ := t.entries.map Prod.fst

/-- The values, in the order of their keys. -/
def values (t : Table κ ν) : List ν := t.entries.map Prod.snd

/-- How many entries there are. -/
def size (t : Table κ ν) : Nat := t.entries.length

/-- Whether there are no entries. -/
def isEmpty (t : Table κ ν) : Bool := t.entries.isEmpty

/-- The value of a key in a list of entries. -/
def lookup (k : κ) : List (κ × ν) → Option ν
  | [] => none
  | (k', v) :: es => if k' == k then some v else lookup k es

/-- The value of a key. -/
def get? (t : Table κ ν) (k : κ) : Option ν := lookup k t.entries

/-- Whether a key has a value. -/
def contains (t : Table κ ν) (k : κ) : Bool := (t.get? k).isSome

/-- Sets the value of a key in a list of entries. -/
def insertEntry (k : κ) (v : ν) : List (κ × ν) → List (κ × ν)
  | [] => [(k, v)]
  | (k', v') :: es => if k' == k then (k', v) :: es else (k', v') :: insertEntry k v es

/-- Setting the value of a key leaves the other keys alone. -/
theorem fst_of_mem_insertEntry {k : κ} {v : ν} {es : List (κ × ν)} {e : κ × ν}
    (h : e ∈ insertEntry k v es) : e.1 = k ∨ ∃ e' ∈ es, e.1 = e'.1 := by
  induction es with
  | nil => exact .inl (congrArg Prod.fst (List.mem_singleton.1 h))
  | cons e' es ih =>
    unfold insertEntry at h
    split at h
    · rcases List.mem_cons.1 h with rfl | h
      · exact .inr ⟨e', List.mem_cons_self, rfl⟩
      · exact .inr ⟨e, List.mem_cons_of_mem _ h, rfl⟩
    · rcases List.mem_cons.1 h with rfl | h
      · exact .inr ⟨_, List.mem_cons_self, rfl⟩
      · rcases ih h with h | ⟨e'', he'', h⟩
        · exact .inl h
        · exact .inr ⟨e'', List.mem_cons_of_mem _ he'', h⟩

theorem pairwise_insertEntry {es : List (κ × ν)} (k : κ) (v : ν)
    (h : es.Pairwise fun e e' => (e.1 == e'.1) = false) :
    (insertEntry k v es).Pairwise fun e e' => (e.1 == e'.1) = false := by
  induction es with
  | nil => exact List.pairwise_singleton ..
  | cons e es ih =>
    obtain ⟨he, hes⟩ := List.pairwise_cons.1 h
    unfold insertEntry
    split
    · exact List.pairwise_cons.2 ⟨he, hes⟩
    · next hk =>
      refine List.pairwise_cons.2 ⟨fun e' he' => ?_, ih hes⟩
      rcases fst_of_mem_insertEntry he' with h | ⟨e'', he'', h⟩
      · rw [h]
        exact Bool.eq_false_iff.2 hk
      · rw [h]
        exact he e'' he''

/-- Sets the value of a key: in its place if the key is there, behind the other
entries if it is not. -/
def insert (t : Table κ ν) (k : κ) (v : ν) : Table κ ν :=
  ⟨insertEntry k v t.entries, pairwise_insertEntry k v t.distinct⟩

/-- Removes a key; the others keep their order. -/
def erase (t : Table κ ν) (k : κ) : Table κ ν :=
  ⟨t.entries.eraseP fun e => e.1 == k, t.distinct.sublist List.eraseP_sublist⟩

/-- Changes the value of a key, if it has one. -/
def modify (t : Table κ ν) (k : κ) (f : ν → ν) : Table κ ν :=
  match t.get? k with
  | some v => t.insert k (f v)
  | none => t

/-- The table of a list of entries, the last value of a key winning. -/
def ofList (es : List (κ × ν)) : Table κ ν := es.foldl (fun t e => t.insert e.1 e.2) empty

/-! ## What a table holds -/

@[simp] theorem get?_empty (k : κ) : (empty : Table κ ν).get? k = none := rfl

theorem lookup_insertEntry [PartialEquivBEq κ] (k k' : κ) (v : ν) (es : List (κ × ν)) :
    lookup k' (insertEntry k v es) = if k == k' then some v else lookup k' es := by
  induction es with
  | nil => simp [insertEntry, lookup]
  | cons e es ih =>
    simp only [insertEntry]
    by_cases h : e.1 == k
    · have hk : (e.1 == k') = (k == k') := BEq.congr_left h
      by_cases h' : k == k' <;> simp [lookup, h, hk, h']
    · by_cases h' : e.1 == k'
      · have hk : (k == k') = false := by
          cases hkk : k == k' with
          | false => rfl
          | true => exact absurd (BEq.trans h' (BEq.symm hkk)) h
        simp [lookup, h, h', hk]
      · simp [lookup, h, h', ih]

/-- After an insertion the key has the new value and every other key has what
it had. -/
theorem get?_insert [PartialEquivBEq κ] (t : Table κ ν) (k k' : κ) (v : ν) :
    (t.insert k v).get? k' = if k == k' then some v else t.get? k' :=
  lookup_insertEntry k k' v t.entries

theorem insertEntry_of_lookup {k : κ} {es : List (κ × ν)} (h : lookup k es = none) (v : ν) :
    insertEntry k v es = es ++ [(k, v)] := by
  induction es with
  | nil => rfl
  | cons e es ih =>
    rw [lookup] at h
    by_cases hk : (e.1 == k) = true
    · rw [if_pos hk] at h
      cases h
    · rw [if_neg hk] at h
      rw [insertEntry, if_neg hk, ih h, List.cons_append]

/-- A new key comes behind the others. -/
theorem entries_insert_of_get? {t : Table κ ν} {k : κ} (h : t.get? k = none) (v : ν) :
    (t.insert k v).entries = t.entries ++ [(k, v)] :=
  insertEntry_of_lookup h v

theorem lookup_congr [PartialEquivBEq κ] {k k' : κ} (h : (k == k') = true)
    (es : List (κ × ν)) : lookup k es = lookup k' es := by
  induction es with
  | nil => rfl
  | cons e es ih => simp only [lookup, ih, BEq.congr_right h]

/-- Equal keys have the same value. -/
theorem get?_congr [PartialEquivBEq κ] (t : Table κ ν) {k k' : κ} (h : (k == k') = true) :
    t.get? k = t.get? k' :=
  lookup_congr h t.entries

/-- A key that no entry has has no value. -/
theorem lookup_eq_none {k : κ} {es : List (κ × ν)} (h : ∀ e ∈ es, (e.1 == k) = false) :
    lookup k es = none := by
  induction es with
  | nil => rfl
  | cons e es ih =>
    rw [lookup, h e List.mem_cons_self, if_neg Bool.false_ne_true]
    exact ih fun e' he' => h e' (List.mem_cons_of_mem _ he')

/-- After an erasure the key has no value and every other key has what it had. -/
theorem get?_erase [PartialEquivBEq κ] (t : Table κ ν) (k k' : κ) :
    (t.erase k).get? k' = if k == k' then none else t.get? k' := by
  obtain ⟨es, hes⟩ := t
  simp only [erase, get?]
  induction es with
  | nil => simp [lookup]
  | cons e es ih =>
    obtain ⟨he, hes⟩ := List.pairwise_cons.1 hes
    rw [List.eraseP_cons]
    by_cases h : (e.1 == k) = true
    · rw [h, cond_true]
      by_cases hkk : (k == k') = true
      · -- The entry erased is the first one, and no later entry has its key.
        rw [if_pos hkk]
        refine lookup_eq_none fun e' he' => Bool.eq_false_iff.2 fun hek => ?_
        exact Bool.eq_false_iff.1 (he e' he')
          (BEq.trans h (BEq.trans hkk (BEq.symm hek)))
      · have hek : (e.1 == k') = false := by
          rw [BEq.congr_left h]
          exact Bool.eq_false_iff.2 hkk
        rw [if_neg hkk, lookup, hek, if_neg Bool.false_ne_true]
    · rw [Bool.eq_false_iff.2 h, cond_false, lookup, lookup, ih hes]
      by_cases hkk : (k == k') = true
      · have hek : (e.1 == k') = false := by
          rw [← BEq.congr_right hkk]
          exact Bool.eq_false_iff.2 h
        simp [hkk, hek]
      · simp [hkk]

/-- The value of a key is that of an entry with an equal key. -/
theorem get?_eq_some_iff [EquivBEq κ] (t : Table κ ν) {k : κ} {v : ν} :
    t.get? k = some v ↔ ∃ k', (k' == k) = true ∧ (k', v) ∈ t.entries := by
  obtain ⟨es, hes⟩ := t
  simp only [get?]
  induction es with
  | nil => simp [lookup]
  | cons e es ih =>
    obtain ⟨he, hes⟩ := List.pairwise_cons.1 hes
    rw [lookup]
    by_cases h : (e.1 == k) = true
    · rw [if_pos h]
      constructor
      · rintro ⟨⟩
        exact ⟨e.1, h, List.mem_cons_self⟩
      · rintro ⟨k', hk', hmem⟩
        rcases List.mem_cons.1 hmem with rfl | hmem
        · rfl
        · exact absurd (BEq.trans h (BEq.symm hk')) (Bool.eq_false_iff.1 (he _ hmem))
    · rw [if_neg h, ih hes]
      constructor
      · rintro ⟨k', hk', hmem⟩
        exact ⟨k', hk', List.mem_cons_of_mem _ hmem⟩
      · rintro ⟨k', hk', hmem⟩
        rcases List.mem_cons.1 hmem with rfl | hmem
        · exact absurd hk' h
        · exact ⟨k', hk', hmem⟩

/-- After the insertion of entries with distinct keys, a key has the value of its entry, or else
what it had. -/
theorem get?_foldl_insert [PartialEquivBEq κ] (es : List (κ × ν))
    (hes : es.Pairwise fun e e' => (e.1 == e'.1) = false) (t : Table κ ν) (k : κ) :
    (es.foldl (fun t e => t.insert e.1 e.2) t).get? k = (lookup k es).or (t.get? k) := by
  induction es generalizing t with
  | nil => simp [lookup]
  | cons e es ih =>
    obtain ⟨he, hes⟩ := List.pairwise_cons.1 hes
    rw [List.foldl_cons, ih hes, get?_insert, lookup]
    by_cases hk : (e.1 == k) = true
    · have hn : lookup k es = none := by
        rw [← lookup_congr hk]
        exact lookup_eq_none fun e' he' => Bool.eq_false_iff.2 fun h =>
          Bool.eq_false_iff.1 (he e' he') (BEq.symm h)
      rw [if_pos hk, if_pos hk, hn, Option.none_or, Option.some_or]
    · rw [if_neg hk, if_neg hk]

/-- After the erasure of several keys these have no value and every other key has what it
had. -/
theorem get?_foldl_erase [EquivBEq κ] (ks : List κ) (t : Table κ ν) (k : κ) :
    (ks.foldl erase t).get? k = if ks.contains k then none else t.get? k := by
  induction ks generalizing t with
  | nil => rfl
  | cons k' ks ih =>
    rw [List.foldl_cons, ih, get?_erase, List.contains_cons, BEq.comm]
    cases k == k' <;> simp

/-- What is left of a list of entries after its keys have been filtered. -/
theorem lookup_filter [PartialEquivBEq κ] {p : κ → Bool} (k : κ) (es : List (κ × ν))
    (hp : ∀ k', (k' == k) = true → p k' = p k) :
    lookup k (es.filter fun e => p e.1) = if p k then lookup k es else none := by
  induction es with
  | nil => simp [lookup]
  | cons e es ih =>
    rw [List.filter_cons]
    by_cases hk : (e.1 == k) = true
    · rw [hp e.1 hk]
      cases hpk : p k with
      | true => simp [lookup, hk]
      | false => simpa [hpk] using ih
    · cases hpe : p e.1 <;> simp [lookup, hk, ih]

end Table

end Stochastic
