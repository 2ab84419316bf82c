import Stochastic.Proofs.Tensor.Index

/-!
# Nested lists of words

A nested list is a word or a list of nested lists.  A list of words is cut into a nested list by a
shape: along the outermost axis into as many parts as the axis is long, each of which has the words
of the axes further in, and so on.  An axis of length zero gives an empty list.

Nested lists are written in brackets with commas between the items.  A reader takes such a text
character by character.  It keeps the items of the lists that are still open, and what it expects
next, so that it accepts no text in which a bracket or a comma stands where none belongs.

## Main definitions

* `Nested`, `Nested.leaves`, `Nested.HasShape` — nested lists, their words and their shape.
* `Nested.split` — a list of words cut by a shape.
* `Nested.compact` — a nested list as it is written without blanks.
* `Nested.Reader`, `Nested.read?` — reading what is written.

## Main results

* `Nested.hasShape_split`, `Nested.leaves_split` — cutting gives the shape, and keeps the words in
  their order.
* `Nested.word?_split` — the word at an index stands at the place of the index.
* `Nested.eq_split` — only one nested list has this shape and these words.
* `Nested.read?_compact` — what is written is read back.
-/

namespace Stochastic

/-- A word, or a list of nested lists. -/
inductive Nested where
  | leaf (word : String)
  | list (items : List Nested)

namespace Nested

variable {shape : List Nat} {n size : Nat} {words : List String} {items : List Nested}

/-! ## Words and shape -/

mutual
/-- The words of a nested list, from left to right. -/
def leaves : Nested → List String
  | leaf word => [word]
  | list items => itemLeaves items
/-- The words of several nested lists, from left to right. -/
def itemLeaves : List Nested → List String
  | [] => []
  | item :: items => item.leaves ++ itemLeaves items
end

theorem itemLeaves_eq (items : List Nested) : itemLeaves items = items.flatMap leaves := by
  induction items with
  | nil => rfl
  | cons item items ih => rw [itemLeaves, ih, List.flatMap_cons]

/-- There are as many lists above each word as the shape has axes, and each is as long as its
axis. -/
def HasShape : List Nat → Nested → Prop
  | [], leaf _ => True
  | n :: shape, list items => items.length = n ∧ ∀ item ∈ items, HasShape shape item
  | _, _ => False

/-- The word at an index, outermost axis first. -/
def word? : Nested → List Nat → Option String
  | leaf word, [] => some word
  | list items, i :: index => items[i]?.bind fun item => item.word? index
  | _, _ => none

/-! ## Cutting a list of words -/

/-- The first `n` parts of a list, each of them `size` long. -/
def chunks {α : Type} (size : Nat) : (n : Nat) → List α → List (List α)
  | 0, _ => []
  | n + 1, as => as.take size :: chunks size n (as.drop size)

/-- A list of words cut by a shape. -/
def split : List Nat → List String → Nested
  | [], words => leaf (words.headD "")
  | n :: shape, words => list ((chunks (volume shape) n words).map (split shape))

section Chunks

variable {α : Type} {as : List α}

theorem length_chunks (size n : Nat) (as : List α) : (chunks size n as).length = n := by
  induction n generalizing as with
  | zero => rfl
  | succ n ih => rw [chunks, List.length_cons, ih]

/-- The parts are the slices at multiples of their length. -/
theorem chunks_eq (size n : Nat) (as : List α) :
    chunks size n as = (List.range n).map fun i => (as.drop (i * size)).take size := by
  induction n generalizing as with
  | zero => rfl
  | succ n ih =>
    rw [chunks, ih, List.range_succ_eq_map, List.map_cons, List.map_map, Nat.zero_mul,
      List.drop_zero]
    congr 1
    apply List.map_congr_left
    intro i _
    show ((as.drop size).drop (i * size)).take size = (as.drop ((i + 1) * size)).take size
    rw [List.drop_drop, Nat.succ_mul, Nat.add_comm]

theorem length_of_mem_chunks (h : n * size = as.length) :
    ∀ part ∈ chunks size n as, part.length = size := by
  induction n generalizing as with
  | zero => exact fun part hpart => absurd hpart List.not_mem_nil
  | succ n ih =>
    rw [Nat.succ_mul] at h
    refine List.forall_mem_cons.2 ⟨?_, ih ?_⟩
    · rw [List.length_take]
      omega
    · rw [List.length_drop]
      omega

theorem flatten_chunks (h : n * size = as.length) : (chunks size n as).flatten = as := by
  induction n generalizing as with
  | zero =>
    rw [Nat.zero_mul] at h
    exact (List.eq_nil_of_length_eq_zero h.symm).symm
  | succ n ih =>
    rw [Nat.succ_mul] at h
    rw [chunks, List.flatten_cons, ih (by rw [List.length_drop]; omega), List.take_append_drop]

theorem mem_of_mem_chunks {part : List α} {a : α} (h : part ∈ chunks size n as) (ha : a ∈ part) :
    a ∈ as := by
  rw [chunks_eq] at h
  obtain ⟨i, -, rfl⟩ := List.mem_map.1 h
  exact List.mem_of_mem_drop (List.mem_of_mem_take ha)

theorem chunks_map {β : Type} (f : α → β) (size n : Nat) (as : List α) :
    chunks size n (as.map f) = (chunks size n as).map (List.map f) := by
  induction n generalizing as with
  | zero => rfl
  | succ n ih => rw [chunks, chunks, List.map_cons, List.map_take, ← List.map_drop, ih]

theorem heads_chunks (words : List String) :
    (chunks 1 words.length words).map (fun part => part.headD "") = words := by
  induction words with
  | nil => rfl
  | cons word words ih =>
    rw [List.length_cons, chunks, List.map_cons, List.drop_one, List.tail_cons, ih]
    rfl

end Chunks

/-- Cutting gives the shape. -/
theorem hasShape_split (shape : List Nat) (words : List String) :
    (split shape words).HasShape shape := by
  induction shape generalizing words with
  | nil => trivial
  | cons n shape ih =>
    refine ⟨by rw [List.length_map, length_chunks], ?_⟩
    intro item hitem
    obtain ⟨part, -, rfl⟩ := List.mem_map.1 hitem
    exact ih part

/-- Cutting keeps each word, once and in its place. -/
theorem leaves_split (h : volume shape = words.length) : (split shape words).leaves = words := by
  induction shape generalizing words with
  | nil =>
    obtain ⟨word, rfl⟩ := List.length_eq_one_iff.1 h.symm
    rfl
  | cons n shape ih =>
    have h : n * volume shape = words.length := h
    have hparts : (chunks (volume shape) n words).map (fun part => (split shape part).leaves) =
        chunks (volume shape) n words := by
      rw [List.map_congr_left fun part hpart => ih (length_of_mem_chunks h part hpart).symm,
        List.map_id']
    rw [split, leaves, itemLeaves_eq, List.flatMap_map, List.flatMap_def, hparts, flatten_chunks h]

/-- The words are cut in row-major order: the word at an index stands at the place of the index. -/
theorem word?_split {index : List Nat} (hindex : List.Forall₂ (· < ·) index shape)
    (h : volume shape = words.length) :
    (split shape words).word? index = words[position shape index]? := by
  induction hindex generalizing words with
  | nil =>
    obtain ⟨word, rfl⟩ := List.length_eq_one_iff.1 h.symm
    rfl
  | @cons i n index shape hi hindex ih =>
    have h : n * volume shape = words.length := h
    have hpart : (chunks (volume shape) n words)[i]? =
        some ((words.drop (i * volume shape)).take (volume shape)) := by
      rw [chunks_eq, List.getElem?_map, List.getElem?_range hi, Option.map_some]
    have hlength := length_of_mem_chunks h _ (List.mem_of_getElem? hpart)
    have hplace : position shape index < volume shape := position_lt hindex
    show (((chunks (volume shape) n words).map (split shape))[i]?.bind fun item =>
      item.word? index) = _
    rw [List.getElem?_map, hpart, Option.map_some, Option.bind_some, ih hlength.symm,
      List.getElem?_take_of_lt hplace, List.getElem?_drop]
    rfl

theorem length_leaves {t : Nested} (h : t.HasShape shape) : t.leaves.length = volume shape := by
  induction shape generalizing t with
  | nil =>
    cases t with
    | leaf word => rfl
    | list items => exact h.elim
  | cons n shape ih =>
    cases t with
    | leaf word => exact h.elim
    | list items =>
      obtain ⟨rfl, hitems⟩ := h
      show (itemLeaves items).length = items.length * volume shape
      induction items with
      | nil => rw [itemLeaves, List.length_nil, List.length_nil, Nat.zero_mul]
      | cons item items ihitems =>
        obtain ⟨hitem, hitems⟩ := List.forall_mem_cons.1 hitems
        rw [itemLeaves, List.length_append, ih hitem, ihitems hitems, List.length_cons,
          Nat.succ_mul, Nat.add_comm]

/-- **Only one nested list has a given shape and given words.** -/
theorem eq_split {t : Nested} (h : t.HasShape shape) : t = split shape t.leaves := by
  induction shape generalizing t with
  | nil =>
    cases t with
    | leaf word => rfl
    | list items => exact h.elim
  | cons n shape ih =>
    cases t with
    | leaf word => exact h.elim
    | list items =>
      obtain ⟨rfl, hitems⟩ := h
      show list items =
        list ((chunks (volume shape) items.length (itemLeaves items)).map (split shape))
      congr 1
      induction items with
      | nil => rfl
      | cons item items ihitems =>
        obtain ⟨hitem, hitems⟩ := List.forall_mem_cons.1 hitems
        have hlength := length_leaves hitem
        -- the first part has the words of the first item
        rw [itemLeaves, List.length_cons, chunks, List.map_cons, List.take_left' hlength,
          List.drop_left' hlength, ← ihitems hitems, ← ih hitem]

/-! ## Writing -/

mutual
/-- A nested list as it is written without blanks. -/
def compact : Nested → List Char
  | leaf word => word.toList
  | list items => '[' :: (compactItems items ++ [']'])
/-- The items of a list as they are written without blanks. -/
def compactItems : List Nested → List Char
  | [] => []
  | [item] => item.compact
  | item :: next :: items => item.compact ++ ',' :: compactItems (next :: items)
end

theorem compactItems_eq (items : List Nested) :
    compactItems items = [','].intercalate (items.map compact) := by
  induction items with
  | nil => rfl
  | cons item items ih =>
    cases items with
    | nil => rw [compactItems, List.map_cons, List.map_nil, List.intercalate_singleton]
    | cons next items =>
      rw [compactItems, ih, List.map_cons, List.map_cons, List.map_cons,
        List.intercalate_cons_cons, List.append_assoc]
      rfl

/-! ## Reading -/

/-- What has just been read, and hence what may come next. -/
inductive Pending where
  /-- A list has been opened; an item comes, or the list ends. -/
  | fresh
  /-- A comma has been read, or nothing at all; an item comes. -/
  | due
  /-- These characters of a word have been read. -/
  | word (cs : List Char)
  /-- A list with these items has ended. -/
  | closed (items : List Nested)

/-- The item that has been read, if one has. -/
def Pending.item? : Pending → Option Nested
  | .fresh => none
  | .due => none
  | .word cs => some (.leaf (String.ofList cs))
  | .closed items => some (.list items)

/-- The state of the reader: the items so far of each list that is open, innermost first, and what
has just been read. -/
structure Reader where
  stack : List (List Nested)
  pending : Pending

namespace Reader

/-- A list is opened where an item may come. -/
def enter : Reader → Option Reader
  | ⟨stack, .fresh⟩ => some ⟨[] :: stack, .fresh⟩
  | ⟨stack, .due⟩ => some ⟨[] :: stack, .fresh⟩
  | _ => none

/-- A list ends behind an item, or as soon as it has been opened. -/
def leave : Reader → Option Reader
  | ⟨items :: stack, .fresh⟩ => some ⟨stack, .closed items⟩
  | ⟨items :: stack, pending⟩ =>
    pending.item?.map fun item => ⟨stack, .closed (items ++ [item])⟩
  | _ => none

/-- A comma comes behind an item of a list. -/
def next : Reader → Option Reader
  | ⟨items :: stack, pending⟩ => pending.item?.map fun item => ⟨(items ++ [item]) :: stack, .due⟩
  | _ => none

/-- Any other character belongs to a word. -/
def extend (c : Char) : Reader → Option Reader
  | ⟨stack, .fresh⟩ => some ⟨stack, .word [c]⟩
  | ⟨stack, .due⟩ => some ⟨stack, .word [c]⟩
  | ⟨stack, .word cs⟩ => some ⟨stack, .word (cs ++ [c])⟩
  | _ => none

/-- Reads one character, if it may come. -/
def step (s : Reader) (c : Char) : Option Reader :=
  if c = '[' then s.enter
  else if c = ']' then s.leave
  else if c = ',' then s.next
  else s.extend c

/-- What has been read when no list is open any more. -/
def finish : Reader → Option Nested
  | ⟨[], pending⟩ => pending.item?
  | _ => none

end Reader

/-- The nested list that a text without blanks is. -/
def read? (cs : List Char) : Option Nested := (cs.foldlM Reader.step ⟨[], .due⟩).bind Reader.finish

/-! ## Reading back -/

/-- A word that cannot be taken for anything else: it is not empty and has no brackets and
commas. -/
def IsWord (word : String) : Prop :=
  word ≠ "" ∧ ∀ c ∈ word.toList, c ≠ '[' ∧ c ≠ ']' ∧ c ≠ ','

/-- What has just been read when a nested list has been. -/
def pending : Nested → Pending
  | leaf word => .word word.toList
  | list items => .closed items

theorem item?_pending (t : Nested) : t.pending.item? = some t := by
  cases t with
  | leaf word => rw [pending, Pending.item?, String.ofList_toList]
  | list items => rfl

/-- An item may come. -/
def Pending.TakesItem : Pending → Prop
  | .fresh => True
  | .due => True
  | _ => False

theorem step_extend {s : Reader} {c : Char} (hc : c ≠ '[' ∧ c ≠ ']' ∧ c ≠ ',') :
    s.step c = s.extend c := by
  rw [Reader.step, if_neg hc.1, if_neg hc.2.1, if_neg hc.2.2]

/-- The reader goes on with a word that it has begun. -/
theorem run_word {cs ds : List Char} (stack : List (List Nested))
    (hds : ∀ c ∈ ds, c ≠ '[' ∧ c ≠ ']' ∧ c ≠ ',') :
    ds.foldlM Reader.step ⟨stack, .word cs⟩ = some ⟨stack, .word (cs ++ ds)⟩ := by
  induction ds generalizing cs with
  | nil => rw [List.append_nil]; rfl
  | cons d ds ih =>
    obtain ⟨hd, hds⟩ := List.forall_mem_cons.1 hds
    rw [List.foldlM_cons, step_extend hd, List.append_cons]
    exact ih hds

/-- The reader takes a whole word where an item may come. -/
theorem run_leaf {word : String} (hword : IsWord word) (stack : List (List Nested)) {p : Pending}
    (hp : p.TakesItem) :
    word.toList.foldlM Reader.step ⟨stack, p⟩ = some ⟨stack, .word word.toList⟩ := by
  obtain ⟨hne, hchars⟩ := hword
  cases hcs : word.toList with
  | nil => exact absurd (String.toList_eq_nil_iff.1 hcs) hne
  | cons c cs =>
    rw [hcs] at hchars
    obtain ⟨hc, hcs⟩ := List.forall_mem_cons.1 hchars
    have hfirst : Reader.step ⟨stack, p⟩ c = some ⟨stack, .word [c]⟩ := by
      rw [step_extend hc]
      cases p with
      | fresh => rfl
      | due => rfl
      | _ => exact hp.elim
    rw [List.foldlM_cons, hfirst]
    exact run_word stack hcs

theorem step_enter {p : Pending} (hp : p.TakesItem) (stack : List (List Nested)) :
    Reader.step ⟨stack, p⟩ '[' = some ⟨[] :: stack, .fresh⟩ := by
  cases p with
  | fresh => rfl
  | due => rfl
  | _ => exact hp.elim

/-- A list ends behind any item. -/
theorem step_leave (t : Nested) (items : List Nested) (stack : List (List Nested)) :
    Reader.step ⟨items :: stack, t.pending⟩ ']' = some ⟨stack, .closed (items ++ [t])⟩ := by
  cases t with
  | leaf word =>
    show some (Reader.mk stack (.closed (items ++ [leaf (String.ofList word.toList)]))) = _
    rw [String.ofList_toList]
  | list inner => rfl

theorem step_next (t : Nested) (items : List Nested) (stack : List (List Nested)) :
    Reader.step ⟨items :: stack, t.pending⟩ ',' = some ⟨(items ++ [t]) :: stack, .due⟩ :=
  congrArg (Option.map _) (item?_pending t)

mutual
/-- The reader takes a nested list where an item may come, and keeps the lists that are open. -/
theorem run_compact : ∀ (t : Nested), (∀ word ∈ t.leaves, IsWord word) →
    ∀ (stack : List (List Nested)) {p : Pending}, p.TakesItem →
    t.compact.foldlM Reader.step ⟨stack, p⟩ = some ⟨stack, t.pending⟩
  | leaf word, hwords, stack, p, hp =>
    run_leaf (hwords word (List.mem_singleton.2 rfl)) stack hp
  | list [], _, stack, p, hp => by
    rw [compact, List.foldlM_cons, step_enter hp]
    rfl
  | list (item :: items), hwords, stack, p, hp => by
    rw [compact, List.foldlM_cons, step_enter hp]
    exact run_compactItems (item :: items) (List.cons_ne_nil _ _) hwords [] stack trivial
/-- The reader takes the items of a list up to its end. -/
theorem run_compactItems : ∀ items : List Nested, items ≠ [] →
    (∀ word ∈ itemLeaves items, IsWord word) →
    ∀ (before : List Nested) (stack : List (List Nested)) {p : Pending}, p.TakesItem →
    (compactItems items ++ [']']).foldlM Reader.step ⟨before :: stack, p⟩ =
      some ⟨stack, .closed (before ++ items)⟩
  | [], h, _, _, _, _, _ => absurd rfl h
  | [item], _, hwords, before, stack, p, hp => by
    have hitem : ∀ word ∈ item.leaves, IsWord word := by
      rwa [itemLeaves, itemLeaves, List.append_nil] at hwords
    rw [compactItems, List.foldlM_append, run_compact item hitem _ hp]
    exact congrArg (Option.bind · some) (step_leave item before stack)
  | item :: next :: items, _, hwords, before, stack, p, hp => by
    rw [itemLeaves] at hwords
    obtain ⟨hitem, hitems⟩ := List.forall_mem_append.1 hwords
    have hrest := run_compactItems (next :: items) (List.cons_ne_nil _ _) hitems
      (before ++ [item]) stack (p := .due) trivial
    rw [compactItems, List.append_assoc, List.foldlM_append, run_compact item hitem _ hp,
      List.append_cons before]
    rw [← hrest]
    show Option.bind (Reader.step ⟨before :: stack, item.pending⟩ ',') _ = _
    rw [step_next]
    rfl
end

/-- **What is written is read back.** -/
theorem read?_compact {t : Nested} (hwords : ∀ word ∈ t.leaves, IsWord word) :
    read? t.compact = some t := by
  rw [read?, run_compact t hwords [] (p := .due) trivial]
  exact item?_pending t

end Nested

end Stochastic
