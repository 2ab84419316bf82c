import Stochastic.Proofs.Json.Numeral
import Stochastic.Proofs.Tensor.Bounds
import Stochastic.Proofs.Tensor.Nested

/-!
# The text of a tensor follows its nesting

The elements of a tensor are written one by one, aligned, and cut out of one flat list by strides
that are computed from the shape.  What is printed is nevertheless the nested list that the shape
says: it is laid out with line breaks and blanks that depend on the depth only, and reading it
without these gives the texts of the elements, nested as the shape says.

The printer is followed once more with everything it relies on checked: each slice must lie within
the elements, and the number of line breaks, which is a difference, must not fall below zero.  For a
well formed tensor all checks succeed, also where axes of length zero make strides zero.

## Main definitions

* `Tensor.texts` — the texts of the elements before they are aligned.
* `Nested.layout` — a nested list with line breaks and blanks.
* `Tensor.written?` — the printer with its checks.

## Main results

* `Tensor.isPlainText_cellText` — the text of an element has no brackets, commas and blanks.
* `Tensor.block_eq_layout` — what is printed is the nested list of the aligned texts.
* `Tensor.written?_eq` — the checks succeed.
* `Tensor.filter_layout_split` — without line breaks and blanks the nested list of the texts is
  left.
* `Tensor.text_nested` — all of it for the text of a tensor.
-/

namespace Stochastic

/-! ## Layout of nested lists -/

namespace Nested

/-- What stands between two items of a list that is `depth` lists deep, if the words are `rank`
lists deep: a comma, and where the items are lists themselves, line breaks and blanks. -/
def gap (rank depth : Nat) : String :=
  if depth + 1 < rank then
    String.ofList
      (',' :: (List.replicate (rank - depth - 1) '\n' ++ List.replicate (depth + 8) ' '))
  else ", "

theorem gap_of_lt {rank depth : Nat} (h : depth + 1 < rank) :
    gap rank depth = Tensor.separator (rank - depth - 1) depth := by
  rw [gap, if_pos h, Tensor.separator, ← String.toList_inj]
  simp only [String.toList_ofList, String.toList_append]
  rfl

mutual
/-- A nested list as it is printed. -/
def layout (rank depth : Nat) : Nested → String
  | leaf word => word
  | list items => "[" ++ (gap rank depth).intercalate (layoutItems rank (depth + 1) items) ++ "]"
/-- The items of a list as they are printed. -/
def layoutItems (rank depth : Nat) : List Nested → List String
  | [] => []
  | item :: items => item.layout rank depth :: layoutItems rank depth items
end

theorem layoutItems_eq (rank depth : Nat) (items : List Nested) :
    layoutItems rank depth items = items.map (layout rank depth) := by
  induction items with
  | nil => rfl
  | cons item items ih => rw [layoutItems, ih, List.map_cons]

end Nested

namespace Tensor

variable {rank depth width n : Nat} {shape : List Nat} {words : List String} {c : Char}

/-! ## The texts of the elements -/

/-- The texts of the elements before they are aligned. -/
def texts (data : List Float) : List String :=
  data.map (cellText (data.all fun x => !x.isFinite || Decimal.isIntegral x))

/-- The length of the longest text. -/
def widest (words : List String) : Nat := (words.map String.length).foldl max 0

theorem cells_eq (data : List Float) :
    cells data = (texts data).map (alignRight (widest (texts data))) := rfl

theorem length_texts (data : List Float) : (texts data).length = data.length := List.length_map ..

/-- The characters that the texts of elements are made of. -/
def isPlain (c : Char) : Bool := c.isDigit || ['-', '.', 'n', 'a', 'i', 'f'].contains c

theorem isPlain_of_isDigit (h : c.isDigit = true) : isPlain c = true := by
  rw [isPlain, h, Bool.true_or]

/-- There is something, and nothing but such characters. -/
def IsPlainText (word : String) : Prop := word ≠ "" ∧ ∀ c ∈ word.toList, isPlain c = true

theorem isPlainText_fixed (places : Nat) (x : Float) : IsPlainText (Decimal.fixed places x) := by
  have hdigits : ∀ k, ∀ c ∈ Nat.toDigits 10 k, isPlain c = true := fun k c hc =>
    isPlain_of_isDigit ((Decimal.isRun_toDigits k).2 c hc)
  constructor
  · -- there is a digit before the point
    intro h
    have hchars := congrArg String.toList h
    simp only [Decimal.fixed, String.toList_append, String.toList_ofList] at hchars
    have hwhole := List.append_eq_nil_iff.1 (List.append_eq_nil_iff.1 hchars).1
    exact Nat.toDigits_ne_nil hwhole.2
  · intro c hc
    simp only [Decimal.fixed, String.toList_append, List.mem_append, String.toList_ofList] at hc
    rcases hc with (hsign | hwhole) | hrest
    · rw [Decimal.signText] at hsign
      split at hsign
      · obtain rfl := List.mem_singleton.1 hsign
        rfl
      · cases hsign
    · exact hdigits _ c hwhole
    · split at hrest
      · cases hrest
      · rw [String.toList_append, List.mem_append] at hrest
        rcases hrest with hpoint | hplaces
        · obtain rfl := List.mem_singleton.1 hpoint
          rfl
        · -- the digits behind the point begin with zeros
          rw [String.toList_ofList, Decimal.padded, List.mem_append] at hplaces
          rcases hplaces with hzero | hdigit
          · exact isPlain_of_isDigit (Decimal.isDigit_of_mem_replicate hzero)
          · exact hdigits _ c hdigit

theorem IsPlainText.append_point {word : String} (h : IsPlainText word) :
    IsPlainText (word ++ ".") := by
  refine ⟨fun hempty => h.1 (String.append_eq_empty_iff.1 hempty).1, fun c hc => ?_⟩
  rw [String.toList_append, List.mem_append] at hc
  rcases hc with hc | hc
  · exact h.2 c hc
  · obtain rfl := List.mem_singleton.1 hc
    rfl

/-- **The text of an element is made of digits, points, signs and a few letters.** -/
theorem isPlainText_cellText (integral : Bool) (x : Float) :
    IsPlainText (cellText integral x) := by
  rw [cellText]
  split
  · exact ⟨by decide, List.all_eq_true.1 (by decide)⟩
  · split
    · split
      · exact ⟨by decide, List.all_eq_true.1 (by decide)⟩
      · exact ⟨by decide, List.all_eq_true.1 (by decide)⟩
    · split
      · exact (isPlainText_fixed 0 x).append_point
      · exact isPlainText_fixed 4 x

theorem isPlainText_of_mem_texts {data : List Float} {word : String} (h : word ∈ texts data) :
    IsPlainText word := by
  obtain ⟨x, -, rfl⟩ := List.mem_map.1 h
  exact isPlainText_cellText _ x

/-- So it can be told apart from brackets and commas. -/
theorem IsPlainText.isWord {word : String} (h : IsPlainText word) : Nested.IsWord word := by
  refine ⟨h.1, fun c hc => ?_⟩
  have hplain := h.2 c hc
  refine ⟨?_, ?_, ?_⟩ <;>
  · rintro rfl
    cases hplain

/-! ## Line breaks and blanks -/

/-- Whether a character is neither a blank nor a line break. -/
def isSolid (c : Char) : Bool := c != ' ' && c != '\n'

theorem isSolid_of_isPlain (h : isPlain c = true) : isSolid c = true := by
  rw [isSolid, Bool.and_eq_true, bne_iff_ne, bne_iff_ne]
  constructor <;>
  · rintro rfl
    cases h

theorem filter_alignRight {word : String} (h : ∀ c ∈ word.toList, isSolid c = true) :
    (alignRight width word).toList.filter isSolid = word.toList := by
  rw [alignRight, String.toList_append, String.toList_ofList, List.filter_append,
    List.filter_replicate, if_neg (by decide), List.nil_append, List.filter_eq_self.2 h]

theorem filter_gap (rank depth : Nat) : (Nested.gap rank depth).toList.filter isSolid = [','] := by
  rw [Nested.gap]
  split
  · have hbreaks : ∀ k, (List.replicate k '\n').filter isSolid = [] := fun k => by
      rw [List.filter_replicate, if_neg (by decide)]
    have hblanks : ∀ k, (List.replicate k ' ').filter isSolid = [] := fun k => by
      rw [List.filter_replicate, if_neg (by decide)]
    rw [String.toList_ofList, List.filter_cons_of_pos (by decide), List.filter_append, hbreaks,
      hblanks]
    rfl
  · rfl

theorem filter_intercalate {α : Type} (f : α → Bool) (sep : List α) (parts : List (List α)) :
    (sep.intercalate parts).filter f = (sep.filter f).intercalate (parts.map (List.filter f)) := by
  induction parts with
  | nil => rfl
  | cons part parts ih =>
    cases parts with
    | nil => simp only [List.map_cons, List.map_nil, List.intercalate_singleton]
    | cons next parts =>
      rw [List.intercalate_cons_cons, List.filter_append, List.filter_append, ih, List.map_cons,
        List.map_cons, List.map_cons, List.intercalate_cons_cons]

/-- **Without line breaks and blanks the nested list of the texts is left.** -/
theorem filter_layout_split (h : ∀ word ∈ words, ∀ c ∈ word.toList, isSolid c = true) :
    ((Nested.split shape (words.map (alignRight width))).layout rank depth).toList.filter isSolid =
      (Nested.split shape words).compact := by
  induction shape generalizing words depth with
  | nil =>
    cases words with
    | nil => rfl
    | cons word words => exact filter_alignRight (h word List.mem_cons_self)
  | cons n shape ih =>
    -- both sides consist of the same parts of the words
    have hparts : ∀ part ∈ Nested.chunks (volume shape) n words,
        ((Nested.split shape (part.map (alignRight width))).layout rank (depth + 1)).toList.filter
          isSolid = (Nested.split shape part).compact := by
      intro part hpart
      exact ih fun word hword => h word (Nested.mem_of_mem_chunks hpart hword)
    rw [Nested.split, Nested.split, Nested.layout, Nested.compact, Nested.layoutItems_eq,
      Nested.compactItems_eq, String.toList_append, String.toList_append, List.filter_append,
      List.filter_append, String.toList_intercalate, filter_intercalate, filter_gap,
      Nested.chunks_map]
    simp only [List.map_map]
    show _ ++ [','].intercalate ((Nested.chunks (volume shape) n words).map fun part =>
      ((Nested.split shape (part.map (alignRight width))).layout rank (depth + 1)).toList.filter
        isSolid) ++ _ = _
    rw [List.map_congr_left hparts]
    rfl

/-! ## The printer -/

/-- Inside an axis everything is one list deeper. -/
theorem rank_eq (n depth : Nat) (shape : List Nat) :
    depth + (n :: shape).length = depth + 1 + shape.length := by
  rw [List.length_cons]
  omega

/-- As many line breaks as there are axes inside an axis. -/
theorem lines_eq (n m depth : Nat) (shape : List Nat) :
    depth + (n :: m :: shape).length - depth - 1 = shape.length + 1 := by
  simp only [List.length_cons]
  omega

/-- **What is printed is the nested list of the aligned texts**, laid out. -/
theorem block_eq_layout (hshape : shape ≠ []) (h : volume shape = words.length) :
    block depth shape words = (Nested.split shape words).layout (depth + shape.length) depth := by
  induction shape generalizing depth words with
  | nil => exact absurd rfl hshape
  | cons n shape ih =>
    rw [Nested.split, Nested.layout, Nested.layoutItems_eq, List.map_map]
    cases shape with
    | nil =>
      -- each part of the innermost axis is a single word
      obtain rfl : n = words.length := by rw [← h, volume_cons]; exact (Nat.mul_one n).symm
      have hgap : Nested.gap (depth + 1) depth = ", " := if_neg (Nat.lt_irrefl _)
      have hwords : (Nested.chunks (volume []) words.length words).map
          (Nested.layout (depth + 1) (depth + 1) ∘ Nested.split []) = words :=
        Nested.heads_chunks words
      rw [List.length_singleton, hgap, hwords]
      rfl
    | cons m shape =>
      have hgap : Nested.gap (depth + (n :: m :: shape).length) depth =
          separator (shape.length + 1) depth := by
        rw [Nested.gap_of_lt (by simp only [List.length_cons]; omega), lines_eq]
      have hparts : ∀ part ∈ Nested.chunks (volume (m :: shape)) n words,
          block (depth + 1) (m :: shape) part = (Nested.split (m :: shape) part).layout
            (depth + 1 + (m :: shape).length) (depth + 1) := fun part hpart =>
        ih (List.cons_ne_nil _ _) (Nested.length_of_mem_chunks h part hpart).symm
      rw [hgap, rank_eq n]
      show _ = "[" ++ (separator (shape.length + 1) depth).intercalate
        ((Nested.chunks (volume (m :: shape)) n words).map fun part =>
          (Nested.split (m :: shape) part).layout (depth + 1 + (m :: shape).length)
            (depth + 1)) ++ "]"
      -- the parts are the slices that the printer takes
      rw [← List.map_congr_left hparts, Nested.chunks_eq, List.map_map]
      rfl

/-- What comes before the `i`-th item of a list of lists: nothing before the first, and before the
others a separator whose number of line breaks must not fall below zero. -/
def gap? (rank depth : Nat) : Nat → Option String
  | 0 => some ""
  | _ + 1 => if depth + 1 ≤ rank then some (separator (rank - depth - 1) depth) else none

theorem gap?_eq (h : depth + 1 ≤ rank) (i : Nat) :
    gap? rank depth i = some (if i = 0 then "" else separator (rank - depth - 1) depth) := by
  cases i with
  | zero => rfl
  | succ i => rw [gap?, if_pos h, if_neg (Nat.succ_ne_zero i)]

/-- The elements of a sub-tensor in brackets.  As for `block?` each slice must be there, and besides
each number of line breaks must be one. -/
def written? (rank depth : Nat) : List Nat → List String → Option String
  | [], _ => none
  | [_], words => some ("[" ++ ", ".intercalate words ++ "]")
  | n :: m :: shape, words => do
    let stride := volume (m :: shape)
    let parts ← (List.range n).mapM fun i => do
      let before ← gap? rank depth i
      let part ← slice? words (i * stride) ((i + 1) * stride)
      let inner ← written? rank (depth + 1) (m :: shape) part
      return before ++ inner
    return "[" ++ String.join parts ++ "]"

/-- Parts with something before each but the first are parts with something between them. -/
theorem join_gaps (sep : String) (part : Nat → String) (n : Nat) :
    String.join ((List.range n).map fun i => (if i = 0 then "" else sep) ++ part i) =
      sep.intercalate ((List.range n).map part) := by
  have hlater : ∀ (part : Nat → String) (n : Nat),
      part 0 ++ String.join ((List.range n).map fun i => sep ++ part (i + 1)) =
        sep.intercalate ((List.range (n + 1)).map part) := by
    intro part n
    induction n generalizing part with
    | zero => simp
    | succ n ih =>
      have hnext := ih fun i => part (i + 1)
      rw [List.range_succ_eq_map, List.map_cons, List.map_map, String.join_cons,
        List.range_succ_eq_map, List.range_succ_eq_map, List.map_cons, List.map_cons, List.map_cons,
        String.intercalate_cons_cons]
      rw [List.range_succ_eq_map, List.map_cons] at hnext
      simp only [List.map_map, Function.comp_def] at hnext ⊢
      rw [← hnext]
      simp only [String.append_assoc]
  cases n with
  | zero => rfl
  | succ n =>
    rw [← hlater part n, List.range_succ_eq_map, List.map_cons, List.map_map, String.join_cons,
      if_pos rfl, String.empty_append]
    rfl

/-- **The checks of the printer succeed**, and what it writes is what is printed. -/
theorem written?_eq (hshape : shape ≠ []) (h : volume shape = words.length) :
    written? (depth + shape.length) depth shape words = some (block depth shape words) := by
  induction shape generalizing depth words with
  | nil => exact absurd rfl hshape
  | cons n shape ih =>
    cases shape with
    | nil => rfl
    | cons m shape =>
      have hlength : n * volume (m :: shape) = words.length := h
      have hgap : ∀ i, gap? (depth + (n :: m :: shape).length) depth i =
          some (if i = 0 then "" else separator (shape.length + 1) depth) := by
        intro i
        rw [gap?_eq (by simp only [List.length_cons]; omega), lines_eq]
      let part : Nat → String := fun i => block (depth + 1) (m :: shape)
        ((words.drop (i * volume (m :: shape))).take (volume (m :: shape)))
      have hparts : ∀ i ∈ List.range n, (do
          let before ← gap? (depth + (n :: m :: shape).length) depth i
          let slice ← slice? words (i * volume (m :: shape)) ((i + 1) * volume (m :: shape))
          let inner ← written? (depth + (n :: m :: shape).length) (depth + 1) (m :: shape) slice
          return before ++ inner : Option String) =
          some ((if i = 0 then "" else separator (shape.length + 1) depth) ++ part i) := by
        intro i hi
        have hlt := List.mem_range.1 hi
        -- the slice lies within the words, and is as long as the axes further in need it
        have hinner : written? (depth + 1 + (m :: shape).length) (depth + 1) (m :: shape) _ =
            some (part i) :=
          ih (List.cons_ne_nil m shape) (length_slice hlt (Nat.le_of_eq hlength)).symm
        rw [hgap, slice?_stride hlt (Nat.le_of_eq hlength), rank_eq n]
        simp only [bind, Option.bind_some]
        rw [hinner]
        rfl
      rw [written?, mapM_eq_some_map hparts]
      show some ("[" ++ String.join _ ++ "]") = _
      rw [join_gaps]
      rfl

/-! ## Summary -/

/-- **The text of a tensor follows its nesting.**  The elements of a well formed tensor with axes
are printed from slices that are there, with numbers of line breaks that do not fall below zero.
The text is the nested list of the aligned texts, with line breaks and blanks between the items of
every list but the innermost ones.  Reading it without line breaks and blanks gives the nested list
of the texts themselves.  A nested list is determined by its shape and its words, and the words
stand in row-major order. -/
theorem text_nested (t : Tensor Float) (hwf : t.WellFormed) (hshape : t.shape ≠ []) :
    (∃ body, written? t.shape.length 0 t.shape (cells t.data) = some body ∧
      t.text = "tensor(" ++ body ++ ")" ∧
      body = (Nested.split t.shape (cells t.data)).layout t.shape.length 0 ∧
      Nested.read? (body.toList.filter isSolid) = some (Nested.split t.shape (texts t.data))) ∧
    (∀ words : List String, words.length = t.data.length → ∀ nested : Nested,
      nested = Nested.split t.shape words ↔ nested.HasShape t.shape ∧ nested.leaves = words) ∧
    ∀ index, List.Forall₂ (· < ·) index t.shape →
      (Nested.split t.shape (texts t.data)).word? index =
        (texts t.data)[position t.shape index]? := by
  have hcells : volume t.shape = (cells t.data).length := by rw [length_cells, ← hwf]
  have htexts : volume t.shape = (texts t.data).length := by rw [length_texts, ← hwf]
  refine ⟨⟨block 0 t.shape (cells t.data), ?_, ?_, ?_, ?_⟩, ?_, ?_⟩
  · have hwritten : written? (0 + t.shape.length) 0 t.shape _ = _ := written?_eq hshape hcells
    rwa [Nat.zero_add] at hwritten
  · have hempty : ¬ t.shape.isEmpty = true := by rwa [List.isEmpty_iff]
    rw [text, if_neg hempty]
  · have hlayout : _ = Nested.layout (0 + t.shape.length) 0 _ := block_eq_layout hshape hcells
    rwa [Nat.zero_add] at hlayout
  · have hwords : ∀ word ∈ texts t.data, ∀ c ∈ word.toList, isSolid c = true :=
      fun word hword c hc => isSolid_of_isPlain ((isPlainText_of_mem_texts hword).2 c hc)
    have hleaves : (Nested.split t.shape (texts t.data)).leaves = texts t.data :=
      Nested.leaves_split htexts
    rw [block_eq_layout hshape hcells, cells_eq, filter_layout_split hwords]
    apply Nested.read?_compact
    rw [hleaves]
    exact fun word hword => (isPlainText_of_mem_texts hword).isWord
  · intro words hlength nested
    constructor
    · rintro rfl
      exact ⟨Nested.hasShape_split _ _, Nested.leaves_split (by rw [hlength, ← hwf])⟩
    · rintro ⟨hnested, rfl⟩
      exact Nested.eq_split hnested
  · exact fun index hindex => Nested.word?_split hindex htexts

/-- A grid of whole numbers.  The one in the second row and the first column is the third. -/
def Grid.tensor : Tensor Float := ⟨[2, 2], [1, 10, -2, 3]⟩

theorem Grid.texts_eq : texts tensor.data = ["1.", "10.", "-2.", "3."] := by decide +kernel

/-- The text of a grid, the lists in it, and one of the elements. -/
theorem text_nested_grid :
    Grid.tensor.text = "tensor([[ 1., 10.],\n        [-2.,  3.]])" ∧
    Nested.read? "[[1.,10.],[-2.,3.]]".toList =
      some (.list [.list [.leaf "1.", .leaf "10."], .list [.leaf "-2.", .leaf "3."]]) ∧
    (Nested.split [2, 2] (texts Grid.tensor.data)).word? [1, 0] = some "-2." := by
  obtain ⟨⟨body, -, htext, hbody, hread⟩, -, hword⟩ :=
    text_nested Grid.tensor rfl (List.cons_ne_nil 2 [2])
  rw [cells_eq, Grid.texts_eq] at hbody
  have hlayout : body = "[[ 1., 10.],\n        [-2.,  3.]]" := hbody.trans (by decide +kernel)
  subst hlayout
  rw [Grid.texts_eq] at hread hword
  refine ⟨htext.trans (by decide +kernel), hread, ?_⟩
  rw [Grid.texts_eq]
  exact hword [1, 0] (.cons (by decide) (.cons (by decide) .nil))

end Tensor

end Stochastic
