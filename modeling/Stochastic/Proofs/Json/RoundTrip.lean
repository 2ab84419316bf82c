import Stochastic.Json.Form
import Stochastic.Proofs.Json.Scan
import Stochastic.Proofs.Optional

/-!
# Values that read back

The reading machine, started on the tokens of a value, ends behind that value with the brackets
it started with.  Words and numbers are separated by brackets, commas and colons.  So the text of
a value spells that value, if its numbers keep to the grammar and its texts have a reading.

## Main definitions

* `Json.Readable` — all tokens of a value are readable.
* `JsonForm.Faithful` — a value of a type that is read back from its JSON form.

## Main results

* `Json.run_tokens` — the machine reads a value from its tokens.
* `Json.parse?_render` — a readable value is read back from its text.
* `JsonForm.ofText?_text` — a faithful value is read back from its text.
-/

namespace Stochastic

namespace Json

open Token (Apart apart_left apart_right)

/-! ## Tokens stand apart -/

mutual
theorem isChain_tokens : ∀ j : Json, j.tokens.IsChain Apart
  | .null | .bool _ | .number _ | .text _ => by simp [tokens]
  | .array items => by
    rw [tokens, List.cons_append]
    refine List.isChain_cons.2 ⟨fun _ _ => apart_left (by decide), ?_⟩
    refine List.isChain_append.2 ⟨isChain_itemTokens items, by simp, ?_⟩
    rintro x - y ⟨⟩
    exact apart_right (by decide)
  | .object members => by
    rw [tokens, List.cons_append]
    refine List.isChain_cons.2 ⟨fun _ _ => apart_left (by decide), ?_⟩
    refine List.isChain_append.2 ⟨isChain_memberTokens members, by simp, ?_⟩
    rintro x - y ⟨⟩
    exact apart_right (by decide)
theorem isChain_itemTokens : ∀ items : List Json, (itemTokens items).IsChain Apart
  | [] => by simp [itemTokens]
  | [item] => isChain_tokens item
  | item :: next :: items => by
    rw [itemTokens]
    refine List.isChain_append.2 ⟨isChain_tokens item, ?_, ?_⟩
    · exact List.isChain_cons.2 ⟨fun _ _ => apart_left (by decide), isChain_itemTokens _⟩
    · rintro x - y ⟨⟩
      exact apart_right (by decide)
theorem isChain_memberTokens :
    ∀ members : List (Option String × Json), (memberTokens members).IsChain Apart
  | [] => by simp [memberTokens]
  | [(key, value)] => by
    rw [memberTokens]
    refine List.isChain_cons.2 ⟨fun _ _ => apart_left (by simp [Token.isBare]), ?_⟩
    exact List.isChain_cons.2 ⟨fun _ _ => apart_left (by decide), isChain_tokens value⟩
  | (key, value) :: next :: members => by
    rw [memberTokens, List.cons_append, List.cons_append]
    refine List.isChain_cons.2 ⟨fun _ _ => apart_left (by simp [Token.isBare]), ?_⟩
    refine List.isChain_cons.2 ⟨fun _ _ => apart_left (by decide), ?_⟩
    refine List.isChain_append.2 ⟨isChain_tokens value, ?_, ?_⟩
    · exact List.isChain_cons.2 ⟨fun _ _ => apart_left (by decide), isChain_memberTokens _⟩
    · rintro x - y ⟨⟩
      exact apart_right (by decide)
end

/-! ## The reading machine -/

/-- Where a value may come: anywhere, or first in an array. -/
def Expect.TakesValue : Expect → Prop
  | .value | .firstItem => True
  | _ => False

/-- The first token of a value does not close an array. -/
theorem step_of_takesValue {bs : List Bracket} {e : Expect} (he : e.TakesValue) {t : Token}
    (ht : t ≠ .closeArray) : State.step ⟨bs, e⟩ t = State.enter bs t := by
  cases e with
  | value => rfl
  | firstItem => cases bs with
    | nil => cases t <;> rfl
    | cons b bs => cases b <;> cases t <;> first | rfl | exact absurd rfl ht
  | _ => exact he.elim

/-- Where a key may come: in an object, or first in one. -/
def Expect.TakesKey : Expect → Prop
  | .key | .firstKey => True
  | _ => False

theorem step_of_takesKey {bs : List Bracket} {e : Expect} (he : e.TakesKey) (k : Option String) :
    State.step ⟨bs, e⟩ (.text k) = some ⟨bs, .colon k⟩ := by
  cases e with
  | key => rfl
  | firstKey => cases bs with
    | nil => rfl
    | cons b bs => cases b <;> rfl
  | _ => exact he.elim

mutual
/-- The machine reads a value from its tokens, and keeps the brackets that are open. -/
theorem run_tokens : ∀ (j : Json) (bs : List Bracket) {e : Expect}, e.TakesValue →
    j.tokens.foldlM State.step ⟨bs, e⟩ = some ⟨bs, .after j⟩
  | .null, bs, e, he | .bool _, bs, e, he | .number _, bs, e, he | .text _, bs, e, he => by
    simp [tokens, step_of_takesValue he, State.enter]
  | .array [], bs, e, he => by
    rw [tokens, List.cons_append, List.foldlM_cons, step_of_takesValue he (by simp)]
    rfl
  | .array (item :: items), bs, e, he => by
    rw [tokens, List.cons_append, List.foldlM_cons, step_of_takesValue he (by simp)]
    exact run_itemTokens (item :: items) (by simp) [] bs trivial
  | .object [], bs, e, he => by
    rw [tokens, List.cons_append, List.foldlM_cons, step_of_takesValue he (by simp)]
    rfl
  | .object (member :: members), bs, e, he => by
    rw [tokens, List.cons_append, List.foldlM_cons, step_of_takesValue he (by simp)]
    exact run_memberTokens (member :: members) (by simp) [] bs trivial
/-- The machine reads the items of an array up to its end. -/
theorem run_itemTokens : ∀ items : List Json, items ≠ [] →
    ∀ (before : List Json) (bs : List Bracket) {e : Expect}, e.TakesValue →
    (itemTokens items ++ [Token.closeArray]).foldlM State.step ⟨.array before :: bs, e⟩ =
      some ⟨bs, .after (.array (before.reverse ++ items))⟩
  | [], h, _, _, _, _ => absurd rfl h
  | [item], _, before, bs, e, he => by
    rw [itemTokens, List.foldlM_append, run_tokens item _ he]
    simp [State.step]
  | item :: next :: items, _, before, bs, e, he => by
    rw [itemTokens, List.append_assoc, List.foldlM_append, run_tokens item _ he]
    have hrest := run_itemTokens (next :: items) (by simp) (item :: before) bs (e := .value) trivial
    simpa [State.step] using hrest
/-- The machine reads the members of an object up to its end. -/
theorem run_memberTokens : ∀ members : List (Option String × Json), members ≠ [] →
    ∀ (before : List (Option String × Json)) (bs : List Bracket) {e : Expect}, e.TakesKey →
    (memberTokens members ++ [Token.closeObject]).foldlM State.step ⟨.object before :: bs, e⟩ =
      some ⟨bs, .after (.object (before.reverse ++ members))⟩
  | [], h, _, _, _, _ => absurd rfl h
  | [(key, value)], _, before, bs, e, he => by
    rw [memberTokens, List.cons_append, List.cons_append, List.foldlM_cons, step_of_takesKey he]
    have hvalue := run_tokens value (.member before key :: bs) (e := .value) trivial
    simp [State.step, List.foldlM_append, hvalue]
  | (key, value) :: next :: members, _, before, bs, e, he => by
    rw [memberTokens, List.cons_append, List.cons_append, List.cons_append, List.cons_append,
      List.foldlM_cons, step_of_takesKey he]
    have hvalue := run_tokens value (.member before key :: bs) (e := .value) trivial
    have hrest := run_memberTokens (next :: members) (by simp) ((key, value) :: before) bs
      (e := .key) trivial
    simpa [State.step, List.foldlM_append, hvalue] using hrest
end

theorem ofTokens?_tokens (j : Json) : ofTokens? j.tokens = some j := by
  rw [ofTokens?, State.start, run_tokens j [] (e := .value) trivial]
  rfl

/-! ## The text of a value -/

/-- All numbers keep to the grammar, and all texts have a reading. -/
def Readable (j : Json) : Prop := ∀ t ∈ j.tokens, t.Readable

/-- A readable value is read back from its text. -/
theorem parse?_render {j : Json} (h : j.Readable) : parse? j.render = some j := by
  rw [parse?, render, String.toList_ofList, Token.scan_chars h (isChain_tokens j)]
  exact ofTokens?_tokens j

/-! ## Readable values -/

theorem readable_str (s : String) : (str s).Readable := by
  intro t ht
  obtain rfl : t = .text (some s) := by simpa [str, tokens] using ht
  exact rfl

theorem readable_nat (n : Nat) : (nat n).Readable := by
  intro t ht
  obtain rfl : t = .number (Decimal.Numeral.ofInt n) := by simpa [nat, int, tokens] using ht
  exact Decimal.Numeral.proper_ofNat n

theorem readable_ofFloat (x : Float) : (ofFloat x).Readable := by
  unfold ofFloat
  split
  · intro t ht
    obtain rfl : t = .number (floatLayout.numeral x) := by simpa [tokens] using ht
    exact floatLayout.proper_numeral x
  · intro t ht
    obtain rfl : t = .null := by simpa [tokens] using ht
    exact trivial

theorem readable_itemTokens : ∀ {items : List Json}, (∀ j ∈ items, j.Readable) →
    ∀ t ∈ itemTokens items, t.Readable
  | [], _ => by simp [itemTokens]
  | [item], h => h item (by simp)
  | item :: next :: items, h => by
    intro t ht
    obtain ht | ht := List.mem_append.1 ht
    · exact h item (by simp) t ht
    · obtain rfl | ht := List.mem_cons.1 ht
      · exact trivial
      · exact readable_itemTokens (fun j hj => h j (List.mem_cons_of_mem _ hj)) t ht

theorem readable_array {items : List Json} (h : ∀ j ∈ items, j.Readable) :
    (array items).Readable := by
  intro t ht
  simp only [tokens, List.cons_append, List.mem_cons, List.mem_append, List.not_mem_nil,
    or_false] at ht
  obtain rfl | ht | rfl := ht
  · exact trivial
  · exact readable_itemTokens h t ht
  · exact trivial

theorem readable_memberTokens : ∀ {members : List (Option String × Json)},
    (∀ m ∈ members, m.1.isSome ∧ m.2.Readable) → ∀ t ∈ memberTokens members, t.Readable
  | [], _ => by simp [memberTokens]
  | [(key, value)], h => by
    obtain ⟨hkey, hvalue⟩ := h (key, value) (by simp)
    intro t ht
    simp only [memberTokens, List.mem_cons] at ht
    obtain rfl | rfl | ht := ht
    · exact hkey
    · exact trivial
    · exact hvalue t ht
  | (key, value) :: next :: members, h => by
    obtain ⟨hkey, hvalue⟩ := h (key, value) (by simp)
    intro t ht
    rw [memberTokens] at ht
    simp only [List.cons_append, List.mem_cons, List.mem_append] at ht
    obtain rfl | rfl | ht | rfl | ht := ht
    · exact hkey
    · exact trivial
    · exact hvalue t ht
    · exact trivial
    · exact readable_memberTokens (fun m hm => h m (List.mem_cons_of_mem _ hm)) t ht

theorem readable_obj {members : List (String × Json)} (h : ∀ m ∈ members, m.2.Readable) :
    (obj members).Readable := by
  intro t ht
  simp only [obj, tokens, List.cons_append, List.mem_cons, List.mem_append, List.not_mem_nil,
    or_false] at ht
  obtain rfl | ht | rfl := ht
  · exact trivial
  · refine readable_memberTokens (fun m hm => ?_) t ht
    obtain ⟨field, hfield, rfl⟩ := List.mem_map.1 hm
    exact ⟨rfl, h field hfield⟩
  · exact trivial

theorem natBelow?_nat {n limit : Nat} (h : n < limit) : (nat n).natBelow? limit = some n := by
  have hvalue : (nat n).int? = some (n : Int) := Decimal.Numeral.toInt?_ofNat n
  simp [natBelow?, hvalue, h]

end Json

/-! ## Values of other types -/

namespace JsonForm

/-- A value that is read back from its JSON form, as a value and as text. -/
structure Faithful {α : Type} [JsonForm α] (a : α) : Prop where
  readable : (toJson a).Readable
  reads : ofJson? (toJson a) = some a

variable {α : Type} [JsonForm α]

/-- A faithful value is read back from its text. -/
theorem ofText?_text {a : α} (h : Faithful a) : ofText? α (text a) = some a := by
  rw [ofText?, text, Json.parse?_render h.readable]
  exact h.reads

theorem faithful_float {x : Float} (h : (Json.ofFloat x).float? = some x) : Faithful x :=
  ⟨Json.readable_ofFloat x, h⟩

theorem faithful_list {as : List α} (h : ∀ a ∈ as, Faithful a) : Faithful as where
  readable := by
    refine Json.readable_array fun j hj => ?_
    obtain ⟨a, ha, rfl⟩ := List.mem_map.1 hj
    exact (h a ha).readable
  reads := mapM_map_eq_some fun a ha => (h a ha).reads

end JsonForm

end Stochastic
