import Stochastic.Decimal.Shortest

/-!
# Numerals that read back

The characters of a numeral are cut at the point and at the `e`, and no digit is either, so a
numeral that keeps to the grammar is read back as it was written.  The numerals of natural
numbers and of floats keep to it: the decimal digits of a number other than zero do not start
with a zero.

## Main definitions

* `Numeral.Proper` — the numerals of the grammar.

## Main results

* `Numeral.ofChars?_chars` — a proper numeral is read back.
* `Numeral.proper_ofNat`, `Layout.proper_numeral` — the numerals that are written are proper.
* `Numeral.toInt?_ofNat` — the value of the numeral of a natural number.
-/

namespace Stochastic.Decimal

/-! ## Runs of digits -/

/-- A run of at least one digit. -/
def IsRun (ds : List Char) : Prop := ds ≠ [] ∧ ∀ c ∈ ds, c.isDigit

theorem isRun_toDigits (n : Nat) : IsRun (Nat.toDigits 10 n) :=
  ⟨Nat.toDigits_ne_nil, fun _ hc => Nat.isDigit_of_mem_toDigits (by decide) (by decide) hc⟩

theorem IsRun.append {ds es : List Char} (hd : IsRun ds) (he : ∀ c ∈ es, c.isDigit) :
    IsRun (ds ++ es) := by
  refine ⟨by simp [hd.1], fun c hc => ?_⟩
  obtain hc | hc := List.mem_append.1 hc
  · exact hd.2 c hc
  · exact he c hc

theorem ne_of_isDigit {c d : Char} (hc : c.isDigit) (hd : ¬ d.isDigit) : c ≠ d := by
  rintro rfl
  exact hd hc

theorem isDigit_of_mem_replicate {k : Nat} {c : Char} (h : c ∈ List.replicate k '0') :
    c.isDigit := by
  rw [List.eq_of_mem_replicate h]
  decide

/-- The digits of a number other than zero do not start with a zero. -/
theorem head?_toDigits_ne_zero {n : Nat} (h : n ≠ 0) : (Nat.toDigits 10 n).head? ≠ some '0' := by
  induction n using Nat.strongRecOn with
  | ind n ih =>
    rw [Nat.toDigits_eq_if (by decide)]
    split
    · rename_i hlt
      have hdigit : ∀ d < 10, d ≠ 0 → d.digitChar ≠ '0' := by decide
      simpa using hdigit n hlt h
    · have htop := ih (n / 10) (by omega) (by omega)
      rwa [List.head?_append, Option.or_of_isSome (by simp [Nat.toDigits_ne_nil])]

namespace Numeral

/-- The value of the digits of a number. -/
theorem digitsValue_toDigits (n : Nat) : digitsValue (Nat.toDigits 10 n) = n :=
  Nat.ofDigitChars_ten_toDigits

/-! ## The grammar -/

/-- What may stand behind the `e`: a run of digits, perhaps with a sign. -/
def IsExponent (cs : List Char) : Prop :=
  ∃ sign ds, cs = sign ++ ds ∧ sign ∈ [[], ['+'], ['-']] ∧ IsRun ds

/-- The numerals of the grammar: digits without a needless leading zero, perhaps more of them
behind a point, perhaps an exponent. -/
structure Proper (n : Numeral) : Prop where
  whole : IsRun n.whole
  lead : n.whole.length = 1 ∨ n.whole.head? ≠ some '0'
  fraction : ∀ c ∈ n.fraction, c.isDigit
  exponent : ∀ e ∈ n.exponent, IsExponent e

/-- The numeral of a natural number is proper. -/
theorem proper_ofNat (n : Nat) : (ofInt n).Proper where
  whole := isRun_toDigits n
  lead := by
    by_cases h : n = 0
    · subst h
      exact .inl rfl
    · exact .inr (head?_toDigits_ne_zero h)
  fraction := by simp [ofInt]
  exponent := by simp [ofInt]

/-- The numeral of a natural number has it as its value. -/
theorem toInt?_ofNat (n : Nat) : (ofInt n).toInt? = some (n : Int) := by
  have hnonneg : ¬ (n : Int) < 0 := by omega
  simp [toInt?, ofInt, hnonneg, digitsValue_toDigits]

/-! ## Reading back -/

/-- A run ends where the next character does not belong to it. -/
theorem takeWhile_run {p : Char → Bool} {cs rest : List Char} (hcs : ∀ c ∈ cs, p c)
    (hrest : ∀ c ∈ rest.head?, ¬ p c) :
    (cs ++ rest).takeWhile p = cs ∧ (cs ++ rest).dropWhile p = rest := by
  have hstop : rest.takeWhile p = [] ∧ rest.dropWhile p = rest := by
    cases rest with
    | nil => exact ⟨rfl, rfl⟩
    | cons c rest => simp [hrest c rfl]
  rw [List.takeWhile_append_of_pos hcs, List.dropWhile_append_of_pos hcs, hstop.1, hstop.2]
  exact ⟨List.append_nil cs, rfl⟩

section Reading

variable {n : Numeral}

/-- The characters of the exponent, with the `e`. -/
def exponentChars (n : Numeral) : List Char :=
  match n.exponent with
  | none => []
  | some e => 'e' :: e

/-- The characters of the fraction, with the point. -/
def fractionChars (n : Numeral) : List Char :=
  if n.fraction.isEmpty then [] else '.' :: n.fraction

theorem chars_eq (n : Numeral) :
    n.chars = (if n.negative then ['-'] else []) ++
      (n.whole ++ (n.fractionChars ++ n.exponentChars)) := by
  simp only [chars, List.append_assoc]
  rfl

/-- No digit follows the fraction. -/
theorem head?_exponentChars (n : Numeral) : ∀ c ∈ n.exponentChars.head?, ¬ c.isDigit ∧ c ≠ '.' := by
  unfold exponentChars
  cases n.exponent <;> simp

/-- No digit follows the whole digits. -/
theorem head?_fractionChars (n : Numeral) :
    ∀ c ∈ (n.fractionChars ++ n.exponentChars).head?, ¬ c.isDigit := by
  unfold fractionChars
  split
  · exact fun c hc => (head?_exponentChars n c hc).1
  · simp

theorem splitExponent_exponentChars (h : n.Proper) :
    splitExponent n.exponentChars = some n.exponent := by
  unfold exponentChars
  cases he : n.exponent with
  | none => rfl
  | some e =>
    obtain ⟨sign, ds, rfl, hsign, hne, hdigits⟩ := h.exponent e he
    have hall : ds.all Char.isDigit := by simpa using hdigits
    simp only [List.mem_cons, List.not_mem_nil, or_false] at hsign
    obtain rfl | rfl | rfl := hsign
    · -- a digit is no sign
      obtain ⟨d, ds, rfl⟩ := List.exists_cons_of_ne_nil hne
      have hd : d.isDigit := hdigits d (by simp)
      have hplus : d ≠ '+' := ne_of_isDigit hd (by decide)
      have hminus : d ≠ '-' := ne_of_isDigit hd (by decide)
      simp [splitExponent, hplus, hminus, hall]
    · simp [splitExponent, hne, hall]
    · simp [splitExponent, hne, hall]

theorem splitFraction_fractionChars (h : n.Proper) :
    splitFraction (n.fractionChars ++ n.exponentChars) = some (n.fraction, n.exponentChars) := by
  have hhead := head?_exponentChars n
  unfold fractionChars
  by_cases hempty : n.fraction = []
  · rw [hempty, if_pos List.isEmpty_nil, List.nil_append]
    cases hchars : n.exponentChars with
    | nil => rfl
    | cons c cs =>
      have hpoint : c ≠ '.' := (hhead c (by simp [hchars])).2
      simp [splitFraction, hpoint]
  · have hrun := takeWhile_run h.fraction fun c hc => (hhead c hc).1
    rw [if_neg (by simpa using hempty), List.cons_append]
    simp [splitFraction, hrun.1, hrun.2, hempty]

/-- Reads what stands behind the sign. -/
def ofUnsigned? (negative : Bool) (cs : List Char) : Option Numeral := do
  let whole := cs.takeWhile Char.isDigit
  if whole.isEmpty || (whole.length != 1 && whole.head? == some '0') then none
  let (fraction, cs) ← splitFraction (cs.dropWhile Char.isDigit)
  let exponent ← splitExponent cs
  return ⟨negative, whole, fraction, exponent⟩

theorem ofChars?_minus (cs : List Char) : ofChars? ('-' :: cs) = ofUnsigned? true cs := rfl

theorem ofChars?_of_ne_minus {c : Char} {cs : List Char} (h : c ≠ '-') :
    ofChars? (c :: cs) = ofUnsigned? false (c :: cs) := by
  simp [ofChars?, ofUnsigned?, h]

theorem ofUnsigned?_chars (h : n.Proper) :
    ofUnsigned? n.negative (n.whole ++ (n.fractionChars ++ n.exponentChars)) = some n := by
  have hrun := takeWhile_run h.whole.2 (head?_fractionChars n)
  have hlead : (n.whole.isEmpty || (n.whole.length != 1 && n.whole.head? == some '0')) = false := by
    have hempty : n.whole.isEmpty = false := by simpa using h.whole.1
    rw [hempty, Bool.false_or, Bool.and_eq_false_iff]
    exact h.lead.imp (by simp [·]) (by simp [·])
  simp [ofUnsigned?, hrun.1, hrun.2, hlead, splitFraction_fractionChars h,
    splitExponent_exponentChars h]

/-- A proper numeral is read back from its characters. -/
theorem ofChars?_chars (h : n.Proper) : ofChars? n.chars = some n := by
  rw [chars_eq]
  have hunsigned := ofUnsigned?_chars h
  cases hneg : n.negative with
  | true =>
    rw [hneg] at hunsigned
    exact (ofChars?_minus _).trans hunsigned
  | false =>
    -- the first digit is not taken for a sign
    obtain ⟨d, ds, hwhole⟩ := List.exists_cons_of_ne_nil h.whole.1
    have hminus : d ≠ '-' := ne_of_isDigit (h.whole.2 d (by simp [hwhole])) (by decide)
    rw [hneg, hwhole] at hunsigned
    rw [hwhole]
    exact (ofChars?_of_ne_minus hminus).trans hunsigned

end Reading

end Numeral

/-! ## The numerals of floats -/

/-- The numeral of a float is proper. -/
theorem Layout.proper_numeral (l : Layout) (x : Float) : (l.numeral x).Proper := by
  unfold Layout.numeral
  generalize shortest l.tie x = d
  have hrun := isRun_toDigits d.digits
  have hdigit : ∀ c ∈ ['0'], c.isDigit := List.forall_mem_singleton.2 rfl
  by_cases hzero : d.digits = 0
  · rw [if_pos hzero]
    exact ⟨⟨by simp, hdigit⟩, .inl rfl, hdigit, by simp⟩
  have hhead := head?_toDigits_ne_zero hzero
  rw [if_neg hzero]
  generalize Nat.toDigits 10 d.digits = ds at hrun hhead ⊢
  split
  · split
    · -- all digits stand behind the point
      refine ⟨⟨by simp, hdigit⟩, .inl rfl, fun c hc => ?_, by simp⟩
      obtain hc | hc := List.mem_append.1 hc
      · exact isDigit_of_mem_replicate hc
      · exact hrun.2 c hc
    · split
      · -- all digits stand before the point
        refine ⟨hrun.append fun c hc => isDigit_of_mem_replicate hc, .inr ?_, hdigit, by simp⟩
        rwa [List.head?_append, Option.or_of_isSome (by simp [hrun.1])]
      · -- the point stands between two digits
        refine ⟨⟨?_, fun c hc => hrun.2 c (List.mem_of_mem_take hc)⟩, .inr ?_,
          fun c hc => hrun.2 c (List.mem_of_mem_drop hc), by simp⟩
        · simp only [ne_eq, List.take_eq_nil_iff, hrun.1, or_false]
          omega
        · rwa [List.head?_take, if_neg (by omega)]
  · refine ⟨⟨by simp [hrun.1], fun c hc => hrun.2 c (List.mem_of_mem_take hc)⟩, .inl ?_,
      fun c hc => hrun.2 c (List.mem_of_mem_drop hc), ?_⟩
    · have hpos := List.length_pos_iff.2 hrun.1
      simp only [List.length_take]
      omega
    · rintro e ⟨⟩
      refine ⟨_, _, rfl, ?_, isRun_toDigits _⟩
      split
      · simp
      · split <;> simp

end Stochastic.Decimal
