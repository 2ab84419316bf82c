/-!
# Turning a difference around

The difference of two floats and the difference the other way round are negations of each
other: rounding does not look at the sign.  There is one exception.  A difference that is
exactly zero is the positive zero both ways round.

Floats are worked with unpacked and then packed into bits, so that a negation takes a result
out of its bits again.  Nothing is lost on the way: the sign is a bit of its own, and packing
looks at it no more than rounding does.

## Main definitions

* `ofComponents` — the number with a given sign, exponent and mantissa.
* `Opposite` — a float and its negation, or two zeros.

## Main results

* `neg_pack` — negation changes the sign of what has been packed.
* `sub_swap` — the difference the other way round, unpacked.
* `opposite_sub` — the same for floats.
-/

namespace Stochastic

open Float.Model Float.Model.UnpackedFloat

/-! ## The sign in the bits -/

theorem neg_finite (s : Sign) (m : Nat) (e : Int) (hm : 0 < m) :
    UnpackedFloat.neg (.finite s m e hm) = .finite (-s) m e hm := rfl

/-- The exponent and the mantissa of a finite number become bits, unless the exponent is too
large; a number with too short a mantissa has no exponent of its own. -/
theorem pack_finite (s : Sign) (m : Nat) (e : Int) (hm : 0 < m) :
    UnpackedFloat.pack .binary64 (.finite s m e hm) =
      if 2048 ≤ (e + Format.binary64.exponentBias + (52 : Nat)).toNat + 1 then
        packedInfinity .binary64 s
      else if m.log2 + 1 = Format.binary64.mantissaBits then
        packComponents .binary64 s
          (BitVec.ofNat 11 (e + Format.binary64.exponentBias + (52 : Nat)).toNat)
          (BitVec.ofNat 52 m)
      else packComponents .binary64 s 0#11 (BitVec.ofNat 52 m) := rfl

/-- The number with the given sign and the given bits of an exponent and a mantissa. -/
def ofComponents (s : Sign) (e : BitVec 11) (m : BitVec 52) : UnpackedFloat :=
  let exponent : Int := e.toNat - (Format.binary64.exponentBias + (52 : Nat))
  if e = -1#11 then
    if m = 0#52 then .infinity s else .notANumber
  else if e = 0#11 then
    if h : m = 0#52 then .zero s
    else
      .finite s m.toNat (exponent + 1) (Nat.pos_of_ne_zero fun h0 => h (BitVec.eq_of_toNat_eq h0))
  else .finite s (1#1 ++ m).toNat exponent (by
    rw [BitVec.toNat_append, ← Nat.shiftLeft_add_eq_or_of_lt m.isLt]
    exact Nat.add_pos_left (by decide) _)

theorem unpack_eq_ofComponents (x : BitVec Format.binary64.numBits) :
    UnpackedFloat.unpack .binary64 x =
      ofComponents (.ofBitVec (unpackSign x)) (unpackExponent x) (unpackMantissa x) := rfl

theorem unpackSign_packComponents (s : Sign) (e : BitVec 11) (m : BitVec 52) :
    unpackSign (packComponents .binary64 s e m) = s.toBitVec := by
  change (s.toBitVec ++ e ++ m).extractLsb' 63 1 = s.toBitVec
  rw [BitVec.extractLsb'_append_eq_of_le (by decide),
    BitVec.extractLsb'_append_eq_of_le (by decide)]
  exact BitVec.extractLsb'_eq_self

/-- Taking apart and negating what has a sign, an exponent and a mantissa changes the sign. -/
theorem pack_neg_unpack {s : Sign} {e : BitVec 11} {m : BitVec 52} (h : e = -1#11 → m = 0#52) :
    UnpackedFloat.pack .binary64
      (UnpackedFloat.unpack .binary64 (packComponents .binary64 s e m)).neg =
      packComponents .binary64 (-s) e m := by
  have hsign : Sign.ofBitVec (unpackSign (packComponents .binary64 s e m)) = s := by
    rw [unpackSign_packComponents]
    cases s <;> rfl
  have hmantissa := m.isLt
  rw [unpack_eq_ofComponents, unpackMantissa_packComponents, unpackExponent_packComponents, hsign,
    ofComponents]
  by_cases htop : e = -1#11
  · rw [if_pos htop, if_pos (h htop), htop, h htop]
    rfl
  rw [if_neg htop]
  by_cases hzero : e = 0#11
  · rw [if_pos hzero]
    by_cases hm : m = 0#52
    · rw [dif_pos hm, hzero, hm]
      rfl
    · -- a subnormal number has fewer bits than a mantissa
      have hpos : m.toNat ≠ 0 := fun h0 => hm (BitVec.eq_of_toNat_eq h0)
      have hlog : m.toNat.log2 < 52 := (Nat.log2_lt hpos).2 hmantissa
      have hshort : m.toNat.log2 + 1 ≠ Format.binary64.mantissaBits := by
        rw [show Format.binary64.mantissaBits = 53 from rfl]
        omega
      rw [dif_neg hm, neg_finite, pack_finite, if_neg (by rw [hzero]; decide), if_neg hshort,
        BitVec.ofNat_toNat, BitVec.setWidth_eq, hzero]
  · rw [if_neg hzero]
    have htop' : e.toNat ≠ 2 ^ 11 - 1 := fun h0 => htop (BitVec.eq_of_toNat_eq h0)
    have hlt := e.isLt
    have hone : (1#1 ++ m).toNat = 2 ^ 52 + m.toNat := by
      rw [BitVec.toNat_append, ← Nat.shiftLeft_add_eq_or_of_lt hmantissa]
      rfl
    have hlog : (2 ^ 52 + m.toNat).log2 = 52 := by
      rw [Nat.log2_eq_iff (by omega)]
      omega
    have hbiased : ((e.toNat : Int) - (Format.binary64.exponentBias + (52 : Nat)) +
        Format.binary64.exponentBias + (52 : Nat)).toNat = e.toNat := by omega
    rw [neg_finite, pack_finite, hbiased, hone, hlog, if_neg (by omega), if_pos (by decide),
      BitVec.ofNat_toNat, BitVec.setWidth_eq]
    congr 1
    apply BitVec.eq_of_toNat_eq
    rw [BitVec.toNat_ofNat, Nat.add_mod_left, Nat.mod_eq_of_lt hmantissa]

/-- What a float is packed into, and what its negation is packed into. -/
theorem components_of_pack (z : UnpackedFloat) :
    z = .notANumber ∨ ∃ (s : Sign) (e : BitVec 11) (m : BitVec 52), (e = -1#11 → m = 0#52) ∧
      UnpackedFloat.pack .binary64 z = packComponents .binary64 s e m ∧
      UnpackedFloat.pack .binary64 z.neg = packComponents .binary64 (-s) e m := by
  cases z with
  | notANumber => exact .inl rfl
  | infinity s => exact .inr ⟨s, -1#11, 0#52, fun _ => rfl, rfl, rfl⟩
  | zero s => exact .inr ⟨s, 0#11, 0#52, fun _ => rfl, rfl, rfl⟩
  | finite s m e hm =>
    refine .inr ?_
    rw [neg_finite, pack_finite, pack_finite]
    generalize (e + Format.binary64.exponentBias + (52 : Nat)).toNat = biased
    by_cases hover : 2048 ≤ biased + 1
    · rw [if_pos hover, if_pos hover]
      exact ⟨s, -1#11, 0#52, fun _ => rfl, rfl, rfl⟩
    rw [if_neg hover, if_neg hover]
    by_cases hnormal : m.log2 + 1 = Format.binary64.mantissaBits
    · rw [if_pos hnormal, if_pos hnormal]
      refine ⟨s, _, _, ?_, rfl, rfl⟩
      intro htop
      have htop := congrArg BitVec.toNat htop
      rw [BitVec.toNat_ofNat, Nat.mod_eq_of_lt (by omega)] at htop
      simp at htop
      omega
    · rw [if_neg hnormal, if_neg hnormal]
      exact ⟨s, 0#11, _, fun htop => absurd htop (by decide), rfl, rfl⟩

theorem pack_congr {x y : UnpackedFloat}
    (h : UnpackedFloat.pack .binary64 x = UnpackedFloat.pack .binary64 y) :
    Float.Model.pack x = Float.Model.pack y := by
  have heq {a b : Float.Model} (hbits : a.toBits = b.toBits) : a = b := by
    cases a
    cases b
    cases hbits
    rfl
  exact heq (congrArg UInt64.ofBitVec h)

/-- Negation changes the sign of what has been packed. -/
theorem neg_pack (z : UnpackedFloat) :
    Float.Model.neg (Float.Model.pack z) = Float.Model.pack z.neg := by
  rcases components_of_pack z with rfl | ⟨s, e, m, htop, hz, hneg⟩
  · decide +kernel
  · change Float.Model.pack (UnpackedFloat.unpack .binary64 (UnpackedFloat.pack .binary64 z)).neg
      = Float.Model.pack z.neg
    refine pack_congr ?_
    rw [hz, hneg, pack_neg_unpack htop]

/-! ## Differences -/

theorem neg_round (spec : Format) (s : Sign) (m : Nat) (e : Int) :
    UnpackedFloat.round spec (-s) m e = (UnpackedFloat.round spec s m e).neg := by
  delta UnpackedFloat.round roundWithAccuracy
  dsimp only
  rw [apply_dite UnpackedFloat.neg]
  rfl

theorem neg_normalize (spec : Format) {a : Int} (e : Int) (ha : a ≠ 0) :
    UnpackedFloat.normalize spec (-a) e .positive =
      (UnpackedFloat.normalize spec a e .positive).neg := by
  unfold UnpackedFloat.normalize
  rcases Int.lt_or_gt_of_ne ha with hlt | hgt
  · rw [Int.compare_eq_gt.2 (by omega), Int.compare_eq_lt.2 hlt]
    exact neg_round spec .negative _ e
  · rw [Int.compare_eq_lt.2 (by omega), Int.compare_eq_gt.2 hgt, Int.neg_neg]
    exact neg_round spec .positive _ e

/-- Two numbers are brought to one exponent before they are subtracted. -/
theorem sub_finite (spec : Format) (s s' : Sign) (m m' : Nat) (e e' : Int) (hm : 0 < m)
    (hm' : 0 < m') :
    UnpackedFloat.sub spec (.finite s m e hm) (.finite s' m' e' hm') =
      UnpackedFloat.normalize spec (s.apply (decreaseExponent m e (min e e')).1 -
        s'.apply (decreaseExponent m' e' (min e e')).1) (min e e') .positive := rfl

/-- The difference the other way round is the negation, unless both are exactly zero. -/
theorem sub_swap (spec : Format) (x y : UnpackedFloat) :
    UnpackedFloat.sub spec y x = (UnpackedFloat.sub spec x y).neg ∨
      UnpackedFloat.sub spec x y = .zero .positive ∧
        UnpackedFloat.sub spec y x = .zero .positive := by
  cases x with
  | notANumber => cases y <;> exact .inl rfl
  | infinity s =>
    cases y with
    | infinity s' => cases s <;> cases s' <;> exact .inl rfl
    | _ => exact .inl rfl
  | zero s =>
    cases y with
    | notANumber => exact .inl rfl
    | infinity s' => cases s' <;> exact .inl rfl
    | zero s' =>
      cases s <;> cases s' <;> first
        | exact .inl rfl
        | exact .inr ⟨rfl, rfl⟩
    | finite s' m e hm => cases s' <;> exact .inl rfl
  | finite s m e hm =>
    cases y with
    | notANumber => exact .inl rfl
    | infinity s' => cases s' <;> exact .inl rfl
    | zero s' => exact .inl rfl
    | finite s' m' e' hm' =>
      -- the exact differences are negations
      rw [sub_finite, sub_finite, Int.min_comm e' e]
      generalize s.apply (decreaseExponent m e (min e e')).1 = a
      generalize s'.apply (decreaseExponent m' e' (min e e')).1 = b
      by_cases hab : a - b = 0
      · obtain rfl : a = b := by omega
        rw [Int.sub_self]
        exact .inr ⟨rfl, rfl⟩
      · rw [← Int.neg_sub a b]
        exact .inl (neg_normalize spec _ hab)

theorem sub_eq_ofModel (x y : Float) :
    x - y = .ofModel (.pack (UnpackedFloat.sub .binary64 x.toModel.unpack y.toModel.unpack)) :=
  rfl

/-- One float is the negation of the other, or both are zero, whose sign does not matter. -/
def Opposite (x y : Float) : Prop := y = -x ∨ x = 0 ∧ y = 0

/-- **The difference the other way round is the opposite**, for all floats. -/
theorem opposite_sub (x y : Float) : Opposite (x - y) (y - x) := by
  rw [Opposite, sub_eq_ofModel x y, sub_eq_ofModel y x]
  rcases sub_swap .binary64 x.toModel.unpack y.toModel.unpack with hneg | ⟨hxy, hyx⟩
  · refine .inl ?_
    rw [hneg, ← neg_pack]
    rfl
  · rw [hxy, hyx]
    exact .inr ⟨by decide +kernel, by decide +kernel⟩

end Stochastic
