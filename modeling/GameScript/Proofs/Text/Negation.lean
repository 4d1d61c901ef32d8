import Mathlib

/-!
# Negating a number twice

A negative number is written as a minus sign and the number negated, so negating it again has to give the number back.
For floating-point numbers that is a fact about bits: negation flips the sign and keeps exponent and mantissa
(`pack_neg_unpack`), except for `NaN`, which has a single pattern of bits. Main statement: `float_neg_neg`.
-/

namespace GameScript

open Float.Model (Format UnpackedFloat)
open Float.Model.UnpackedFloat

section Components

variable {s : Sign} {e : BitVec 11} {m : BitVec 52}

/-- A pattern of bits from its sign, its exponent and its mantissa. -/
abbrev bitsOf (s : Sign) (e : BitVec 11) (m : BitVec 52) : BitVec 64 := packComponents Format.binary64 s e m

theorem bitsOf_eq : bitsOf s e m = (s.toBitVec ++ e ++ m : BitVec (1 + 11 + 52)) := rfl

theorem unpackSign_bitsOf : @unpackSign Format.binary64 (bitsOf s e m) = s.toBitVec := by
  rw [bitsOf_eq]
  ext i hi
  obtain rfl : i = 0 := by omega
  simp [unpackSign]
  rw [BitVec.getLsbD_append, BitVec.getLsbD_append]
  simp

/-- Every pattern of bits has the three parts. -/
theorem exists_bitsOf (b : BitVec 64) : ∃ s e m, b = bitsOf s e m := by
  obtain ⟨s, hs⟩ : ∃ s : Sign, s.toBitVec = b.extractLsb' 63 1 := by
    rcases BitVec.eq_zero_or_eq_one (b.extractLsb' 63 1) with h | h
    · exact ⟨.positive, h.symm⟩
    · exact ⟨.negative, h.symm⟩
  refine ⟨s, b.extractLsb' 52 11, b.extractLsb' 0 52, ?_⟩
  rw [bitsOf_eq, hs]
  apply BitVec.eq_of_getLsbD_eq
  intro i hi
  rw [BitVec.getLsbD_append, BitVec.getLsbD_append]
  simp only [BitVec.getLsbD_extractLsb']
  grind

theorem ofBitVec_toBitVec : Sign.ofBitVec s.toBitVec = s := by cases s <;> rfl

/-- A number with a small exponent and a mantissa without the leading bit. -/
theorem pack_subnormal (h : 0 < m.toNat) : pack Format.binary64 (.finite s m.toNat (-1074) h) = bitsOf s 0#11 m := by
  have hlog : m.toNat.log2 < 52 := (Nat.log2_lt h.ne').2 m.isLt
  have hm : ¬m.toNat.log2 + 1 = Format.binary64.mantissaBits := by
    rw [show Format.binary64.mantissaBits = 53 from rfl]
    omega
  simp only [pack, if_neg hm, BitVec.ofNat_toNat, BitVec.setWidth_eq]
  exact if_neg (by decide)

/-- A number with its leading bit in front of the mantissa. -/
theorem pack_normal (he : e ≠ -1#11) (h : 0 < 2 ^ 52 + m.toNat) :
    pack Format.binary64 (.finite s (2 ^ 52 + m.toNat) (e.toNat - 1075) h) = bitsOf s e m := by
  have hlog : (2 ^ 52 + m.toNat).log2 = 52 :=
    (Nat.log2_eq_iff h.ne').2 ⟨Nat.le_add_right _ _, by have := m.isLt; omega⟩
  have hsmall : e.toNat + 1 < 2 ^ 11 := by
    have hne : e.toNat ≠ 2047 := fun hn => he (BitVec.eq_of_toNat_eq hn)
    have := e.isLt
    omega
  have hexponent : ((e.toNat : Int) - 1075 + (1023 : Nat) + (52 : Nat)).toNat = e.toNat := by omega
  have hmantissa : BitVec.ofNat 52 (2 ^ 52 + m.toNat) = m := by
    apply BitVec.eq_of_toNat_eq
    rw [BitVec.toNat_ofNat, Nat.add_mod_left, Nat.mod_eq_of_lt m.isLt]
  simp only [pack, hlog]
  rw [show Format.binary64.exponentBias = 1023 from rfl, show Format.binary64.mantissaBits = 53 from rfl, hexponent,
    if_neg (by omega), if_pos rfl, hmantissa, BitVec.ofNat_toNat, BitVec.setWidth_eq]

theorem unpack_normal (he : e ≠ -1#11) (he' : e ≠ 0#11) : unpack Format.binary64 (bitsOf s e m) =
    .finite s (2 ^ 52 + m.toNat) (e.toNat - 1075) (by omega) := by
  have hmantissa : (1#1 ++ m).toNat = 2 ^ 52 + m.toNat := by
    rw [BitVec.toNat_append, ← Nat.shiftLeft_add_eq_or_of_lt m.isLt]
    rfl
  simp only [unpack, unpackMantissa_packComponents, unpackExponent_packComponents, unpackSign_bitsOf,
    ofBitVec_toBitVec, if_neg he, if_neg he', hmantissa]
  rfl

theorem unpack_subnormal (hm : m ≠ 0#52) : unpack Format.binary64 (bitsOf s 0#11 m) =
    .finite s m.toNat (-1074) (by simpa [BitVec.toNat_pos, BitVec.pos_iff_ne_zero]) := by
  simp only [unpack, unpackMantissa_packComponents, unpackExponent_packComponents, unpackSign_bitsOf,
    ofBitVec_toBitVec, dif_neg hm]
  rfl

/-- Negation flips the sign, unless the bits are those of `NaN`. -/
theorem pack_neg_unpack : pack Format.binary64 (unpack Format.binary64 (bitsOf s e m)).neg =
    if e = -1#11 ∧ m ≠ 0#52 then packedNaN Format.binary64 else bitsOf (-s) e m := by
  by_cases he : e = -1#11
  · subst he
    by_cases hm : m = 0#52
    · subst hm
      cases s <;> rfl
    · have hu : unpack Format.binary64 (bitsOf s (-1#11) m) = .notANumber := by
        simp [unpack, hm]
      rw [hu, if_pos ⟨rfl, hm⟩]
      rfl
  · rw [if_neg fun h => he h.1]
    by_cases he' : e = 0#11
    · subst he'
      by_cases hm : m = 0#52
      · subst hm
        cases s <;> rfl
      · rw [unpack_subnormal hm]
        exact pack_subnormal _
    · rw [unpack_normal he he']
      exact pack_normal he _

end Components

/-- Negation undoes itself. -/
theorem float_neg_neg (x : Float) : -(-x) = x := by
  obtain ⟨⟨bits, valid⟩⟩ := x
  obtain ⟨s, e, m, hb⟩ := exists_bitsOf bits.toBitVec
  have hflip : (-(-s)) = s := by cases s <;> rfl
  have hbits : pack Format.binary64 (unpack Format.binary64 (pack Format.binary64
      (unpack Format.binary64 bits.toBitVec).neg)).neg = bits.toBitVec := by
    rw [hb, pack_neg_unpack]
    split
    · rename_i h
      have hnan : bitsOf s e m = packedNaN Format.binary64 := by
        have hv := valid.eq_packedNaN
        rw [hb] at hv
        exact hv (by simpa using h.1) (by simpa using h.2)
      rw [hnan]
      exact pack_neg_unpack
    · rename_i h
      rw [pack_neg_unpack, if_neg h, hflip]
  have hmodel : (-(-(⟨⟨bits, valid⟩⟩ : Float))).toModel.toBits = bits := congrArg UInt64.ofBitVec hbits
  exact congrArg Float.ofModel (Float.Model.mk.injEq .. |>.mpr hmodel)

end GameScript
