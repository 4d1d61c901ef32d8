import GameScript.Proofs.Text.Negation
import GameScript.Text.Decimal

/-!
# Floating-point numbers as literals

Numbers compare the same from both sides, and a number is equal to itself unless it is no number at all
(`float_beq_comm`, `float_beq_self`). What decimal text stands for is always a number, and so is its negation
(`isNaN_readDecimal`, `isNaN_neg`): rounding makes no `NaN`, nor does multiplying or dividing by a power of ten.
-/

namespace GameScript

open Float.Model (Format UnpackedFloat)
open Float.Model.UnpackedFloat

/-! ## Comparing -/

section Comparing

variable {x y : Float}

theorem float_beq_iff : (x == y) = true ↔ x.toModel.unpack.beq y.toModel.unpack = true := Iff.rfl

theorem float_isNaN_iff : x.isNaN = true ↔ x.toModel.unpack = .notANumber := isNaN_iff

/-- It makes no difference which of two numbers comes first. -/
theorem float_beq_comm (x y : Float) : (x == y) = (y == x) := by
  rw [Bool.eq_iff_iff, float_beq_iff, float_beq_iff, beq_iff_ne_notANumber_and_eq, beq_iff_ne_notANumber_and_eq]
  grind

/-- Whatever is a number is equal to itself. -/
theorem float_beq_self (x : Float) : (x == x) = !x.isNaN := by
  rw [Bool.eq_iff_iff, float_beq_iff, beq_iff_ne_notANumber_and_eq, Bool.not_eq_true', ← Bool.not_eq_true,
    float_isNaN_iff]
  grind

end Comparing

/-! ## Numbers stay numbers -/

section Rounding

variable {x y : UnpackedFloat} {s : Sign} {e : BitVec 11} {m : BitVec 52}

theorem isNaN_roundWithAccuracy (s : Sign) (m : Nat) (e : Int) (acc : Accuracy) :
    (roundWithAccuracy Format.binary64 s m e acc).isNaN = false := by
  simp only [roundWithAccuracy]
  split <;> rfl

/-- Only the greatest exponent is that of something that is no number. -/
theorem isNaN_unpack_bitsOf (he : e ≠ -1#11) : (unpack Format.binary64 (bitsOf s e m)).isNaN = false := by
  simp only [unpack, unpackMantissa_packComponents, unpackExponent_packComponents, if_neg he]
  split
  · split <;> rfl
  · rfl

/-- A number is still one when it has been cut to the bits of a double. -/
theorem isNaN_unpack_pack (h : x.isNaN = false) : (unpack Format.binary64 (pack Format.binary64 x)).isNaN = false := by
  cases x with
  | notANumber => cases h
  | infinity s => cases s <;> rfl
  | zero s => cases s <;> rfl
  | finite s m e hm =>
    simp only [pack]
    split
    · cases s <;> rfl
    rename_i hlt
    split
    · refine isNaN_unpack_bitsOf fun he => ?_
      have hn := congrArg BitVec.toNat he
      rw [BitVec.toNat_ofNat, Nat.mod_eq_of_lt (show _ < 2 ^ 11 by have : ¬2 ^ 11 ≤ _ := hlt; omega)] at hn
      exact hlt (by rw [hn]; decide)
    · exact isNaN_unpack_bitsOf (by decide)

/-- A number other than zero that is not infinite. -/
def isOrdinary : UnpackedFloat → Bool
  | .finite .. => true
  | _ => false

theorem isNaN_mul (hx : x.isNaN = false) (hy : isOrdinary y = true) :
    (UnpackedFloat.mul Format.binary64 x y).isNaN = false := by
  cases y <;> cases hy
  cases x with
  | notANumber => cases hx
  | finite => exact isNaN_roundWithAccuracy ..
  | infinity | zero => rfl

theorem isNaN_div (hx : x.isNaN = false) (hy : isOrdinary y = true) :
    (UnpackedFloat.div Format.binary64 x y).isNaN = false := by
  cases y <;> cases hy
  cases x with
  | notANumber => cases hx
  | finite => exact isNaN_roundWithAccuracy ..
  | infinity | zero => rfl

theorem isNaN_normalize (n e : Int) (s : Sign) : (UnpackedFloat.normalize Format.binary64 n e s).isNaN = false := by
  unfold UnpackedFloat.normalize
  split
  · exact isNaN_roundWithAccuracy ..
  · rfl
  · exact isNaN_roundWithAccuracy ..

theorem isNaN_ofScientific_unpacked (m : Nat) (e : Int) :
    (UnpackedFloat.ofScientific Format.binary64 m e).isNaN = false := by
  unfold UnpackedFloat.ofScientific
  split
  · rfl
  split
  · rfl
  split
  · rfl
  split
  · exact isNaN_mul rfl rfl
  · exact isNaN_div rfl rfl

end Rounding

/-- The negation of a number is one. -/
theorem isNaN_neg {x : Float} (h : x.isNaN = false) : (-x).isNaN = false := by
  have hneg : x.toModel.unpack.neg.isNaN = false := by
    replace h : x.toModel.unpack.isNaN = false := h
    revert h
    cases x.toModel.unpack <;> exact id
  exact isNaN_unpack_pack hneg

theorem isNaN_toFloat (n : UInt64) : n.toFloat.isNaN = false := isNaN_unpack_pack (isNaN_normalize ..)

theorem isOrdinary_powerOfTen :
    ∀ i : Fin 23, isOrdinary Float.exactlyRepresentablePowersOfTen[i].toModel.unpack = true := by decide

theorem isNaN_ofScientific (m : Nat) (s : Bool) (e : Nat) : (Float.ofScientific m s e).isNaN = false := by
  unfold Float.ofScientific
  split
  · rename_i h
    have hpower := isOrdinary_powerOfTen ⟨e, by omega⟩
    dsimp only
    split
    · exact isNaN_unpack_pack (isNaN_div (isNaN_toFloat _) hpower)
    · exact isNaN_unpack_pack (isNaN_mul (isNaN_toFloat _) hpower)
  · exact isNaN_unpack_pack (isNaN_ofScientific_unpacked ..)

/-- Decimal text stands for a number. -/
theorem isNaN_readDecimal (digits : Nat) (exponent : Int) : (readDecimal digits exponent).isNaN = false := by
  unfold readDecimal
  dsimp only
  split
  · decide
  split
  · decide
  split
  · exact isNaN_ofScientific ..
  split
  · exact isNaN_ofScientific ..
  · exact isNaN_ofScientific ..

end GameScript
