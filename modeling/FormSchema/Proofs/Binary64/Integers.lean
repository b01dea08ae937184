import Mathlib.Algebra.Field.Rat
import Mathlib.Algebra.Order.Field.Basic
import Mathlib.Data.Nat.Cast.Field
import Mathlib.Tactic.FieldSimp
import Mathlib.Tactic.Linarith
import Mathlib.Tactic.NormNum
import Mathlib.Tactic.Positivity
import FormSchema.Binary64

/-!
# Integers as doubles

A double stands for a rational number, `Binary64.toRat`.  An integer of less than 54 bits is a
double itself, so that rounding leaves it alone, and every other integer is rounded to a double
that is as far from zero as `2 ^ 53` at least.  The bounds of all integer types lie far below that.
Whether an integer lies between them can therefore be told from its double, although it may not
be the only integer with this double.
-/

namespace FormSchema

namespace Binary64

/-- The number that a double stands for. -/
def toRat (value : Binary64) : ℚ :=
  (if value.negative then -1 else 1) * value.significand * (2 : ℚ) ^ value.exponent

theorem abs_toRat (value : Binary64) :
    |value.toRat| = value.significand * (2 : ℚ) ^ value.exponent := by
  have magnitude : (0 : ℚ) ≤ value.significand * 2 ^ value.exponent :=
    mul_nonneg (Nat.cast_nonneg _) (zpow_nonneg zero_le_two _)
  unfold toRat
  cases value.negative with
  | true => rw [if_pos rfl, mul_assoc, neg_one_mul, abs_neg, abs_of_nonneg magnitude]
  | false => rw [if_neg Bool.false_ne_true, one_mul, abs_of_nonneg magnitude]

/-! ## Doubles that are integers -/

theorem toFraction_snd_pos (value : Binary64) : 0 < value.toFraction.2 := by
  unfold toFraction
  split
  · exact Nat.one_pos
  · exact Nat.pow_pos Nat.two_pos

/-- The fraction of a double is its magnitude. -/
theorem toRat_eq_toFraction (value : Binary64) :
    value.toRat =
      (if value.negative then -1 else 1) * ((value.toFraction.1 : ℚ) / value.toFraction.2) := by
  rw [toRat, mul_assoc]
  congr 1
  unfold toFraction
  by_cases nonneg : 0 ≤ value.exponent
  · obtain ⟨power, isPower⟩ := Int.eq_ofNat_of_zero_le nonneg
    simp [isPower]
  · obtain ⟨power, isPower⟩ :=
      Int.eq_ofNat_of_zero_le (Int.neg_nonneg.mpr (Int.not_le.mp nonneg).le)
    rw [if_neg nonneg, ← neg_neg value.exponent, isPower]
    simp [div_eq_mul_inv]

/-- A double whose fraction does not cancel to an integer is no integer. -/
theorem mod_eq_zero_of_toRat {value : Binary64} {integer : Int}
    (isInteger : value.toRat = integer) : value.toFraction.1 % value.toFraction.2 = 0 := by
  have positive : (0 : ℚ) < value.toFraction.2 := Nat.cast_pos.mpr value.toFraction_snd_pos
  rw [toRat_eq_toFraction, ← mul_div_assoc, div_eq_iff positive.ne'] at isInteger
  have divides : (value.toFraction.2 : ℤ) ∣ value.toFraction.1 := by
    cases negative : value.negative with
    | true =>
        refine ⟨-integer, ?_⟩
        rw [negative, if_pos rfl] at isInteger
        have asRationals : (value.toFraction.1 : ℚ) = value.toFraction.2 * -integer := by
          linarith
        exact_mod_cast asRationals
    | false =>
        refine ⟨integer, ?_⟩
        rw [negative, if_neg Bool.false_ne_true] at isInteger
        have asRationals : (value.toFraction.1 : ℚ) = value.toFraction.2 * integer := by
          linarith
        exact_mod_cast asRationals
  exact Nat.mod_eq_zero_of_dvd (Int.natCast_dvd_natCast.mp divides)

/-- A double is equal to an integer exactly if that is the number it stands for. -/
theorem toInt?_eq_some_iff {value : Binary64} {integer : Int} :
    value.toInt? = some integer ↔ value.toRat = integer := by
  by_cases whole : value.toFraction.1 % value.toFraction.2 = 0
  · have isQuotient : ((value.toFraction.1 / value.toFraction.2 : ℕ) : ℚ) =
        value.toFraction.1 / value.toFraction.2 :=
      Nat.cast_div (Nat.dvd_of_mod_eq_zero whole)
        (Nat.cast_ne_zero.mpr value.toFraction_snd_pos.ne')
    rw [toRat_eq_toFraction, ← isQuotient, toInt?, if_pos whole, Option.some.injEq]
    cases value.negative with
    | true =>
        rw [if_pos rfl, if_pos rfl, neg_mul, one_mul, ← Int.natCast_div,
          ← Int.cast_natCast (R := ℚ), ← Int.cast_neg, Int.cast_inj]
    | false =>
        rw [if_neg Bool.false_ne_true, if_neg Bool.false_ne_true, one_mul, ← Int.natCast_div,
          ← Int.cast_natCast (R := ℚ), Int.cast_inj]
  · rw [toInt?, if_neg whole]
    exact iff_of_false (by simp) fun isInteger => whole (mod_eq_zero_of_toRat isInteger)

/-! ## Rounding positive integers -/

theorem ofParts?_eq_some_iff {negative : Bool} {significand : ℕ} {exponent : ℤ}
    {value : Binary64} :
    ofParts? negative significand exponent = some value ↔
      value.negative = negative ∧ value.significand = significand ∧ value.exponent = exponent := by
  obtain ⟨_, _, _, small, least, greatest, normalized⟩ := value
  unfold ofParts?
  constructor
  · split
    · intro isSome
      cases isSome
      exact ⟨rfl, rfl, rfl⟩
    · intro isNone
      cases isNone
  · rintro ⟨rfl, rfl, rfl⟩
    rw [dif_pos ⟨small, least, greatest, normalized⟩]

/-- An integer is rounded to itself. -/
theorem roundQuotient_one (numerator : ℕ) : roundQuotient numerator 1 = numerator := by
  simp [roundQuotient, Nat.mod_one]

/-- A fraction is rounded up or down. -/
theorem div_le_roundQuotient (numerator denominator : ℕ) :
    numerator / denominator ≤ roundQuotient numerator denominator := by
  simp only [roundQuotient]
  split <;> omega

/-- Scaling an integer by a power of two puts that into the numerator or into the denominator. -/
theorem scaledFraction_one (numerator : ℕ) (exponent : ℤ) :
    scaledFraction numerator 1 exponent =
      (numerator * 2 ^ (-exponent).toNat, 2 ^ exponent.toNat) := by
  unfold scaledFraction
  by_cases nonneg : 0 ≤ exponent
  · have none : (-exponent).toNat = 0 := by omega
    simp [nonneg, none]
  · have none : exponent.toNat = 0 := by omega
    simp [nonneg, none]

section Positive

variable {natural : ℕ}

/-- An integer whose leading bit is moved to a place has at least the value of that place. -/
theorem le_scaled (positive : 0 < natural) {place raised lowered : ℕ}
    (moved : place + lowered = natural.log2 + raised) :
    2 ^ place ≤ natural * 2 ^ raised / 2 ^ lowered := by
  rw [Nat.le_div_iff_mul_le (Nat.two_pow_pos lowered), ← Nat.pow_add, moved, Nat.pow_add]
  exact Nat.mul_le_mul_right _ (Nat.log2_self_le positive.ne')

/-- An integer whose leading bit is moved to a place is below the value of the next place. -/
theorem scaled_lt {place raised lowered : ℕ} (moved : place + lowered = natural.log2 + raised) :
    natural * 2 ^ raised / 2 ^ lowered < 2 ^ (place + 1) := by
  have isNext : place + 1 + lowered = natural.log2 + 1 + raised := by omega
  rw [Nat.div_lt_iff_lt_mul (Nat.two_pow_pos lowered), ← Nat.pow_add, isNext, Nat.pow_add]
  exact Nat.mul_lt_mul_of_pos_right Nat.lt_log2_self (Nat.two_pow_pos raised)

/-- The exponent of a positive integer leaves 53 bits for the significand. -/
theorem roundingExponent_one (positive : 0 < natural) :
    roundingExponent natural 1 = natural.log2 - 52 := by
  have estimated : max ((natural.log2 : ℤ) - Nat.log2 1 - 53) (-1074) = natural.log2 - 53 := by
    have none : Nat.log2 1 = 0 := by decide
    omega
  have tooLarge : 2 ^ 53 ≤ natural * 2 ^ (-((natural.log2 : ℤ) - 53)).toNat /
      2 ^ ((natural.log2 : ℤ) - 53).toNat :=
    le_scaled positive (by omega)
  simp only [roundingExponent, estimated, scaledFraction_one, Nat.pow_eq, if_pos tooLarge]
  omega

/-- A positive integer of less than 54 bits is a double. -/
theorem exists_ofFraction_one (negative : Bool) (positive : 0 < natural)
    (small : natural < 2 ^ 53) :
    ∃ value, ofFraction negative natural 1 = some value ∧
      value.toRat = (if negative then -1 else 1) * natural := by
  have short : natural.log2 < 53 := (Nat.log2_lt positive.ne').mpr small
  obtain ⟨raised, isRaised⟩ : ∃ raised, natural.log2 + raised = 52 :=
    ⟨52 - natural.log2, by omega⟩
  have isExponent : roundingExponent natural 1 = -(raised : ℤ) := by
    rw [roundingExponent_one positive]
    omega
  have isFraction :
      scaledFraction natural 1 (-(raised : ℤ)) = (natural * 2 ^ raised, 1) := by
    have none : (-(raised : ℤ)).toNat = 0 := by omega
    rw [scaledFraction_one, neg_neg, Int.toNat_natCast, none, Nat.pow_zero]
  have isMoved : 52 + 0 = natural.log2 + raised := isRaised.symm
  have least : 2 ^ 52 ≤ natural * 2 ^ raised := by
    simpa using le_scaled positive isMoved
  have greatest : natural * 2 ^ raised < 2 ^ 53 := by
    simpa using scaled_lt isMoved
  refine ⟨⟨negative, natural * 2 ^ raised, -raised, greatest, by omega, by omega, .inl least⟩,
    ?_, ?_⟩
  · simp only [ofFraction, positive.ne', if_false, isExponent, isFraction, roundQuotient_one,
      Nat.pow_eq, greatest.ne]
    exact ofParts?_eq_some_iff.mpr ⟨rfl, rfl, rfl⟩
  · simp only [toRat, Nat.cast_mul, Nat.cast_pow, Nat.cast_ofNat, zpow_neg, zpow_natCast]
    field_simp

/-- Any other positive integer is rounded to a double that is no less than `2 ^ 53`. -/
theorem le_of_ofFraction_one {negative : Bool} (large : 2 ^ 53 ≤ natural) {value : Binary64}
    (isRounded : ofFraction negative natural 1 = some value) : 2 ^ 53 ≤ |value.toRat| := by
  have positive : 0 < natural := Nat.lt_of_lt_of_le (Nat.two_pow_pos 53) large
  have long : 53 ≤ natural.log2 := (Nat.le_log2 positive.ne').mpr large
  obtain ⟨lowered, isLowered⟩ : ∃ lowered, 52 + (lowered + 1) = natural.log2 :=
    ⟨natural.log2 - 53, by omega⟩
  have isExponent : roundingExponent natural 1 = (lowered + 1 : ℕ) := by
    rw [roundingExponent_one positive]
    omega
  have isFraction :
      scaledFraction natural 1 (lowered + 1 : ℕ) = (natural, 2 ^ (lowered + 1)) := by
    have none : (-((lowered + 1 : ℕ) : ℤ)).toNat = 0 := by omega
    rw [scaledFraction_one, Int.toNat_natCast, none, Nat.pow_zero, Nat.mul_one]
  have least : 2 ^ 52 ≤ roundQuotient natural (2 ^ (lowered + 1)) := by
    refine le_trans ?_ (div_le_roundQuotient _ _)
    have isMoved : 52 + (lowered + 1) = natural.log2 + 0 := isLowered
    simpa using le_scaled positive isMoved
  have isLarge : 2 ^ 52 ≤ value.significand ∧ 1 ≤ value.exponent := by
    simp only [ofFraction, positive.ne', if_false, isExponent, isFraction, Nat.pow_eq] at isRounded
    split at isRounded
    · obtain ⟨-, isSignificand, isExponent⟩ := ofParts?_eq_some_iff.mp isRounded
      exact ⟨isSignificand.ge, by omega⟩
    · obtain ⟨-, isSignificand, isExponent⟩ := ofParts?_eq_some_iff.mp isRounded
      exact ⟨isSignificand ▸ least, by omega⟩
  have significand : (2 ^ 52 : ℚ) ≤ value.significand := by exact_mod_cast isLarge.1
  have power : (2 : ℚ) ^ (1 : ℤ) ≤ 2 ^ value.exponent :=
    zpow_le_zpow_right₀ one_le_two isLarge.2
  calc (2 ^ 53 : ℚ) = 2 ^ 52 * 2 ^ (1 : ℤ) := by norm_num
    _ ≤ value.significand * 2 ^ value.exponent :=
      mul_le_mul significand power (by positivity) (by positivity)
    _ = |value.toRat| := value.abs_toRat.symm

end Positive

/-! ## Rounding integers -/

theorem toRat_zero (negative : Bool) : (zero negative).toRat = 0 := by
  simp [toRat, zero]

/-- An integer of less than 54 bits is a double. -/
theorem exists_ofInt {integer : ℤ} (small : integer.natAbs < 2 ^ 53) :
    ∃ value, ofInt integer = some value ∧ value.toRat = integer := by
  by_cases isZero : integer = 0
  · subst isZero
    exact ⟨zero false, rfl, by rw [toRat_zero, Int.cast_zero]⟩
  · obtain ⟨value, isRounded, isExact⟩ :=
      exists_ofFraction_one (integer < 0) (Int.natAbs_pos.mpr isZero) small
    refine ⟨value, isRounded, isExact.trans ?_⟩
    by_cases negative : integer < 0
    · have magnitude : (integer.natAbs : ℤ) = -integer := by omega
      rw [← Int.cast_natCast, magnitude]
      simp [negative]
    · have magnitude : (integer.natAbs : ℤ) = integer := by omega
      rw [← Int.cast_natCast, magnitude]
      simp [negative]

/-- Whether an integer lies between bounds of less than 54 bits can be told from its double. -/
theorem toInt?_within_iff {integer least greatest : ℤ} (smallLeast : least.natAbs < 2 ^ 53)
    (smallGreatest : greatest.natAbs < 2 ^ 53) :
    (∃ rounded, (ofInt integer).bind toInt? = some rounded ∧ least ≤ rounded ∧
      rounded ≤ greatest) ↔ least ≤ integer ∧ integer ≤ greatest := by
  by_cases small : integer.natAbs < 2 ^ 53
  · obtain ⟨value, isRounded, isExact⟩ := exists_ofInt small
    rw [isRounded, Option.bind_some, toInt?_eq_some_iff.mpr isExact]
    constructor
    · rintro ⟨rounded, isSome, within⟩
      cases isSome
      exact within
    · exact fun within => ⟨integer, rfl, within⟩
  · apply iff_of_false
    · rintro ⟨rounded, isRounded, within⟩
      obtain ⟨value, isValue, isInteger⟩ := Option.bind_eq_some_iff.mp isRounded
      have far := le_of_ofFraction_one (Nat.le_of_not_lt small) isValue
      rw [toInt?_eq_some_iff.mp isInteger, ← Int.cast_abs, Int.abs_eq_natAbs] at far
      have farther : 2 ^ 53 ≤ rounded.natAbs := by exact_mod_cast far
      omega
    · omega

end Binary64

end FormSchema
