import FormSchema.Primitive
import FormSchema.Proofs.Binary64.Integers

/-!
# The integer types

An integer type is named for a word of so many bits, with or without a sign.  It accepts exactly
the numbers that are equal to an integer which that word holds, in whichever way they are written:
as integers of any size, or as doubles.  No other values are accepted.
-/

namespace FormSchema.Primitive

/-- The integer types are named for the words that hold them: with or without a sign, of so many
bits. -/
inductive IsWord : Primitive → Bool → ℕ → Prop where
  | int8 : IsWord int8 true 8
  | uint8 : IsWord uint8 false 8
  | int16 : IsWord int16 true 16
  | uint16 : IsWord uint16 false 16
  | int32 : IsWord int32 true 32
  | uint32 : IsWord uint32 false 32

/-- The least integer that a word holds. -/
def wordLeast (signed : Bool) (bits : ℕ) : ℤ :=
  if signed then -2 ^ (bits - 1) else 0

/-- The greatest integer that a word holds. -/
def wordGreatest (signed : Bool) (bits : ℕ) : ℤ :=
  if signed then 2 ^ (bits - 1) - 1 else 2 ^ bits - 1

variable {primitive : Primitive} {signed : Bool} {bits : ℕ}

theorem IsWord.bounds?_eq (isWord : primitive.IsWord signed bits) :
    primitive.bounds? = some (wordLeast signed bits, wordGreatest signed bits) := by
  cases isWord <;> rfl

/-- The bounds of words have less than 54 bits. -/
theorem IsWord.natAbs_lt (isWord : primitive.IsWord signed bits) :
    (wordLeast signed bits).natAbs < 2 ^ 53 ∧ (wordGreatest signed bits).natAbs < 2 ^ 53 := by
  cases isWord <;> decide

theorem IsWord.accepts_eq (isWord : primitive.IsWord signed bits) (value : Json) :
    primitive.accepts value =
      isIntegerWithin (wordLeast signed bits) (wordGreatest signed bits) value := by
  simp only [accepts, isWord.bounds?_eq]

/-- An integer type accepts the numbers whose double is equal to an integer within its bounds. -/
theorem IsWord.accepts_number_iff (isWord : primitive.IsWord signed bits) {number : Number} :
    primitive.accepts (.number number) = true ↔
      ∃ integer, number.toDouble?.bind Binary64.toInt? = some integer ∧
        wordLeast signed bits ≤ integer ∧ integer ≤ wordGreatest signed bits := by
  rw [isWord.accepts_eq, isIntegerWithin]
  cases number.toDouble?.bind Binary64.toInt? with
  | none => simp
  | some integer => simp

/-- An integer type accepts exactly the numbers that are equal to an integer which the word holds,
although all numbers are compared as doubles.  The bounds are doubles themselves, and an integer
that is not its own double is out of bounds before it is rounded and after. -/
theorem accepts_word_exactly (isWord : primitive.IsWord signed bits) :
    (∀ bound ∈ [wordLeast signed bits, wordGreatest signed bits],
      ∃ double, Binary64.ofInt bound = some double ∧ double.toRat = bound) ∧
    (∀ integer : ℤ, primitive.accepts (.number (.integer integer)) = true ↔
      wordLeast signed bits ≤ integer ∧ integer ≤ wordGreatest signed bits) ∧
    (∀ double : Binary64, primitive.accepts (.number (.double double)) = true ↔
      ∃ integer : ℤ, double.toRat = integer ∧
        wordLeast signed bits ≤ integer ∧ integer ≤ wordGreatest signed bits) ∧
    ∀ value, primitive.accepts value = true → ∃ number, value = .number number := by
  obtain ⟨smallLeast, smallGreatest⟩ := isWord.natAbs_lt
  refine ⟨?bounds, ?integers, ?doubles, ?others⟩
  case bounds =>
    intro bound isBound
    rcases List.mem_pair.mp isBound with rfl | rfl
    · exact Binary64.exists_ofInt smallLeast
    · exact Binary64.exists_ofInt smallGreatest
  case integers =>
    intro integer
    rw [isWord.accepts_number_iff]
    exact Binary64.toInt?_within_iff smallLeast smallGreatest
  case doubles =>
    intro double
    rw [isWord.accepts_number_iff]
    simp only [Number.toDouble?, Option.bind_some, Binary64.toInt?_eq_some_iff]
  case others =>
    intro value isAccepted
    rw [isWord.accepts_eq] at isAccepted
    cases value with
    | number number => exact ⟨number, rfl⟩
    | null | bool | string | array | object => simp [isIntegerWithin] at isAccepted

/-- The greatest integers of 64 bits have the same double as the power of two behind them, and are
told from those of 32 bits all the same.  Zero with a minus sign is zero. -/
theorem accepts_word_exactly_rounded :
    Binary64.ofInt 18446744073709551615 = Binary64.ofInt 18446744073709551616 ∧
    uint32.accepts (.number (.integer 18446744073709551615)) = false ∧
    uint32.accepts (.number (.integer 4294967295)) = true ∧
    uint32.accepts (.number (.double (Binary64.zero true))) = true := by
  obtain ⟨-, integers, doubles, -⟩ := accepts_word_exactly .uint32
  refine ⟨rfl, ?_, (integers _).mpr (by decide), (doubles _).mpr ⟨0, ?_, by decide⟩⟩
  · rw [Bool.eq_false_iff]
    intro isAccepted
    exact absurd ((integers _).mp isAccepted) (by decide)
  · rw [Binary64.toRat_zero, Int.cast_zero]

end FormSchema.Primitive
