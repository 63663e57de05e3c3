import Scribe.Data.Number
import Mathlib.Algebra.Order.Ring.Rat
import Mathlib.Algebra.Order.Field.Basic
import Mathlib.Tactic.FieldSimp
import Mathlib.Tactic.Linarith
import Mathlib.Tactic.NormNum
import Mathlib.Tactic.Positivity

/-! Binary64 arithmetic on rationals.

A finite number is the rational it stands for and an operation rounds its exact
result to the nearest representable number. Halves of integers of pixel size are
representable, and a twentieth of an integer comes out exact when it is a half.
-/

set_option autoImplicit false

namespace Scribe.Binary64

open Number

/-- The representable number nearest to a rational of the normal range, ties to even. -/
def nearest (value : ℚ) : ℚ :=
  let rounded := toBinary64 ⟨decide (value < 0), value.num.natAbs, value.den⟩
  let magnitude : ℚ := rounded.numerator / rounded.denominator
  if value < 0 then -magnitude else magnitude

def add (a b : ℚ) : ℚ := nearest (a + b)

def sub (a b : ℚ) : ℚ := nearest (a - b)

def mul (a b : ℚ) : ℚ := nearest (a * b)

def div (a b : ℚ) : ℚ := nearest (a / b)

/-! ## Rounding to an integer -/

theorem roundHalfEven_error (numerator : Nat) {denominator : Nat} (positive : 0 < denominator) :
    2 * (roundHalfEven numerator denominator * denominator) ≤ 2 * numerator + denominator ∧
      2 * numerator ≤ 2 * (roundHalfEven numerator denominator * denominator) + denominator := by
  have split := Nat.div_add_mod numerator denominator
  have small := Nat.mod_lt numerator positive
  have next : (numerator / denominator + 1) * denominator =
      denominator * (numerator / denominator) + denominator := by ring
  have same : numerator / denominator * denominator = denominator * (numerator / denominator) := by
    ring
  simp only [roundHalfEven]
  split
  · rw [same]; omega
  · split
    · rw [next]; omega
    · split
      · rw [same]; omega
      · rw [next]; omega

theorem roundHalfEven_eq {numerator denominator result : Nat} (positive : 0 < denominator)
    (above : 2 * numerator < 2 * (result * denominator) + denominator)
    (below : 2 * (result * denominator) < 2 * numerator + denominator) :
    roundHalfEven numerator denominator = result := by
  obtain ⟨upper, lower⟩ := roundHalfEven_error numerator positive
  have up : roundHalfEven numerator denominator * denominator < (result + 1) * denominator := by
    rw [Nat.add_mul]
    omega
  have down : result * denominator < (roundHalfEven numerator denominator + 1) * denominator := by
    rw [Nat.add_mul]
    omega
  have := Nat.lt_of_mul_lt_mul_right up
  have := Nat.lt_of_mul_lt_mul_right down
  omega

/-! ## Rounding to binary64 -/

/-- A number of pixel size keeps at least 21 binary places and at most 53 binary digits. -/
theorem toBinary64_places (negative : Bool) {numerator denominator : Nat} (positive : 0 < numerator)
    (nonzero : 0 < denominator) (small : numerator < denominator * 2 ^ 32) :
    ∃ places, 21 ≤ places ∧ numerator * 2 ^ places < denominator * 2 ^ 53 ∧
      toBinary64 ⟨negative, numerator, denominator⟩ =
        ⟨negative, roundHalfEven (numerator * 2 ^ places) denominator, 2 ^ places⟩ := by
  have rounded : ∀ places : Nat, 52 - leadingExponent numerator denominator = Int.ofNat places →
      toBinary64 ⟨negative, numerator, denominator⟩ =
        ⟨negative, roundHalfEven (numerator * 2 ^ places) denominator, 2 ^ places⟩ := by
    intro places same
    simp only [toBinary64, positive.ne', if_false, same]
  by_cases whole : denominator ≤ numerator
  · have quotient : numerator / denominator ≠ 0 := (Nat.div_pos whole nonzero).ne'
    have low : Nat.log2 (numerator / denominator) < 32 := by
      rw [Nat.log2_lt quotient, Nat.div_lt_iff_lt_mul nonzero, Nat.mul_comm]
      exact small
    have high : numerator < denominator * 2 ^ (Nat.log2 (numerator / denominator) + 1) := by
      rw [Nat.mul_comm, ← Nat.div_lt_iff_lt_mul nonzero]
      exact Nat.lt_log2_self
    refine ⟨52 - Nat.log2 (numerator / denominator), by omega, ?_, rounded _ ?_⟩
    · have shifted :=
        Nat.mul_lt_mul_of_pos_right high (Nat.two_pow_pos (52 - Nat.log2 (numerator / denominator)))
      rwa [Nat.mul_assoc, ← pow_add, show Nat.log2 (numerator / denominator) + 1 +
        (52 - Nat.log2 (numerator / denominator)) = 53 by omega] at shifted
    · simp only [leadingExponent, whole, if_true, Int.ofNat_eq_natCast]
      omega
  · have quotient : denominator / numerator ≠ 0 := (Nat.div_pos (by omega) positive).ne'
    have reach : numerator * 2 ^ Nat.log2 (denominator / numerator) ≤ denominator :=
      (Nat.mul_le_mul_left _ (Nat.log2_self_le quotient)).trans (Nat.mul_div_le _ _)
    -- Below one the leading digit is at the quotient's exponent or one place further.
    by_cases exact_ : denominator ≤ numerator * 2 ^ Nat.log2 (denominator / numerator)
    · refine ⟨52 + Nat.log2 (denominator / numerator), by omega, ?_, rounded _ ?_⟩
      · calc numerator * 2 ^ (52 + Nat.log2 (denominator / numerator))
            = numerator * 2 ^ Nat.log2 (denominator / numerator) * 2 ^ 52 := by ring
          _ ≤ denominator * 2 ^ 52 := Nat.mul_le_mul_right _ reach
          _ < denominator * 2 ^ 53 := by omega
      · simp only [leadingExponent, whole, exact_, if_true, if_false, Int.ofNat_eq_natCast]
        omega
    · refine ⟨53 + Nat.log2 (denominator / numerator), by omega, ?_, rounded _ ?_⟩
      · calc numerator * 2 ^ (53 + Nat.log2 (denominator / numerator))
            = numerator * 2 ^ Nat.log2 (denominator / numerator) * 2 ^ 53 := by ring
          _ < denominator * 2 ^ 53 := Nat.mul_lt_mul_of_pos_right (by omega) (by positivity)
      · simp only [leadingExponent, whole, exact_, if_false, Int.ofNat_eq_natCast]
        omega

@[simp] theorem nearest_zero : nearest 0 = 0 := by simp [nearest, toBinary64]

theorem numerator_eq {value : ℚ} (positive : 0 < value) :
    (value.num.natAbs : ℚ) = value * value.den := by
  have nonneg : (value.num.natAbs : ℤ) = value.num :=
    Int.natAbs_of_nonneg (Rat.num_nonneg.mpr positive.le)
  rw [Rat.mul_den_eq_num, ← nonneg]
  rfl

section
variable {value : ℚ} (positive : 0 < value) (small : value < 2 ^ 32)
include positive small

theorem nearest_eq_rounded :
    ∃ places, 21 ≤ places ∧ value * 2 ^ places < 2 ^ 53 ∧
      nearest value = (roundHalfEven (value.num.natAbs * 2 ^ places) value.den : ℚ) / 2 ^ places := by
  have den : (0 : ℚ) < value.den := by exact_mod_cast value.den_pos
  have num : 0 < value.num.natAbs := Int.natAbs_pos.mpr (Rat.num_pos.mpr positive).ne'
  have bounded : value.num.natAbs < value.den * 2 ^ 32 := by
    have : (value.num.natAbs : ℚ) < value.den * 2 ^ 32 := by
      rw [numerator_eq positive, mul_comm]
      exact mul_lt_mul_of_pos_left small den
    exact_mod_cast this
  obtain ⟨places, enough, digits, rounded⟩ :=
    toBinary64_places (decide (value < 0)) num value.den_pos bounded
  refine ⟨places, enough, ?_, ?_⟩
  · have : (value.num.natAbs : ℚ) * 2 ^ places < value.den * 2 ^ 53 := by exact_mod_cast digits
    rw [numerator_eq positive, mul_right_comm, mul_comm] at this
    exact lt_of_mul_lt_mul_left this den.le
  · simp only [nearest]
    rw [rounded, if_neg (not_lt.mpr positive.le)]
    push_cast
    rfl

theorem nearest_eq_half {halves : Nat} (close : |value - halves / 2| ≤ value / 2 ^ 54) :
    nearest value = halves / 2 := by
  obtain ⟨places, enough, digits, rounded⟩ := nearest_eq_rounded positive small
  obtain ⟨fewer, rfl⟩ : ∃ fewer, places = fewer + 1 := ⟨places - 1, by omega⟩
  have den : (0 : ℚ) < value.den := by exact_mod_cast value.den_pos
  have scale : (0 : ℚ) < 2 ^ (fewer + 1) := by positivity
  -- Scaled to integers, the distance is below a half, so the rounding cannot miss.
  have near : |value * 2 ^ (fewer + 1) - (halves * 2 ^ fewer : Nat)| < 1 / 2 := by
    have same : value * 2 ^ (fewer + 1) - ((halves * 2 ^ fewer : Nat) : ℚ) =
        (value - halves / 2) * 2 ^ (fewer + 1) := by
      push_cast
      ring
    rw [same, abs_mul, abs_of_pos scale]
    calc |value - halves / 2| * 2 ^ (fewer + 1) ≤ value / 2 ^ 54 * 2 ^ (fewer + 1) :=
          mul_le_mul_of_nonneg_right close scale.le
      _ = value * 2 ^ (fewer + 1) / 2 ^ 54 := by ring
      _ < 2 ^ 53 / 2 ^ 54 := by
          apply div_lt_div_of_pos_right digits
          positivity
      _ = 1 / 2 := by norm_num
  obtain ⟨low, high⟩ := abs_lt.mp near
  have exact_ : roundHalfEven (value.num.natAbs * 2 ^ (fewer + 1)) value.den = halves * 2 ^ fewer := by
    apply roundHalfEven_eq value.den_pos
    · have : 2 * ((value.num.natAbs : ℚ) * 2 ^ (fewer + 1)) <
          2 * (((halves * 2 ^ fewer : Nat) : ℚ) * value.den) + value.den := by
        rw [numerator_eq positive]
        nlinarith
      exact_mod_cast this
    · have : 2 * (((halves * 2 ^ fewer : Nat) : ℚ) * value.den) <
          2 * ((value.num.natAbs : ℚ) * 2 ^ (fewer + 1)) + value.den := by
        rw [numerator_eq positive]
        nlinarith
      exact_mod_cast this
  rw [rounded, exact_]
  push_cast
  field_simp
  ring

theorem abs_nearest_sub_le : |nearest value - value| ≤ 1 / 2 ^ 22 := by
  obtain ⟨places, enough, -, rounded⟩ := nearest_eq_rounded positive small
  obtain ⟨upper, lower⟩ := roundHalfEven_error (value.num.natAbs * 2 ^ places) value.den_pos
  generalize roundHalfEven (value.num.natAbs * 2 ^ places) value.den = result at rounded upper lower
  have den : (0 : ℚ) < value.den := by exact_mod_cast value.den_pos
  have scale : (2 : ℚ) ^ 21 ≤ 2 ^ places := pow_le_pow_right₀ (by norm_num) enough
  have above : 2 * ((result : ℚ) * value.den) ≤ 2 * (value * value.den * 2 ^ places) + value.den := by
    rw [← numerator_eq positive]
    exact_mod_cast upper
  have below : 2 * (value * value.den * 2 ^ places) ≤ 2 * ((result : ℚ) * value.den) + value.den := by
    rw [← numerator_eq positive]
    exact_mod_cast lower
  have distance : |(result : ℚ) - value * 2 ^ places| ≤ 1 / 2 := by
    rw [abs_le]
    constructor <;> nlinarith
  have same : nearest value - value = ((result : ℚ) - value * 2 ^ places) / 2 ^ places := by
    rw [rounded]
    field_simp
  rw [same, abs_div, abs_of_pos (by positivity : (0 : ℚ) < 2 ^ places)]
  calc |(result : ℚ) - value * 2 ^ places| / 2 ^ places ≤ 1 / 2 / 2 ^ places := by gcongr
    _ ≤ 1 / 2 / 2 ^ 21 := by gcongr
    _ = 1 / 2 ^ 22 := by norm_num

end

theorem nearest_half {halves : Nat} (small : halves < 2 ^ 33) : nearest (halves / 2) = halves / 2 := by
  rcases Nat.eq_zero_or_pos halves with rfl | positive
  · simp
  · have above : (0 : ℚ) < halves := by exact_mod_cast positive
    have below : (halves : ℚ) < 2 ^ 33 := by exact_mod_cast small
    apply nearest_eq_half (by linarith) (by linarith)
    simp only [sub_self, abs_zero]
    positivity

theorem nearest_natCast {n : Nat} (small : n < 2 ^ 32) : nearest n = n := by
  have doubled := nearest_half (show 2 * n < 2 ^ 33 by omega)
  push_cast at doubled
  rwa [mul_div_cancel_left₀ _ (two_ne_zero)] at doubled

/-! ## Twentieths -/

def twentieth : ℚ := nearest (1 / 20)

theorem mul_twentieth_error (n : ℚ) : n * twentieth - n / 20 = n / 20 / 2 ^ 54 := by
  have literal : twentieth = 3602879701896397 / 2 ^ 56 := by decide +kernel
  rw [literal]
  ring

section
variable {n : Nat} (positive : 0 < n) (small : n < 2 ^ 31)
include positive small

theorem mul_twentieth_bounds : 0 < n * twentieth ∧ n * twentieth < 2 ^ 32 := by
  have above : (0 : ℚ) < n := by exact_mod_cast positive
  have below : (n : ℚ) < 2 ^ 31 := by exact_mod_cast small
  have error := mul_twentieth_error n
  constructor <;> linarith

theorem abs_mul_twentieth_sub_le : |mul n twentieth - n / 20| ≤ 1 / 2 ^ 21 := by
  have below : (n : ℚ) < 2 ^ 31 := by exact_mod_cast small
  have nonneg : (0 : ℚ) ≤ n := Nat.cast_nonneg n
  obtain ⟨above, bounded⟩ := mul_twentieth_bounds positive small
  have rounded := abs_le.mp (abs_nearest_sub_le above bounded)
  have error := mul_twentieth_error n
  rw [mul, abs_le]
  constructor <;> linarith

/-- A twentieth that is a half comes out exact although the literal is not. -/
theorem mul_twentieth_exact (divides : 10 ∣ n) : mul n twentieth = n / 20 := by
  obtain ⟨halves, rfl⟩ := divides
  obtain ⟨above, bounded⟩ := mul_twentieth_bounds positive small
  have error := mul_twentieth_error ((10 * halves : Nat) : ℚ)
  have target : ((10 * halves : Nat) : ℚ) / 20 = halves / 2 := by
    push_cast
    ring
  rw [mul, target]
  apply nearest_eq_half above bounded
  rw [← target, error, abs_of_nonneg (by positivity)]
  gcongr
  rw [← sub_nonneg, error]
  positivity

end

/-- A number that stands for twentieths, exactly if they are halves, compares with integers as they
do. -/
theorem compare_nearest_twentieths {sum : ℚ} {twentieths : Nat} (above : 0 < sum)
    (below : sum < 2 ^ 32) (stands : 10 ∣ twentieths ∧ sum = twentieths / 20 ∨
      ¬ 10 ∣ twentieths ∧ |sum - twentieths / 20| ≤ 1 / 2 ^ 21) (bound : Nat) :
    ((bound : ℚ) ≤ nearest sum ↔ 20 * bound ≤ twentieths) ∧
      (nearest sum ≤ bound ↔ twentieths ≤ 20 * bound) := by
  rcases stands with ⟨divides, rfl⟩ | ⟨apart, close⟩
  · obtain ⟨halves, rfl⟩ := divides
    have target : ((10 * halves : Nat) : ℚ) / 20 = halves / 2 := by
      push_cast
      ring
    have rounded : nearest (((10 * halves : Nat) : ℚ) / 20) = halves / 2 := by
      apply nearest_eq_half above below
      rw [target, sub_self, abs_zero]
      positivity
    rw [rounded, le_div_iff₀ (by norm_num), div_le_iff₀ (by norm_num)]
    norm_cast
    omega
  · -- A twentieth that is no half is at least a twentieth away from every integer.
    have rounded := abs_le.mp (abs_nearest_sub_le above below)
    have near := abs_le.mp close
    constructor
    · constructor
      · intro within
        have : (20 * bound : ℚ) < twentieths + 1 := by linarith
        have : 20 * bound < twentieths + 1 := by exact_mod_cast this
        omega
      · intro within
        have : (20 * bound + 1 : ℚ) ≤ twentieths := by
          exact_mod_cast (show 20 * bound + 1 ≤ twentieths by omega)
        linarith
    · constructor
      · intro within
        have : (twentieths : ℚ) < 20 * bound + 1 := by linarith
        have : twentieths < 20 * bound + 1 := by exact_mod_cast this
        omega
      · intro within
        have : (twentieths + 1 : ℚ) ≤ 20 * bound := by
          exact_mod_cast (show twentieths + 1 ≤ 20 * bound by omega)
        linarith

section
variable {start height : Nat} (positive : 0 < height) (small : start + height < 2 ^ 31)
include positive small

theorem add_half_eq : add start (div height 2) = start + height / 2 := by
  rw [div, nearest_half (by omega), add]
  have halves : (start : ℚ) + height / 2 = ((2 * start + height : Nat) : ℚ) / 2 := by
    push_cast
    ring
  rw [halves, nearest_half (by omega)]

theorem centre_half_extent :
    sub (start + height / 2) (mul height (1 / 2)) = start ∧
      add (start + height / 2) (mul height (1 / 2)) = start + height := by
  have radius : mul height (1 / 2) = height / 2 := by
    rw [mul, ← div_eq_mul_one_div, nearest_half (by omega)]
  rw [radius, sub, add, add_sub_cancel_right, nearest_natCast (by omega)]
  refine ⟨rfl, ?_⟩
  have whole : (start : ℚ) + height / 2 + height / 2 = ((start + height : Nat) : ℚ) := by
    push_cast
    ring
  rw [whole, nearest_natCast (by omega)]
  push_cast
  rfl

theorem compare_centre_add_twentieth (bound : Nat) :
    (bound : ℚ) ≤ add (start + height / 2) (mul height twentieth) ↔
      20 * bound ≤ 20 * start + 11 * height := by
  have heightSmall : height < 2 ^ 31 := by omega
  have error := abs_le.mp (abs_mul_twentieth_sub_le positive heightSmall)
  have total : (start : ℚ) + height < 2 ^ 31 := by exact_mod_cast small
  have startNonneg : (0 : ℚ) ≤ start := Nat.cast_nonneg start
  have heightOne : (1 : ℚ) ≤ height := by exact_mod_cast positive
  refine (compare_nearest_twentieths (by linarith) (by linarith) ?_ bound).1
  by_cases divides : 10 ∣ height
  · refine .inl ⟨by omega, ?_⟩
    rw [mul_twentieth_exact positive heightSmall divides]
    push_cast
    ring
  · refine .inr ⟨by omega, ?_⟩
    push_cast
    rw [abs_le]
    constructor <;> linarith

theorem compare_centre_sub_twentieth (bound : Nat) :
    sub (start + height / 2) (mul height twentieth) ≤ bound ↔
      20 * start + 9 * height ≤ 20 * bound := by
  have heightSmall : height < 2 ^ 31 := by omega
  have error := abs_le.mp (abs_mul_twentieth_sub_le positive heightSmall)
  have total : (start : ℚ) + height < 2 ^ 31 := by exact_mod_cast small
  have startNonneg : (0 : ℚ) ≤ start := Nat.cast_nonneg start
  have heightOne : (1 : ℚ) ≤ height := by exact_mod_cast positive
  refine (compare_nearest_twentieths (by linarith) (by linarith) ?_ bound).2
  by_cases divides : 10 ∣ height
  · refine .inl ⟨by omega, ?_⟩
    rw [mul_twentieth_exact positive heightSmall divides]
    push_cast
    ring
  · refine .inr ⟨by omega, ?_⟩
    push_cast
    rw [abs_le]
    constructor <;> linarith

end

end Scribe.Binary64

/-! ## Rounded arithmetic

A script rounds the exact result of every operation to a binary64 number. Statements
that take its numbers to be exact are about the same program over an arithmetic that
does not round. -/

namespace Scribe

/-- How the result of an operation is rounded. -/
class Arithmetic where
  round : ℚ → ℚ

namespace Arithmetic

instance binary64 : Arithmetic := ⟨Binary64.nearest⟩

@[reducible] def rational : Arithmetic := ⟨id⟩

section
variable [Arithmetic]

def add (a b : ℚ) : ℚ := round (a + b)

def sub (a b : ℚ) : ℚ := round (a - b)

def mul (a b : ℚ) : ℚ := round (a * b)

def div (a b : ℚ) : ℚ := round (a / b)

end

section
variable (a b : ℚ)

theorem binary64_add : add a b = Binary64.add a b := rfl

theorem binary64_sub : sub a b = Binary64.sub a b := rfl

theorem binary64_mul : mul a b = Binary64.mul a b := rfl

theorem binary64_twentieth : round (1 / 20) = Binary64.twentieth := rfl

end

variable [Arithmetic]

/-- Nothing is rounded. -/
def Exact : Prop := ∀ value, round value = value

end Arithmetic

end Scribe
