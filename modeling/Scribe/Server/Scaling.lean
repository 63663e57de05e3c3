import Scribe.Server.Reconciliation
import Scribe.Server.ReadBack

/-! Scaling a word with its line.

The checked version of the computation fails at the first value that does not fit in 64 bits.
-/

set_option autoImplicit false

namespace Scribe.Server

open Iiif (maxPixelCoordinate)

def int64 (value : Int) : Option Int := if -2 ^ 63 ≤ value ∧ value < 2 ^ 63 then some value else none

def scaleCoordinate64 (value oldOrigin oldExtent newOrigin newExtent : Int) : Option Int := do
  let offset ← int64 (value - oldOrigin)
  let numerator ← int64 (offset * newExtent)
  let half ← int64 (oldExtent.tdiv 2)
  let rounded ← int64 (if numerator ≥ 0 then numerator + half else numerator - half)
  let quotient ← int64 (rounded.tdiv oldExtent)
  int64 (newOrigin + quotient)

def scaleInterval64 (low high oldLow oldHigh newLow newHigh : Nat) : Option (Nat × Nat) := do
  let oldExtent ← int64 ((oldHigh : Int) - oldLow)
  let newExtent ← int64 ((newHigh : Int) - newLow)
  let scaledLow ← scaleCoordinate64 low oldLow oldExtent newLow newExtent
  let scaledHigh ← scaleCoordinate64 high oldLow oldExtent newLow newExtent
  let last ← int64 ((newHigh : Int) - 1)
  let start := max (newLow : Int) (min scaledLow last)
  let next ← int64 (start + 1)
  let stop := max next (min scaledHigh newHigh)
  pure (start.toNat, stop.toNat)

def proportionalWordBox64 (baseLine proposedLine baseWord : Box) : Option Box := do
  let (x1, x2) ← scaleInterval64 baseWord.x1 baseWord.x2 baseLine.x1 baseLine.x2 proposedLine.x1
    proposedLine.x2
  let (y1, y2) ← scaleInterval64 baseWord.y1 baseWord.y2 baseLine.y1 baseLine.y2 proposedLine.y1
    proposedLine.y2
  pure ⟨x1, y1, x2, y2⟩

/-! ## One coordinate -/

/-- Division that rounds half away from zero. -/
def roundedQuotient (numerator extent : Int) : Int :=
  (if numerator ≥ 0 then numerator + extent.tdiv 2 else numerator - extent.tdiv 2).tdiv extent

section
variable {numerator other extent : Int}

theorem roundedQuotient_nonneg (nonneg : 0 ≤ numerator) (positive : 0 < extent) :
    roundedQuotient numerator extent = (numerator + extent / 2) / extent := by
  rw [roundedQuotient, if_pos nonneg, Int.tdiv_eq_ediv_of_nonneg positive.le,
    Int.tdiv_eq_ediv_of_nonneg (by omega)]

theorem roundedQuotient_neg (negative : numerator < 0) (positive : 0 < extent) :
    roundedQuotient numerator extent = -((extent / 2 - numerator) / extent) := by
  rw [roundedQuotient, if_neg (by omega), Int.tdiv_eq_ediv_of_nonneg positive.le,
    ← Int.neg_sub, Int.neg_tdiv, Int.tdiv_eq_ediv_of_nonneg (by omega)]

theorem roundedQuotient_mono (positive : 0 < extent) (le : numerator ≤ other) :
    roundedQuotient numerator extent ≤ roundedQuotient other extent := by
  by_cases negative : numerator < 0
  · rw [roundedQuotient_neg negative positive]
    by_cases otherNegative : other < 0
    · rw [roundedQuotient_neg otherNegative positive]
      exact Int.neg_le_neg (Int.ediv_le_ediv positive (by omega))
    · rw [roundedQuotient_nonneg (by omega) positive]
      have below : 0 ≤ (extent / 2 - numerator) / extent := Int.ediv_nonneg (by omega) positive.le
      have above : 0 ≤ (other + extent / 2) / extent := Int.ediv_nonneg (by omega) positive.le
      omega
  · rw [roundedQuotient_nonneg (by omega) positive, roundedQuotient_nonneg (by omega) positive]
    exact Int.ediv_le_ediv positive (by omega)

theorem roundedQuotient_mul (nonneg : 0 ≤ numerator) (positive : 0 < extent) :
    roundedQuotient (numerator * extent) extent = numerator := by
  rw [roundedQuotient_nonneg (Int.mul_nonneg nonneg positive.le) positive, Int.add_comm,
    Int.add_mul_ediv_right _ _ positive.ne', Int.ediv_eq_zero_of_lt (by omega) (by omega),
    Int.zero_add]

theorem roundedQuotient_bounds {bound : Int} (positive : 0 < extent)
    (small : -bound ≤ numerator ∧ numerator ≤ bound) :
    -bound ≤ roundedQuotient numerator extent ∧ roundedQuotient numerator extent ≤ bound := by
  have grown : bound ≤ bound * extent := le_mul_of_one_le_right (by omega) positive
  constructor
  · by_cases negative : numerator < 0
    · rw [roundedQuotient_neg negative positive]
      have below : (extent / 2 - numerator) / extent < bound + 1 := by
        apply Int.ediv_lt_of_lt_mul positive
        rw [Int.add_mul, Int.one_mul]
        omega
      omega
    · rw [roundedQuotient_nonneg (by omega) positive]
      have above : 0 ≤ (numerator + extent / 2) / extent := Int.ediv_nonneg (by omega) positive.le
      omega
  · rw [← roundedQuotient_mul (show 0 ≤ bound by omega) positive]
    exact roundedQuotient_mono positive (by omega)

end

theorem scaleCoordinate_eq (value oldOrigin oldExtent newOrigin newExtent : Int) :
    scaleCoordinate value oldOrigin oldExtent newOrigin newExtent =
      newOrigin + roundedQuotient ((value - oldOrigin) * newExtent) oldExtent := rfl

theorem int64_eq_some {value : Int} (fits : -2 ^ 63 ≤ value ∧ value < 2 ^ 63) :
    int64 value = some value := if_pos fits

theorem scaleCoordinate64_eq {value oldOrigin oldExtent newOrigin newExtent : Int} (bound : Int)
    (small : bound < 2 ^ 31) (inside : 0 ≤ value ∧ value ≤ bound)
    (oldInside : 0 ≤ oldOrigin ∧ oldOrigin ≤ bound) (old : 0 < oldExtent ∧ oldExtent ≤ bound)
    (newInside : 0 ≤ newOrigin ∧ newOrigin ≤ bound) (new : 0 < newExtent ∧ newExtent ≤ bound) :
    scaleCoordinate64 value oldOrigin oldExtent newOrigin newExtent =
      some (scaleCoordinate value oldOrigin oldExtent newOrigin newExtent) := by
  have product : -2 ^ 62 ≤ (value - oldOrigin) * newExtent ∧
      (value - oldOrigin) * newExtent ≤ 2 ^ 62 := by
    constructor <;> nlinarith
  have quotient := roundedQuotient_bounds old.1 product
  rw [scaleCoordinate_eq]
  simp only [scaleCoordinate64, int64_eq_some (show _ ≤ value - oldOrigin ∧ _ by omega),
    Option.bind_eq_bind, Option.bind_some]
  generalize (value - oldOrigin) * newExtent = numerator at product quotient ⊢
  have half : oldExtent.tdiv 2 = oldExtent / 2 := Int.tdiv_eq_ediv_of_nonneg old.1.le
  rw [int64_eq_some (by omega), Option.bind_some, int64_eq_some (by omega), Option.bind_some,
    int64_eq_some (by split <;> omega), Option.bind_some]
  change (int64 (roundedQuotient numerator oldExtent)).bind _ = _
  rw [int64_eq_some (by omega), Option.bind_some, int64_eq_some (by omega)]

/-! ## One axis -/

section
variable {low high oldLow oldHigh newLow newHigh : Nat}

theorem scaleInterval_inside (wide : newLow < newHigh) :
    newLow ≤ (scaleInterval low high oldLow oldHigh newLow newHigh).1 ∧
    (scaleInterval low high oldLow oldHigh newLow newHigh).1 <
      (scaleInterval low high oldLow oldHigh newLow newHigh).2 ∧
    (scaleInterval low high oldLow oldHigh newLow newHigh).2 ≤ newHigh := by
  simp only [scaleInterval]
  omega

theorem scaleInterval_mono {low' : Nat} (high high' : Nat) (wide : oldLow < oldHigh)
    (newWide : newLow < newHigh) (le : low ≤ low') :
    (scaleInterval low high oldLow oldHigh newLow newHigh).1 ≤
      (scaleInterval low' high' oldLow oldHigh newLow newHigh).1 := by
  have ordered : ((low : Int) - oldLow) * ((newHigh : Int) - newLow) ≤
      ((low' : Int) - oldLow) * ((newHigh : Int) - newLow) :=
    Int.mul_le_mul_of_nonneg_right (by omega) (by omega)
  have mono := roundedQuotient_mono (show 0 < (oldHigh : Int) - oldLow by omega) ordered
  simp only [scaleInterval, scaleCoordinate_eq]
  omega

theorem scaleInterval_translate (wide : low < high) (inside : oldLow ≤ low ∧ high ≤ oldHigh)
    (same : (newHigh : Int) - newLow = (oldHigh : Int) - oldLow) :
    (scaleInterval low high oldLow oldHigh newLow newHigh).1 + oldLow = low + newLow ∧
    (scaleInterval low high oldLow oldHigh newLow newHigh).2 + oldLow = high + newLow := by
  have moved : ∀ value : Nat, oldLow ≤ value →
      roundedQuotient (((value : Int) - oldLow) * ((oldHigh : Int) - oldLow))
          ((oldHigh : Int) - oldLow) = value - oldLow :=
    fun value above => roundedQuotient_mul (by omega) (by omega)
  simp only [scaleInterval, scaleCoordinate_eq, same, moved low inside.1, moved high (by omega)]
  omega

theorem scaleInterval64_eq (wide : low < high) (oldWide : oldLow < oldHigh)
    (newWide : newLow < newHigh) (small : high ≤ maxPixelCoordinate ∧ oldHigh ≤ maxPixelCoordinate ∧
      newHigh ≤ maxPixelCoordinate) :
    scaleInterval64 low high oldLow oldHigh newLow newHigh =
      some (scaleInterval low high oldLow oldHigh newLow newHigh) := by
  have limit : maxPixelCoordinate < 2 ^ 31 := by decide
  have scaled : ∀ value : Nat, value ≤ maxPixelCoordinate →
      scaleCoordinate64 value oldLow ((oldHigh : Int) - oldLow) newLow
      ((newHigh : Int) - newLow) = some (scaleCoordinate value oldLow ((oldHigh : Int) - oldLow)
          newLow ((newHigh : Int) - newLow)) :=
    fun value below => scaleCoordinate64_eq maxPixelCoordinate (by omega) (by omega) (by omega)
      (by omega) (by omega) (by omega)
  simp only [scaleInterval64, Option.bind_eq_bind]
  rw [int64_eq_some (by omega), Option.bind_some, int64_eq_some (by omega), Option.bind_some,
    scaled low (by omega), Option.bind_some, scaled high (by omega), Option.bind_some,
    int64_eq_some (by omega), Option.bind_some, int64_eq_some (by omega)]
  rfl

end

/-! ## A word with its line -/

theorem proportionalWordBox_eq {baseLine proposedLine : Box} (validBase : baseLine.Valid)
    (validProposed : proposedLine.Valid) (word : Box) :
    proportionalWordBox baseLine proposedLine word = .ok
      ⟨(scaleInterval word.x1 word.x2 baseLine.x1 baseLine.x2 proposedLine.x1 proposedLine.x2).1,
        (scaleInterval word.y1 word.y2 baseLine.y1 baseLine.y2 proposedLine.y1 proposedLine.y2).1,
        (scaleInterval word.x1 word.x2 baseLine.x1 baseLine.x2 proposedLine.x1 proposedLine.x2).2,
        (scaleInterval word.y1 word.y2 baseLine.y1 baseLine.y2 proposedLine.y1
          proposedLine.y2).2⟩ := by
  have := validBase.wide
  have := validBase.tall
  have := validProposed.wide
  have := validProposed.tall
  rw [proportionalWordBox, if_neg (by omega)]

/-- Scaling is safe, keeps the order of the words and is exact for a line that is only moved. -/
theorem proportionalWordBox_safe {baseLine proposedLine word : Box} (validBase : baseLine.Valid)
    (validProposed : proposedLine.Valid) (validWord : word.Valid) :
    ∃ box, proportionalWordBox baseLine proposedLine word = .ok box ∧
      proportionalWordBox64 baseLine proposedLine word = some box ∧
      (proposedLine.x1 ≤ box.x1 ∧ box.x1 < box.x2 ∧ box.x2 ≤ proposedLine.x2) ∧
      (proposedLine.y1 ≤ box.y1 ∧ box.y1 < box.y2 ∧ box.y2 ≤ proposedLine.y2) ∧
      (∀ other : Box, other.Valid → ∃ otherBox,
        proportionalWordBox baseLine proposedLine other = .ok otherBox ∧
        (word.x1 ≤ other.x1 → box.x1 ≤ otherBox.x1) ∧ (word.y1 ≤ other.y1 → box.y1 ≤ otherBox.y1)) ∧
      ((proposedLine.x2 : Int) - proposedLine.x1 = (baseLine.x2 : Int) - baseLine.x1 →
        (proposedLine.y2 : Int) - proposedLine.y1 = (baseLine.y2 : Int) - baseLine.y1 →
        baseLine.x1 ≤ word.x1 ∧ word.x2 ≤ baseLine.x2 → baseLine.y1 ≤ word.y1 ∧ word.y2 ≤ baseLine.y2 →
        (box.x1 + baseLine.x1 = word.x1 + proposedLine.x1 ∧
          box.x2 + baseLine.x1 = word.x2 + proposedLine.x1) ∧
        (box.y1 + baseLine.y1 = word.y1 + proposedLine.y1 ∧
          box.y2 + baseLine.y1 = word.y2 + proposedLine.y1)) := by
  refine ⟨_, proportionalWordBox_eq validBase validProposed word, ?_,
    scaleInterval_inside validProposed.wide, scaleInterval_inside validProposed.tall, fun other _ =>
      ⟨_, proportionalWordBox_eq validBase validProposed other, fun le =>
        scaleInterval_mono word.x2 other.x2 validBase.wide validProposed.wide le,
      fun le => scaleInterval_mono word.y2 other.y2 validBase.tall validProposed.tall le⟩,
    fun sameWidth sameHeight insideX insideY =>
      ⟨scaleInterval_translate validWord.wide insideX sameWidth,
        scaleInterval_translate validWord.tall insideY sameHeight⟩⟩
  rw [proportionalWordBox64, scaleInterval64_eq validWord.wide validBase.wide validProposed.wide
      ⟨validWord.right, validBase.right, validProposed.right⟩,
    scaleInterval64_eq validWord.tall validBase.tall validProposed.tall
      ⟨validWord.bottom, validBase.bottom, validProposed.bottom⟩]
  rfl

theorem proportionalWordBox_safe_moved :
    ∃ box, proportionalWordBox ⟨0, 0, 10, 10⟩ ⟨5, 5, 15, 15⟩ ⟨1, 1, 3, 3⟩ = .ok box ∧ box.x1 = 6 := by
  have small : ∀ n ≤ 15, n ≤ maxPixelCoordinate := fun n le => le.trans (by decide)
  have base : Box.Valid ⟨0, 0, 10, 10⟩ :=
    ⟨by decide, by decide, small _ (by decide), small _ (by decide)⟩
  have proposed : Box.Valid ⟨5, 5, 15, 15⟩ :=
    ⟨by decide, by decide, small _ (by decide), small _ (by decide)⟩
  have word : Box.Valid ⟨1, 1, 3, 3⟩ :=
    ⟨by decide, by decide, small _ (by decide), small _ (by decide)⟩
  obtain ⟨box, isResult, _, _, _, _, moved⟩ := proportionalWordBox_safe base proposed word
  exact ⟨box, isResult, by simpa using (moved rfl rfl (by decide) (by decide)).1.1⟩

end Scribe.Server
