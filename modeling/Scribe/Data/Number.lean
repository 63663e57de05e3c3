import Mathlib.Data.Nat.Log
import Mathlib.Data.Nat.Digits.Defs
import Mathlib.Tactic.Ring

/-! Decimal integers and floating-point literals as text.

A literal denotes an exact fraction. Reading it as a binary64 value rounds that
fraction to 53 significant bits, ties to even, before any later rounding.
-/

set_option autoImplicit false

namespace Scribe.Number

def decimal (n : Nat) : List Char := Nat.toDigits 10 n

def digit? (hex : Bool) (c : Char) : Option Nat :=
  if c.isDigit then some (c.toNat - '0'.toNat)
  else if hex ∧ 'a' ≤ c ∧ c ≤ 'f' then some (c.toNat - 'a'.toNat + 10)
  else if hex ∧ 'A' ≤ c ∧ c ≤ 'F' then some (c.toNat - 'A'.toNat + 10)
  else none

/-- An unsigned decimal integer below `bound`: digits only, and at least one. -/
def readNat (bound : Nat) (chars : List Char) : Option Nat :=
  if chars ≠ [] ∧ chars.all Char.isDigit then
    let value := Nat.ofDigitChars 10 chars 0
    if value < bound then some value else none
  else none

/-! ## Floating-point literals -/

structure Mantissa where
  value : Nat
  fraction : Nat
  sawDot : Bool
  sawDigits : Bool

def readMantissa (hex : Bool) : Mantissa → List Char → Mantissa × List Char
  | seen, [] => (seen, [])
  | seen, '_' :: rest => readMantissa hex seen rest
  | seen, c :: rest =>
      if c = '.' then
        if seen.sawDot then (seen, c :: rest) else readMantissa hex { seen with sawDot := true } rest
      else match digit? hex c with
        | some digit => readMantissa hex
            { seen with
              value := seen.value * (if hex then 16 else 10) + digit
              fraction := if seen.sawDot then seen.fraction + 1 else seen.fraction
              sawDigits := true } rest
        | none => (seen, c :: rest)

/-- Read exponent digits. Past four digits the value no longer grows. -/
def readExponent : Nat → List Char → Nat × List Char
  | value, [] => (value, [])
  | value, c :: rest =>
      if c = '_' then readExponent value rest
      else if c.isDigit then
        readExponent (if value < 10000 then value * 10 + (c.toNat - '0'.toNat) else value) rest
      else (value, c :: rest)

inductive LastSeen where
  | start
  | digit
  | underscore
  | other
  deriving DecidableEq

/-- An underscore stands between two digits, or after a base mark and before a digit. -/
def underscoresSeparate (hex : Bool) : LastSeen → List Char → Bool
  | last, [] => last ≠ .underscore
  | last, c :: rest =>
      if (digit? hex c).isSome then underscoresSeparate hex .digit rest
      else if c = '_' then last = .digit && underscoresSeparate hex .underscore rest
      else last ≠ .underscore && underscoresSeparate hex .other rest

def underscoresAllowed : List Char → Bool
  | '0' :: c :: rest =>
      if c = 'x' ∨ c = 'X' then underscoresSeparate true .digit rest
      else if c = 'b' ∨ c = 'B' ∨ c = 'o' ∨ c = 'O' then underscoresSeparate false .digit rest
      else underscoresSeparate false .start ('0' :: c :: rest)
  | chars => underscoresSeparate false .start chars

structure Fraction where
  negative : Bool
  numerator : Nat
  denominator : Nat
  deriving DecidableEq

def scaled (negative : Bool) (value radix : Nat) (exponent : Int) : Fraction :=
  match exponent with
  | .ofNat n => ⟨negative, value * radix ^ n, 1⟩
  | .negSucc n => ⟨negative, value, radix ^ (n + 1)⟩

def readSignedExponent (mark : Char → Bool) : List Char → Option (Option Int × List Char)
  | [] => some (none, [])
  | c :: rest =>
      if !mark c then some (none, c :: rest)
      else
        let (negative, digits) := match rest with
          | '+' :: digits => (false, digits)
          | '-' :: digits => (true, digits)
          | digits => (false, digits)
        match digits with
        | [] => none
        | first :: _ =>
            if !first.isDigit then none
            else
              let (value, rest) := readExponent 0 digits
              some (some (if negative then -(value : Int) else value), rest)

/-- Whether a literal is marked as base sixteen, and what follows the mark. -/
def baseMark : List Char → Bool × List Char
  | '0' :: c :: d :: rest => if c = 'x' ∨ c = 'X' then (true, d :: rest)
    else (false, '0' :: c :: d :: rest)
  | chars => (false, chars)

def readUnsigned (negative : Bool) (chars : List Char) : Option Fraction :=
  let (hex, digits) := baseMark chars
  let (mantissa, rest) := readMantissa hex ⟨0, 0, false, false⟩ digits
  if !mantissa.sawDigits then none
  else
    let mark c : Bool := if hex then c = 'p' || c = 'P' else c = 'e' || c = 'E'
    match readSignedExponent mark rest with
    | none => none
    | some (exponent, rest) =>
        if rest ≠ [] then none
        else if hex ∧ exponent = none then none
        else if '_' ∈ chars ∧ !underscoresAllowed chars then none
        else if hex then
          some (scaled negative mantissa.value 2 (exponent.getD 0 - 4 * mantissa.fraction))
        else some (scaled negative mantissa.value 10 (exponent.getD 0 - mantissa.fraction))

/-- A finite literal. Infinities and not-a-number are not read. -/
def readFloat : List Char → Option Fraction
  | '+' :: rest => readUnsigned false rest
  | '-' :: rest => readUnsigned true rest
  | chars => readUnsigned false chars

/-! ## Rounding -/

def roundHalfEven (numerator denominator : Nat) : Nat :=
  let quotient := numerator / denominator
  let remainder := numerator % denominator
  if 2 * remainder < denominator then quotient
  else if denominator < 2 * remainder then quotient + 1
  else if quotient % 2 = 0 then quotient else quotient + 1

/-- The number of binary places that a binary64 value near the fraction keeps,
for fractions of at least a quarter. -/
def binaryPlaces (numerator denominator : Nat) : Nat :=
  if denominator ≤ numerator then 52 - Nat.log2 (numerator / denominator)
  else if denominator ≤ 2 * numerator then 53
  else 54

/-- Round a literal to binary64 and then to an integer, half away from zero, if
the binary64 value is neither negative nor above `limit`. A negative literal is
accepted only when it rounds to zero. -/
def roundedBelow (limit : Nat) (value : Fraction) : Option Nat :=
  if value.negative then
    if value.numerator * 2 ^ 1075 ≤ value.denominator then some 0 else none
  else if value.denominator * 2 ^ 32 ≤ value.numerator then none
  else if 4 * value.numerator < value.denominator then some 0
  else
    let places := binaryPlaces value.numerator value.denominator
    let significand := roundHalfEven (value.numerator * 2 ^ places) value.denominator
    if limit * 2 ^ places < significand then none
    else some ((2 * significand + 2 ^ places) / 2 ^ (places + 1))

def leadingExponent (numerator denominator : Nat) : Int :=
  if denominator ≤ numerator then Nat.log2 (numerator / denominator)
  else
    let shift := Nat.log2 (denominator / numerator)
    if denominator ≤ numerator * 2 ^ shift then -(shift : Int) else -(shift + 1 : Int)

def toBinary64 (value : Fraction) : Fraction :=
  if value.numerator = 0 then value
  else match 52 - leadingExponent value.numerator value.denominator with
    | .ofNat places =>
        ⟨value.negative, roundHalfEven (value.numerator * 2 ^ places) value.denominator, 2 ^ places⟩
    | .negSucc places =>
        ⟨value.negative, roundHalfEven value.numerator
          (value.denominator * 2 ^ (places + 1)) * 2 ^ (places + 1), 1⟩

def roundAway (value : Fraction) : Int :=
  let magnitude := (2 * value.numerator + value.denominator) / (2 * value.denominator)
  if value.negative then -(magnitude : Int) else magnitude

/-- `value * newExtent / oldExtent` in binary64 arithmetic, rounded to an integer. -/
def scaleBinary64 (value newExtent oldExtent : Int) : Int :=
  let product := toBinary64 ⟨decide (value * newExtent < 0), (value * newExtent).natAbs, 1⟩
  roundAway (toBinary64
    ⟨product.negative != decide (oldExtent < 0), product.numerator,
      product.denominator * oldExtent.natAbs⟩)

/-! ## Integers read back -/

theorem decimal_ne_nil (n : Nat) : decimal n ≠ [] := Nat.toDigits_ne_nil

theorem decimal_isDigit {n : Nat} {c : Char} (member : c ∈ decimal n) : c.isDigit = true :=
  Nat.isDigit_of_mem_toDigits (by omega) (by omega) member

theorem ofDigitChars_decimal (n : Nat) : Nat.ofDigitChars 10 (decimal n) 0 = n :=
  Nat.ofDigitChars_toDigits (by omega) (by omega)

theorem readMantissa_digits (chars : List Char) (digits : ∀ c ∈ chars, c.isDigit = true)
    (seen : Mantissa) (whole : seen.sawDot = false) :
    readMantissa false seen chars =
      ({ seen with
          value := Nat.ofDigitChars 10 chars seen.value
          sawDigits := seen.sawDigits || !chars.isEmpty }, []) := by
  induction chars generalizing seen with
  | nil => simp [readMantissa, Nat.ofDigitChars]
  | cons c rest ih =>
    have isDigit := digits c List.mem_cons_self
    have notDot : c ≠ '.' := by rintro rfl; simp at isDigit
    have notSeparator : c ≠ '_' := by rintro rfl; simp at isDigit
    have step : readMantissa false seen (c :: rest) = readMantissa false
        { seen with value := seen.value * 10 + (c.toNat - '0'.toNat), sawDigits := true } rest := by
      simp [readMantissa, digit?, isDigit, notDot, whole]
    have tail := ih (fun d member => digits d (List.mem_cons_of_mem c member))
      { seen with value := seen.value * 10 + (c.toNat - '0'.toNat), sawDigits := true } whole
    rw [step, tail]
    simp [Nat.ofDigitChars, Nat.mul_comm]

theorem baseMark_digits (chars : List Char) (digits : ∀ c ∈ chars, c.isDigit = true) :
    baseMark chars = (false, chars) := by
  unfold baseMark
  split
  · rename_i c d rest
    have isDigit := digits c (by simp)
    have plain : ¬ (c = 'x' ∨ c = 'X') := by rintro (rfl | rfl) <;> simp at isDigit
    rw [if_neg plain]
  · rfl

theorem readFloat_decimal (n : Nat) : readFloat (decimal n) = some ⟨false, n, 1⟩ := by
  have digits : ∀ c ∈ decimal n, c.isDigit = true := fun c member => decimal_isDigit member
  have filled := decimal_ne_nil n
  have unsigned : readFloat (decimal n) = readUnsigned false (decimal n) := by
    cases chars : decimal n with
    | nil => exact absurd chars filled
    | cons c rest =>
      have isDigit := digits c (by simp [chars])
      unfold readFloat
      split <;> simp_all
  have noMark := baseMark_digits (decimal n) digits
  have separators : '_' ∉ decimal n := fun member => by simpa using digits '_' member
  rw [unsigned]
  simp [readUnsigned, noMark, readMantissa_digits _ digits, filled, separators, readSignedExponent,
    scaled, ofDigitChars_decimal]

theorem binaryPlaces_one {n : Nat} (positive : 0 < n) : binaryPlaces n 1 = 52 - Nat.log2 n := by
  simp [binaryPlaces, Nat.succ_le_iff.mpr positive]

theorem roundedBelow_integer {limit n : Nat} (within : n ≤ limit) (small : n < 2 ^ 32) :
    roundedBelow limit ⟨false, n, 1⟩ = some n := by
  rcases Nat.eq_zero_or_pos n with rfl | positive
  · simp [roundedBelow]
  · have fits : ¬ 2 ^ 32 ≤ n := by omega
    have notTiny : ¬ 4 * n < 1 := by omega
    have exact_ : ∀ m, roundHalfEven m 1 = m := by intro m; simp [roundHalfEven, Nat.mod_one]
    have bounded : ¬ limit * 2 ^ (52 - Nat.log2 n) < n * 2 ^ (52 - Nat.log2 n) := by
      rw [not_lt]
      exact Nat.mul_le_mul_right _ within
    simp only [roundedBelow, Bool.false_eq_true, if_false, one_mul, fits, notTiny,
      binaryPlaces_one positive, exact_, bounded]
    congr 1
    generalize 52 - Nat.log2 n = places
    have power : 0 < 2 ^ places := Nat.two_pow_pos places
    have halves : 2 * (n * 2 ^ places) + 2 ^ places = 2 ^ (places + 1) * n + 2 ^ places := by ring
    rw [halves, Nat.mul_add_div (Nat.two_pow_pos _), Nat.div_eq_of_lt, Nat.add_zero]
    rw [pow_succ]
    omega

end Scribe.Number
