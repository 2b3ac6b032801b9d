/-!
# Binary floating point numbers

Numbers that are not small integers are kept as IEEE binary64 values: a sign
and `mantissa · 2 ^ exponent` with a mantissa below `2 ^ 53`. All rounding is
done on exact quotients of natural numbers.

* `Double.ofQuotient` — the nearest value, a tie going to the even mantissa;
* `Double.ofDecimal` — the value of a decimal literal, computed from its leading
  digits by one rounded multiplication or division with a power of ten;
* `Double.shortest` — the shortest decimal that lies in the rounding interval of
  a value, the nearest of them if there are several;
* `Double.chars` — its written form.
-/

namespace VerifierClient

/-- The finite number `± mantissa · 2 ^ exponent`. -/
structure Double where
  negative : Bool
  mantissa : Nat
  exponent : Int
deriving DecidableEq, Repr, Inhabited

namespace Double

/-- The least exponent; subnormal numbers have it. -/
def minExponent : Int := -1074

/-- The largest exponent of a finite number. -/
def maxExponent : Int := 971

def zero (negative : Bool) : Double := ⟨negative, 0, minExponent⟩

def isZero (d : Double) : Bool := d.mantissa == 0

/-- `2 ^ e` as a quotient. -/
def powerOfTwo (e : Int) : Nat × Nat := (Nat.pow 2 e.toNat, Nat.pow 2 (-e).toNat)

/-- The magnitude of a number as a quotient. -/
def quotient (d : Double) : Nat × Nat :=
  let (num, den) := powerOfTwo d.exponent
  (d.mantissa * num, den)

/-- The number nearest to `num / den`, `none` when it is out of range. -/
def ofQuotient (negative : Bool) (num den : Nat) : Option Double :=
  if num = 0 then some (zero negative)
  else
    -- num / den lies in [2 ^ (size - 1), 2 ^ (size + 1))
    let size : Int := (Nat.log2 num : Int) - Nat.log2 den
    let (up, down) := powerOfTwo size
    let top := if den * up ≤ num * down then size else size - 1
    let exponent := max (top - 52) minExponent
    let (up, down) := powerOfTwo exponent
    let divisor := den * up
    let whole := num * down / divisor
    let rest := num * down % divisor
    let rounded :=
      if divisor < 2 * rest ∨ (divisor = 2 * rest ∧ whole % 2 = 1) then whole + 1 else whole
    let (mantissa, exponent) :=
      if rounded = Nat.pow 2 53 then (Nat.pow 2 52, exponent + 1) else (rounded, exponent)
    if maxExponent < exponent then none else some ⟨negative, mantissa, exponent⟩

def mul (a b : Double) : Option Double :=
  let (an, ad) := a.quotient
  let (bn, bd) := b.quotient
  ofQuotient (a.negative != b.negative) (an * bn) (ad * bd)

/-- The quotient of two numbers, the second not zero. -/
def div (a b : Double) : Option Double :=
  let (an, ad) := a.quotient
  let (bn, bd) := b.quotient
  ofQuotient (a.negative != b.negative) (an * bd) (ad * bn)

/-- The largest power of ten used as one factor. -/
def maxTenPower : Nat := 308

/-- The number nearest to `10 ^ k`. -/
def tenPower (k : Nat) : Option Double := ofQuotient false (Nat.pow 10 k) 1

/-- `d · 10 ^ exponent`, dividing by `10 ^ 308` as often as needed; `none` when
the result is too large. -/
def scaleByTen (d : Double) (exponent : Int) : Option Double :=
  if exponent.natAbs ≤ maxTenPower then do
    let power ← tenPower exponent.natAbs
    if 0 ≤ exponent then d.mul power else d.div power
  else if d.isZero then some d
  else if 0 ≤ exponent then none
  else do
    let power ← tenPower maxTenPower
    let d ← d.div power
    scaleByTen d (exponent + maxTenPower)
termination_by exponent.natAbs
decreasing_by simp only [maxTenPower] at *; omega

/-- The value of a literal with the given leading digits, read as a number, and
decimal exponent. -/
def ofDecimal (negative : Bool) (digits : Nat) (exponent : Int) : Option Double := do
  let d ← ofQuotient false digits 1
  let d ← d.scaleByTen exponent
  some { d with negative }

-- ---------------------------------------------------------------------------
-- Shortest decimal
-- ---------------------------------------------------------------------------

/-- The numbers that round to a double, as numerators over a common denominator:
the number itself, and the ends of the interval. -/
structure Interval where
  value : Nat
  low : Nat
  high : Nat
  den : Nat
  closed : Bool

def interval (d : Double) : Interval :=
  let (num, den) := powerOfTwo (d.exponent - 2)
  let below := if d.mantissa = Nat.pow 2 52 ∧ minExponent < d.exponent then 1 else 2
  { value := 4 * d.mantissa * num
    low := (4 * d.mantissa - below) * num
    high := (4 * d.mantissa + 2) * num
    den
    closed := d.mantissa % 2 == 0 }

/-- Whether `n · up / down` is a number of the interval. -/
def Interval.contains (i : Interval) (n up down : Nat) : Bool :=
  let x := n * up * i.den
  if i.closed then i.low * down ≤ x && x ≤ i.high * down
  else i.low * down < x && x < i.high * down

/-- The number of decimal digits of `n`. -/
def digitCount (n : Nat) : Nat := (Nat.toDigits 10 n).length

/-- The integer `k` with `10 ^ (k - 1) ≤ num / den < 10 ^ k`. -/
def decimalSize (num den : Nat) : Int :=
  if den ≤ num then digitCount (num / den)
  else 1 - (digitCount ((den + num - 1) / num - 1) : Int)

/-- The multiple of `10 ^ scale` in the interval that is nearest to its value,
an even multiple if two are equally near. -/
def Interval.nearestMultiple? (i : Interval) (scale : Int) : Option Nat :=
  let up := Nat.pow 10 scale.toNat
  let down := Nat.pow 10 (-scale).toNat
  let below := i.value * down / (i.den * up)
  let above := below + 1
  let position := 2 * (i.value * down)
  let middle := (2 * below + 1) * (i.den * up)
  match i.contains below up down, i.contains above up down with
  | true, true =>
    if position < middle ∨ (position = middle ∧ below % 2 = 0) then some below else some above
  | true, false => some below
  | false, true => some above
  | false, false => none

/-- The first hit on the grids of `count`, `count + 1`, … digits. -/
def Interval.search (i : Interval) (size : Int) : Nat → Nat → Option (Nat × Int)
  | 0, _ => none
  | fuel + 1, count =>
    let scale := size - count
    match i.nearestMultiple? scale with
    | some n => some (n, scale)
    | none => i.search size fuel (count + 1)

/-- Moves the zeros at the end of `n` into the exponent. -/
def dropZeros (n : Nat) (scale : Int) : Nat × Int :=
  if h : n ≠ 0 ∧ n % 10 = 0 then dropZeros (n / 10) (scale + 1) else (n, scale)
termination_by n
decreasing_by omega

/-- Digits and scale of the shortest decimal of a nonzero number; seventeen
digits always suffice. -/
def shortest (d : Double) : Nat × Int :=
  let i := d.interval
  match i.search (decimalSize i.value i.den) 17 1 with
  | some (n, scale) => dropZeros n scale
  | none => (d.mantissa, d.exponent)

-- ---------------------------------------------------------------------------
-- Written form
-- ---------------------------------------------------------------------------

/-- How numbers are written: which decimal exponents are written positionally. -/
structure Layout where
  leastPositional : Int
  firstExponential : Int

/-- Numbers from `10 ^ -5` up to `10 ^ 16` are written positionally. -/
def layout : Layout := ⟨-5, 16⟩

/-- The digits `digits`, the first of which has the weight `10 ^ exponent`. -/
def layOut (digits : List Char) (exponent : Int) : List Char :=
  if layout.leastPositional ≤ exponent ∧ exponent < layout.firstExponential then
    if exponent < 0 then
      '0' :: '.' :: (List.replicate (-exponent - 1).toNat '0' ++ digits)
    else
      let whole := exponent.toNat + 1
      if digits.length ≤ whole then
        digits ++ List.replicate (whole - digits.length) '0' ++ ['.', '0']
      else digits.take whole ++ '.' :: digits.drop whole
  else
    let mark := if exponent < 0 then ['e', '-'] else ['e', '+']
    let rest := digits.drop 1
    digits.take 1 ++ (if rest.isEmpty then [] else '.' :: rest) ++ mark ++
      Nat.toDigits 10 exponent.natAbs

/-- A number with a point or an exponent, so that it does not read as an integer. -/
def chars (d : Double) : List Char :=
  let sign := if d.negative then ['-'] else []
  if d.isZero then sign ++ ['0', '.', '0']
  else
    let (n, scale) := d.shortest
    let digits := Nat.toDigits 10 n
    sign ++ layOut digits (scale + digits.length - 1)

end Double

end VerifierClient
