/-! The shortest decimal that reads back as a given binary number. -/

namespace DeskScript

/-- The decimal number `±digits · 10^exponent`. -/
structure Decimal where
  negative : Bool
  digits : Nat
  exponent : Int
deriving DecidableEq, Repr

namespace Decimal

def digitChars (n : Nat) : List Char := Nat.toDigits 10 n

/-- Moves zeros at the end of `digits` into the exponent, at most `fuel` of them. -/
def stripZeros : (fuel digits : Nat) → (exponent : Int) → Nat × Int
  | 0, digits, exponent => (digits, exponent)
  | fuel + 1, digits, exponent =>
    if digits % 10 = 0 ∧ digits ≠ 0 then stripZeros fuel (digits / 10) (exponent + 1)
    else (digits, exponent)

/-- The number `e` with `10^(e - 1) ≤ num / den < 10^e`, for positive `num` and `den`. -/
def magnitude (num den : Nat) : Int :=
  if den ≤ num then (digitChars (num / den)).length
  else 1 - ((digitChars ((den + num - 1) / num - 1)).length : Int)

/-- A positive binary number `mid / den` with the ends of the interval of numbers that round to it,
`low / den` and `high / den`; the ends belong to it when `closed`. -/
structure Rounding where
  low : Nat
  mid : Nat
  high : Nat
  den : Nat
  closed : Bool

/-- Which of two equally near neighbours is taken: the even one, or the one farther from zero. -/
inductive Tie where
  | toEven
  | away
deriving DecidableEq, Repr

/-- Whether of `n` and `n + 1`, both equally near, `n + 1` is taken. -/
def Tie.isUp (tie : Tie) (n : Nat) : Bool :=
  match tie with
  | .toEven => n % 2 == 1
  | .away => true

/-- The neighbour of the number on the grid of multiples of `10^k` that lies in the interval, the
nearer one if both do; of two equally near ones that which `tie` says. -/
def Rounding.gridPoint? (r : Rounding) (tie : Tie) (k : Int) : Option Nat :=
  let up := Nat.pow 10 (-k).toNat
  let unit := r.den * Nat.pow 10 k.toNat
  let below := r.mid * up / unit
  let inside (n : Nat) : Bool :=
    if r.closed then r.low * up ≤ n * unit && n * unit ≤ r.high * up
    else r.low * up < n * unit && n * unit < r.high * up
  let gapBelow := r.mid * up - below * unit
  let gapAbove := (below + 1) * unit - r.mid * up
  if inside below then
    if inside (below + 1) && (gapAbove < gapBelow || gapAbove == gapBelow && tie.isUp below) then
      some (below + 1)
    else some below
  else if inside (below + 1) then some (below + 1)
  else none

/-- The first grid, from the coarsest on, that has a point in the interval: that point and the
exponent of the grid. -/
def Rounding.firstPoint (r : Rounding) (tie : Tie) (coarsest : Int) : (fuel : Nat) → Nat × Int
  | 0 => (0, coarsest)
  | fuel + 1 =>
    match r.gridPoint? tie coarsest with
    | some n => (n, coarsest)
    | none => r.firstPoint tie (coarsest - 1) fuel

/-- The interval of the positive finite number with biased exponent `biased` and fraction
`fraction`. The interval is half as wide below a power of two. -/
def Rounding.ofParts (biased fraction : Nat) : Rounding :=
  let mantissa := if biased = 0 then fraction else fraction + 1 <<< 52
  let exponent : Int := (if biased = 0 then 1 else biased) - 1077
  let scale := 1 <<< exponent.toNat
  { low := (4 * mantissa - if fraction = 0 ∧ 1 < biased then 1 else 2) * scale
    mid := 4 * mantissa * scale
    high := (4 * mantissa + 2) * scale
    den := 1 <<< (-exponent).toNat
    closed := mantissa % 2 == 0 }

/-- The decimal with the fewest digits that reads back as `x`, and of those the nearest to `x`, or
of two nearest ones that which `tie` says; none when `x` is not finite. -/
def ofFloat? (tie : Tie) (x : Float) : Option Decimal :=
  let bits := x.toBits.toNat
  let negative := 1 <<< 63 ≤ bits
  let biased := bits >>> 52 % 1 <<< 11
  let fraction := bits % 1 <<< 52
  if biased = 2047 then none
  else if biased = 0 ∧ fraction = 0 then some ⟨negative, 0, 0⟩
  else
    let r := Rounding.ofParts biased fraction
    let (n, k) := r.firstPoint tie (magnitude r.mid r.den - 1) 18
    let (digits, exponent) := stripZeros 20 n k
    some ⟨negative, digits, exponent⟩

end Decimal

end DeskScript
