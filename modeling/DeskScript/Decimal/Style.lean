import DeskScript.Decimal.Shortest

/-! Written forms of decimal numbers. -/

namespace DeskScript.Decimal

structure Style where
  /-- The powers of ten of the first digit for which no exponent is written; none for all. -/
  positional : Option (Int × Int)
  /-- Whether a whole number keeps `.0`. -/
  keepsPoint : Bool
  /-- Which of two equally near shortest decimals is written. -/
  tie : Tie

/-- In running text a number has no exponent, and a whole number no point; a tie goes away from
zero. -/
def Style.plain : Style := ⟨none, false, .away⟩

/-- As data a number always shows that it is no integer, and has an exponent, with its sign, below
`1e-5` and from `1e16` on; a tie goes to the even digit. -/
def Style.data : Style := ⟨some (-5, 15), true, .toEven⟩

/-- The power of ten of the first digit. -/
def leading (d : Decimal) : Int := d.exponent + (digitChars d.digits).length - 1

def positionalChars (keepsPoint : Bool) (d : Decimal) : List Char :=
  let digits := digitChars d.digits
  let point : Int := digits.length + d.exponent
  if 0 ≤ d.exponent then
    digits ++ List.replicate (if d.digits = 0 then 0 else d.exponent.toNat) '0' ++
      if keepsPoint then ['.', '0'] else []
  else if 0 < point then digits.take point.toNat ++ '.' :: digits.drop point.toNat
  else '0' :: '.' :: (List.replicate (-point).toNat '0' ++ digits)

/-- One digit, the others behind a point, and the exponent with its sign. -/
def scientificChars (d : Decimal) : List Char :=
  let digits := digitChars d.digits
  digits.take 1 ++ (if digits.length ≤ 1 then [] else '.' :: digits.drop 1) ++
    'e' :: (if d.leading < 0 then '-' else '+') :: digitChars d.leading.natAbs

def chars (style : Style) (d : Decimal) : List Char :=
  let unsigned := match style.positional with
    | none => positionalChars style.keepsPoint d
    | some (least, greatest) =>
      if d.digits = 0 ∨ least ≤ d.leading ∧ d.leading ≤ greatest then
        positionalChars style.keepsPoint d
      else scientificChars d
  if d.negative then '-' :: unsigned else unsigned

/-- The shortest text of `x` in `style`; a number that is not finite has a word. -/
def textOfFloat (style : Style) (x : Float) : String :=
  match ofFloat? style.tie x with
  | some d => String.ofList (d.chars style)
  | none => if x.isNaN then "NaN" else if x < 0 then "-inf" else "inf"

/-- `num / den` to the nearest integer, a half to the even one. -/
def roundDiv (num den : Nat) : Nat :=
  let q := num / den
  let twice := 2 * (num % den)
  if twice < den ∨ twice = den ∧ q % 2 = 0 then q else q + 1

/-- `x`, finite and not negative, with exactly `places` digits behind the point. -/
def fixedText (places : Nat) (x : Float) : String :=
  let bits := x.toBits.toNat
  let biased := bits >>> 52 % 1 <<< 11
  let r := Rounding.ofParts biased (bits % 1 <<< 52)
  let n := roundDiv (r.mid * Nat.pow 10 places) r.den
  let fraction := digitChars (n % Nat.pow 10 places)
  String.ofList <| digitChars (n / Nat.pow 10 places) ++
    if places = 0 then [] else '.' :: (List.replicate (places - fraction.length) '0' ++ fraction)

end DeskScript.Decimal
