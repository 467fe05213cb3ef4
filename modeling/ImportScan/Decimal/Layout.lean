import ImportScan.Decimal.Shortest

/-!
Writing a decimal: digits with a point, or one digit before the point and a power of ten.
-/

namespace ImportScan.Decimal

/-- The powers of ten of the first digit for which a number is written without an exponent. -/
structure Layout where
  least : Int
  greatest : Int

/-- The text of a non-negative decimal. An exponent has its sign, plus or minus, and no zeros in
front. -/
def Layout.magnitude (layout : Layout) (p : Point) : List Char :=
  let digits := Nat.toDigits 10 p.digits
  let first : Int := p.exponent + digits.length - 1
  if p.digits = 0 then ['0', '.', '0']
  else if layout.least ≤ first ∧ first ≤ layout.greatest then
    if 0 ≤ p.exponent then digits ++ List.replicate p.exponent.toNat '0' ++ ['.', '0']
    else if 0 ≤ first then
      digits.take (first.toNat + 1) ++ '.' :: digits.drop (first.toNat + 1)
    else ['0', '.'] ++ List.replicate (-first - 1).toNat '0' ++ digits
  else
    let point := if digits.length = 1 then [] else '.' :: digits.drop 1
    digits.take 1 ++ point ++ 'e' :: (if first < 0 then '-' else '+') ::
      Nat.toDigits 10 first.natAbs

/-- The bit of a double that tells its sign. -/
def signBit : Nat := 9223372036854775808

/-- The text of a finite double: its shortest digits in the given layout, its sign kept. -/
def Layout.text (layout : Layout) (x : Float) : String :=
  let bits := x.toBits
  let body := layout.magnitude (Binary.ofBits bits).shortest
  String.ofList (if signBit ≤ bits.toNat then '-' :: body else body)

end ImportScan.Decimal
