import ImportScan.Json.Number

/-!
The value of a number. Digits are gathered into a significand of at most 64 bits; those that do not
fit any more only count as powers of ten before the point, and not at all behind it. The significand
is then scaled by a power of ten in floating point.
-/

namespace ImportScan.Json.Number

/-- The greatest significand. -/
def maxSignificand : Nat := 18446744073709551615

/-- The greatest number an exponent may reach, digit by digit. -/
def maxExponent : Nat := 2147483647

/-- The greatest magnitude of a negative integer. -/
def maxNegative : Nat := 9223372036854775808

/-- The value of a digit. -/
def digit (c : Char) : Nat := c.toNat - '0'.toNat

/-- Adds digits to a number while the result stays within a bound, and returns the digits from the
first that does not fit. -/
def gather (bound n : Nat) : List Char → Nat × List Char
  | [] => (n, [])
  | c :: rest =>
    if n * 10 + digit c ≤ bound then gather bound (n * 10 + digit c) rest else (n, c :: rest)

/-- `f / 10^k`, by at most `10^308` at a time. -/
def divideByPower (f : Float) (k : Nat) : Float :=
  if k ≤ 308 then f / Float.ofScientific 1 false k
  else if f == 0 then f
  else divideByPower (f / 1e308) (k - 308)
termination_by k

/-- `significand · 10^exponent` as a double, unless that is too large. -/
def scaled? (significand : Nat) (exponent : Int) : Option Float :=
  let f := Float.ofNat significand
  if exponent < 0 then some (divideByPower f exponent.natAbs)
  else if exponent ≤ 308 then
    let f := f * Float.ofScientific 1 false exponent.toNat
    if f.isInf then none else some f
  else if f == 0 then some f
  else none

/-- Gives a double the number's sign. -/
def signed (n : Number) (f : Float) : Found := .float (if n.negative then -f else f)

/-- What a number is, or, when it is too large, how many of its last digits need not be seen to
tell. A number without point and exponent is an integer if it fits 64 bits. -/
def value (n : Number) : Except Nat Found :=
  let (significand, dropped) := gather maxSignificand 0 n.whole
  match n.fraction, n.exponent with
  | none, none =>
    if dropped.isEmpty && !n.negative then .ok (.integer significand)
    else if dropped.isEmpty && significand ≠ 0 && significand ≤ maxNegative then
      .ok (.integer (-(significand : Int)))
    else
      match scaled? significand dropped.length with
      | some f => .ok (n.signed f)
      | none => .error 0
  | fraction, exponent =>
    let digits := fraction.getD []
    let (significand, ignored) := gather maxSignificand significand digits
    let shift : Int := dropped.length - (digits.length - ignored.length : Nat)
    let (down, power) := exponent.getD (false, [])
    let (power, unseen) := gather maxExponent 0 power
    if !unseen.isEmpty then
      if significand ≠ 0 && !down then .error (unseen.length - 1) else .ok (n.signed 0)
    else
      match scaled? significand (shift + if down then -(power : Int) else power) with
      | some f => .ok (n.signed f)
      | none => .error 0

end ImportScan.Json.Number
