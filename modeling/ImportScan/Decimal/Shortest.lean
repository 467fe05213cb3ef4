/-!
The shortest decimal that reads back as a binary floating-point number. The numbers that round to
`m · 2^q` form an interval around it; the answer is a point of the coarsest decimal grid that has
one in that interval, and of two such points the nearer.
-/

namespace ImportScan.Decimal

/-- The number `mantissa · 2^exponent`. `closeBelow` says that the next smaller floating-point
number is only half as far away as the next larger one. -/
structure Binary where
  mantissa : Nat
  exponent : Int
  closeBelow : Bool
  deriving DecidableEq, Repr

/-- The leading bit of a mantissa, which is not among the bits of a double. -/
def implicitBit : Nat := 4503599627370496

/-- The magnitude of a finite double, from its bits: 52 of fraction, below 11 of exponent. -/
def Binary.ofBits (bits : UInt64) : Binary :=
  let field : Nat := bits.toNat / implicitBit % 2048
  let fraction : Nat := bits.toNat % implicitBit
  if field = 0 then ⟨fraction, -1074, false⟩
  else ⟨implicitBit + fraction, field - 1075, fraction = 0 ∧ 1 < field⟩

/-- The number `digits · 10^exponent`. -/
structure Point where
  digits : Nat
  exponent : Int
  deriving DecidableEq, Repr

/-- The same number without zeros at the end of its digits. -/
def Point.trim (p : Point) : Point :=
  if p.digits ≠ 0 ∧ p.digits % 10 = 0 then Point.trim ⟨p.digits / 10, p.exponent + 1⟩ else p
termination_by p.digits
decreasing_by omega

/-- A fraction that, times `n`, is `n · 2^q / 10^x`. -/
def scale (q x : Int) : Nat × Nat :=
  (Nat.pow 2 q.toNat * Nat.pow 10 (-x).toNat, Nat.pow 2 (-q).toNat * Nat.pow 10 x.toNat)

/-- The exponent of a power of ten that is at most the number and more than a hundredth of it. -/
def Binary.leading (b : Binary) : Int :=
  let (up, down) := scale b.exponent 0
  let num := b.mantissa * up
  if down ≤ num then ((Nat.repr (num / down)).length : Int) - 1
  else -((Nat.repr (down / num)).length : Int)

/-- The point of the grid of multiples of `10^x` that reads back as the number, if there is one: of
its two neighbours on the grid the nearer, an exact tie going to the even one. Quarters of the
mantissa's unit are used, so that both ends of the interval are whole. -/
def Binary.onGrid (b : Binary) (x : Int) : Option Point :=
  let (up, down) := scale (b.exponent - 2) x
  let num := 4 * b.mantissa * up
  let low := (4 * b.mantissa - if b.closeBelow then 1 else 2) * up
  let high := (4 * b.mantissa + 2) * up
  let fits (d : Nat) : Bool :=
    if b.mantissa % 2 = 0 then low ≤ d * down && d * down ≤ high
    else low < d * down && d * down < high
  let below := num / down
  let above := below + 1
  let nearerBelow := num - below * down < above * down - num ∨
    (num - below * down = above * down - num ∧ below % 2 = 0)
  match fits below, fits above with
  | true, true => some ⟨if nearerBelow then below else above, x⟩
  | true, false => some ⟨below, x⟩
  | false, true => some ⟨above, x⟩
  | false, false => none

/-- The shortest point that reads back as the number: the first grid that has one, from one digit
to seventeen, which are always enough. -/
def Binary.shortest (b : Binary) : Point :=
  if b.mantissa = 0 then ⟨0, 0⟩
  else
    match (List.range 17).findSome? fun (n : Nat) => b.onGrid (b.leading - n) with
    | some point => point.trim
    | none => ⟨0, 0⟩

end ImportScan.Decimal
