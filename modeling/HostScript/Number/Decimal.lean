/-!
# Decimal text of a double

A finite double is written with the fewest decimal digits that read back as the same double.
Among the decimals of that length the nearest one is taken, and of two equally near ones the
larger magnitude. The digits are always laid out positionally: no exponent, and no fraction when
the value is whole.

A double with significand `m` and exponent `e` is the nearest double of every real strictly
between the midpoints to its neighbours, and of the midpoints themselves when `m` is even. The
search below runs over the decimal grids of 1, 2, ... 17 digits and stops at the first one with a
point in that interval.
-/

namespace HostScript.Number

open Float.Model (UnpackedFloat)

/-- The reals that read back as a given positive double, as fractions over one denominator. -/
structure Interval where
  low : Nat
  value : Nat
  high : Nat
  denominator : Nat
  closed : Bool

/-- The interval of `m * 2 ^ e`, in quarters of the unit `2 ^ e`.

Below the least significand of a binade the spacing of doubles halves, so the lower
midpoint is closer. -/
def Interval.ofParts (m : Nat) (e : Int) : Interval :=
  let scale := Nat.pow 2 (e - 2).toNat
  { low := (if m = Nat.pow 2 52 then 4 * m - 1 else 4 * m - 2) * scale
    value := 4 * m * scale
    high := (4 * m + 2) * scale
    denominator := Nat.pow 2 (2 - e).toNat
    closed := m % 2 = 0 }

/-- Whether `x` parts of the denominator lie in the interval, for `x` scaled like the bounds. -/
def Interval.contains (i : Interval) (x : Nat) : Bool :=
  if i.closed then i.low ≤ x && x ≤ i.high else i.low < x && x < i.high

/-- The interval with every bound multiplied by `k`. -/
def Interval.scale (i : Interval) (k : Nat) : Interval :=
  { i with low := i.low * k, value := i.value * k, high := i.high * k }

/-- The decimal `digits * 10 ^ exponent`. -/
structure Decimal where
  digits : Nat
  exponent : Int

/-- The decimal without one trailing zero digit. -/
def Decimal.trim (d : Decimal) : Decimal :=
  if d.digits % 10 = 0 then ⟨d.digits / 10, d.exponent + 1⟩ else d

/-- The point of the grid of multiples of `10 ^ k` that lies in the interval nearest
its value, if any.

Only the value's two neighbours on the grid are candidates, and a tie goes to the upper one. -/
def Interval.onGrid (i : Interval) (k : Int) : Option Decimal :=
  let i := i.scale (Nat.pow 10 (-k).toNat)
  let step := i.denominator * Nat.pow 10 k.toNat
  let below := i.value / step
  let down := i.contains (below * step)
  let up := i.contains ((below + 1) * step)
  let upIsNearer := step ≤ 2 * (i.value % step)
  if up && (!down || upIsNearer) then some (Decimal.trim ⟨below + 1, k⟩)
  else if down then some (Decimal.trim ⟨below, k⟩)
  else none

/-- An exponent `q` with `10 ^ q` at most the value and `10 ^ (q + 1)` above it.

The product `30103 / 100000` approximates the decimal logarithm of two closely enough that, over the
exponents of doubles, the first guess is right or one too small. -/
def Interval.magnitude (i : Interval) (m : Nat) (e : Int) : Int :=
  let guess := Int.fdiv ((m.log2 + e) * 30103) 100000
  if i.denominator * Nat.pow 10 (guess + 1).toNat ≤
      i.value * Nat.pow 10 (-(guess + 1)).toNat then guess + 1
  else guess

/-- The first hit on the grids with `digits`, `digits + 1`, ... digits, `more` grids in all. -/
def Interval.search (i : Interval) (magnitude : Int) : (digits more : Nat) → Option Decimal
  | _, 0 => none
  | digits, more + 1 =>
    match i.onGrid (magnitude + 1 - digits) with
    | some d => some d
    | none => i.search magnitude (digits + 1) more

/-- The shortest decimal that reads back as `m * 2 ^ e`. Seventeen digits always suffice. -/
def shortest (m : Nat) (e : Int) : Decimal :=
  let i := Interval.ofParts m e
  (i.search (i.magnitude m e) 1 17).getD ⟨0, 0⟩

/-- A run of zeros. -/
def zeros (n : Nat) : String :=
  String.ofList (List.replicate n '0')

/-- The positional text of a decimal. -/
def Decimal.text (d : Decimal) : String :=
  let digits := Nat.toDigits 10 d.digits
  if 0 ≤ d.exponent then
    String.ofList digits ++ zeros d.exponent.toNat
  else
    let places := (-d.exponent).toNat
    if places < digits.length then
      let whole := digits.length - places
      String.ofList (digits.take whole) ++ "." ++ String.ofList (digits.drop whole)
    else
      "0." ++ zeros (places - digits.length) ++ String.ofList digits

/-- The sign that is written before a magnitude. -/
def signText : UnpackedFloat.Sign → String
  | .negative => "-"
  | .positive => ""

/-- The text of an unpacked double. Negative zero keeps its sign. -/
def textUnpacked : UnpackedFloat → String
  | .notANumber => "NaN"
  | .infinity sign => signText sign ++ "inf"
  | .zero sign => signText sign ++ "0"
  | .finite sign m e _ => signText sign ++ (shortest m e).text

/-- The text of a number. -/
def text (n : Float) : String :=
  textUnpacked n.toModel.unpack

end HostScript.Number
