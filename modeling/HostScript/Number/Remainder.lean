/-!
# The remainder of two doubles

The remainder of `a` by `b` is `a - q * b` for the quotient `q` truncated toward zero. It has the
sign of `a`, it is smaller than `b` in magnitude, and it is always a double, so it is computed here
on the significands as natural numbers and never rounded.
-/

namespace HostScript.Number

open Float.Model (UnpackedFloat Format)

/-- The remainder of `m * 2 ^ e` by `n * 2 ^ f`, counted in units of `2 ^ min e f`. -/
def remainderUnits (m : Nat) (e : Int) (n : Nat) (f : Int) : Nat :=
  (m <<< (e - min e f).toNat) % (n <<< (f - min e f).toNat)

/-- The remainder on unpacked doubles. An infinite dividend and a zero divisor have none. -/
def remainderUnpacked : UnpackedFloat → UnpackedFloat → UnpackedFloat
  | .notANumber, _ => .notANumber
  | _, .notANumber => .notANumber
  | .infinity _, _ => .notANumber
  | _, .zero _ => .notANumber
  | .zero sign, _ => .zero sign
  | dividend, .infinity _ => dividend
  | .finite sign m e _, .finite _ n f _ =>
    .round Format.binary64 sign (remainderUnits m e n f) (min e f)

/-- The remainder of `a` by `b`, with the sign of `a`. -/
def remainder (a b : Float) : Float :=
  .ofModel (.pack (remainderUnpacked a.toModel.unpack b.toModel.unpack))

end HostScript.Number
