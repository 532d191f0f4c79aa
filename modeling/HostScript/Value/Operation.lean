import HostScript.Fault
import HostScript.Operator
import HostScript.Number.Remainder
import HostScript.Value.Basic

/-!
# Operations on values

The meaning of the operators, of element access and of element update. No operation converts between
kinds of values: arithmetic takes two numbers, an ordering takes two numbers or two strings, and
equality takes any two values.
-/

namespace HostScript

/-- The fault of a value that is not of the expected kind. -/
def Value.mismatch (expected : String) (value : Value) : Fault :=
  .typeMismatch expected value.typeName

/-- The order of two numbers. There is none when one of them is not a number. -/
def Number.order (a b : Float) : Option Ordering :=
  if a < b then some .lt
  else if a > b then some .gt
  else if a == b then some .eq
  else none

namespace Value

/-- The order of two numbers or of two strings, strings by code points. -/
def order : Value → Value → Except Fault (Option Ordering)
  | .number a, .number b => .ok (Number.order a b)
  | .string a, .string b => .ok (some (compare a b))
  | .number _, other => .error (mismatch "number" other)
  | .string _, other => .error (mismatch "string" other)
  | other, _ => .error (mismatch "number or string" other)

/-- The two numbers that arithmetic works on. The left operand is blamed first. -/
def numbers : Value → Value → Except Fault (Float × Float)
  | .number a, .number b => .ok (a, b)
  | .number _, other => .error (mismatch "number" other)
  | other, _ => .error (mismatch "number" other)

/-- The two numbers of a division, of which the second may not be zero. -/
def dividends (lhs rhs : Value) : Except Fault (Float × Float) :=
  match numbers lhs rhs with
  | .error fault => .error fault
  | .ok (a, b) => if b == 0.0 then .error .divisionByZero else .ok (a, b)

/-- The truth value of a test on an ordering. -/
def ordered (test : Option Ordering → Bool) (lhs rhs : Value) : Except Fault Value :=
  (order lhs rhs).map fun o => .boolean (test o)

/-- The number that an operation makes of two numbers. -/
def computed (operation : Float → Float → Float) (operands : Except Fault (Float × Float)) :
    Except Fault Value :=
  operands.map fun (a, b) => .number (operation a b)

end Value

/-- The value of an operator on two values. `and` and `or` give the truth value of both
operands together. -/
def BinaryOp.apply (op : BinaryOp) (lhs rhs : Value) : Except Fault Value :=
  match op with
  | .equals => .ok (.boolean (lhs == rhs))
  | .differs => .ok (.boolean (lhs != rhs))
  | .and => .ok (.boolean (lhs.isTruthy && rhs.isTruthy))
  | .or => .ok (.boolean (lhs.isTruthy || rhs.isTruthy))
  | .less => Value.ordered (· == some .lt) lhs rhs
  | .more => Value.ordered (· == some .gt) lhs rhs
  | .lessOrEqual => Value.ordered (fun o => o == some .lt || o == some .eq) lhs rhs
  | .greaterOrEqual => Value.ordered (fun o => o == some .gt || o == some .eq) lhs rhs
  | .plus => Value.computed (· + ·) (Value.numbers lhs rhs)
  | .minus => Value.computed (· - ·) (Value.numbers lhs rhs)
  | .multiply => Value.computed (· * ·) (Value.numbers lhs rhs)
  | .divide => Value.computed (· / ·) (Value.dividends lhs rhs)
  | .modulus => Value.computed Number.remainder (Value.dividends lhs rhs)

/-- The value of an operator on one value. -/
def UnaryOp.apply (op : UnaryOp) (operand : Value) : Except Fault Value :=
  match op, operand with
  | .not, .boolean b => .ok (.boolean !b)
  | .not, other => .error (other.mismatch "boolean")
  | .negate, .number n => .ok (.number (-n))
  | .negate, other => .error (other.mismatch "number")

/-- The natural number that a number counts to: its whole part, and zero below zero
or without a value. -/
def Number.count (n : Float) : Nat :=
  n.toUInt64.toNat

/-- The position below `length` that a number is equal to, if there is one. -/
def Number.position? (n : Float) (length : Nat) : Option (Fin length) :=
  if h : Number.count n < length then
    if Float.ofNat (Number.count n) == n then some ⟨Number.count n, h⟩ else none
  else none

namespace Value

/-- The position that an index value denotes in an array of a given length. -/
def position (index : Value) (length : Nat) : Except Fault (Fin length) :=
  match index with
  | .number n =>
    match Number.position? n length with
    | some k => .ok k
    | none => .error (.indexOutOfRange n length)
  | other => .error (other.mismatch "number")

/-- The element of an array at an index. -/
def element (array index : Value) : Except Fault Value :=
  match array with
  | .array items =>
    match index.position items.size with
    | .ok k => .ok items[k]
    | .error fault => .error fault
  | other => .error (other.mismatch "array")

/-- The array with the element at an index replaced. -/
def withElement (array index value : Value) : Except Fault Value :=
  match array with
  | .array items =>
    match index.position items.size with
    | .ok k => .ok (.array (items.set k value))
    | .error fault => .error fault
  | other => .error (other.mismatch "array")

end Value

end HostScript
