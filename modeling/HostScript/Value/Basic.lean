import HostScript.Number.Decimal

/-!
# Values

What a script computes with. Numbers are doubles, strings are sequences of code points, arrays are
values and not references, and objects are known to the script by identity alone.
-/

namespace HostScript

/-- The identity of an object of the host. -/
structure ObjectId where
  index : Nat
  deriving DecidableEq, Repr

/-- Values of the language. -/
inductive Value where
  | void
  | number (n : Float)
  | string (s : String)
  | boolean (b : Bool)
  | object (id : ObjectId)
  | array (items : Array Value)
  deriving Inhabited

namespace Value

/-- What a value is called in messages. -/
def typeName : Value → String
  | .void => "void"
  | .number _ => "number"
  | .string _ => "string"
  | .boolean _ => "boolean"
  | .object _ => "object"
  | .array _ => "array"

/-- Whether a value counts as true in a condition. Zero, the empty string, the empty array and void
do not; a number that is not a number does. -/
def isTruthy : Value → Bool
  | .void => false
  | .number n => n != 0.0
  | .string s => !s.isEmpty
  | .boolean b => b
  | .object _ => true
  | .array items => !items.isEmpty

/-- The number in a value that is one. -/
def number? : Value → Option Float
  | .number n => some n
  | _ => none

/-- The text in a value that is a string. -/
def string? : Value → Option String
  | .string s => some s
  | _ => none

/-- The truth value in a value that is one. -/
def boolean? : Value → Option Bool
  | .boolean b => some b
  | _ => none

/-- The identity in a value that is an object. -/
def object? : Value → Option ObjectId
  | .object id => some id
  | _ => none

mutual

/-- Equality of values: numbers by their value, arrays position by position, objects by identity. -/
def beq : Value → Value → Bool
  | .void, .void => true
  | .number a, .number b => a == b
  | .string a, .string b => a == b
  | .boolean a, .boolean b => a == b
  | .object a, .object b => a == b
  | .array ⟨a⟩, .array ⟨b⟩ => beqItems a b
  | _, _ => false
termination_by structural value => value

/-- Equality of the items of two arrays. -/
def beqItems : List Value → List Value → Bool
  | [], [] => true
  | a :: as, b :: bs => a.beq b && beqItems as bs
  | _, _ => false
termination_by structural items => items

end

instance : BEq Value where
  beq := beq

mutual

/-- The text of a value after what has been written already. -/
def write (out : String) : Value → String
  | .void => out ++ "void"
  | .number n => out ++ Number.text n
  | .string s => out ++ s
  | .boolean b => out ++ (if b then "true" else "false")
  | .object _ => out ++ "<object>"
  | .array ⟨items⟩ => writeItems (out ++ "[") "" items ++ "]"
termination_by structural value => value

/-- The texts of the items of an array, each but the first after a separator. -/
def writeItems (out separator : String) : List Value → String
  | [] => out
  | item :: items => writeItems (write (out ++ separator) item) ", " items
termination_by structural items => items

end

/-- The text of a value. A string stands for itself, without quotes. -/
def text (value : Value) : String :=
  value.write ""

end Value

end HostScript
