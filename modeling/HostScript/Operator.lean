/-!
# Operators

The operators of the language and the symbols they are written with. `and` and `or` are the two that
may leave their right operand unevaluated.
-/

namespace HostScript

/-- Operators on one operand. -/
inductive UnaryOp where
  | not
  | negate
  deriving DecidableEq, Repr

/-- Operators on two operands. -/
inductive BinaryOp where
  | lessOrEqual
  | greaterOrEqual
  | equals
  | differs
  | less
  | more
  | plus
  | minus
  | multiply
  | divide
  | modulus
  | and
  | or
  deriving DecidableEq, Repr

/-- The symbol of a unary operator. -/
def UnaryOp.symbol : UnaryOp → String
  | .not => "not"
  | .negate => "-"

/-- The symbol of a binary operator. -/
def BinaryOp.symbol : BinaryOp → String
  | .lessOrEqual => "<="
  | .greaterOrEqual => ">="
  | .equals => "=="
  | .differs => "!="
  | .less => "<"
  | .more => ">"
  | .plus => "+"
  | .minus => "-"
  | .multiply => "*"
  | .divide => "/"
  | .modulus => "%"
  | .and => "and"
  | .or => "or"

/-- Every unary operator. -/
def UnaryOp.all : List UnaryOp :=
  [.not, .negate]

/-- Every binary operator. -/
def BinaryOp.all : List BinaryOp :=
  [.lessOrEqual, .greaterOrEqual, .equals, .differs, .less, .more, .plus, .minus, .multiply,
    .divide, .modulus, .and, .or]

/-- The unary operator with a given symbol. -/
def UnaryOp.ofSymbol? (s : String) : Option UnaryOp :=
  UnaryOp.all.find? fun op => op.symbol == s

/-- The binary operator with a given symbol. -/
def BinaryOp.ofSymbol? (s : String) : Option BinaryOp :=
  BinaryOp.all.find? fun op => op.symbol == s

/-- Whether the operator may leave its right operand unevaluated. -/
def BinaryOp.shortCircuits : BinaryOp → Bool
  | .and | .or => true
  | _ => false

/-- Reading a symbol back gives the operator. -/
theorem UnaryOp.ofSymbol?_symbol (op : UnaryOp) : ofSymbol? op.symbol = some op := by
  cases op <;> rfl

/-- Reading a symbol back gives the operator. -/
theorem BinaryOp.ofSymbol?_symbol (op : BinaryOp) : ofSymbol? op.symbol = some op := by
  cases op <;> rfl

end HostScript
