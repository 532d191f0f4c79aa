import HostScript.Operator

/-!
# Bytecode

The instructions of the stack machine and the units they are shipped in. A unit holds one flat
sequence of instructions; functions, script globals and strings are referred to by their position in
the unit's tables.
-/

namespace HostScript

/-- Instructions. Each one works on the operand stack of the running frame. -/
inductive Instruction where
  | pushNumber (value : Float)
  | pushString (id : Nat)
  | pushBool (value : Bool)
  | pushVoid
  | pop
  | loadLocal (slot : Nat)
  | storeLocal (slot : Nat)
  | loadGlobal (id : Nat)
  | storeGlobal (id : Nat)
  | loadHost (name : Nat)
  | storeHost (name : Nat)
  | makeArray (count : Nat)
  | loadIndex
  | storeIndex
  | unary (op : UnaryOp)
  | binary (op : BinaryOp)
  | jump (target : Nat)
  | jumpIfFalse (target : Nat)
  | jumpIfTrue (target : Nat)
  | iterNext (array cursor exit : Nat)
  | callScript (function argc : Nat)
  | callNative (name argc : Nat)
  | callMethod (name argc : Nat)
  | returnValue
  | returnVoid
  deriving DecidableEq

/-- The mnemonic of an instruction. -/
def Instruction.mnemonic : Instruction → String
  | .pushNumber _ => "PUSH_NUM"
  | .pushString _ => "PUSH_STR"
  | .pushBool _ => "PUSH_BOOL"
  | .pushVoid => "PUSH_VOID"
  | .pop => "POP"
  | .loadLocal _ => "LOAD_LOCAL"
  | .storeLocal _ => "STORE_LOCAL"
  | .loadGlobal _ => "LOAD_GLOBAL"
  | .storeGlobal _ => "STORE_GLOBAL"
  | .loadHost _ => "LOAD_HOST"
  | .storeHost _ => "STORE_HOST"
  | .makeArray _ => "MAKE_ARRAY"
  | .loadIndex => "LOAD_INDEX"
  | .storeIndex => "STORE_INDEX"
  | .unary _ => "UNARY"
  | .binary _ => "BINARY"
  | .jump _ => "JMP"
  | .jumpIfFalse _ => "JMP_FALSE"
  | .jumpIfTrue _ => "JMP_TRUE"
  | .iterNext .. => "ITER_NEXT"
  | .callScript .. => "CALL"
  | .callNative .. => "CALL_NATIVE"
  | .callMethod .. => "CALL_METHOD"
  | .returnValue => "RET"
  | .returnVoid => "RET_VOID"

/-- Where a body of code starts and what a frame that runs it needs. -/
structure Entry where
  name : String
  /-- The offset of the first instruction. -/
  start : Nat
  /-- The number of parameters, which are the first locals. -/
  arity : Nat
  /-- The number of locals, parameters included. -/
  locals : Nat
  deriving DecidableEq, Repr

/-- The name under which top-level code is listed. -/
def topLevelName : String := "<top-level>"

/-- A unit of code that a machine can run. -/
structure CodeUnit where
  code : Array Instruction := #[]
  top : Entry
  functions : Array Entry := #[]
  globals : Array String := #[]
  strings : Array String := #[]

namespace CodeUnit

/-- The function of a given name with its number. Of two functions of one name it is the later. -/
def functionByName? (u : CodeUnit) (name : String) : Option (Nat × Entry) :=
  match u.functions.reverse.findIdx? (·.name == name) with
  | some back =>
    let id := u.functions.size - 1 - back
    u.functions[id]?.map fun entry => (id, entry)
  | none => none

/-- The number of the script global of a given name. Of two globals of one name it is the
earlier. -/
def globalByName? (u : CodeUnit) (name : String) : Option Nat :=
  u.globals.findIdx? (· == name)

end CodeUnit

end HostScript
