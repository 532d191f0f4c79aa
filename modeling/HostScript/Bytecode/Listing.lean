import HostScript.Bytecode.Basic
import HostScript.Number.Decimal
import HostScript.Text.Quoted

/-!
# Listings

The text of a unit, one line for each instruction and a header line wherever a body begins. A header
whose offset lies past the code is not shown.
-/

namespace HostScript

/-- A line of a listing. -/
inductive ListingLine where
  | header (entry : Entry)
  | instruction (offset : Nat) (instruction : Instruction)

namespace CodeUnit

/-- The string of a given number as it is shown, which is a question mark if there is none. -/
def shownString (u : CodeUnit) (id : Nat) : String :=
  u.strings[id]?.getD "?"

/-- An instruction with its operands. -/
def instructionText (u : CodeUnit) (i : Instruction) : String :=
  match i with
  | .pushNumber n => i.mnemonic ++ " " ++ Number.text n
  | .pushString id => i.mnemonic ++ " " ++ Text.quoted (u.shownString id)
  | .pushBool b => i.mnemonic ++ (if b then " true" else " false")
  | .loadLocal slot | .storeLocal slot => i.mnemonic ++ s!" {slot}"
  | .loadGlobal id | .storeGlobal id =>
    i.mnemonic ++ s!" {id} (" ++ (u.globals[id]?.getD "?") ++ ")"
  | .loadHost name | .storeHost name => i.mnemonic ++ " " ++ u.shownString name
  | .makeArray count => i.mnemonic ++ s!" {count}"
  | .unary op => i.mnemonic ++ " " ++ op.symbol
  | .binary op => i.mnemonic ++ " " ++ op.symbol
  | .jump target | .jumpIfFalse target | .jumpIfTrue target =>
    i.mnemonic ++ " " ++ Text.fourDigits target
  | .iterNext array cursor exit =>
    i.mnemonic ++ s!" array={array} cursor={cursor} exit=" ++ Text.fourDigits exit
  | .callScript function argc =>
    i.mnemonic ++ " " ++ ((u.functions[function]?.map Entry.name).getD "?") ++ s!" argc={argc}"
  | .callNative name argc | .callMethod name argc =>
    i.mnemonic ++ " " ++ u.shownString name ++ s!" argc={argc}"
  | .pushVoid | .pop | .loadIndex | .storeIndex | .returnValue | .returnVoid => i.mnemonic

/-- A line without its end. -/
def lineText (u : CodeUnit) : ListingLine → String
  | .header entry => entry.name ++ s!"({entry.arity}) locals={entry.locals}"
  | .instruction offset i => Text.fourDigits offset ++ "  " ++ u.instructionText i

/-- The headers by offset. At one offset the functions come in the order of the table,
then the top level. -/
def headers (u : CodeUnit) : List Entry :=
  (u.functions.toList ++ [u.top]).mergeSort fun a b => a.start ≤ b.start

end CodeUnit

/-- The lines of code from an offset on, each preceded by the headers that have become due.

The lines written already stand in reverse order. -/
def listingFrom (written : List ListingLine) (offset : Nat) (headers : List Entry) :
    List Instruction → List ListingLine
  | [] => written.reverse
  | i :: rest =>
    let due := headers.takeWhile fun entry => entry.start ≤ offset
    let later := headers.dropWhile fun entry => entry.start ≤ offset
    let written := due.foldl (fun lines entry => .header entry :: lines) written
    listingFrom (.instruction offset i :: written) (offset + 1) later rest

namespace CodeUnit

/-- The lines of a listing. -/
def listing (u : CodeUnit) : List ListingLine :=
  listingFrom [] 0 u.headers u.code.toList

/-- The text of a listing, every line ended. -/
def listingText (u : CodeUnit) : String :=
  u.listing.foldl (fun out line => out ++ u.lineText line ++ "\n") ""

end CodeUnit

end HostScript
