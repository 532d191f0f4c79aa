import HostScript.Text.Unprintable

/-!
# Quoted text

A text between double quotes, on one line: the quote and the backslash are preceded by a backslash,
the common controls have a letter, and every other unprintable character is given by its code point.
-/

namespace HostScript.Text

/-- One character as it stands between the quotes. -/
def escaped (c : Char) : String :=
  if c = '"' then "\\\""
  else if c = '\\' then "\\\\"
  else if c = '\n' then "\\n"
  else if c = '\r' then "\\r"
  else if c = '\t' then "\\t"
  else if c = Char.ofNat 0 then "\\0"
  else if isUnprintable c then "\\u\x7b" ++ String.ofList (Nat.toDigits 16 c.toNat) ++ "\x7d"
  else c.toString

/-- The quoted form of a text. -/
def quoted (s : String) : String :=
  s.foldl (fun acc c => acc ++ escaped c) "\"" ++ "\""

/-- A number written in decimal with at least four digits. -/
def fourDigits (n : Nat) : String :=
  let digits := Nat.toDigits 10 n
  String.ofList (List.replicate (4 - digits.length) '0' ++ digits)

/-- The texts one after the other with `separator` between them. -/
def joined (separator : String) : List String → String
  | [] => ""
  | first :: rest => rest.foldl (fun acc s => acc ++ separator ++ s) first

end HostScript.Text
