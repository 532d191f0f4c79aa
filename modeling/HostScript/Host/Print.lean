import HostScript.Host.Basic

/-!
# Printing

The native `Print` writes its arguments on one line with blanks between them. Where the line goes is
decided by a sink in the state of the host.
-/

namespace HostScript

/-- Where printed lines go. -/
inductive PrintSink where
  /-- The console. The lines wait here until the program around the host has written them. -/
  | console (lines : Array String)
  /-- A text that can be read back. -/
  | buffer (text : String)
  /-- Nowhere. -/
  | silent

namespace PrintSink

/-- Prints a line. -/
def println (sink : PrintSink) (line : String) : PrintSink :=
  match sink with
  | .console lines => .console (lines.push line)
  | .buffer text => .buffer (text ++ line ++ "\n")
  | .silent => .silent

/-- What has been printed into a buffer. Other sinks have nothing to read back. -/
def output : PrintSink → String
  | .buffer text => text
  | _ => ""

/-- Empties a buffer. -/
def clear : PrintSink → PrintSink
  | .buffer _ => .buffer ""
  | sink => sink

end PrintSink

/-- The line that `Print` writes. -/
def printedLine (args : Array Value) : String :=
  Text.joined " " (args.toList.map Value.text)

/-- Registers `Print` over a way to print a line. -/
def Host.addPrint {σ : Type} (host : Host σ) (println : String → σ → σ) :
    Except RegistrationError (Host σ) :=
  host.addNative "Print"
    (.native none fun args state => (.ok (.immediate .void), println (printedLine args) state))

end HostScript
