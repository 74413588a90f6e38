/-!
# Terminal palette

The codes that set colours and weights on a terminal. Where output is no terminal, or the user
asks for no colour by setting `NO_COLOR` to anything at all, every code is empty.
-/

namespace JsonShape

/-- The codes for status lines and headings. -/
structure Palette where
  red : String := ""
  green : String := ""
  cyan : String := ""
  bold : String := ""
  dim : String := ""
  reset : String := ""
deriving DecidableEq, Repr, Inhabited

namespace Palette

/-- No codes. -/
def plain : Palette := {}

/-- The codes of a colour terminal. -/
def ansi : Palette :=
  { red := "\x1b[91m"
    green := "\x1b[92m"
    cyan := "\x1b[96m"
    bold := "\x1b[1m"
    dim := "\x1b[2m"
    reset := "\x1b[0m" }

/-- Codes are wanted : output is a terminal and `NO_COLOR` is not set. -/
def isSupported (isTerminal noColorSet : Bool) : Bool :=
  isTerminal && !noColorSet

/-- The codes for an output. -/
def choose (isTerminal noColorSet : Bool) : Palette :=
  if isSupported isTerminal noColorSet then ansi else plain

/-- A heading. -/
def header (p : Palette) (s : String) : String :=
  p.bold ++ p.cyan ++ s ++ p.reset

/-- A remark. -/
def dimmed (p : Palette) (s : String) : String :=
  p.dim ++ s ++ p.reset

/-- An error line. -/
def alarm (p : Palette) (s : String) : String :=
  p.red ++ s ++ p.reset

/-- A success line. -/
def success (p : Palette) (s : String) : String :=
  p.green ++ s ++ p.reset

end Palette

end JsonShape
