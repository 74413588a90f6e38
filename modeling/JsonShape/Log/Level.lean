import JsonShape.Text.UpperCase

/-!
# Log levels

A level is a whole number, and five of them have everyday names. `Level.name` names any level;
`Level.ofName?` reads a name in any case, with the three names that are only read : `NOTSET`,
`WARN` and `FATAL`.
-/

namespace JsonShape.Log

/-- Importance of a log entry. -/
abbrev Level := Int

namespace Level

def debug : Level := 10
def info : Level := 20
def warning : Level := 30
def error : Level := 40
def critical : Level := 50

/-- The levels with a name of their own, as they are written. -/
def named : List (Level × String) :=
  [(0, "NOTSET"), (debug, "DEBUG"), (info, "INFO"), (warning, "WARNING"), (error, "ERROR"),
    (critical, "CRITICAL")]

/-- How a level is written. -/
def name (l : Level) : String :=
  (named.lookup l).getD ("Level " ++ toString l)

/-- The level that a name in upper case stands for. -/
def ofUpperName? (s : String) : Option Level :=
  if s == "WARN" then some warning
  else if s == "FATAL" then some critical
  else (named.find? fun e => e.2 == s).map Prod.fst

/-- The level that a name in any case stands for. -/
def ofName? (s : String) : Option Level :=
  ofUpperName? (Text.upper s)

/-- The five names that settings and options accept. -/
def settingNames : List String :=
  ["DEBUG", "INFO", "WARNING", "ERROR", "CRITICAL"]

end Level

/-- One line of a log : its level, the part of the program it comes from, and what it says. -/
structure Entry where
  level : Level
  source : String
  message : String
deriving DecidableEq, Repr, Inhabited

end JsonShape.Log
