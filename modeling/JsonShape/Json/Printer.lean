import JsonShape.Json.Basic
import JsonShape.Text.Quoted

/-!
# Printed JSON

`Json.print` lays a tree out over lines, two spaces to a level, every item and entry on a line of
its own and empty containers on one. Characters stand for themselves, except for the quote, the
backslash and controls. `Json.asciiString` writes one string with every character outside
printable ASCII as a code of sixteen bits, or as two such codes.
-/

namespace JsonShape.Json

open Text (hexDigits)

/-- The escape of a character that has a letter for it. -/
def letterEscape : Char → Option Char
  | '"' => some '"'
  | '\\' => some '\\'
  | '\n' => some 'n'
  | '\r' => some 'r'
  | '\t' => some 't'
  | '\x0c' => some 'f'
  | '\x08' => some 'b'
  | _ => none

/-- A sixteen-bit code. -/
def codeEscape (n : Nat) : List Char :=
  '\\' :: 'u' :: hexDigits 4 n

/-- One character of a printed string. -/
def printChar (c : Char) : List Char :=
  match letterEscape c with
  | some l => ['\\', l]
  | none => if c.toNat < 0x20 then codeEscape c.toNat else [c]

/-- A printed string. -/
def printString (s : String) : String :=
  String.ofList ('"' :: s.toList.flatMap printChar ++ ['"'])

/-- One character of a string in printable ASCII. -/
def asciiChar (c : Char) : List Char :=
  match letterEscape c with
  | some l => ['\\', l]
  | none =>
    if 0x20 ≤ c.toNat ∧ c.toNat ≤ 0x7E then [c]
    else if c.toNat < 0x10000 then codeEscape c.toNat
    else
      codeEscape (0xD800 + (c.toNat - 0x10000) / 0x400) ++
        codeEscape (0xDC00 + (c.toNat - 0x10000) % 0x400)

/-- A string in printable ASCII. -/
def asciiString (s : String) : String :=
  String.ofList ('"' :: s.toList.flatMap asciiChar ++ ['"'])

/-- A line break and the spaces of a level. -/
def lineBreak (level : Nat) : String :=
  "\n" ++ String.ofList (List.replicate (2 * level) ' ')

/-- The parts of a container, each on a line of its own, between its brackets. -/
def bracketed (level : Nat) (opening closing : String) (parts : List String) : String :=
  if parts.isEmpty then opening ++ closing
  else
    opening ++ lineBreak (level + 1) ++
      String.intercalate ("," ++ lineBreak (level + 1)) parts ++ lineBreak level ++ closing

mutual

/-- The tree at a level of indentation. -/
def printAt (level : Nat) : Json → String
  | .null => "null"
  | .bool b => if b then "true" else "false"
  | .int n => toString n
  | .float x => x.text
  | .string s => printString s
  | .array items => bracketed level "[" "]" (printItems (level + 1) items)
  | .object entries => bracketed level "\x7b" "\x7d" (printEntries (level + 1) entries)

/-- The items of an array. -/
def printItems (level : Nat) : List Json → List String
  | [] => []
  | item :: rest => printAt level item :: printItems level rest

/-- The entries of an object. -/
def printEntries (level : Nat) : List (String × Json) → List String
  | [] => []
  | (name, value) :: rest =>
    (printString name ++ ": " ++ printAt level value) :: printEntries level rest

end

/-- The tree laid out over lines. -/
def print (j : Json) : String :=
  printAt 0 j

end JsonShape.Json
