import JsonShape.Text.Letter
import JsonShape.Text.UpperCase
import JsonShape.Text.CharClass

/-!
# Identifiers of keys

A JSON key becomes an identifier in upper camel case. A character that is neither a letter nor an
ASCII digit separates words and is dropped; a digit is kept and starts a new word. The first letter
of a word takes its full upper-case form and the others stand as they are, so existing capitals
stay : `user_ID` becomes `UserID` and `foo1bar` becomes `Foo1Bar`.

The result may be empty or start with a digit; whether it can name a field is for each output
format to say.
-/

namespace JsonShape

open Text

/-- The identifier's characters, where `wordStart` says that the next letter opens a word. -/
def camelCase (wordStart : Bool) : List Char → List Char
  | [] => []
  | c :: rest =>
    if isLetter c then
      (if wordStart then upperChar c else [c]) ++ camelCase false rest
    else if isAsciiDigit c then c :: camelCase true rest
    else camelCase true rest

/-- The identifier that a key becomes. -/
def identifierOf (key : String) : String :=
  String.ofList (camelCase true key.toList)

end JsonShape
