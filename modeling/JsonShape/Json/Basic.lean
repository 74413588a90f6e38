import JsonShape.Number.Binary64

/-!
# JSON trees

`Json` is a JSON text as a tree. The entries of an object are in the order in which their names
first appeared, and a name that is set again keeps its place and takes the new value.
-/

namespace JsonShape

/-- A JSON tree. -/
inductive Json where
  | null
  | bool (b : Bool)
  | int (n : Int)
  | float (x : Binary64)
  | string (s : String)
  | array (items : List Json)
  | object (entries : List (String × Json))
deriving Inhabited

namespace Json

/-- Sets an entry : a name that is there keeps its place, a new one comes last. -/
def setEntry (entries : List (String × Json)) (name : String) (value : Json) :
    List (String × Json) :=
  if entries.any fun e => e.1 == name then
    entries.map fun e => if e.1 == name then (name, value) else e
  else entries ++ [(name, value)]

/-- The entries with every one of `more` set in order. -/
def setEntries (entries more : List (String × Json)) : List (String × Json) :=
  more.foldl (fun acc e => setEntry acc e.1 e.2) entries

/-- The object with the given entries, set in order. -/
def ofEntries (entries : List (String × Json)) : Json :=
  .object (setEntries [] entries)

/-- The value under a name. -/
def get? : Json → String → Option Json
  | .object entries, name => entries.lookup name
  | _, _ => none

end Json

end JsonShape
