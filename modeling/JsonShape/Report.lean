import JsonShape.Value.Written

/-!
# Reports

A `Report` is a failure as the user sees it : a sentence, followed by details in parentheses as
`(key=value, ...)`. Reports of a particular kind leave out details that were not given, which are
null and the empty text. `Kind.parent` orders the kinds : a report of one kind is also one of its
parent.
-/

namespace JsonShape

/-- What a report is about. -/
inductive Report.Kind where
  | general
  /-- Input that could not be decoded. -/
  | parse
  /-- Input that is not valid or not complete. -/
  | dataFormat
  /-- Input without a single document. -/
  | noInput
  /-- A setting from a file, the environment or an option that is not valid. -/
  | configuration
  /-- Reading or writing a file. -/
  | fileOperation
  /-- A declaration that cannot be written in the output format. -/
  | render
  /-- A command that cannot be run as it was given. -/
  | command
  /-- An argument that is missing or in conflict with the files there are. -/
  | argument
deriving DecidableEq, Repr, Inhabited

/-- The kind that a kind belongs to. -/
def Report.Kind.parent : Report.Kind → Option Report.Kind
  | .general => none
  | .dataFormat => some .parse
  | .argument => some .command
  | _ => some .general

/-- A failure with its sentence and its details. -/
structure Report where
  kind : Report.Kind
  message : String
  details : List (String × Value)
deriving Inhabited

namespace Report

/-- Whether a detail was given : null and the empty text count as not given. -/
def isGiven : Value → Bool
  | .null => false
  | .text s => s != ""
  | _ => true

/-- A report that keeps the details that were given. -/
def withGiven (kind : Kind) (message : String) (details : List (String × Value)) : Report :=
  ⟨kind, message, details.filter fun d => isGiven d.2⟩

/-- Values that count as false : null, false, zero and what is empty. -/
def isFalsy : Value → Bool
  | .null => true
  | .bool b => !b
  | .int n => n == 0
  | .decimal d => d.coefficient == 0
  | .float (.finite _ mantissa _) => mantissa == 0
  | .text s => s == ""
  | .list items => items.isEmpty
  | .tuple items => items.isEmpty
  | .object entries => entries.isEmpty
  | .foreign f => f.isEmpty
  | _ => false

/-- Input that could not be decoded; line zero is no line. -/
def input (kind : Kind) (message : String) (path line : Value) : Report :=
  withGiven kind message
    [("file_path", path), ("line_number", if isFalsy line then .null else line)]

/-- Input without documents. -/
def noInput (message : String) (source : Value) : Report :=
  withGiven .noInput message [("source", source)]

/-- What is said when the input holds no document. -/
def noData : String := "no JSON data"

/-- A setting that is not valid. -/
def configuration (message : String) (key value : Value) : Report :=
  withGiven .configuration message [("config_key", key), ("config_value", value)]

/-- A file that could not be read or written. -/
def fileOperation (message : String) (path operation : Value) : Report :=
  withGiven .fileOperation message [("file_path", path), ("operation", operation)]

/-- A declaration that cannot be written; the identifier is quoted, so an empty one shows. -/
def render (message : String) (format identifier : Value) : Report :=
  withGiven .render message
    [("target_format", format),
      ("identifier", match identifier with
        | .null => .null
        | v => .text v.quoted)]

/-- An argument that is not valid. -/
def argument (message : String) (name value : Value) : Report :=
  withGiven .argument message [("argument", name), ("value", value)]

/-- Details as they stand in the parentheses. -/
def detailsText (details : List (String × Value)) : String :=
  Value.commaSeparated (details.map fun d => d.1 ++ "=" ++ d.2.shown)

/-- The report as one line. -/
def text (r : Report) : String :=
  if r.details.isEmpty then r.message
  else r.message ++ " (" ++ detailsText r.details ++ ")"

/-- The kinds a report belongs to, its own first. -/
def kinds (r : Report) : List Kind :=
  match r.kind.parent with
  | none => [r.kind]
  | some p =>
    match p.parent with
    | none => [r.kind, p]
    | some q => [r.kind, p, q]

end Report

end JsonShape
