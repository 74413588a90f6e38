import JsonShape.Log.Level
import JsonShape.Render.Format
import JsonShape.Terminal.Highlight
import JsonShape.Text.CharClass

/-!
# Settings

Six settings steer a run. A settings file may put any value under a setting, so each holds a
`Value`, and `Settings.problem?` says what is wrong with the first one that cannot be used.
-/

namespace JsonShape

/-- The name of a setting. -/
inductive Setting where
  | outputFormat
  | colorMode
  | recordPrefix
  | optionalFields
  | coerceNumericStrings
  | logLevel
deriving DecidableEq, Repr, Inhabited

namespace Setting

/-- All settings, in the order in which they are shown. -/
def all : List Setting :=
  [.outputFormat, .colorMode, .recordPrefix, .optionalFields, .coerceNumericStrings, .logLevel]

/-- The key of a setting in a file. -/
def key : Setting → String
  | .outputFormat => "output_format"
  | .colorMode => "color_mode"
  | .recordPrefix => "record_prefix"
  | .optionalFields => "optional_fields"
  | .coerceNumericStrings => "coerce_numeric_strings"
  | .logLevel => "log_level"

/-- The setting of that key. -/
def ofKey? (k : String) : Option Setting :=
  all.find? fun s => s.key == k

/-- The environment variable of a setting. -/
def variableName : Setting → String
  | .outputFormat => "STRUCT_INFER_FORMAT"
  | .colorMode => "STRUCT_INFER_COLOR"
  | .recordPrefix => "STRUCT_INFER_RECORD_PREFIX"
  | .optionalFields => "STRUCT_INFER_OPTIONAL_FIELDS"
  | .coerceNumericStrings => "STRUCT_INFER_NUMERIC_STRINGS"
  | .logLevel => "STRUCT_INFER_LOG_LEVEL"

/-- All settings, in the order in which their variables are read and their values checked. -/
def checked : List Setting :=
  [.outputFormat, .colorMode, .optionalFields, .coerceNumericStrings, .recordPrefix, .logLevel]

end Setting

/-- A value for each setting. -/
structure Settings where
  outputFormat : Value := .text OutputFormat.go.name
  colorMode : Value := .text "auto"
  recordPrefix : Value := .text "S"
  optionalFields : Value := .bool false
  coerceNumericStrings : Value := .bool true
  logLevel : Value := .text (Log.Level.name Log.Level.warning)
deriving Inhabited

namespace Settings

/-- The value of a setting. -/
def get (s : Settings) : Setting → Value
  | .outputFormat => s.outputFormat
  | .colorMode => s.colorMode
  | .recordPrefix => s.recordPrefix
  | .optionalFields => s.optionalFields
  | .coerceNumericStrings => s.coerceNumericStrings
  | .logLevel => s.logLevel

/-- A setting set to a value. -/
def set (s : Settings) (k : Setting) (v : Value) : Settings :=
  match k with
  | .outputFormat => { s with outputFormat := v }
  | .colorMode => { s with colorMode := v }
  | .recordPrefix => { s with recordPrefix := v }
  | .optionalFields => { s with optionalFields := v }
  | .coerceNumericStrings => { s with coerceNumericStrings := v }
  | .logLevel => { s with logLevel := v }

/-- The settings with their keys, in the order in which they are shown. -/
def entries (s : Settings) : List (String × Value) :=
  Setting.all.map fun k => (k.key, s.get k)

/-! ## Usable values -/

/-- The value can be used for the setting. -/
def isUsable (k : Setting) (v : Value) : Bool :=
  match k, v with
  | .outputFormat, .text s => (OutputFormat.ofName? s).isSome
  | .colorMode, .text s => Highlight.modes.contains s
  | .recordPrefix, .text s => Text.isIdentifier s
  | .optionalFields, .bool _ => true
  | .coerceNumericStrings, .bool _ => true
  | .logLevel, .text s => Log.Level.settingNames.contains (Text.upper s)
  | _, _ => false

/-- What is said of a value that cannot be used. -/
def complaint : Setting → String
  | .outputFormat => "Unsupported output format"
  | .colorMode => "Unknown color mode"
  | .recordPrefix => "Record prefix must be an identifier"
  | .optionalFields => "Expected a boolean"
  | .coerceNumericStrings => "Expected a boolean"
  | .logLevel => "Unknown log level"

/-- The report on a value that cannot be used. -/
def problem (k : Setting) (v : Value) : Report :=
  .configuration (complaint k) (.text k.key) v

/-- The report on the first value that cannot be used. -/
def problem? (s : Settings) : Option Report :=
  (Setting.checked.find? fun k => !isUsable k (s.get k)).map fun k => problem k (s.get k)

/-- Settings whose values can all be used, or the report on the first that cannot. -/
def validated (s : Settings) : Except Report Settings :=
  match s.problem? with
  | some r => .error r
  | none => .ok s

/-! ## Changes -/

/-- Values set one after the other; null leaves a setting as it is. -/
def override (s : Settings) (values : List (Setting × Value)) : Settings :=
  values.foldl (fun s e =>
    match e.2 with
    | .null => s
    | v => s.set e.1 v) s

/-- The words for true and false in a variable. -/
def boolWords : List (String × Bool) :=
  [("true", true), ("1", true), ("yes", true), ("on", true), ("false", false), ("0", false),
    ("no", false), ("off", false)]

/-- The boolean that a text within blanks is, in any case. Letters beyond ASCII are in none of
the words, so lowering those of ASCII is enough. -/
def boolOfText? (s : String) : Option Bool :=
  boolWords.lookup (String.ofList ((Text.trim s).toList.map Char.toLower))

/-- The value of a setting after its variable was found to be a text. Where the value is a boolean
the text must be one. -/
def readVariable (k : Setting) (current : Value) (s : String) : Except Report Value :=
  match current with
  | .bool _ =>
    match boolOfText? s with
    | some b => .ok (.bool b)
    | none => .error (.configuration "Expected a boolean" (.text k.variableName) (.text s))
  | _ => .ok (.text s)

/-- The settings after some variables. -/
def applyVariables (lookup : String → Option String) :
    List Setting → Settings → Except Report Settings
  | [], s => .ok s
  | k :: ks, s =>
    match lookup k.variableName with
    | none => applyVariables lookup ks s
    | some text =>
      match readVariable k (s.get k) text with
      | .error r => .error r
      | .ok v => applyVariables lookup ks (s.set k v)

/-! ## Use -/

/-- The text of a value that is one. -/
def textOf : Value → String
  | .text s => s
  | v => v.shown

/-- The options of inference that the settings give. -/
def options (s : Settings) : Options :=
  { optionalFields := !Report.isFalsy s.optionalFields
    coerceNumericStrings := !Report.isFalsy s.coerceNumericStrings
    recordPrefix := textOf s.recordPrefix }

end Settings

end JsonShape
