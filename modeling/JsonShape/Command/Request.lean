import JsonShape.Command.Arguments
import JsonShape.Settings.Basic

/-!
# Requests

What the user can ask for on the command line : declarations for some input, the settings in
effect, or a new settings file. `readRequest` reads a command line. Arguments that start with no
command belong to `generate`.
-/

namespace JsonShape.Command

/-- Declarations for some input. -/
structure Generation where
  input : String
  settingsFile : Value
  output : Value
  logFile : Value
  /-- Settings given as options; null is not given. -/
  overrides : List (Setting × Value)
deriving Inhabited

/-- What the user asks for. -/
inductive Request where
  | generate (g : Generation)
  | showSettings (settingsFile : Value)
  | initSettings (path : String) (force : Bool)
  /-- Settings, without saying what is to be done with them. -/
  | noAction
deriving Inhabited

/-! ## Grammars -/

/-- Name of the program. -/
def programName : String := "struct-infer"

/-- What the program says of its version. -/
def versionText : String := programName ++ " 0.1.0"

/-- The option that asks for help. -/
def helpRule : OptionRule := ⟨["-h", "--help"], "help", .help⟩

/-- An option with any value, by its names. -/
def valueRule (names : List String) (target : String) : OptionRule :=
  ⟨names, target, .value [] false⟩

/-- Arguments of the program. -/
def programGrammar : Grammar :=
  { program := programName
    rules := [helpRule, ⟨["--version"], "version", .version⟩]
    operand := .command "\x7bgenerate,config\x7d" ["generate", "config"] }

/-- Arguments of `generate`. -/
def generateGrammar : Grammar :=
  { program := programName ++ " generate"
    rules :=
      [helpRule,
        ⟨["--format"], "format", .value (OutputFormat.all.map OutputFormat.name) false⟩,
        valueRule ["--output", "-o"] "output",
        ⟨["--color"], "color", .value Highlight.modes false⟩,
        ⟨["--no-color"], "color", .constant (.text "never")⟩,
        ⟨["--optional-fields", "--no-optional-fields"], "optional-fields", .switch⟩,
        ⟨["--numeric-strings", "--no-numeric-strings"], "numeric-strings", .switch⟩,
        valueRule ["--record-prefix"] "record-prefix",
        valueRule ["--config"] "config",
        ⟨["--log-level"], "log-level", .value Log.Level.settingNames true⟩,
        valueRule ["--log-file"] "log-file"]
    operand := .optional }

/-- Arguments of `config`. -/
def configGrammar : Grammar :=
  { program := programName ++ " config"
    rules := [helpRule]
    operand := .command "\x7bshow,init\x7d" ["show", "init"] }

/-- Arguments of `config show`. -/
def showGrammar : Grammar :=
  { program := programName ++ " config show"
    rules := [helpRule, valueRule ["--config"] "config"]
    operand := .nothing }

/-- Arguments of `config init`. -/
def initGrammar : Grammar :=
  { program := programName ++ " config init"
    rules := [helpRule, ⟨["--force"], "force", .constant (.bool true)⟩]
    operand := .optional }

/-! ## Reading -/

/-- The only operand, or what stands for it where none is given. -/
def operandOr (a : Arguments) (usual : String) : String :=
  ((a.operand.bind List.head?).getD usual)

/-- The request that the arguments of `generate` make. -/
def generation (a : Arguments) : Request :=
  .generate
    { input := operandOr a "-"
      settingsFile := a.get "config"
      output := a.get "output"
      logFile := a.get "log-file"
      overrides :=
        [(.outputFormat, a.get "format"), (.colorMode, a.get "color"),
          (.optionalFields, a.get "optional-fields"),
          (.coerceNumericStrings, a.get "numeric-strings"),
          (.recordPrefix, a.get "record-prefix"), (.logLevel, a.get "log-level")] }

/-- The request that the arguments of `config` make, and the arguments that fit nowhere. -/
def settingsRequest (args : List String) : Except Stop (Request × List String) := do
  let a ← configGrammar.parse args
  match ← configGrammar.chosen a with
  | some ("show", rest) =>
    let b ← showGrammar.parse rest
    .ok (.showSettings (b.get "config"), a.extras ++ b.extras)
  | some (_, rest) =>
    let b ← initGrammar.parse rest
    .ok (.initSettings (operandOr b "struct-infer.yml") (!Report.isFalsy (b.get "force")),
      a.extras ++ b.extras)
  | none => .ok (.noAction, a.extras)

/-- The words that a command line can start with; before any other `generate` is understood. -/
def leadingWords : List String :=
  ["generate", "config", "-h", "--help", "--version"]

/-- The command line with its command. -/
def withCommand (args : List String) : List String :=
  match args with
  | [] => ["generate"]
  | first :: _ => if leadingWords.contains first then args else "generate" :: args

/-- The request that a command line makes, if it names a command. -/
def readRequest (args : List String) : Except Stop (Option Request) := do
  let a ← programGrammar.parse (withCommand args)
  let (request, extras) ←
    match ← programGrammar.chosen a with
    | some ("config", rest) => do
      let (request, extras) ← settingsRequest rest
      .ok (some request, extras)
    | some (_, rest) => do
      let b ← generateGrammar.parse rest
      .ok (some (generation b), b.extras)
    | none => .ok (none, a.extras)
  if extras.isEmpty then .ok request
  else .error (programGrammar.misuse ("unrecognized arguments: " ++ String.intercalate " " extras))

end JsonShape.Command
