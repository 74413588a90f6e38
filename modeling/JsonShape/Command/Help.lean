import JsonShape.Command.Request

/-!
# Help

`helpText` says which arguments a command takes, read off its `Grammar`.
-/

namespace JsonShape.Command

/-- What an option's value is called : its choices, or its target in capitals. -/
def OptionRule.valueText (r : OptionRule) : String :=
  match r.kind with
  | .value [] _ => " " ++ Text.upper r.target
  | .value choices _ => " \x7b" ++ String.intercalate "," choices ++ "\x7d"
  | _ => ""

/-- The line of an option. -/
def OptionRule.helpLine (r : OptionRule) : String :=
  "  " ++ String.intercalate ", " r.names ++ r.valueText ++ "\n"

/-- What stands for the operand on the usage line. -/
def Operand.helpText : Operand → String
  | .optional => " [path]"
  | .command title _ => " " ++ title ++ " ..."
  | .nothing => ""

/-- The help of a command. -/
def Grammar.helpText (g : Grammar) : String :=
  "usage: " ++ g.program ++ " [options]" ++ g.operand.helpText ++ "\n\noptions:\n" ++
    String.join (g.rules.map OptionRule.helpLine)

/-- The commands. -/
def grammars : List Grammar :=
  [programGrammar, generateGrammar, configGrammar, showGrammar, initGrammar]

/-- The help of a command by its name. -/
def helpText (program : String) : String :=
  ((grammars.find? fun g => g.program == program).getD programGrammar).helpText

end JsonShape.Command
