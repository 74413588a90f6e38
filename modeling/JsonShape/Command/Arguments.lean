import JsonShape.Text.CharClass
import JsonShape.Text.UpperCase
import JsonShape.Value.Written

/-!
# Arguments of a command

A `Grammar` says which options and operand a command takes, and `Grammar.parse` reads arguments by
it. An option is named in full or by a beginning that no other option shares. A value follows its
option as the next argument, behind an equals sign, or directly behind a one-letter name. After
`--` every argument is an operand. Arguments that fit nowhere are kept as `extras`, since the
command around this one reports them. Reading stops at the first mistake, and where help or the
version is asked for.
-/

namespace JsonShape.Command

/-- What an option does. -/
inductive OptionKind where
  /-- Takes a value, one of `choices` unless that is empty, in upper case where `raised`. -/
  | value (choices : List String) (raised : Bool)
  | constant (v : Value)
  /-- True, or false by the name that starts with `--no-`. -/
  | switch
  | help
  | version
deriving Inhabited

/-- An option : its names, what its value is kept under, and what it does. -/
structure OptionRule where
  names : List String
  target : String
  kind : OptionKind
deriving Inhabited

namespace OptionRule

/-- The option in messages. -/
def title (r : OptionRule) : String :=
  String.intercalate "/" r.names

/-- The option takes a value. -/
def takesValue (r : OptionRule) : Bool :=
  match r.kind with
  | .value _ _ => true
  | _ => false

end OptionRule

/-- What a command takes besides options. -/
inductive Operand where
  /-- One argument or none. -/
  | optional
  /-- One of several commands, with all arguments behind it. -/
  | command (title : String) (names : List String)
  | nothing
deriving DecidableEq, Repr, Inhabited

/-- What a command takes. -/
structure Grammar where
  program : String
  rules : List OptionRule
  operand : Operand
deriving Inhabited

/-- Why reading stops. -/
inductive Stop where
  | help (program : String)
  | version
  | misuse (program message : String)
deriving DecidableEq, Repr, Inhabited

/-- What was read. -/
structure Arguments where
  /-- The values of options, in order. -/
  values : List (String × Value) := []
  /-- The operand, once it was looked for. -/
  operand : Option (List String) := none
  extras : List String := []
deriving Inhabited

/-- The value kept under a target : the last one given, null if there is none. -/
def Arguments.get (a : Arguments) (target : String) : Value :=
  (a.values.reverse.lookup target).getD .null

/-! ## Options among the arguments -/

/-- What stands behind an option's name in the same argument. -/
inductive Attached where
  | nothing
  /-- A text right behind a one-letter name : a value, or further one-letter options. -/
  | direct (text : String)
  /-- A text behind an equals sign. -/
  | assigned (text : String)
deriving DecidableEq, Repr, Inhabited

/-- What stands behind a one-letter name that is followed by `cs`. -/
def Attached.ofTail : List Char → Attached
  | [] => .nothing
  | '=' :: cs => .assigned (String.ofList cs)
  | cs => .direct (String.ofList cs)

/-- An argument that looks like an option : its rule if there is one, the name in full, and what
stands behind the name. -/
structure OptionMatch where
  rule : Option OptionRule
  name : String
  attached : Attached
deriving Inhabited

/-- What an argument is. -/
inductive Mark where
  | argument
  | separator
  | option (m : OptionMatch)
deriving Inhabited

/-- The characters before and behind the first equals sign. -/
def atEquals? (s : String) : Option (String × String) :=
  let cs := s.toList
  match cs.dropWhile (· != '=') with
  | _ :: rest => some (String.ofList (cs.takeWhile (· != '=')), String.ofList rest)
  | [] => none

/-- A minus with digits, and perhaps a point before the last of them. -/
def isNegativeNumber (s : String) : Bool :=
  match s.toList with
  | '-' :: rest =>
    let whole := rest.takeWhile Text.isAsciiDigit
    match rest.dropWhile Text.isAsciiDigit with
    | [] => !whole.isEmpty
    | '.' :: fraction => !fraction.isEmpty && fraction.all Text.isAsciiDigit
    | _ => false
  | _ => false

namespace Grammar

/-- Every name of an option, with its rule. -/
def names (g : Grammar) : List (String × OptionRule) :=
  g.rules.flatMap fun r => r.names.map fun n => (n, r)

/-- The rule of an option by its full name. -/
def rule? (g : Grammar) (name : String) : Option OptionRule :=
  g.names.lookup name

/-- A mistake in the arguments of this command. -/
def misuse (g : Grammar) (message : String) : Stop :=
  .misuse g.program message

/-- A mistake with an option. -/
def optionMisuse (g : Grammar) (r : OptionRule) (message : String) : Stop :=
  g.misuse ("argument " ++ r.title ++ ": " ++ message)

/-- The options that a shortened name may stand for. -/
def shortened (g : Grammar) (s : String) : List OptionMatch :=
  match s.toList with
  | '-' :: '-' :: _ =>
    let (start, attached) : String × Attached :=
      match atEquals? s with
      | some (start, v) => (start, .assigned v)
      | none => (s, .nothing)
    (g.names.filter fun e => e.1.startsWith start).map fun e => ⟨some e.2, e.1, attached⟩
  | '-' :: letter :: rest =>
    g.names.filterMap fun e =>
      if e.1 == String.ofList ['-', letter] then
        some ⟨some e.2, e.1, .direct (String.ofList rest)⟩
      else if e.1.startsWith s then some ⟨some e.2, e.1, .nothing⟩
      else none
  | _ => []

/-- The option that an argument is, if it is one. A lone hyphen, a negative number and a text with
a space are none, unless an option goes by that name. -/
def option? (g : Grammar) (s : String) : Except Stop (Option OptionMatch) :=
  match s.toList with
  | '-' :: rest =>
    match g.rule? s with
    | some r => .ok (some ⟨some r, s, .nothing⟩)
    | none =>
      if rest.isEmpty then .ok none
      else
        match (atEquals? s).bind fun (n, v) =>
          (g.rule? n).map fun r => (⟨some r, n, .assigned v⟩) with
        | some m => .ok (some m)
        | none =>
          match g.shortened s with
          | [m] => .ok (some m)
          | [] =>
            if isNegativeNumber s || s.toList.contains ' ' then .ok none
            else .ok (some ⟨none, s, .nothing⟩)
          | ms =>
            .error (g.misuse ("ambiguous option: " ++ s ++ " could match " ++
              Value.commaSeparated (ms.map OptionMatch.name)))
  | _ => .ok none

/-- The arguments with what they are. -/
def marked (g : Grammar) : List String → Except Stop (List (String × Mark))
  | [] => .ok []
  | s :: rest =>
    if s == "--" then .ok ((s, .separator) :: rest.map fun t => (t, .argument))
    else do
      let found ← g.option? s
      let more ← marked g rest
      match found with
      | some m => .ok ((s, .option m) :: more)
      | none => .ok ((s, .argument) :: more)

/-! ## Values of options -/

/-- One of several words was expected. -/
def choiceMessage (given : String) (choices : List String) : String :=
  "invalid choice: " ++ Text.quote given ++ " (choose from " ++
    Value.commaSeparated (choices.map Text.quote) ++ ")"

/-- The value of an option. -/
def optionValue (g : Grammar) (r : OptionRule) (s : String) : Except Stop Value :=
  match r.kind with
  | .value choices raised =>
    let v := if raised then Text.upper s else s
    if choices.isEmpty || choices.contains v then .ok (.text v)
    else .error (g.optionMisuse r (choiceMessage v choices))
  | _ => .ok (.text s)

/-- An option by the name it was given, with its value if it takes one. -/
def applyOption (g : Grammar) (a : Arguments) (r : OptionRule) (name : String)
    (given : Option String) : Except Stop Arguments :=
  let keep (v : Value) : Arguments := { a with values := a.values ++ [(r.target, v)] }
  match r.kind with
  | .help => .error (.help g.program)
  | .version => .error .version
  | .constant v => .ok (keep v)
  | .switch => .ok (keep (.bool (!name.startsWith "--no-")))
  | .value _ _ => do .ok (keep (← g.optionValue r (given.getD "")))

/-- An option to apply : its rule, the name used and the value given. -/
structure Use where
  rule : OptionRule
  name : String
  given : Option String := none

/-- What one argument asks for : the options to apply, a rest that is no option, and the arguments
that were not needed. -/
structure Uses where
  found : List Use
  extras : List String := []
  rest : List (String × Mark)

/-- The options in one argument and what follows it. One-letter options without values may share
an argument; a letter among them that is no option ends the reading of that argument, and what is
left of it is an extra. -/
def uses (g : Grammar) (rest : List (String × Mark)) :
    Nat → OptionRule → String → Attached → Except Stop Uses
  | 0, r, _, _ => .error (g.optionMisuse r "expected one argument")
  | fuel + 1, r, name, attached =>
    let ignored (v : String) : Except Stop Uses :=
      .error (g.optionMisuse r ("ignored explicit argument " ++ Text.quote v))
    if r.takesValue then
      match attached, rest with
      | .direct v, _ => .ok ⟨[⟨r, name, some v⟩], [], rest⟩
      | .assigned v, _ => .ok ⟨[⟨r, name, some v⟩], [], rest⟩
      | .nothing, (v, .argument) :: rest => .ok ⟨[⟨r, name, some v⟩], [], rest⟩
      | .nothing, _ => .error (g.optionMisuse r "expected one argument")
    else
      match attached with
      | .nothing => .ok ⟨[⟨r, name, none⟩], [], rest⟩
      | .assigned v => ignored v
      | .direct v =>
        match v.toList with
        | [] => ignored v
        | '-' :: _ => ignored v
        | letter :: tail =>
          let next := String.ofList ['-', letter]
          match g.rule? next with
          | none => .ok ⟨[⟨r, name, none⟩], ["-" ++ v], rest⟩
          | some r' => do
            let more ← uses g rest fuel r' next (.ofTail tail)
            .ok { more with found := ⟨r, name, none⟩ :: more.found }

/-! ## Operands -/

/-- The argument is an option. -/
def isOption (e : String × Mark) : Bool :=
  match e.2 with
  | .option _ => true
  | _ => false

/-- The argument is the separator. -/
def isSeparator (e : String × Mark) : Bool :=
  match e.2 with
  | .separator => true
  | _ => false

/-- The operand at the start of the arguments and what follows it : at most one argument with
separators around it, or a command with everything behind it. -/
def operandAt (g : Grammar) (items : List (String × Mark)) :
    Option (List String × List (String × Mark)) :=
  let lead := items.takeWhile isSeparator
  let body := items.dropWhile isSeparator
  match g.operand with
  | .nothing => none
  | .command _ _ => if body.isEmpty then none else some (items.map Prod.fst, [])
  | .optional =>
    match body with
    | (s, .argument) :: rest =>
      let tail := rest.takeWhile isSeparator
      some (((lead.map Prod.fst) ++ s :: tail.map Prod.fst).erase "--",
        rest.dropWhile isSeparator)
    | _ => some ((lead.map Prod.fst).erase "--", body)

/-! ## Parsing -/

/-- Reads on from a state. -/
def parseFrom (g : Grammar) : Nat → List (String × Mark) → Arguments → Except Stop Arguments
  | 0, _, a => .ok a
  | fuel + 1, items, a =>
    if !items.any isOption then
      match a.operand, g.operandAt items with
      | none, some (found, rest) =>
        .ok { a with operand := some found, extras := a.extras ++ rest.map Prod.fst }
      | _, _ => .ok { a with extras := a.extras ++ items.map Prod.fst }
    else
      match items with
      | (s, .option m) :: rest =>
        match m.rule with
        | none => g.parseFrom fuel rest { a with extras := a.extras ++ [s] }
        | some r => do
          let us ← g.uses rest (s.length + 1) r m.name m.attached
          let a ← us.found.foldlM (fun a u => g.applyOption a u.rule u.name u.given) a
          g.parseFrom fuel us.rest { a with extras := a.extras ++ us.extras }
      | _ =>
        match a.operand, g.operandAt items with
        | none, some (found, rest) => g.parseFrom fuel rest { a with operand := some found }
        | _, _ =>
          let skipped := items.takeWhile fun e => !isOption e
          g.parseFrom fuel (items.dropWhile fun e => !isOption e)
            { a with extras := a.extras ++ skipped.map Prod.fst }

/-- Reads the arguments of a command. -/
def parse (g : Grammar) (args : List String) : Except Stop Arguments := do
  let items ← g.marked args
  g.parseFrom (items.length + 1) items {}

/-- The command that the operand names, with its arguments; none where there is no operand. -/
def chosen (g : Grammar) (a : Arguments) : Except Stop (Option (String × List String)) :=
  match g.operand, a.operand with
  | .command title names, some (name :: rest) =>
    if names.contains name then .ok (some (name, rest))
    else .error (g.misuse ("argument " ++ title ++ ": " ++ choiceMessage name names))
  | _, _ => .ok none

end Grammar

end JsonShape.Command
