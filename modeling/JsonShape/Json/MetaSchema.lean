import JsonShape.Json.Basic
import JsonShape.Pattern.Check
import JsonShape.Value.Written

/-!
# Valid schemas

A JSON Schema of draft 7 is a boolean or an object whose known keywords hold what the draft's own
schema asks for; other keywords are free. `Json.violation?` gives the first place where a tree
falls short of that.
-/

namespace JsonShape.Json

/-- How a tree falls short of a schema. -/
inductive Violation where
  /-- A keyword holds a value of the wrong type. -/
  | wrongType
  /-- A list that must not be empty is. -/
  | empty
  /-- A list of names holds one of them twice. -/
  | notUnique (names : List String)
  /-- A number lies outside the allowed ones. -/
  | outOfRange
  /-- A type name is none of the seven. -/
  | unknownType
  /-- A text that must be a regular expression is none. -/
  | notPattern (text : String)
deriving DecidableEq, Repr, Inhabited

/-- The violation in words. -/
def Violation.message : Violation → String
  | .wrongType => "value is not of the required type"
  | .empty => "[] should be non-empty"
  | .notUnique names =>
    (Value.list (names.map Value.text)).quoted ++ " has non-unique elements"
  | .outOfRange => "number is outside the allowed range"
  | .unknownType => "value is not one of the simple types"
  | .notPattern s => Text.quote s ++ " is not a 'regex'"

/-- What a keyword of a schema holds. -/
inductive KeywordForm where
  | text
  | pattern
  | flag
  | number
  | positiveNumber
  | count
  | list
  | names
  | types
  | schema
  | schemaList
  | schemaOrList
  | schemaMap
  | patternMap
  | dependencies

/-- The known keywords that are not free. -/
def keywordForms : List (String × KeywordForm) :=
  [("$id", .text), ("$schema", .text), ("$ref", .text), ("$comment", .text), ("title", .text),
    ("description", .text), ("readOnly", .flag), ("examples", .list),
    ("multipleOf", .positiveNumber), ("maximum", .number), ("exclusiveMaximum", .number),
    ("minimum", .number), ("exclusiveMinimum", .number), ("maxLength", .count),
    ("minLength", .count), ("pattern", .pattern), ("additionalItems", .schema),
    ("items", .schemaOrList), ("maxItems", .count), ("minItems", .count), ("uniqueItems", .flag),
    ("contains", .schema), ("maxProperties", .count), ("minProperties", .count),
    ("required", .names), ("additionalProperties", .schema), ("definitions", .schemaMap),
    ("properties", .schemaMap), ("patternProperties", .patternMap),
    ("dependencies", .dependencies), ("propertyNames", .schema), ("enum", .list),
    ("type", .types), ("format", .text), ("contentMediaType", .text),
    ("contentEncoding", .text), ("if", .schema), ("then", .schema), ("else", .schema),
    ("allOf", .schemaList), ("anyOf", .schemaList), ("oneOf", .schemaList), ("not", .schema)]

/-- The names of types. -/
def simpleTypes : List String :=
  ["array", "boolean", "integer", "null", "number", "object", "string"]

/-- Violation of a keyword that holds a text. -/
def textViolation? : Json → Option Violation
  | .string _ => none
  | _ => some .wrongType

/-- Violation of a text that is a regular expression. -/
def patternTextViolation? (s : String) : Option Violation :=
  if Pattern.isWellFormed s then none else some (.notPattern s)

/-- Violation of a keyword that holds a regular expression. -/
def patternViolation? : Json → Option Violation
  | .string s => patternTextViolation? s
  | _ => some .wrongType

/-- Violation of a keyword that holds a boolean. -/
def flagViolation? : Json → Option Violation
  | .bool _ => none
  | _ => some .wrongType

/-- Violation of a keyword that holds a number. -/
def numberViolation? : Json → Option Violation
  | .int _ | .float _ => none
  | _ => some .wrongType

/-- Violation of a keyword that holds a number above zero. -/
def positiveViolation? : Json → Option Violation
  | .int n => if 0 < n then none else some .outOfRange
  | .float (.finite negative mantissa _) =>
    if negative || mantissa == 0 then some .outOfRange else none
  | .float (.infinite negative) => if negative then some .outOfRange else none
  | .float .notANumber => none
  | _ => some .wrongType

/-- The floating-point number is whole. -/
def isWhole (mantissa : Nat) (exponent : Int) : Bool :=
  0 ≤ exponent || mantissa % Nat.pow 2 (-exponent).toNat == 0

/-- Violation of a keyword that holds a whole number not below zero. -/
def countViolation? : Json → Option Violation
  | .int n => if 0 ≤ n then none else some .outOfRange
  | .float (.finite negative mantissa exponent) =>
    if !isWhole mantissa exponent then some .wrongType
    else if negative && mantissa != 0 then some .outOfRange else none
  | _ => some .wrongType

/-- Violation of a keyword that holds a list of any items. -/
def listViolation? : Json → Option Violation
  | .array _ => none
  | _ => some .wrongType

/-- The texts of a list that holds nothing else. -/
def texts? : List Json → Option (List String)
  | [] => some []
  | .string s :: rest => (texts? rest).map (s :: ·)
  | _ :: _ => none

/-- Violation of a keyword that holds a list of different names. -/
def namesViolation? : Json → Option Violation
  | .array items =>
    match texts? items with
    | none => some .wrongType
    | some names => if names.eraseDups.length == names.length then none else some (.notUnique names)
  | _ => some .wrongType

/-- Violation of a keyword that holds one type or several different ones. -/
def typesViolation? : Json → Option Violation
  | .string s => if simpleTypes.contains s then none else some .unknownType
  | .array items =>
    match texts? items with
    | none => some .unknownType
    | some names =>
      if names.isEmpty then some .empty
      else if !names.all simpleTypes.contains then some .unknownType
      else if names.eraseDups.length == names.length then none
      else some (.notUnique names)
  | _ => some .unknownType

mutual

/-- Where a tree falls short of a schema. -/
def violation? : Json → Option Violation
  | .bool _ => none
  | .object entries => entriesViolation? entries
  | _ => some .wrongType

/-- The first violation among the keywords of a schema. -/
def entriesViolation? : List (String × Json) → Option Violation
  | [] => none
  | (name, value) :: rest =>
    let here : Option Violation :=
      match keywordForms.lookup name with
      | none => none
      | some .text => textViolation? value
      | some .pattern => patternViolation? value
      | some .flag => flagViolation? value
      | some .number => numberViolation? value
      | some .positiveNumber => positiveViolation? value
      | some .count => countViolation? value
      | some .list => listViolation? value
      | some .names => namesViolation? value
      | some .types => typesViolation? value
      | some .schema => violation? value
      | some .schemaList => schemaListViolation? value
      | some .schemaOrList => schemaOrListViolation? value
      | some .schemaMap => schemaMapViolation? value
      | some .patternMap => patternMapViolation? value
      | some .dependencies => dependenciesViolation? value
    here.or (entriesViolation? rest)

/-- Violation of a keyword that holds one schema or more in a list. -/
def schemaListViolation? : Json → Option Violation
  | .array items => if items.isEmpty then some .empty else schemasViolation? items
  | _ => some .wrongType

/-- Violation of a keyword that holds a schema or a list of them. -/
def schemaOrListViolation? : Json → Option Violation
  | .bool _ => none
  | .object entries => entriesViolation? entries
  | .array items => if items.isEmpty then some .empty else schemasViolation? items
  | _ => some .wrongType

/-- Violation of a keyword that holds schemas by name. -/
def schemaMapViolation? : Json → Option Violation
  | .object entries => namedSchemasViolation? entries
  | _ => some .wrongType

/-- Violation of a keyword that holds schemas by regular expression. -/
def patternMapViolation? : Json → Option Violation
  | .object entries =>
    (namedSchemasViolation? entries).or (entries.findSome? fun e => patternTextViolation? e.1)
  | _ => some .wrongType

/-- Violation of a keyword that holds schemas or lists of names, by name. -/
def dependenciesViolation? : Json → Option Violation
  | .object entries => namedDependenciesViolation? entries
  | _ => some .wrongType

/-- The first violation in a list of schemas. -/
def schemasViolation? : List Json → Option Violation
  | [] => none
  | item :: rest => (violation? item).or (schemasViolation? rest)

/-- The first violation in schemas by name. -/
def namedSchemasViolation? : List (String × Json) → Option Violation
  | [] => none
  | (_, value) :: rest => (violation? value).or (namedSchemasViolation? rest)

/-- The first violation in schemas or lists of names, by name. -/
def namedDependenciesViolation? : List (String × Json) → Option Violation
  | [] => none
  | (_, value) :: rest =>
    let here : Option Violation :=
      match namesViolation? value with
      | none => none
      | some v => (violation? value).map fun _ => v
    here.or (namedDependenciesViolation? rest)

end

end JsonShape.Json
