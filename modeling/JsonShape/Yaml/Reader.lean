import JsonShape.Number.Reader
import JsonShape.Text.CharClass
import JsonShape.Value.Written
import JsonShape.Yaml.Base64
import JsonShape.Yaml.Node

/-!
# Values in YAML

`read` gives the value of the one document in a text, null if there is none. Scalars become values
by their tags. A mapping takes over the entries of the mappings under its merge keys; its own
entries win. Keys must be scalars. A collection may hold itself through an alias; where it is
shown inside itself an ellipsis stands for it.
-/

namespace JsonShape.Yaml

open Text (isAsciiDigit)
open NumberLiteral (digitsValue)

/-! ## Scalars -/

/-- The whole number that digits of a base are, within blanks and with a sign. -/
def intOfBase? (base : Nat) (cs : List Char) : Option Int :=
  let cs := (Text.trim (String.ofList cs)).toList
  let negative := cs.head? == some '-'
  let body := Tag.unsigned cs
  if body.isEmpty then none
  else
    (body.foldl (fun n c => do
      let d ← Json.hexValue? c
      if d < base then pure ((← n) * base + d) else none) (some 0)).map fun (n : Nat) =>
      if negative then -(n : Int) else n

/-- Digits in base ten, of which there may be only so many. -/
def intOfText? (cs : List Char) : Option Int :=
  if 4300 < (cs.filter isAsciiDigit).length then none else intOfBase? 10 cs

/-- Parts of sixty as one number. -/
def sixtiesValue (parts : List Int) : Int :=
  parts.foldl (fun n p => n * 60 + p) 0

/-- The text of a number without underscores. -/
def withoutMarks (s : String) : List Char :=
  s.toList.filter (· != '_')

/-- All values of a list, if each is there. -/
def allSome {α : Type} : List (Option α) → Option (List α)
  | [] => some []
  | none :: _ => none
  | some x :: rest => (allSome rest).map (x :: ·)

/-- The whole number that an unsigned text is. -/
def unsignedInt? (body : List Char) : Option Int :=
  match body with
  | ['0'] => some 0
  | '0' :: 'b' :: rest => intOfBase? 2 rest
  | '0' :: 'x' :: rest => intOfBase? 16 rest
  | '0' :: _ => intOfBase? 8 body
  | _ =>
    if body.contains ':' then
      (allSome ((body.splitOn ':').map intOfText?)).map sixtiesValue
    else intOfText? body

/-- The whole number that a text is. -/
def intValue (s : String) : Except Fault Value :=
  let cs := withoutMarks s
  let body := Tag.unsigned cs
  if body.isEmpty then .error .emptyNumber
  else
    match unsignedInt? body with
    | some n => .ok (.int (if cs.head? == some '-' then -n else n))
    | none => .error .badValue

/-- The sum of two floating-point numbers, rounded. -/
def addFloats (x y : Binary64) : Binary64 :=
  match x.toDecimal?, y.toDecimal? with
  | some a, some b =>
    let e := min a.exponent b.exponent
    let signed := fun (d : Decimal) =>
      (if d.negative then -1 else 1 : Int) *
        (d.coefficient * Nat.pow 10 (d.exponent - e).toNat : Nat)
    let n := signed a + signed b
    .ofDecimal ⟨n < 0, n.natAbs, e⟩
  | _, _ => .notANumber

/-- A floating-point number times a whole one, rounded. -/
def scaleFloat (x : Binary64) (n : Nat) : Binary64 :=
  match x.toDecimal? with
  | some a => .ofDecimal ⟨a.negative, a.coefficient * n, a.exponent⟩
  | none => x

/-- Parts of sixty as one number, the last part first. -/
def sixtiesFloat : List Binary64 → Nat → Binary64 → Binary64
  | [], _, sum => sum
  | x :: rest, base, sum => sixtiesFloat rest (base * 60) (addFloats sum (scaleFloat x base))

/-- The number with its sign turned. -/
def negateFloat : Binary64 → Binary64
  | .finite negative mantissa exponent => .finite (!negative) mantissa exponent
  | .infinite negative => .infinite (!negative)
  | .notANumber => .notANumber

/-- The floating-point number that characters within blanks are. -/
def floatOfText? (cs : List Char) : Option Binary64 :=
  Binary64.ofText? (Text.trim (String.ofList cs))

/-- The number with a point that a text is. -/
def floatValue (s : String) : Except Fault Value :=
  let cs := (withoutMarks s).map Char.toLower
  let body := Tag.unsigned cs
  let signed := fun x => if cs.head? == some '-' then negateFloat x else x
  if cs.isEmpty then .error .emptyNumber
  else if body == ".inf".toList then .ok (.float (signed (.infinite false)))
  else if body == ".nan".toList then .ok (.float .notANumber)
  else if body.contains ':' then
    match allSome ((body.splitOn ':').map floatOfText?) with
    | some parts =>
      .ok (.float (signed (sixtiesFloat parts.reverse 1 (.ofDecimal ⟨false, 0, 0⟩))))
    | none => .error .badValue
  else
    match floatOfText? body with
    | some x => .ok (.float (signed x))
    | none => .error .badValue

/-- The boolean that a text is. -/
def boolValue (s : String) : Except Fault Value :=
  let word := String.ofList (s.toList.map Char.toLower)
  if Tag.trueWords.contains word then .ok (.bool true)
  else if Tag.falseWords.contains word then .ok (.bool false)
  else .error (.notBoolean word)

/-- The bytes that a text is. -/
def binaryValue (s : String) : Except Fault Value :=
  if s.toList.any fun c => 0x7f < c.toNat then .error .malformed
  else
    match Base64.decode? s.toList with
    | some bs =>
      let written := Text.quoteBytes bs
      .ok (.foreign ⟨"bytes", written, written, bs.isEmpty⟩)
    | none => .error .malformed

/-- The date that a text is. -/
def timestampValue (s : String) : Except Fault Value :=
  match Timestamp.ofChars? s.toList with
  | none => .error .notTimestamp
  | some t =>
    if t.isValid then
      .ok (.foreign ⟨if t.time.isSome then "datetime" else "date", t.text, t.quoted, false⟩)
    else .error .badValue

/-- The value of a text with a tag. -/
def scalarValue (tag : Tag) (s : String) : Except Fault Value :=
  match tag with
  | .null => .ok .null
  | .bool => boolValue s
  | .int => intValue s
  | .float => floatValue s
  | .binary => binaryValue s
  | .timestamp => timestampValue s
  | .text => .ok (.text s)
  | _ => .error .malformed

/-! ## Aliases and merged entries -/

namespace Node

/-- Number of nodes. -/
def size : Node → Nat
  | .scalar _ _ => 1
  | .sequence _ items => 1 + sizes items
  | .mapping _ entries => 1 + entrySizes entries
  | .anchored _ n => 1 + size n
  | .alias _ => 1
where
  /-- Number of nodes of all items. -/
  sizes : List Node → Nat
    | [] => 0
    | n :: ns => size n + sizes ns
  /-- Number of nodes of all entries. -/
  entrySizes : List (Node × Node) → Nat
    | [] => 0
    | (k, v) :: rest => size k + size v + entrySizes rest

/-- The nodes with an anchor, by name. -/
def anchors : Node → List (String × Node)
  | .scalar _ _ => []
  | .sequence _ items => listAnchors items
  | .mapping _ entries => entryAnchors entries
  | .anchored name n => (name, n) :: anchors n
  | .alias _ => []
where
  /-- The anchors of all items. -/
  listAnchors : List Node → List (String × Node)
    | [] => []
    | n :: ns => anchors n ++ listAnchors ns
  /-- The anchors of all entries. -/
  entryAnchors : List (Node × Node) → List (String × Node)
    | [] => []
    | (k, v) :: rest => anchors k ++ anchors v ++ entryAnchors rest

/-- The name of a node, by its anchor or as an alias. -/
def name? : Node → Option String
  | .anchored name _ => some name
  | .alias name => some name
  | _ => none

/-- The node itself : without its anchor, and in place of an alias the node it stands for. -/
def resolve (env : List (String × Node)) : Node → Node
  | .alias name => ((env.lookup name).map bare).getD empty
  | n => n.bare

/-- The tag of a node. -/
def tag : Node → Tag
  | .scalar t _ => t
  | .sequence t _ => t
  | .mapping t _ => t
  | _ => .unknown

/-- The key of an entry whose entries are taken over. -/
def isMergeKey (env : List (String × Node)) (key : Node) : Bool :=
  (key.resolve env).tag == .merge

/-- The entries of a mapping with those it takes over before its own. A mapping that takes itself
over adds nothing. -/
def merged (env : List (String × Node)) :
    Nat → List String → List (Node × Node) → Except Fault (List (Node × Node))
  | 0, _, entries => .ok (entries.filter fun e => !isMergeKey env e.1)
  | fuel + 1, opened, entries => do
    let own := entries.filter fun e => !isMergeKey env e.1
    let of (n : Node) : Except Fault (List (Node × Node)) :=
      match n.resolve env with
      | .mapping _ es =>
        if (n.name?.map opened.contains).getD false then .ok []
        else merged env fuel (n.name?.toList ++ opened) es
      | _ => .error .malformed
    let taken ← (entries.filter fun e => isMergeKey env e.1).mapM fun e =>
      match e.2.resolve env with
      | .sequence _ items => do .ok ((← items.mapM of).reverse.flatten)
      | _ => of e.2
    .ok (taken.flatten ++ own)

/-- The text of a scalar, or of the value mark in a mapping that stands for one. -/
def scalarText? (env : List (String × Node)) : Nat → Node → Option String
  | 0, _ => none
  | fuel + 1, n =>
    match n.resolve env with
    | .scalar _ s => some s
    | .mapping _ entries =>
      match entries.find? fun e => (e.1.resolve env).tag == .value with
      | some e => scalarText? env fuel e.2
      | none => none
    | _ => none

/-! ## Checked documents -/

/-- The node becomes a collection. -/
def isCollection (n : Node) : Bool :=
  [Tag.sequence, .mapping, .set, .pairs].contains n.tag

/-- The value of a node that becomes no collection. -/
def scalarOf (env : List (String × Node)) (fuel : Nat) (n : Node) : Except Fault Value :=
  let node := n.resolve env
  match node.tag with
  | .merge | .value | .unknown => .error .malformed
  | tag =>
    match scalarText? env fuel node with
    | some s => scalarValue tag s
    | none => .error .malformed

/-- The value of a key : the value mark is a text there. -/
def keyOf (env : List (String × Node)) (fuel : Nat) (n : Node) : Except Fault Value :=
  match n.resolve env with
  | .scalar .value s => .ok (.text s)
  | node => if node.isCollection then .error .malformed else scalarOf env fuel node

/-- A node met on the way down : a scalar has its value, a collection waits for its turn. -/
def meet (env : List (String × Node)) (fuel : Nat) (n : Node) : Except Fault (List Node) :=
  if (n.resolve env).isCollection then .ok [n]
  else do
    let _ ← scalarOf env fuel n
    .ok []

/-- The nodes met inside a collection, which must be of the kind its tag says. -/
def inside (env : List (String × Node)) (fuel : Nat) (n : Node) : Except Fault (List Node) :=
  match n.resolve env with
  | .sequence .sequence items => do .ok ((← items.mapM (meet env fuel)).flatten)
  | .sequence .pairs items => do
    let met ← items.mapM fun item =>
      match item.resolve env with
      | .mapping _ [(k, v)] => do .ok ((← meet env fuel k) ++ (← meet env fuel v))
      | _ => .error .malformed
    .ok met.flatten
  | .mapping tag entries =>
    if tag == .mapping || tag == .set then do
      let all ← merged env fuel n.name?.toList entries
      let met ← all.mapM fun e => do
        let _ ← keyOf env fuel e.1
        meet env fuel e.2
      .ok met.flatten
    else .error .malformed
  | _ => .error .malformed

/-- The first fault, level by level. Each node with an anchor is looked into once. -/
def check (env : List (String × Node)) (size : Nat) :
    Nat → List String → List Node → Except Fault Unit
  | 0, _, _ => .ok ()
  | _, _, [] => .ok ()
  | fuel + 1, seen, n :: queue =>
    if (n.name?.map seen.contains).getD false then check env size fuel seen queue
    else do
      let met ← inside env size n
      check env size fuel (n.name?.toList ++ seen) (queue ++ met)

/-! ## Values -/

/-- A value that is shown inside itself. -/
def ellipsis (n : Node) : Value :=
  match n with
  | .mapping _ _ => .foreign ⟨"dict", "\x7b...\x7d", "\x7b...\x7d", false⟩
  | _ => .foreign ⟨"list", "[...]", "[...]", false⟩

/-- The distinct values of a set, as it is shown. -/
def setValue (items : List Value) : Value :=
  let written :=
    if items.isEmpty then "set()"
    else "\x7b" ++ Value.commaSeparated (items.map Value.quoted) ++ "\x7d"
  .foreign ⟨"set", written, written, items.isEmpty⟩

/-- The value of a node that passed the check. -/
def toValue (env : List (String × Node)) (size : Nat) : Nat → List String → Node → Value
  | 0, _, _ => .null
  | fuel + 1, opened, n =>
    let node := n.resolve env
    if (n.name?.map opened.contains).getD false && node.isCollection then ellipsis node
    else
      let opened' := n.name?.toList ++ opened
      let value := toValue env size fuel opened'
      let key := fun k =>
        match keyOf env size k with
        | .ok v => v
        | .error _ => .null
      let pair := fun (item : Node) =>
        match item.resolve env with
        | .mapping _ [(k, v)] => .tuple [value k, value v]
        | _ => Value.null
      match node with
      | .sequence .sequence items => .list (items.map value)
      | .sequence .pairs items => .list (items.map pair)
      | .mapping tag entries =>
        let all :=
          match merged env size n.name?.toList entries with
          | .ok es => es
          | .error _ => []
        if tag == .mapping then Value.ofEntries (all.map fun e => (key e.1, value e.2))
        else if tag == .set then
          match Value.ofEntries (all.map fun e => (key e.1, .null)) with
          | .object es => setValue (es.map Prod.fst)
          | v => v
        else ((scalarOf env size node).toOption).getD .null
      | _ => ((scalarOf env size node).toOption).getD .null

/-- The value of a document. -/
def value (n : Node) : Except Fault Value := do
  let env := n.anchors
  let size := n.size
  let met ← meet env (size + 1) n
  check env (size + 1) (size + 1) [] met
  .ok (toValue env (size + 1) ((env.length + 1) * (size + 1)) [] n)

end Node

/-- The value of the document in a text. -/
def read (text : String) : Except Fault Value := do
  match ← Node.ofTokens (← tokens text) with
  | none => .ok .null
  | some n => n.value

end JsonShape.Yaml
