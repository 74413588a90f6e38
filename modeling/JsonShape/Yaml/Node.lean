import JsonShape.Yaml.Tag
import JsonShape.Yaml.Token

/-!
# Nodes

A YAML document is a tree of nodes : scalars, sequences and mappings, each with a tag, and aliases
for nodes that bear an anchor earlier in the document. `Node.ofTokens` builds the one document of
a text from its tokens, by one function for each kind of node. An anchor is used once, and an
alias follows its anchor.
-/

namespace JsonShape.Yaml

/-- A node of a document. -/
inductive Node where
  | scalar (tag : Tag) (text : String)
  | sequence (tag : Tag) (items : List Node)
  | mapping (tag : Tag) (entries : List (Node × Node))
  /-- A node with an anchor. -/
  | anchored (name : String) (node : Node)
  | alias (name : String)
deriving Inhabited

namespace Node

/-- The node without its anchor. -/
def bare : Node → Node
  | .anchored _ n => bare n
  | n => n

/-- The node that stands where nothing is written. -/
def empty : Node := .scalar .null ""

/-- What is left of the tokens, the anchors so far, and what the handles of tags stand for. -/
structure Feed where
  tokens : List Token
  anchors : List String := []
  handles : List (String × String)

namespace Feed

/-- The next token. -/
def next? (f : Feed) : Option Token := f.tokens.head?

/-- One token on. -/
def step (f : Feed) : Feed := { f with tokens := f.tokens.drop 1 }

/-- One of the tokens comes next. -/
def at? (f : Feed) (ts : List Token) : Bool :=
  (f.next?.map ts.contains).getD false

/-- Past a token that must come next. -/
def pass (f : Feed) (t : Token) : Except Fault Feed :=
  if f.next? == some t then .ok f.step else .error .malformed

/-- An anchor noted; it must be new. -/
def note (f : Feed) (name : String) : Except Fault Feed :=
  if f.anchors.contains name then .error .malformed
  else .ok { f with anchors := f.anchors ++ [name] }

end Feed

/-- The tag and the anchor of a node; the tag `!` stands for any. -/
structure Properties where
  anchor : Option String := none
  tag : Option String := none

/-- The tag that is written, if the next token is one. -/
def writtenTag (f : Feed) : Except Fault (Option String × Feed) :=
  match f.next? with
  | some (.tag none suffix) => .ok (some suffix, f.step)
  | some (.tag (some handle) suffix) =>
    match f.handles.lookup handle with
    | some meant => .ok (some (meant ++ suffix), f.step)
    | none => .error .malformed
  | _ => .ok (none, f)

/-- The anchor that is written, if the next token is one. -/
def writtenAnchor (f : Feed) : Except Fault (Option String × Feed) :=
  match f.next? with
  | some (.anchor name) => do .ok (some name, ← f.step.note name)
  | _ => .ok (none, f)

/-- Anchor and tag in either order. -/
def properties (f : Feed) : Except Fault (Properties × Feed) := do
  let (anchor, f) ← writtenAnchor f
  let (tag, f) ← writtenTag f
  match anchor with
  | some _ => .ok (⟨anchor, tag⟩, f)
  | none =>
    let (anchor, f) ← writtenAnchor f
    .ok (⟨anchor, tag⟩, f)

namespace Properties

/-- The node has neither anchor nor tag. -/
def isNone (p : Properties) : Bool :=
  p.anchor.isNone && p.tag.isNone

/-- The node with the anchor. -/
def name (p : Properties) (n : Node) : Node :=
  match p.anchor with
  | some a => .anchored a n
  | none => n

/-- The tag of a collection, with the one it has by default. -/
def collectionTag (p : Properties) (usual : Tag) : Tag :=
  match p.tag with
  | none | some "!" => usual
  | some t => Tag.ofText t

/-- The scalar of a text. A plain one without a tag, and any with the tag `!`, shows by its text
what it is. -/
def scalar (p : Properties) (text : String) (isPlain : Bool) : Node :=
  let tag := match p.tag with
    | none => if isPlain then Tag.ofPlain text else .text
    | some "!" => Tag.ofPlain text
    | some t => Tag.ofText t
  p.name (.scalar tag text)

end Properties

mutual

/-- A node. In a block it may be a block collection, and as key or value of a block mapping also a
sequence that is not indented. -/
def node (inBlock flat : Bool) : Nat → Feed → Except Fault (Node × Feed)
  | 0, _ => .error .malformed
  | fuel + 1, f =>
    match f.next? with
    | some (.alias name) =>
      if f.anchors.contains name then .ok (.alias name, f.step) else .error .malformed
    | _ => do
      let (p, f) ← properties f
      match f.next? with
      | some (.scalar text isPlain) => .ok (p.scalar text isPlain, f.step)
      | some .flowSequenceStart =>
        let (items, f) ← flowItems true fuel f.step
        .ok (p.name (.sequence (p.collectionTag .sequence) items), f)
      | some .flowMappingStart =>
        let (entries, f) ← flowEntries true fuel f.step
        .ok (p.name (.mapping (p.collectionTag .mapping) entries), f)
      | some t =>
        if t == .item && flat then
          let (items, f) ← flatItems fuel f
          .ok (p.name (.sequence (p.collectionTag .sequence) items), f)
        else if t == .sequenceStart && inBlock then
          let (items, f) ← blockItems fuel f.step
          .ok (p.name (.sequence (p.collectionTag .sequence) items), f)
        else if t == .mappingStart && inBlock then
          let (entries, f) ← blockEntries fuel f.step
          .ok (p.name (.mapping (p.collectionTag .mapping) entries), f)
        else if p.isNone then .error .malformed
        else .ok (p.scalar "" true, f)
      | none => if p.isNone then .error .malformed else .ok (p.scalar "" true, f)

/-- A node, or the empty one where one of the tokens comes next. -/
def nodeUnless (stops : List Token) (inBlock flat : Bool) :
    Nat → Feed → Except Fault (Node × Feed)
  | 0, _ => .error .malformed
  | fuel + 1, f => if f.at? stops then .ok (empty, f) else node inBlock flat fuel f

/-- The items of a block sequence, up to its end. -/
def blockItems : Nat → Feed → Except Fault (List Node × Feed)
  | 0, _ => .error .malformed
  | fuel + 1, f =>
    if f.next? == some .item then do
      let (n, f) ← nodeUnless [.item, .blockEnd] true false fuel f.step
      let (rest, f) ← blockItems fuel f
      .ok (n :: rest, f)
    else do
      .ok ([], ← f.pass .blockEnd)

/-- The items of a sequence that is not indented. -/
def flatItems : Nat → Feed → Except Fault (List Node × Feed)
  | 0, _ => .error .malformed
  | fuel + 1, f =>
    if f.next? == some .item then do
      let (n, f) ← nodeUnless [.item, .key, .value, .blockEnd] true false fuel f.step
      let (rest, f) ← flatItems fuel f
      .ok (n :: rest, f)
    else .ok ([], f)

/-- The entries of a block mapping, up to its end. -/
def blockEntries : Nat → Feed → Except Fault (List (Node × Node) × Feed)
  | 0, _ => .error .malformed
  | fuel + 1, f =>
    if f.next? == some .key then do
      let (k, f) ← nodeUnless [.key, .value, .blockEnd] true true fuel f.step
      let (v, f) ←
        if f.next? == some .value then
          nodeUnless [.key, .value, .blockEnd] true true fuel f.step
        else .ok (empty, f)
      let (rest, f) ← blockEntries fuel f
      .ok ((k, v) :: rest, f)
    else do
      .ok ([], ← f.pass .blockEnd)

/-- The items of a sequence in brackets, with a comma between them. A pair with a colon is a
mapping of its own. -/
def flowItems (isFirst : Bool) : Nat → Feed → Except Fault (List Node × Feed)
  | 0, _ => .error .malformed
  | fuel + 1, f =>
    if f.next? == some .flowSequenceEnd then .ok ([], f.step)
    else do
      let f ← if isFirst then .ok f else f.pass .comma
      if f.next? == some .flowSequenceEnd then .ok ([], f.step)
      else if f.next? == some .key then
        let (k, f) ← nodeUnless [.value, .comma, .flowSequenceEnd] false false fuel f.step
        let (v, f) ←
          if f.next? == some .value then
            nodeUnless [.comma, .flowSequenceEnd] false false fuel f.step
          else .ok (empty, f)
        let (rest, f) ← flowItems false fuel f
        .ok (.mapping .mapping [(k, v)] :: rest, f)
      else
        let (n, f) ← node false false fuel f
        let (rest, f) ← flowItems false fuel f
        .ok (n :: rest, f)

/-- The entries of a mapping in braces, with a comma between them. A node without a colon is a key
with the empty value. -/
def flowEntries (isFirst : Bool) : Nat → Feed → Except Fault (List (Node × Node) × Feed)
  | 0, _ => .error .malformed
  | fuel + 1, f =>
    if f.next? == some .flowMappingEnd then .ok ([], f.step)
    else do
      let f ← if isFirst then .ok f else f.pass .comma
      if f.next? == some .flowMappingEnd then .ok ([], f.step)
      else if f.next? == some .key then
        let (k, f) ← nodeUnless [.value, .comma, .flowMappingEnd] false false fuel f.step
        let (v, f) ←
          if f.next? == some .value then
            nodeUnless [.comma, .flowMappingEnd] false false fuel f.step
          else .ok (empty, f)
        let (rest, f) ← flowEntries false fuel f
        .ok ((k, v) :: rest, f)
      else
        let (k, f) ← node false false fuel f
        let (rest, f) ← flowEntries false fuel f
        .ok ((k, empty) :: rest, f)

end

/-! ## Documents -/

/-- What the handles of tags stand for unless a directive says otherwise. -/
def usualHandles : List (String × String) :=
  [("!", "!"), ("!!", Tag.commonHandle)]

/-- The handles that directives give : each once, with one version at most, which must be 1. -/
def directives : List Token → Bool → List (String × String) →
    Except Fault (List (String × String) × List Token)
  | .directive d :: rest, hasVersion, handles =>
    match d with
    | .version major =>
      if hasVersion || major != 1 then .error .malformed else directives rest true handles
    | .handle name meant =>
      if (handles.lookup name).isSome then .error .malformed
      else directives rest hasVersion (handles ++ [(name, meant)])
    | .other => directives rest hasVersion handles
  | tokens, _, handles => .ok (handles, tokens)

/-- The content of a document that was marked : it may be empty. -/
def content (f : Feed) : Except Fault (Node × Feed) :=
  match f.next? with
  | none | some .documentStart | some .documentEnd | some (.directive _) => .ok (empty, f)
  | some _ => node true false (4 * f.tokens.length + 8) f

/-- The document of the tokens, none if there are no tokens. A second document is refused. -/
def ofTokens (tokens : List Token) : Except Fault (Option Node) := do
  let (n, f) ← match tokens with
    | [] => return none
    | .directive _ :: _ | .documentStart :: _ => do
      let (handles, rest) ← directives tokens false []
      let f : Feed := { tokens := rest, handles := handles ++ usualHandles }
      content (← f.pass .documentStart)
    | _ =>
      node true false (4 * tokens.length + 8) { tokens := tokens, handles := usualHandles }
  if f.tokens.all (· == .documentEnd) then .ok (some n) else .error .malformed

end Node

end JsonShape.Yaml
