import JsonShape.Report

/-!
# Incidents

An incident is a failure that comes from below : the file system, a reader of JSON, bytes that are
no UTF-8, or a plain error value. `Incident.text` words it, `Incident.report?` is the report that
reading input makes of it, if it makes one, and `Incident.wrap` is a report of any kind around it.
-/

namespace JsonShape

/-- What a failure of the file system is about. -/
inductive OsKind where
  | notFound
  | denied
  | alreadyExists
  | notDirectory
  | isDirectory
  | interrupted
  | noProcess
  | noChild
  | wouldBlock
  | brokenPipe
  | connectionAborted
  | connectionRefused
  | connectionReset
  | timedOut
  | other
deriving DecidableEq, Repr, Inhabited

/-- The kind that an error number stands for. -/
def OsKind.ofNumber (n : Int) : OsKind :=
  if n == 2 then .notFound
  else if n == 1 || n == 13 then .denied
  else if n == 17 then .alreadyExists
  else if n == 20 then .notDirectory
  else if n == 21 then .isDirectory
  else if n == 4 then .interrupted
  else if n == 3 then .noProcess
  else if n == 10 then .noChild
  else if n == 11 || n == 114 || n == 115 then .wouldBlock
  else if n == 32 || n == 108 then .brokenPipe
  else if n == 103 then .connectionAborted
  else if n == 111 then .connectionRefused
  else if n == 104 then .connectionReset
  else if n == 110 then .timedOut
  else .other

/-- How much is known of a failure of the file system. -/
inductive OsDetail where
  /-- Only what was said. -/
  | said (parts : List Value)
  /-- An error number, its reason, and the path if one is involved. -/
  | numbered (number reason : Value) (path : Option Value)
deriving Inhabited

/-- A failure of the file system. -/
structure OsFailure where
  kind : OsKind
  detail : OsDetail
deriving Inhabited

/-- A failure that comes from below. -/
inductive Incident where
  | os (f : OsFailure)
  /-- A JSON text breaks the grammar at a position. -/
  | jsonText (message document : String) (position : Nat)
  /-- A stream of documents breaks the grammar, or ends too early. -/
  | jsonStream (incomplete : Bool) (parts : List Value)
  /-- Bytes from `start` up to `stop` are no UTF-8. -/
  | utf8 (bytes : List UInt8) (start stop : Nat) (reason : String)
  | key (parts : List Value)
  | value (parts : List Value)
deriving Inhabited

/-- What was said : nothing, one value, or several as a tuple. -/
def saidText : List Value → String
  | [] => ""
  | [v] => v.shown
  | vs => (Value.tuple vs).quoted

namespace OsFailure

/-- The failure with the usual reason of an error number at a path. -/
def atPath (number : Int) (reason path : String) : OsFailure :=
  ⟨.ofNumber number, .numbered (.int number) (.text reason) (some (.text path))⟩

/-- The failure that parts describe : an error number, its reason, and a path that is not null;
fewer than two parts only say something. The number decides the kind where none is given. -/
def ofParts (kind : Option OsKind) (parts : List Value) : OsFailure :=
  let detail : OsDetail :=
    match parts with
    | number :: reason :: path :: _ =>
      .numbered number reason (if path matches .null then none else some path)
    | [number, reason] => .numbered number reason none
    | _ => .said parts
  match kind, detail with
  | some k, _ => ⟨k, detail⟩
  | none, .numbered (.int n) _ _ => ⟨.ofNumber n, detail⟩
  | none, _ => ⟨.other, detail⟩

/-- The path involved, or null. -/
def path (f : OsFailure) : Value :=
  match f.detail with
  | .numbered _ _ (some p) => p
  | _ => .null

/-- The reason given, or null. -/
def reason (f : OsFailure) : Value :=
  match f.detail with
  | .numbered _ r _ => r
  | _ => .null

/-- The failure in words. -/
def text (f : OsFailure) : String :=
  match f.detail with
  | .said parts => saidText parts
  | .numbered number reason path =>
    "[Errno " ++ number.shown ++ "] " ++ reason.shown ++
      match path with
      | none => ""
      | some p => ": " ++ p.quoted

/-- The report that reading input makes of the failure. -/
def report (f : OsFailure) : Report :=
  match f.kind with
  | .notFound =>
    .fileOperation ("File not found: " ++ f.path.shown) (pathText f) (.text "read")
  | .denied =>
    .fileOperation ("Permission denied: " ++ f.path.shown) (pathText f) (.text "access")
  | _ =>
    let reason := if Report.isFalsy f.reason then f.text else f.reason.shown
    .fileOperation ("Cannot read input: " ++ reason) (pathText f) (.text "read")
where
  /-- The path as a text, or null. -/
  pathText (f : OsFailure) : Value :=
    match f.path with
    | .null => .null
    | p => .text p.shown

end OsFailure

/-- Number of the line that holds a position. -/
def lineOf (document : String) (position : Nat) : Nat :=
  (document.toList.take position).count '\n' + 1

/-- Number of the column of a position in its line. -/
def columnOf (document : String) (position : Nat) : Nat :=
  let before := document.toList.take position
  (before.reverse.takeWhile (· != '\n')).length + 1 + (position - before.length)

namespace Incident

/-- The incident in words. -/
def text : Incident → String
  | .os f => f.text
  | .jsonText message document position =>
    message ++ ": line " ++ toString (lineOf document position) ++ " column " ++
      toString (columnOf document position) ++ " (char " ++ toString position ++ ")"
  | .jsonStream _ parts => saidText parts
  | .utf8 bytes start stop reason =>
    match bytes[start]? with
    | some b =>
      if stop == start + 1 then
        "'utf-8' codec can't decode byte 0x" ++ String.ofList (Text.hexDigits 2 b.toNat) ++
          " in position " ++ toString start ++ ": " ++ reason
      else range start stop reason
    | none => range start stop reason
  | .key [v] => v.quoted
  | .key parts => saidText parts
  | .value parts => saidText parts
where
  /-- Several bytes that are no UTF-8. -/
  range (start stop : Nat) (reason : String) : String :=
    "'utf-8' codec can't decode bytes in position " ++ toString start ++ "-" ++
      toString ((stop : Int) - 1) ++ ": " ++ reason

/-- The report that reading input makes of an incident; plain error values stay what they are. -/
def report? : Incident → Option Report
  | .os f => some f.report
  | .jsonText message document position =>
    some (.input .dataFormat ("Invalid JSON: " ++ message) .null
      (.int (lineOf document position)))
  | .jsonStream _ parts =>
    some (.input .dataFormat ("Invalid JSON: " ++ saidText parts) .null .null)
  | .utf8 _ _ _ reason =>
    some (.input .dataFormat ("Input is not valid UTF-8: " ++ reason) .null .null)
  | .key _ => none
  | .value _ => none

/-- The message of a report around an incident : the one given, or the incident's own. -/
def wrapMessage (i : Incident) (message : Option String) : String :=
  match message with
  | some m => if m.isEmpty then i.text else m
  | none => i.text

end Incident

end JsonShape
