import JsonShape.Document.Gzip
import JsonShape.Document.Stream
import JsonShape.Report

/-!
# Decoded input

Input is a stream of documents, plain or compressed. Compressed input is known by its first two
bytes, where the source lets them be looked at. A fault of the compression is met after the
documents in what was delivered before it. Input of nothing but blanks holds no documents, which is
not a fault.
-/

namespace JsonShape.Document

/-- Why input could not be decoded. -/
inductive DecodeFault where
  | stream (fault : StreamFault) (source : String)
  | gzip (fault : Gzip.Fault) (source : String)
deriving DecidableEq, Repr, Inhabited

/-- What is said of a stream that breaks the grammar. -/
def grammarDetail : String := "<detail>"

/-- The report of a fault; two of them stay what they are : a number out of range and a corrupt
deflate stream. -/
def DecodeFault.report? : DecodeFault → Option Report
  | .stream .malformed source | .stream .truncated source =>
    some (.input .dataFormat ("Invalid JSON: " ++ grammarDetail) (.text source) .null)
  | .stream (.invalidUtf8 reason) _ =>
    some (.input .dataFormat ("Input is not valid UTF-8: " ++ reason.message) .null .null)
  | .stream .exponentOutOfRange _ => none
  | .gzip (.corruptStream _) _ => none
  | .gzip fault source =>
    some (.input .dataFormat ("Invalid gzip stream: " ++ fault.message) (.text source) .null)

/-- The fault in one line. -/
def DecodeFault.text (f : DecodeFault) : String :=
  match f.report? with
  | some r => r.text
  | none =>
    match f with
    | .gzip fault _ => fault.message
    | .stream _ _ => "[<class 'decimal.InvalidOperation'>]"

/-- The documents of a plain stream, of which there must be one at least. -/
def decodePlain (bytes : List UInt8) : Except StreamFault (List Value) :=
  match readDocuments true bytes with
  | .ok [] => .error .truncated
  | r => r

/-- The bytes break the grammar or end too early. -/
def StreamFault.breaksGrammar : StreamFault → Bool
  | .malformed | .truncated => true
  | .invalidUtf8 _ | .exponentOutOfRange => false

/-- The bytes that do not count as content : space, tab, line feed, vertical tab, form feed and
carriage return. -/
def blankBytes : List UInt8 := [0x20, 0x09, 0x0A, 0x0B, 0x0C, 0x0D]

/-- Some byte counts as content. -/
def hasContent (bytes : List UInt8) : Bool :=
  bytes.any fun b => !blankBytes.contains b

/-- The documents of content that is there to its end. A stream without documents is a fault of the
grammar like any other, and is told from them by the bytes that went by. -/
def decodeContent (source : String) (bytes : List UInt8) : Except DecodeFault (List Value) :=
  match decodePlain bytes with
  | .ok documents => .ok documents
  | .error fault =>
    if fault.breaksGrammar && !hasContent bytes then .ok [] else .error (.stream fault source)

/-- Documents of content that ends in a fault : what is delivered before it decides whether another
fault is met first. -/
def decodeBroken (source : String) (bytes : List UInt8) (fault : Gzip.Fault) : DecodeFault :=
  match readDocuments false bytes with
  | .ok _ => .gzip fault source
  | .error .truncated => .gzip fault source
  | .error earlier => .stream earlier source

/-- What input delivers : itself, or its content if it is compressed. -/
def delivery (detectGzip : Bool) (bytes : List UInt8) : Gzip.Content :=
  if detectGzip && bytes.take 2 == Gzip.magic then Gzip.deliver bytes else ⟨bytes, none⟩

/-- The documents of input from a source. -/
def decode (source : String) (detectGzip : Bool) (bytes : List UInt8) :
    Except DecodeFault (List Value) :=
  let given := delivery detectGzip bytes
  match given.fault with
  | none => decodeContent source given.bytes
  | some fault => .error (decodeBroken source given.bytes fault)

/-- The source that stands for a text or bytes in hand. -/
def inHand : String := "<string>"

/-- The documents of bytes in hand. -/
def decodeBytes (bytes : List UInt8) : Except DecodeFault (List Value) :=
  decode inHand true bytes

end JsonShape.Document
