import JsonShape.Number.Literal

/-!
# Dates and times

A timestamp is a date, or a date with a time of day and perhaps an offset from universal time.
`Timestamp.ofText?` reads one, `Timestamp.isValid` says whether the calendar and the clock have
it, and `Timestamp.text` and `Timestamp.quoted` are its two written forms.
-/

namespace JsonShape.Yaml

open Text (isAsciiDigit)
open NumberLiteral (digitsValue)

/-- A time of day with microseconds, and minutes from universal time where they are given. -/
structure TimeOfDay where
  hour : Nat
  minute : Nat
  second : Nat
  micro : Nat
  offset : Option Int
deriving DecidableEq, Repr

/-- A date, perhaps with a time. -/
structure Timestamp where
  year : Nat
  month : Nat
  day : Nat
  time : Option TimeOfDay
deriving DecidableEq, Repr

namespace Timestamp

/-! ## Reading -/

/-- A number of at least and at most so many digits, and what follows it. -/
def digits? (least most : Nat) (cs : List Char) : Option (Nat × List Char) :=
  let found := (cs.takeWhile isAsciiDigit).take most
  if found.length < least then none else some (digitsValue found, cs.drop found.length)

/-- What follows a character that must come next. -/
def behind? (c : Char) : List Char → Option (List Char)
  | [] => none
  | d :: rest => if c == d then some rest else none

/-- The first six digits behind the point as microseconds. -/
def microseconds (ds : List Char) : Nat :=
  let six := ds.take 6
  digitsValue (six ++ List.replicate (6 - six.length) '0')

/-- The offset that the rest of a text is : nothing, the letter Z, or a sign with hours and perhaps
minutes. -/
def offset? (cs : List Char) : Option (Option Int) :=
  match cs.dropWhile fun c => c == ' ' || c == '\t' with
  | [] => if cs.isEmpty then some none else none
  | ['Z'] => some (some 0)
  | sign :: rest => do
    if sign != '-' && sign != '+' then none
    let (hours, rest) ← digits? 1 2 rest
    let minutes ←
      if rest.isEmpty then some 0
      else
        match digits? 2 2 (← behind? ':' rest) with
        | some (m, []) => some m
        | _ => none
    let total : Int := hours * 60 + minutes
    some (some (if sign == '-' then -total else total))

/-- The time of day that the rest of a text is. -/
def time? (cs : List Char) : Option TimeOfDay := do
  let (hour, cs) ← digits? 1 2 cs
  let (minute, cs) ← digits? 2 2 (← behind? ':' cs)
  let (second, cs) ← digits? 2 2 (← behind? ':' cs)
  let (fraction, cs) :=
    match cs with
    | '.' :: rest => (rest.takeWhile isAsciiDigit, rest.dropWhile isAsciiDigit)
    | _ => ([], cs)
  let offset ← offset? cs
  some ⟨hour, minute, second, microseconds fraction, offset⟩

/-- What follows the mark between a date and a time. -/
def behindTimeMark? : List Char → Option (List Char)
  | [] => none
  | c :: rest =>
    if c == 'T' || c == 't' then some rest
    else if c == ' ' || c == '\t' then some (rest.dropWhile fun b => b == ' ' || b == '\t')
    else none

/-- The timestamp that the characters are. -/
def ofChars? (cs : List Char) : Option Timestamp := do
  let (year, cs) ← digits? 4 4 cs
  let (month, cs) ← digits? 1 2 (← behind? '-' cs)
  let (day, cs) ← digits? 1 2 (← behind? '-' cs)
  if cs.isEmpty then some ⟨year, month, day, none⟩
  else some ⟨year, month, day, some (← time? (← behindTimeMark? cs))⟩

/-- A plain scalar of this text is a timestamp : a date alone has two digits for month and day. -/
def isPlain (cs : List Char) : Bool :=
  match ofChars? cs with
  | some t => t.time.isSome || cs.length == 10
  | none => false

/-! ## Calendar and clock -/

/-- The year has a 29th of February. -/
def isLeap (year : Nat) : Bool :=
  year % 4 == 0 && (year % 100 != 0 || year % 400 == 0)

/-- Number of days of a month. -/
def daysIn (year month : Nat) : Nat :=
  if month == 2 then if isLeap year then 29 else 28
  else if [4, 6, 9, 11].contains month then 30
  else 31

/-- The time is on the clock and its offset below a day. -/
def timeIsValid (t : TimeOfDay) : Bool :=
  t.hour < 24 && t.minute < 60 && t.second < 60 &&
    match t.offset with
    | some o => o.natAbs < 24 * 60
    | none => true

/-- The date is in the calendar, from year 1 on, and the time is valid. -/
def isValid (t : Timestamp) : Bool :=
  1 ≤ t.year && 1 ≤ t.month && t.month ≤ 12 && 1 ≤ t.day && t.day ≤ daysIn t.year t.month &&
    match t.time with
    | some time => timeIsValid time
    | none => true

/-! ## Written forms -/

/-- A number with zeros before it up to a width. -/
def padded (width n : Nat) : String :=
  let ds := (toString n).toList
  String.ofList (List.replicate (width - ds.length) '0' ++ ds)

/-- An offset as sign, hours and minutes. -/
def offsetText (o : Int) : String :=
  (if o < 0 then "-" else "+") ++ padded 2 (o.natAbs / 60) ++ ":" ++ padded 2 (o.natAbs % 60)

/-- A time of day in one line. -/
def timeText (t : TimeOfDay) : String :=
  padded 2 t.hour ++ ":" ++ padded 2 t.minute ++ ":" ++ padded 2 t.second ++
    (if t.micro == 0 then "" else "." ++ padded 6 t.micro) ++
    match t.offset with
    | some o => offsetText o
    | none => ""

/-- The timestamp as a message shows it. -/
def text (t : Timestamp) : String :=
  padded 4 t.year ++ "-" ++ padded 2 t.month ++ "-" ++ padded 2 t.day ++
    match t.time with
    | some time => " " ++ timeText time
    | none => ""

/-- An offset as it is shown inside other values : whole days and the seconds that remain. -/
def quotedOffset (o : Int) : String :=
  if o == 0 then "datetime.timezone.utc"
  else if o < 0 then
    "datetime.timezone(datetime.timedelta(days=-1, seconds=" ++ toString (86400 + o * 60) ++ "))"
  else "datetime.timezone(datetime.timedelta(seconds=" ++ toString (o * 60) ++ "))"

/-- The timestamp as it is shown inside other values. -/
def quoted (t : Timestamp) : String :=
  let date := toString t.year ++ ", " ++ toString t.month ++ ", " ++ toString t.day
  match t.time with
  | none => "datetime.date(" ++ date ++ ")"
  | some time =>
    "datetime.datetime(" ++ date ++ ", " ++ toString time.hour ++ ", " ++ toString time.minute ++
      (if time.second == 0 && time.micro == 0 then "" else ", " ++ toString time.second) ++
      (if time.micro == 0 then "" else ", " ++ toString time.micro) ++
      (match time.offset with
        | some o => ", tzinfo=" ++ quotedOffset o
        | none => "") ++ ")"

end Timestamp

end JsonShape.Yaml
