import DocRelay.Toml.Strings

namespace DocRelay.Toml

/-!
# Dates and times

A date, a time, or both, perhaps with an offset from universal time.  They are handed on as
texts of one form: a `T` between date and time, fractions of a second without trailing zeros.

* `DateTime` — the parts; `DateTime.render` — the text;
* `readDateTime` — a date, a time, or both.
-/

/-- A day of the calendar. -/
structure Date where
  year : Nat
  month : Nat
  day : Nat
deriving DecidableEq, Repr

/-- A time of day. -/
structure Time where
  hour : Nat
  minute : Nat
  second : Nat
  nanosecond : Nat
deriving DecidableEq, Repr

/-- An offset from universal time. -/
inductive Offset where
  | zulu
  | minutes (count : Int)
deriving DecidableEq, Repr

/-- A date, a time, or both. -/
structure DateTime where
  date : Option Date
  time : Option Time
  offset : Option Offset
deriving DecidableEq, Repr

/-- A number with at least `width` digits. -/
def padded (width n : Nat) : List Char :=
  let digits := Nat.toDigits 10 n
  List.replicate (width - digits.length) '0' ++ digits

/-- The text of a date. -/
def Date.render (d : Date) : List Char :=
  padded 4 d.year ++ '-' :: padded 2 d.month ++ '-' :: padded 2 d.day

/-- The characters without the zeros at the end. -/
def dropZeros (cs : List Char) : List Char :=
  (cs.reverse.dropWhile (· == '0')).reverse

/-- The text of a time. -/
def Time.render (t : Time) : List Char :=
  padded 2 t.hour ++ ':' :: padded 2 t.minute ++ ':' :: padded 2 t.second
    ++ if t.nanosecond == 0 then [] else '.' :: dropZeros (padded 9 t.nanosecond)

/-- The text of an offset. -/
def Offset.render : Offset → List Char
  | .zulu => ['Z']
  | .minutes count =>
    (if count < 0 then '-' else '+') :: padded 2 (count.natAbs / 60)
      ++ ':' :: padded 2 (count.natAbs % 60)

/-- The text of a date, a time, or both. -/
def DateTime.render (d : DateTime) : String :=
  let date := (d.date.map Date.render).getD []
  let time := (d.time.map Time.render).getD []
  let mark := if d.date.isSome && d.time.isSome then ['T'] else []
  String.ofList (date ++ mark ++ time ++ (d.offset.map Offset.render).getD [])

/-- A number of exactly `count` digits. -/
def readFixed (count : Nat) (cs : List Char) : Option (Nat × List Char) :=
  let digits := cs.take count
  if digits.length == count && digits.all Char.isDigit then do
    return (← digitsIn 10 digits, cs.drop count)
  else none

/-- The number of days of a month. -/
def daysOf (year month : Nat) : Nat :=
  let leap := year % 4 == 0 && (year % 100 != 0 || year % 400 == 0)
  if month == 2 then (if leap then 29 else 28)
  else if [4, 6, 9, 11].contains month then 30
  else 31

/-- A date. -/
def readDate (cs : List Char) : Option (Date × List Char) := do
  let (year, cs) ← readFixed 4 cs
  let cs ← expect '-' cs
  let (month, cs) ← readFixed 2 cs
  let cs ← expect '-' cs
  let (day, cs) ← readFixed 2 cs
  if 1 ≤ month && month ≤ 12 && 1 ≤ day && day ≤ daysOf year month then
    some (⟨year, month, day⟩, cs)
  else none

/-- The fraction of a second in billionths; further digits are cut off. -/
def readFraction (cs : List Char) : Nat × List Char :=
  match cs with
  | '.' :: rest =>
    let digits := rest.takeWhile Char.isDigit
    if digits.isEmpty then (0, cs)
    else
      let kept := digits.take 9
      let scaled := kept ++ List.replicate (9 - kept.length) '0'
      ((digitsIn 10 scaled).getD 0, rest.dropWhile Char.isDigit)
  | _ => (0, cs)

/-- A time of day. -/
def readTime (cs : List Char) : Option (Time × List Char) := do
  let (hour, cs) ← readFixed 2 cs
  let cs ← expect ':' cs
  let (minute, cs) ← readFixed 2 cs
  let cs ← expect ':' cs
  let (second, cs) ← readFixed 2 cs
  let (nanosecond, cs) := readFraction cs
  if hour ≤ 23 && minute ≤ 59 && second ≤ 60 then some (⟨hour, minute, second, nanosecond⟩, cs)
  else none

/-- An offset from universal time; `none` within if there is none, and a failure if there is half
    of one. -/
def readOffset (cs : List Char) : Option (Option Offset × List Char) :=
  match cs with
  | 'Z' :: rest | 'z' :: rest => some (some .zulu, rest)
  | sign :: rest =>
    if sign == '+' || sign == '-' then do
      let (hours, rest) ← readFixed 2 rest
      let rest ← expect ':' rest
      let (minutes, rest) ← readFixed 2 rest
      let count : Int := (hours * 60 + minutes : Nat)
      if hours ≤ 23 && minutes ≤ 59 then
        some (some (.minutes (if sign == '-' then -count else count)), rest)
      else none
    else some (none, cs)
  | [] => some (none, cs)

/-- The time behind a date, with its offset; `none` within if no time follows. -/
def readTimeBehind (cs : List Char) : Option (Option (Time × Option Offset) × List Char) :=
  match cs with
  | mark :: rest =>
    if mark == 'T' || mark == 't' || mark == ' ' then
      match readTime rest with
      | some (time, rest) => do
        let (offset, rest) ← readOffset rest
        return (some (time, offset), rest)
      | none => some (none, cs)
    else some (none, cs)
  | [] => some (none, cs)

/-- A date, a time, or both. -/
def readDateTime (cs : List Char) : Option (DateTime × List Char) :=
  match readDate cs with
  | some (date, rest) => do
    match ← readTimeBehind rest with
    | (some (time, offset), rest) => return (⟨some date, some time, offset⟩, rest)
    | (none, rest) => return (⟨some date, none, none⟩, rest)
  | none => do
    let (time, rest) ← readTime cs
    return (⟨none, some time, none⟩, rest)

end DocRelay.Toml
