namespace DocRelay.Toml

/-!
# Strings and keys of configuration texts

Strings stand in double quotes, with escapes, or in single quotes, without; in three quotes they
may run over several lines.  A step takes characters from the front of the text and gives what
is left, or fails.

* `Step α` — a step; `expect`, `skipSpaces`, `newline?` — small ones;
* `readString` — a string of any of the four kinds;
* `readKey` — a key, perhaps with dots.
-/

/-- A step takes characters from the front of a text. -/
abbrev Step (α : Type) := List Char → Option (α × List Char)

/-- The character `c`. -/
def expect (c : Char) : List Char → Option (List Char)
  | d :: rest => if d == c then some rest else none
  | [] => none

/-- The characters of `mark`. -/
def expectAll (mark : List Char) (cs : List Char) : Option (List Char) :=
  mark.isPrefixOf? cs

/-- A blank within a line. -/
def isSpace (c : Char) : Bool := c == ' ' || c == '\t'

/-- What follows the blanks. -/
def skipSpaces (cs : List Char) : List Char := cs.dropWhile isSpace

/-- What follows a line end. -/
def newline? : List Char → Option (List Char)
  | '\n' :: rest => some rest
  | '\r' :: '\n' :: rest => some rest
  | _ => none

/-- A control character; a tab is none. -/
def isControl (c : Char) : Bool :=
  (c.toNat < 0x20 && c != '\t') || c.toNat == 0x7F

/-- A hexadecimal digit. -/
def hexDigit? (c : Char) : Option Nat :=
  if c.isDigit then some (c.toNat - 48)
  else if 'a' ≤ c && c ≤ 'f' then some (c.toNat - 87)
  else if 'A' ≤ c && c ≤ 'F' then some (c.toNat - 55)
  else none

/-- The number that digits of a base spell. -/
def digitsIn (base : Nat) (digits : List Char) : Option Nat :=
  digits.foldl (fun acc c => do
    let d ← hexDigit? c
    if d < base then return (← acc) * base + d else none) (some 0)

/-- The character of a code point, written with `count` digits. -/
def readCodePoint (count : Nat) (cs : List Char) : Option (Char × List Char) :=
  let digits := cs.take count
  if digits.length != count then none
  else do
    let n ← digitsIn 16 digits
    if n < 0xD800 || (0xDFFF < n && n < 0x110000) then some (Char.ofNat n, cs.drop count)
    else none

/-- An escape behind its backslash. -/
def readEscape : List Char → Option (Char × List Char)
  | 'b' :: rest => some (Char.ofNat 0x08, rest)
  | 't' :: rest => some ('\t', rest)
  | 'n' :: rest => some ('\n', rest)
  | 'f' :: rest => some (Char.ofNat 0x0C, rest)
  | 'r' :: rest => some ('\r', rest)
  | '"' :: rest => some ('"', rest)
  | '\\' :: rest => some ('\\', rest)
  | 'u' :: rest => readCodePoint 4 rest
  | 'U' :: rest => readCodePoint 8 rest
  | _ => none

/-- A string in double quotes, behind the first one; `fuel` bounds its characters. -/
def readBasic : Nat → List Char → Option (List Char × List Char)
  | 0, _ => none
  | fuel + 1, cs =>
    match cs with
    | [] => none
    | '"' :: rest => some ([], rest)
    | '\\' :: rest => do
      let (c, rest) ← readEscape rest
      let (others, rest) ← readBasic fuel rest
      return (c :: others, rest)
    | c :: rest =>
      if isControl c then none
      else do
        let (others, rest) ← readBasic fuel rest
        return (c :: others, rest)

/-- A string in single quotes, behind the first one. -/
def readLiteral : List Char → Option (List Char × List Char)
  | [] => none
  | '\'' :: rest => some ([], rest)
  | c :: rest =>
    if isControl c then none
    else do
      let (others, rest) ← readLiteral rest
      return (c :: others, rest)

/-- How many of the next characters are quotes. -/
def quoteRun (quote : Char) (cs : List Char) : Nat :=
  (cs.takeWhile (· == quote)).length

/-- The blanks and line ends that a backslash at the end of a line swallows; `none` if more than
    blanks stand between it and the line end. -/
def skipFold (cs : List Char) : Option (List Char) :=
  (newline? (skipSpaces cs)).map fun rest => go rest.length rest
where
  /-- What follows the blanks and line ends. -/
  go : Nat → List Char → List Char
    | 0, cs => cs
    | fuel + 1, cs =>
      match cs with
      | c :: rest =>
        if isSpace c then go fuel rest
        else
          match newline? (c :: rest) with
          | some after => go fuel after
          | none => c :: rest
      | [] => []

/-- A string in three quotes, behind the first three; `escapes` tells whether a backslash begins
    an escape, and `fuel` bounds the characters.  One or two quotes may stand in it anywhere,
    also before the closing three. -/
def readLong (quote : Char) (escapes : Bool) : Nat → List Char →
    Option (List Char × List Char)
  | 0, _ => none
  | fuel + 1, cs =>
    match cs with
    | [] => none
    | c :: rest =>
      if c == quote then
        let run := quoteRun quote cs
        if run < 3 then do
          let (others, rest) ← readLong quote escapes fuel (cs.drop run)
          return (List.replicate run quote ++ others, rest)
        else
          let kept := min (run - 3) 2
          some (List.replicate kept quote, cs.drop (kept + 3))
      else if c == '\\' && escapes then
        match skipFold rest with
        | some after => readLong quote escapes fuel after
        | none => do
          let (e, after) ← readEscape rest
          let (others, after) ← readLong quote escapes fuel after
          return (e :: others, after)
      else
        match newline? cs with
        | some after => do
          let (others, after) ← readLong quote escapes fuel after
          return ('\n' :: others, after)
        | none =>
          if isControl c then none
          else do
            let (others, after) ← readLong quote escapes fuel rest
            return (c :: others, after)

/-- A string of any kind, at its first quote. -/
def readString (cs : List Char) : Option (String × List Char) :=
  let long (quote : Char) (escapes : Bool) (rest : List Char) :=
    readLong quote escapes (rest.length + 1) ((newline? rest).getD rest)
  let chars :=
    match cs with
    | '"' :: '"' :: '"' :: rest => long '"' true rest
    | '"' :: rest => readBasic (rest.length + 1) rest
    | '\'' :: '\'' :: '\'' :: rest => long '\'' false rest
    | '\'' :: rest => readLiteral rest
    | _ => none
  chars.map fun (text, rest) => (String.ofList text, rest)

/-- A character of a key without quotes. -/
def isBare (c : Char) : Bool :=
  c.isAlphanum || c == '-' || c == '_'

/-- One part of a key. -/
def readKeyPart (cs : List Char) : Option (String × List Char) :=
  match cs with
  | '"' :: rest =>
    (readBasic (rest.length + 1) rest).map fun (text, rest) => (String.ofList text, rest)
  | '\'' :: rest => (readLiteral rest).map fun (text, rest) => (String.ofList text, rest)
  | cs =>
    let bare := cs.takeWhile isBare
    if bare.isEmpty then none else some (String.ofList bare, cs.dropWhile isBare)

/-- The parts of a key, with dots between them and blanks around them; `fuel` bounds their
    number. -/
def readKeyParts : Nat → List Char → Option (List String × List Char)
  | 0, _ => none
  | fuel + 1, cs => do
    let (part, rest) ← readKeyPart (skipSpaces cs)
    match skipSpaces rest with
    | '.' :: rest =>
      let (others, rest) ← readKeyParts fuel rest
      return (part :: others, rest)
    | rest => return ([part], rest)

/-- How many parts a key may have, and how deep values may be nested, at most. -/
def depthLimit : Nat := 79

/-- A key: the parts before the last one, and the last one. -/
def readKey (cs : List Char) : Option ((List String × String) × List Char) := do
  let (parts, rest) ← readKeyParts (cs.length + 1) cs
  let last ← parts.getLast?
  if depthLimit < parts.length then none else some ((parts.dropLast, last), rest)

end DocRelay.Toml
