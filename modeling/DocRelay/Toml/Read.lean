import DocRelay.Toml.DateTime
import DocRelay.Toml.Numbers
import DocRelay.Toml.Tree

namespace DocRelay.Toml

/-!
# Reading configuration texts

A configuration text is a sequence of assignments and headers.  It is read into a value whose
objects list their members in the order of the text; dates become objects with one member.

* `readValue` — a value, nested at most so many levels;
* `Section`, `readSections` — the headers with the assignments below them;
* `read` — the value of a text, if it is a configuration text at all.
-/

/-- The member under which the text of a date stands. -/
def dateKey : String := "$__toml_private_datetime"

/-- The value of a date or a time. -/
def dateValue (d : DateTime) : Json :=
  .obj [(dateKey, .str d.render)]

/-- What follows a comment, at its line end. -/
def skipComment : List Char → Option (List Char)
  | [] => some []
  | c :: rest =>
    if isControl c then
      if (newline? (c :: rest)).isSome then some (c :: rest) else none
    else skipComment rest

/-- What follows the blanks, the line ends and the comments between the items of an array. -/
def skipGap : Nat → List Char → Option (List Char)
  | 0, cs => some cs
  | fuel + 1, cs =>
    let cs := skipSpaces cs
    match cs with
    | '#' :: rest => do
      let rest ← skipComment rest
      let rest ← newline? rest
      skipGap fuel rest
    | cs =>
      match newline? cs with
      | some rest => skipGap fuel rest
      | none => some cs

/-- What follows the rest of a line: blanks, perhaps a comment, and the line end. -/
def skipLineEnd (cs : List Char) : Option (List Char) := do
  let cs := skipSpaces cs
  let cs ← match cs with
    | '#' :: rest => skipComment rest
    | cs => some cs
  match cs with
  | [] => some []
  | cs => newline? cs

/-- A number, a date or a time. -/
def readNumeral (cs : List Char) : Option (Json × List Char) :=
  match readDateTime cs with
  | some (d, rest) => some (dateValue d, rest)
  | none => (readFloat cs).or ((readSpecial cs).or (readInteger cs))

/-- A value without parts. -/
def readPlain (cs : List Char) : Option (Json × List Char) :=
  match cs with
  | '"' :: _ | '\'' :: _ => (readString cs).map fun (s, rest) => (.str s, rest)
  | 't' :: 'r' :: 'u' :: 'e' :: rest => some (.bool true, rest)
  | 'f' :: 'a' :: 'l' :: 's' :: 'e' :: rest => some (.bool false, rest)
  | _ => readNumeral cs

/-- The items of an array behind its bracket, each with its gaps, up to the closing bracket; a
    comma may follow the last one. -/
def readArray (value : List Char → Option (Json × List Char)) :
    Nat → List Char → Option (List Json × List Char)
  | 0, _ => none
  | fuel + 1, cs => do
    match ← skipGap cs.length cs with
    | ']' :: rest => return ([], rest)
    | cs =>
      let (item, cs) ← value cs
      match ← skipGap cs.length cs with
      | ',' :: rest =>
        let (others, rest) ← readArray value fuel rest
        return (item :: others, rest)
      | ']' :: rest => return ([item], rest)
      | _ => none

/-- An assignment: a key, an equals sign and a value. -/
def readAssignment (value : List Char → Option (Json × List Char)) (cs : List Char) :
    Option (Assignment × List Char) := do
  let ((path, key), cs) ← readKey cs
  let cs ← expect '=' cs
  let (j, cs) ← value (skipSpaces cs)
  return (⟨path, key, j⟩, cs)

/-- The assignments of an inline table up to its brace; there is no comma behind the last one. -/
def readInline (value : List Char → Option (Json × List Char)) :
    Nat → List Char → Option (List Assignment × List Char)
  | 0, _ => none
  | fuel + 1, cs => do
    let (a, cs) ← readAssignment value cs
    match skipSpaces cs with
    | ',' :: rest =>
      let (others, rest) ← readInline value fuel rest
      return (a :: others, rest)
    | '\x7d' :: rest => return ([a], rest)
    | _ => none

/-- An inline table behind its brace. -/
def readInlineTable (value : List Char → Option (Json × List Char)) (cs : List Char) :
    Option (Json × List Char) :=
  match skipSpaces cs with
  | '\x7d' :: rest => some (.obj [], rest)
  | cs => do
    let (assignments, rest) ← readInline value (cs.length + 1) cs
    let entries ← assignAll [] assignments
    return (.obj (entriesToJson entries), rest)

/-- A value whose parts are read by `inner`; without it nothing may be nested. -/
def readValueWith (inner : Option (List Char → Option (Json × List Char))) (cs : List Char) :
    Option (Json × List Char) :=
  match cs with
  | '[' :: rest => do
    let (items, rest) ← readArray (← inner) (rest.length + 1) rest
    return (.arr items, rest)
  | '\x7b' :: rest => do readInlineTable (← inner) rest
  | cs => readPlain cs

/-- A value, nested at most `depth` levels. -/
def readValue : Nat → List Char → Option (Json × List Char)
  | 0, cs => readValueWith none cs
  | depth + 1, cs => readValueWith (some (readValue depth)) cs

/-- What a header says: nothing at the top of the text, and else its path and its key. -/
inductive Heading where
  | top
  | table (path : List String) (key : String)
  | element (path : List String) (key : String)

/-- A header with the assignments below it. -/
structure Section where
  heading : Heading
  body : List Assignment

/-- A header at its first bracket. -/
def readHeading (cs : List Char) : Option (Heading × List Char) :=
  match cs with
  | '[' :: '[' :: rest => do
    let ((path, key), rest) ← readKey rest
    let rest ← expectAll [']', ']'] rest
    return (.element path key, rest)
  | '[' :: rest => do
    let ((path, key), rest) ← readKey rest
    let rest ← expect ']' rest
    return (.table path key, rest)
  | _ => none

/-- The sections of a text, the one that is being read first; `fuel` bounds the lines. -/
def readSections : Nat → List Char → Option (List Assignment × List Section)
  | 0, _ => none
  | fuel + 1, cs =>
    match skipSpaces cs with
    | [] => some ([], [])
    | '#' :: rest => do
      let rest ← skipLineEnd ('#' :: rest)
      readSections fuel rest
    | '[' :: rest => do
      let (heading, rest) ← readHeading ('[' :: rest)
      let rest ← skipLineEnd rest
      let (body, others) ← readSections fuel rest
      return ([], ⟨heading, body⟩ :: others)
    | cs =>
      match newline? cs with
      | some rest => readSections fuel rest
      | none => do
        let (a, rest) ← readAssignment (readValue depthLimit) cs
        let rest ← skipLineEnd rest
        let (body, others) ← readSections fuel rest
        return (a :: body, others)

/-- The entries of a text with one more section. -/
def addSection (entries : Entries) (s : Section) : Option Entries :=
  match s.heading with
  | .top => assignAll entries s.body
  | .table path key => openTable path key s.body entries
  | .element path key => openElement path key s.body entries

/-- The value of a configuration text. -/
def read (text : String) : Option Json := do
  let cs := match text.toList with
    -- A byte order mark is no part of the text.
    | c :: rest => if c.toNat == 0xFEFF then rest else c :: rest
    | [] => []
  let (body, others) ← readSections (cs.length + 1) cs
  let entries ← (⟨.top, body⟩ :: others : List Section).foldlM addSection []
  return .obj (entriesToJson entries)

end DocRelay.Toml
