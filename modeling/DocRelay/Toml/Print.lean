import DocRelay.Json.Print
import DocRelay.Toml.Strings

namespace DocRelay.Toml

/-!
# Writing configuration texts

Values written as configuration texts.  Of a table the plain values come first, then its tables
with headers of their own; an array of tables becomes headers in double brackets.  Strings take
the plainest quotes that can hold them, and an array of two or more items takes a line for each.

* `WriteFault` — why a value has no text; `firstFault` finds it;
* `quoteText`, `quoteKey` — strings and keys;
* `renderValue` — a value within a line, `blocks` the headers with what stands below them;
* `write` — the text of an object.
-/

/-- Why a value cannot be written. -/
inductive WriteFault where
  /-- There is no null. -/
  | null
  /-- The integer does not fit 64 bits with a sign. -/
  | tooLarge
deriving DecidableEq, Repr

mutual

/-- The first part of a value that cannot be written. -/
def firstFault : Json → Option WriteFault
  | .null => some .null
  | .int n => if n < 0x8000000000000000 then none else some .tooLarge
  | .arr items => firstItemFault items
  | .obj members => firstMemberFault members
  | _ => none

/-- The first part of some items that cannot be written. -/
def firstItemFault : List Json → Option WriteFault
  | [] => none
  | item :: rest => (firstFault item).or (firstItemFault rest)

/-- The first part of some members that cannot be written. -/
def firstMemberFault : List (String × Json) → Option WriteFault
  | [] => none
  | (_, value) :: rest => (firstFault value).or (firstMemberFault rest)

end

/-- The longest run of a character. -/
def longestRun (mark : Char) : List Char → Nat
  | [] => 0
  | c :: rest =>
    if c == mark then max (1 + quoteRun mark rest) (longestRun mark rest)
    else longestRun mark rest

/-- A control character other than a tab and a newline. -/
def isCode (c : Char) : Bool := isControl c && c != '\n'

/-- The escape of a control character or a backslash; a tab has one too. -/
def escape? (c : Char) : Option (List Char) :=
  if c == '\t' then some ['\\', 't']
  else if c == '\n' then some ['\\', 'n']
  else if c == '\r' then some ['\\', 'r']
  else if c.toNat == 0x08 then some ['\\', 'b']
  else if c.toNat == 0x0C then some ['\\', 'f']
  else if c == '\\' then some ['\\', '\\']
  else if isControl c then
    some ['\\', 'u', '0', '0', Nat.digitChar (c.toNat / 16), (Nat.digitChar (c.toNat % 16)).toUpper]
  else none

/-- The characters of a string within double quotes.  More than `limit` quotes in a row are
    broken by an escape; `run` counts those before.  A newline stands as it is if `long`. -/
def escapeAll (long : Bool) (limit : Nat) (run : Nat) : List Char → List Char
  | [] => []
  | c :: rest =>
    if c == '"' then
      if run < limit then c :: escapeAll long limit (run + 1) rest
      else '\\' :: '"' :: escapeAll long limit 0 rest
    else if long && c == '\n' then c :: escapeAll long limit 0 rest
    else
      match escape? c with
      | some e => e ++ escapeAll long limit 0 rest
      | none => c :: escapeAll long limit 0 rest

/-- A string in one double quote on either side. -/
def basicQuoted (cs : List Char) : List Char :=
  '"' :: escapeAll false 0 0 cs ++ ['"']

/-- A string in three quotes on either side; if it has more than one line it begins on a line of
    its own. -/
def longQuoted (quote : Char) (cs body : List Char) : List Char :=
  let quotes := [quote, quote, quote]
  quotes ++ (if cs.contains '\n' then ['\n'] else []) ++ body ++ quotes

/-- A string in the plainest quotes that can hold it: double quotes if nothing needs an escape,
    single ones, three of either kind, and else double quotes with escapes. -/
def quoteText (cs : List Char) : List Char :=
  let codes := cs.any isCode
  let backslash := cs.contains '\\'
  let lines := cs.contains '\n'
  let doubles := longestRun '"' cs
  let singles := longestRun '\'' cs
  if !codes && !backslash && doubles == 0 && !lines then basicQuoted cs
  else if !codes && singles == 0 && !lines then '\'' :: cs ++ ['\'']
  else if !codes && !backslash && doubles ≤ 2 then longQuoted '"' cs (escapeAll true 2 0 cs)
  else if !codes && singles ≤ 2 then longQuoted '\'' cs cs
  else if lines then longQuoted '"' cs (escapeAll true 2 0 cs)
  else basicQuoted cs

/-- A key, without quotes if it can be. -/
def quoteKey (key : String) : List Char :=
  let cs := key.toList
  let codes := cs.any isControl
  if !cs.isEmpty && cs.all isBare then cs
  else if !codes && !cs.contains '\\' && !cs.contains '"' then basicQuoted cs
  else if !codes && !cs.contains '\'' then '\'' :: cs ++ ['\'']
  else basicQuoted cs

/-- The digits of a floating-point number, all in their places. -/
def renderFloat (x : Binary64) : List Char :=
  Layout.positional.render x

mutual

/-- A value within a line. -/
def renderValue : Json → List Char
  | .null => []
  | .bool b => (toString b).toList
  | .int n => Json.renderInt n
  | .float x => renderFloat x
  | .str s => quoteText s.toList
  | .arr [] => ['[', ']']
  | .arr [item] => '[' :: renderValue item ++ [']']
  | .arr items => '[' :: renderItems items ++ ['\n', ']']
  | .obj [] => ['\x7b', '\x7d']
  | .obj members => '\x7b' :: ' ' :: renderMembers members ++ [' ', '\x7d']

/-- The items of an array, a line for each. -/
def renderItems : List Json → List Char
  | [] => []
  | item :: rest => "\n    ".toList ++ renderValue item ++ ',' :: renderItems rest

/-- The members of an inline table. -/
def renderMembers : List (String × Json) → List Char
  | [] => []
  | [(key, value)] => quoteKey key ++ " = ".toList ++ renderValue value
  | (key, value) :: rest =>
    quoteKey key ++ " = ".toList ++ renderValue value ++ ", ".toList ++ renderMembers rest

end

/-- The value is a table. -/
def isTable : Json → Bool
  | .obj _ => true
  | _ => false

/-- The value is an array of tables. -/
def isTables : Json → Bool
  | .arr items => !items.isEmpty && items.all isTable
  | _ => false

/-- The members that are neither tables nor arrays of tables. -/
def plainMembers (members : List (String × Json)) : List (String × Json) :=
  members.filter fun (_, value) => !isTable value && !isTables value

/-- The line of a plain member. -/
def memberLine (member : String × Json) : List Char :=
  quoteKey member.1 ++ " = ".toList ++ renderValue member.2 ++ ['\n']

/-- The keys of a path with dots between them. -/
def renderPath : List String → List Char
  | [] => []
  | [key] => quoteKey key
  | key :: rest => quoteKey key ++ '.' :: renderPath rest

/-- The header of a table or of an element of an array, and the plain members below it.  A table
    with nothing but tables needs no header. -/
def ownBlock (path : List String) (element : Bool) (members : List (String × Json)) :
    List (List Char) :=
  let plain := plainMembers members
  let body := plain.flatMap memberLine
  if path.isEmpty then (if plain.isEmpty then [] else [body])
  else if element then ["[[".toList ++ renderPath path ++ "]]\n".toList ++ body]
  else if plain.isEmpty && !members.isEmpty then []
  else ['[' :: renderPath path ++ "]\n".toList ++ body]

mutual

/-- The headers of a table and of the tables in it, with what stands below them. -/
def blocks (path : List String) (element : Bool) : Json → List (List Char)
  | .obj members => ownBlock path element members ++ innerBlocks path members
  | _ => []

/-- The headers of the tables among some members. -/
def innerBlocks (path : List String) : List (String × Json) → List (List Char)
  | [] => []
  | (key, .obj members) :: rest =>
    blocks (path ++ [key]) false (.obj members) ++ innerBlocks path rest
  | (key, .arr items) :: rest =>
    (if isTables (.arr items) then elementBlocks (path ++ [key]) items else [])
      ++ innerBlocks path rest
  | _ :: rest => innerBlocks path rest

/-- The headers of the elements of an array of tables. -/
def elementBlocks (path : List String) : List Json → List (List Char)
  | [] => []
  | item :: rest => blocks path true item ++ elementBlocks path rest

end

/-- The blocks with an empty line between each two. -/
def joinBlocks : List (List Char) → List Char
  | [] => []
  | [block] => block
  | block :: rest => block ++ '\n' :: joinBlocks rest

/-- The text of an object. -/
def write (j : Json) : Except WriteFault String :=
  match firstFault j with
  | some fault => .error fault
  | none => .ok (String.ofList (joinBlocks (blocks [] false j)))

end DocRelay.Toml
