import DocRelay.Json.Basic
import DocRelay.Number.Layout

namespace DocRelay.Json

/-!
# JSON text

Values written without blanks.  Characters outside ASCII stand for themselves; quotes,
backslashes and controls are escaped.

* `numberLayout` — how floating-point numbers are laid out;
* `escapeChar`, `quote` — how texts are written;
* `render`, `compact` — the text of a value.
-/

/-- Digits stand in their places from `0.00001` on and below `1e16`; an exponent has its sign
    and at least two digits. -/
def numberLayout : Layout := ⟨some (-4), some 16, 2⟩

/-- How one character is written between quotes. -/
def escapeChar (c : Char) : List Char :=
  if c == '"' then ['\\', '"']
  else if c == '\\' then ['\\', '\\']
  else if c == '\n' then ['\\', 'n']
  else if c == '\r' then ['\\', 'r']
  else if c == '\t' then ['\\', 't']
  else if c.toNat == 0x08 then ['\\', 'b']
  else if c.toNat == 0x0C then ['\\', 'f']
  else if c.toNat < 0x20 then
    ['\\', 'u', '0', '0', Nat.digitChar (c.toNat / 16), Nat.digitChar (c.toNat % 16)]
  else [c]

/-- The characters of a text in quotes. -/
def quote (s : String) : List Char :=
  '"' :: s.toList.flatMap escapeChar ++ ['"']

/-- The characters of an integer. -/
def renderInt (n : Int) : List Char :=
  if n < 0 then '-' :: Nat.toDigits 10 n.natAbs else Nat.toDigits 10 n.natAbs

mutual

/-- The characters of a value. -/
def render : Json → List Char
  | .null => "null".toList
  | .bool true => "true".toList
  | .bool false => "false".toList
  | .int n => renderInt n
  | .float x => if x.isFinite then numberLayout.render x else "null".toList
  | .str s => quote s
  | .arr items => '[' :: renderItems items ++ [']']
  | .obj members => '\x7b' :: renderMembers members ++ ['\x7d']

/-- The items with commas between them. -/
def renderItems : List Json → List Char
  | [] => []
  | [item] => render item
  | item :: rest => render item ++ ',' :: renderItems rest

/-- The members with commas between them. -/
def renderMembers : List (String × Json) → List Char
  | [] => []
  | [(key, value)] => quote key ++ ':' :: render value
  | (key, value) :: rest => quote key ++ ':' :: render value ++ ',' :: renderMembers rest

end

/-- The text of a value, without blanks. -/
def compact (j : Json) : String :=
  String.ofList (render j)

end DocRelay.Json
