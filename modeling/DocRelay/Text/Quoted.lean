import DocRelay.Text.Visible

namespace DocRelay.Text

/-!
# Quoted texts

The form in which messages show a text: in double quotes, with the quote, the backslash and
everything without a glyph of its own escaped.

* `escapeChar c` — how one character is shown;
* `quoted s` — the text in quotes; `quotedChar c` — one character in single quotes;
* `hexDigits n` — a number in lower-case hexadecimal, without leading zeros.
-/

/-- The digits of a number in lower-case hexadecimal. -/
def hexDigits (n : Nat) : List Char :=
  Nat.toDigits 16 n

/-- How one character is shown between quotes. -/
def escapeChar (c : Char) : List Char :=
  if c == '"' then ['\\', '"']
  else if c == '\\' then ['\\', '\\']
  else if c.toNat == 0 then ['\\', '0']
  else if c == '\t' then ['\\', 't']
  else if c == '\r' then ['\\', 'r']
  else if c == '\n' then ['\\', 'n']
  else if isVisible c then [c]
  else "\\u\x7b".toList ++ hexDigits c.toNat ++ ['\x7d']

/-- The text in double quotes. -/
def quoted (s : String) : String :=
  String.ofList ('"' :: s.toList.flatMap escapeChar ++ ['"'])

/-- The character in single quotes. -/
def quotedChar (c : Char) : String :=
  let shown :=
    if c == '\'' then ['\\', '\'']
    else if c == '"' then ['"']
    else escapeChar c
  String.ofList ('\'' :: shown ++ ['\''])

end DocRelay.Text
