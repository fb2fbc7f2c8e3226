import DocRelay.Json.Fault

namespace DocRelay.Json

/-!
# Cursors

A place in a text that is being read: the characters that are left, and how far the reading has
come, in lines and in bytes of the line.

* `Cursor.advance` — one character further;
* `Cursor.here`, `Cursor.ahead` — the place of what was read, and one byte further on;
* `Cursor.skipBlanks` — past blanks.
-/

/-- The rest of a text and the place where it begins. -/
structure Cursor where
  rest : List Char
  line : Nat
  column : Nat

namespace Cursor

/-- The start of a text. -/
def start (cs : List Char) : Cursor := ⟨cs, 1, 0⟩

/-- One character further; at the end nothing moves. -/
def advance : Cursor → Cursor
  | ⟨[], line, column⟩ => ⟨[], line, column⟩
  | ⟨c :: rest, line, column⟩ =>
    if c == '\n' then ⟨rest, line + 1, 0⟩ else ⟨rest, line, column + c.utf8Size⟩

/-- So many characters further. -/
def advanceBy : Nat → Cursor → Cursor
  | 0, cur => cur
  | n + 1, cur => advanceBy n cur.advance

/-- The place of what was read. -/
def here (cur : Cursor) : Place := ⟨cur.line, cur.column⟩

/-- The place `count` bytes into the characters that follow a place; the end is no further. -/
def placeIn (line column : Nat) : Nat → List Char → Place
  | _, [] => ⟨line, column⟩
  | 0, _ => ⟨line, column⟩
  | count + 1, c :: rest =>
    if c == '\n' then placeIn (line + 1) 0 count rest
    else if count + 1 < c.utf8Size then ⟨line, column + (count + 1)⟩
    else placeIn line (column + c.utf8Size) (count + 1 - c.utf8Size) rest

/-- The place `count` bytes on. -/
def placeAfter (count : Nat) (cur : Cursor) : Place :=
  placeIn cur.line cur.column count cur.rest

/-- The place one byte on, where the next character is looked at. -/
def ahead (cur : Cursor) : Place :=
  cur.placeAfter 1

/-- The place of the end of the text. -/
def endPlace (cur : Cursor) : Place :=
  (advanceBy cur.rest.length cur).here

/-- A fault of the text at the place of what was read. -/
def fail {α : Type} (cur : Cursor) (cause : Malformed) : Except Fault α :=
  .error (.malformed cause cur.here)

/-- A fault of the text one byte on. -/
def failAhead {α : Type} (cur : Cursor) (cause : Malformed) : Except Fault α :=
  .error (.malformed cause cur.ahead)

/-- A blank of the format. -/
def isBlank (c : Char) : Bool :=
  c == ' ' || c == '\n' || c == '\t' || c == '\r'

/-- Past the characters that satisfy `p`. -/
def skipWhile (p : Char → Bool) (cur : Cursor) : Cursor :=
  advanceBy (cur.rest.takeWhile p).length cur

/-- Past blanks. -/
def skipBlanks (cur : Cursor) : Cursor :=
  cur.skipWhile isBlank

/-- Advancing drops the first character. -/
@[simp] theorem rest_advance (cur : Cursor) : cur.advance.rest = cur.rest.tail := by
  obtain ⟨rest, line, column⟩ := cur
  cases rest with
  | nil => rfl
  | cons c rest => simp only [advance, List.tail_cons]; split <;> rfl

/-- Advancing drops characters from the front. -/
@[simp] theorem rest_advanceBy (n : Nat) (cur : Cursor) :
    (advanceBy n cur).rest = cur.rest.drop n := by
  induction n generalizing cur with
  | zero => rfl
  | succ n ih => simp [advanceBy, ih]

end Cursor

end DocRelay.Json
