import DocRelay.Json.Cursor

namespace DocRelay.Json

/-!
# Reading strings

The characters between quotes, with their escapes.  Characters outside the basic plane are
escaped as pairs of surrogates.

* `readEscape` — an escape behind its backslash;
* `readString` — a string behind its opening quote.
-/

/-- The value of a hexadecimal digit. -/
def hexValue? (c : Char) : Option Nat :=
  if c.isDigit then some (c.toNat - 48)
  else if 'a' ≤ c && c ≤ 'f' then some (c.toNat - 87)
  else if 'A' ≤ c && c ≤ 'F' then some (c.toNat - 55)
  else none

/-- The number that hexadecimal digits spell. -/
def hexNumber? (cs : List Char) : Option Nat :=
  cs.foldl (fun acc c => do return (← acc) * 16 + (← hexValue? c)) (some 0)

/-- At least four bytes are left. -/
def fourBytesLeft (cur : Cursor) : Bool :=
  4 ≤ (cur.rest.take 4).foldr (fun c bytes => c.utf8Size + bytes) 0

/-- Four hexadecimal digits. -/
def readFourHex (cur : Cursor) : Except Fault (Nat × Cursor) :=
  if !fourBytesLeft cur then .error (.malformed .endInString cur.endPlace)
  else
    let digits := cur.rest.take 4
    match (if digits.length == 4 then hexNumber? digits else none) with
    | some n => .ok (n, Cursor.advanceBy 4 cur)
    | none => .error (.malformed .invalidEscape (cur.placeAfter 4))

/-- The character `c`, where a pair of surrogates goes on. -/
def expectInPair (c : Char) (cur : Cursor) : Except Fault Cursor :=
  match cur.rest with
  | [] => cur.fail .endInString
  | d :: _ =>
    if d == c then .ok cur.advance else .error (.malformed .endOfEscape (cur.placeAfter 1))

/-- A numeric escape behind its `u`. -/
def readUnicode (cur : Cursor) : Except Fault (Char × Cursor) := do
  let (high, cur) ← readFourHex cur
  if 0xDC00 ≤ high && high ≤ 0xDFFF then cur.fail .loneSurrogate
  else if high < 0xD800 || 0xDBFF < high then .ok (Char.ofNat high, cur)
  else
    let cur ← expectInPair '\\' cur
    let cur ← expectInPair 'u' cur
    let (low, cur) ← readFourHex cur
    if low < 0xDC00 || 0xDFFF < low then cur.fail .loneSurrogate
    else .ok (Char.ofNat (0x10000 + (high - 0xD800) * 0x400 + (low - 0xDC00)), cur)

/-- The character that a one-letter escape stands for. -/
def shortEscape? : Char → Option Char
  | '"' => some '"'
  | '\\' => some '\\'
  | '/' => some '/'
  | 'b' => some (Char.ofNat 0x08)
  | 'f' => some (Char.ofNat 0x0C)
  | 'n' => some '\n'
  | 'r' => some '\r'
  | 't' => some '\t'
  | _ => none

/-- An escape behind its backslash. -/
def readEscape (cur : Cursor) : Except Fault (Char × Cursor) :=
  match cur.rest with
  | [] => cur.fail .endInString
  | c :: _ =>
    if c == 'u' then readUnicode cur.advance
    else
      match shortEscape? c with
      | some e => .ok (e, cur.advance)
      | none => .error (.malformed .invalidEscape (cur.placeAfter 1))

/-- The characters of a string up to its closing quote; `fuel` bounds their number. -/
def readChars : Nat → Cursor → Except Fault (List Char × Cursor)
  | 0, cur => .error (.malformed .endInString cur.endPlace)
  | fuel + 1, cur =>
    match cur.rest with
    | [] => cur.fail .endInString
    | c :: _ =>
      if c == '"' then .ok ([], cur.advance)
      else if c == '\\' then do
        let (e, cur) ← readEscape cur.advance
        let (rest, cur) ← readChars fuel cur
        return (e :: rest, cur)
      else if c.toNat < 0x20 then .error (.malformed .controlInString (cur.placeAfter 1))
      else do
        let (rest, cur) ← readChars fuel cur.advance
        return (c :: rest, cur)

/-- A string behind its opening quote. -/
def readString (cur : Cursor) : Except Fault (String × Cursor) := do
  let (cs, cur) ← readChars (cur.rest.length + 1) cur
  return (String.ofList cs, cur)

end DocRelay.Json
