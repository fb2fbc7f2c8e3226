import DocRelay.Json.ReadNumber
import DocRelay.Json.ReadString

namespace DocRelay.Json

/-!
# Reading values

Values of the format, nested at most so many levels deep.  Objects keep all their members in the
order of the text; `Json.canonical` puts them in order.

* `readValue` — a value at a cursor;
* `foldItems`, `foldMembers` — the items of a list and the members of an object, one by one;
* `read` — a text that is one value.
-/

/-- The letters of a word, one by one. -/
def readWord : List Char → Cursor → Except Fault Cursor
  | [], cur => .ok cur
  | letter :: letters, cur =>
    match cur.rest with
    | [] => cur.fail .endInValue
    | c :: _ =>
      if c == letter then readWord letters cur.advance
      else .error (.malformed .wordExpected (cur.placeAfter 1))

/-- Whether another item follows, and the cursor at it; or the cursor behind the bracket. -/
def nextItem (first : Bool) (cur : Cursor) : Except Fault (Bool × Cursor) :=
  let cur := cur.skipBlanks
  match cur.rest with
  | [] => cur.failAhead .endInList
  | c :: _ =>
    if c == ']' then .ok (false, cur.advance)
    else if first then .ok (true, cur)
    else if c == ',' then
      let cur := cur.advance.skipBlanks
      match cur.rest with
      | [] => cur.failAhead .endInValue
      | ']' :: _ => cur.failAhead .trailingComma
      | _ => .ok (true, cur)
    else cur.failAhead .listCommaExpected

/-- Whether another member follows, and the cursor behind the quote that opens its key; or the
    cursor behind the brace. -/
def nextMember (first : Bool) (cur : Cursor) : Except Fault (Bool × Cursor) :=
  let cur := cur.skipBlanks
  match cur.rest with
  | [] => cur.failAhead .endInObject
  | c :: _ =>
    if c == '\x7d' then .ok (false, cur.advance)
    else if first then
      if c == '"' then .ok (true, cur.advance) else cur.failAhead .keyExpected
    else if c == ',' then
      let cur := cur.advance.skipBlanks
      match cur.rest with
      | [] => cur.failAhead .endInValue
      | '"' :: _ => .ok (true, cur.advance)
      | '\x7d' :: _ => cur.failAhead .trailingComma
      | _ => cur.failAhead .keyExpected
    else cur.failAhead .objectCommaExpected

/-- Past the colon behind a key. -/
def readColon (cur : Cursor) : Except Fault Cursor :=
  let cur := cur.skipBlanks
  match cur.rest with
  | [] => cur.failAhead .endInObject
  | ':' :: _ => .ok cur.advance
  | _ => cur.failAhead .colonExpected

/-- The items of a list up to its bracket, each taken up by `item`; `fuel` bounds their
    number. -/
def foldItems {σ : Type} (item : σ → Cursor → Except Fault (σ × Cursor)) :
    Nat → Bool → σ → Cursor → Except Fault (σ × Cursor)
  | 0, _, _, cur => cur.failAhead .endInList
  | fuel + 1, first, state, cur => do
    match ← nextItem first cur with
    | (false, cur) => return (state, cur)
    | (true, cur) =>
      let (state, cur) ← item state cur
      foldItems item fuel false state cur

/-- The members of an object up to its brace, each taken up by `member` from behind its key;
    `fuel` bounds their number. -/
def foldMembers {σ : Type} (member : σ → String → Cursor → Except Fault (σ × Cursor)) :
    Nat → Bool → σ → Cursor → Except Fault (σ × Cursor)
  | 0, _, _, cur => cur.failAhead .endInObject
  | fuel + 1, first, state, cur => do
    match ← nextMember first cur with
    | (false, cur) => return (state, cur)
    | (true, cur) =>
      let (key, cur) ← readString cur
      let (state, cur) ← member state key cur
      foldMembers member fuel false state cur

/-- The items of a list behind its bracket, read by `value`. -/
def readItems (value : Cursor → Except Fault (Json × Cursor)) (cur : Cursor) :
    Except Fault (List Json × Cursor) := do
  let (items, cur) ← foldItems (fun items cur => do
    let (item, cur) ← value cur
    return (item :: items, cur)) (cur.rest.length + 1) true [] cur
  return (items.reverse, cur)

/-- The members of an object behind its brace, their values read by `value`. -/
def readMembers (value : Cursor → Except Fault (Json × Cursor)) (cur : Cursor) :
    Except Fault (List (String × Json) × Cursor) := do
  let (members, cur) ← foldMembers (fun members key cur => do
    let (item, cur) ← value (← readColon cur)
    return ((key, item) :: members, cur)) (cur.rest.length + 1) true [] cur
  return (members.reverse, cur)

/-- A value at a cursor, whose parts are read by `inner`; without it nothing may be nested. -/
def readValueWith (inner : Option (Cursor → Except Fault (Json × Cursor))) (cur : Cursor) :
    Except Fault (Json × Cursor) :=
  let cur := cur.skipBlanks
  match cur.rest with
  | [] => cur.failAhead .endInValue
  | c :: _ =>
    if c == '"' then do
      let (s, cur) ← readString cur.advance
      return (.str s, cur)
    else if c == 'n' then do return (.null, ← readWord ['u', 'l', 'l'] cur.advance)
    else if c == 't' then do return (.bool true, ← readWord ['r', 'u', 'e'] cur.advance)
    else if c == 'f' then do return (.bool false, ← readWord ['a', 'l', 's', 'e'] cur.advance)
    else if c == '-' || c.isDigit then readNumber cur
    else if c == '[' then
      match inner with
      | none => cur.failAhead .tooDeep
      | some value => do
        let (items, cur) ← readItems value cur.advance
        return (.arr items, cur)
    else if c == '\x7b' then
      match inner with
      | none => cur.failAhead .tooDeep
      | some value => do
        let (members, cur) ← readMembers value cur.advance
        return (.obj members, cur)
    else cur.failAhead .valueExpected

/-- A value at a cursor, nested at most `depth` levels. -/
def readValue : Nat → Cursor → Except Fault (Json × Cursor)
  | 0, cur => readValueWith none cur
  | depth + 1, cur => readValueWith (some (readValue depth)) cur

/-- How deep the values of a text may be nested. -/
def depthLimit : Nat := 127

/-- Nothing but blanks is left. -/
def readEnd (cur : Cursor) : Except Fault Unit :=
  let cur := cur.skipBlanks
  if cur.rest.isEmpty then .ok () else cur.failAhead .trailingCharacters

/-- The value that a text is, nested at most `depth` levels. -/
def readWithin (depth : Nat) (text : String) : Except Fault Json := do
  let (value, cur) ← readValue depth (Cursor.start text.toList)
  readEnd cur
  return value

/-- The value that a text is. -/
def read (text : String) : Except Fault Json :=
  readWithin depthLimit text

end DocRelay.Json
