import DocRelay.Bytes

namespace DocRelay.Text

/-!
# UTF-8

Texts as bytes and back.  A byte string that is no UTF-8 is refused with the place of the first
broken sequence: either some bytes that can begin no character, or a character cut short by the
end.

* `utf8 s` — the bytes of a text;
* `firstChar? bytes` — what the bytes begin with;
* `ofUtf8 bytes` — the text, or the first fault; `ofUtf8Lossy` puts a replacement character for
  each fault instead.
-/

/-- The UTF-8 bytes of the characters. -/
def utf8Chars (cs : List Char) : Bytes :=
  cs.flatMap String.utf8EncodeChar

/-- The UTF-8 bytes of a text. -/
def utf8 (s : String) : Bytes :=
  utf8Chars s.toList

/-- Why bytes are no UTF-8. -/
inductive Utf8Fault where
  /-- From `index` on, `count` bytes begin no character. -/
  | broken (index count : Nat)
  /-- The character that begins at `index` is cut short by the end. -/
  | cut (index : Nat)
deriving Repr, DecidableEq

/-- The wording of the fault. -/
def Utf8Fault.message : Utf8Fault → String
  | .broken index count =>
    "invalid utf-8 sequence of " ++ toString count ++ " bytes from index " ++ toString index
  | .cut index => "incomplete utf-8 byte sequence from index " ++ toString index

/-- What a byte string begins with. -/
inductive Utf8Head where
  /-- A character of `count` bytes. -/
  | char (c : Char) (count : Nat)
  /-- Bytes that begin no character. -/
  | broken (count : Nat)
  /-- A character cut short by the end. -/
  | cut

/-- A byte that continues a character. -/
def isContinuation (b : UInt8) : Bool :=
  0x80 ≤ b && b ≤ 0xBF

/-- The second bytes that may follow a first byte of a character of three or four bytes: they
    exclude overlong forms, surrogates and numbers past the last code point. -/
def isSecond (first second : UInt8) : Bool :=
  if first == 0xE0 then 0xA0 ≤ second && second ≤ 0xBF
  else if first == 0xED then 0x80 ≤ second && second ≤ 0x9F
  else if first == 0xF0 then 0x90 ≤ second && second ≤ 0xBF
  else if first == 0xF4 then 0x80 ≤ second && second ≤ 0x8F
  else isContinuation second

/-- The payload of a continuation byte. -/
def payload (b : UInt8) : Nat :=
  b.toNat % 64

/-- What a byte string that begins with `first` begins with. -/
def utf8Head (first : UInt8) (rest : Bytes) : Utf8Head :=
  let n := first.toNat
  if n < 0x80 then .char (Char.ofNat n) 1
  else if n < 0xC2 || 0xF4 < n then .broken 1
  else if n < 0xE0 then
    match rest with
    | [] => .cut
    | second :: _ =>
      if isContinuation second then .char (Char.ofNat (n % 32 * 64 + payload second)) 2
      else .broken 1
  else if n < 0xF0 then
    match rest with
    | [] => .cut
    | second :: rest =>
      if isSecond first second then
        match rest with
        | [] => .cut
        | third :: _ =>
          if isContinuation third then
            .char (Char.ofNat ((n % 16 * 64 + payload second) * 64 + payload third)) 3
          else .broken 2
      else .broken 1
  else
    match rest with
    | [] => .cut
    | second :: rest =>
      if isSecond first second then
        match rest with
        | [] => .cut
        | third :: rest =>
          if isContinuation third then
            match rest with
            | [] => .cut
            | fourth :: _ =>
              if isContinuation fourth then
                .char (Char.ofNat
                  (((n % 8 * 64 + payload second) * 64 + payload third) * 64 + payload fourth)) 4
              else .broken 3
          else .broken 2
      else .broken 1

/-- The characters of the bytes that are left after `skip` more bytes; `index` counts the bytes
    already passed. -/
def ofUtf8From : Nat → Nat → Bytes → Except Utf8Fault (List Char)
  | _, _, [] => .ok []
  | index, skip + 1, _ :: rest => ofUtf8From (index + 1) skip rest
  | index, 0, first :: rest =>
    match utf8Head first rest with
    | .char c count => (ofUtf8From (index + 1) (count - 1) rest).map (c :: ·)
    | .broken count => .error (.broken index count)
    | .cut => .error (.cut index)

/-- The characters of a byte string. -/
def charsOfUtf8 (bytes : Bytes) : Except Utf8Fault (List Char) :=
  ofUtf8From 0 0 bytes

/-- The text of a byte string. -/
def ofUtf8 (bytes : Bytes) : Except Utf8Fault String :=
  (charsOfUtf8 bytes).map String.ofList

/-- The characters of the bytes after `skip` more bytes, each broken sequence replaced. -/
def lossyFrom : Nat → Bytes → List Char
  | _, [] => []
  | skip + 1, _ :: rest => lossyFrom skip rest
  | 0, first :: rest =>
    match utf8Head first rest with
    | .char c count => c :: lossyFrom (count - 1) rest
    | .broken count => Char.ofNat 0xFFFD :: lossyFrom (count - 1) rest
    | .cut => [Char.ofNat 0xFFFD]

/-- The text of a byte string, with a replacement character for each broken sequence. -/
def ofUtf8Lossy (bytes : Bytes) : String :=
  String.ofList (lossyFrom 0 bytes)

/-- ASCII characters are their own bytes. -/
theorem utf8EncodeChar_of_ascii {c : Char} (h : c.toNat < 0x80) :
    String.utf8EncodeChar c = [UInt8.ofNat c.toNat] := by
  have small : c.val.toNat ≤ 127 := Nat.le_of_lt_succ h
  rw [String.utf8EncodeChar, if_pos small]
  rfl

end DocRelay.Text
