import DocRelay.Bytes

namespace DocRelay.Base64

/-!
# Base64

Bytes as symbols of six bits, four symbols for each three bytes.  A last group of one or two
bytes is padded with `=`, and its unused bits are zero; reading refuses everything else.

* `encode`, `decode` — the two directions;
* `Fault` — why a text spells no bytes, with the place.
-/

/-- The padding byte. -/
def pad : UInt8 := 0x3D

/-- Why a text spells no bytes. -/
inductive Fault where
  | badSymbol (offset : Nat) (byte : UInt8)
  | badLength (length : Nat)
  | badLastSymbol (offset : Nat) (byte : UInt8)
  | badPadding
deriving DecidableEq, Repr

/-- The wording of the fault. -/
def Fault.message : Fault → String
  | .badSymbol offset byte =>
    "Invalid symbol " ++ toString byte.toNat ++ ", offset " ++ toString offset ++ "."
  | .badLength length => "Invalid input length: " ++ toString length
  | .badLastSymbol offset byte =>
    "Invalid last symbol " ++ toString byte.toNat ++ ", offset " ++ toString offset ++ "."
  | .badPadding => "Invalid padding"

/-- The symbol of a number below sixty-four. -/
def symbol (n : Nat) : UInt8 :=
  if n < 26 then UInt8.ofNat (0x41 + n)
  else if n < 52 then UInt8.ofNat (0x61 + n - 26)
  else if n < 62 then UInt8.ofNat (0x30 + n - 52)
  else if n == 62 then 0x2B
  else 0x2F

/-- The number of a symbol. -/
def value? (b : UInt8) : Option Nat :=
  let n := b.toNat
  if 0x41 ≤ n && n ≤ 0x5A then some (n - 0x41)
  else if 0x61 ≤ n && n ≤ 0x7A then some (n - 0x61 + 26)
  else if 0x30 ≤ n && n ≤ 0x39 then some (n - 0x30 + 52)
  else if n == 0x2B then some 62
  else if n == 0x2F then some 63
  else none

/-- The symbols of the bytes. -/
def encode : Bytes → Bytes
  | [] => []
  | [a] => [symbol (a.toNat / 4), symbol (a.toNat % 4 * 16), pad, pad]
  | [a, b] =>
    [symbol (a.toNat / 4), symbol (a.toNat % 4 * 16 + b.toNat / 16), symbol (b.toNat % 16 * 4),
      pad]
  | a :: b :: c :: rest =>
    symbol (a.toNat / 4) :: symbol (a.toNat % 4 * 16 + b.toNat / 16)
      :: symbol (b.toNat % 16 * 4 + c.toNat / 64) :: symbol (c.toNat % 64) :: encode rest

/-- The symbols of the bytes as a text. -/
def text (bytes : Bytes) : String :=
  String.ofList ((encode bytes).map fun b => Char.ofNat b.toNat)

/-- The number of the symbol at an offset. -/
def valueAt (offset : Nat) (b : UInt8) : Except Fault Nat :=
  match value? b with
  | some n => .ok n
  | none => .error (.badSymbol offset b)

/-- The three bytes of four symbols. -/
def join (a b c d : Nat) : Bytes :=
  [UInt8.ofNat (a * 4 + b / 16), UInt8.ofNat (b % 16 * 16 + c / 4),
    UInt8.ofNat (c % 4 * 64 + d)]

/-- The numbers of the symbols of the last group before its padding, and how much padding there
    is.  Padding takes at most the last two places, and no symbol follows it. -/
def lastSymbols (offset : Nat) : Nat → Bytes → Except Fault (List Nat × Nat)
  | _, [] => .ok ([], 0)
  | index, b :: rest =>
    if b == pad then
      if index < 2 then .error (.badSymbol (offset + index) b)
      else if rest.all (· == pad) then .ok ([], rest.length + 1)
      else .error (.badSymbol (offset + index) pad)
    else do
      let n ← valueAt (offset + index) b
      let (others, padding) ← lastSymbols offset (index + 1) rest
      return (n :: others, padding)

/-- The bytes of the last group, which begins at an offset. -/
def decodeLast (offset : Nat) (group : Bytes) : Except Fault Bytes := do
  let (symbols, padding) ← lastSymbols offset 0 group
  let last (index : Nat) : Fault := .badLastSymbol (offset + index) (group.getD index 0)
  match symbols with
  | [] => return []
  | [_] => throw (.badLength (offset + 1))
  | [a, b] =>
    if padding != 2 then throw .badPadding
    else if b % 16 != 0 then throw (last 1)
    else return (join a b 0 0).take 1
  | [a, b, c] =>
    if padding != 1 then throw .badPadding
    else if c % 4 != 0 then throw (last 2)
    else return (join a b c 0).take 2
  | a :: b :: c :: d :: _ =>
    if padding != 0 then throw .badPadding else return join a b c d

/-- The bytes of the symbols from an offset on: full groups, then a last one of at most four
    places. -/
def decodeGroups : Nat → Bytes → Except Fault Bytes
  | offset, a :: b :: c :: d :: e :: rest => do
    let first ← valueAt offset a
    let second ← valueAt (offset + 1) b
    let third ← valueAt (offset + 2) c
    let fourth ← valueAt (offset + 3) d
    let others ← decodeGroups (offset + 4) (e :: rest)
    return join first second third fourth ++ others
  | offset, group => decodeLast offset group

/-- The bytes that the symbols spell.  A single byte past the last full group that is no symbol
    is reported before anything else. -/
def decode (symbols : Bytes) : Except Fault Bytes :=
  match symbols.getLast? with
  | none => .ok []
  | some last =>
    if symbols.length % 4 == 1 && last != pad && (value? last).isNone then
      .error (.badSymbol (symbols.length - 1) last)
    else decodeGroups 0 symbols

/-- A symbol has the number it was made from. -/
theorem value?_symbol : ∀ n < 64, value? (symbol n) = some n := by decide

end DocRelay.Base64
