import DocRelay.Blake3
import DocRelay.Digits.Hex
import DocRelay.Text.Utf8

namespace DocRelay

/-!
# Content digests

A digest is written `blake3:` and 64 hexadecimal digits.

* `Digest.compute` — the digest of a byte string;
* `Digest.parse` — the 32 bytes that a digest spells, or why it spells none;
* `Digest.verify` — whether bytes have an expected digest.
-/

namespace Digest

/-- What every digest begins with. -/
def scheme : String := "blake3:"

/-- Why a text is no digest. -/
inductive Fault where
  | noScheme (digest : String)
  | badDigits (fault : Hex.Fault)
  | badLength (digest : String)
deriving DecidableEq, Repr

/-- The wording of the fault. -/
def Fault.message : Fault → String
  | .noScheme digest => "expected '" ++ scheme ++ "' prefix: " ++ digest
  | .badDigits fault => fault.message
  | .badLength digest => "expected 32 bytes: " ++ digest

/-- The outcome of checking bytes against an expected digest. -/
inductive Check where
  | verified
  | invalid (fault : Fault)
  | mismatch (expected actual : String)
deriving DecidableEq, Repr

/-- The digest of a byte string. -/
def compute (bytes : Bytes) : String :=
  scheme ++ Hex.text (Blake3.hash bytes)

/-- The 32 bytes that a digest spells. -/
def parse (digest : String) : Except Fault Bytes :=
  match scheme.toList.isPrefixOf? digest.toList with
  | none => .error (.noScheme digest)
  | some digits =>
    match Hex.decode (Text.utf8Chars digits) with
    | .error fault => .error (.badDigits fault)
    | .ok bytes => if bytes.length == 32 then .ok bytes else .error (.badLength digest)

/-- Whether the bytes have the expected digest. -/
def verify (bytes : Bytes) (expected : String) : Check :=
  match parse expected with
  | .error fault => .invalid fault
  | .ok hash =>
    if hash == Blake3.hash bytes then .verified else .mismatch expected (compute bytes)

end Digest

end DocRelay
