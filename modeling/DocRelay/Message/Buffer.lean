import DocRelay.Digits.Base64
import DocRelay.Json.Fault
import DocRelay.Text.Utf8

namespace DocRelay

/-!
# Buffers in messages

Binary data travels in messages as Base64 texts.

* `MessageFault` — why a message or a buffer cannot be decoded;
* `Buffer.encode`, `Buffer.decode` — a buffer and its text.
-/

/-- Why a message or one of its buffers cannot be decoded. -/
inductive MessageFault where
  /-- The text is no message. -/
  | undecodable (fault : Json.Fault)
  /-- The text of a buffer is no Base64. -/
  | badBuffer (fault : Base64.Fault)
deriving DecidableEq, Repr

/-- The wording of the fault. -/
def MessageFault.message : MessageFault → String
  | .undecodable fault => "failed to decode message: " ++ fault.message
  | .badBuffer fault => "invalid buffer: " ++ fault.message

namespace Buffer

/-- The text of a buffer. -/
def encode (bytes : Bytes) : String :=
  Base64.text bytes

/-- The bytes of a buffer. -/
def decode (text : String) : Except MessageFault Bytes :=
  match Base64.decode (Text.utf8 text) with
  | .ok bytes => .ok bytes
  | .error fault => .error (.badBuffer fault)

end Buffer

end DocRelay
