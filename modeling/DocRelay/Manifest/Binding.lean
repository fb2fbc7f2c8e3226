import DocRelay.Json.Decode

namespace DocRelay

/-!
# Bindings

Free-form values that a manifest hands to its application.  The application asks for a value by
its key and with the kind of data it expects.

* `BindingKind` — a kind of data;
* `BindingKind.decode` — the data of that kind in a value, as a value again.
-/

/-- A kind of data that an application may expect of a binding. -/
inductive BindingKind where
  | text
  | truth
  | word8
  | word32
  | signed64
  | word64
  | float64
  | texts
  | value
deriving DecidableEq, Repr

/-- The data of a kind in a value, as a value again: of what kind a number was does not matter
    to a floating-point binding, which gives a floating-point number. -/
def BindingKind.decode (kind : BindingKind) (j : Json) : Except Json.Misfit Json :=
  match kind with
  | .text => (Json.asText j).map .str
  | .truth => (Json.asBool j).map .bool
  | .word8 => (Json.asInt "u8" 0 0xFF j).map .int
  | .word32 => (Json.asInt "u32" 0 0xFFFFFFFF j).map .int
  | .signed64 => (Json.asInt "i64" (-0x8000000000000000) 0x7FFFFFFFFFFFFFFF j).map .int
  | .word64 => (Json.asInt "u64" 0 0xFFFFFFFFFFFFFFFF j).map .int
  | .float64 => (Json.asFloat j).map .float
  | .texts => (Json.asList Json.asText j).map fun texts => .arr (texts.map .str)
  | .value => .ok j

end DocRelay
