import Castellano.Text.Quoted

/-!
# UTF-8

Strict decoding of bytes, one at a time. A byte either starts a character or is one of the
continuation bytes that the character begun before it still owes. The first fault ends the
decoding and is described by the bytes that it spoils.

* `Fault` — where decoding failed and why; `Fault.message` words it.
* `decode` — the characters of a byte sequence, or its first fault.
-/

namespace Castellano.Text.Utf8

/-- Why a byte sequence is not UTF-8. -/
inductive Reason where
  /-- No character starts with this byte. -/
  | invalidStart
  /-- The byte behind those read so far cannot continue their character. -/
  | invalidContinuation
  /-- The bytes end inside a character. -/
  | unexpectedEnd
deriving DecidableEq, Repr

/-- The wording of a reason. -/
def Reason.message : Reason → String
  | .invalidStart => "invalid start byte"
  | .invalidContinuation => "invalid continuation byte"
  | .unexpectedEnd => "unexpected end of data"

/-- A fault: the offset of the first spoiled byte, that byte, how many bytes are spoiled, and the
    reason. -/
structure Fault where
  offset : Nat
  first : UInt8
  count : Nat
  reason : Reason
deriving DecidableEq, Repr

/-- The wording of a fault: a single byte is shown, several are given by their offsets. -/
def Fault.message (f : Fault) : String :=
  let place :=
    if f.count = 1 then
      "byte 0x" ++ String.ofList (hexPadded 2 f.first.toNat) ++ s!" in position {f.offset}"
    else s!"bytes in position {f.offset}-{f.offset + f.count - 1}"
  s!"'utf-8' codec can't decode {place}: {f.reason.message}"

/-- A character that still owes continuation bytes: its first byte and that byte's offset, how many
    bytes were read and how many are owed, the least and greatest next byte, and the bits so far. -/
structure Pending where
  offset : Nat
  first : UInt8
  read : Nat
  owed : Nat
  low : Nat
  high : Nat
  bits : Nat

/-- The fault of a pending character. -/
def Pending.fault (p : Pending) (reason : Reason) : Fault := ⟨p.offset, p.first, p.read, reason⟩

/-- What a first byte above the ASCII range announces. The second byte of some characters has a
    narrower range, which excludes overlong forms, surrogates and numbers above `0x10ffff`. -/
def Pending.ofFirst (offset : Nat) (byte : UInt8) : Option Pending :=
  let b := byte.toNat
  if 0xc2 ≤ b ∧ b ≤ 0xdf then some ⟨offset, byte, 1, 1, 0x80, 0xbf, b - 0xc0⟩
  else if 0xe0 ≤ b ∧ b ≤ 0xef then
    let low := if b = 0xe0 then 0xa0 else 0x80
    let high := if b = 0xed then 0x9f else 0xbf
    some ⟨offset, byte, 1, 2, low, high, b - 0xe0⟩
  else if 0xf0 ≤ b ∧ b ≤ 0xf4 then
    let low := if b = 0xf0 then 0x90 else 0x80
    let high := if b = 0xf4 then 0x8f else 0xbf
    some ⟨offset, byte, 1, 3, low, high, b - 0xf0⟩
  else none

/-- Decodes the bytes from the given offset on, behind the bytes of a pending character if there is
    one. -/
def decodeFrom (offset : Nat) (pending : Option Pending) : List UInt8 → Except Fault (List Char)
  | [] =>
    match pending with
    | none => .ok []
    | some p => .error (p.fault .unexpectedEnd)
  | byte :: bytes =>
    match pending with
    | none =>
      if byte.toNat < 0x80 then
        (decodeFrom (offset + 1) none bytes).map (Char.ofNat byte.toNat :: ·)
      else
        match Pending.ofFirst offset byte with
        | none => .error ⟨offset, byte, 1, .invalidStart⟩
        | some p => decodeFrom (offset + 1) (some p) bytes
    | some p =>
      if p.low ≤ byte.toNat ∧ byte.toNat ≤ p.high then
        let bits := p.bits * 64 + (byte.toNat - 0x80)
        if p.owed = 1 then (decodeFrom (offset + 1) none bytes).map (Char.ofNat bits :: ·)
        else
          let p := { p with
            read := p.read + 1, owed := p.owed - 1, low := 0x80, high := 0xbf, bits := bits }
          decodeFrom (offset + 1) (some p) bytes
      else .error (p.fault .invalidContinuation)

/-- The characters that the bytes encode, or the first fault. -/
def decode (bytes : List UInt8) : Except Fault (List Char) := decodeFrom 0 none bytes

end Castellano.Text.Utf8
