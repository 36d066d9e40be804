/-
UTF-8: texts as bytes and back.

`encode` writes each character in one to four bytes.  `decode` accepts exactly
the well-formed sequences (no overlong forms, no surrogates, nothing above
U+10FFFF) and says of any other where the first bad sequence starts, where it
stops, and what is wrong with it.
-/
namespace DirectiveFences.Text.Utf8

/-- What is wrong with a byte sequence. -/
inductive Fault
  /-- No character starts with this byte. -/
  | start
  /-- The sequence breaks off before its last byte. -/
  | continuation
  /-- The bytes end inside the sequence. -/
  | truncated
deriving DecidableEq, Repr

/-- The first bad sequence of a list of bytes: the places `first` up to `stop`, the byte at
`first`, and the fault. -/
structure DecodeError where
  first : Nat
  stop : Nat
  byte : UInt8
  fault : Fault
deriving DecidableEq, Repr

/-- The continuation byte that holds the six lowest bits of a number. -/
def continuation (n : Nat) : UInt8 :=
  UInt8.ofNat (0x80 + n % 0x40)

/-- The bytes of a character. -/
def encodeChar (c : Char) : List UInt8 :=
  let n := c.toNat
  if n < 0x80 then [UInt8.ofNat n]
  else if n < 0x800 then [UInt8.ofNat (0xC0 + n / 0x40), continuation n]
  else if n < 0x10000 then
    [UInt8.ofNat (0xE0 + n / 0x1000), continuation (n / 0x40), continuation n]
  else
    [UInt8.ofNat (0xF0 + n / 0x40000), continuation (n / 0x1000), continuation (n / 0x40),
      continuation n]

/-- The bytes of a text. -/
def encode (cs : List Char) : List UInt8 :=
  cs.flatMap encodeChar

/-- What a first byte promises: the bits it holds, and the ranges in which the following bytes
must lie.  The narrowed ranges rule out overlong forms, surrogates and values above U+10FFFF. -/
def lead? (b : UInt8) : Option (Nat × List (Nat × Nat)) :=
  let n := b.toNat
  let tail := (0x80, 0xBF)
  if n < 0x80 then some (n, [])
  else if n < 0xC2 then none
  else if n < 0xE0 then some (n - 0xC0, [tail])
  else if n = 0xE0 then some (0, [(0xA0, 0xBF), tail])
  else if n = 0xED then some (0xD, [(0x80, 0x9F), tail])
  else if n < 0xF0 then some (n - 0xE0, [tail, tail])
  else if n = 0xF0 then some (0, [(0x90, 0xBF), tail, tail])
  else if n < 0xF4 then some (n - 0xF0, [tail, tail, tail])
  else if n = 0xF4 then some (4, [(0x80, 0x8F), tail, tail])
  else none

/-- A sequence that has begun: its first byte and place, the bits read, and the ranges of the
bytes that are still to come. -/
structure Pending where
  byte : UInt8
  first : Nat
  bits : Nat
  awaited : List (Nat × Nat)

/-- Decode from place `pos` on, inside a sequence or between two. -/
def decodeFrom : Nat → Option Pending → List UInt8 → Except DecodeError (List Char)
  | _, none, [] => .ok []
  | pos, some p, [] => .error ⟨p.first, pos, p.byte, .truncated⟩
  | pos, none, b :: bs =>
    match lead? b with
    | none => .error ⟨pos, pos + 1, b, .start⟩
    | some (bits, []) =>
      match decodeFrom (pos + 1) none bs with
      | .ok cs => .ok (Char.ofNat bits :: cs)
      | .error e => .error e
    | some (bits, r :: rs) => decodeFrom (pos + 1) (some ⟨b, pos, bits, r :: rs⟩) bs
  | pos, some ⟨byte, first, bits, awaited⟩, b :: bs =>
    match awaited with
    | [] => .error ⟨first, pos, byte, .continuation⟩
    | (lo, hi) :: rs =>
      if lo ≤ b.toNat ∧ b.toNat ≤ hi then
        let bits := bits * 0x40 + (b.toNat - 0x80)
        match rs with
        | [] =>
          match decodeFrom (pos + 1) none bs with
          | .ok cs => .ok (Char.ofNat bits :: cs)
          | .error e => .error e
        | r :: rs => decodeFrom (pos + 1) (some ⟨byte, first, bits, r :: rs⟩) bs
      else .error ⟨first, pos, byte, .continuation⟩

/-- The text that the bytes spell, or the first place where they spell none. -/
def decode (bs : List UInt8) : Except DecodeError (List Char) :=
  decodeFrom 0 none bs

/-- What a message says of a fault. -/
def Fault.message : Fault → String
  | .start => "invalid start byte"
  | .continuation => "invalid continuation byte"
  | .truncated => "unexpected end of data"

/-- A byte in two hexadecimal digits. -/
def hexByte (b : UInt8) : String :=
  String.ofList [Nat.digitChar (b.toNat / 16), Nat.digitChar (b.toNat % 16)]

/-- The message names the one bad byte, or the places of several. -/
def DecodeError.message (e : DecodeError) : String :=
  let bytes :=
    if e.stop = e.first + 1 then "byte 0x" ++ hexByte e.byte ++ " in position " ++ toString e.first
    else "bytes in position " ++ toString e.first ++ "-" ++ toString (e.stop - 1)
  "'utf-8' codec can't decode " ++ bytes ++ ": " ++ e.fault.message

end DirectiveFences.Text.Utf8
