/-!
# Bytes and texts

The bytes that encode a text, and the reading of a text from bytes, one byte at a time.  The reading
stops at the first byte that no text can have there, and tells where the character began that it
spoils.
-/

namespace Longhand.Text

/-! ## Writing -/

/-- A byte behind the first one of a character, given its six bits. -/
def continuation (n : Nat) : UInt8 :=
  UInt8.ofNat (0x80 + n % 64)

/-- The bytes of a character. -/
def charBytes (c : Char) : List UInt8 :=
  let n := c.toNat
  if n < 0x80 then [UInt8.ofNat n]
  else if n < 0x800 then [UInt8.ofNat (0xc0 + n / 64), continuation n]
  else if n < 0x10000 then
    [UInt8.ofNat (0xe0 + n / 4096), continuation (n / 64), continuation n]
  else
    [UInt8.ofNat (0xf0 + n / 262144), continuation (n / 4096), continuation (n / 64),
      continuation n]

/-- The bytes of a text. -/
def bytes (text : String) : List UInt8 :=
  text.toList.flatMap charBytes

/-! ## Reading -/

/-- Where bytes stop to be a text.  Everything before `index` is one.  `length` counts the bytes
from there that cannot begin any character; there is none when the bytes just end too early. -/
structure EncodingFault where
  index : Nat
  length : Option Nat
  deriving Repr, DecidableEq

/-- A character of which some bytes are read: the bits so far, the number of bytes read and due, and
the bounds of the next one. -/
structure PartialChar where
  code : Nat
  taken : Nat
  due : Nat
  low : Nat
  high : Nat
  deriving Repr, DecidableEq

/-- What the first byte of a character announces. -/
def PartialChar.ofFirst? (byte : Nat) : Option PartialChar :=
  if byte < 0xc2 then none
  else if byte < 0xe0 then some ⟨byte - 0xc0, 1, 1, 0x80, 0xbf⟩
  else if byte = 0xe0 then some ⟨0, 1, 2, 0xa0, 0xbf⟩
  else if byte = 0xed then some ⟨0xd, 1, 2, 0x80, 0x9f⟩
  else if byte < 0xf0 then some ⟨byte - 0xe0, 1, 2, 0x80, 0xbf⟩
  else if byte = 0xf0 then some ⟨0, 1, 3, 0x90, 0xbf⟩
  else if byte < 0xf4 then some ⟨byte - 0xf0, 1, 3, 0x80, 0xbf⟩
  else if byte = 0xf4 then some ⟨4, 1, 3, 0x80, 0x8f⟩
  else none

/-- Take one more byte into a character. -/
def PartialChar.take (p : PartialChar) (byte : Nat) : PartialChar :=
  ⟨p.code * 64 + (byte - 0x80), p.taken + 1, p.due - 1, 0x80, 0xbf⟩

/-- The characters that some bytes encode from an index on, within a character or between two. -/
def charsFrom (index : Nat) : Option PartialChar → List UInt8 → Except EncodingFault (List Char)
  | none, [] => .ok []
  | some _, [] => .error ⟨index, none⟩
  | none, b :: rest =>
      if b.toNat < 0x80 then
        match charsFrom (index + 1) none rest with
        | .ok cs => .ok (Char.ofNat b.toNat :: cs)
        | .error e => .error e
      else
        match PartialChar.ofFirst? b.toNat with
        | some p => charsFrom index (some p) rest
        | none => .error ⟨index, some 1⟩
  | some p, b :: rest =>
      if p.low ≤ b.toNat && b.toNat ≤ p.high then
        let p := p.take b.toNat
        if p.due = 0 then
          match charsFrom (index + p.taken) none rest with
          | .ok cs => .ok (Char.ofNat p.code :: cs)
          | .error e => .error e
        else charsFrom index (some p) rest
      else .error ⟨index, some p.taken⟩

/-- The text that some bytes encode. -/
def ofBytes (bytes : List UInt8) : Except EncodingFault String :=
  (charsFrom 0 none bytes).map String.ofList

/-- The wording of a fault. -/
def EncodingFault.message (e : EncodingFault) : String :=
  match e.length with
  | some n =>
      "invalid utf-8 sequence of " ++ toString n ++ " bytes from index " ++ toString e.index
  | none => "incomplete utf-8 byte sequence from index " ++ toString e.index

end Longhand.Text
