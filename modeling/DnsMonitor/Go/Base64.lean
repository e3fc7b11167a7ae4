import DnsMonitor.Go.Strings

namespace DnsMonitor.Go.Base64

open DnsMonitor.Go.Strings

def sextet (b : UInt8) : Option Nat :=
  if byte 'A' ≤ b ∧ b ≤ byte 'Z' then some (b.toNat - 0x41)
  else if byte 'a' ≤ b ∧ b ≤ byte 'z' then some (b.toNat - 0x61 + 26)
  else if byte '0' ≤ b ∧ b ≤ byte '9' then some (b.toNat - 0x30 + 52)
  else if b = byte '-' then some 62
  else if b = byte '_' then some 63
  else none

/-- Groups of four letters. The last group may be shorter, but not a single letter, and the
bits it does not need are ignored. -/
def decodeGroups : GoString → Option GoString
  | [] => some []
  | [_] => none
  | [a, b] => do
    let x ← sextet a
    let y ← sextet b
    pure [UInt8.ofNat (x * 4 + y / 16)]
  | [a, b, c] => do
    let x ← sextet a
    let y ← sextet b
    let z ← sextet c
    pure [UInt8.ofNat (x * 4 + y / 16), UInt8.ofNat (y % 16 * 16 + z / 4)]
  | a :: b :: c :: d :: rest => do
    let x ← sextet a
    let y ← sextet b
    let z ← sextet c
    let w ← sextet d
    let tail ← decodeGroups rest
    pure (UInt8.ofNat (x * 4 + y / 16) :: UInt8.ofNat (y % 16 * 16 + z / 4) ::
      UInt8.ofNat (z % 4 * 64 + w) :: tail)

def isNewline (b : UInt8) : Bool := b = 0x0A || b = 0x0D

/-- `base64.RawURLEncoding.DecodeString`. Line ends between the letters are skipped. -/
def decodeString (s : GoString) : Option GoString := decodeGroups (s.filter (!isNewline ·))

end DnsMonitor.Go.Base64
