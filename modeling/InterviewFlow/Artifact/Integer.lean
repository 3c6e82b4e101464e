/-!
# Integers in artifacts

Up to 250 an integer is one byte. Above, a mark tells how many bytes follow,
least significant first: 251 for two, 252 for four, 253 for eight. Writing takes
the shortest form; reading takes any form that is no wider than the type.
-/

set_option autoImplicit false

namespace InterviewFlow

namespace Artifact

abbrev Reader := StateT (List UInt8) Option

/-- The lowest bytes of a number, least significant first. -/
def littleEndian : Nat → Nat → List UInt8
  | 0, _ => []
  | width + 1, value => UInt8.ofNat value :: littleEndian width (value / 256)

def readLittleEndian : Nat → Reader Nat
  | 0, bytes => some (0, bytes)
  | _ + 1, [] => none
  | width + 1, byte :: rest =>
      (readLittleEndian width rest).map fun found => (byte.toNat + 256 * found.1, found.2)

/-- An integer below `2 ^ 64` in its shortest form. -/
def writeInteger (value : Nat) : List UInt8 :=
  if value ≤ 250 then [UInt8.ofNat value]
  else if value < 0x10000 then 251 :: littleEndian 2 value
  else if value < 0x100000000 then 252 :: littleEndian 4 value
  else 253 :: littleEndian 8 value

/-- Reads an integer of at most `maxWidth` bytes. -/
def readInteger (maxWidth : Nat) : Reader Nat
  | [] => none
  | mark :: rest =>
      if mark ≤ 250 then some (mark.toNat, rest)
      else if mark = 251 ∧ 2 ≤ maxWidth then readLittleEndian 2 rest
      else if mark = 252 ∧ 4 ≤ maxWidth then readLittleEndian 4 rest
      else if mark = 253 ∧ 8 ≤ maxWidth then readLittleEndian 8 rest
      else none

def readLength : Reader Nat :=
  readInteger 8

/-- Reads the number of a variant or a version. -/
def readTag : Reader Nat :=
  readInteger 4

end Artifact

end InterviewFlow
