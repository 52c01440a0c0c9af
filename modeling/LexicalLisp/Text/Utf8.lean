/-!
# Decoding UTF-8

A file holds bytes, and a program is text. Decoding stops at the first bytes that no character
is encoded by, and says where they stand and what is wrong with them.

A sequence that breaks off in the middle covers the bytes that were still acceptable: those
before an unfitting byte, or all that are left when the data ends too early.
-/

namespace LexicalLisp

/-- What is wrong with an undecodable sequence. -/
inductive Utf8Problem where
  | invalidStart
  | invalidContinuation
  | unexpectedEnd
  deriving DecidableEq, Repr

/-- An undecodable sequence: its problem, its first byte, its position and its length. -/
structure Utf8Fault where
  problem : Utf8Problem
  byte : UInt8
  position : Nat
  length : Nat
  deriving DecidableEq, Repr

/-- The bytes that may follow a first byte: a range for the second one, and how many more. -/
structure Utf8Tail where
  low : UInt8
  high : UInt8
  more : Nat

/-- What a first byte of several announces; `none` if no such sequence starts with it. -/
def Utf8Tail.of? (b : UInt8) : Option Utf8Tail :=
  if b < 0xC2 then none
  else if b < 0xE0 then some ⟨0x80, 0xBF, 0⟩
  else if b == 0xE0 then some ⟨0xA0, 0xBF, 1⟩
  else if b == 0xED then some ⟨0x80, 0x9F, 1⟩
  else if b < 0xF0 then some ⟨0x80, 0xBF, 1⟩
  else if b == 0xF0 then some ⟨0x90, 0xBF, 2⟩
  else if b < 0xF4 then some ⟨0x80, 0xBF, 2⟩
  else if b == 0xF4 then some ⟨0x80, 0x8F, 2⟩
  else none

/-- The payload of a first byte that is followed by this many others. -/
def leadBits (b : UInt8) (following : Nat) : Nat :=
  b.toNat % (1 <<< (6 - following))

/-- A character under way: its first byte and position, what its next byte must satisfy, how
many follow after that, how many are read, and the bits they gave. -/
structure Utf8Pending where
  first : UInt8
  position : Nat
  tail : Utf8Tail
  seen : Nat
  bits : Nat

/-- The fault of a character that breaks off after the bytes seen. -/
def Utf8Pending.fault (p : Utf8Pending) (problem : Utf8Problem) : Utf8Fault :=
  ⟨problem, p.first, p.position, p.seen⟩

/-- Decode from a position, with a character possibly under way, collecting characters newest
first. -/
def decodeFrom (position : Nat) (pending : Option Utf8Pending) (chars : List Char) :
    List UInt8 → Except Utf8Fault (List Char)
  | [] =>
    match pending with
    | none => .ok chars.reverse
    | some p => .error (p.fault .unexpectedEnd)
  | b :: rest =>
    match pending with
    | none =>
      if b < 0x80 then decodeFrom (position + 1) none (Char.ofNat b.toNat :: chars) rest
      else
        match Utf8Tail.of? b with
        | none => .error ⟨.invalidStart, b, position, 1⟩
        | some tail =>
          decodeFrom (position + 1)
            (some ⟨b, position, tail, 1, leadBits b (tail.more + 1)⟩) chars rest
    | some p =>
      if p.tail.low ≤ b && b ≤ p.tail.high then
        let bits := p.bits * 64 + b.toNat % 64
        match p.tail.more with
        | 0 => decodeFrom (position + 1) none (Char.ofNat bits :: chars) rest
        | more + 1 =>
          decodeFrom (position + 1)
            (some { p with tail := ⟨0x80, 0xBF, more⟩, seen := p.seen + 1, bits := bits })
            chars rest
      else .error (p.fault .invalidContinuation)

/-- Decode a sequence of bytes. -/
def decodeUtf8 (bytes : List UInt8) : Except Utf8Fault (List Char) :=
  decodeFrom 0 none [] bytes

end LexicalLisp
