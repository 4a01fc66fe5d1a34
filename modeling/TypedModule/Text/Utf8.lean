import TypedModule.Text.Hex

/-!
# UTF-8

Decoding reads octets one at a time and remembers the character that has begun. The second
octet of a character has its own bounds, which keep out overlong forms, surrogates and code
points that do not exist. The first octet that cannot go on ends the reading: a fault names
the octets of the character that had begun and why it stops there.
-/

namespace TypedModule.Utf8

inductive Reason
  | badStart
  | badContinuation
  | cutShort
deriving DecidableEq

structure Fault where
  position : Nat
  octets : List UInt8
  reason : Reason
deriving DecidableEq

/-- A character that has begun: the octets read, how many are owed after the next one, the
bounds of the next one, and the bits so far. -/
structure Begun where
  octets : List UInt8
  owed : Nat
  low : UInt8
  high : UInt8
  bits : Nat
deriving DecidableEq

/-- What a first octet from 0x80 on announces. -/
def begin? (b : UInt8) : Option Begun :=
  if b < 0xC2 then none
  else if b < 0xE0 then some ⟨[b], 0, 0x80, 0xBF, b.toNat - 0xC0⟩
  else if b = 0xE0 then some ⟨[b], 1, 0xA0, 0xBF, 0⟩
  else if b = 0xED then some ⟨[b], 1, 0x80, 0x9F, 0xD⟩
  else if b < 0xF0 then some ⟨[b], 1, 0x80, 0xBF, b.toNat - 0xE0⟩
  else if b = 0xF0 then some ⟨[b], 2, 0x90, 0xBF, 0⟩
  else if b < 0xF4 then some ⟨[b], 2, 0x80, 0xBF, b.toNat - 0xF0⟩
  else if b = 0xF4 then some ⟨[b], 2, 0x80, 0x8F, 4⟩
  else none

/-- The bits after a continuation octet. -/
def Begun.extend (p : Begun) (b : UInt8) : Nat := p.bits * 64 + (b.toNat - 0x80)

def decodeFrom (position : Nat) : Option Begun → List UInt8 → Except Fault (List Char)
  | none, [] => .ok []
  | some p, [] => .error ⟨position - p.octets.length, p.octets, .cutShort⟩
  | none, b :: rest =>
    if b < 0x80 then
      (decodeFrom (position + 1) none rest).map (Char.ofNat b.toNat :: ·)
    else match begin? b with
      | none => .error ⟨position, [b], .badStart⟩
      | some p => decodeFrom (position + 1) (some p) rest
  | some p, b :: rest =>
    if p.low ≤ b ∧ b ≤ p.high then
      match p.owed with
      | 0 => (decodeFrom (position + 1) none rest).map (Char.ofNat (p.extend b) :: ·)
      | n + 1 =>
        decodeFrom (position + 1) (some ⟨p.octets ++ [b], n, 0x80, 0xBF, p.extend b⟩) rest
    else .error ⟨position - p.octets.length, p.octets, .badContinuation⟩

def decode (octets : List UInt8) : Except Fault (List Char) := decodeFrom 0 none octets

def encode (cs : List Char) : List UInt8 := cs.flatMap String.utf8EncodeChar

def Reason.text : Reason → String
  | .badStart => "invalid start byte"
  | .badContinuation => "invalid continuation byte"
  | .cutShort => "unexpected end of data"

def Fault.message (f : Fault) : String :=
  let place := match f.octets with
    | [b] => "byte 0x" ++ String.ofList (hexOf 2 b.toNat) ++ " in position " ++ toString f.position
    | bs => "bytes in position " ++ toString f.position ++ "-" ++
        toString (f.position + bs.length - 1)
  "'utf-8' codec can't decode " ++ place ++ ": " ++ f.reason.text

end TypedModule.Utf8
