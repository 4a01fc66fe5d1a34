/-!
# Quoted text in data files

A quoted text stands between double quotes. The quote, the backslash and the control
characters below the space are always escaped, five of them by a letter and the rest by four
hexadecimal digits. The plain style leaves all other characters as they are; the ASCII style
also escapes everything outside the printable ASCII range, as one or two units of 16 bits.
Reading a quoted text accepts both styles and every other escape of the format.
-/

namespace TypedModule.Json

inductive Style
  | plain
  | ascii
deriving DecidableEq

/-- Four hexadecimal digits, in lower case. -/
def unitDigits (n : Nat) : List Char :=
  [n / 4096 % 16, n / 256 % 16, n / 16 % 16, n % 16].map Nat.digitChar

def escapedUnit (n : Nat) : List Char := '\\' :: 'u' :: unitDigits n

/-- The characters that are escaped by a letter or by themselves. -/
def letters : List (Char × Char) := [
  ('\x22', '\x22'), ('\\', '\\'), ('\n', 'n'), ('\r', 'r'), ('\t', 't'), ('\x08', 'b'),
  ('\x0c', 'f')]

def letterFor? (c : Char) : Option Char := (letters.find? fun p => p.1 == c).map Prod.snd

/-- The units of 16 bits of a character: one, or a high and a low surrogate. -/
def units (c : Char) : List Nat :=
  if c.toNat < 0x10000 then [c.toNat]
  else [0xD800 + (c.toNat - 0x10000) / 1024, 0xDC00 + (c.toNat - 0x10000) % 1024]

def escapedChar (style : Style) (c : Char) : List Char :=
  match letterFor? c with
  | some letter => ['\\', letter]
  | none =>
    if c.toNat < 0x20 ∨ (style = .ascii ∧ 0x7E < c.toNat) then (units c).flatMap escapedUnit
    else [c]

def escaped (style : Style) (cs : List Char) : List Char := cs.flatMap (escapedChar style)

def quoted (style : Style) (s : String) : String :=
  String.ofList ('\x22' :: escaped style s.toList ++ ['\x22'])

end TypedModule.Json
