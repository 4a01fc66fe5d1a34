import TypedModule.Text.Hex
import TypedModule.Text.Printable

/-!
# Shown text

A message shows a text between quotes, on one line and without invisible characters. The quote
is the apostrophe, unless the text has apostrophes and no double quote. The backslash and the
quote itself are escaped, and so is every character that is not printable, by its code point.
-/

namespace TypedModule

def apostrophe : Char := '\x27'

def doubleQuote : Char := '\x22'

def quoteFor (cs : List Char) : Char :=
  if cs.contains apostrophe && !cs.contains doubleQuote then doubleQuote else apostrophe

def shownChar (quote c : Char) : List Char :=
  if c = quote ∨ c = '\\' then ['\\', c]
  else if c = '\n' then ['\\', 'n']
  else if c = '\r' then ['\\', 'r']
  else if c = '\t' then ['\\', 't']
  else if isPrintable c then [c]
  else if c.toNat ≤ 0xFF then '\\' :: 'x' :: hexOf 2 c.toNat
  else if c.toNat ≤ 0xFFFF then '\\' :: 'u' :: hexOf 4 c.toNat
  else '\\' :: 'U' :: hexOf 8 c.toNat

def shownText (s : String) : String :=
  let cs := s.toList
  let quote := quoteFor cs
  String.ofList (quote :: cs.flatMap (shownChar quote) ++ [quote])

end TypedModule
