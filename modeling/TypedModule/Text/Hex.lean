/-!
# Hexadecimal text

Numbers in hexadecimal, with lower case digits and zeros in front up to a width.
-/

namespace TypedModule

def hexOf (width n : Nat) : List Char := List.leftpad width '0' (Nat.toDigits 16 n)

end TypedModule
