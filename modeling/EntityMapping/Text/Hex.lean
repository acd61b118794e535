/-! # Hexadecimal digits

Digits are read in either case and written in lower case.
-/

namespace EntityMapping.Text

def hexValue? (c : Char) : Option (Fin 16) :=
  if '0' ≤ c ∧ c ≤ '9' then some (Fin.ofNat 16 (c.toNat - '0'.toNat))
  else if 'a' ≤ c ∧ c ≤ 'f' then some (Fin.ofNat 16 (c.toNat - 'a'.toNat + 10))
  else if 'A' ≤ c ∧ c ≤ 'F' then some (Fin.ofNat 16 (c.toNat - 'A'.toNat + 10))
  else none

def hexChar (d : Fin 16) : Char := Nat.digitChar d.val

def ofHexDigits (digits : List (Fin 16)) : Nat := digits.foldl (fun n d => 16 * n + d.val) 0

/-- The hexadecimal digits of a number, filled up with zeros in front to `width`. -/
def hexDigits (width n : Nat) : List Char :=
  let digits := Nat.toDigits 16 n
  List.replicate (width - digits.length) '0' ++ digits

end EntityMapping.Text
