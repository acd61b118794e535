/-! # Decimal digits

Reading and writing runs of ASCII decimal digits. No sign, no separator and no other script's
digits belong to a run.
-/

namespace EntityMapping.Text

def digitValue? (c : Char) : Option Nat :=
  if '0' ≤ c ∧ c ≤ '9' then some (c.toNat - '0'.toNat) else none

/-- The value of a run of digits after the value `acc` of the digits before it. -/
def digitsFrom? (acc : Nat) : List Char → Option Nat
  | [] => some acc
  | c :: rest => (digitValue? c).bind fun d => digitsFrom? (10 * acc + d) rest

def nat? : List Char → Option Nat
  | [] => none
  | c :: rest => digitsFrom? 0 (c :: rest)

def natDigits (n : Nat) : List Char := Nat.toDigits 10 n

/-- The digits of a number, filled up with zeros in front to `width`. -/
def paddedDigits (width n : Nat) : List Char :=
  List.replicate (width - (natDigits n).length) '0' ++ natDigits n

def spanDigits (s : List Char) : List Char × List Char := s.span Char.isDigit

/-- Exactly `n` digits in front: their value, and what follows. -/
def takeDigits? (n : Nat) (s : List Char) : Option (Nat × List Char) :=
  if (s.take n).length = n then (nat? (s.take n)).map fun v => (v, s.drop n) else none

/-- What follows the character `c` in front. -/
def expect? (c : Char) : List Char → Option (List Char)
  | [] => none
  | d :: rest => if d = c then some rest else none

/-- A signed decimal number: an optional sign and one or more digits. -/
def int? : List Char → Option Int
  | [] => none
  | '-' :: rest => (nat? rest).map fun n => -(n : Int)
  | '+' :: rest => (nat? rest).map fun n => (n : Int)
  | c :: rest => (nat? (c :: rest)).map fun n => (n : Int)

end EntityMapping.Text
