import EntityMapping.Text.Shown

/-! # Quoted text

A text between double quotes in which every character can be told apart: quotes, backslashes and
the common controls have short escapes, and a character that does not show alone is written as its
code point in hexadecimal digits between braces.
-/

namespace EntityMapping.Text

def shortEscape : Char → Option Char
  | '\x00' => some '0'
  | '\t' => some 't'
  | '\n' => some 'n'
  | '\r' => some 'r'
  | '"' => some '"'
  | '\\' => some '\\'
  | _ => none

def quotedChar (c : Char) : List Char :=
  match shortEscape c with
  | some e => ['\\', e]
  | none =>
    if showsAlone c then [c]
    else ['\\', 'u', '\x7b'] ++ Nat.toDigits 16 c.toNat ++ ['\x7d']

def quoted (s : String) : String := String.ofList (['"'] ++ s.toList.flatMap quotedChar ++ ['"'])

end EntityMapping.Text
