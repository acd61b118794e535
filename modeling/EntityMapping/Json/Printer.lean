import EntityMapping.Json
import EntityMapping.Double.Shortest

/-! # Compact JSON text

No blanks. In strings the quote, the backslash and the controls below U+0020 are escaped, and nothing
else is.
-/

namespace EntityMapping.Json

def shortEscape : Char → Option Char
  | '"' => some '"'
  | '\\' => some '\\'
  | '\x08' => some 'b'
  | '\x0c' => some 'f'
  | '\n' => some 'n'
  | '\r' => some 'r'
  | '\t' => some 't'
  | _ => none

def escaped (c : Char) : List Char :=
  match shortEscape c with
  | some e => ['\\', e]
  | none =>
    if c.toNat < 0x20 then
      ['\\', 'u', '0', '0', Nat.digitChar (c.toNat / 16), Nat.digitChar (c.toNat % 16)]
    else [c]

def stringChars (s : String) : List Char := '"' :: s.toList.flatMap escaped ++ ['"']

mutual

def toChars : Json → List Char
  | .null => "null".toList
  | .bool b => (if b then "true" else "false").toList
  | .int n => (toString n).toList
  | .float x => x.jsonText
  | .string s => stringChars s
  | .array items => '[' :: itemChars true items ++ [']']
  | .object members => '\x7b' :: memberChars true members ++ ['\x7d']

def itemChars (first : Bool) : List Json → List Char
  | [] => []
  | v :: rest => (if first then [] else [',']) ++ toChars v ++ itemChars false rest

def memberChars (first : Bool) : List (String × Json) → List Char
  | [] => []
  | (name, v) :: rest =>
    (if first then [] else [',']) ++ stringChars name ++ ':' :: toChars v ++ memberChars false rest

end

def text (v : Json) : String := String.ofList v.toChars

end EntityMapping.Json
