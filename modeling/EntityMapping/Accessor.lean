import EntityMapping.Error
import EntityMapping.Row

/-! # Accessors

Where an item reads its source value: along a path of navigations from the row, or computed from the row
and the ambient value of the pass.
-/

namespace EntityMapping

inductive Accessor (C : Type) where
  /-- A path from the row. The empty path is the row itself. -/
  | path (segments : List String)
  | computed (compute : Row → C → Except Error Value)

namespace Accessor

variable {C : Type}

def segmentsOf (s : List Char) : List String :=
  go [] s
where
  /-- `part` is the part being read, last character first. -/
  go (part : List Char) : List Char → List String
    | [] => close part []
    | c :: rest => if c = '.' then close part (go [] rest) else go (c :: part) rest
  close (part : List Char) (rest : List String) : List String :=
    if part.isEmpty then rest else String.ofList part.reverse :: rest

def ofPath (s : String) : Accessor C := .path (segmentsOf s.toList)

def segments? : Accessor C → Option (List String)
  | .path segments => some segments
  | .computed _ => none

def isComputed : Accessor C → Bool
  | .path _ => false
  | .computed _ => true

/-- The path with dots; `<row>` and `<computed>` stand for what has none. -/
def text : Accessor C → String
  | .path [] => "<row>"
  | .path segments => String.intercalate "." segments
  | .computed _ => "<computed>"

def evaluate : Accessor C → Row → C → Except Error Value
  | .path segments, row, _ => .ok (row.path segments)
  | .computed compute, row, ambient => compute row ambient

end Accessor

end EntityMapping
