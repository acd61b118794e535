import EntityMapping.Text.Quoted

/-! # Diagnostic text

The form in which structured values stand in diagnostics: `Name { field: value, field: value }`,
`Name(value)` and `[value, value]`.
-/

namespace EntityMapping.Text

def commaSeparated (parts : List String) : String := String.intercalate ", " parts

def listed (parts : List String) : String := s!"[{commaSeparated parts}]"

def tagged (name value : String) : String := s!"{name}({value})"

def fielded (name : String) (fields : List (String × String)) : String :=
  let parts := fields.map fun f => s!"{f.1}: {f.2}"
  s!"{name} \x7b {commaSeparated parts} \x7d"

end EntityMapping.Text
