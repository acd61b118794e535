import EntityMapping.Key

/-! # Reading rows

A field that a row lacks reads as null, and a navigation path that leaves the rows ends in null.
-/

namespace EntityMapping.Row

/-- The value of a field, null when there is none. -/
def value (row : Row) (name : String) : Value := (row.get? name).getD .null

/-- Follows a path of navigations to its last segment. The empty path is the row itself. -/
def path (row : Row) : List String → Value
  | [] => .row row
  | [last] => value row last
  | segment :: rest =>
    match value row segment with
    | .row next => path next rest
    | _ => .null

/-- The key made of the columns' values, if all of them are keys. No columns make no key. -/
def key (row : Row) (columns : List String) : Option Key :=
  match columns.mapM fun column => (value row column).asKey? with
  | some [] => none
  | some parts => some (Key.ofParts parts)
  | none => none

/-- The field `column` of the row that the path leads to, null when it leads to none. -/
def columnAt (row : Row) (path : List String) (column : String) : Value :=
  match path with
  | [] => value row column
  | _ :: _ =>
    match Row.path row path with
    | .row next => value next column
    | _ => .null

end EntityMapping.Row
