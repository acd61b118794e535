import EntityMapping.Metadata

/-! # Shapes of values

The shape that an accessor yields, and the shape that a destination field holds.
-/

namespace EntityMapping

inductive SourceShape where
  | scalar
  | entity (name : String)
  | sequence (name : String)
deriving DecidableEq, Repr, Inhabited

inductive DestinationShape where
  | scalar (type : ScalarType)
  | object (name : String)
  | list (name : String)
deriving DecidableEq, Repr, Inhabited

namespace DestinationShape

def isObjectOf (name : String) : Value → Bool
  | .object ref => ref.typeName = name
  | _ => false

/-- A field of this shape may hold the value. Null fits everywhere. -/
def accepts : DestinationShape → Value → Bool
  | .scalar type, v => type.accepts v
  | _, .null => true
  | .object name, v => isObjectOf name v
  | .list name, .list items => items.all (isObjectOf name)
  | .list _, _ => false

/-- What a field holds before anything is assigned to it. -/
def default : DestinationShape → Value
  | .list _ => .list []
  | _ => .null

def text : DestinationShape → String
  | .scalar type => type.text
  | .object name => name
  | .list name => s!"List<{name}>"

end DestinationShape

namespace SourceShape

/-- The shape of the member that a path ends in. A relation hides a column of its name. -/
def ofMember (e : Entity) (member : String) : Except Error SourceShape :=
  match e.relation? member with
  | some r =>
    match r.kind with
    | .hasMany => .ok (.sequence r.target)
    | .belongsTo | .hasOne => .ok (.entity r.target)
  | none =>
    if (e.column? member).isSome then .ok .scalar else .error (.unknownField e.name member)

/-- The shape that a path yields from rows of an entity. All of its segments but the last must lead to
one row. -/
def ofPath (metadata : Metadata) (e : Entity) : List String → Except Error SourceShape
  | [] => .ok (.entity e.name)
  | [last] => ofMember e last
  | segment :: rest =>
    match e.relation? segment with
    | none => .error (.relationNotFound e.name segment)
    | some r =>
      if r.kind = .hasMany then
        .error (.invalidConfiguration s!"{e.name}.{segment}" "cannot navigate through a collection")
      else
        match metadata.requireEntity r.target with
        | .error err => .error err
        | .ok next => ofPath metadata next rest

end SourceShape

end EntityMapping
