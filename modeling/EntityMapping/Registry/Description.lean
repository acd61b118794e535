import EntityMapping.Registry
import EntityMapping.Text.Diagnostic

/-! # Descriptions of mappers

The diagnostic texts of mappers, of the schemas of their projections, and of destination objects.
-/

namespace EntityMapping

namespace MapperKey

def description (k : MapperKey) : String :=
  Text.fielded "MapperKey"
    [("source", Text.quoted k.source), ("destination", Text.quoted k.destination)]

end MapperKey

namespace ScalarType

def description : ScalarType → String
  | .any => "Any"
  | .bool => "Bool"
  | .int => "Int"
  | .float => "Float"
  | .string => "String"
  | .uuid => "Uuid"
  | .dateTime => "DateTime"
  | .decimal => "Decimal"
  | .json => "Json"

end ScalarType

namespace SourceShape

def description : SourceShape → String
  | .scalar => "Scalar"
  | .entity name => Text.tagged "Entity" (Text.quoted name)
  | .sequence name => Text.tagged "Sequence" (Text.quoted name)

end SourceShape

namespace DestinationShape

def description : DestinationShape → String
  | .scalar type => Text.tagged "Scalar" type.description
  | .object name => Text.tagged "Object" (Text.quoted name)
  | .list name => Text.tagged "List" (Text.quoted name)

end DestinationShape

namespace Item

def description {C : Type} (i : Item C) : String :=
  Text.fielded "MapperItem" [
    ("name", Text.quoted i.name),
    ("source", Text.tagged "SourceAccessor" i.source.text),
    ("source_shape", i.sourceShape.description),
    ("destination", Text.quoted i.destination),
    ("destination_shape", i.destinationShape.description),
    ("style", i.style.name)]

end Item

namespace Mapper

def description {C : Type} (m : Mapper C) (committed : Bool) : String :=
  Text.fielded "Mapper" [
    ("key", m.key.description),
    ("items", Text.listed (m.items.map (·.description))),
    ("committed", if committed then "true" else "false")]

end Mapper

namespace FieldKind

def description : FieldKind → String
  | .carrier => "Carrier"
  | .scalar => "Scalar"
  | .embedded mapper => Text.tagged "Embedded" mapper.description
  | .sequence mapper => Text.tagged "Sequence" mapper.description

end FieldKind

namespace SchemaField

def description (f : SchemaField) : String :=
  Text.fielded "FieldDef" [("name", Text.quoted f.name), ("ty", f.kind.description)]

end SchemaField

namespace Plan

def description {C : Type} (p : Plan C) : String :=
  let fields := Text.listed (p.schema.map (·.description))
  Text.fielded "Projection"
    [("mapper", p.key.description), ("schema", Text.fielded "Schema" [("fields", fields)])]

end Plan

namespace Heap

/-- The type of an object and the names of its fields. Their values may lead back to the object, so they
are left out. -/
def description (h : Heap) (o : ObjectRef) : String :=
  Text.fielded "Destination" [
    ("type_name", Text.quoted o.typeName),
    ("fields", Text.listed ((h.fields o).keys.map Text.quoted))]

end Heap

end EntityMapping
