import EntityMapping.Accessor
import EntityMapping.Batch
import EntityMapping.Shape

/-! # Items of a mapper

An item says how one destination field gets its value. It is declared step by step and resolved against
the metadata and the mappers that are registered.
-/

namespace EntityMapping

abbrev Transposer (C : Type) := Value → C → Action Value

/-- Runs on a destination once everything fetched for it is in place. -/
abbrev Hook (C : Type) := ObjectRef → C → Action Unit

inductive Style (C : Type) where
  /-- With the rows that it belongs to, and projected in place. -/
  | inline
  /-- Afterwards by its key, together for all rows. -/
  | fetch
  /-- Afterwards by a processor. -/
  | batch (processor : Processor C)

namespace Style

variable {C : Type}

def name : Style C → String
  | .inline => "Inline"
  | .fetch => "Fetch"
  | .batch _ => "Batch"

def processor? : Style C → Option (Processor C)
  | .batch p => some p
  | _ => none

end Style

structure Item (C : Type) where
  /-- The field of the projection. -/
  name : String
  source : Accessor C
  sourceShape : SourceShape
  /-- The field of the destination. -/
  destination : String
  destinationShape : DestinationShape
  /-- What an assigned value must fit. -/
  expected : DestinationShape
  style : Style C
  transposer : Option (Transposer C)

namespace Item

def dependency? {C : Type} (i : Item C) : Option MapperKey :=
  match i.sourceShape, i.destinationShape with
  | .entity e, .object d => some ⟨e, d⟩
  | .sequence e, .list d => some ⟨e, d⟩
  | _, _ => none

end Item

/-! ## Declarations -/

/-- Two steps of a declaration that contradict each other. -/
inductive Conflict where
  | sourceTwice
  | transposerTwice
  | styles (later earlier : String)
deriving DecidableEq, Repr, Inhabited

def Conflict.text : Conflict → String
  | .sourceTwice => "source accessor declared twice"
  | .transposerTwice => "transposer declared twice"
  | .styles later earlier => s!"relationship style {later} conflicts with Some({earlier})"

/-- An item as it is declared. Without any step it copies the source member of its own name. -/
structure Declaration (C : Type) where
  destination : String
  source : Option (Accessor C) := none
  sourceShape : Option SourceShape := none
  mapped : Option String := none
  declared : Option ScalarType := none
  style : Option (Style C) := none
  transposer : Option (Transposer C) := none
  conflicts : List Conflict := []

namespace Declaration

variable {C : Type}

/-- Reads the value from `source`. -/
def reading (d : Declaration C) (source : Accessor C) : Declaration C :=
  { d with
    source := some source
    conflicts := if d.source.isSome then d.conflicts ++ [.sourceTwice] else d.conflicts }

def fromPath (d : Declaration C) (path : String) : Declaration C := d.reading (.ofPath path)

def compute (d : Declaration C) (f : Row → C → Except Error Value) : Declaration C :=
  d.reading (.computed f)

def shaped (d : Declaration C) (shape : SourceShape) : Declaration C :=
  { d with sourceShape := some shape }

/-- Maps the source entity, or each entity of a sequence, into objects of a type. -/
def mappedTo (d : Declaration C) (destination : String) : Declaration C :=
  { d with mapped := some destination }

def typed (d : Declaration C) (type : ScalarType) : Declaration C := { d with declared := some type }

def styled (d : Declaration C) (style : Style C) : Declaration C :=
  { d with
    style := some style
    conflicts :=
      match d.style with
      | some earlier =>
        if earlier.name = style.name then d.conflicts
        else d.conflicts ++ [.styles style.name earlier.name]
      | none => d.conflicts }

def transposed (d : Declaration C) (f : Transposer C) : Declaration C :=
  { d with
    transposer := some f
    conflicts := if d.transposer.isSome then d.conflicts ++ [.transposerTwice] else d.conflicts }

def converted (d : Declaration C) (f : Value → Action Value) : Declaration C :=
  d.transposed fun v _ => f v

def requireMapper (registered : List MapperKey) (key : MapperKey) : Except Error Unit :=
  if key ∈ registered then .ok () else .error (.mapperNotFound key.text)

/-- The accessor of an item: the declared one, or the member of its own name. -/
def accessor (d : Declaration C) : Accessor C := d.source.getD (.ofPath d.destination)

/-- The shape of an item's source: the declared one, or the one that the metadata gives its path. A
computed value is a scalar unless something else is declared. -/
def resolveSource (d : Declaration C) (owner : MapperKey) (metadata : Metadata) :
    Except Error SourceShape :=
  match d.sourceShape, d.accessor with
  | some shape, _ => .ok shape
  | none, .path segments => do
    let entity ← metadata.requireEntity owner.source
    SourceShape.ofPath metadata entity segments
  | none, .computed _ => .ok .scalar

/-- The shape of an item's destination. Rows are mapped into an object and lists of rows into a list of
objects; everything else is a plain field. -/
def resolveDestination (d : Declaration C) (component : String) (style : Style C)
    (source : SourceShape) (registered : List MapperKey) : Except Error DestinationShape :=
  match d.mapped, style, source with
  | some _, .batch _, _ =>
    .error (.invalidConfiguration component
      "batch items assign processor results and cannot be mapped")
  | some destination, _, .entity e => do
    requireMapper registered ⟨e, destination⟩
    return .object destination
  | some destination, _, .sequence e => do
    requireMapper registered ⟨e, destination⟩
    return .list destination
  | some _, _, .scalar =>
    .error (.invalidConfiguration component "only entities and entity sequences can be mapped")
  | none, .fetch, _ => .error (.invalidConfiguration component "fetched items must be mapped")
  | none, _, _ => .ok (.scalar (d.declared.getD .any))

/-- Resolves an item of the mapper `owner`. -/
def resolve (d : Declaration C) (owner : MapperKey) (metadata : Metadata)
    (registered : List MapperKey) : Except Error (Item C) := do
  let component := s!"{owner.text}.{d.destination}"
  match d.conflicts with
  | conflict :: _ => .error (.invalidConfiguration component conflict.text)
  | [] =>
    let sourceShape ← d.resolveSource owner metadata
    let style := d.style.getD .inline
    let destinationShape ← d.resolveDestination component style sourceShape registered
    return {
      name := Text.snakeCase d.destination
      source := d.accessor
      sourceShape
      destination := d.destination
      destinationShape
      expected := (d.declared.map .scalar).getD destinationShape
      style
      transposer := d.transposer }

end Declaration

structure MapperDeclaration (C : Type) where
  key : MapperKey
  items : List (Declaration C)
  after : List (Hook C)

structure Mapper (C : Type) where
  key : MapperKey
  items : List (Item C)
  after : List (Hook C)

namespace Mapper

/-- The mappers that a mapper needs, each once, in the order of its items. -/
def dependencies {C : Type} (m : Mapper C) : List MapperKey :=
  (m.items.filterMap (·.dependency?)).foldl
    (fun found key => if key ∈ found then found else found ++ [key]) []

end Mapper

end EntityMapping
