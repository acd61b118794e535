/-! # Errors

What can go wrong while mappers are declared, committed and used. An error names its cause; the wording
is in `message` alone.
-/

namespace EntityMapping

inductive Error where
  /-- Mappers need each other; the path starts and ends at one mapper. -/
  | mapperCycle (path : List String)
  | duplicateMapper (mapper : String)
  | duplicateField (mapper field : String)
  | unknownEntity (entity : String)
  | unknownField (entity field : String)
  | relationNotFound (entity relation : String)
  | invalidConfiguration (component message : String)
  | mapperNotFound (mapper : String)
  | notCommitted (mapper : String)
  | alreadyCommitted (mapper : String)
  | fetcherMissing (fetcher : String)
  | invalidFetchKey (item key : String)
  | transpose (item valueType field expected : String) (cause : Error)
  | assignment (item valueType field expected : String)
  | projection (item message : String)
  | query (projection : String) (cause : Error)
  | database (detail : String)
  | dataSource (message : String)
  | batchIncomplete (processor : String) (expected applied : Nat)
  | waveLimitExceeded (limit : Nat)
  | cyclicGraph (typeName : String)
  | serialization (detail : String)
  /-- Raised by the code of a declaration: a transposer, hook or batch processor. -/
  | external (message : String)
deriving DecidableEq, Repr, Inhabited

namespace Error

/-- The text of an error, with the text of its cause behind it. -/
def message : Error → String
  | .mapperCycle path =>
    let arrows := String.intercalate " -> " path
    s!"RefractError::MapperCycle: mapper declarations form a cycle: {arrows}"
  | .duplicateMapper mapper =>
    s!"RefractError::DuplicateMapper: mapper='{mapper}' is registered more than once"
  | .duplicateField mapper field =>
    s!"RefractError::DuplicateField: mapper='{mapper}' maps destination field '{field}' more than once"
  | .unknownEntity entity => s!"RefractError::UnknownEntity: entity='{entity}'"
  | .unknownField entity field => s!"RefractError::UnknownField: entity='{entity}' field='{field}'"
  | .relationNotFound entity relation =>
    s!"RefractError::RelationNotFound: entity='{entity}' relation='{relation}'"
  | .invalidConfiguration component reason =>
    s!"RefractError::InvalidConfiguration: component='{component}' message='{reason}'"
  | .mapperNotFound mapper => s!"RefractError::MapperNotFound: mapper='{mapper}'"
  | .notCommitted mapper =>
    s!"RefractError::NotCommitted: mapper='{mapper}' was used before it was committed"
  | .alreadyCommitted mapper => s!"RefractError::AlreadyCommitted: mapper='{mapper}'"
  | .fetcherMissing fetcher => s!"RefractError::FetcherMissing: fetcher='{fetcher}'"
  | .invalidFetchKey item key =>
    s!"RefractError::InvalidFetchKey: item='{item}' key='{key}' cannot be fetched"
  | .transpose item valueType field expected cause =>
    s!"RefractError::Transpose: error assigning '{item}' of type {valueType} to destination '{field}' of type {expected}: {cause.message}"
  | .assignment item valueType field expected =>
    s!"RefractError::Assignment: error assigning '{item}' of type {valueType} to destination '{field}' of type {expected}"
  | .projection item reason => s!"RefractError::Projection: item='{item}' message='{reason}'"
  | .query subject cause =>
    s!"RefractError::Query: error executing query: {subject}: {cause.message}"
  | .database detail => s!"RefractError::Database: {detail}"
  | .dataSource reason => s!"RefractError::DataSource: {reason}"
  | .batchIncomplete processor expected applied =>
    s!"RefractError::BatchIncomplete: processor='{processor}' applied {applied} of {expected} items"
  | .waveLimitExceeded limit =>
    s!"RefractError::WaveLimitExceeded: fetch waves exceeded the configured limit of {limit}"
  | .cyclicGraph typeName =>
    s!"RefractError::CyclicGraph: destination '{typeName}' references itself"
  | .serialization detail => s!"RefractError::Serialization: {detail}"
  | .external reason => s!"RefractError::External: {reason}"

def kind : Error → String
  | .mapperCycle .. => "MapperCycle"
  | .duplicateMapper .. => "DuplicateMapper"
  | .duplicateField .. => "DuplicateField"
  | .unknownEntity .. => "UnknownEntity"
  | .unknownField .. => "UnknownField"
  | .relationNotFound .. => "RelationNotFound"
  | .invalidConfiguration .. => "InvalidConfiguration"
  | .mapperNotFound .. => "MapperNotFound"
  | .notCommitted .. => "NotCommitted"
  | .alreadyCommitted .. => "AlreadyCommitted"
  | .fetcherMissing .. => "FetcherMissing"
  | .invalidFetchKey .. => "InvalidFetchKey"
  | .transpose .. => "Transpose"
  | .assignment .. => "Assignment"
  | .projection .. => "Projection"
  | .query .. => "Query"
  | .database .. => "Database"
  | .dataSource .. => "DataSource"
  | .batchIncomplete .. => "BatchIncomplete"
  | .waveLimitExceeded .. => "WaveLimitExceeded"
  | .cyclicGraph .. => "CyclicGraph"
  | .serialization .. => "Serialization"
  | .external .. => "External"

def isConfiguration : Error → Bool
  | .mapperCycle .. | .duplicateMapper .. | .duplicateField .. | .unknownEntity .. | .unknownField ..
  | .relationNotFound .. | .invalidConfiguration .. | .mapperNotFound .. | .alreadyCommitted ..
  | .fetcherMissing .. => true
  | _ => false

def innermost : Error → Error
  | .transpose _ _ _ _ cause => cause.innermost
  | .query _ cause => cause.innermost
  | e => e

end Error

end EntityMapping
