import EntityMapping.Source.Listing

/-! # Listings of settings

The settings of a connection, each a listing of one row. Some of them can be asked for a schema.
-/

namespace EntityMapping.Source.Listing

/-- A setting: a value of the connection, or also one for each of its two schemas. -/
structure Setting where
  column : String
  value : Cell
  schemas : Option (Cell × Cell)

def ofSetting (s : Setting) : Listing :=
  let row (c : Cell) := numbered 1 [cells [s.column] [c]]
  let asked (schemas : Cell × Cell) (a : Cell) : Except Error (List TableRow) :=
    match (argumentText? a).map Table.folded with
    | some "main" => .ok (row schemas.1)
    | some "temp" => .ok (row schemas.2)
    | _ => .error (.database "unknown schema")
  ⟨plainColumns [s.column], plainColumns (if s.schemas.isSome then ["schema"] else []),
    .ok (row s.value),
    s.schemas.toList.map fun schemas => ⟨"schema", .number, false, asked schemas⟩⟩

def common (name : String) (value : Cell) : String × Setting := (name, ⟨name, value, none⟩)

def shared (name : String) (value : Cell) : String × Setting :=
  (name, ⟨name, value, some (value, value)⟩)

def settings : Dict String Setting := .ofList [
  common "analysis_limit" (number 0), common "application_id" (number 0),
  shared "auto_vacuum" (number 0), common "automatic_index" (number 1),
  ("busy_timeout", ⟨"timeout", number 5000, none⟩),
  ("cache_size", ⟨"cache_size", number (-2000), some (number (-2000), number 0)⟩),
  shared "cache_spill" (number 483), common "cell_size_check" (number 0),
  common "checkpoint_fullfsync" (number 0), common "count_changes" (number 0),
  common "data_version" (number 1),
  ("default_cache_size", ⟨"cache_size", number (-2000), some (number (-2000), number (-2000))⟩),
  common "defer_foreign_keys" (number 0), common "empty_result_callbacks" (number 0),
  common "encoding" (.text "UTF-8"), common "foreign_keys" (number 1),
  common "freelist_count" (number 0), common "full_column_names" (number 0),
  common "fullfsync" (number 0), common "hard_heap_limit" (number 0),
  common "ignore_check_constraints" (number 0),
  ("journal_mode", ⟨"journal_mode", .text "memory", some (.text "memory", .text "delete")⟩),
  shared "journal_size_limit" (number (-1)), common "legacy_alter_table" (number 0),
  ("locking_mode", ⟨"locking_mode", .text "normal", some (.text "exclusive", .text "exclusive")⟩),
  shared "max_page_count" (number 4294967294), shared "page_size" (number 4096),
  common "query_only" (number 0), common "read_uncommitted" (number 0),
  common "recursive_triggers" (number 0), common "reverse_unordered_selects" (number 0),
  common "secure_delete" (number 0), common "short_column_names" (number 1),
  common "soft_heap_limit" (number 0),
  ("synchronous", ⟨"synchronous", number 2, some (number 2, number 0)⟩),
  common "temp_store" (number 0), common "threads" (number 0),
  common "trusted_schema" (number 1), common "user_version" (number 0),
  common "writable_schema" (number 0)]

end EntityMapping.Source.Listing
