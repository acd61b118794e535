import EntityMapping.Source.Listing
import EntityMapping.Source.Roster

/-! # Listings of what a database offers

The functions, the settings and the kinds of listings that a database knows, and the options that it was
made with.
-/

namespace EntityMapping.Source.Listing

/-! ## Functions -/

/-- A function: whether it belongs to the database itself, whether it works on windows of rows, the
number of its arguments (-1 for any), and the sum of its properties. -/
structure FunctionEntry where
  name : String
  builtIn : Bool
  onWindows : Bool
  arguments : Int
  properties : Nat
deriving DecidableEq, Repr, Inhabited

namespace FunctionEntry

def pure (name : String) (arguments : Int) : FunctionEntry := ⟨name, true, false, arguments, 2099200⟩

def impure (name : String) (arguments : Int) : FunctionEntry :=
  ⟨name, true, false, arguments, 2097152⟩

def typed (name : String) (arguments : Int) : FunctionEntry :=
  ⟨name, true, false, arguments, 3147776⟩

def window (name : String) (arguments : Int) : FunctionEntry :=
  ⟨name, true, true, arguments, 2097152⟩

def typedWindow (name : String) (arguments : Int) : FunctionEntry :=
  ⟨name, true, true, arguments, 3147776⟩

def direct (name : String) (arguments : Int) : FunctionEntry :=
  ⟨name, true, false, arguments, 524288⟩

def plain (name : String) (arguments : Int) : FunctionEntry := ⟨name, true, false, arguments, 0⟩

def added (f : FunctionEntry) : FunctionEntry := { f with builtIn := false }

end FunctionEntry

def ownFunctions : List FunctionEntry := [
  .window "group_concat" 1, .window "group_concat" 2, .pure "json_type" 1, .pure "json_type" 2,
  .typed "jsonb_set" (-1), .pure "julianday" (-1), .window "ntile" 1, .pure "nullif" 2,
  .impure "sqlite_compileoption_get" 1, .pure "json_valid" 1, .pure "json_valid" 2,
  .typed "json_quote" 1, .pure "json_patch" 2, .pure "->" 2, .typed "json_array" (-1),
  .impure "current_timestamp" 0, .impure "sqlite_compileoption_used" 1, .pure "json_remove" (-1),
  .pure "json_pretty" 1, .pure "json_pretty" 2, .pure "jsonb_patch" 2, .typed "json_object" (-1),
  .typed "json_insert" (-1), .pure "->>" 2, .typed "jsonb_array" (-1), .window "sum" 1,
  .pure "quote" 1, .pure "printf" (-1), .pure "likelihood" 2, .typed "json_replace" (-1),
  .pure "jsonb_remove" (-1), .typed "jsonb_object" (-1), .typed "jsonb_insert" (-1),
  .pure "json_extract" (-1), .window "last_value" 1, .window "rank" 0, .pure "sign" 1,
  .pure "round" 1, .pure "round" 2, .pure "rtrim" 1, .pure "rtrim" 2, .typed "jsonb_replace" (-1),
  .pure "jsonb_extract" (-1), .window "nth_value" 2, .impure "random" 0, .pure "trim" 1,
  .pure "trim" 2, .pure "time" (-1), .window "total" 1, .pure "substr" 2, .pure "substr" 3,
  .pure "replace" 3, .pure "unhex" 1, .pure "unhex" 2, .pure "upper" 1, .pure "subtype" 1,
  .pure "typeof" 1, .direct "load_extension" 1, .direct "load_extension" 2, .pure "soundex" 1,
  .typedWindow "json_group_array" 1, .window "avg" 1, .pure "abs" 1, .pure "octet_length" 1,
  .typedWindow "json_group_object" 2, .typedWindow "jsonb_group_array" 1,
  .pure "json_array_length" 1, .pure "json_array_length" 2, .pure "strftime" (-1),
  .pure "substring" 2, .pure "substring" 3, .impure "randomblob" 1, .pure "unicode" 1,
  .typedWindow "jsonb_group_object" 2, .pure "timediff" 2, .window "percent_rank" 0,
  .window "row_number" 0, .window "string_agg" 2, .impure "last_insert_rowid" 0,
  .pure "sqlite_log" 2, .pure "unlikely" 1, .pure "json_error_position" 1, .pure "char" (-1),
  .pure "unixepoch" (-1), .window "count" 0, .window "count" 1, .pure "date" (-1),
  .pure "concat" (-1), .impure "total_changes" 0, .impure "changes" 0, .impure "sqlite_version" 0,
  .pure "coalesce" (-1), .pure "glob" 2, .pure "zeroblob" 1, .pure "hex" 1, .pure "iif" 3,
  .impure "sqlite_source_id" 0, .pure "concat_ws" (-1), .pure "format" (-1), .pure "datetime" (-1),
  .window "cume_dist" 0, .pure "instr" 2, .pure "json" 1, .window "dense_rank" 0, .pure "ifnull" 2,
  .pure "jsonb" 1, .impure "current_date" 0, .impure "current_time" 0, .window "lag" 1,
  .window "lag" 3, .window "lag" 2, .pure "like" 2, .pure "like" 3, .pure "max" (-1),
  .window "max" 1, .pure "min" (-1), .window "min" 1, .window "lead" 1, .window "lead" 3,
  .window "lead" 2, .pure "lower" 1, .pure "ltrim" 1, .pure "ltrim" 2, .window "first_value" 1,
  .pure "length" 1, .pure "likely" 1, .typed "json_set" (-1)]

def addedFunctions : List FunctionEntry := [
  .plain "rtreedepth" 1, .plain "match" 2, .plain "snippet" (-1), .pure "fts5_source_id" 0,
  .plain "offsets" 1, .plain "matchinfo" 2, .plain "matchinfo" 1, .plain "optimize" 1,
  .plain "rtreecheck" (-1), .plain "rtreenode" 2, .plain "highlight" (-1), .plain "bm25" (-1),
  .direct "fts3_tokenizer" 2, .direct "fts3_tokenizer" 1, .plain "fts5" 1]

def functions : Listing :=
  fixed ["name", "builtin", "type", "enc", "narg", "flags"]
    ((ownFunctions ++ addedFunctions.map (·.added)).map fun f => [
      .text f.name, count (if f.builtIn then 1 else 0), .text (if f.onWindows then "w" else "s"),
      .text "utf8", number f.arguments, count f.properties])

/-! ## Settings, options and modules -/

def settingNames : List String := [
  "analysis_limit", "application_id", "auto_vacuum", "automatic_index", "busy_timeout",
  "cache_size", "cache_spill", "case_sensitive_like", "cell_size_check", "checkpoint_fullfsync",
  "collation_list", "compile_options", "count_changes", "data_version", "database_list",
  "default_cache_size", "defer_foreign_keys", "empty_result_callbacks", "encoding",
  "foreign_key_check", "foreign_key_list", "foreign_keys", "freelist_count", "full_column_names",
  "fullfsync", "function_list", "hard_heap_limit", "ignore_check_constraints",
  "incremental_vacuum", "index_info", "index_list", "index_xinfo", "integrity_check",
  "journal_mode", "journal_size_limit", "legacy_alter_table", "locking_mode", "max_page_count",
  "mmap_size", "module_list", "optimize", "page_count", "page_size", "pragma_list", "query_only",
  "quick_check", "read_uncommitted", "recursive_triggers", "reverse_unordered_selects",
  "schema_version", "secure_delete", "short_column_names", "shrink_memory", "soft_heap_limit",
  "synchronous", "table_info", "table_list", "table_xinfo", "temp_store", "temp_store_directory",
  "threads", "trusted_schema", "user_version", "wal_autocheckpoint", "wal_checkpoint",
  "writable_schema"]

def options : List String := [
  "ATOMIC_INTRINSICS=1", "COMPILER=gcc-13.3.0", "DEFAULT_AUTOVACUUM", "DEFAULT_CACHE_SIZE=-2000",
  "DEFAULT_FILE_FORMAT=4", "DEFAULT_FOREIGN_KEYS", "DEFAULT_JOURNAL_SIZE_LIMIT=-1",
  "DEFAULT_MMAP_SIZE=0", "DEFAULT_PAGE_SIZE=4096", "DEFAULT_PCACHE_INITSZ=20",
  "DEFAULT_RECURSIVE_TRIGGERS", "DEFAULT_SECTOR_SIZE=4096", "DEFAULT_SYNCHRONOUS=2",
  "DEFAULT_WAL_AUTOCHECKPOINT=1000", "DEFAULT_WAL_SYNCHRONOUS=2", "DEFAULT_WORKER_THREADS=0",
  "DIRECT_OVERFLOW_READ", "ENABLE_API_ARMOR", "ENABLE_COLUMN_METADATA", "ENABLE_DBSTAT_VTAB",
  "ENABLE_FTS3", "ENABLE_FTS3_PARENTHESIS", "ENABLE_FTS5", "ENABLE_LOAD_EXTENSION",
  "ENABLE_MEMORY_MANAGEMENT", "ENABLE_RTREE", "ENABLE_STAT4", "ENABLE_UNLOCK_NOTIFY", "HAVE_ISNAN",
  "MALLOC_SOFT_LIMIT=1024", "MAX_ATTACHED=10", "MAX_COLUMN=2000", "MAX_COMPOUND_SELECT=500",
  "MAX_DEFAULT_PAGE_SIZE=8192", "MAX_EXPR_DEPTH=1000", "MAX_FUNCTION_ARG=127",
  "MAX_LENGTH=1000000000", "MAX_LIKE_PATTERN_LENGTH=50000", "MAX_MMAP_SIZE=0x7fff0000",
  "MAX_PAGE_COUNT=0xfffffffe", "MAX_PAGE_SIZE=65536", "MAX_SQL_LENGTH=1000000000",
  "MAX_TRIGGER_DEPTH=1000", "MAX_VARIABLE_NUMBER=32766", "MAX_VDBE_OP=250000000",
  "MAX_WORKER_THREADS=8", "MUTEX_PTHREADS", "SOUNDEX", "SYSTEM_MALLOC", "TEMP_STORE=1",
  "THREADSAFE=1", "USE_URI"]

/-- The modules that make tables up, in the order in which they came. -/
def modules : List String := [
  "fts4aux", "fts3", "fts4", "fts3tokenize", "fts5", "fts5vocab", "rtree", "rtree_i32", "dbstat",
  "json_each", "json_tree"]

def moduleNames (opened : List String) : List String := (Roster.ofList (modules ++ opened)).names

end EntityMapping.Source.Listing
