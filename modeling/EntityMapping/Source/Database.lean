import EntityMapping.Source
import EntityMapping.Source.Listing.Names
import EntityMapping.Source.Listing.Pages
import EntityMapping.Source.Listing.Settings
import EntityMapping.Source.Listing.Tokens
import EntityMapping.Source.Listing.Values

/-! # Rows in a database

The tables of a database under their names, with the catalog that the database keeps of them and the
listings that tell about it. Its source answers loads by select statements and logs these.
-/

namespace EntityMapping.Source

/-- Tables by their folded names, and the listings of the database itself that statements asked for, in
the order in which they first did. -/
structure Database where
  tables : Dict String Table
  opened : List String
deriving Inhabited

namespace Database

def empty : Database := ⟨.empty, []⟩

/-- Creates the table of an entity with the given rows, if tables can keep them. -/
def create? (db : Database) (e : Entity) (rows : List Row) : Option Database :=
  (Table.ofRows? e.table (e.columns.map (·.name)) rows).map fun t =>
    { db with tables := db.tables.set (Table.folded e.table) t }

def ofTables? (metadata : Metadata) (tables : List (String × List Row)) : Option Database :=
  tables.foldlM
    (fun db t => (metadata.entity? t.1).bind fun e => db.create? e t.2) empty

def catalogNames : List String := ["sqlite_master", "sqlite_schema"]

/-- The names of the catalog of tables that last as long as a connection. There are none. -/
def passingNames : List String := ["sqlite_temp_master", "sqlite_temp_schema"]

def table? (db : Database) (name : String) : Option Table :=
  match db.tables.get? (Table.folded name) with
  | some t => some t
  | none =>
    if Table.folded name ∈ catalogNames then some (Table.catalog name db.tables.values)
    else if Table.folded name ∈ passingNames then some (Table.catalog name [])
    else none

/-! ## Listings -/

def created (db : Database) : Table.Creation := Table.created db.tables.values

/-- The settings. The pages of the schema for passing tables are none. -/
def setting? (db : Database) (name : String) : Option Listing.Setting :=
  if name = "page_count" then
    let pages := Listing.count db.created.pages
    some ⟨"page_count", pages, some (pages, Listing.number 0)⟩
  else if name = "schema_version" then
    some ⟨"schema_version", Listing.count db.tables.size, none⟩
  else Listing.settings.get? name

def infoColumns : List String := ["cid", "name", "type", "notnull", "dflt_value", "pk"]

def toldColumns (columns : List TableColumn) : List (List Cell) :=
  columns.zipIdx.map fun (c, place) => [
    Listing.count place, .text c.name, .text c.declared, Listing.number 0, .null,
    Listing.number 0]

def catalogName : String := "sqlite_master"

/-- The tables with their schemas in the order in which they are listed. Each comes with the name that
finds it. -/
def toldTables (db : Database) : List (String × List Cell) :=
  let told (schema found name : String) (columns : Nat) := (Table.folded found, [
    .text schema, .text name, .text "table", Listing.count columns, Listing.number 0,
    Listing.number 0])
  let names := (Roster.ofList (catalogName :: db.tables.values.map (·.name))).names
  names.map (fun name =>
    match db.tables.get? (Table.folded name) with
    | some t => told "main" name name t.columns.length
    | none => told "main" name "sqlite_schema" 5) ++
  [told "temp" "sqlite_temp_master" "sqlite_temp_schema" 5]

/-- How the columns of tables and listings are looked up: the own ones and the hidden ones. Some names
cannot be looked up at all. -/
abbrev ColumnLookup := String → Except Error (Option (List TableColumn × List TableColumn))

/-- The listings whose rows are the same with every argument that names a table. -/
def check (column : String) (columns : ColumnLookup) : Listing :=
  let row (a : Cell) := Listing.numbered 1 [Listing.cells [column, "arg"] [.text "ok", a]]
  let found (a : Cell) : Except Error (List TableRow) := do
    let name := (Listing.argumentText? a).getD ""
    if (← columns name).isSome then .ok (row (.text name))
    else .error (.database "no such table")
  ⟨Listing.plainColumns [column], Listing.plainColumns ["arg", "schema"], .ok (row .null),
    [⟨"arg", .number, false, found⟩]⟩

/-- The listing of tables. An argument chooses the tables of a name. -/
def tableList (db : Database) : Listing :=
  let names := ["schema", "name", "type", "ncol", "wr", "strict"]
  let all := Listing.numbered 1 (db.toldTables.map fun t => Listing.cells names t.2)
  let found (a : Cell) : Except Error (List TableRow) :=
    match Listing.argumentText? a with
    | some name =>
      .ok (Listing.numbered 1 ((db.toldTables.filter fun t => t.1 = Table.folded name).map fun t =>
        Listing.cells (names ++ ["arg"]) (t.2 ++ [.text name])))
    | none => .ok all
  ⟨Listing.plainColumns names, Listing.plainColumns ["arg"], .ok all,
    [⟨"arg", .number, false, found⟩]⟩

/-- Listings by the names that follow `pragma_`. -/
def told? (db : Database) (columns : ColumnLookup) (name : String) : Option Listing :=
  let reference := ["arg", "schema"]
  match name with
  | "table_info" =>
    some (.dependent infoColumns reference fun name => do
      return ((← columns name).map fun (own, _) => toldColumns own).getD [])
  | "table_xinfo" =>
    some (.dependent (infoColumns ++ ["hidden"]) reference fun name => do
      return ((← columns name).map fun (own, hidden) =>
        (toldColumns (own ++ hidden)).zipIdx.map fun (cells, place) =>
          cells ++ [Listing.number (if place < own.length then 0 else 1)]).getD [])
  | "table_list" => some db.tableList
  | "database_list" =>
    some (.fixed ["seq", "name", "file"] [[Listing.number 0, .text "main", .text ""]])
  | "collation_list" =>
    some (.fixed ["seq", "name"] (["RTRIM", "NOCASE", "BINARY"].zipIdx.map fun (name, place) =>
      [Listing.count place, .text name]))
  | "function_list" => some Listing.functions
  | "module_list" => some (.ofNames "name" (Listing.moduleNames db.opened))
  | "pragma_list" => some (.ofNames "name" Listing.settingNames)
  | "compile_options" => some (.ofNames "compile_options" Listing.options)
  | "integrity_check" | "quick_check" => some (check name columns)
  | "foreign_key_check" =>
    some (.dependent ["table", "rowid", "parent", "fkid"] reference fun name => do
      if (← columns name).isSome then return [] else .error (.database "no such table"))
  | "foreign_key_list" =>
    some (.dependent ["id", "seq", "table", "from", "to", "on_update", "on_delete", "match"]
      reference fun _ => .ok [])
  | "index_info" => some (.dependent ["seqno", "cid", "name"] reference fun _ => .ok [])
  | "index_list" =>
    some (.dependent ["seq", "name", "unique", "origin", "partial"] reference fun _ => .ok [])
  | "index_xinfo" =>
    some (.dependent ["seqno", "cid", "name", "desc", "coll", "key"] reference fun _ => .ok [])
  | "optimize" => some (.dependent ["optimize"] ["arg"] fun _ => .ok [])
  | _ => (db.setting? name).map .ofSetting

/-- What the names of the listings begin with that tell about the database. -/
def lead : String := "pragma_"

def listingWith? (db : Database) (columns : ColumnLookup) (name : String) : Option Listing :=
  match Table.folded name with
  | "json_each" => some (.values false)
  | "json_tree" => some (.values true)
  | "dbstat" => some (.pages db.created.allTrees)
  | "fts3tokenize" => some .tokens
  | folded =>
    if folded.toList.take lead.length = lead.toList then
      db.told? columns (String.ofList (folded.toList.drop lead.length))
    else none

def unusable : String := "fts4aux"

def columns (db : Database) : ColumnLookup := fun name =>
  match db.table? name with
  | some t => .ok (some (t.columns, []))
  | none =>
    if Table.folded name = unusable then .error (.database "invalid arguments")
    else .ok ((db.listingWith? (fun _ => .ok none) name).map fun l => (l.columns, l.hidden))

def listing? (db : Database) (name : String) : Option Listing := db.listingWith? db.columns name

/-- The database after a statement on this name. A listing that tells about the database is known from
then on. -/
def opening (db : Database) (name : String) : Database :=
  let folded := Table.folded name
  if folded.toList.take lead.length = lead.toList ∧ (db.table? name).isNone ∧
      (db.listing? name).isSome ∧ folded ∉ db.opened.map Table.folded then
    { db with opened := db.opened ++ [name] }
  else db

/-! ## Statements -/

def columnLimit : Nat := 2000

def parameterLimit : Nat := 32766

/-- The statement can be read: it has columns, no null character, and not too much of anything. -/
def readable (e : Entity) (filter : Option KeyFilter) : Bool :=
  let statement := Statement.select .sqlite e filter
  !e.columns.isEmpty && e.columns.length ≤ columnLimit &&
    statement.values.length ≤ parameterLimit && '\x00' ∉ statement.sql

def select (db : Database) (e : Entity) (filter : Option KeyFilter) : Except Error (List Row) :=
  if readable e filter then
    match db.table? e.table with
    | some t => t.select e filter
    | none =>
      match (db.opening e.table).listing? e.table with
      | some l => l.select e filter
      | none => .error (.database s!"no such table: {e.table}")
  else .error (.database "the statement cannot be read")

/-- The source that serves the tables. It logs its statements, and writes down the tables that these
name. -/
def source (db : Database) : DataSource :=
  ⟨fun _ e filter =>
    ⟨db.select e filter, if readable e filter then [⟨e.table, filter⟩] else [],
      [⟨.debug, s!"refract: {(Statement.select .sqlite e filter).shown}"⟩]⟩⟩

def recording (db : Database) (served : List LoadRecord) : Database :=
  served.foldl (fun db r => db.opening r.entity) db

end Database

end EntityMapping.Source
