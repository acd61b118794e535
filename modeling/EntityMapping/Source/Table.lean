import EntityMapping.Metadata
import EntityMapping.Source.Affinity
import EntityMapping.Source.Tree

/-! # Database tables

Tables whose columns have no type of their own. The rows are numbered, and statements may name the
number as if it were a column. A name that stands for nothing in the table is a text. A load keeps the
rows whose cell in a column equals a key, and decodes each cell by the type that the entity declares;
a cell that the type cannot be read from fails the whole load.
-/

namespace EntityMapping.Source

/-- A column as the table knows it: its name and the type that it was declared with, if any. -/
structure TableColumn where
  name : String
  declared : String
deriving DecidableEq, Inhabited

namespace TableColumn

def plain (name : String) : TableColumn := ⟨name, ""⟩

/-- Columns of texts prefer texts, and those of the other types prefer numbers. -/
def affinity (c : TableColumn) : Affinity :=
  if c.declared = "" then .none else if c.declared = "TEXT" then .text else .number

end TableColumn

structure TableRow where
  number : Nat
  cells : Dict String Cell
deriving Inhabited

/-- A table: its columns and its rows in order of insertion. -/
structure Table where
  name : String
  columns : List TableColumn
  rows : List TableRow
deriving Inhabited

inductive Reference where
  | column (c : TableColumn)
  | rowNumber
  | text (name : String)
deriving DecidableEq, Inhabited

namespace Reference

/-- What the column of an answer is called: a text as it is written in the statement. -/
def label : Reference → String
  | .column c => c.name
  | .rowNumber => "rowid"
  | .text name => String.ofList (Statement.identifier name)

def affinity : Reference → Affinity
  | .column c => c.affinity
  | .rowNumber => .number
  | .text _ => .none

/-- The cell in a row. Nothing was put into a cell that is not there. -/
def cell (row : TableRow) : Reference → Cell
  | .column c => (row.cells.get? c.name).getD .null
  | .rowNumber => .integer (.ofNat row.number)
  | .text name => .text name

end Reference

namespace Table

/-- Names of tables and columns are the same when they differ in the case of ASCII letters only. -/
def folded (name : String) : String := String.ofList (name.toList.map Char.toLower)

def rowNumberNames : List String := ["rowid", "oid", "_rowid_"]

/-- Finds what a name stands for. A column hides the row number. -/
def resolve (t : Table) (name : String) : Reference :=
  match t.columns.find? fun c => folded c.name = folded name with
  | some c => .column c
  | none => if folded name ∈ rowNumberNames then .rowNumber else .text name

/-! ## Keeping rows -/

/-- Puts a field into the column of its name, if it is a cell. A field without a column is left out. -/
def putField? (columns : List String) (row : Dict String Cell) (field : String × Value) :
    Option (Dict String Cell) :=
  if field.1 ∈ columns then (Cell.ofValue? field.2).map fun c => row.set field.1 c else some row

def ofCells (name : String) (columns : List TableColumn) (rows : List (Dict String Cell)) : Table :=
  ⟨name, columns, (rows.zipIdx 1).map fun (cells, number) => ⟨number, cells⟩⟩

/-- The table with these rows, if all of their fields can be kept. -/
def ofRows? (name : String) (columns : List String) (rows : List Row) : Option Table :=
  (rows.mapM fun (row : Row) => row.entries.foldlM (putField? columns) Dict.empty).map
    (ofCells name (columns.map .plain))

/-! ## Answers -/

def keeps (t : Table) (filter : Option KeyFilter) (row : TableRow) : Bool :=
  match filter with
  | none => true
  | some f =>
    let r := t.resolve f.column
    f.keys.any fun k => r.affinity.equals (r.cell row) k.toSql

/-- The cells of an answer by their labels. Of two cells with one label the later counts. -/
def labelled (t : Table) (names : List String) (row : TableRow) : Dict String Cell :=
  .ofList (names.map fun name => ((t.resolve name).label, (t.resolve name).cell row))

/-- The field of a column. A column that the answer does not have under its own name is null. -/
def decodeColumn (cells : Dict String Cell) (c : Column) : Except Error (String × Value) :=
  match ((cells.get? c.name).getD .null).decode? c.type with
  | some v => .ok (c.name, v)
  | none => .error (.database s!"column {c.name} does not hold {c.type.text}")

def decodeRow (t : Table) (e : Entity) (row : TableRow) : Except Error Row :=
  let cells := t.labelled (e.columns.map (·.name)) row
  (e.columns.mapM (decodeColumn cells)).map Dict.ofList

def select (t : Table) (e : Entity) (filter : Option KeyFilter) : Except Error (List Row) :=
  (t.rows.filter (t.keeps filter)).mapM (t.decodeRow e)

/-! ## The table of tables -/

def creation (t : Table) : String :=
  String.ofList ("CREATE TABLE ".toList ++ Statement.identifier t.name ++ ' ' :: '(' ::
    Statement.separated (t.columns.map fun c => Statement.identifier c.name) ++ [')'])

def catalogColumns : List TableColumn := [
  ⟨"type", "TEXT"⟩, ⟨"name", "TEXT"⟩, ⟨"tbl_name", "TEXT"⟩, ⟨"rootpage", "INT"⟩, ⟨"sql", "TEXT"⟩]

def told (t : Table) (page : Nat) : Dict String Cell := .ofList [
  ("type", .text "table"), ("name", .text t.name), ("tbl_name", .text t.name),
  ("rootpage", .integer (.ofNat page)), ("sql", .text t.creation)]

def recordSizes (t : Table) : List (Nat × Nat) :=
  t.rows.map fun row =>
    (row.number, Page.recordSize (t.columns.map fun c => (Reference.column c).cell row))

/-- Tables that are created and filled one after the other: the rows of the catalog, its tree, the trees
of the tables, and the next page. -/
structure Creation where
  rows : List (Dict String Cell)
  catalog : Tree
  trees : List (String × Tree)
  next : Nat

namespace Creation

def empty : Creation := ⟨[], .new 1, [], 2⟩

/-- Creates and fills a table. It begins on the next page. -/
def add (c : Creation) (t : Table) : Creation :=
  let cells := t.told c.next
  let (catalog, next) :=
    c.catalog.enter (c.rows.length + 1) (Page.recordSize cells.values) (c.next + 1)
  let (tree, next) := t.recordSizes.foldl
    (fun (tree, next) (number, record) => tree.append number record next) (Tree.new c.next, next)
  ⟨c.rows ++ [cells], catalog, c.trees ++ [(t.name, tree)], next⟩

/-- The pages of the database. As long as there are no tables, there are no pages. -/
def pages (c : Creation) : Nat := if c.trees.isEmpty then 0 else c.next - 1

def allTrees (c : Creation) : List (String × Tree) :=
  if c.trees.isEmpty then [] else ("sqlite_schema", c.catalog) :: c.trees

end Creation

def created (tables : List Table) : Creation := tables.foldl Creation.add .empty

def catalog (name : String) (tables : List Table) : Table :=
  ofCells name catalogColumns (created tables).rows

end Table

end EntityMapping.Source
