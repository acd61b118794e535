import EntityMapping.Source.Listing
import EntityMapping.Source.Statistics

/-! # Listings of pages

The pages of all tables as rows, or one row for each table. The tables and the schema can be chosen, and
so can be whether pages are told together.
-/

namespace EntityMapping.Source.Listing

def pageColumns : List TableColumn := [
  ⟨"name", "TEXT"⟩, ⟨"path", "TEXT"⟩, ⟨"pageno", "INTEGER"⟩, ⟨"pagetype", "TEXT"⟩,
  ⟨"ncell", "INTEGER"⟩, ⟨"payload", "INTEGER"⟩, ⟨"unused", "INTEGER"⟩, ⟨"mx_payload", "INTEGER"⟩,
  ⟨"pgoffset", "INTEGER"⟩, ⟨"pgsize", "INTEGER"⟩]

def pageHidden : List TableColumn := [⟨"schema", "TEXT"⟩, ⟨"aggregate", "BOOLEAN"⟩]

def pageCells (values : List Cell) : Dict String Cell :=
  cells ((pageColumns ++ pageHidden).map (·.name)) values

/-- The row of a page. A page where a row goes on is told with the place of the page before it. -/
def pageRow (name : String) (placed : Nat) (r : PageReport) : TableRow :=
  ⟨r.page, pageCells [
    .text name, .text (String.ofList r.path), count r.page, .text r.kind.text, count r.count,
    count r.payload, count r.unused, count r.largest, count (Page.pageSize * (placed - 1)),
    count Page.pageSize, .text "main", count 0]⟩

def pageRows (name : String) (last : Nat) : List PageReport → List TableRow
  | [] => []
  | r :: rest =>
    pageRow name (if r.kind = .overflow then last else r.page) r :: pageRows name r.page rest

def treeRow (name : String) (t : Tree) : TableRow :=
  let r := t.report
  ⟨r.last, pageCells [
    .text name, .null, count r.pages, .null, count r.count, count r.payload, count r.unused,
    count r.largest, .null, count (Page.pageSize * r.pages), .text "main", count 1]⟩

def pages (trees : List (String × Tree)) : Listing :=
  let all (trees : List (String × Tree)) := trees.flatMap fun (name, t) => pageRows name 0 t.reports
  ⟨pageColumns, pageHidden, .ok (all trees), [
    ⟨"name", .text, true, fun a =>
      .ok (all (trees.filter fun t => argumentText? a = some t.1))⟩,
    ⟨"schema", .text, false, fun a =>
      .ok (if (argumentText? a).map Table.folded = some "main" then all trees else [])⟩,
    ⟨"aggregate", .number, true, fun a =>
      let given := Affinity.number.apply a
      .ok (if given.equals (count 1) then trees.map fun (name, t) => treeRow name t
        else if given.equals (count 0) then all trees
        else [])⟩]⟩

end EntityMapping.Source.Listing
