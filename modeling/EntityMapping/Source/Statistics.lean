import EntityMapping.Source.Cell
import EntityMapping.Source.Tree
import EntityMapping.Text.Hex

/-! # Page statistics

What is told about the pages of a tree, in the order of a walk: the root, and then every leaf with the
pages where its rows go on. The place of a page is a path of numbers.
-/

namespace EntityMapping.Source

inductive PageKind where
  | internal
  | leaf
  | overflow
deriving DecidableEq, Repr, Inhabited

namespace PageKind

def text : PageKind → String
  | .internal => "internal"
  | .leaf => "leaf"
  | .overflow => "overflow"

end PageKind

/-- What is told about a page: its rows or references, the bytes of rows in it, the bytes that are not
used, and the largest of its rows. -/
structure PageReport where
  path : List Char
  page : Nat
  kind : PageKind
  count : Nat
  payload : Nat
  unused : Nat
  largest : Nat
deriving Inhabited

namespace Tree

def leafPath (place : Nat) : List Char := '/' :: Text.hexDigits 3 place ++ ['/']

/-- The pages where a row goes on. All but the last are full. -/
def spillReports (path : List Char) (place : Nat) (row : Spread) : List PageReport :=
  let rest := row.record - Page.keptSize row.record
  row.pages.zipIdx.map fun (page, i) =>
    let size := min Page.spillSize (rest - Page.spillSize * i)
    { path := path ++ Text.hexDigits 3 place ++ '+' :: Text.hexDigits 6 i
      page, kind := .overflow, count := 0, payload := size
      unused := Page.spillSize - size, largest := 0 }

/-- A leaf with so many bytes for its rows, and the pages where these go on. -/
def leafReports (path : List Char) (room : Nat) (l : Leaf) : List PageReport :=
  { path, page := l.page, kind := .leaf, count := l.rows.length
    payload := Page.total (l.rows.map fun row => Page.keptSize row.record)
    unused := room - Spread.used l.rows
    largest := (l.rows.map (·.record)).foldr max 0 } ::
  l.rows.zipIdx.flatMap fun (row, place) => spillReports path place row

/-- The root that leads to leaves. It names every leaf but the last with its last row. -/
def rootReport (t : Tree) : PageReport :=
  let references := t.earlier.map fun l =>
    4 + Page.naturalSize ((l.rows.getLast?.map (·.number)).getD 0) + 2
  { path := ['/'], page := t.root, kind := .internal, count := references.length, payload := 0
    unused := Page.leadSize - t.preamble - Page.total references, largest := 0 }

def reports (t : Tree) : List PageReport :=
  if t.leading then
    t.rootReport :: t.leaves.zipIdx.flatMap fun (l, place) =>
      leafReports (leafPath place) Page.leafSize l
  else leafReports ['/'] t.room t.last

end Tree

/-- What is told about all pages of a tree together, and the last page that is a root or a leaf. -/
structure TreeReport where
  pages : Nat
  last : Nat
  count : Nat
  payload : Nat
  unused : Nat
  largest : Nat
deriving Inhabited

namespace Tree

def report (t : Tree) : TreeReport :=
  let all := t.reports
  { pages := all.length, last := t.last.page
    count := Page.total (all.map (·.count))
    payload := Page.total (all.map (·.payload))
    unused := Page.total (all.map (·.unused))
    largest := (all.map (·.largest)).foldr max 0 }

end Tree

end EntityMapping.Source
