import EntityMapping.Source.Page

/-! # Trees of pages

Every table is a tree of pages, with its rows in the leaves in order of insertion. A tree begins as a
single leaf. When this is full, its rows move to a page of its own, and the root leads to the leaves;
from then on a row that does not fit begins a new leaf. Pages are numbered as they are taken.

The catalog has its root in the first page of the database. Its leaves are kept even: when the last
leaf overflows, the rows of the last three are shared out anew.
-/

namespace EntityMapping.Source

/-- A row in its tree: its number, its size, and the pages where it goes on. -/
structure Spread where
  number : Nat
  record : Nat
  pages : List Nat
deriving Inhabited

namespace Spread

/-- A row that takes the pages it needs, the next one being `next`, and the next page after it. -/
def place (number record next : Nat) : Spread × Nat :=
  let count := Page.spilledPages record
  (⟨number, record, List.range' next count⟩, next + count)

/-- What the row takes in its leaf, apart from the two bytes that point to it. -/
def size (s : Spread) : Nat := Page.rowSize s.number s.record

def used (rows : List Spread) : Nat := Page.total (rows.map fun row => row.size + 2)

end Spread

structure Leaf where
  page : Nat
  rows : List Spread
deriving Inhabited

/-- A tree: its root, whether this leads to the leaves or is the only one, and the leaves, the earlier
ones from the last to the first. -/
structure Tree where
  root : Nat
  leading : Bool
  earlier : List Leaf
  last : Leaf
deriving Inhabited

namespace Tree

def new (root : Nat) : Tree := ⟨root, false, [], ⟨root, []⟩⟩

def leaves (t : Tree) : List Leaf := t.earlier.reverse ++ [t.last]

def preamble (t : Tree) : Nat := if t.root = 1 then Page.preambleSize else 0

def room (t : Tree) : Nat := if t.leading then Page.leafSize else Page.leafSize - t.preamble

def holds (t : Tree) (rows : List Spread) : Bool := Spread.used rows ≤ t.room

/-- The tree with its rows in leaves, the root leading to them, and the next page. -/
def led (t : Tree) (next : Nat) : Tree × Nat :=
  if t.leading then (t, next)
  else ({ t with leading := true, last := { t.last with page := next } }, next + 1)

/-- Puts a row at the end. Pages are taken from `next` on. -/
def append (t : Tree) (number record next : Nat) : Tree × Nat :=
  let (row, next) := Spread.place number record next
  let rows := t.last.rows ++ [row]
  if t.holds rows then ({ t with last := { t.last with rows } }, next)
  else
    let (t, next) := t.led next
    ({ t with earlier := t.last :: t.earlier, last := ⟨next, [row]⟩ }, next + 1)

/-! ## Even leaves -/

/-- Fills leaves one after the other: the rows that still fit into a leaf with so many bytes left, and
the leaves after it. -/
def packed : (left : Nat) → List Spread → List Spread × List (List Spread)
  | _, [] => ([], [])
  | left, row :: rest =>
    if row.size + 2 ≤ left then
      let (first, others) := packed (left - (row.size + 2)) rest
      (row :: first, others)
    else
      let (first, others) := packed (Page.leafSize - (row.size + 2)) rest
      ([], (row :: first) :: others)

/-- The leaves of these rows. There is always a first one. -/
def filled (rows : List Spread) : List (List Spread) :=
  let (first, others) := packed Page.leafSize rows
  first :: others

/-- Moves rows from the end of a leaf to the start of the next one, as long as the next one does not
become the larger by it. The rows of the first leaf are given from its end. -/
def shifted (margin : Nat) : List Spread → List Spread → List Spread × List Spread
  | [], right => ([], right)
  | row :: left, right =>
    if Spread.used right + 2 * row.size + 2 + margin ≤ Spread.used (row :: left) then
      shifted margin left (row :: right)
    else (row :: left, right)

def evened : List (List Spread) → List (List Spread)
  | [] => []
  | leaf :: rest =>
    match evened rest with
    | [] => [leaf]
    | next :: others =>
      let (left, right) := shifted (if others.isEmpty then 0 else 2) leaf.reverse next
      left.reverse :: right :: others

/-- Shares out the rows of the last three leaves, if the last one cannot hold its own. The leaves keep
their pages and take new ones after them. -/
def settle (t : Tree) (next : Nat) : Tree × Nat :=
  if t.holds t.last.rows then (t, next)
  else
    let (t, next) := t.led next
    let old := (t.earlier.take 2).reverse ++ [t.last]
    let parts := evened (filled (old.flatMap (·.rows)))
    let more := parts.length - old.length
    let pages := old.map (·.page) ++ List.range' next more
    match ((pages.zip parts).map fun (page, rows) => Leaf.mk page rows).reverse with
    | last :: earlier => ({ t with last, earlier := earlier ++ t.earlier.drop 2 }, next + more)
    | [] => (t, next)

def appendEvenly (t : Tree) (number record next : Nat) : Tree × Nat :=
  let (row, next) := Spread.place number record next
  settle { t with last := { t.last with rows := t.last.rows ++ [row] } } next

def replaceEvenly (t : Tree) (number record next : Nat) : Tree × Nat :=
  let (row, next) := Spread.place number record next
  settle { t with last := { t.last with rows := t.last.rows.dropLast ++ [row] } } next

/-- The size of the row that holds the place of a new table in the catalog. -/
def placeholderSize : Nat := 6

/-- Puts the row of a new table into the catalog, with a row that holds its place first. -/
def enter (t : Tree) (number record next : Nat) : Tree × Nat :=
  let (t, next) := t.appendEvenly number placeholderSize next
  t.replaceEvenly number record next

end Tree

end EntityMapping.Source
