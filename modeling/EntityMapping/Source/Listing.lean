import EntityMapping.Source.Table

/-! # Listings

Tables that are not kept but made up when they are asked for. A filter on certain columns of a listing
does not compare them but passes the keys as arguments, one after the other in their order, and the rows
of all of them make up the answer. Most of these columns are hidden: they are not among the own ones.
-/

namespace EntityMapping.Source

/-- A column that takes arguments: the rows for an argument, and whether these are compared with the
argument, too. -/
structure Argument where
  column : String
  affinity : Affinity
  exact : Bool
  rows : Cell → Except Error (List TableRow)

/-- A listing: its columns, its rows without an argument, and the columns that take one. -/
structure Listing where
  columns : List TableColumn
  hidden : List TableColumn
  rows : Except Error (List TableRow)
  arguments : List Argument

namespace Listing

/-! ## Arguments -/

/-- The number in a cell as a fraction. Infinity has no denominator. -/
def fraction? : Cell → Option (Int × Int)
  | .integer n => some (n.toInt, 1)
  | .real x =>
    some (if x.isFinite then (x.numerator, x.denominator) else (if x.negative then -1 else 1, 0))
  | _ => none

def atMost (a b : Cell) : Bool :=
  match fraction? a, fraction? b with
  | some (n, d), some (m, e) => n * e ≤ m * d
  | some _, none => true
  | none, some _ => false
  | none, none =>
    match a, b with
    | .text s, .text t => !(t < s)
    | .blob u, .blob v => u.compare v != .gt
    | .text _, _ => true
    | _, .text _ => false
    | _, _ => true

/-- What an argument is among others for a column of this affinity. Reals that are whole are integers. -/
def amongOthers (affinity : Affinity) (c : Cell) : Cell :=
  match affinity.apply c with
  | .real x =>
    let n := x.numerator / x.denominator
    if x.equalsInt n ∧ Int64.minValue.toInt < n ∧ n < Int64.maxValue.toInt then .integer (.ofInt n)
    else .real x
  | c => c

/-- The different keys of a filter in their order. A key alone is passed as it is. -/
def passed (affinity : Affinity) (f : KeyFilter) : List Cell :=
  match f.keys.map fun k => Cell.ofParameter k.toSql with
  | [c] => [c]
  | cs => (cs.map (amongOthers affinity)).eraseDups.mergeSort atMost

/-- The text of a cell up to a null character. -/
def argumentText? (c : Cell) : Option String :=
  let whole := match c with
    | .integer n => some (toString n)
    | .real x => some (realText x)
    | .text s => some s
    | .blob u => String.fromUTF8? u.bytes.toByteArray
    | .null | .broken _ => none
  whole.map fun s => String.ofList (s.toList.takeWhile (· ≠ '\x00'))

/-! ## Answers -/

def table (l : Listing) (name : String) (rows : List TableRow) : Table :=
  ⟨name, l.columns ++ l.hidden, rows⟩

def select (l : Listing) (e : Entity) (filter : Option KeyFilter) : Except Error (List Row) :=
  match filter with
  | none => do (l.table e.table (← l.rows)).select e none
  | some f =>
    if f.keys.isEmpty then .ok []
    else
      match l.arguments.find? fun a => a.column = Table.folded f.column with
      | some a => do
        let parts ← (passed a.affinity f).mapM a.rows
        (l.table e.table parts.flatten).select e (if a.exact then some f else none)
      | none => do (l.table e.table (← l.rows)).select e (some f)

/-! ## Kinds of listings -/

def plainColumns (names : List String) : List TableColumn := names.map .plain

def cells (names : List String) (values : List Cell) : Dict String Cell := .ofList (names.zip values)

/-- Rows with numbers from `first` on. -/
def numbered (first : Nat) (rows : List (Dict String Cell)) : List TableRow :=
  (rows.zipIdx first).map fun (cells, number) => ⟨number, cells⟩

def number (n : Int) : Cell := .integer (.ofInt n)

def count (n : Nat) : Cell := .integer (.ofNat n)

def fixed (names : List String) (rows : List (List Cell)) : Listing :=
  ⟨plainColumns names, [], .ok (numbered 1 (rows.map (cells names))), []⟩

def ofNames (column : String) (names : List String) : Listing :=
  fixed [column] (names.map fun name => [.text name])

/-- A listing that has rows for the text of an argument only, which its first hidden column takes. -/
def dependent (names hidden : List String) (rows : String → Except Error (List (List Cell))) :
    Listing :=
  let found (a : Cell) : Except Error (List TableRow) :=
    match argumentText? a with
    | none => .ok []
    | some text => do
      return numbered 1 ((← rows text).map fun values =>
        cells (names ++ hidden.take 1) (values ++ [.text text]))
  ⟨plainColumns names, plainColumns hidden, .ok [],
    (hidden.take 1).map fun column => ⟨column, .number, false, found⟩⟩

end Listing

end EntityMapping.Source
