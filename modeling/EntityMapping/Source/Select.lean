import EntityMapping.Query

/-! # Select statements

The statement that loads an entity's columns, with a placeholder for every key. Names stand between
double quotes with inner quotes doubled, and keys are never part of the text.
-/

namespace EntityMapping

/-- A parameter of a statement. Each kind has a null of its own. -/
inductive SqlValue where
  | tinyInt (n : Option Int8)
  | smallInt (n : Option Int16)
  | int (n : Option Int32)
  | bigInt (n : Option Int64)
  | unsigned (n : Option UInt32)
  | bigUnsigned (n : Option UInt64)
  | bool (b : Option Bool)
  | string (s : Option String)
  | uuid (u : Option Uuid)
deriving DecidableEq, Inhabited

namespace Key

/-- The parameter for a key. A tuple is passed as its text. -/
def toSql : Key → SqlValue
  | .int n => .bigInt (some n)
  | .string s => .string (some s)
  | .uuid u => .uuid (some u)
  | .composite parts => .string (some (text (.composite parts)))

/-- The key in a parameter: signed integers, strings and identifiers that are not null. -/
def ofSql? : SqlValue → Option Key
  | .tinyInt n => n.map fun n => .int n.toInt64
  | .smallInt n => n.map fun n => .int n.toInt64
  | .int n => n.map fun n => .int n.toInt64
  | .bigInt n => n.map .int
  | .string s => s.map .string
  | .uuid u => u.map .uuid
  | .unsigned _ | .bigUnsigned _ | .bool _ => none

end Key

namespace Source

inductive Dialect where
  | sqlite
  | postgres
deriving DecidableEq, Repr, Inhabited

structure Statement where
  sql : List Char
  values : List SqlValue
deriving DecidableEq, Inhabited

namespace Statement

def selectWord : List Char := "SELECT ".toList

def fromWord : List Char := " FROM ".toList

def whereWord : List Char := " WHERE ".toList

def equalsSign : List Char := " = ".toList

def inWord : List Char := " IN (".toList

def identifier (name : String) : List Char :=
  '"' :: name.toList.flatMap (fun c => if c = '"' then ['"', '"'] else [c]) ++ ['"']

def separated : List (List Char) → List Char
  | [] => []
  | [t] => t
  | t :: rest => t ++ ',' :: ' ' :: separated rest

/-- The placeholder of the parameter at a place, counted from one. -/
def placeholder (d : Dialect) (place : Nat) : List Char :=
  match d with
  | .sqlite => ['?']
  | .postgres => '$' :: Text.natDigits place

/-- The condition of a filter. Without keys it is one that never holds. -/
def condition (d : Dialect) (f : KeyFilter) : List Char :=
  match f.keys with
  | [] => placeholder d 1 ++ equalsSign ++ placeholder d 2
  | keys =>
    identifier f.column ++ inWord ++
      separated ((List.range keys.length).map fun i => placeholder d (i + 1)) ++ [')']

def parameters (f : KeyFilter) : List SqlValue :=
  match f.keys with
  | [] => [.int (some 1), .int (some 2)]
  | keys => keys.map Key.toSql

def select (d : Dialect) (e : Entity) (filter : Option KeyFilter) : Statement :=
  let columns := separated (e.columns.map fun c => identifier c.name)
  let all := selectWord ++ columns ++ fromWord ++ identifier e.table
  match filter with
  | none => ⟨all, []⟩
  | some f => ⟨all ++ whereWord ++ condition d f, parameters f⟩

/-! ## Statements in the log -/

def literal : SqlValue → List Char
  | .tinyInt (some n) => (toString n.toInt).toList
  | .smallInt (some n) => (toString n.toInt).toList
  | .int (some n) => (toString n.toInt).toList
  | .bigInt (some n) => (toString n.toInt).toList
  | .unsigned (some n) => Text.natDigits n.toNat
  | .bigUnsigned (some n) => Text.natDigits n.toNat
  | .bool (some b) => (if b then "TRUE" else "FALSE").toList
  | .string (some s) =>
    '\'' :: s.toList.flatMap (fun c => if c = '\'' then ['\'', '\''] else [c]) ++ ['\'']
  | .uuid (some u) => '\'' :: u.toChars ++ ['\'']
  | _ => "NULL".toList

/-- The characters that open a quoted part, with the ones that close it. -/
def quotes : Dict Char Char := .ofList [('"', '"'), ('\'', '\''), ('\x60', '\x60'), ('[', ']')]

/-- Where a reader of the text is: outside of quotes, or inside of quotes that `close` ends and perhaps
behind a backslash that hides the next character. -/
inductive Reading where
  | outside
  | inside (close : Char) (hidden : Bool)

/-- The text with literals for the question marks outside of quotes. A closing quote that is written
twice does not close; a bracket always does. -/
def inlined : Reading → List SqlValue → List Char → List Char
  | _, _, [] => []
  | .outside, values, c :: rest =>
    if c = '?' then
      match values with
      | v :: values => literal v ++ inlined .outside values rest
      | [] => c :: inlined .outside [] rest
    else
      match quotes.get? c with
      | some close => c :: inlined (.inside close false) values rest
      | none => c :: inlined .outside values rest
  | .inside close true, values, c :: rest => c :: inlined (.inside close false) values rest
  | .inside close false, values, c :: rest =>
    if c ≠ close then c :: inlined (.inside close (c = '\\')) values rest
    else
      match rest with
      | d :: rest =>
        if d = close ∧ close ≠ ']' then c :: d :: inlined (.inside close false) values rest
        else c :: inlined .outside values (d :: rest)
      | [] => [c]

def shown (s : Statement) : String := String.ofList (inlined .outside s.values s.sql)

end Statement

end Source

end EntityMapping
