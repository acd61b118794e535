/-! # Rosters

The order in which a database lists names. A new name stands in front, until there are ten. From then
on names have buckets, and a new name stands before those of its bucket, or in front if there are none;
when the names outgrow the buckets, they get more and are put in anew. Names are the same when they
differ in the case of ASCII letters only.
-/

namespace EntityMapping.Source

/-- Names in the order in which they are listed, and the number of their buckets, at first none. -/
structure Roster where
  names : List String
  buckets : Nat
deriving DecidableEq, Repr, Inhabited

namespace Roster

def empty : Roster := ⟨[], 0⟩

def weight (name : String) : UInt32 :=
  (name.toList.flatMap fun c => String.utf8EncodeChar c.toLower).foldl
    (fun h b => (h + b.toUInt32) * 0x9e3779b1) 0

/-- The two names are in one bucket. -/
def share (buckets : Nat) (a b : String) : Bool :=
  buckets ≠ 0 && (weight a).toNat % buckets = (weight b).toNat % buckets

/-- Puts a name before those of its bucket. -/
def put (buckets : Nat) (names : List String) (name : String) : List String :=
  let before := names.takeWhile fun other => !share buckets name other
  if before.length = names.length then name :: names
  else before ++ name :: names.drop before.length

def bucketsFor (buckets count : Nat) : Nat :=
  if 10 ≤ count ∧ 2 * buckets < count then min (2 * count) 64 else buckets

def add (r : Roster) (name : String) : Roster :=
  let buckets := bucketsFor r.buckets (r.names.length + 1)
  let names := if buckets = r.buckets then r.names else r.names.foldl (put buckets) []
  ⟨put buckets names name, buckets⟩

def ofList (names : List String) : Roster := names.foldl add empty

end Roster

end EntityMapping.Source
