import EntityMapping.Value

/-! # Keys

A key identifies a row or joins two rows. Integers, strings and identifiers are keys, and so are
tuples of keys. A tuple of one part is that part.
-/

namespace EntityMapping

inductive Key where
  | int (n : Int64)
  | string (s : String)
  | uuid (u : Uuid)
  | composite (parts : List Key)
deriving Inhabited

namespace Key

mutual

def decEq : (a b : Key) → Decidable (a = b)
  | .int a, .int b => decidable_of_iff (a = b) (by simp)
  | .string a, .string b => decidable_of_iff (a = b) (by simp)
  | .uuid a, .uuid b => decidable_of_iff (a = b) (by simp)
  | .composite as, .composite bs =>
    match decEqParts as bs with
    | .isTrue h => .isTrue (by rw [h])
    | .isFalse h => .isFalse (by simpa using h)
  | .int _, .string _ | .int _, .uuid _ | .int _, .composite _
  | .string _, .int _ | .string _, .uuid _ | .string _, .composite _
  | .uuid _, .int _ | .uuid _, .string _ | .uuid _, .composite _
  | .composite _, .int _ | .composite _, .string _ | .composite _, .uuid _ =>
    .isFalse (by simp)

def decEqParts : (as bs : List Key) → Decidable (as = bs)
  | [], [] => .isTrue rfl
  | [], _ :: _ => .isFalse (by simp)
  | _ :: _, [] => .isFalse (by simp)
  | a :: as, b :: bs =>
    match decEq a b, decEqParts as bs with
    | .isTrue h, .isTrue h' => .isTrue (by rw [h, h'])
    | .isFalse h, _ => .isFalse (by simp [h])
    | _, .isFalse h => .isFalse (by simp [h])

end

instance : DecidableEq Key := decEq

/-- The key that a value is. Null, floats, booleans, rows and lists are none. -/
def ofValue? : Value → Option Key
  | .int n => some (.int n)
  | .string s => some (.string s)
  | .uuid u => some (.uuid u)
  | _ => none

/-- A tuple of keys; a single part stands for itself. -/
def ofParts : List Key → Key
  | [k] => k
  | parts => .composite parts

mutual

/-- The key may be used to fetch a row. Zero, the empty string and the nil identifier are what unset
columns hold, so no row is fetched by them. -/
def isFetchable : Key → Bool
  | .int n => n != 0
  | .string s => !s.isEmpty
  | .uuid u => !u.isNil
  | .composite parts => !parts.isEmpty && allFetchable parts

def allFetchable : List Key → Bool
  | [] => true
  | k :: rest => isFetchable k && allFetchable rest

end

mutual

/-- The value of a key; a tuple is a list. -/
def toValue : Key → Value
  | .int n => .int n
  | .string s => .string s
  | .uuid u => .uuid u
  | .composite parts => .list (toValues parts)

def toValues : List Key → List Value
  | [] => []
  | k :: rest => toValue k :: toValues rest

end

/-! ## Text -/

mutual

/-- The text of a key: parts of a tuple between parentheses, strings as they are. -/
def toChars : Key → List Char
  | .int n => (toString n.toInt).toList
  | .string s => s.toList
  | .uuid u => u.toChars
  | .composite parts => '(' :: partChars true parts ++ [')']

/-- The parts with a comma and a space before each but the first. -/
def partChars (first : Bool) : List Key → List Char
  | [] => []
  | k :: rest => (if first then [] else [',', ' ']) ++ toChars k ++ partChars false rest

end

def text (k : Key) : String := String.ofList k.toChars

instance : ToString Key := ⟨text⟩

/-- The integer written by a text, if it has 64 bits. -/
def int64? (s : List Char) : Option Int64 :=
  (Text.int? s).bind fun n =>
    if Int64.minValue.toInt ≤ n ∧ n ≤ Int64.maxValue.toInt then some (.ofInt n) else none

/-- Reads a key: an integer if the text is one, else an identifier if it is one, else the text. Only
the empty text is no key. -/
def parse? (s : String) : Option Key :=
  if s.isEmpty then none
  else match int64? s.toList with
    | some n => some (.int n)
    | none =>
      match Uuid.parse? s with
      | some u => some (.uuid u)
      | none => some (.string s)

/-! ## Order -/

/-- Integers come before strings, these before identifiers and these before tuples. -/
def rank : Key → Nat
  | .int _ => 0
  | .string _ => 1
  | .uuid _ => 2
  | .composite _ => 3

mutual

/-- Keys of one kind in their own order, strings by code points and tuples part by part. -/
def compare : Key → Key → Ordering
  | .int a, .int b => Ord.compare a b
  | .string a, .string b => Ord.compare a b
  | .uuid a, .uuid b => a.compare b
  | .composite as, .composite bs => compareParts as bs
  | a, b => Ord.compare a.rank b.rank

/-- The first difference decides, and a tuple comes before its extensions. -/
def compareParts : List Key → List Key → Ordering
  | [], [] => .eq
  | [], _ :: _ => .lt
  | _ :: _, [] => .gt
  | a :: as, b :: bs => (compare a b).then (compareParts as bs)

end

/-- The keys in order, equal ones as they stood. -/
def sort (keys : List Key) : List Key := keys.mergeSort fun a b => (compare a b).isLE

/-- The different keys of a list, in order of first occurrence. -/
def distinct (keys : List Key) : List Key :=
  keys.foldl (fun seen k => if k ∈ seen then seen else seen ++ [k]) []

end Key

namespace Value

def asKey? (v : Value) : Option Key := Key.ofValue? v

end Value

end EntityMapping
