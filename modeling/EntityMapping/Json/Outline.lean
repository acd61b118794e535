import EntityMapping.Json.Relaxed

/-! # Outlines of JSON texts

A JSON value with its numbers and strings as they are spelled. In a compact binary form every value has
a header, which grows with what follows it, and the place of a value in this form identifies it. An
outline is walked in the order of the text; each value comes with its place and with the path to it.
-/

namespace EntityMapping.Json

inductive PlainKind where
  | null
  | true
  | false
  | integer
  | hexadecimal
  | real
  | string
deriving DecidableEq, Repr, Inhabited

/-- A value as it is written. A string is spelled without its quotes. -/
inductive Outline where
  | plain (kind : PlainKind) (spelling : List Char)
  | array (items : List Outline)
  | object (members : List (List Char × Outline))
deriving Inhabited

namespace Outline

/-! ## Places -/

def headerSize (n : Nat) : Nat :=
  if n < 12 then 1 else if n < 0x100 then 2 else if n < 0x10000 then 3 else 5

def spelledSize (s : List Char) : Nat :=
  let n := (String.ofList s).utf8ByteSize
  headerSize n + n

mutual

def contentSize : Outline → Nat
  | .plain .null _ | .plain .true _ | .plain .false _ => 0
  | .plain _ s => (String.ofList s).utf8ByteSize
  | .array items => itemsSize items
  | .object members => membersSize members

def itemsSize : List Outline → Nat
  | [] => 0
  | v :: rest => headerSize (contentSize v) + contentSize v + itemsSize rest

def membersSize : List (List Char × Outline) → Nat
  | [] => 0
  | (name, v) :: rest =>
    spelledSize name + headerSize (contentSize v) + contentSize v + membersSize rest

end

def size (v : Outline) : Nat := headerSize v.contentSize + v.contentSize

/-! ## Text -/

mutual

/-- The text of a value by the strict grammar, without blanks. -/
def text : Outline → List Char
  | .plain .string s => '"' :: Relaxed.strictString s ++ ['"']
  | .plain .hexadecimal s => Relaxed.decimalText s
  | .plain .real s => Relaxed.strictReal s
  | .plain _ s => s
  | .array items => '[' :: itemsText items ++ [']']
  | .object members => '\x7b' :: membersText members ++ ['\x7d']

def itemsText : List Outline → List Char
  | [] => []
  | [v] => text v
  | v :: rest => text v ++ ',' :: itemsText rest

def membersText : List (List Char × Outline) → List Char
  | [] => []
  | [(name, v)] => '"' :: Relaxed.strictString name ++ '"' :: ':' :: text v
  | (name, v) :: rest =>
    '"' :: Relaxed.strictString name ++ '"' :: ':' :: text v ++ ',' :: membersText rest

end

/-! ## Walks -/

inductive Step where
  | index (n : Nat)
  | name (spelling : List Char)
deriving DecidableEq, Repr, Inhabited

namespace Step

/-- Only names of ASCII letters and digits that begin with a letter go without quotes. -/
def isPlainName (name : List Char) : Bool :=
  (name.head?.map Char.isAlpha).getD false && name.all Char.isAlphanum

def text : Step → List Char
  | .index n => '[' :: Text.natDigits n ++ [']']
  | .name s => if isPlainName s then '.' :: s else '.' :: '"' :: s ++ ['"']

end Step

/-- Where a value is. The members of an object are found at their names. -/
structure Place where
  step : Option Step
  id : Nat
  /-- Where the value itself begins. -/
  start : Nat
  around : Option Nat
  /-- The path to the value around this one. -/
  path : List Char
  fullPath : List Char
deriving Inhabited

namespace Place

def root : Place := ⟨none, 0, 0, none, ['$'], ['$']⟩

def down (p : Place) (step : Step) (id start : Nat) : Place :=
  ⟨some step, id, start, some p.id, p.fullPath, p.fullPath ++ step.text⟩

end Place

structure Entry where
  place : Place
  value : Outline
deriving Inhabited

mutual

/-- A value and, when the walk is deep, all values in it. -/
def walk (deep : Bool) (p : Place) : Outline → List Entry
  | .plain kind s => [⟨p, .plain kind s⟩]
  | .array items =>
    ⟨p, .array items⟩ ::
      if deep then walkItems deep p (p.start + headerSize (itemsSize items)) 0 items else []
  | .object members =>
    ⟨p, .object members⟩ ::
      if deep then walkMembers deep p (p.start + headerSize (membersSize members)) members else []

def walkItems (deep : Bool) (p : Place) (start index : Nat) : List Outline → List Entry
  | [] => []
  | v :: rest =>
    walk deep (p.down (.index index) start start) v ++
      walkItems deep p (start + size v) (index + 1) rest

def walkMembers (deep : Bool) (p : Place) (start : Nat) :
    List (List Char × Outline) → List Entry
  | [] => []
  | (name, v) :: rest =>
    let inner := start + spelledSize name
    walk deep (p.down (.name name) start inner) v ++ walkMembers deep p (inner + size v) rest

end

/-- The values directly in this one, or the value itself if it holds no others. -/
def parts : Outline → List Entry
  | .plain kind s => [⟨.root, .plain kind s⟩]
  | .array items => walkItems false .root (headerSize (itemsSize items)) 0 items
  | .object members => walkMembers false .root (headerSize (membersSize members)) members

end Outline

end EntityMapping.Json
