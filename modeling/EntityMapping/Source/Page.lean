import EntityMapping.Source.Cell

/-! # Pages

A database lies in pages of 4096 bytes. A row that is too long for its page goes on in pages of its
own. Sizes are in bytes; each row in a page takes two more than its own size.
-/

namespace EntityMapping.Source

/-! ## Sizes of rows -/

namespace Cell

/-- The bytes of a whole number: none for 0 and 1, else the fewest of 1, 2, 3, 4, 6 and 8. -/
def integerSize (n : Int) : Nat :=
  let magnitude := if n < 0 then (-n - 1).toNat else n.toNat
  if n = 0 ∨ n = 1 then 0
  else if magnitude < 0x80 then 1
  else if magnitude < 0x8000 then 2
  else if magnitude < 0x800000 then 3
  else if magnitude < 0x80000000 then 4
  else if magnitude < 0x800000000000 then 6
  else 8

def size : Cell → Nat
  | .null => 0
  | .integer n => integerSize n.toInt
  | .real _ => 8
  | .text s => s.utf8ByteSize
  | .broken bytes => bytes.length
  | .blob _ => 16

/-- The number that tells the class: numbers and null are below 12, and the others have their length in
it. -/
def code : Cell → Nat
  | .null => 0
  | .integer n => if n = 0 ∨ n = 1 then 8 else integerSize n.toInt
  | .real _ => 7
  | .text s => 2 * s.utf8ByteSize + 13
  | .broken bytes => 2 * bytes.length + 13
  | .blob _ => 44

end Cell

namespace Page

def total (sizes : List Nat) : Nat := sizes.foldr (· + ·) 0

/-- The bytes of a number that is written seven bits to a byte. -/
def naturalSize (n : Nat) : Nat := if n < 128 then 1 else naturalSize (n / 128) + 1
termination_by n
decreasing_by omega

/-- The bytes of a header whose codes take `n` bytes. It begins with its own size. -/
def headerSize (n : Nat) : Nat :=
  let all := n + naturalSize n
  if naturalSize n < naturalSize all then all + 1 else all

/-- The bytes of a row: the header with the codes, and the contents. -/
def recordSize (cells : List Cell) : Nat :=
  headerSize (total (cells.map fun c => naturalSize c.code)) + total (cells.map Cell.size)

def recordLimit : Nat := 4061

/-- The bytes of a row that stay in its leaf. Of a longer one so many that the rest fills its pages, if
this is possible. -/
def keptSize (n : Nat) : Nat :=
  if n ≤ recordLimit then n
  else
    let kept := 489 + (n - 489) % 4092
    if kept ≤ recordLimit then kept else 489

def spillSize : Nat := 4092

def spilledPages (n : Nat) : Nat := (n - keptSize n + (spillSize - 1)) / spillSize

/-- What a row of a size takes in its leaf: its size, its number, the bytes that stay and the page where
it goes on. -/
def rowSize (number n : Nat) : Nat :=
  naturalSize n + naturalSize number + keptSize n + if n ≤ recordLimit then 0 else 4

/-! ## Room -/

def pageSize : Nat := 4096

def leafSize : Nat := 4088

def leadSize : Nat := 4084

/-- The bytes at the start of the database, which the first page goes without. -/
def preambleSize : Nat := 100

end Page

end EntityMapping.Source
