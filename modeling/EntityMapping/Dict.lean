/-! # Insertion-ordered dictionaries

A dictionary keeps its keys in the order in which they first came. Writing to a key that is already
there replaces the value and leaves the key in its place.
-/

namespace EntityMapping

/-- A list of key and value pairs, read from the front. -/
structure Dict (κ α : Type) where
  entries : List (κ × α)
deriving DecidableEq, Repr, Inhabited

namespace Dict

variable {κ α : Type}

def empty : Dict κ α := ⟨[]⟩

def keys (d : Dict κ α) : List κ := d.entries.map (·.1)

def values (d : Dict κ α) : List α := d.entries.map (·.2)

def size (d : Dict κ α) : Nat := d.entries.length

def isEmpty (d : Dict κ α) : Bool := d.entries.isEmpty

section Access

variable [DecidableEq κ]

def lookup (k : κ) : List (κ × α) → Option α
  | [] => none
  | e :: rest => if e.1 = k then some e.2 else lookup k rest

/-- Writes in place, or at the end when the key is new. -/
def write (k : κ) (v : α) : List (κ × α) → List (κ × α)
  | [] => [(k, v)]
  | e :: rest => if e.1 = k then (k, v) :: rest else e :: write k v rest

def get? (d : Dict κ α) (k : κ) : Option α := lookup k d.entries

def contains (d : Dict κ α) (k : κ) : Bool := (d.get? k).isSome

def set (d : Dict κ α) (k : κ) (v : α) : Dict κ α := ⟨write k v d.entries⟩

/-- Writes the pairs one after the other, so of two pairs with one key the later value stays. -/
def ofList (entries : List (κ × α)) : Dict κ α := entries.foldl (fun d e => d.set e.1 e.2) empty

/-- Adds `v` at the end of the list kept for `k`. -/
def append (d : Dict κ (List α)) (k : κ) (v : α) : Dict κ (List α) :=
  d.set k ((d.get? k).getD [] ++ [v])

/-! ## Reading what was written -/

@[simp] theorem get?_empty (k : κ) : (empty : Dict κ α).get? k = none := rfl

theorem lookup_write (k k' : κ) (v : α) (entries : List (κ × α)) :
    lookup k' (write k v entries) = if k = k' then some v else lookup k' entries := by
  induction entries with
  | nil => simp [write, lookup]
  | cons e rest ih =>
    by_cases h : e.1 = k
    · by_cases h' : k = k'
      · simp [write, lookup, h, h']
      · simp [write, lookup, h, h']
    · by_cases h' : e.1 = k'
      · have hk : k ≠ k' := fun same => h (h'.trans same.symm)
        simp only [write, lookup, if_neg h, if_pos h', if_neg hk]
      · simp only [write, lookup, if_neg h, if_neg h', ih]

theorem get?_set (d : Dict κ α) (k k' : κ) (v : α) :
    (d.set k v).get? k' = if k = k' then some v else d.get? k' := lookup_write k k' v d.entries

@[simp] theorem get?_set_self (d : Dict κ α) (k : κ) (v : α) : (d.set k v).get? k = some v := by
  simp [get?_set]

theorem get?_set_of_ne {k k' : κ} (d : Dict κ α) (v : α) (h : k ≠ k') :
    (d.set k v).get? k' = d.get? k' := by
  simp [get?_set, h]

theorem lookup_isSome_iff (k : κ) (entries : List (κ × α)) :
    (lookup k entries).isSome ↔ k ∈ entries.map (·.1) := by
  induction entries with
  | nil => simp [lookup]
  | cons e rest ih =>
    by_cases h : e.1 = k
    · simp [lookup, h]
    · have : k ≠ e.1 := fun same => h same.symm
      simp [lookup, h, ih, this]

/-- Writing keeps the keys and their order, and puts a new key at the end. -/
theorem keys_set (d : Dict κ α) (k : κ) (v : α) :
    (d.set k v).keys = if k ∈ d.keys then d.keys else d.keys ++ [k] := by
  obtain ⟨entries⟩ := d
  simp only [set, keys]
  induction entries with
  | nil => simp [write]
  | cons e rest ih =>
    by_cases h : e.1 = k
    · simp [write, h]
    · have h' : k ≠ e.1 := fun same => h same.symm
      simp only [write, if_neg h, List.map_cons, ih, List.mem_cons, h', false_or]
      by_cases hk : k ∈ rest.map (·.1) <;> simp [hk]

end Access

end Dict

end EntityMapping
