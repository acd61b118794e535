/-! # Ordering by dependencies

A list is brought into an order in which every node follows its dependencies. In each sweep, the
dependencies that stand behind a node that needs them move to the front, in the order in which they
were found. Dependencies outside the list are ignored.
-/

namespace EntityMapping.Graph

variable {α : Type} [DecidableEq α]

def lastPlace? (order : List α) (node : α) : Option Nat :=
  (order.reverse.idxOf? node).map fun i => order.length - 1 - i

/-- The dependency stands behind `place`. -/
def standsBehind (order : List α) (place : Nat) (dependency : α) : Bool :=
  match lastPlace? order dependency with
  | some found => place < found
  | none => false

def noteMove (order : List α) (place : Nat) (moved : List α) (dependency : α) : List α :=
  if standsBehind order place dependency && !(dependency ∈ moved) then moved ++ [dependency]
  else moved

def movedBy (order : List α) (dependencies : α → List α) : List α :=
  order.zipIdx.foldl
    (fun moved entry => (dependencies entry.1).foldl (noteMove order entry.2) moved) []

def sweep (order moved : List α) : List α := moved ++ order.filter (· ∉ moved)

/-- Sweeps until a sweep moves nothing, or no sweeps are left. The flag tells whether it settled. -/
def sweepUntil (dependencies : α → List α) : (sweeps : Nat) → List α → List α × Bool
  | 0, order => (order, false)
  | sweeps + 1, order =>
    match movedBy order dependencies with
    | [] => (order, true)
    | moved => sweepUntil dependencies sweeps (sweep order moved)

/-- More sweeps than any list without cycles needs. -/
def sweepLimit (order : List α) : Nat := order.length * order.length + 1

def sweepSort (order : List α) (dependencies : α → List α) : List α × Bool :=
  sweepUntil dependencies (sweepLimit order) order

end EntityMapping.Graph
