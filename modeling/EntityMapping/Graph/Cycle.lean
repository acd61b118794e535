/-! # Finding a cycle of dependencies

A depth-first walk from every root. A node that is met again on its own path closes a cycle; a node that
is met again on another path does not.
-/

namespace EntityMapping.Graph

variable {α : Type} [DecidableEq α]

/-- The part of `path` from `node` on, and `node` again. -/
def closing (node : α) (path : List α) : List α := path.dropWhile (· ≠ node) ++ [node]

/-- The first cycle that a walk from `node` closes, after the nodes of `path`. A path repeats no node, so
it never gets longer than the number of nodes. -/
def cycleFrom (dependencies : α → List α) : (steps : Nat) → (path : List α) → (node : α) →
    Option (List α)
  | 0, _, _ => none
  | steps + 1, path, node =>
    if node ∈ path then some (closing node path)
    else (dependencies node).findSome? (cycleFrom dependencies steps (path ++ [node]))

/-- The first cycle that can be reached from a root, as a path that starts and ends at one node. The
list `nodes` must hold every node that can be reached. -/
def findCycle (nodes roots : List α) (dependencies : α → List α) : Option (List α) :=
  roots.findSome? (cycleFrom dependencies (nodes.length + 1) [])

end EntityMapping.Graph
