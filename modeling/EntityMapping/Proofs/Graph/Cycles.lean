import EntityMapping.Graph.Cycle
import Mathlib.Data.List.Chain
import Mathlib.Data.List.Nodup
import Mathlib.Data.List.Perm.Subperm
import Mathlib.Logic.Relation

/-! # Cycles are found

What the walk reports is a cycle, and it reports one whenever one can be reached. A node from which a
cycle can be reached has a dependency from which it can be reached, so the walk can only end where it
meets a node of its own path again.
-/

open Relation

namespace EntityMapping.Graph

variable {α : Type}

/-- `b` is a dependency of `a`. -/
def Needs (dependencies : α → List α) (a b : α) : Prop := b ∈ dependencies a

/-- A path along dependencies that ends where it starts and repeats no other node. -/
structure IsCycle (dependencies : α → List α) (path : List α) : Prop where
  two_le : 2 ≤ path.length
  closed : path.head? = path.getLast?
  chained : path.IsChain (Needs dependencies)
  nodup : path.dropLast.Nodup

/-- A cycle can be reached from the node. -/
def Cyclic (dependencies : α → List α) (node : α) : Prop :=
  ∃ a, ReflTransGen (Needs dependencies) node a ∧ TransGen (Needs dependencies) a a

theorem Cyclic.of_dependency {dependencies : α → List α} {node d : α} (hd : d ∈ dependencies node)
    (h : Cyclic dependencies d) : Cyclic dependencies node := by
  obtain ⟨a, hreach, hcycle⟩ := h
  exact ⟨a, ReflTransGen.head hd hreach, hcycle⟩

theorem Cyclic.exists_dependency {dependencies : α → List α} {node : α}
    (h : Cyclic dependencies node) : ∃ d ∈ dependencies node, Cyclic dependencies d := by
  obtain ⟨a, hreach, hcycle⟩ := h
  rcases ReflTransGen.cases_head hreach with rfl | ⟨d, hd, hda⟩
  · obtain ⟨d, hd, hda⟩ := TransGen.head'_iff.mp hcycle
    exact ⟨d, hd, node, hda, hcycle⟩
  · exact ⟨d, hd, a, hda, hcycle⟩

theorem transGen_of_isChain {dependencies : α → List α} {a : α} (rest : List α) (b : α)
    (h : (a :: rest ++ [b]).IsChain (Needs dependencies)) : TransGen (Needs dependencies) a b := by
  induction rest generalizing a with
  | nil => exact TransGen.single (by simpa using h)
  | cons c rest ih =>
    simp only [List.cons_append, List.isChain_cons_cons] at h
    exact TransGen.head h.1 (ih h.2)

theorem IsCycle.transGen {dependencies : α → List α} {path : List α}
    (h : IsCycle dependencies path) : ∃ a, TransGen (Needs dependencies) a a := by
  obtain ⟨hlen, hclosed, hchain, -⟩ := h
  match path, hlen with
  | a :: b :: rest, _ =>
    rcases List.eq_nil_or_concat (b :: rest) with h | ⟨mid, z, h⟩
    · simp at h
    · rw [h, List.concat_eq_append] at hclosed hchain
      have haz : a = z := by
        rw [← List.cons_append, List.getLast?_concat] at hclosed
        simpa using hclosed
      exact ⟨a, transGen_of_isChain mid a (by simpa [haz] using hchain)⟩

variable [DecidableEq α]

/-! ## What is reported is a cycle -/

theorem closing_of_mem {node : α} {path : List α} (h : node ∈ path) :
    ∃ front rest, path = front ++ node :: rest ∧ closing node path = node :: rest ++ [node] := by
  induction path with
  | nil => simp at h
  | cons a path ih =>
    by_cases ha : a = node
    · exact ⟨[], path, by simp [ha], by simp [closing, ha]⟩
    · obtain ⟨front, rest, hpath, hclosing⟩ := ih (by simpa [Ne.symm ha] using h)
      refine ⟨a :: front, rest, by simp [hpath], ?_⟩
      rw [← hclosing]
      simp [closing, ha]

theorem isCycle_closing {dependencies : α → List α} {path : List α} {node : α} (h : node ∈ path)
    (hchain : (path ++ [node]).IsChain (Needs dependencies)) (hnodup : path.Nodup) :
    IsCycle dependencies (closing node path) := by
  obtain ⟨front, rest, rfl, hclosing⟩ := closing_of_mem h
  rw [hclosing]
  refine ⟨by simp, by rw [List.getLast?_concat]; rfl, ?_, ?_⟩
  · rw [List.append_assoc] at hchain
    exact (List.isChain_append.mp hchain).2.1
  · rw [List.dropLast_concat]
    exact (List.nodup_append.mp hnodup).2.1

theorem isCycle_of_cycleFrom {dependencies : α → List α} (steps : Nat) (path : List α) (node : α)
    {cycle : List α} (hchain : (path ++ [node]).IsChain (Needs dependencies)) (hnodup : path.Nodup)
    (h : cycleFrom dependencies steps path node = some cycle) : IsCycle dependencies cycle := by
  induction steps generalizing path node with
  | zero => simp [cycleFrom] at h
  | succ steps ih =>
    unfold cycleFrom at h
    split at h
    · rename_i hmem
      rw [Option.some.injEq] at h
      exact h ▸ isCycle_closing hmem hchain hnodup
    · rename_i hmem
      obtain ⟨d, hd, hcycle⟩ := List.exists_of_findSome?_eq_some h
      apply ih (path ++ [node]) d _ _ hcycle
      · rw [List.isChain_append]
        exact ⟨hchain, List.isChain_singleton d, by simpa [Needs] using hd⟩
      · simpa using hnodup.concat hmem

theorem cyclic_of_cycleFrom {dependencies : α → List α} (steps : Nat) (path : List α) (node : α)
    {cycle : List α} (hchain : (path ++ [node]).IsChain (Needs dependencies))
    (h : cycleFrom dependencies steps path node = some cycle) : Cyclic dependencies node := by
  induction steps generalizing path node with
  | zero => simp [cycleFrom] at h
  | succ steps ih =>
    unfold cycleFrom at h
    split at h
    · rename_i hmem
      obtain ⟨front, rest, rfl, -⟩ := closing_of_mem hmem
      rw [List.append_assoc] at hchain
      exact ⟨node, ReflTransGen.refl, transGen_of_isChain rest node (List.isChain_append.mp hchain).2.1⟩
    · obtain ⟨d, hd, hcycle⟩ := List.exists_of_findSome?_eq_some h
      refine Cyclic.of_dependency hd (ih (path ++ [node]) d ?_ hcycle)
      rw [List.isChain_append]
      exact ⟨hchain, List.isChain_singleton d, by simpa [Needs] using hd⟩

/-! ## Every cycle that can be reached is reported -/

/-- The path of a walk holds different listed nodes, so the walk does not run out of steps. -/
theorem cycleFrom_ne_none {nodes : List α} {dependencies : α → List α}
    (hclosed : ∀ a ∈ nodes, ∀ d ∈ dependencies a, d ∈ nodes) (steps : Nat) (path : List α) (node : α)
    (hpath : path ⊆ nodes) (hnodup : path.Nodup) (hnode : node ∈ nodes)
    (hsteps : nodes.length < steps + path.length) (h : Cyclic dependencies node) :
    cycleFrom dependencies steps path node ≠ none := by
  induction steps generalizing path node with
  | zero =>
    -- The path holds different nodes of the list, so it is no longer than the list.
    have := (List.Nodup.subperm hnodup hpath).length_le
    omega
  | succ steps ih =>
    unfold cycleFrom
    split
    · simp
    · rename_i hmem
      obtain ⟨d, hd, hcyclic⟩ := h.exists_dependency
      have hsome : cycleFrom dependencies steps (path ++ [node]) d ≠ none := by
        apply ih
        · exact List.append_subset.mpr ⟨hpath, by simpa using hnode⟩
        · simpa using hnodup.concat hmem
        · exact hclosed node hnode d hd
        · rw [List.length_append, List.length_singleton]
          omega
        · exact hcyclic
      intro hnone
      exact hsome (List.findSome?_eq_none_iff.mp hnone d hd)

theorem findCycle_eq_none_iff {nodes roots : List α} {dependencies : α → List α}
    (hroots : roots ⊆ nodes) (hclosed : ∀ a ∈ nodes, ∀ d ∈ dependencies a, d ∈ nodes) :
    findCycle nodes roots dependencies = none ↔ ∀ root ∈ roots, ¬ Cyclic dependencies root := by
  unfold findCycle
  rw [List.findSome?_eq_none_iff]
  constructor
  · intro h root hroot hcyclic
    exact cycleFrom_ne_none hclosed _ [] root (by simp) List.nodup_nil (hroots hroot) (by simp)
      hcyclic (h root hroot)
  · intro h root hroot
    by_contra hne
    obtain ⟨cycle, hcycle⟩ := Option.ne_none_iff_exists'.mp hne
    -- The nodes of a reported cycle are reached from the root.
    exact h root hroot (cyclic_of_cycleFrom _ [] root (by simp) hcycle)

theorem isCycle_of_findCycle {nodes roots : List α} {dependencies : α → List α} {cycle : List α}
    (h : findCycle nodes roots dependencies = some cycle) : IsCycle dependencies cycle := by
  obtain ⟨root, -, hcycle⟩ := List.exists_of_findSome?_eq_some h
  exact isCycle_of_cycleFrom _ [] root (by simp) List.nodup_nil hcycle

end EntityMapping.Graph
