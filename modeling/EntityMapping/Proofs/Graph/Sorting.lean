import EntityMapping.Proofs.Graph.Sweeping

/-! # Sorting by sweeps

A sort sweeps until a sweep moves nothing, and takes no more sweeps for that than there are different nodes. In
what it leaves, every node stands behind all of its dependencies, and a list that is so already is left as it is.
-/

open Relation

namespace EntityMapping.Graph

variable {α : Type}

/-- Wherever a node stands, its dependencies stand before it, wherever they do. -/
def DependenciesFirst (order : List α) (dependencies : α → List α) : Prop :=
  ∀ (i j : Nat) (node d : α), order[i]? = some node → order[j]? = some d → d ∈ dependencies node → j < i

theorem DependenciesFirst.sorted {order : List α} {dependencies : α → List α}
    (h : DependenciesFirst order dependencies) : Sorted order dependencies := by
  refine List.pairwise_iff_getElem.mpr fun i j hi hj hij hd => ?_
  have := h i j _ _ (List.getElem?_eq_getElem hi) (List.getElem?_eq_getElem hj) hd
  omega

/-- No node needs itself where there are no cycles, so a dependency that does not stand behind it stands before. -/
theorem Sorted.dependenciesFirst {nodes order : List α} {dependencies : α → List α}
    (h : Sorted order dependencies) (hacyclic : Acyclic nodes dependencies) (hnodes : order ⊆ nodes) :
    DependenciesFirst order dependencies := by
  intro i j node d hi hj hd
  have hnode := hnodes (List.mem_of_getElem? hi)
  have hdnode := hnodes (List.mem_of_getElem? hj)
  obtain ⟨hilt, rfl⟩ := List.getElem?_eq_some_iff.mp hi
  obtain ⟨hjlt, rfl⟩ := List.getElem?_eq_some_iff.mp hj
  rcases Nat.lt_trichotomy i j with hij | rfl | hji
  · exact absurd hd (List.pairwise_iff_getElem.mp h i j hilt hjlt hij)
  · exact absurd (TransGen.single ⟨hnode, hnode, hd⟩) (hacyclic _)
  · exact hji

variable [DecidableEq α]

/-! ## Counting sweeps -/

/-- A number of sweeps brings a list to an end. The last of them moves nothing, and all before it something. -/
inductive Settles (dependencies : α → List α) : (sweeps : Nat) → List α → List α → Prop
  | still {order : List α} : movedBy order dependencies = [] → Settles dependencies 1 order order
  | moves {sweeps : Nat} {order result : List α} : movedBy order dependencies ≠ [] →
    Settles dependencies sweeps (sweep order (movedBy order dependencies)) result →
    Settles dependencies (sweeps + 1) order result

variable {dependencies : α → List α}

theorem exists_settles {limit : Nat} {order : List α} (h : (sweepUntil dependencies limit order).2 = true) :
    ∃ sweeps ≤ limit, Settles dependencies sweeps order (sweepUntil dependencies limit order).1 := by
  induction limit generalizing order with
  | zero => cases h
  | succ limit ih =>
    unfold sweepUntil at h ⊢
    cases hmoved : movedBy order dependencies with
    | nil => exact ⟨1, by omega, .still hmoved⟩
    | cons d moved =>
      rw [hmoved] at h
      obtain ⟨sweeps, hle, hsettles⟩ := ih h
      refine ⟨sweeps + 1, by omega, .moves (by simp [hmoved]) ?_⟩
      rwa [hmoved]

theorem Settles.sweepUntil_eq {sweeps limit : Nat} {order result : List α}
    (h : Settles dependencies sweeps order result) (hle : sweeps ≤ limit) :
    sweepUntil dependencies limit order = (result, true) := by
  induction h generalizing limit with
  | still hmoved =>
    obtain ⟨limit, rfl⟩ := Nat.exists_eq_add_of_le' hle
    unfold sweepUntil
    rw [hmoved]
  | moves hmoved _ ih =>
    cases limit with
    | zero => exact absurd hle (by omega)
    | succ limit =>
      unfold sweepUntil
      split
      · rename_i hnone
        exact absurd hnone hmoved
      · exact ih (by omega)

theorem sweepSort_of_sorted {order : List α} (h : Sorted order dependencies) :
    sweepSort order dependencies = (order, true) :=
  (Settles.still ((movedBy_eq_nil_iff order dependencies).mpr h)).sweepUntil_eq (Nat.le_add_left 1 _)

theorem settles_sweepSort {order : List α} (hne : order ≠ []) (hacyclic : Acyclic order dependencies) :
    ∃ sweeps ≤ order.dedup.length, Settles dependencies sweeps order (sweepSort order dependencies).1 := by
  have hpos : 0 < order.dedup.length := List.length_pos_of_ne_nil (by simpa using hne)
  obtain ⟨hsettled, -⟩ := sweepUntil_settles hacyclic order.dedup.length 1 order (fun _ => Iff.rfl)
    below_of_mem_movedBy (by omega) hpos
  obtain ⟨sweeps, hsweeps, h⟩ := exists_settles hsettled
  refine ⟨sweeps, hsweeps, ?_⟩
  unfold sweepSort
  rwa [h.sweepUntil_eq (hsweeps.trans (length_dedup_le_sweepLimit order))]

/-- Without cycles, the sort of some nodes ends because a sweep moves nothing, after no more sweeps than there are
different nodes. It keeps the set of nodes, every node stands behind all of its dependencies in it, and to sort
once more changes nothing. Whatever the dependencies are, a list in such an order is left as it is, and a list
that repeats no node is only rearranged. -/
theorem sweepSort_exact (dependencies : α → List α) :
    (∀ order : List α, order ≠ [] → Acyclic order dependencies →
      (∃ sweeps ≤ order.dedup.length, Settles dependencies sweeps order (sweepSort order dependencies).1) ∧
        (sweepSort order dependencies).2 = true ∧
        (∀ a, a ∈ (sweepSort order dependencies).1 ↔ a ∈ order) ∧
        DependenciesFirst (sweepSort order dependencies).1 dependencies ∧
        sweepSort (sweepSort order dependencies).1 dependencies = sweepSort order dependencies) ∧
    (∀ order : List α, DependenciesFirst order dependencies → sweepSort order dependencies = (order, true)) ∧
      ∀ order : List α, order.Nodup → (sweepSort order dependencies).1.Perm order := by
  refine ⟨fun order hne hacyclic => ?_, fun order h => sweepSort_of_sorted h.sorted,
    fun order => perm_sweepSort order dependencies⟩
  obtain ⟨hsettled, hsorted⟩ := sweepSort_settles order dependencies hacyclic
  have hmem : ∀ a, a ∈ (sweepSort order dependencies).1 ↔ a ∈ order := mem_sweepUntil dependencies _ order
  refine ⟨settles_sweepSort hne hacyclic, hsettled, hmem,
    hsorted.dependenciesFirst hacyclic fun a => (hmem a).mp, ?_⟩
  rw [sweepSort_of_sorted hsorted, ← hsettled]

/-! ## Three nodes in the wrong order -/

/-- Each node needs the next one, up to 2. -/
def ladder (n : Nat) : List Nat := if n < 2 then [n + 1] else []

theorem acyclic_ladder (nodes : List Nat) : Acyclic nodes ladder := by
  have hedge : ∀ a b, Edge nodes ladder a b → a < b := by
    rintro a b ⟨-, -, hb⟩
    unfold ladder at hb
    split at hb
    · have := List.mem_singleton.mp hb
      omega
    · cases hb
  have hlt : ∀ a b, TransGen (Edge nodes ladder) a b → a < b := by
    intro a b hab
    induction hab with
    | single hab => exact hedge _ _ hab
    | tail _ hbc ih => exact ih.trans (hedge _ _ hbc)
  exact fun a hcycle => Nat.lt_irrefl a (hlt a a hcycle)

/-- Three different nodes, one of them twice, take no more than three sweeps. -/
theorem sweepSort_ladder : [0, 1, 2, 0] ≠ [] ∧ Acyclic [0, 1, 2, 0] ladder ∧
    (∃ sweeps ≤ 3, Settles ladder sweeps [0, 1, 2, 0] [2, 1, 0, 0]) ∧
    DependenciesFirst [2, 1, 0, 0] ladder ∧ sweepSort [2, 1, 0, 0] ladder = ([2, 1, 0, 0], true) := by
  have hsort : (sweepSort [0, 1, 2, 0] ladder).1 = [2, 1, 0, 0] := by decide
  obtain ⟨hsettles, -, -, hfirst, -⟩ :=
    (sweepSort_exact ladder).1 [0, 1, 2, 0] (by simp) (acyclic_ladder _)
  rw [hsort] at hsettles hfirst
  exact ⟨by simp, acyclic_ladder _, hsettles, hfirst, (sweepSort_exact ladder).2.1 _ hfirst⟩

end EntityMapping.Graph
