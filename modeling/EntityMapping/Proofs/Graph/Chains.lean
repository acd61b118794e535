import Mathlib.Data.List.Chain
import Mathlib.Data.List.Nodup
import Mathlib.Data.List.Perm.Subperm
import Mathlib.Logic.Relation
import Mathlib.Order.Lattice.Nat

/-! # Heights

The height of a node is the number of nodes on a longest chain from it. Where chains cannot get longer
than some bound, every step of a chain leads to a smaller height.
-/

open Relation

namespace EntityMapping.Graph

variable {α : Type}

/-- A chain of steps that starts at a node. -/
def ChainFrom (step : α → α → Prop) (a : α) (chain : List α) : Prop :=
  chain.head? = some a ∧ chain.IsChain step

/-- A chain from a node that no other one exceeds. -/
def LongestFrom (step : α → α → Prop) (a : α) (chain : List α) : Prop :=
  ChainFrom step a chain ∧ ∀ other, ChainFrom step a other → other.length ≤ chain.length

/-- The lengths of the chains from a node. -/
def chainLengths (step : α → α → Prop) (a : α) : Set Nat :=
  {n | ∃ chain, ChainFrom step a chain ∧ chain.length = n}

noncomputable def height (step : α → α → Prop) (a : α) : Nat := sSup (chainLengths step a)

/-- No chain has more than `bound` nodes. -/
def Bounded (step : α → α → Prop) (bound : Nat) : Prop :=
  ∀ chain : List α, chain.IsChain step → chain.length ≤ bound

variable {step : α → α → Prop} {bound : Nat}

theorem chainFrom_singleton (a : α) : ChainFrom step a [a] := ⟨rfl, List.isChain_singleton a⟩

theorem ChainFrom.cons {a b : α} {chain : List α} (hab : step a b) (h : ChainFrom step b chain) :
    ChainFrom step a (a :: chain) := by
  obtain ⟨hhead, hchain⟩ := h
  refine ⟨rfl, ?_⟩
  cases chain with
  | nil => simp at hhead
  | cons c chain =>
    obtain rfl : c = b := by simpa using hhead
    exact List.isChain_cons_cons.mpr ⟨hab, hchain⟩

theorem Bounded.bddAbove (h : Bounded step bound) (a : α) : BddAbove (chainLengths step a) := by
  refine ⟨bound, ?_⟩
  rintro n ⟨chain, hchain, rfl⟩
  exact h chain hchain.2

theorem Bounded.exists_longest (h : Bounded step bound) (a : α) :
    ∃ chain, LongestFrom step a chain ∧ chain.length = height step a := by
  obtain ⟨chain, hchain, hlength⟩ : height step a ∈ chainLengths step a :=
    Nat.sSup_mem ⟨1, [a], chainFrom_singleton a, rfl⟩ (h.bddAbove a)
  refine ⟨chain, ⟨hchain, fun other hother => ?_⟩, hlength⟩
  rw [hlength]
  exact le_csSup (h.bddAbove a) ⟨other, hother, rfl⟩

theorem Bounded.height_pos (h : Bounded step bound) (a : α) : 0 < height step a :=
  le_csSup (h.bddAbove a) ⟨[a], chainFrom_singleton a, rfl⟩

theorem Bounded.height_lt (h : Bounded step bound) {a b : α} (hab : step a b) :
    height step b < height step a := by
  obtain ⟨chain, hchain, hlength⟩ := h.exists_longest b
  have hle : (a :: chain).length ≤ height step a :=
    le_csSup (h.bddAbove a) ⟨a :: chain, hchain.1.cons hab, rfl⟩
  rw [List.length_cons] at hle
  omega

/-! ## Chains in a list of nodes -/

theorem nodup_of_chain (hacyclic : ∀ a, ¬ TransGen step a a) {chain : List α}
    (h : chain.IsChain step) : chain.Nodup := by
  have hpair : chain.Pairwise (TransGen step) :=
    List.isChain_iff_pairwise.mp (h.imp fun _ _ => TransGen.single)
  apply hpair.imp
  rintro a b hab rfl
  exact hacyclic a hab

theorem subset_of_chain {nodes : List α} (hnodes : ∀ a b, step a b → b ∈ nodes) {a : α}
    {chain : List α} (ha : a ∈ nodes) (h : ChainFrom step a chain) : chain ⊆ nodes := by
  obtain ⟨hhead, hchain⟩ := h
  induction chain generalizing a with
  | nil => exact List.nil_subset _
  | cons b chain ih =>
    obtain rfl : b = a := by simpa using hhead
    refine List.cons_subset.mpr ⟨ha, ?_⟩
    cases chain with
    | nil => exact List.nil_subset _
    | cons c chain =>
      obtain ⟨hbc, hchain⟩ := List.isChain_cons_cons.mp hchain
      exact ih (hnodes b c hbc) rfl hchain

theorem length_le_of_chain {nodes : List α} (hacyclic : ∀ a, ¬ TransGen step a a)
    (hnodes : ∀ a b, step a b → b ∈ nodes) {a : α} {chain : List α} (ha : a ∈ nodes)
    (h : ChainFrom step a chain) : chain.length ≤ nodes.length :=
  (List.Nodup.subperm (nodup_of_chain hacyclic h.2) (subset_of_chain hnodes ha h)).length_le

/-- Without cycles, chains among finitely many nodes are bounded. -/
theorem bounded_of_acyclic {nodes : List α} (hacyclic : ∀ a, ¬ TransGen step a a)
    (hnodes : ∀ a b, step a b → a ∈ nodes ∧ b ∈ nodes) : Bounded step (nodes.length + 1) := by
  intro chain hchain
  cases chain with
  | nil => simp
  | cons a chain =>
    cases chain with
    | nil => simp
    | cons b chain =>
      have hab := (List.isChain_cons_cons.mp hchain).1
      have := length_le_of_chain hacyclic (fun a b h => (hnodes a b h).2) (hnodes a b hab).1
        ⟨rfl, hchain⟩
      omega

end EntityMapping.Graph
