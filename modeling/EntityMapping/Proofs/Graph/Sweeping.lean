import EntityMapping.Graph.Sweep
import EntityMapping.Proofs.Graph.Chains
import Mathlib.Data.List.Chain
import Mathlib.Data.List.Dedup
import Mathlib.Data.List.Perm.Subperm

/-! # Sweeps settle

A sweep moves a node only because of a node that the sweep before moved, so every sweep needs a longer
chain of dependencies than the last one. A list without cycles has no long chains, so sweeping comes to
an end, and then no node stands before one of its dependencies.
-/

open Relation

namespace EntityMapping.Graph

variable {α : Type}

/-- `b` is a dependency of `a`, and both are listed. -/
def Edge (nodes : List α) (dependencies : α → List α) (a b : α) : Prop :=
  a ∈ nodes ∧ b ∈ nodes ∧ b ∈ dependencies a

def Acyclic (nodes : List α) (dependencies : α → List α) : Prop :=
  ∀ a, ¬ TransGen (Edge nodes dependencies) a a

/-- No node stands before one of its dependencies. -/
def Sorted (order : List α) (dependencies : α → List α) : Prop :=
  order.Pairwise fun a b => b ∉ dependencies a

/-! ## Chains -/

/-- A chain of listed nodes, each needing the next, with `n` steps down to `d`. -/
def Below (nodes : List α) (dependencies : α → List α) (n : Nat) (d : α) : Prop :=
  ∃ chain : List α, chain.length = n ∧ (chain ++ [d]).IsChain (Edge nodes dependencies) ∧
    ∀ a ∈ chain ++ [d], a ∈ nodes

theorem Below.step {nodes : List α} {dependencies : α → List α} {n : Nat} {a d : α}
    (h : Below nodes dependencies n a) (he : Edge nodes dependencies a d) :
    Below nodes dependencies (n + 1) d := by
  obtain ⟨chain, hlen, hchain, hmem⟩ := h
  refine ⟨chain ++ [a], by simp [hlen], ?_, ?_⟩
  · rw [List.isChain_append]
    refine ⟨hchain, List.isChain_singleton d, ?_⟩
    simpa using he
  · intro b hb
    rcases List.mem_append.mp hb with hb | hb
    · exact hmem b hb
    · rw [List.mem_singleton] at hb
      exact hb ▸ he.2.1

/-! ## What a sweep moves -/

variable [DecidableEq α]

theorem standsBehind_iff (order : List α) (place : Nat) (d : α) :
    standsBehind order place d = true ↔ d ∈ order.drop (place + 1) := by
  unfold standsBehind lastPlace?
  cases h : order.reverse.idxOf? d with
  | none =>
    have hd : d ∉ order := by simpa using h
    simp only [Option.map_none, Bool.false_eq_true, false_iff]
    exact fun hmem => hd (List.mem_of_mem_drop hmem)
  | some i =>
    obtain ⟨hi, hat, hfirst⟩ := List.idxOf?_eq_some_iff.mp h
    rw [List.length_reverse] at hi
    rw [List.getElem_reverse] at hat
    simp only [Option.map_some, decide_eq_true_eq, List.mem_drop_iff_getElem]
    constructor
    · intro hlt
      refine ⟨order.length - 1 - i - (place + 1), by omega, ?_⟩
      rw [← hat]
      congr 1
      omega
    · rintro ⟨j, hj, hjd⟩
      -- A later place than the last one would come earlier in the reversed list.
      by_contra hle
      have := hfirst (order.length - 1 - (place + 1 + j)) (by omega)
      rw [List.getElem_reverse] at this
      apply this
      rw [← hjd]
      congr 1
      omega

theorem mem_foldl_noteMove (order : List α) (place : Nat) (ds moved : List α) (d : α) :
    d ∈ ds.foldl (noteMove order place) moved ↔
      d ∈ moved ∨ (d ∈ ds ∧ standsBehind order place d = true) := by
  induction ds generalizing moved with
  | nil => simp
  | cons e ds ih =>
    rw [List.foldl_cons, ih]
    unfold noteMove
    by_cases he : standsBehind order place e = true ∧ e ∉ moved
    · rw [if_pos (by simpa using he)]
      simp only [List.mem_append, List.mem_cons, List.not_mem_nil, or_false]
      constructor
      · rintro ((h | rfl) | h)
        · exact Or.inl h
        · exact Or.inr ⟨Or.inl rfl, he.1⟩
        · exact Or.inr ⟨Or.inr h.1, h.2⟩
      · rintro (h | ⟨rfl | h, hb⟩)
        · exact Or.inl (Or.inl h)
        · exact Or.inl (Or.inr rfl)
        · exact Or.inr ⟨h, hb⟩
    · rw [if_neg (by simpa using he)]
      simp only [List.mem_cons]
      constructor
      · rintro (h | h)
        · exact Or.inl h
        · exact Or.inr ⟨Or.inr h.1, h.2⟩
      · rintro (h | ⟨rfl | h, hb⟩)
        · exact Or.inl h
        · by_cases hm : d ∈ moved
          · exact Or.inl hm
          · exact absurd ⟨hb, hm⟩ he
        · exact Or.inr ⟨h, hb⟩

theorem nodup_foldl_noteMove (order : List α) (place : Nat) (ds moved : List α)
    (h : moved.Nodup) : (ds.foldl (noteMove order place) moved).Nodup := by
  induction ds generalizing moved with
  | nil => exact h
  | cons e ds ih =>
    apply ih
    unfold noteMove
    split
    · rename_i he
      have he' : e ∉ moved := by simp at he; exact he.2
      simpa using h.concat he'
    · exact h

theorem nodup_movedBy (order : List α) (dependencies : α → List α) :
    (movedBy order dependencies).Nodup := by
  unfold movedBy
  suffices h : ∀ (entries : List (α × Nat)) (moved : List α), moved.Nodup →
      (entries.foldl (fun moved entry =>
        (dependencies entry.1).foldl (noteMove order entry.2) moved) moved).Nodup from
    h _ _ List.nodup_nil
  intro entries
  induction entries with
  | nil => exact fun _ h => h
  | cons e entries ih => exact fun moved h => ih _ (nodup_foldl_noteMove _ _ _ _ h)

theorem mem_movedBy (order : List α) (dependencies : α → List α) (d : α) :
    d ∈ movedBy order dependencies ↔ ∃ a, [a, d].Sublist order ∧ d ∈ dependencies a := by
  -- The fold is taken from any list of what is moved already.
  have hfold : ∀ (entries : List (α × Nat)) (moved : List α),
      d ∈ entries.foldl (fun moved entry =>
        (dependencies entry.1).foldl (noteMove order entry.2) moved) moved ↔
      d ∈ moved ∨ ∃ e ∈ entries, d ∈ dependencies e.1 ∧ standsBehind order e.2 d = true := by
    intro entries
    induction entries with
    | nil => simp
    | cons e entries ih =>
      intro moved
      rw [List.foldl_cons, ih, mem_foldl_noteMove]
      simp only [List.exists_mem_cons_iff, or_assoc]
  unfold movedBy
  rw [hfold]
  simp only [List.not_mem_nil, false_or, Prod.exists, List.mk_mem_zipIdx_iff_getElem?,
    standsBehind_iff]
  constructor
  · rintro ⟨a, place, hat, hd, hbehind⟩
    obtain ⟨hlt, rfl⟩ := List.getElem?_eq_some_iff.mp hat
    refine ⟨_, ?_, hd⟩
    have hpair : [order[place], d].Sublist (order.drop place) := by
      rw [List.drop_eq_getElem_cons hlt]
      exact (List.singleton_sublist.mpr hbehind).cons_cons _
    exact hpair.trans (List.drop_sublist _ _)
  · rintro ⟨a, hsub, hd⟩
    obtain ⟨front, back, rfl, ha, hback⟩ := List.cons_sublist_iff.mp hsub
    obtain ⟨place, hlt, rfl⟩ := List.getElem_of_mem ha
    refine ⟨_, place, by rw [List.getElem?_append_left hlt, List.getElem?_eq_getElem hlt], hd, ?_⟩
    rw [List.drop_append_of_le_length (by omega)]
    exact List.mem_append_right _ (List.singleton_sublist.mp hback)

theorem movedBy_eq_nil_iff (order : List α) (dependencies : α → List α) :
    movedBy order dependencies = [] ↔ Sorted order dependencies := by
  rw [List.eq_nil_iff_forall_not_mem, Sorted, List.pairwise_iff_forall_sublist]
  simp only [mem_movedBy, not_exists, not_and]
  exact ⟨fun h a b hab => h b a hab, fun h d a had => h had⟩

theorem movedBy_subset (order : List α) (dependencies : α → List α) :
    movedBy order dependencies ⊆ order := by
  intro d hd
  obtain ⟨a, hsub, -⟩ := (mem_movedBy order dependencies d).mp hd
  exact hsub.subset (by simp)

/-! ## What a sweep keeps -/

theorem mem_sweep {order moved : List α} (h : moved ⊆ order) (a : α) :
    a ∈ sweep order moved ↔ a ∈ order := by
  simp only [sweep, List.mem_append, List.mem_filter, decide_eq_true_eq]
  constructor
  · rintro (ha | ha)
    · exact h ha
    · exact ha.1
  · intro ha
    by_cases hm : a ∈ moved
    · exact Or.inl hm
    · exact Or.inr ⟨ha, hm⟩

theorem nodup_sweep {order moved : List α} (ho : order.Nodup) (hm : moved.Nodup) :
    (sweep order moved).Nodup := by
  refine List.nodup_append.mpr ⟨hm, ho.filter _, ?_⟩
  intro a ha b hb
  have hb' : b ∉ moved := by simpa using (List.mem_filter.mp hb).2
  rintro rfl
  exact hb' ha

/-- Nodes that stay keep their order, and every moved node comes before them. -/
theorem sublist_of_sublist_sweep {order moved : List α} {a d : α} (ha : a ∉ moved)
    (h : [a, d].Sublist (sweep order moved)) : d ∉ moved ∧ [a, d].Sublist order := by
  obtain ⟨front, back, heq, hfront, hback⟩ := List.cons_sublist_iff.mp h
  have hd : d ∈ back := List.singleton_sublist.mp hback
  -- `a` stands in the part that stayed, so the moved part is a prefix of what precedes `d`.
  rcases List.append_eq_append_iff.mp heq with ⟨mid, hf, hr⟩ | ⟨mid, hf, hr⟩
  · have ham : a ∈ mid := by
      rw [hf] at hfront
      exact (List.mem_append.mp hfront).resolve_left ha
    have hstay : [a, d].Sublist (order.filter (· ∉ moved)) := by
      rw [hr]
      exact (List.singleton_sublist.mpr ham).append (List.singleton_sublist.mpr hd)
    have hdm : d ∈ order.filter (· ∉ moved) := hstay.subset (by simp)
    exact ⟨by simpa using (List.mem_filter.mp hdm).2, hstay.trans List.filter_sublist⟩
  · exact absurd (hf ▸ List.mem_append_left _ hfront) ha

theorem Below.lt {nodes : List α} {dependencies : α → List α}
    (hacyclic : Acyclic nodes dependencies) {n : Nat} {d : α} (h : Below nodes dependencies n d) :
    n < nodes.dedup.length := by
  obtain ⟨chain, hlen, hchain, hmem⟩ := h
  have hsub : chain ++ [d] ⊆ nodes.dedup := fun a ha => List.mem_dedup.mpr (hmem a ha)
  have := (List.Nodup.subperm (nodup_of_chain hacyclic hchain) hsub).length_le
  rw [List.length_append, List.length_singleton] at this
  omega

/-! ## Sweeping to the end -/

/-- After a sweep, what moves next is needed by what has just moved. -/
theorem below_of_mem_movedBy_sweep {nodes order : List α} {dependencies : α → List α} {n : Nat}
    (hnodes : ∀ a, a ∈ order ↔ a ∈ nodes)
    (h : ∀ d ∈ movedBy order dependencies, Below nodes dependencies n d) :
    ∀ d ∈ movedBy (sweep order (movedBy order dependencies)) dependencies,
      Below nodes dependencies (n + 1) d := by
  intro d hd
  obtain ⟨a, hsub, hda⟩ := (mem_movedBy _ _ d).mp hd
  have hin : ∀ b ∈ [a, d], b ∈ nodes := by
    intro b hb
    rw [← hnodes, ← mem_sweep (movedBy_subset order dependencies)]
    exact hsub.subset hb
  have hedge : Edge nodes dependencies a d := ⟨hin a (by simp), hin d (by simp), hda⟩
  by_cases ha : a ∈ movedBy order dependencies
  · exact (h a ha).step hedge
  · obtain ⟨hdm, hsub'⟩ := sublist_of_sublist_sweep ha hsub
    exact absurd ((mem_movedBy _ _ d).mpr ⟨a, hsub', hda⟩) hdm

theorem below_of_mem_movedBy {order : List α} {dependencies : α → List α} :
    ∀ d ∈ movedBy order dependencies, Below order dependencies 1 d := by
  intro d hd
  obtain ⟨a, hsub, hda⟩ := (mem_movedBy _ _ d).mp hd
  have ha : a ∈ order := hsub.subset (by simp)
  have hd' : d ∈ order := hsub.subset (by simp)
  refine ⟨[a], rfl, ?_, ?_⟩
  · simpa using ⟨ha, hd', hda⟩
  · simpa using ⟨ha, hd'⟩

/-- What a run of sweeps keeps and reaches: the nodes, and order once it settled. -/
theorem sweepUntil_settles {nodes : List α} {dependencies : α → List α}
    (hacyclic : Acyclic nodes dependencies) (sweeps n : Nat) (order : List α)
    (hnodes : ∀ a, a ∈ order ↔ a ∈ nodes)
    (hmoved : ∀ d ∈ movedBy order dependencies, Below nodes dependencies n d)
    (henough : nodes.dedup.length ≤ n + sweeps - 1) (hpos : 0 < sweeps) :
    (sweepUntil dependencies sweeps order).2 = true ∧
      Sorted (sweepUntil dependencies sweeps order).1 dependencies := by
  induction sweeps generalizing n order with
  | zero => omega
  | succ sweeps ih =>
    unfold sweepUntil
    split
    · rename_i heq
      exact ⟨rfl, (movedBy_eq_nil_iff _ _).mp heq⟩
    · rename_i hne
      obtain ⟨d, hd⟩ := List.exists_mem_of_ne_nil _ hne
      have hlt := (hmoved d hd).lt hacyclic
      apply ih (n + 1)
      · intro a
        rw [mem_sweep (movedBy_subset order dependencies), hnodes]
      · exact below_of_mem_movedBy_sweep hnodes hmoved
      · omega
      · omega

theorem mem_sweepUntil (dependencies : α → List α) (sweeps : Nat) (order : List α) (a : α) :
    a ∈ (sweepUntil dependencies sweeps order).1 ↔ a ∈ order := by
  induction sweeps generalizing order with
  | zero => rfl
  | succ sweeps ih =>
    unfold sweepUntil
    split
    · rfl
    · rw [ih, mem_sweep (movedBy_subset order dependencies)]

theorem nodup_sweepUntil (dependencies : α → List α) (sweeps : Nat) (order : List α)
    (h : order.Nodup) : (sweepUntil dependencies sweeps order).1.Nodup := by
  induction sweeps generalizing order with
  | zero => exact h
  | succ sweeps ih =>
    unfold sweepUntil
    split
    · exact h
    · exact ih _ (nodup_sweep h (nodup_movedBy _ _))

theorem perm_sweepSort (order : List α) (dependencies : α → List α) (h : order.Nodup) :
    (sweepSort order dependencies).1.Perm order := by
  unfold sweepSort
  rw [List.perm_ext_iff_of_nodup (nodup_sweepUntil _ _ _ h) h]
  exact mem_sweepUntil _ _ _

theorem length_dedup_le_sweepLimit (order : List α) : order.dedup.length ≤ sweepLimit order := by
  have hdedup := (List.dedup_sublist order).length_le
  have hsquare := Nat.le_mul_self order.length
  unfold sweepLimit
  omega

theorem sweepSort_settles (order : List α) (dependencies : α → List α)
    (hacyclic : Acyclic order dependencies) :
    (sweepSort order dependencies).2 = true ∧ Sorted (sweepSort order dependencies).1 dependencies := by
  have hle := length_dedup_le_sweepLimit order
  apply sweepUntil_settles hacyclic _ 1 order (fun _ => Iff.rfl) below_of_mem_movedBy
  · omega
  · exact Nat.succ_pos _

end EntityMapping.Graph
