import EntityMapping.Proofs.Graph.Cycles
import Mathlib.Data.Set.Finite.Basic

/-! # The search for a cycle

The search goes down every dependency, with no bound on its steps. It asks a set whether a node was met
before, and keeps the nodes in their order apart from that, so as to tell the cycle. Where only finitely many
nodes can be reached it comes to an end, and its answer is the one that is found by counting steps.
-/

open Relation

namespace EntityMapping.Graph

variable {α : Type} [DecidableEq α]

/-- The search among the nodes that are pending, below the nodes of `path`. It ends with the first cycle, or with
none. What is below a pending node is visited with that node, and the next one without it. -/
inductive Search (dependencies : α → List α) :
    (visited path pending : List α) → Option (List α) → Prop
  | done {visited path : List α} : Search dependencies visited path [] none
  | closes {visited path rest : List α} {node : α} : node ∈ visited →
    Search dependencies visited path (node :: rest)
      (some (path.drop ((path.idxOf? node).getD 0) ++ [node]))
  | found {visited path rest cycle : List α} {node : α} : node ∉ visited →
    Search dependencies (node :: visited) (path ++ [node]) (dependencies node) (some cycle) →
    Search dependencies visited path (node :: rest) (some cycle)
  | passed {visited path rest : List α} {node : α} {answer : Option (List α)} : node ∉ visited →
    Search dependencies (node :: visited) (path ++ [node]) (dependencies node) none →
    Search dependencies visited path rest answer →
    Search dependencies visited path (node :: rest) answer

/-- The nodes that can be reached from some others. -/
def Reached (dependencies : α → List α) (pending : List α) (a : α) : Prop :=
  ∃ node ∈ pending, ReflTransGen (Needs dependencies) node a

variable {dependencies : α → List α} {visited path pending : List α}

omit [DecidableEq α] in
theorem Reached.of_dependencies {node a : α} {rest : List α}
    (h : Reached dependencies (dependencies node) a) : Reached dependencies (node :: rest) a := by
  obtain ⟨d, hd, hda⟩ := h
  exact ⟨node, List.mem_cons_self, ReflTransGen.head hd hda⟩

omit [DecidableEq α] in
theorem Reached.of_rest {node a : α} {rest : List α} (h : Reached dependencies rest a) :
    Reached dependencies (node :: rest) a := by
  obtain ⟨other, hother, ha⟩ := h
  exact ⟨other, List.mem_cons_of_mem _ hother, ha⟩

/-! ## One answer -/

theorem Search.unique {answer other : Option (List α)} (h : Search dependencies visited path pending answer)
    (h' : Search dependencies visited path pending other) : other = answer := by
  induction h generalizing other with
  | done =>
    cases h'
    rfl
  | closes hmem =>
    cases h' with
    | closes => rfl
    | found hnew | passed hnew => exact absurd hmem hnew
  | found hnew _ ih =>
    cases h' with
    | closes hmem => exact absurd hmem hnew
    | found _ hbelow => exact ih hbelow
    | passed _ hbelow => cases ih hbelow
  | passed hnew _ _ ihbelow ihrest =>
    cases h' with
    | closes hmem => exact absurd hmem hnew
    | found _ hbelow => cases ihbelow hbelow
    | passed _ _ hrest => exact ihrest hrest

/-! ## The nodes of a cycle -/

/-- Whatever is told of a cycle was on the path or is reached from one of the pending nodes. -/
theorem Search.exists_reaching {cycle : List α} (h : Search dependencies visited path pending (some cycle)) :
    ∃ node ∈ pending, ∀ a ∈ cycle, a ∈ path ∨ ReflTransGen (Needs dependencies) node a := by
  generalize hanswer : some cycle = answer at h
  induction h generalizing cycle with
  | done => cases hanswer
  | @closes _ _ _ node =>
    obtain rfl := Option.some.inj hanswer
    refine ⟨node, List.mem_cons_self, fun a ha => ?_⟩
    rcases List.mem_append.mp ha with ha | ha
    · exact .inl (List.mem_of_mem_drop ha)
    · exact .inr (List.mem_singleton.mp ha ▸ .refl)
  | @found _ _ _ _ node _ _ ih =>
    obtain ⟨d, hd, hreach⟩ := ih hanswer
    refine ⟨node, List.mem_cons_self, fun a ha => ?_⟩
    rcases hreach a ha with hpath | hda
    · rcases List.mem_append.mp hpath with hpath | hnode
      · exact .inl hpath
      · exact .inr (List.mem_singleton.mp hnode ▸ .refl)
    · exact .inr (ReflTransGen.head hd hda)
  | passed _ _ _ _ ih =>
    obtain ⟨other, hother, hreach⟩ := ih hanswer
    exact ⟨other, List.mem_cons_of_mem _ hother, hreach⟩

/-! ## Counting steps -/

theorem closing_eq_drop {node : α} (h : node ∈ path) :
    path.drop ((path.idxOf? node).getD 0) ++ [node] = closing node path := by
  unfold closing
  congr 1
  induction path with
  | nil => simp at h
  | cons a path ih =>
    by_cases ha : a = node
    · simp [List.idxOf?_cons, ha]
    · have hmem : node ∈ path := by simpa [Ne.symm ha] using h
      obtain ⟨i, hi⟩ := Option.ne_none_iff_exists'.mp (mt List.idxOf?_eq_none_iff.mp (not_not.mpr hmem))
      have hrest := ih hmem
      rw [hi] at hrest
      simpa [List.idxOf?_cons, ha, hi] using hrest

/-- The set of visited nodes and the path hold the same nodes, so the path alone decides, and while its nodes are
different and listed the steps do not run out. -/
theorem search_cycleFrom {nodes : List α} (steps : Nat) (hsame : ∀ a, a ∈ visited ↔ a ∈ path)
    (hpath : path ⊆ nodes) (hnodup : path.Nodup) (hpending : ∀ a, Reached dependencies pending a → a ∈ nodes)
    (hsteps : nodes.length < steps + path.length) :
    Search dependencies visited path pending (pending.findSome? (cycleFrom dependencies steps path)) := by
  induction steps generalizing visited path pending with
  | zero =>
    -- The path holds different nodes of the list, so it is no longer than the list.
    have := (List.Nodup.subperm hnodup hpath).length_le
    omega
  | succ steps ih =>
    induction pending with
    | nil => exact .done
    | cons node rest ihrest =>
      have hrest := ihrest fun a ha => hpending a ha.of_rest
      rw [List.findSome?_cons, cycleFrom]
      by_cases hmem : node ∈ path
      · rw [if_pos hmem]
        dsimp only
        rw [← closing_eq_drop hmem]
        exact .closes ((hsame node).mpr hmem)
      · have hnew : node ∉ visited := mt (hsame node).mp hmem
        have hbelow : Search dependencies (node :: visited) (path ++ [node]) (dependencies node)
            ((dependencies node).findSome? (cycleFrom dependencies steps (path ++ [node]))) := by
          apply ih
          · simp [hsame, or_comm]
          · exact List.append_subset.mpr
              ⟨hpath, by simpa using hpending node ⟨node, List.mem_cons_self, .refl⟩⟩
          · simpa using hnodup.concat hmem
          · exact fun a ha => hpending a ha.of_dependencies
          · rw [List.length_append, List.length_singleton]
            omega
        rw [if_neg hmem]
        generalize (dependencies node).findSome? (cycleFrom dependencies steps (path ++ [node])) = answer at hbelow
        cases answer with
        | none => exact .passed hnew hbelow hrest
        | some cycle => exact .found hnew hbelow

theorem search_findCycle {nodes roots : List α} (hnodes : ∀ a, Reached dependencies roots a → a ∈ nodes) :
    Search dependencies [] [] roots (findCycle nodes roots dependencies) :=
  search_cycleFrom _ (by simp) (by simp) List.nodup_nil hnodes (by simp)

/-- Where finitely many nodes can be reached, the search comes to an end with one answer, whatever list of nodes
the steps are counted by. There is no cycle in it exactly when none can be reached, however many ways lead to a
node; and a cycle that is told starts and ends at one node, repeats no other, follows the dependencies, and is
reached from one of the roots. -/
theorem findCycle_exact {roots : List α} (hfinite : {a | Reached dependencies roots a}.Finite) :
    ∃ answer, (Search dependencies [] [] roots answer ∧
        ∀ other, Search dependencies [] [] roots other → other = answer) ∧
      (∀ nodes, (∀ a, Reached dependencies roots a → a ∈ nodes) → findCycle nodes roots dependencies = answer) ∧
      (answer = none ↔ ∀ a, Reached dependencies roots a → ¬ TransGen (Needs dependencies) a a) ∧
      ∀ cycle, answer = some cycle → IsCycle dependencies cycle ∧
        ∃ root ∈ roots, ∀ a ∈ cycle, ReflTransGen (Needs dependencies) root a := by
  -- The nodes that are reached are closed under dependencies, so they may serve as the list of nodes.
  have hmem : ∀ a, a ∈ hfinite.toFinset.toList ↔ Reached dependencies roots a := by simp
  have hsearch := search_findCycle fun a ha => (hmem a).mpr ha
  refine ⟨_, ⟨hsearch, fun other hother => hsearch.unique hother⟩, fun nodes hnodes => ?_, ?_, ?_⟩
  · exact hsearch.unique (search_findCycle hnodes)
  · rw [findCycle_eq_none_iff]
    · constructor
      · rintro hnone a ⟨root, hroot, hreach⟩ hcycle
        exact hnone root hroot ⟨a, hreach, hcycle⟩
      · rintro hnone root hroot ⟨a, hreach, hcycle⟩
        exact hnone a ⟨root, hroot, hreach⟩ hcycle
    · exact fun root hroot => (hmem root).mpr ⟨root, hroot, .refl⟩
    · intro a ha d hd
      obtain ⟨root, hroot, hreach⟩ := (hmem a).mp ha
      exact (hmem d).mpr ⟨root, hroot, hreach.tail hd⟩
  · intro cycle hcycle
    rw [hcycle] at hsearch
    obtain ⟨root, hroot, hreach⟩ := hsearch.exists_reaching
    refine ⟨isCycle_of_findCycle hcycle, root, hroot, fun a ha => ?_⟩
    exact (hreach a ha).resolve_left (by simp)

/-! ## A ring below a fork -/

/-- Both ways from 0 lead into the ring of 2 and 3. -/
def fork : Nat → List Nat
  | 0 => [1, 2]
  | 1 => [3]
  | 2 => [3]
  | 3 => [2]
  | _ => []

theorem reached_fork {a : Nat} (h : Reached fork [0] a) : a ∈ [0, 1, 2, 3] := by
  obtain ⟨root, hroot, hreach⟩ := h
  obtain rfl := List.mem_singleton.mp hroot
  induction hreach with
  | refl => simp
  | @tail b c _ hbc ih =>
    have hclosed : ∀ b ∈ [0, 1, 2, 3], ∀ c ∈ fork b, c ∈ [0, 1, 2, 3] := by decide
    exact hclosed b ih c hbc

theorem search_fork : {a | Reached fork [0] a}.Finite ∧ Search fork [] [] [0] (some [3, 2, 3]) ∧
    IsCycle fork [3, 2, 3] ∧ ∃ root ∈ [0], ∀ a ∈ [3, 2, 3], ReflTransGen (Needs fork) root a := by
  have hfinite : {a | Reached fork [0] a}.Finite :=
    [0, 1, 2, 3].finite_toSet.subset fun _ ha => reached_fork ha
  obtain ⟨answer, ⟨hsearch, -⟩, hsame, -, hcycle⟩ := findCycle_exact hfinite
  obtain rfl : some [3, 2, 3] = answer := hsame [0, 1, 2, 3] fun _ ha => reached_fork ha
  exact ⟨hfinite, hsearch, hcycle _ rfl⟩

end EntityMapping.Graph
