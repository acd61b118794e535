import EntityMapping.Query
import Mathlib.Data.List.Nodup

/-! # Merged includes

Includes load paths of relations, and merging them loads the paths of both sides. A list in which no
relation is named twice, at any depth, keeps that when such a list is merged into it.
-/

namespace EntityMapping.Include

mutual

/-- No list of includes names a relation twice. -/
def Distinct : Include → Prop
  | ⟨_, nested⟩ => DistinctAll nested

def DistinctAll : List Include → Prop
  | [] => True
  | i :: rest => i.relation ∉ rest.map (·.relation) ∧ i.Distinct ∧ DistinctAll rest

end

/-! ## Paths -/

theorem mem_paths {relation : String} {nested : List Include} {p : List String} :
    p ∈ paths ⟨relation, nested⟩ ↔ p = [relation] ∨ ∃ q ∈ pathsOf nested, p = relation :: q := by
  unfold paths
  simp [eq_comm]

theorem mem_pathsOf {is : List Include} {p : List String} : p ∈ pathsOf is ↔ ∃ i ∈ is, p ∈ paths i := by
  induction is with
  | nil => simp [pathsOf]
  | cons i rest ih =>
    unfold pathsOf
    rw [List.mem_append, ih]
    simp

theorem ne_nil_of_mem_pathsOf {is : List Include} {p : List String} (h : p ∈ pathsOf is) : p ≠ [] := by
  obtain ⟨⟨relation, nested⟩, -, hp⟩ := mem_pathsOf.mp h
  rcases mem_paths.mp hp with rfl | ⟨q, -, rfl⟩ <;> simp

theorem pathsOf_append (is is' : List Include) : pathsOf (is ++ is') = pathsOf is ++ pathsOf is' := by
  induction is with
  | nil => rfl
  | cons i rest ih =>
    simp only [List.cons_append, pathsOf, ih, List.append_assoc]

theorem mem_pathsOf_modifyNested {relation : String} {f : List Include → List Include}
    {more : List (List String)} (hf : ∀ nested p, p ∈ pathsOf (f nested) ↔ p ∈ pathsOf nested ∨ p ∈ more)
    {is : List Include} (hmem : is.any (·.relation = relation) = true) (p : List String) :
    p ∈ pathsOf (modifyNested relation f is) ↔
      p ∈ pathsOf is ∨ ∃ q ∈ more, p = relation :: q := by
  induction is with
  | nil => simp at hmem
  | cons i rest ih =>
    obtain ⟨name, nested⟩ := i
    unfold modifyNested
    split
    · rename_i heq
      obtain rfl : name = relation := heq
      simp only [pathsOf, List.mem_append, mem_paths, hf]
      constructor
      · rintro ((h | ⟨q, hq | hq, rfl⟩) | h)
        · exact Or.inl (Or.inl (Or.inl h))
        · exact Or.inl (Or.inl (Or.inr ⟨q, hq, rfl⟩))
        · exact Or.inr ⟨q, hq, rfl⟩
        · exact Or.inl (Or.inr h)
      · rintro (((h | ⟨q, hq, rfl⟩) | h) | ⟨q, hq, rfl⟩)
        · exact Or.inl (Or.inl h)
        · exact Or.inl (Or.inr ⟨q, Or.inl hq, rfl⟩)
        · exact Or.inr h
        · exact Or.inl (Or.inr ⟨q, Or.inr hq, rfl⟩)
    · rename_i hne
      have hrest : rest.any (·.relation = relation) = true := by simpa [hne] using hmem
      simp only [pathsOf, List.mem_append, ih hrest, or_assoc]

mutual

theorem mem_pathsOf_merge : ∀ (i : Include) (into : List Include) (p : List String),
    p ∈ pathsOf (merge into i) ↔ p ∈ pathsOf into ∨ p ∈ paths i
  | ⟨relation, nested⟩, into, p => by
    unfold merge
    split
    · rename_i hmem
      rw [mem_pathsOf_modifyNested (fun into p => mem_pathsOf_mergeAll nested into p) hmem, mem_paths]
      -- The relation itself is loaded already.
      have hloaded : [relation] ∈ pathsOf into := by
        obtain ⟨⟨name, inner⟩, hi, heq⟩ := List.any_eq_true.mp hmem
        obtain rfl : name = relation := by simpa using heq
        exact mem_pathsOf.mpr ⟨_, hi, mem_paths.mpr (Or.inl rfl)⟩
      constructor
      · rintro (h | h)
        · exact Or.inl h
        · exact Or.inr (Or.inr h)
      · rintro (h | rfl | h)
        · exact Or.inl h
        · exact Or.inl hloaded
        · exact Or.inr h
    · rw [pathsOf_append, List.mem_append]
      simp [pathsOf]

theorem mem_pathsOf_mergeAll : ∀ (is into : List Include) (p : List String),
    p ∈ pathsOf (mergeAll into is) ↔ p ∈ pathsOf into ∨ p ∈ pathsOf is
  | [], into, p => by simp [mergeAll, pathsOf]
  | i :: rest, into, p => by
    unfold mergeAll
    rw [mem_pathsOf_mergeAll rest, mem_pathsOf_merge i]
    simp only [pathsOf, List.mem_append, or_assoc]

end

theorem mem_pathsOf_foldl {α : Type} (f : α → List Include) (l : List α) (into : List Include)
    (p : List String) : p ∈ pathsOf (l.foldl (fun is a => mergeAll is (f a)) into) ↔
      p ∈ pathsOf into ∨ ∃ a ∈ l, p ∈ pathsOf (f a) := by
  induction l generalizing into with
  | nil => simp
  | cons a l ih =>
    rw [List.foldl_cons, ih, mem_pathsOf_mergeAll]
    simp [or_assoc]

theorem mem_pathsOf_alongPath {nested : List Include} {path p : List String} :
    p ∈ pathsOf (alongPath nested path) ↔
      (p ≠ [] ∧ p <+: path) ∨ ∃ q ∈ pathsOf nested, p = path ++ q := by
  induction path generalizing p with
  | nil =>
    simp only [alongPath, List.nil_append, exists_eq_right']
    constructor
    · exact Or.inr
    · rintro (⟨hne, hp⟩ | h)
      · exact absurd (List.prefix_nil.mp hp) hne
      · exact h
  | cons relation rest ih =>
    simp only [alongPath, pathsOf, List.append_nil, mem_paths, ih]
    constructor
    · rintro (rfl | ⟨q, ⟨-, hq⟩ | ⟨q', hq', rfl⟩, rfl⟩)
      · exact Or.inl ⟨by simp, by simp⟩
      · exact Or.inl ⟨by simp, (List.prefix_cons_inj relation).mpr hq⟩
      · exact Or.inr ⟨q', hq', rfl⟩
    · rintro (⟨hne, hp⟩ | ⟨q, hq, rfl⟩)
      · rcases List.prefix_cons_iff.mp hp with rfl | ⟨t, rfl, ht⟩
        · exact absurd rfl hne
        · by_cases hnil : t = []
          · exact Or.inl (by rw [hnil])
          · exact Or.inr ⟨t, Or.inl ⟨hnil, ht⟩, rfl⟩
      · exact Or.inr ⟨rest ++ q, Or.inr ⟨q, hq, rfl⟩, rfl⟩

theorem alongPath_append (nested : List Include) (path rest : List String) :
    alongPath nested (path ++ rest) = alongPath (alongPath nested rest) path := by
  induction path with
  | nil => rfl
  | cons relation path ih =>
    rw [List.cons_append]
    unfold alongPath
    rw [ih]

/-! ## Counts -/

theorem countAll_append (is is' : List Include) : countAll (is ++ is') = countAll is + countAll is' := by
  induction is with
  | nil => simp [countAll]
  | cons i rest ih => simp only [List.cons_append, countAll, ih, Nat.add_assoc]

theorem countAll_modifyNested {relation : String} {f : List Include → List Include} {n : Nat}
    (hf : ∀ nested, countAll (f nested) ≤ countAll nested + n) (is : List Include) :
    countAll (modifyNested relation f is) ≤ countAll is + n := by
  induction is with
  | nil => simp [modifyNested]
  | cons i rest ih =>
    obtain ⟨name, nested⟩ := i
    have := hf nested
    unfold modifyNested
    split <;> simp only [countAll, count] <;> omega

mutual

theorem countAll_merge : ∀ (i : Include) (into : List Include),
    countAll (merge into i) ≤ countAll into + count i
  | ⟨relation, nested⟩, into => by
    unfold merge
    split
    · have hchanged : countAll (modifyNested relation (mergeAll · nested) into) ≤
          countAll into + countAll nested :=
        countAll_modifyNested (fun inner => countAll_mergeAll nested inner) into
      simp only [count]
      omega
    · simp [countAll_append, countAll]

theorem countAll_mergeAll : ∀ (is into : List Include),
    countAll (mergeAll into is) ≤ countAll into + countAll is
  | [], into => by simp [mergeAll]
  | i :: rest, into => by
    have hfirst := countAll_merge i into
    have hrest := countAll_mergeAll rest (merge into i)
    simp only [mergeAll, countAll]
    omega

end

/-! ## Distinct relations -/

theorem map_relation_modifyNested (relation : String) (f : List Include → List Include)
    (is : List Include) : (modifyNested relation f is).map (·.relation) = is.map (·.relation) := by
  induction is with
  | nil => rfl
  | cons i rest ih =>
    unfold modifyNested
    split
    · rfl
    · rw [List.map_cons, List.map_cons, ih]

theorem distinctAll_modifyNested {relation : String} {f : List Include → List Include}
    (hf : ∀ nested, DistinctAll nested → DistinctAll (f nested)) {is : List Include}
    (h : DistinctAll is) : DistinctAll (modifyNested relation f is) := by
  induction is with
  | nil => exact h
  | cons i rest ih =>
    obtain ⟨name, nested⟩ := i
    obtain ⟨hnew, hi, hrest⟩ := h
    unfold modifyNested
    split
    · exact ⟨hnew, hf nested hi, hrest⟩
    · exact ⟨by rwa [map_relation_modifyNested], hi, ih hrest⟩

theorem distinctAll_concat {is : List Include} {i : Include} (h : DistinctAll is)
    (hnew : i.relation ∉ is.map (·.relation)) (hi : i.Distinct) : DistinctAll (is ++ [i]) := by
  induction is with
  | nil => exact ⟨by simp, hi, trivial⟩
  | cons j rest ih =>
    obtain ⟨hj, hdistinct, hrest⟩ := h
    rw [List.map_cons, List.mem_cons, not_or] at hnew
    refine ⟨?_, hdistinct, ih hrest hnew.2⟩
    change j.relation ∉ (rest ++ [i]).map (·.relation)
    rw [List.map_append, List.mem_append, not_or]
    exact ⟨hj, by simpa using Ne.symm hnew.1⟩

mutual

theorem distinctAll_merge : ∀ (i : Include) (into : List Include), i.Distinct → DistinctAll into →
    DistinctAll (merge into i)
  | ⟨relation, nested⟩, into, hi, h => by
    unfold merge
    split
    · exact distinctAll_modifyNested (fun into hinto => distinctAll_mergeAll nested into hi hinto) h
    · rename_i hnew
      refine distinctAll_concat h ?_ hi
      intro hmem
      obtain ⟨j, hj, heq⟩ := List.mem_map.mp hmem
      exact hnew (List.any_eq_true.mpr ⟨j, hj, by simpa using heq⟩)

theorem distinctAll_mergeAll : ∀ (is into : List Include), DistinctAll is → DistinctAll into →
    DistinctAll (mergeAll into is)
  | [], _, _, h => h
  | i :: rest, into, hall, h => by
    unfold mergeAll
    exact distinctAll_mergeAll rest _ hall.2.2 (distinctAll_merge i into hall.2.1 h)

end

theorem Distinct.andThen {i nested : Include} (hi : i.Distinct) (hnested : nested.Distinct) :
    (i.andThen nested).Distinct := by
  obtain ⟨relation, inner⟩ := i
  exact distinctAll_merge nested inner hnested hi

theorem distinctAll_alongPath {nested : List Include} (h : DistinctAll nested) (path : List String) :
    DistinctAll (alongPath nested path) := by
  induction path with
  | nil => exact h
  | cons relation rest ih => exact ⟨by simp, ih, trivial⟩

theorem DistinctAll.nodup {is : List Include} (h : DistinctAll is) : (is.map (·.relation)).Nodup := by
  induction is with
  | nil => exact List.nodup_nil
  | cons i rest ih => exact List.nodup_cons.mpr ⟨h.1, ih h.2.2⟩

theorem DistinctAll.distinct {is : List Include} (h : DistinctAll is) {i : Include} (hi : i ∈ is) :
    i.Distinct := by
  induction is with
  | nil => simp at hi
  | cons j rest ih =>
    rcases List.mem_cons.mp hi with rfl | hi
    · exact h.2.1
    · exact ih h.2.2 hi

theorem DistinctAll.eq_of_relation {is : List Include} (h : DistinctAll is) {i j : Include}
    (hi : i ∈ is) (hj : j ∈ is) (heq : i.relation = j.relation) : i = j := by
  induction is with
  | nil => simp at hi
  | cons k rest ih =>
    obtain ⟨hnew, -, hrest⟩ := h
    rcases List.mem_cons.mp hi with rfl | hi'
    · rcases List.mem_cons.mp hj with rfl | hj'
      · rfl
      · exact absurd (heq ▸ List.mem_map_of_mem hj') hnew
    · rcases List.mem_cons.mp hj with rfl | hj'
      · exact absurd (heq ▸ List.mem_map_of_mem hi') hnew
      · exact ih hrest hi' hj'

theorem DistinctAll.mem_nested {is : List Include} (h : DistinctAll is) {relation : String}
    {nested : List Include} (hi : ⟨relation, nested⟩ ∈ is) {q : List String} (hne : q ≠ []) :
    relation :: q ∈ pathsOf is ↔ q ∈ pathsOf nested := by
  rw [mem_pathsOf]
  constructor
  · rintro ⟨⟨name, inner⟩, hj, hp⟩
    rcases mem_paths.mp hp with heq | ⟨q', hq', heq⟩
    · exact absurd (List.cons.inj heq).2 hne
    · obtain ⟨rfl, rfl⟩ := List.cons.inj heq
      obtain rfl : inner = nested := (Include.mk.inj (h.eq_of_relation hj hi rfl)).2
      exact hq'
  · exact fun hq => ⟨_, hi, mem_paths.mpr (Or.inr ⟨q, hq, rfl⟩)⟩

theorem exists_mem_of_singleton {is : List Include} {relation : String} (h : [relation] ∈ pathsOf is) :
    ∃ nested, ⟨relation, nested⟩ ∈ is := by
  obtain ⟨⟨name, nested⟩, hi, hp⟩ := mem_pathsOf.mp h
  rcases mem_paths.mp hp with heq | ⟨q, hq, heq⟩
  · obtain ⟨rfl, -⟩ := List.cons.inj heq
    exact ⟨nested, hi⟩
  · exact absurd (List.cons.inj heq).2.symm (ne_nil_of_mem_pathsOf hq)

theorem singleton_mem_pathsOf {is : List Include} {relation : String} :
    [relation] ∈ pathsOf is ↔ relation ∈ is.map (·.relation) := by
  constructor
  · intro h
    obtain ⟨nested, hi⟩ := exists_mem_of_singleton h
    exact List.mem_map.mpr ⟨_, hi, rfl⟩
  · intro h
    obtain ⟨⟨_, nested⟩, hi, rfl⟩ := List.mem_map.mp h
    exact mem_pathsOf.mpr ⟨_, hi, mem_paths.mpr (Or.inl rfl)⟩

/-- What loads a chain of includes loads its first relation, and nests the rest of the chain in it. -/
theorem DistinctAll.exists_mem_of_alongPath {is nested : List Include} (h : DistinctAll is) {relation : String}
    {rest : List String} (hsub : pathsOf (alongPath nested (relation :: rest)) ⊆ pathsOf is) :
    ∃ inner, ⟨relation, inner⟩ ∈ is ∧ pathsOf (alongPath nested rest) ⊆ pathsOf inner := by
  have hpath : ∀ p, p = [relation] ∨ (∃ q ∈ pathsOf (alongPath nested rest), p = relation :: q) →
      p ∈ pathsOf is := by
    intro p hp
    apply hsub
    simp only [alongPath, pathsOf, List.append_nil]
    exact mem_paths.mpr hp
  obtain ⟨inner, hmem⟩ := exists_mem_of_singleton (hpath [relation] (Or.inl rfl))
  refine ⟨inner, hmem, fun q hq => ?_⟩
  exact (h.mem_nested hmem (ne_nil_of_mem_pathsOf hq)).mp (hpath _ (Or.inr ⟨q, hq, rfl⟩))

end EntityMapping.Include

namespace EntityMapping.Query

theorem distinctAll_including {q : Query} (h : Include.DistinctAll q.includes) {i : Include}
    (hi : i.Distinct) : Include.DistinctAll (q.including i).includes :=
  Include.distinctAll_merge i q.includes hi h

end EntityMapping.Query

namespace EntityMapping.Sample

/-- Names the customers of orders twice, as no query does that was put together include by include. -/
def customersTwice : Query := { entity := "Order", filter := none, includes := [.new "customer", .new "customer"] }

end EntityMapping.Sample
