import EntityMapping.Proofs.Including

/-! # The algebra of includes

What the operations on includes and queries put together names no relation twice, and such lists are
known by the relations that they name behind every path. A merge names behind a path what its sides name
there, in order of first occurrence. The laws of merging are read off that.
-/

namespace EntityMapping.Include

/-! ## Composed includes -/

mutual

/-- An include that the operations put together. -/
inductive Composed : Include → Prop
  | new (relation : String) : Composed (new relation)
  | andThen {i nested : Include} : Composed i → Composed nested → Composed (i.andThen nested)
  | mem {is : List Include} {i : Include} : ComposedAll is → i ∈ is → Composed i

/-- A list of includes that the operations put together. What is merged into a query at once may be any
sequence of composed includes. -/
inductive ComposedAll : List Include → Prop
  | all (entity : String) : ComposedAll (Query.all entity).includes
  | including {q : Query} {i : Include} :
    ComposedAll q.includes → Composed i → ComposedAll (q.including i).includes
  | withIncludes {q : Query} {is : List Include} :
    ComposedAll q.includes → (∀ i ∈ is, Composed i) → ComposedAll (q.withIncludes is).includes
  | alongPath {nested : List Include} (path : List String) :
    ComposedAll nested → ComposedAll (alongPath nested path)
  | nested {i : Include} : Composed i → ComposedAll i.nested

end

theorem Distinct.nested {i : Include} (h : i.Distinct) : DistinctAll i.nested := by
  cases i
  exact h

theorem distinctAll_mergeAll_of_forall {is into : List Include} (his : ∀ i ∈ is, i.Distinct)
    (h : DistinctAll into) : DistinctAll (mergeAll into is) := by
  induction is generalizing into with
  | nil => exact h
  | cons i rest ih =>
    exact ih (fun j hj => his j (List.mem_cons_of_mem _ hj))
      (distinctAll_merge i into (his i List.mem_cons_self) h)

mutual

theorem Composed.distinct : ∀ {i : Include}, Composed i → i.Distinct
  | _, .new _ => trivial
  | _, .andThen hi hnested => hi.distinct.andThen hnested.distinct
  | _, .mem his hi => his.distinctAll.distinct hi

theorem ComposedAll.distinctAll : ∀ {is : List Include}, ComposedAll is → DistinctAll is
  | _, .all _ => trivial
  | _, .including hq hi => distinctAll_merge _ _ hi.distinct hq.distinctAll
  | _, .withIncludes hq his =>
    distinctAll_mergeAll_of_forall (fun i hi => (his i hi).distinct) hq.distinctAll
  | _, .alongPath path hnested => distinctAll_alongPath hnested.distinctAll path
  | _, .nested hi => hi.distinct.nested

end


/-! ## Relations behind a path -/

/-- What the include of a relation nests, if there is one. -/
def nestedOf (is : List Include) (relation : String) : List Include :=
  match is with
  | [] => []
  | i :: rest => if i.relation = relation then i.nested else nestedOf rest relation

/-- The relations that stand next to each other behind a path, in their order. -/
def relationsAt (is : List Include) : List String → List String
  | [] => is.map (·.relation)
  | relation :: path => relationsAt (nestedOf is relation) path

theorem nestedOf_of_notMem {is : List Include} {relation : String}
    (h : relation ∉ is.map (·.relation)) : nestedOf is relation = [] := by
  induction is with
  | nil => rfl
  | cons i rest ih =>
    rw [List.map_cons, List.mem_cons, not_or] at h
    rw [nestedOf, if_neg (Ne.symm h.1), ih h.2]

theorem DistinctAll.nestedOf {is : List Include} (h : DistinctAll is) (relation : String) :
    DistinctAll (nestedOf is relation) := by
  induction is with
  | nil => trivial
  | cons i rest ih =>
    unfold Include.nestedOf
    split
    · exact h.2.1.nested
    · exact ih h.2.2

theorem DistinctAll.nodup_relationsAt {is : List Include} (h : DistinctAll is) (path : List String) :
    (relationsAt is path).Nodup := by
  induction path generalizing is with
  | nil => exact h.nodup
  | cons relation path ih => exact ih (h.nestedOf relation)

theorem nestedOf_cons_of_ne {name : String} (nested rest : List Include) {relation : String}
    (h : name ≠ relation) : nestedOf (⟨name, nested⟩ :: rest) relation = nestedOf rest relation := by
  rw [nestedOf, if_neg h]

theorem nestedOf_cons_self (relation : String) (nested rest : List Include) :
    nestedOf (⟨relation, nested⟩ :: rest) relation = nested := by
  rw [nestedOf, if_pos rfl]

theorem DistinctAll.nestedOf_eq {is : List Include} (h : DistinctAll is) {relation : String}
    {nested : List Include} (hi : ⟨relation, nested⟩ ∈ is) : Include.nestedOf is relation = nested := by
  induction is with
  | nil => cases hi
  | cons j rest ih =>
    obtain ⟨name, inner⟩ := j
    obtain ⟨hnew, -, hrest⟩ := h
    rcases List.mem_cons.mp hi with heq | hi
    · obtain ⟨rfl, rfl⟩ := Include.mk.inj heq
      exact nestedOf_cons_self ..
    · have hne : name ≠ relation := fun heq => hnew (List.mem_map.mpr ⟨_, hi, heq.symm⟩)
      rw [nestedOf_cons_of_ne _ rest hne, ih hrest hi]

theorem DistinctAll.mem_pathsOf_nestedOf {is : List Include} (h : DistinctAll is) {relation : String}
    {q : List String} (hne : q ≠ []) :
    q ∈ pathsOf (Include.nestedOf is relation) ↔ relation :: q ∈ pathsOf is := by
  by_cases hmem : relation ∈ is.map (·.relation)
  · obtain ⟨⟨name, nested⟩, hi, rfl⟩ := List.mem_map.mp hmem
    rw [h.nestedOf_eq hi, h.mem_nested hi hne]
  · rw [nestedOf_of_notMem hmem]
    refine ⟨fun hq => (List.not_mem_nil hq).elim, fun hp => ?_⟩
    obtain ⟨⟨name, nested⟩, hi, hp⟩ := mem_pathsOf.mp hp
    rcases mem_paths.mp hp with heq | ⟨q', -, heq⟩ <;> obtain ⟨rfl, -⟩ := List.cons.inj heq <;>
      exact absurd (List.mem_map_of_mem hi) hmem

theorem DistinctAll.mem_relationsAt {is : List Include} (h : DistinctAll is) {path : List String}
    {relation : String} : relation ∈ relationsAt is path ↔ path ++ [relation] ∈ pathsOf is := by
  induction path generalizing is with
  | nil => exact singleton_mem_pathsOf.symm
  | cons first path ih =>
    rw [relationsAt, ih (h.nestedOf first), h.mem_pathsOf_nestedOf (by simp), List.cons_append]

/-- Lists that name the same relations behind every path are the same. -/
theorem DistinctAll.ext : ∀ {is is' : List Include}, DistinctAll is → DistinctAll is' →
    (∀ path, relationsAt is path = relationsAt is' path) → is = is'
  | [], is', _, _, heq => (List.map_eq_nil_iff.mp (heq []).symm).symm
  | i :: rest, [], _, _, heq => nomatch heq []
  | ⟨relation, nested⟩ :: rest, ⟨relation', nested'⟩ :: rest', h, h', heq => by
    obtain ⟨rfl, hnames⟩ := List.cons.inj (heq [])
    have hnested : nested = nested' := DistinctAll.ext h.2.1 h'.2.1 fun path => by
      have := heq (relation :: path)
      simpa only [relationsAt, nestedOf_cons_self] using this
    have hrest : rest = rest' := DistinctAll.ext h.2.2 h'.2.2 fun path => by
      match path with
      | [] => exact hnames
      | first :: path =>
        by_cases hfirst : relation = first
        · subst hfirst
          rw [relationsAt, nestedOf_of_notMem h.1, relationsAt, nestedOf_of_notMem h'.1]
        · have := heq (first :: path)
          simpa only [relationsAt, nestedOf_cons_of_ne _ _ hfirst] using this
    rw [hnested, hrest]
  termination_by is => countAll is
  decreasing_by all_goals simp only [countAll, count]; omega

/-! ## Merged lists -/

theorem map_relation_merge (into : List Include) (i : Include) : (merge into i).map (·.relation) =
    if i.relation ∈ into.map (·.relation) then into.map (·.relation)
    else into.map (·.relation) ++ [i.relation] := by
  obtain ⟨relation, nested⟩ := i
  have hany : into.any (·.relation = relation) = true ↔ relation ∈ into.map (·.relation) := by
    simp
  unfold merge
  simp only [hany]
  split
  · exact map_relation_modifyNested ..
  · rw [List.map_append, List.map_singleton]

theorem map_relation_mergeAll (into : List Include) {is : List Include} (his : DistinctAll is) :
    (mergeAll into is).map (·.relation) = into.map (·.relation) ++
      (is.map (·.relation)).filter (· ∉ into.map (·.relation)) := by
  induction is generalizing into with
  | nil => exact (List.append_nil _).symm
  | cons i rest ih =>
    rw [mergeAll, ih _ his.2.2, map_relation_merge, List.map_cons]
    split
    · rename_i hmem
      rw [List.filter_cons_of_neg (by simpa using hmem)]
    · rename_i hnew
      rw [List.filter_cons_of_pos (by simpa using hnew), List.append_assoc, List.singleton_append]
      congr 2
      refine List.filter_congr fun relation hrelation => ?_
      have hne : relation ≠ i.relation := fun heq => his.1 (heq ▸ hrelation)
      simp [hne]

theorem nestedOf_modifyNested {relation : String} (f : List Include → List Include) {is : List Include}
    (hmem : relation ∈ is.map (·.relation)) (name : String) :
    nestedOf (modifyNested relation f is) name =
      if relation = name then f (nestedOf is name) else nestedOf is name := by
  induction is with
  | nil => cases hmem
  | cons i rest ih =>
    obtain ⟨first, nested⟩ := i
    unfold modifyNested
    split
    · rename_i heq
      obtain rfl : first = relation := heq
      simp only [nestedOf]
      split <;> rfl
    · rename_i hne
      have hrest : relation ∈ rest.map (·.relation) := by
        simpa [Ne.symm hne] using hmem
      simp only [nestedOf, ih hrest]
      grind

theorem nestedOf_append (is is' : List Include) (name : String) : nestedOf (is ++ is') name =
    if name ∈ is.map (·.relation) then nestedOf is name else nestedOf is' name := by
  induction is with
  | nil => rfl
  | cons i rest ih =>
    rw [List.cons_append, nestedOf, nestedOf, ih, List.map_cons]
    grind

theorem merge_of_notMem {into : List Include} {i : Include} (hnew : i.relation ∉ into.map (·.relation)) :
    merge into i = into ++ [i] := by
  obtain ⟨relation, nested⟩ := i
  unfold merge
  rw [if_neg (by simpa using hnew)]

theorem mergeAll_eq_append {into is : List Include} (his : DistinctAll is)
    (hnew : ∀ i ∈ is, i.relation ∉ into.map (·.relation)) : mergeAll into is = into ++ is := by
  induction is generalizing into with
  | nil => exact (List.append_nil _).symm
  | cons i rest ih =>
    rw [mergeAll, merge_of_notMem (hnew i List.mem_cons_self), ih his.2.2, List.append_assoc]
    · rfl
    · intro j hj hmem
      rw [List.map_append, List.mem_append] at hmem
      rcases hmem with hmem | hmem
      · exact hnew j (List.mem_cons_of_mem _ hj) hmem
      · exact his.1 (List.mem_map.mpr ⟨j, hj, List.mem_singleton.mp hmem⟩)

theorem nil_mergeAll {is : List Include} (his : DistinctAll is) : mergeAll [] is = is :=
  mergeAll_eq_append his fun _ _ => List.not_mem_nil

theorem nestedOf_merge (into : List Include) {i : Include} (hi : i.Distinct) (name : String) :
    nestedOf (merge into i) name =
      if i.relation = name then mergeAll (nestedOf into name) i.nested else nestedOf into name := by
  obtain ⟨relation, nested⟩ := i
  by_cases hmem : relation ∈ into.map (·.relation)
  · unfold merge
    rw [if_pos (by simpa using hmem), nestedOf_modifyNested _ hmem]
  · rw [merge_of_notMem hmem, nestedOf_append]
    by_cases heq : relation = name
    · subst heq
      rw [if_neg hmem, if_pos rfl, nestedOf_of_notMem hmem, nil_mergeAll hi, nestedOf_cons_self]
    · rw [if_neg heq]
      split
      · rfl
      · rename_i hnot
        rw [nestedOf_of_notMem hnot, nestedOf_cons_of_ne _ _ heq]
        rfl

/-- What a merge nests for a relation is the merge of what both sides nest for it. -/
theorem nestedOf_mergeAll (into : List Include) {is : List Include} (his : DistinctAll is)
    (name : String) :
    nestedOf (mergeAll into is) name = mergeAll (nestedOf into name) (nestedOf is name) := by
  induction is generalizing into with
  | nil => rfl
  | cons i rest ih =>
    obtain ⟨hnew, hi, hrest⟩ := his
    rw [mergeAll, ih _ hrest, nestedOf_merge into hi, nestedOf]
    split
    · rename_i heq
      subst heq
      rw [nestedOf_of_notMem hnew]
      rfl
    · rfl

/-- Behind a path, the relations of a merge are those of both sides, in order of first occurrence. -/
theorem relationsAt_mergeAll (into : List Include) {is : List Include} (his : DistinctAll is)
    (path : List String) :
    relationsAt (mergeAll into is) path =
      relationsAt into path ++ (relationsAt is path).filter (· ∉ relationsAt into path) := by
  induction path generalizing into is with
  | nil => exact map_relation_mergeAll into his
  | cons relation path ih =>
    rw [relationsAt, nestedOf_mergeAll into his, ih _ (his.nestedOf relation)]
    rfl

/-! ## The laws of merging -/

theorem mergeAll_eq_self {into is : List Include} (h : DistinctAll into) (his : DistinctAll is)
    (hsub : ∀ p ∈ pathsOf is, p ∈ pathsOf into) : mergeAll into is = into := by
  refine (distinctAll_mergeAll is into his h).ext h fun path => ?_
  rw [relationsAt_mergeAll into his, List.filter_eq_nil_iff.mpr, List.append_nil]
  intro relation hrelation
  have hloaded := h.mem_relationsAt.mpr (hsub _ (his.mem_relationsAt.mp hrelation))
  simpa using hloaded

theorem mergeAll_assoc {a b c : List Include} (ha : DistinctAll a) (hb : DistinctAll b)
    (hc : DistinctAll c) : mergeAll (mergeAll a b) c = mergeAll a (mergeAll b c) := by
  have hbc : DistinctAll (mergeAll b c) := distinctAll_mergeAll c b hc hb
  have hab : DistinctAll (mergeAll a b) := distinctAll_mergeAll b a hb ha
  refine (distinctAll_mergeAll c _ hc hab).ext (distinctAll_mergeAll _ a hbc ha) fun path => ?_
  rw [relationsAt_mergeAll _ hc, relationsAt_mergeAll a hb, relationsAt_mergeAll a hbc,
    relationsAt_mergeAll b hc, List.filter_append, List.filter_filter, List.append_assoc]
  congr 2
  refine List.filter_congr fun relation _ => ?_
  by_cases hmem : relation ∈ relationsAt a path <;> simp [hmem]

theorem eraseDups_of_nodup {xs : List String} (h : xs.Nodup) : xs.eraseDups = xs := by
  induction xs with
  | nil => rfl
  | cons x xs ih =>
    obtain ⟨hx, hxs⟩ := List.nodup_cons.mp h
    rw [List.eraseDups_cons, List.filter_eq_self.mpr, ih hxs]
    intro y hy
    simpa using fun heq : y = x => hx (heq ▸ hy)

theorem eraseDups_append_of_nodup {xs ys : List String} (hxs : xs.Nodup) (hys : ys.Nodup) :
    (xs ++ ys).eraseDups = xs ++ ys.filter (· ∉ xs) := by
  have hnew : ys.removeAll xs = ys.filter (· ∉ xs) := List.filter_congr fun y _ => by simp
  rw [List.eraseDups_append, eraseDups_of_nodup hxs, hnew, eraseDups_of_nodup (hys.filter _)]

/-- Merging includes is a union. Lists that were put together by the operations on includes and queries name
no relation twice, at any depth. A merge of such lists loads the paths that one of the two loads, and the
relations behind a path stand in order of first occurrence. Merging in what is loaded already changes
nothing, and merging is associative. -/
theorem mergeAll_is_union {a b c : List Include} (ha : ComposedAll a) (hb : ComposedAll b)
    (hc : ComposedAll c) :
    DistinctAll a ∧
      (∀ p, p ∈ pathsOf (mergeAll a b) ↔ p ∈ pathsOf a ∨ p ∈ pathsOf b) ∧
      (∀ path, relationsAt (mergeAll a b) path = (relationsAt a path ++ relationsAt b path).eraseDups) ∧
      ((∀ p ∈ pathsOf b, p ∈ pathsOf a) → mergeAll a b = a) ∧
      mergeAll (mergeAll a b) c = mergeAll a (mergeAll b c) := by
  have hda := ha.distinctAll
  have hdb := hb.distinctAll
  refine ⟨hda, mem_pathsOf_mergeAll b a, fun path => ?_, mergeAll_eq_self hda hdb,
    mergeAll_assoc hda hdb hc.distinctAll⟩
  rw [relationsAt_mergeAll a hdb,
    eraseDups_append_of_nodup (hda.nodup_relationsAt path) (hdb.nodup_relationsAt path)]

end EntityMapping.Include

namespace EntityMapping.Sample

open Include

/-- Orders with their customers, and these with their addresses. -/
def addressed : Query := (Query.all "Order").including ((new "customer").andThen (new "address"))

/-- Orders with their lines and their customers, and these with their countries. -/
def invoices : Query :=
  ((Query.all "Order").including (new "lines")).including ((new "customer").andThen (new "country"))

def parcels : List Include := alongPath invoices.includes ["customer", "orders"]

/-- What is merged in later stands behind what is there, next to customers and behind them, and an include
of the customer alone adds nothing. -/
theorem merged_orders :
    relationsAt (mergeAll addressed.includes invoices.includes) [] = ["customer", "lines"] ∧
    relationsAt (mergeAll addressed.includes invoices.includes) ["customer"] = ["address", "country"] ∧
    mergeAll addressed.includes (alongPath [] ["customer"]) = addressed.includes ∧
    mergeAll (mergeAll addressed.includes invoices.includes) parcels =
      mergeAll addressed.includes (mergeAll invoices.includes parcels) := by
  have horders : ComposedAll addressed.includes := .including (.all _) (.andThen (.new _) (.new _))
  have hinvoices : ComposedAll invoices.includes :=
    .including (.including (.all _) (.new _)) (.andThen (.new _) (.new _))
  obtain ⟨-, -, hbehind, -, hassoc⟩ :=
    mergeAll_is_union horders hinvoices (.alongPath ["customer", "orders"] hinvoices)
  obtain ⟨-, -, -, hsame, -⟩ :=
    mergeAll_is_union horders (.alongPath ["customer"] (.all "Customer")) hinvoices
  exact ⟨(hbehind []).trans (by decide), (hbehind ["customer"]).trans (by decide),
    hsame (by decide), hassoc⟩

end EntityMapping.Sample
