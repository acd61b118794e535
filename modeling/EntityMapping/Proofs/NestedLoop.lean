import EntityMapping.Proofs.Evaluation

/-! # Includes as nested loops

What the includes of a query mean, told row by row: a relation leads to the rows of its table that hold the
key of the row, and each of these is extended in turn by what is nested in the include. Joining all rows at
once from groups of loaded rows comes to the same.
-/

namespace EntityMapping

/-- The row with more fields, one after the other. -/
def Row.setAll (row : Row) (fields : List (String × Value)) : Row :=
  fields.foldl (fun row f => row.set f.1 f.2) row

theorem Row.get?_setAll_of_not_mem {fields : List (String × Value)} {name : String}
    (h : name ∉ fields.map (·.1)) (row : Row) : (Row.setAll row fields).get? name = row.get? name := by
  unfold Row.setAll
  induction fields generalizing row with
  | nil => rfl
  | cons f fields ih =>
    rw [List.map_cons, List.mem_cons, not_or] at h
    rw [List.foldl_cons, ih h.2, Dict.get?_set, if_neg (Ne.symm h.1)]

theorem Row.get?_setAll_of_mem {fields : List (String × Value)} (hnodup : (fields.map (·.1)).Nodup)
    {f : String × Value} (hf : f ∈ fields) (row : Row) : (Row.setAll row fields).get? f.1 = some f.2 := by
  unfold Row.setAll
  induction fields generalizing row with
  | nil => simp at hf
  | cons f' fields ih =>
    rw [List.map_cons, List.nodup_cons] at hnodup
    rw [List.foldl_cons]
    rcases List.mem_cons.mp hf with rfl | hf
    · have hkept := Row.get?_setAll_of_not_mem hnodup.1 (row.set f.1 f.2)
      unfold Row.setAll at hkept
      rw [hkept, Dict.get?_set, if_pos rfl]
    · exact ih hnodup.2 hf _

namespace Source.Memory

section

variable (m : Memory) (metadata : Metadata)

mutual

/-- The value that an include gives a row: the rows that the relation leads to, each extended by what is
nested in the include. -/
def lead (entity : String) (row : Row) : Include → Value
  | ⟨field, nested⟩ =>
    match metadata.navigation entity field with
    | .ok r =>
      relationValue r.kind ((m.related r row).map fun next => Row.setAll next (leads r.target next nested))
    | .error _ => .null

/-- The fields that includes give a row, all of them looked up by the row as it is in its table. -/
def leads (entity : String) (row : Row) : List Include → List (String × Value)
  | [] => []
  | i :: rest => (i.relation, lead entity row i) :: leads entity row rest

end

/-- The row with a field for every include. -/
def extend (entity : String) (row : Row) (is : List Include) : Row :=
  Row.setAll row (m.leads metadata entity row is)

end

variable {m : Memory} {metadata : Metadata}

theorem lead_eq {entity field : String} {r : Relation} (hr : metadata.navigation entity field = .ok r)
    (row : Row) (nested : List Include) : m.lead metadata entity row ⟨field, nested⟩ =
      relationValue r.kind ((m.related r row).map fun next => m.extend metadata r.target next nested) := by
  unfold lead extend
  rw [hr]

theorem leads_eq_map (entity : String) (row : Row) (is : List Include) :
    m.leads metadata entity row is = is.map fun i => (i.relation, m.lead metadata entity row i) := by
  induction is with
  | nil => rfl
  | cons i rest ih =>
    unfold leads
    rw [ih, List.map_cons]

theorem map_fst_leads (entity : String) (row : Row) (is : List Include) :
    (m.leads metadata entity row is).map (·.1) = is.map (·.relation) := by
  rw [leads_eq_map, List.map_map]
  rfl

theorem value_extend {is : List Include} (h : Include.DistinctAll is) {i : Include} (hi : i ∈ is)
    (entity : String) (row : Row) :
    (m.extend metadata entity row is).value i.relation = m.lead metadata entity row i := by
  have hmem : (i.relation, m.lead metadata entity row i) ∈ m.leads metadata entity row is := by
    rw [leads_eq_map]
    exact List.mem_map_of_mem (f := fun i => (i.relation, m.lead metadata entity row i)) hi
  unfold extend Row.value
  rw [Row.get?_setAll_of_mem (map_fst_leads entity row is ▸ h.nodup) hmem]
  rfl

theorem get?_extend_of_not_mem {is : List Include} {column : String} (h : column ∉ is.map (·.relation))
    (entity : String) (row : Row) : (m.extend metadata entity row is).get? column = row.get? column :=
  Row.get?_setAll_of_not_mem (map_fst_leads entity row is ▸ h) row

theorem lead_congr {entity : String} {i : Include} {row row' : Row}
    (h : ∀ r, metadata.navigation entity i.relation = .ok r →
      row.value r.localColumn = row'.value r.localColumn) :
    m.lead metadata entity row i = m.lead metadata entity row' i := by
  obtain ⟨field, nested⟩ := i
  unfold lead
  split
  · rename_i r hr
    rw [related_congr (h r hr)]
  · rfl

mutual

theorem join_eq_set : ∀ (i : Include) {entity : String},
    (∀ name, metadata.Involves entity [i] name → metadata.NamesApartAt name) →
    (∀ p ∈ i.paths, metadata.Walkable entity p) → ∀ row : Row,
    m.join metadata entity row i = row.set i.relation (m.lead metadata entity row i)
  | ⟨field, nested⟩, entity, hapart, hwalk, row => by
    obtain ⟨r, hr, -⟩ := hwalk [field] (Include.mem_paths.mpr (Or.inl rfl))
    have hinvolved : ∀ name, metadata.Involves r.target nested name → metadata.NamesApartAt name :=
      fun name hinvolves => hapart name (.step (List.mem_singleton.mpr rfl) hr hinvolves)
    rw [join_eq hr, lead_eq hr]
    congr 3
    funext next
    exact joinAll_eq_extend nested hinvolved (walkable_of_nested hwalk hr) next

/-- Joining one include after the other is looking all of them up by the row as it was, since no field that is
added has the name of a column that a later include goes by. -/
theorem joinAll_eq_extend : ∀ (is : List Include) {entity : String},
    (∀ name, metadata.Involves entity is name → metadata.NamesApartAt name) →
    (∀ p ∈ Include.pathsOf is, metadata.Walkable entity p) → ∀ row : Row,
    m.joinAll metadata entity row is = m.extend metadata entity row is
  | [], _, _, _, _ => rfl
  | i :: rest, entity, hapart, hwalk, row => by
    have hfirst := join_eq_set i (fun name h => hapart name (h.mono (by simp)))
      (fun p hp => hwalk p (List.mem_append_left _ hp)) row
    have hrest := joinAll_eq_extend rest (fun name h => hapart name (h.mono (by simp)))
      (fun p hp => hwalk p (List.mem_append_right _ hp)) (row.set i.relation (m.lead metadata entity row i))
    obtain ⟨r, hr⟩ := known_of_walkable hwalk i (by simp)
    -- The column that a later include goes by is not the field that was just added.
    have hsame : m.leads metadata entity (row.set i.relation (m.lead metadata entity row i)) rest =
        m.leads metadata entity row rest := by
      rw [leads_eq_map, leads_eq_map]
      refine List.map_congr_left fun j _ => Prod.ext rfl (lead_congr fun r' hr' => ?_)
      rw [Row.value_set, if_neg ((hapart entity .root).ne_localColumn hr hr')]
    rw [joinAll_cons, hfirst, hrest]
    unfold extend
    rw [hsame]
    rfl

end

/-- A source that forgets the filters of some loads still serves the tables. -/
theorem serves_unfiltered (m : Memory) (entities : List String) :
    (m.source.unfiltered entities).Serves m := by
  intro history e filter
  by_cases he : e.name ∈ entities
  · refine ⟨m.rows e.name, by simp [DataSource.unfiltered, he, source, matching], ?_⟩
    rintro f rfl
    rfl
  · exact ⟨m.matching e.name filter, by simp [DataSource.unfiltered, he, source], answers_matching _ _⟩

end Source.Memory

namespace Source

/-- Fetching gives the rows that the source answers the query with, in their order, each extended by what its
includes lead to in the tables, at every depth. It does not matter which further rows the source answers
with. Apart from the fields named after the relations, rows stay as they were loaded. -/
theorem fetch_eq_nested_loop {entities : List Entity} {m : Memory} {source : DataSource}
    (hserves : source.Serves m) {q : Query} {e : Entity}
    (he : (Metadata.ofList entities).entity? q.entity = some e) (hkeys : q.matchesNothing = false)
    (hknown : ∀ p ∈ Include.pathsOf q.includes, (Metadata.ofList entities).Walkable q.entity p)
    (hdistinct : Include.DistinctAll q.includes)
    (hapart : ∀ name, (Metadata.ofList entities).Involves q.entity q.includes name →
      (Metadata.ofList entities).NamesApartAt name) (l : Loading) :
    ∃ loaded, (source.reply l.journal.loads e q.filter).rows = .ok loaded ∧
      ((fetch source (.ofList entities) q).run.run l).1 =
        .ok (loaded.map fun row => m.extend (.ofList entities) q.entity row q.includes) ∧
      ∀ row ∈ loaded, let extended := m.extend (.ofList entities) q.entity row q.includes
        (∀ i ∈ q.includes, extended.value i.relation = m.lead (.ofList entities) q.entity row i) ∧
          ∀ column ∉ q.includes.map (·.relation), extended.get? column = row.get? column := by
  have hfetched := after_fetch_served hserves (Metadata.named_ofList entities) he hapart hknown hkeys l
  obtain ⟨rows, hrows, loaded, hloaded, rfl⟩ := hfetched.exists_ok
  refine ⟨loaded, hloaded, ?_, fun row _ => ⟨fun i hi => ?_, fun column hcolumn => ?_⟩⟩
  · rw [hrows]
    congr 1
    exact List.map_congr_left fun row _ => Memory.joinAll_eq_extend q.includes hapart hknown row
  · exact Memory.value_extend hdistinct hi q.entity row
  · exact Memory.get?_extend_of_not_mem hcolumn q.entity row

/-- Orders are fetched with their customers from a source that answers with all customers. -/
theorem fetch_orders_eq :
    ((fetch (Sample.memory.source.unfiltered ["Customer"]) Sample.metadata
      ((Query.all "Order").including (.new "customer"))).run.run ⟨.empty, 0⟩).1 =
      .ok ((Sample.memory.rows "Order").map fun row =>
        Sample.memory.extend Sample.metadata "Order" row [.new "customer"]) := by
  have hknown : ∀ p ∈ Include.pathsOf [Include.new "customer"], Sample.metadata.Walkable "Order" p := by
    intro p hp
    obtain rfl : p = ["customer"] := List.mem_singleton.mp hp
    exact ⟨_, rfl, _, rfl⟩
  obtain ⟨loaded, hloaded, hfetched, -⟩ := fetch_eq_nested_loop
    (Memory.serves_unfiltered Sample.memory ["Customer"])
    (q := (Query.all "Order").including (.new "customer")) rfl rfl hknown ⟨by simp, trivial, trivial⟩
    (fun name _ => Sample.namesApart.at name) ⟨.empty, 0⟩
  obtain rfl := Except.ok.inj hloaded
  exact hfetched

end Source

end EntityMapping
