import EntityMapping.Pass
import EntityMapping.Proofs.Pass.Finishing
import EntityMapping.Proofs.Rendering
import EntityMapping.Proofs.WaveBound

/-! # What a pass shows

A pass of tame mappers succeeds if its query can be loaded and every item can do its work on every row that is
mapped. Then the JSON of its objects is the view of their rows, whether objects are shared or not.
-/

namespace EntityMapping

variable {C : Type}

/-! ## Rows that are mapped -/

theorem Chosen.mem_rows {metadata : Metadata} {plans : Dict MapperKey (Plan C)} {owner : MapperKey}
    {i : Item C} {choice : Choice C} (h : Chosen metadata plans owner i choice) {m : Source.Memory}
    {row : Row} (hrow : row ∈ m.rows owner.source) {dependency : MapperKey}
    (hneeds : i.dependency? = some dependency) {next : Row}
    (hnext : next ∈ i.leads metadata m owner.source row) : next ∈ m.rows dependency.source := by
  cases h with
  | copy hsource hscalar | batch hsource hscalar =>
    unfold Item.leads at hnext
    rw [hsource, hscalar] at hnext
    simp at hnext
  | embed hsource hshape hneeds' hstyle _ hsteps =>
    obtain rfl := Option.some.inj (hneeds.symm.trans hneeds')
    unfold Item.leads at hnext
    rw [hsource, hshape] at hnext
    dsimp only at hnext
    rw [hstyle, if_neg (by simp), Option.mem_toList] at hnext
    exact Source.Memory.mem_of_rowAt hsteps hrow hnext
  | embedEach hsource hshape hneeds' _ _ hsteps hr _ htarget =>
    obtain rfl := Option.some.inj (hneeds.symm.trans hneeds')
    unfold Item.leads at hnext
    rw [hsource, hshape] at hnext
    exact htarget ▸ Source.Memory.mem_of_rowsAt hsteps hr hnext
  | fetch hfetched =>
    obtain rfl := Option.some.inj (hneeds.symm.trans hfetched.needs)
    obtain ⟨declaring, hsteps, hr, -⟩ := hfetched.steps
    rw [hfetched.leads_eq] at hnext
    exact hfetched.target ▸ Source.Memory.mem_of_rowsAt hsteps hr hnext

namespace Registry

theorem Tame.mem_rows {metadata : Metadata} {config : Config} {tables : Nat → Key → Option Value} {n : Nat}
    {declared : List (MapperDeclaration C)} {resolved : List (Mapper C)} {r : Registry C}
    (h : r.Tame metadata config tables n declared resolved) {m : Source.Memory} {root : MapperKey}
    {rows : List Row} (hrows : rows ⊆ m.rows root.source)
    {key : MapperKey} {row : Row} (hreads : Reads metadata m r.mappers root rows key row) :
    row ∈ m.rows key.source := by
  induction hreads with
  | root hrow => exact hrows hrow
  | item hmapper _ hi hneeds hnext ih =>
    obtain ⟨a, ha, rfl⟩ := List.mem_map.mp hmapper
    obtain ⟨p, -, -, is, hchosen, -⟩ := exists_of_forall₂_left (h.laid ha).items hi
    exact hchosen.mem_rows ih hneeds hnext

theorem exists_find? {r : Registry C} {key : MapperKey} (h : key ∈ r.order) :
    ∃ a ∈ r.registrations, r.find? key = some a ∧ a.mapper.key = key := by
  obtain ⟨b, hb, hkey⟩ := List.mem_map.mp h
  have hsome : (r.find? key).isSome := by
    unfold find?
    rw [List.find?_isSome]
    exact ⟨b, hb, decide_eq_true hkey⟩
  obtain ⟨a, ha⟩ := Option.isSome_iff_exists.mp hsome
  obtain ⟨hmem, hkey⟩ := mem_of_find? ha
  exact ⟨a, hmem, ha, hkey⟩

end Registry

theorem Source.Memory.matching_subset (m : Source.Memory) (entity : String) (filter : Option KeyFilter) :
    m.matching entity filter ⊆ m.rows entity := by
  unfold Source.Memory.matching
  split
  · exact List.Subset.refl _
  · exact List.filter_sublist.subset

/-! ## Passes -/

namespace Stage.Tame

variable {σ : Stage C} (h : σ.Tame) {root : MapperKey} {rows : List Row}

section

variable {L : Labels} {s : PassState C} (hs : Filling σ L [] s) (hrequests : s.requests = [])
include h hs hrequests

theorem exists_object (hroots : ∀ row ∈ rows, ∃ o, L.Of root row o) {key : MapperKey} {row : Row}
    (hreads : Reads σ.metadata σ.memory σ.registry.mappers root rows key row) : ∃ o, L.Of key row o := by
  induction hreads with
  | root hrow => exact hroots _ hrow
  | item hmapper _ hi hneeds hnext ih =>
    obtain ⟨a, ha, rfl⟩ := List.mem_map.mp hmapper
    obtain ⟨o, ho⟩ := ih
    obtain ⟨e, -, -, hdone⟩ := exists_of_forall₂_left (h.fulfilled_of_filled hs hrequests ha ho) hi
    exact hdone.covered _ hneeds _ hnext

theorem feasible_of_filled (hroots : ∀ row ∈ rows, ∃ o, L.Of root row o)
    (hreached : ∀ key row, σ.reads key row →
      Reads σ.metadata σ.memory σ.registry.mappers root rows key row) : σ.Feasible := by
  intro a ha row hread i hi
  obtain ⟨o, ho⟩ := h.exists_object hs hrequests hroots (hreached _ _ hread)
  obtain ⟨e, -, -, hdone⟩ := exists_of_forall₂_left (h.fulfilled_of_filled hs hrequests ha ho) hi
  exact hdone.feasible

end

variable {a : Registration C} (ha : a ∈ σ.registry.registrations) {q : Query}
  (hentity : q.entity = a.mapper.key.source) (hdistinct : Include.DistinctAll q.includes)
  (hreads : ∀ row ∈ σ.memory.matching q.entity q.filter, σ.reads a.mapper.key row) {heap : Heap}
  (hkeeps : σ.heap.Keeps heap)
include h ha hentity hdistinct hreads hkeeps

/-- Loading, mapping and draining leave objects without holes, one for each row of the query. -/
theorem after_mapBy :
    After (σ.registry.mapBy a.plan q σ.memory.source σ.ambient) (.initial heap) (either
      (fun mapped s => q.Loads σ.metadata ∧ ∃ L : Labels, Filling σ L [] s ∧ s.requests = [] ∧
        List.Forall₂ (L.Of a.mapper.key) (σ.memory.matching q.entity q.filter) mapped.roots)
      fun _ _ => ¬ (q.Loads σ.metadata ∧ σ.Feasible)) := by
  unfold Registry.mapBy
  dsimp only
  by_cases hloads : q.Loads σ.metadata
  · have hmaterialized := After.and
      (h.yields_materialize ha hentity hdistinct hloads hreads (Filling.initial hkeeps))
      (h.registry.after_materialize ha q σ.memory.source σ.ambient heap)
    rw [After.bind_iff]
    refine hmaterialized.mono ?_
    rintro (e | roots) s ⟨hyields, hbelow, -⟩
    · exact fun hboth => hyields hboth.2
    obtain ⟨L, -, hroots, hs⟩ := hyields
    rw [either_ok, After.bind_iff]
    refine (h.registry.after_drain ha hbelow).mono ?_
    rintro result s' ⟨hdrained, -⟩
    have hfinished := h.of_drained hdrained hs
    cases result with
    | error e => exact fun hboth => hfinished hboth.2
    | ok _ =>
      obtain ⟨hrequests, L', hle, hs'⟩ := hfinished
      refine ⟨hloads, L', hs'.of_eq rfl rfl rfl rfl, hrequests, ?_⟩
      rw [List.forall₂_map_right_iff]
      exact hroots.imp fun _ _ hm => hm.2.mono hle
  -- A query that cannot be loaded ends the pass before its first row.
  · refine After.bind (h.materialize_fails ha hentity hloads _) (fun _ _ hfalse => hfalse.elim) ?_
    exact fun _ _ _ hboth => hloads hboth.1

/-- A pass shows the views of its rows. If every row that is mapped is reached from them, it also shows that
every item can do its work. -/
theorem after_mapping {destination : String} (hfind : σ.registry.find? ⟨q.entity, destination⟩ = some a) :
    After (σ.registry.mapping q destination σ.memory.source σ.ambient) (.initial heap) (either
      (fun mapped s => q.Loads σ.metadata ∧
        ((∀ key row, σ.reads key row → Reads σ.metadata σ.memory σ.registry.mappers a.mapper.key
          (σ.memory.matching q.entity q.filter) key row) → σ.Feasible) ∧
        List.Forall₂
          (fun row o => ∀ depth, σ.registry.order.length ≤ depth →
            s.heap.toJson (.object o) = σ.view depth a.mapper.key row)
          (σ.memory.matching q.entity q.filter) mapped.roots)
      fun _ _ => ¬ (q.Loads σ.metadata ∧ σ.Feasible)) := by
  unfold Registry.mapping
  rw [Registry.require_eq_ok.mpr hfind]
  apply After.ok_bind
  refine (h.after_mapBy ha hentity hdistinct hreads hkeeps).imp ?_ fun _ _ h => h
  rintro mapped s ⟨hloads, L, hs, hrequests, hroots⟩
  refine ⟨hloads, fun hreached => ?_, hroots.imp fun row o ho depth hdepth => ?_⟩
  · refine h.feasible_of_filled hs hrequests (fun row hrow => ?_) hreached
    exact (exists_of_forall₂_left hroots hrow).imp fun _ ho => ho.2
  -- Nothing is around the root, and the order of commitment bounds how far mappers need each other.
  · have hheight := h.registry.height_le (List.mem_map_of_mem ha)
    unfold Heap.toJson
    rw [Value.toJsonWith]
    exact h.renders hs hrequests ha row o [] _ depth ho (.nil _ _ _) rfl (hheight.trans hdepth)

end Stage.Tame

end EntityMapping
