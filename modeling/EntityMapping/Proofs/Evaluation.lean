import EntityMapping.Proofs.Plain
import EntityMapping.Proofs.Viewing

/-! # Evaluation

A pass of plain mappers shows in its objects what the rows of the query evaluate to.
-/

namespace EntityMapping

variable {C : Type}

theorem Registry.Plain.mem_rows {metadata : Metadata} {declared : List (MapperDeclaration C)}
    {resolved : List (Mapper C)} {r : Registry C} (h : r.Plain metadata declared resolved)
    {m : Source.Memory} {root : MapperKey} {rows : List Row} (hrows : rows ⊆ m.rows root.source)
    {key : MapperKey} {row : Row} (hreads : Reads metadata m r.mappers root rows key row) :
    row ∈ m.rows key.source := (h.tame (fun _ _ => none) 0).mem_rows hrows hreads

theorem Item.asked_cases {C : Type} (i : Item C) (metadata : Metadata) {m : Source.Memory}
    {entity : String} {row : Row} (hrow : row ∈ m.rows entity) :
    i.asked metadata m entity row = .null ∨
      ∃ e, ∃ row' ∈ m.rows e, ∃ column, i.asked metadata m entity row = row'.value column := by
  unfold Item.asked
  split
  · unfold Source.Memory.keyAt
    split
    · rename_i path r last hlast
      unfold Source.Memory.lastStep at hlast
      split at hlast
      · rename_i hfollow
        split at hlast
        · obtain ⟨rfl, rfl⟩ := Prod.mk.inj (Option.some.inj hlast)
          exact Or.inr ⟨_, _, Source.Memory.mem_of_follow hrow hfollow, _, rfl⟩
        · simp at hlast
      · simp at hlast
    · exact Or.inl rfl
  · exact Or.inl rfl

/-! ## Plain items -/

theorem Item.Plain.value?_eq {i : Item C} (h : i.Plain) (hscalar : i.sourceShape = .scalar)
    (tables : Nat → Key → Option Value) (ambient : C) (cell : Value) :
    i.value? tables ambient cell = some cell := by
  rw [Item.value?_of_unbatched h.unbatched]
  unfold Item.settled? Assignment.transpose Assignment.ofItem
  dsimp only
  rw [h.transposer_eq]
  dsimp only
  rw [Action.value_done]
  dsimp only
  rw [if_pos (h.accepts hscalar cell)]

theorem Chosen.rowAt_mem_leads {metadata : Metadata} {plans : Dict MapperKey (Plan C)} {owner : MapperKey}
    {i : Item C} {choice : Choice C} (h : Chosen metadata plans owner i choice) {m : Source.Memory}
    {row next : Row} {path : List String} (hsource : i.source = .path path) {entity : String}
    (hshape : i.sourceShape = .entity entity)
    (hnext : m.rowAt metadata owner.source row path = some next) :
    next ∈ i.leads metadata m owner.source row := by
  cases h with
  | copy _ hshape' | batch _ hshape' | embedEach _ hshape' =>
    rw [hshape] at hshape'
    cases hshape'
  | embed _ _ _ hstyle =>
    unfold Item.leads
    rw [hsource, hshape]
    dsimp only
    rw [hstyle, if_neg (by simp), hnext]
    exact List.mem_singleton_self next
  | fetch hfetched =>
    obtain rfl := Accessor.path.inj (hsource.symm.trans hfetched.source)
    rw [hfetched.leads_eq]
    rw [hfetched.rowAt_eq] at hnext
    exact List.mem_of_mem_head? hnext

/-! ## Scenes -/

/-- A registry with the tables that it is run on, and the rows that are mapped by each mapper. -/
structure Scene (C : Type) where
  metadata : Metadata
  declared : List (MapperDeclaration C)
  resolved : List (Mapper C)
  registry : Registry C
  memory : Source.Memory
  ambient : C
  reads : MapperKey → Row → Prop

namespace Scene

/-- Plain mappers need no tables for processors, and no objects from before. -/
def stage (σ : Scene C) : Stage C :=
  ⟨σ.metadata, {}, σ.declared, σ.resolved, σ.registry, σ.memory, fun _ _ => none, .empty, σ.ambient, σ.reads⟩

/-- Mappers and tables are as they should be, and so is every row that is mapped: the rows that its items
lead to are mapped too, and the keys that it asks for can be fetched. -/
structure Plain (σ : Scene C) : Prop where
  registry : σ.registry.Plain σ.metadata σ.declared σ.resolved
  regular : σ.memory.Regular σ.metadata
  mem : ∀ key row, σ.reads key row → row ∈ σ.memory.rows key.source
  item : ∀ a ∈ σ.registry.registrations, ∀ row, σ.reads a.mapper.key row → ∀ i ∈ a.mapper.items,
    ∀ dependency, i.dependency? = some dependency →
      ∀ next ∈ i.leads σ.metadata σ.memory a.mapper.key.source row, σ.reads dependency next
  asks : ∀ a ∈ σ.registry.registrations, ∀ row, σ.reads a.mapper.key row → ∀ i ∈ a.mapper.items,
    i.style.isFetch = true → (i.asked σ.metadata σ.memory a.mapper.key.source row).AsksWell

end Scene

namespace Scene.Plain

variable {σ : Scene C} (h : σ.Plain)
include h

theorem tame : σ.stage.Tame where
  registry := h.registry.tame _ _
  regular := h.regular
  within _ _ _ hv := by cases hv
  closed _ ho := absurd ho (Nat.not_lt_zero _)
  mem := h.mem
  item := h.item

variable {a : Registration C} (ha : a ∈ σ.registry.registrations)
include ha

theorem value?_eq {i : Item C} (hi : i ∈ a.mapper.items) (hneeds : i.dependency? = none) (row : Row) :
    σ.stage.value? a.mapper.key i row = some (i.cell σ.metadata σ.memory a.mapper.key.source row) := by
  refine (h.registry.plain a ha i hi).value?_eq ?_ _ _ _
  refine (((h.tame.registry.laid ha).tame i hi).kind.resolve_right fun hmapped => ?_).scalar
  obtain ⟨dependency, hsome⟩ := hmapped.needs
  rw [hneeds] at hsome
  cases hsome

omit ha in
theorem feasible : σ.stage.Feasible := by
  intro a ha row hread i hi
  refine ⟨fun hneeds => ?_, h.asks a ha row hread i hi⟩
  rw [h.value?_eq ha hi hneeds]
  rfl

/-- The view of an item is what it evaluates to, if those of the rows that it leads to are. -/
theorem view_item_eq {row : Row} (hread : σ.reads a.mapper.key row) {i : Item C} (hi : i ∈ a.mapper.items)
    {render : MapperKey → Row → Except Error Json} {view : MapperKey → Row → Json}
    (hrender : ∀ dependency, i.dependency? = some dependency →
      ∀ next ∈ i.leads σ.metadata σ.memory a.mapper.key.source row,
        render dependency next = .ok (view dependency next)) :
    i.view σ.stage a.mapper.key row render =
      .ok (i.evaluate σ.metadata σ.memory a.mapper.key.source row view) := by
  obtain ⟨path, hsource, -⟩ := ((h.tame.registry.laid ha).tame i hi).path
  unfold Item.view Item.evaluate
  cases hneeds : i.dependency? with
  | none =>
    have hcell := Value.toJsonWith_of_isScalar
      (h.regular.isScalar_cellAt (h.mem _ _ hread) path) σ.stage.before
    rw [hsource, h.value?_eq ha hi hneeds, Item.cell_eq hsource]
    cases i.sourceShape <;> exact hcell
  | some dependency =>
    -- The rows that the item leads to are those of the mapper it needs.
    obtain ⟨_, -, -, is, hchosen, -⟩ := exists_of_forall₂_left (h.tame.registry.laid ha).items hi
    rcases Item.dependency?_eq_some.mp hneeds with ⟨hshape, -⟩ | ⟨hshape, -⟩
    · rw [hsource, hshape]
      dsimp only
      rw [show σ.stage.memory.rowAt σ.stage.metadata = σ.memory.rowAt σ.metadata from rfl]
      cases hnext : σ.memory.rowAt σ.metadata a.mapper.key.source row path with
      | none => rfl
      | some next => exact hrender _ hneeds _ (hchosen.rowAt_mem_leads hsource hshape hnext)
    · rw [hsource, hshape]
      dsimp only
      have hleads : i.leads σ.metadata σ.memory a.mapper.key.source row =
          σ.memory.rowsAt σ.metadata a.mapper.key.source row path := by
        unfold Item.leads
        rw [hsource, hshape]
      have hrows : (σ.memory.rowsAt σ.metadata a.mapper.key.source row path).mapM (render dependency) =
          .ok ((σ.memory.rowsAt σ.metadata a.mapper.key.source row path).map (view dependency)) := by
        rw [mapM_eq_ok, List.forall₂_map_right_iff, List.forall₂_same]
        exact fun next hnext => hrender _ hneeds _ (hleads ▸ hnext)
      exact congrArg (Except.map Json.array) hrows

theorem view_eq {depth : Nat} {row : Row} (hread : σ.reads a.mapper.key row) :
    σ.stage.view depth a.mapper.key row =
      .ok (evaluate σ.metadata σ.memory σ.registry.mappers depth a.mapper.key row) := by
  induction depth generalizing a row with
  | zero => rfl
  | succ depth ih =>
    have hitems : a.mapper.items.mapM (fun i : Item C =>
          (i.view σ.stage a.mapper.key row (σ.stage.view depth)).map (i.destination, ·)) =
        .ok (a.mapper.items.map fun i => (i.destination, i.evaluate σ.metadata σ.memory a.mapper.key.source
          row (evaluate σ.metadata σ.memory σ.registry.mappers depth))) := by
      rw [mapM_eq_ok, List.forall₂_map_right_iff, List.forall₂_same]
      intro i hi
      rw [h.view_item_eq ha hread hi fun dependency hneeds next hnext => ?_]
      · rfl
      -- The rows one level down are read as well, so the view of each is the one by induction.
      · have hedge : DependsOn σ.registry.mappers a.mapper.key dependency :=
          ⟨a.mapper, List.mem_map_of_mem ha, rfl, i, hi, hneeds⟩
        obtain ⟨b, hb, rfl⟩ := List.mem_map.mp (h.tame.registry.mem_order hedge).2
        exact ih hb (h.item a ha row hread i hi _ hneeds next hnext)
    have hfind : σ.registry.mappers.find? (·.key = a.mapper.key) = some a.mapper :=
      h.tame.registry.find?_mappers ha
    unfold Stage.view evaluate
    rw [show σ.stage.registry.mappers = σ.registry.mappers from rfl, hfind]
    dsimp only
    rw [hitems]
    rfl

theorem after_mapping {q : Query} {destination : String} (hentity : q.entity = a.mapper.key.source)
    (hincludes : q.includes = [])
    (hreads : ∀ row ∈ σ.memory.matching q.entity q.filter, σ.reads a.mapper.key row)
    (hfind : σ.registry.find? ⟨q.entity, destination⟩ = some a) (heap : Heap) :
    After (σ.registry.mapping q destination σ.memory.source σ.ambient) (.initial heap) (either
      (fun mapped s => List.Forall₂
        (fun row o => ∀ depth, σ.registry.order.length ≤ depth → s.heap.toJson (.object o) =
          .ok (evaluate σ.metadata σ.memory σ.registry.mappers depth a.mapper.key row))
        (σ.memory.matching q.entity q.filter) mapped.roots)
      fun _ _ => False) := by
  have hdistinct : Include.DistinctAll q.includes := hincludes ▸ trivial
  have hloads : q.Loads σ.metadata := Or.inr fun p hp => by
    rw [hincludes] at hp
    cases hp
  refine (h.tame.after_mapping ha hentity hdistinct hreads (.empty heap) hfind).imp ?_ ?_
  · rintro mapped s ⟨-, -, hroots⟩
    refine ((List.forall₂_and_left _ _).mpr ⟨hreads, hroots⟩).imp ?_
    rintro row o ⟨hread, hview⟩ depth hdepth
    exact (hview depth hdepth).trans (h.view_eq ha hread)
  · exact fun _ _ hnot => hnot ⟨hloads, h.feasible⟩

end Scene.Plain

/-! ## A small pass -/

namespace Sample

def memory : Source.Memory := .ofTables [
  ("Customer", [⟨[("id", .int 1), ("name", .string "Ada")]⟩]),
  ("Order", [⟨[("id", .int 7), ("customer_id", .int 1)]⟩,
    ⟨[("id", .int 8), ("customer_id", .null)]⟩])]

theorem exists_pass : ∃ (r : Registry Unit) (mapped : Mapped),
    ((Registry.build metadata {} declared).run.run []).1 = .ok r ∧
      let pass := r.map (Query.all "Order") "OrderView" memory.source () .empty
      pass.1 = .ok mapped ∧ pass.2.stats.waves = 1 := by
  have h : (((Registry.build metadata {} declared).run.run []).1.toOption.any fun r =>
      let pass := r.map (Query.all "Order") "OrderView" memory.source () .empty
      pass.1.toOption.any fun _ => pass.2.stats.waves = 1) = true := by cbv
  obtain ⟨r, hbuild, hpass⟩ := exists_ok_of_any h
  obtain ⟨mapped, hmapped, hwaves⟩ := exists_ok_of_any hpass
  exact ⟨r, mapped, hbuild, hmapped, of_decide_eq_true hwaves⟩

theorem plain_declared : ∀ d ∈ declared, d.Plain metadata := by
  have hcopy : ∀ (owner : MapperKey) destination,
      ({ destination } : Declaration Unit).resolveSource owner metadata = .ok .scalar →
      ({ destination } : Declaration Unit).Plain metadata owner :=
    fun _ _ hscalar => ⟨⟨_, rfl⟩, rfl, rfl, rfl, (fun _ h => absurd h (by simp)), fun _ => hscalar⟩
  intro d hd
  rcases List.mem_cons.mp hd with rfl | hd
  · refine ⟨fun i hi => ?_, rfl⟩
    rcases List.mem_cons.mp hi with rfl | hi
    · exact hcopy _ _ rfl
    · obtain rfl := List.mem_singleton.mp hi
      refine ⟨⟨_, rfl⟩, rfl, rfl, rfl, (fun _ h => absurd h (by simp)), fun h => absurd h (by simp)⟩
  · obtain rfl := List.mem_singleton.mp hd
    refine ⟨fun i hi => ?_, rfl⟩
    rcases List.mem_cons.mp hi with rfl | hi
    · exact hcopy _ _ rfl
    · obtain rfl := List.mem_singleton.mp hi
      exact hcopy _ _ rfl

theorem regular_memory : memory.Regular metadata := .of_entries (by decide) (by decide)

theorem namesApart : metadata.NamesApart := Metadata.namesApart_of_entries (by decide)

theorem asksWell {entity : String} {row : Row} (hrow : row ∈ memory.rows entity) (column : String) :
    (row.value column).AsksWell :=
  Source.Memory.value_of_entries (P := Value.AsksWell) (Or.inl rfl) (by decide) hrow column

end Sample

namespace Registry

/-- A pass of plain mappers never fails, and gives one object for each row of the query, in table order.
After the pass, the JSON of an object is that of its row, read off the tables relation by relation. This
takes cells that are scalars, rows with one primary key that are identical, relations whose names are not
those of joining columns, and fetched items that read keys to fetch by, or null. -/
theorem map_evaluates {entities : List Entity} {declared : List (MapperDeclaration C)}
    (hplain : ∀ d ∈ declared, d.Plain (.ofList entities))
    (hapart : (Metadata.ofList entities).NamesApart) {logs : List LogRecord} {r : Registry C}
    (hbuild : ((build (.ofList entities) {} declared).run.run logs).1 = .ok r) {m : Source.Memory}
    (hregular : m.Regular (.ofList entities)) {q : Query} (hincludes : q.includes = [])
    {destination : String} (hroot : ⟨q.entity, destination⟩ ∈ r.order)
    (hasks : ∀ mapper ∈ r.mappers, ∀ row,
      Reads (.ofList entities) m r.mappers ⟨q.entity, destination⟩ (m.matching q.entity q.filter)
        mapper.key row →
      ∀ i ∈ mapper.items, i.style.isFetch = true →
        (i.asked (.ofList entities) m mapper.key.source row).AsksWell) (ambient : C) (heap : Heap) :
    let pass := r.map q destination m.source ambient heap
    ∃ mapped, pass.1 = .ok mapped ∧
      List.Forall₂
        (fun row o => ∀ depth, r.order.length ≤ depth → pass.2.heap.toJson (.object o) =
          .ok (evaluate (.ofList entities) m r.mappers depth ⟨q.entity, destination⟩ row))
        (m.matching q.entity q.filter) mapped.roots := by
  obtain ⟨resolved, hregistry⟩ := plain_of_build hapart hplain hbuild
  obtain ⟨a, ha, hfind, hkey⟩ := exists_find? hroot
  -- The scene reads the rows that the root leads to, and no others.
  have hσ : Scene.Plain (C := C) ⟨.ofList entities, declared, resolved, r, m, ambient,
      Reads (.ofList entities) m r.mappers ⟨q.entity, destination⟩ (m.matching q.entity q.filter)⟩ := by
    refine ⟨hregistry, hregular, fun key row => hregistry.mem_rows (m.matching_subset _ _), ?_, ?_⟩
    · intro b hb row hreads i hi dependency hneeds next hnext
      exact .item (List.mem_map_of_mem hb) hreads hi hneeds hnext
    · intro b hb row hreads i hi hfetch
      exact hasks b.mapper (List.mem_map_of_mem hb) row hreads i hi hfetch
  have hentity : q.entity = a.mapper.key.source := by rw [hkey]
  have hreads : ∀ row ∈ m.matching q.entity q.filter,
      Reads (.ofList entities) m r.mappers ⟨q.entity, destination⟩ (m.matching q.entity q.filter)
        a.mapper.key row := fun row hrow => hkey ▸ .root hrow
  have hpass := hσ.after_mapping ha hentity hincludes hreads hfind heap
  rw [hkey] at hpass
  exact hpass.exists_ok

theorem orders_evaluate : ∃ (r : Registry Unit) (mapped : Mapped) (s : PassState Unit),
    ((build Sample.metadata {} Sample.declared).run.run []).1 = .ok r ∧
      r.map (Query.all "Order") "OrderView" Sample.memory.source () .empty = (.ok mapped, s) ∧
      List.Forall₂
        (fun row o => ∀ depth, r.order.length ≤ depth → s.heap.toJson (.object o) =
          .ok (evaluate Sample.metadata Sample.memory r.mappers depth ⟨"Order", "OrderView"⟩ row))
        (Sample.memory.rows "Order") mapped.roots := by
  obtain ⟨r, hbuild, horder⟩ := Sample.exists_registry
  obtain ⟨resolved, hregistry⟩ := plain_of_build Sample.namesApart Sample.plain_declared hbuild
  have hroot : ⟨(Query.all "Order").entity, "OrderView"⟩ ∈ r.order := by simp [horder, Query.all]
  have hasks : ∀ mapper ∈ r.mappers, ∀ row, Reads Sample.metadata Sample.memory r.mappers
      ⟨"Order", "OrderView"⟩ (Sample.memory.rows "Order") mapper.key row →
      ∀ i ∈ mapper.items, i.style.isFetch = true →
        (i.asked Sample.metadata Sample.memory mapper.key.source row).AsksWell := by
    intro mapper _ row hreads i _ _
    have hrow := hregistry.mem_rows (List.Subset.refl _) hreads
    rcases i.asked_cases Sample.metadata hrow with hnull | ⟨entity, row', hrow', column, heq⟩
    · exact Or.inl hnull
    · exact heq ▸ Sample.asksWell hrow' column
  obtain ⟨mapped, hmapped, hroots⟩ := map_evaluates Sample.plain_declared Sample.namesApart hbuild
    Sample.regular_memory rfl hroot hasks () .empty
  exact ⟨r, mapped, _, hbuild, Prod.ext hmapped rfl, hroots⟩

example : (((build Sample.metadata {} Sample.declared).run.run []).1.toOption.map fun r =>
    (Sample.memory.rows "Order").map fun row =>
      (evaluate Sample.metadata Sample.memory r.mappers 2 ⟨"Order", "OrderView"⟩ row).text) = some [
    "\x7b\"customer\":\x7b\"id\":1,\"name\":\"Ada\"\x7d,\"id\":7\x7d",
    "\x7b\"customer\":null,\"id\":8\x7d"] := by cbv

end Registry

end EntityMapping
