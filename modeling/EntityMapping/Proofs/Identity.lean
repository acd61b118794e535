import EntityMapping.Proofs.Evaluation
import EntityMapping.Proofs.Pass.Settling

/-! # The identity of destinations

Transients of one mapper with one complete primary key share their destination, and all others have one of
their own. A destination is shared only after all of its items were applied, and no item writes a field
twice.
-/

namespace EntityMapping

variable {C α β : Type}

/-! ## Every transient is noted -/

/-- Nothing that was written down is lost. -/
def Longer (s s' : PassState C) : Prop := s.entries <+: s'.entries

instance : Std.Refl (Longer (C := C)) := ⟨fun _ => List.prefix_rfl⟩

instance : IsTrans (PassState C) Longer := ⟨fun _ _ _ h h' => h.trans h'⟩

theorem Longer.quiet {x : PassM C α} (h : Moves PassState.Quiet x) : Moves Longer x :=
  h.imp fun _ _ hq => (Grown.quiet 0 hq).prefix_entries

theorem longer_record (e : Entry) : Moves Longer (PassM.record e : PassM C Unit) :=
  fun _ => ⟨[e], (Journal.toList_add _ _).symm⟩

theorem longer_enqueue (request : Nat → Request C) : Moves Longer (PassM.enqueue request) :=
  fun _ => ⟨_, (Journal.toList_add _ _).symm⟩

theorem longer_mapSteps (setting : Setting C) : MapSteps setting (fun _ => True) Longer :=
  mapSteps_of_primitives longer_record (fun x => Longer.quiet (PassM.quiet_perform x))
    (fun _ _ => List.prefix_rfl) longer_enqueue fun _ _ _ => List.prefix_rfl

/-- The first thing that a mapped transient leaves in the journal is its destination, and that is the object
it becomes. -/
def Noted (mapper : MapperKey) (key : Option Key) (s : PassState C) (result : Except Error ObjectRef)
    (s' : PassState C) : Prop :=
  ∃ e object rest, e.destination? = some ⟨mapper, key, object⟩ ∧ s'.entries = s.entries ++ e :: rest ∧
    ∀ o, result = .ok o → o = object

theorem Registry.Built.noted_map {metadata : Metadata} {config : Config}
    {declared : List (MapperDeclaration C)} {resolved : List (Mapper C)} {r : Registry C}
    (h : Built metadata config declared resolved r) {a : Registration C} (ha : a ∈ r.registrations)
    (source : DataSource) (ambient : C) (t : Transient) (s : PassState C) :
    After (a.plan.map (r.setting source ambient) t) s
      (Noted a.mapper.key (a.plan.head.keyOf t) s) := by
  have hkey : a.plan.head.key = a.mapper.key := h.committed.key_eq ha
  rw [Plan.map_eq, hkey]
  refine After.bind (after_cached r source ambient _ _ s) ?_ fun _ _ hnone => hnone.elim
  intro found s₁ hfound
  cases found with
  | some o =>
    obtain ⟨k, hk, -, -, rfl⟩ := hfound
    rw [hk]
    exact ⟨.reused a.mapper.key k o, o, [], rfl, Journal.toList_add _ _, fun _ ho => (Except.ok.inj ho).symm⟩
  | none =>
    obtain ⟨rfl, -⟩ := hfound
    refine After.bind (after_allocate r source ambient a _ _ s₁) ?_ fun _ _ hnone => hnone.elim
    intro o s₂ hallocated
    have hnoted : ∀ result s', Longer s₂ s' → (∀ p, result = .ok p → p = o) →
        Noted a.mapper.key (a.plan.head.keyOf t) s₁ result s' := by
      rintro result s' ⟨rest, hrest⟩ hresult
      refine ⟨.allocated a.mapper.key (a.plan.head.keyOf t) o, o, rest, rfl, ?_, hresult⟩
      rw [← hrest, hallocated.entries, List.append_assoc, List.singleton_append]
    -- Whatever the items do, they only add to the journal.
    have hsteps := longer_mapSteps (r.setting source ambient)
    rw [After.bind_iff]
    apply (moves_fillItems hsteps a.plan.items (itemsWithin_true a.plan.items)
      (t.drop a.plan.head.carriers.length) o s₂).mono
    rintro (e | _) s₃ hlonger
    · exact hnoted _ _ hlonger fun _ h => by cases h
    · have hend : Longer s₃ ((PassM.defer o a.plan.head.after >>= fun _ =>
          PassM.record (.completed o) : PassM C Unit).run.run s₃).2 :=
        ((hsteps.defer o _).bind fun _ => longer_record _) s₃
      exact hnoted _ _ (hlonger.trans hend) fun _ h => (Except.ok.inj h).symm

/-! ## Declared items -/

/-- The names of the items, in order of declaration. -/
def MapperDeclaration.names (d : MapperDeclaration C) : List String :=
  d.items.map fun i => Text.snakeCase i.destination

/-- The declared fields, in order of declaration. -/
def MapperDeclaration.fields (d : MapperDeclaration C) : List String := d.items.map (·.destination)

theorem Registry.names_of_resolved {metadata : Metadata} {registered : List MapperKey}
    {d : MapperDeclaration C} {m : Mapper C} (h : resolveMapper metadata registered d = .ok m) :
    m.items.map (·.name) = d.names ∧ m.items.map (·.destination) = d.fields := by
  obtain ⟨-, -, hitems, -⟩ := resolveMapper_eq_ok h
  constructor
  · refine (map_eq_map_of_forall₂ (hitems.imp fun _ _ hi => ?_)).symm
    obtain ⟨-, -, -, -, -, rfl⟩ := Declaration.resolve_eq_ok hi
    rfl
  · refine (map_eq_map_of_forall₂ (hitems.imp fun _ _ hi => ?_)).symm
    obtain ⟨-, -, -, -, -, rfl⟩ := Declaration.resolve_eq_ok hi
    rfl

/-- What became of a destination: the declared items were applied to it one after the other, and all of them
if it was completed, and it has the declared fields before all others. -/
structure Treated (d : MapperDeclaration C) (s : PassState C) (o : ObjectRef) : Prop where
  applied : appliedTo o s.entries <+: d.names
  applied_eq : .completed o ∈ s.entries → appliedTo o s.entries = d.names
  fields : d.fields <+: (s.heap.fields o).keys

theorem Kept.treated {metadata : Metadata} {config : Config} {declared : List (MapperDeclaration C)}
    {resolved : List (Mapper C)} {r : Registry C} {base : Nat} {hooks : List (PendingHook C)}
    {s : PassState C} (hs : Kept r base hooks s) (h : r.Built metadata config declared resolved)
    {x : Destination} (hx : x ∈ destinationsIn s.entries) :
    ∃ d ∈ declared, d.key = x.mapper ∧ Treated d s x.object := by
  obtain ⟨a, ha, hkey⟩ := List.mem_map.mp (hs.lawful.mem_order hx)
  obtain ⟨d, hd, hresolved⟩ := h.resolves.exists_declaration (h.mem a ha)
  have ho : IsDestination a x.object s.entries := ⟨x.key, hkey ▸ hs.lawful.allocated hx⟩
  obtain ⟨hnames, hfields⟩ := Registry.names_of_resolved hresolved
  refine ⟨d, hd, (Registry.resolveMapper_eq_ok hresolved).1.symm.trans hkey, ?_, fun hcompleted => ?_, ?_⟩
  · exact hnames ▸ hs.lawful.applied h.committed.nodup ha ho
  · exact hnames ▸ hs.lawful.applied_eq h.committed.nodup ha ho hcompleted
  · exact hfields ▸ hs.fields a ha x.object ho

/-! ## Passes -/

namespace Registry

/-- A mapped transient is noted with the primary key that its mapper found and the object that it became.
Two of a pass have the same object exactly if destinations are shared and one mapper found one key in both.
All objects are new, and the declared items are applied to each of them in order, to its end if it was
completed, which all are when the pass succeeds. Only a completed destination is reused, and no field is
assigned twice. -/
theorem map_identifies {metadata : Metadata} {config : Config} {declared : List (MapperDeclaration C)}
    {logs : List LogRecord} {r : Registry C}
    (hbuild : ((build metadata config declared).run.run logs).1 = .ok r) (source : DataSource) (ambient : C) :
    (∀ a ∈ r.registrations, ∀ t s, After (a.plan.map (r.setting source ambient) t) s
      (Noted a.mapper.key (a.plan.head.keyOf t) s)) ∧
    ∀ q destination heap,
      let pass := r.map q destination source ambient heap
      let es := pass.2.entries
      (destinationsIn es).Pairwise (Identified r) ∧
      (∀ x ∈ destinationsIn es, heap.size ≤ x.object.id ∧
        ∃ d ∈ declared, d.key = x.mapper ∧ Treated d pass.2 x.object) ∧
      (∀ front mapper key o rest, es = front ++ .reused mapper key o :: rest →
        config.cacheDestinations = true ∧ .allocated mapper (some key) o ∈ front ∧ .completed o ∈ front ∧
          ∃ d ∈ declared, d.key = mapper ∧ appliedTo o front = d.names) ∧
      (∀ front o field rest, es = front ++ .assigned o field :: rest →
        .assigned o field ∉ front ∧
          ∃ d ∈ declared, field ∈ d.fields ∧ ∃ key, .allocated d.key key o ∈ front) ∧
      ∀ mapped, pass.1 = .ok mapped → ∀ x ∈ destinationsIn es, .completed x.object ∈ es := by
  obtain ⟨resolved, h⟩ := built_of_build hbuild
  have hdeclared : ∀ a ∈ r.registrations, ∃ d ∈ declared, d.key = a.mapper.key ∧
      a.mapper.items.map (·.name) = d.names ∧ a.mapper.items.map (·.destination) = d.fields := by
    intro a ha
    obtain ⟨d, hd, hresolved⟩ := h.resolves.exists_declaration (h.mem a ha)
    exact ⟨d, hd, (resolveMapper_eq_ok hresolved).1.symm, names_of_resolved hresolved⟩
  refine ⟨fun a ha => h.noted_map ha source ambient, fun q destination heap => ?_⟩
  intro pass es
  obtain ⟨hooks, hs⟩ : Sound r heap.size pass.2 := h.sound_map q destination source ambient heap
  have hlawful : Lawful r heap.size es := hs.lawful
  refine ⟨hs.lawful.pairwise, fun x hx => ⟨hs.lawful.le_id hx, hs.treated h hx⟩, ?_, ?_, ?_⟩
  · intro front mapper key o rest heq
    obtain ⟨hcaching, hallocated, hcompleted⟩ := hlawful _ _ _ heq
    refine ⟨h.config_eq ▸ hcaching, hallocated, hcompleted, ?_⟩
    have hfront : Lawful r heap.size front := Obeys.front (heq ▸ hlawful)
    have hmapper := hfront.mem_order (mem_destinationsIn.mpr (Or.inl hallocated) :
      (⟨mapper, some key, o⟩ : Destination) ∈ destinationsIn front)
    obtain ⟨a, ha, rfl⟩ := List.mem_map.mp hmapper
    obtain ⟨d, hd, hkey, hnames, -⟩ := hdeclared a ha
    exact ⟨d, hd, hkey, hnames ▸ hfront.applied_eq h.committed.nodup ha ⟨_, hallocated⟩ hcompleted⟩
  · intro front o field rest heq
    obtain ⟨hnew, a, ha, ⟨key, hallocated⟩, hfield⟩ := hlawful _ _ _ heq
    obtain ⟨d, hd, hkey, -, hfields⟩ := hdeclared a ha
    exact ⟨hnew, d, hd, hfields ▸ hfield, key, hkey ▸ hallocated⟩
  · intro mapped hmapped x hx
    have hfinished := (h.settled_map q destination source ambient heap hmapped).1.finished
    exact hfinished _ _ _ (hs.lawful.allocated hx) trivial

theorem orders_identify : ∃ r : Registry Unit,
    ((build Sample.metadata {} Sample.declared).run.run []).1 = .ok r ∧
      let pass := r.map (Query.all "Order") "OrderView" Sample.memory.source () .empty
      (destinationsIn pass.2.entries).Pairwise (Identified r) ∧
        ∀ x ∈ destinationsIn pass.2.entries,
          ∃ d ∈ Sample.declared, d.key = x.mapper ∧ Treated d pass.2 x.object := by
  obtain ⟨r, hbuild, -⟩ := Sample.exists_registry
  obtain ⟨-, hpass⟩ := map_identifies hbuild Sample.memory.source ()
  obtain ⟨hidentified, htreated, -⟩ := hpass (Query.all "Order") "OrderView" .empty
  exact ⟨r, hbuild, hidentified, fun x hx => (htreated x hx).2⟩

end Registry

/-! ## A pass that fails -/

namespace Sample

/-- The first item of a customer fails. -/
def interrupted : List (MapperDeclaration Unit) := [⟨⟨"Customer", "CustomerView"⟩,
  [{ destination := "name", transposer := some fun _ _ => .fail (.external "no name") },
    { destination := "id" }], []⟩]

/-- When an item fails, the items after it are not applied to the destination, although it was allocated. -/
theorem interrupted_leaves_items : ∃ r : Registry Unit,
    ((Registry.build metadata {} interrupted).run.run []).1 = .ok r ∧
      r.config.cacheDestinations = true ∧
      let pass := r.map (Query.all "Customer") "CustomerView" memory.source () .empty
      ∃ d ∈ interrupted, ∃ x ∈ destinationsIn pass.2.entries, d.key = x.mapper ∧
        appliedTo x.object pass.2.entries ≠ d.names := by
  have h : (((Registry.build metadata {} interrupted).run.run []).1.toOption.any fun r =>
      r.config.cacheDestinations &&
        let s := (r.map (Query.all "Customer") "CustomerView" memory.source () .empty).2
        (destinationsIn s.entries).any fun x =>
          x.mapper = ⟨"Customer", "CustomerView"⟩ && (appliedTo x.object s.entries).isEmpty) = true := by cbv
  obtain ⟨r, hbuild, hran⟩ := exists_ok_of_any h
  obtain ⟨hcaching, hnone⟩ := (Bool.and_eq_true _ _).mp hran
  obtain ⟨x, hx, hmapper⟩ := List.any_eq_true.mp hnone
  simp only [Bool.and_eq_true, decide_eq_true_eq, List.isEmpty_iff] at hmapper
  refine ⟨r, hbuild, hcaching, _, List.mem_singleton_self _, x, hx, hmapper.1.symm, ?_⟩
  rw [hmapper.2]
  exact (List.cons_ne_nil _ _).symm

end Sample

end EntityMapping
