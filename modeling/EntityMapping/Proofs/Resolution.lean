import EntityMapping.Proofs.Grouping
import EntityMapping.Proofs.Outcome
import EntityMapping.Registry
import Mathlib.Data.List.Nodup

/-! # Resolved declarations

What is known of mappers whose declarations resolved: their keys are different, and every mapper that
an item needs is registered. Whatever does not resolve is a mistake in the declarations.
-/

namespace EntityMapping

/-- A mistake in the declarations that has nothing to do with the order of commitment. -/
def Mistake (e : Error) : Prop :=
  e.isConfiguration = true ∧ (∀ mapper, e ≠ .alreadyCommitted mapper) ∧ ∀ path, e ≠ .mapperCycle path

/-- No destination field is there twice. -/
def Unclashing (e : Error) : Prop := ∀ mapper field, e ≠ .duplicateField mapper field

/-- A mistake in what the declarations name outside of their own destination fields. -/
def Misnamed (e : Error) : Prop := Mistake e ∧ Unclashing e

theorem FailsOnly.mistake {α : Type} {x : Except Error α} (h : FailsOnly Misnamed x) :
    FailsOnly Mistake x := h.mono fun _ he => he.1

theorem FailsOnly.unclashing {α : Type} {x : Except Error α} (h : FailsOnly Misnamed x) :
    FailsOnly Unclashing x := h.mono fun _ he => he.2

theorem Error.ne_notCommitted {e : Error} (h : e.isConfiguration = true) (mapper : String) :
    e ≠ .notCommitted mapper := by
  rintro rfl
  exact absurd h (by simp [Error.isConfiguration])

/-- An item of the mapper `a` needs the mapper `b`. -/
def DependsOn {C : Type} (mappers : List (Mapper C)) (a b : MapperKey) : Prop :=
  ∃ m ∈ mappers, m.key = a ∧ ∃ i ∈ m.items, i.dependency? = some b

/-! ## Metadata -/

theorem requireEntity_eq_ok {metadata : Metadata} {name : String} {e : Entity} :
    metadata.requireEntity name = .ok e ↔ metadata.entity? name = some e := by
  unfold Metadata.requireEntity
  split <;> simp_all

theorem requireRelation_eq_ok {e : Entity} {name : String} {r : Relation} :
    e.requireRelation name = .ok r ↔ e.relation? name = some r := by
  unfold Entity.requireRelation
  split <;> simp_all

theorem misnamed_requireEntity (metadata : Metadata) (name : String) :
    FailsOnly Misnamed (metadata.requireEntity name) := by
  unfold Metadata.requireEntity
  split
  · exact FailsOnly.ok _
  · simp [Misnamed, Mistake, Unclashing, Error.isConfiguration]

theorem misnamed_requireRelation (e : Entity) (name : String) :
    FailsOnly Misnamed (e.requireRelation name) := by
  unfold Entity.requireRelation
  split
  · exact FailsOnly.ok _
  · simp [Misnamed, Mistake, Unclashing, Error.isConfiguration]

theorem misnamed_singlePrimaryKey (e : Entity) : FailsOnly Misnamed e.singlePrimaryKey := by
  unfold Entity.singlePrimaryKey
  split
  · exact FailsOnly.ok _
  · simp [Misnamed, Mistake, Unclashing, Error.isConfiguration]
  · simp [Misnamed, Mistake, Unclashing, Error.isConfiguration]

theorem misnamed_ofMember (e : Entity) (member : String) :
    FailsOnly Misnamed (SourceShape.ofMember e member) := by
  unfold SourceShape.ofMember
  split
  · split <;> exact FailsOnly.ok _
  · split
    · exact FailsOnly.ok _
    · simp [Misnamed, Mistake, Unclashing, Error.isConfiguration]

theorem misnamed_ofPath (metadata : Metadata) (e : Entity) (path : List String) :
    FailsOnly Misnamed (SourceShape.ofPath metadata e path) := by
  induction path generalizing e with
  | nil => exact FailsOnly.ok _
  | cons segment rest ih =>
    unfold SourceShape.ofPath
    split
    · exact FailsOnly.ok _
    · exact misnamed_ofMember e _
    · rename_i heq
      obtain ⟨rfl, rfl⟩ := List.cons.inj heq
      split
      · simp [Misnamed, Mistake, Unclashing, Error.isConfiguration]
      · split
        · simp [Misnamed, Mistake, Unclashing, Error.isConfiguration]
        · split
          · rename_i herr
            exact (FailsOnly.error _).mpr (misnamed_requireEntity metadata _ _ herr)
          · exact ih _

/-! ## Items -/

namespace Declaration

variable {C : Type}

theorem requireMapper_eq_ok {registered : List MapperKey} {key : MapperKey} {u : Unit} :
    requireMapper registered key = .ok u ↔ key ∈ registered := by
  unfold requireMapper
  split <;> simp_all

theorem misnamed_resolveSource (d : Declaration C) (owner : MapperKey) (metadata : Metadata) :
    FailsOnly Misnamed (d.resolveSource owner metadata) := by
  unfold resolveSource
  split
  · exact FailsOnly.ok _
  · exact FailsOnly.bind (misnamed_requireEntity _ _) fun e _ => misnamed_ofPath metadata e _
  · exact FailsOnly.ok _

theorem misnamed_requireMapper (registered : List MapperKey) (key : MapperKey) :
    FailsOnly Misnamed (requireMapper registered key) := by
  unfold requireMapper
  split
  · exact FailsOnly.ok _
  · simp [Misnamed, Mistake, Unclashing, Error.isConfiguration]

theorem misnamed_resolveDestination (d : Declaration C) (component : String) (style : Style C)
    (source : SourceShape) (registered : List MapperKey) :
    FailsOnly Misnamed (d.resolveDestination component style source registered) := by
  unfold resolveDestination
  split
  · simp [Misnamed, Mistake, Unclashing, Error.isConfiguration]
  · exact FailsOnly.bind (misnamed_requireMapper _ _) fun _ _ => FailsOnly.ok _
  · exact FailsOnly.bind (misnamed_requireMapper _ _) fun _ _ => FailsOnly.ok _
  · simp [Misnamed, Mistake, Unclashing, Error.isConfiguration]
  · simp [Misnamed, Mistake, Unclashing, Error.isConfiguration]
  · exact FailsOnly.ok _

theorem misnamed_resolve (d : Declaration C) (owner : MapperKey) (metadata : Metadata)
    (registered : List MapperKey) : FailsOnly Misnamed (d.resolve owner metadata registered) := by
  unfold resolve
  split
  · simp [Misnamed, Mistake, Unclashing, Error.isConfiguration]
  · refine FailsOnly.bind (misnamed_resolveSource _ _ _) fun _ _ => ?_
    exact FailsOnly.bind (misnamed_resolveDestination _ _ _ _ _) fun _ _ => FailsOnly.ok _

theorem resolve_eq_ok {d : Declaration C} {owner : MapperKey} {metadata : Metadata}
    {registered : List MapperKey} {i : Item C} (h : d.resolve owner metadata registered = .ok i) :
    ∃ component sourceShape destinationShape,
      d.resolveSource owner metadata = .ok sourceShape ∧
      d.resolveDestination component (d.style.getD .inline) sourceShape registered =
        .ok destinationShape ∧
      i = {
        name := Text.snakeCase d.destination
        source := d.accessor
        sourceShape
        destination := d.destination
        destinationShape
        expected := (d.declared.map .scalar).getD destinationShape
        style := d.style.getD .inline
        transposer := d.transposer } := by
  unfold resolve at h
  split at h
  · simp at h
  · obtain ⟨sourceShape, hsource, h⟩ := bind_eq_ok.mp h
    obtain ⟨destinationShape, hdestination, h⟩ := bind_eq_ok.mp h
    exact ⟨_, sourceShape, destinationShape, hsource, hdestination, (Except.ok.inj h).symm⟩

/-- Only an item that is mapped gets a shape that holds objects, and then its mapper is registered. -/
theorem mem_of_resolveDestination {d : Declaration C} {component : String} {style : Style C}
    {source : SourceShape} {registered : List MapperKey} {shape : DestinationShape}
    (h : d.resolveDestination component style source registered = .ok shape) {key : MapperKey}
    (hkey : (source = .entity key.source ∧ shape = .object key.destination) ∨
      (source = .sequence key.source ∧ shape = .list key.destination)) :
    key ∈ registered := by
  unfold resolveDestination at h
  split at h
  · simp at h
  · obtain ⟨_, hmem, h⟩ := bind_eq_ok.mp h
    rw [requireMapper_eq_ok] at hmem
    rcases hkey with ⟨hs, rfl⟩ | ⟨hs, -⟩
    · injection hs with hs
      injection h with h
      injection h with h
      rw [hs, h] at hmem
      exact hmem
    · simp at hs
  · obtain ⟨_, hmem, h⟩ := bind_eq_ok.mp h
    rw [requireMapper_eq_ok] at hmem
    rcases hkey with ⟨hs, -⟩ | ⟨hs, rfl⟩
    · simp at hs
    · injection hs with hs
      injection h with h
      injection h with h
      rw [hs, h] at hmem
      exact hmem
  · simp at h
  · simp at h
  · rcases hkey with ⟨-, rfl⟩ | ⟨-, rfl⟩
    · simp at h
    · simp at h

end Declaration

theorem Item.dependency?_eq_some {C : Type} {i : Item C} {key : MapperKey} :
    i.dependency? = some key ↔
      (i.sourceShape = .entity key.source ∧ i.destinationShape = .object key.destination) ∨
      (i.sourceShape = .sequence key.source ∧ i.destinationShape = .list key.destination) := by
  obtain ⟨source, destination⟩ := key
  unfold Item.dependency?
  split <;> simp_all

theorem mem_of_resolve {C : Type} {d : Declaration C} {owner : MapperKey} {metadata : Metadata}
    {registered : List MapperKey} {i : Item C} (h : d.resolve owner metadata registered = .ok i)
    {key : MapperKey} (hkey : i.dependency? = some key) : key ∈ registered := by
  obtain ⟨component, sourceShape, destinationShape, -, hdestination, rfl⟩ := Declaration.resolve_eq_ok h
  exact Declaration.mem_of_resolveDestination hdestination (Item.dependency?_eq_some.mp hkey)

/-! ## Mappers -/

namespace Registry

variable {C : Type}

theorem misnamed_declaredKeys (metadata : Metadata) (declared : List (MapperDeclaration C)) :
    FailsOnly Misnamed (declaredKeys metadata declared) := by
  unfold declaredKeys
  refine FailsOnly.foldlM _ fun d _ keys => ?_
  split
  · simp [Misnamed, Mistake, Unclashing, Error.isConfiguration]
  · exact FailsOnly.map (misnamed_requireEntity _ _)

theorem mistake_resolveMapper (metadata : Metadata) (registered : List MapperKey)
    (d : MapperDeclaration C) : FailsOnly Mistake (resolveMapper metadata registered d) := by
  unfold resolveMapper
  refine FailsOnly.map (FailsOnly.foldlM _ fun i _ items => ?_)
  unfold resolveItem
  split
  · simp [Mistake, Error.isConfiguration]
  · exact FailsOnly.map (Declaration.misnamed_resolve _ _ _ _).mistake

theorem declaredKeys_eq_ok {metadata : Metadata} {declared : List (MapperDeclaration C)}
    {keys : List MapperKey} :
    declaredKeys metadata declared = .ok keys ↔
      keys = declared.map (·.key) ∧ (declared.map (·.key)).Nodup ∧
        ∀ d ∈ declared, ∃ e, metadata.requireEntity d.key.source = .ok e := by
  -- The fold goes on from keys that were accepted before.
  suffices h : ∀ before : List MapperKey, before.Nodup →
      (declared.foldlM
        (fun keys d =>
          if d.key ∈ keys then .error (.duplicateMapper d.key.text)
          else (metadata.requireEntity d.key.source).map fun _ => keys ++ [d.key]) before = .ok keys ↔
        keys = before ++ declared.map (·.key) ∧ (before ++ declared.map (·.key)).Nodup ∧
          ∀ d ∈ declared, ∃ e, metadata.requireEntity d.key.source = .ok e) from by
    simpa [declaredKeys] using h [] List.nodup_nil
  induction declared with
  | nil =>
    intro before hbefore
    rw [List.foldlM_nil]
    simp only [List.map_nil, List.append_nil, List.not_mem_nil, false_implies, implies_true, and_true,
      hbefore]
    exact ⟨fun h => (Except.ok.inj h).symm, fun h => by rw [h]; rfl⟩
  | cons d declared ih =>
    intro before hbefore
    rw [List.foldlM_cons, bind_eq_ok]
    by_cases hmem : d.key ∈ before
    · simp only [if_pos hmem]
      constructor
      · rintro ⟨_, h, -⟩
        simp at h
      · rintro ⟨-, hnodup, -⟩
        rw [List.nodup_append] at hnodup
        exact absurd rfl (hnodup.2.2 _ hmem d.key (by simp))
    · simp only [if_neg hmem, map_eq_ok]
      have hnext : (before ++ [d.key]).Nodup := by simpa using hbefore.concat hmem
      constructor
      · rintro ⟨_, ⟨e, he, rfl⟩, h⟩
        obtain ⟨hkeys, hnodup, hknown⟩ := (ih _ hnext).mp h
        refine ⟨by simpa using hkeys, by simpa using hnodup, ?_⟩
        exact List.forall_mem_cons.mpr ⟨⟨e, he⟩, hknown⟩
      · rintro ⟨hkeys, hnodup, hknown⟩
        obtain ⟨⟨e, he⟩, hknown⟩ := List.forall_mem_cons.mp hknown
        exact ⟨_, ⟨e, he, rfl⟩, (ih _ hnext).mpr ⟨by simpa using hkeys, by simpa using hnodup, hknown⟩⟩

theorem resolveMapper_eq_ok {metadata : Metadata} {registered : List MapperKey}
    {d : MapperDeclaration C} {m : Mapper C} (h : resolveMapper metadata registered d = .ok m) :
    m.key = d.key ∧ m.after = d.after ∧
      List.Forall₂ (fun declaration i => declaration.resolve d.key metadata registered = .ok i)
        d.items m.items ∧ (m.items.map (·.destination)).Nodup := by
  unfold resolveMapper at h
  obtain ⟨items, hitems, rfl⟩ := map_eq_ok.mp h
  have hresolved := foldlM_induct
    (fun front items =>
      List.Forall₂ (fun declaration i => declaration.resolve d.key metadata registered = .ok i)
        front items ∧ (items.map (·.destination)).Nodup) ?_ ⟨List.Forall₂.nil, List.nodup_nil⟩ hitems
  · exact ⟨rfl, rfl, hresolved⟩
  · rintro front declaration items items' ⟨hfront, hnodup⟩ hitem
    unfold resolveItem at hitem
    split at hitem
    · simp at hitem
    · rename_i hnew
      obtain ⟨i, hi, rfl⟩ := map_eq_ok.mp hitem
      refine ⟨List.rel_append hfront (List.Forall₂.cons hi List.Forall₂.nil), ?_⟩
      obtain ⟨-, -, -, -, -, rfl⟩ := Declaration.resolve_eq_ok hi
      have hmem : declaration.destination ∉ items.map (·.destination) := by
        intro hmem
        obtain ⟨j, hj, heq⟩ := List.mem_map.mp hmem
        exact hnew (List.any_eq_true.mpr ⟨j, hj, by simpa using heq⟩)
      simpa using hnodup.concat hmem

end Registry

theorem Mapper.mem_dependencies {C : Type} {m : Mapper C} {key : MapperKey} :
    key ∈ m.dependencies ↔ ∃ i ∈ m.items, i.dependency? = some key := by
  unfold Mapper.dependencies
  rw [mem_foldl_new]
  simp

/-! ## Lists of mappers -/

/-- Declarations that are different and resolve to these mappers. -/
structure Resolves {C : Type} (metadata : Metadata) (declared : List (MapperDeclaration C))
    (mappers : List (Mapper C)) : Prop where
  distinct : (declared.map (·.key)).Nodup
  known : ∀ d ∈ declared, ∃ e, metadata.requireEntity d.key.source = .ok e
  resolved : List.Forall₂
    (fun d m => Registry.resolveMapper metadata (declared.map (·.key)) d = .ok m) declared mappers

namespace Resolves

variable {C : Type} {metadata : Metadata} {declared : List (MapperDeclaration C)}
  {mappers : List (Mapper C)}

theorem keys_eq (h : Resolves metadata declared mappers) :
    mappers.map (·.key) = declared.map (·.key) :=
  (map_eq_map_of_forall₂ (h.resolved.imp fun _ _ hd => (Registry.resolveMapper_eq_ok hd).1.symm)).symm

theorem exists_declaration (h : Resolves metadata declared mappers) {m : Mapper C} (hm : m ∈ mappers) :
    ∃ d ∈ declared, Registry.resolveMapper metadata (declared.map (·.key)) d = .ok m :=
  exists_of_forall₂_right h.resolved hm

theorem exists_resolved (h : Resolves metadata declared mappers) {m : Mapper C} (hm : m ∈ mappers) {i : Item C}
    (hi : i ∈ m.items) : ∃ d ∈ declared, d.key = m.key ∧ ∃ declaration ∈ d.items,
      declaration.resolve m.key metadata (declared.map (·.key)) = .ok i := by
  obtain ⟨d, hd, hresolved⟩ := h.exists_declaration hm
  obtain ⟨hkey, -, hitems, -⟩ := Registry.resolveMapper_eq_ok hresolved
  rw [← hkey] at hitems
  exact ⟨d, hd, hkey.symm, exists_of_forall₂_right hitems hi⟩

theorem mem_keys (h : Resolves metadata declared mappers) {a b : MapperKey}
    (hab : DependsOn mappers a b) : a ∈ declared.map (·.key) ∧ b ∈ declared.map (·.key) := by
  obtain ⟨m, hm, rfl, i, hi, hb⟩ := hab
  refine ⟨h.keys_eq ▸ List.mem_map_of_mem hm, ?_⟩
  obtain ⟨_, -, -, _, -, hresolved⟩ := h.exists_resolved hm hi
  exact mem_of_resolve hresolved hb

theorem find?_eq (h : Resolves metadata declared mappers) {m : Mapper C} (hm : m ∈ mappers) :
    mappers.find? (·.key = m.key) = some m :=
  find?_of_nodup_map (f := Mapper.key) (h.keys_eq ▸ h.distinct) hm

theorem mem_dependenciesIn (h : Resolves metadata declared mappers) {a b : MapperKey} :
    b ∈ Registry.dependenciesIn mappers a ↔ DependsOn mappers a b := by
  unfold Registry.dependenciesIn
  constructor
  · intro hb
    split at hb
    · rename_i m hfind
      exact ⟨m, List.mem_of_find?_eq_some hfind, by simpa using List.find?_some hfind,
        Mapper.mem_dependencies.mp hb⟩
    · simp at hb
  · rintro ⟨m, hm, rfl, hi⟩
    rw [h.find?_eq hm]
    exact Mapper.mem_dependencies.mpr hi

end Resolves

/-- The declarations resolve exactly when both steps of the registry succeed. -/
theorem resolves_iff {C : Type} {metadata : Metadata} {declared : List (MapperDeclaration C)}
    {mappers : List (Mapper C)} :
    Resolves metadata declared mappers ↔
      ∃ keys, Registry.declaredKeys metadata declared = .ok keys ∧
        declared.mapM (Registry.resolveMapper metadata keys) = .ok mappers := by
  constructor
  · intro h
    exact ⟨_, Registry.declaredKeys_eq_ok.mpr ⟨rfl, h.distinct, h.known⟩, mapM_eq_ok.mpr h.resolved⟩
  · rintro ⟨keys, hkeys, hmappers⟩
    obtain ⟨rfl, hdistinct, hknown⟩ := Registry.declaredKeys_eq_ok.mp hkeys
    exact ⟨hdistinct, hknown, mapM_eq_ok.mp hmappers⟩

end EntityMapping
