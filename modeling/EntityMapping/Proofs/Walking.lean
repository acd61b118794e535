import EntityMapping.Proofs.Faults

/-! # Walks along paths

Four walks follow a path: the one that finds its shape, the one to the entity that declares its last segment, the
chain of includes that loads it and the one that reads it from a row. Along a path to single rows the first two
go by the same entities, and the chain names known relations only. The last one needs no metadata: it reads the
field of whatever row the front of the path leads to.
-/

namespace EntityMapping

namespace SourceShape

/-- The shape of the rows that a relation leads to. -/
def ofRelation (r : Relation) : SourceShape := if r.kind = .hasMany then .sequence r.target else .entity r.target

/-- A shape is the shape of a member: of a relation, or of a column that no relation hides. -/
theorem ofMember_eq_ok {e : Entity} {member : String} {shape : SourceShape} :
    ofMember e member = .ok shape ↔ (∃ r, e.relation? member = some r ∧ shape = ofRelation r) ∨
      (e.relation? member = none ∧ (e.column? member).isSome ∧ shape = .scalar) := by
  unfold ofMember
  cases hr : e.relation? member with
  | none =>
    by_cases hcolumn : (e.column? member).isSome
    · simp [hcolumn, eq_comm]
    · simp [hcolumn]
  | some r =>
    simp only [Option.some.injEq, exists_eq_left', reduceCtorEq, false_and, or_false, ofRelation]
    cases hkind : r.kind <;> exact ⟨fun h => (Except.ok.inj h).symm, fun h => congrArg Except.ok h.symm⟩

end SourceShape

namespace Metadata

variable {metadata : Metadata}

/-- All relations that the includes name are known, one below the other, and so are the entities that they lead
to. -/
def Resolves (metadata : Metadata) (entity : String) (is : List Include) : Prop :=
  ∀ p ∈ Include.pathsOf is, metadata.Walkable entity p

theorem Resolves.exists_target {entity segment : String} {e : Entity} (he : metadata.entity? entity = some e)
    {rest : List String} (h : metadata.Resolves entity (Include.alongPath [] (segment :: rest))) :
    ∃ r target, e.relation? segment = some r ∧ metadata.entity? r.target = some target ∧
      metadata.Resolves r.target (Include.alongPath [] rest) := by
  obtain ⟨r, hr, target, htarget⟩ := h [segment] (List.mem_append_left _ (Include.mem_paths.mpr (.inl rfl)))
  refine ⟨r, target, (navigation_of_entity? he).mp hr, htarget, fun p hp => ?_⟩
  obtain ⟨r', hr', hwalkable⟩ :=
    h (segment :: p) (List.mem_append_left _ (Include.mem_paths.mpr (.inr ⟨p, hp, rfl⟩)))
  obtain rfl := Except.ok.inj (hr.symm.trans hr')
  exact hwalkable

namespace Steps

variable {entity last segment : String} {path : List String} (h : metadata.Steps entity path last)
include h

theorem exists_entity {e : Entity} (he : metadata.entity? entity = some e) :
    ∃ owner, metadata.entity? last = some owner := by
  induction path generalizing entity e with
  | nil => exact h ▸ ⟨e, he⟩
  | cons segment rest ih =>
    obtain ⟨r, -, -, ⟨next, hnext⟩, hrest⟩ := h
    exact ih hrest hnext

theorem entityAlong_eq {e owner : Entity} (he : metadata.entity? entity = some e)
    (howner : metadata.entity? last = some owner) : metadata.entityAlong e path = .ok owner := by
  induction path generalizing entity e with
  | nil =>
    obtain rfl : entity = last := h
    exact congrArg Except.ok (Option.some.inj (he.symm.trans howner))
  | cons segment rest ih =>
    obtain ⟨r, hr, -, ⟨next, hnext⟩, hrest⟩ := h
    unfold entityAlong
    rw [requireRelation_eq_ok.mpr ((navigation_of_entity? he).mp hr)]
    change (metadata.requireEntity r.target >>= fun next => metadata.entityAlong next rest) = _
    rw [requireEntity_eq_ok.mpr hnext]
    exact ih hrest hnext

/-- The shape of a path is the shape that its last segment has where the front of the path leads. -/
theorem ofPath_concat {e owner : Entity} (he : metadata.entity? entity = some e)
    (howner : metadata.entity? last = some owner) {shape : SourceShape} :
    SourceShape.ofPath metadata e (path ++ [segment]) = .ok shape ↔
      SourceShape.ofMember owner segment = .ok shape := by
  induction path generalizing entity e with
  | nil =>
    obtain rfl : entity = last := h
    obtain rfl := Option.some.inj (he.symm.trans howner)
    rfl
  | cons other rest ih =>
    obtain ⟨r, hr, hkind, ⟨next, hnext⟩, hrest⟩ := h
    rw [← ih hrest hnext, List.cons_append, ofPath_cons_eq_ok (by simp)]
    rw [navigation_of_entity? he] at hr
    constructor
    · rintro ⟨r', next', hr', -, hnext', hshape⟩
      obtain rfl := Option.some.inj (hr.symm.trans hr')
      obtain rfl := Option.some.inj (hnext.symm.trans hnext')
      exact hshape
    · exact fun hshape => ⟨r, next, hr, hkind, hnext, hshape⟩

end Steps

end Metadata

/-! ## Loading along a path -/

/-- Rows of the entity fail to load with the includes only where the source fails. -/
def Metadata.Loadable (metadata : Metadata) (entity : String) (is : List Include) : Prop :=
  ∀ (source : DataSource) (P : Error → Prop),
    (∀ history e filter, FailsOnly P (source.reply history e filter).rows) →
    ∀ filter l, After (Source.fetch source metadata ⟨entity, filter, is⟩) l fun result _ => FailsOnly P result

section Loading

variable {metadata : Metadata} {entity : String} {e : Entity} (he : metadata.entity? entity = some e)
  {path : List String} (h : metadata.Resolves entity (Include.alongPath [] path))
include he h

theorem failsOnly_attachAll_alongPath {P : Error → Prop} {source : DataSource}
    (hsource : ∀ history e filter, FailsOnly P (source.reply history e filter).rows) (rows : List Row) (l : Loading) :
    After (Source.attachAll source metadata e rows (Include.alongPath [] path)) l fun result _ =>
      FailsOnly P result := by
  induction path generalizing entity e rows l with
  | nil => exact FailsOnly.ok _
  | cons segment rest ih =>
    obtain ⟨r, target, hr, htarget, hrest⟩ := h.exists_target he
    unfold Include.alongPath Source.attachAll Source.attach
    rw [After.bind_iff, requireRelation_eq_ok.mpr hr]
    apply After.ok_bind
    rw [requireEntity_eq_ok.mpr htarget]
    apply After.ok_bind
    dsimp only
    rw [After.bind_iff]
    apply (failsOnly_loadByKeys hsource target _ _ l).mono
    rintro (err | related) l₁ herr
    · exact (FailsOnly.error err).mpr (herr err rfl)
    rw [either_ok, After.bind_iff]
    apply (ih htarget hrest related l₁).mono
    rintro (err | related) l₂ herr
    · exact (FailsOnly.error err).mpr (herr err rfl)
    · exact FailsOnly.ok _

theorem Metadata.Resolves.loadable : metadata.Loadable entity (Include.alongPath [] path) := by
  intro source P hsource filter l
  unfold Source.fetch
  split
  · exact FailsOnly.ok _
  · rw [requireEntity_eq_ok.mpr he]
    apply After.ok_bind
    rw [After.bind_iff]
    apply (failsOnly_load hsource e filter l).mono
    rintro (err | rows) l₁ herr
    · exact (FailsOnly.error err).mpr (herr err rfl)
    · exact failsOnly_attachAll_alongPath he h hsource rows l₁

end Loading

theorem Item.exists_pathIncludes_eq (path : List String) (shape : SourceShape) :
    ∃ chain, Item.pathIncludes path shape = Include.alongPath [] chain := by
  cases shape with
  | scalar => exact ⟨path.dropLast, rfl⟩
  | entity | sequence => exact ⟨path, rfl⟩

/-! ## The walks together -/

/-- A path that has a shape leads to the entity that declares its last segment, and what is loaded for it resolves
if the target of its last segment is known. A row is read along it as its front is, and then at the last segment. -/
theorem Metadata.walks_agree (metadata : Metadata) :
    (∀ entity e front segment shape, metadata.requireEntity entity = .ok e →
      SourceShape.ofPath metadata e (front ++ [segment]) = .ok shape →
      (∃ owner, metadata.entityAlong e front = .ok owner ∧
        ((∃ r, owner.relation? segment = some r ∧ shape = .ofRelation r) ∨
          (owner.relation? segment = none ∧ (owner.column? segment).isSome ∧ shape = .scalar))) ∧
      metadata.Resolves entity (Include.alongPath [] front) ∧
      ((∀ target, shape.target? = some target → ∃ t, metadata.entity? target = some t) →
        metadata.Resolves entity (Item.pathIncludes (front ++ [segment]) shape) ∧
          metadata.Loadable entity (Item.pathIncludes (front ++ [segment]) shape))) ∧
    ∀ (row : Row) front column, row.columnAt front column = row.path (front ++ [column]) ∧
      row.path (front ++ [column]) =
        match row.path front with
        | .row next => Row.value next column
        | _ => .null := by
  refine ⟨fun entity e front segment shape he hshape => ?_, fun row front column => ?_⟩
  · have he := requireEntity_eq_ok.mp he
    have hends : metadata.Ends entity (front ++ [segment]) shape := ends_of_ofPath_of_ne_nil he (by simp) hshape
    obtain ⟨last, hsteps⟩ := hends.exists_steps
    obtain ⟨owner, howner⟩ := hsteps.exists_entity he
    have hmember := (hsteps.ofPath_concat he howner).mp hshape
    refine ⟨⟨owner, hsteps.entityAlong_eq he howner, SourceShape.ofMember_eq_ok.mp hmember⟩,
      hsteps.walkable_alongPath, fun hknown => ?_⟩
    have hresolves : metadata.Resolves entity (Item.pathIncludes (front ++ [segment]) shape) :=
      hends.walkable_pathIncludes hknown
    obtain ⟨chain, hchain⟩ := Item.exists_pathIncludes_eq (front ++ [segment]) shape
    refine ⟨hresolves, ?_⟩
    rw [hchain] at hresolves ⊢
    exact hresolves.loadable he
  · rw [Row.path_concat]
    exact ⟨rfl, Row.columnAt_eq_match row front column⟩

/-- The name of an order's customer is declared by customers, and loading it loads them. -/
theorem Sample.walks_of_orders : ∃ order owner, Sample.metadata.requireEntity "Order" = .ok order ∧
    SourceShape.ofPath Sample.metadata order ["customer", "name"] = .ok .scalar ∧
    Sample.metadata.entityAlong order ["customer"] = .ok owner ∧ (owner.column? "name").isSome ∧
    Sample.metadata.Loadable "Order" [.new "customer"] := by
  obtain ⟨⟨owner, halong, hdeclares⟩, -, hloads⟩ :=
    (Metadata.walks_agree Sample.metadata).1 "Order" _ ["customer"] "name" .scalar rfl rfl
  refine ⟨_, owner, rfl, rfl, halong, ?_, (hloads fun _ h => by cases h).2⟩
  rcases hdeclares with ⟨r, -, hshape⟩ | ⟨-, hcolumn, -⟩
  · unfold SourceShape.ofRelation at hshape
    split at hshape <;> cases hshape
  · exact hcolumn

end EntityMapping
