import EntityMapping.Proofs.Heights
import EntityMapping.Proofs.Reference
import EntityMapping.Proofs.Source.Following

/-! # Paths of items

A path leads along relations to single rows, and ends at the row itself, in a column or at the rows of one more
relation. If the entities on the way are known, then so is all that the plan of its item loads.
-/

namespace EntityMapping

variable {C : Type}

/-! ## Paths -/

/-- The entity of the rows that a value of this shape holds. -/
def SourceShape.target? : SourceShape → Option String
  | .scalar => none
  | .entity target | .sequence target => some target

/-- Where a path ends, by its shape: at the row itself, in a column, at one row or at many. -/
inductive Metadata.Ends (metadata : Metadata) (entity : String) : List String → SourceShape → Prop
  | here : Ends metadata entity [] (.entity entity)
  | column {path : List String} {last column : String} : metadata.Steps entity path last →
    metadata.Unrelated last column → (∃ e, metadata.entity? last = some e ∧ (e.column? column).isSome) →
    Ends metadata entity (path ++ [column]) .scalar
  | one {path : List String} {last segment : String} {r : Relation} :
    metadata.Steps entity path last → metadata.navigation last segment = .ok r →
    r.kind ≠ .hasMany → Ends metadata entity (path ++ [segment]) (.entity r.target)
  | many {path : List String} {last segment : String} {r : Relation} :
    metadata.Steps entity path last → metadata.navigation last segment = .ok r →
    r.kind = .hasMany → Ends metadata entity (path ++ [segment]) (.sequence r.target)

namespace Metadata

variable {metadata : Metadata}

theorem navigation_of_entity? {entity segment : String} {e : Entity} {r : Relation}
    (he : metadata.entity? entity = some e) :
    metadata.navigation entity segment = .ok r ↔ e.relation? segment = some r := by
  rw [navigation_eq_ok]
  simp [he]

theorem Ends.cons {entity segment : String} {r : Relation} {path : List String} {shape : SourceShape}
    (hr : metadata.navigation entity segment = .ok r) (hkind : r.kind ≠ .hasMany)
    (hknown : ∃ e, metadata.entity? r.target = some e) (hne : path ≠ [])
    (h : metadata.Ends r.target path shape) : metadata.Ends entity (segment :: path) shape := by
  cases h with
  | here => exact absurd rfl hne
  | column hsteps hunrelated hcolumn => exact .column (hsteps.cons hr hkind hknown) hunrelated hcolumn
  | one hsteps hr' hkind' => exact .one (hsteps.cons hr hkind hknown) hr' hkind'
  | many hsteps hr' hkind' => exact .many (hsteps.cons hr hkind hknown) hr' hkind'

theorem Ends.entity {entity target : String} {path : List String}
    (h : metadata.Ends entity path (.entity target)) :
    (path = [] ∧ entity = target) ∨ ∃ front segment last r, path = front ++ [segment] ∧
      metadata.Steps entity front last ∧ metadata.navigation last segment = .ok r ∧
      r.kind ≠ .hasMany ∧ r.target = target := by
  cases h with
  | here => exact Or.inl ⟨rfl, rfl⟩
  | one hsteps hr hkind => exact Or.inr ⟨_, _, _, _, rfl, hsteps, hr, hkind, rfl⟩

theorem Ends.steps {entity target : String} {path : List String} (h : metadata.Ends entity path (.entity target))
    (hknown : ∃ e, metadata.entity? target = some e) : metadata.Steps entity path target := by
  rcases h.entity with ⟨rfl, heq⟩ | ⟨_, _, _, r, rfl, hsteps, hr, hkind, htarget⟩
  · exact heq
  · exact htarget ▸ hsteps.concat hr hkind (htarget ▸ hknown)

theorem Ends.sequence {entity target : String} {path : List String}
    (h : metadata.Ends entity path (.sequence target)) :
    ∃ front segment last r, path = front ++ [segment] ∧ metadata.Steps entity front last ∧
      metadata.navigation last segment = .ok r ∧ r.kind = .hasMany ∧ r.target = target := by
  cases h with
  | many hsteps hr hkind => exact ⟨_, _, _, _, rfl, hsteps, hr, hkind, rfl⟩

theorem ends_of_ofMember {entity member : String} {e : Entity} (he : metadata.entity? entity = some e)
    {shape : SourceShape} (h : SourceShape.ofMember e member = .ok shape) :
    metadata.Ends entity [member] shape := by
  unfold SourceShape.ofMember at h
  split at h
  · rename_i r hr
    have hnavigation := (navigation_of_entity? he).mpr hr
    split at h <;> rename_i hkind <;> obtain rfl := Except.ok.inj h
    · exact .many (Steps.refl entity) hnavigation hkind
    · exact .one (Steps.refl entity) hnavigation (by simp [hkind])
    · exact .one (Steps.refl entity) hnavigation (by simp [hkind])
  · rename_i hnone
    split at h
    · rename_i hcolumn
      obtain rfl := Except.ok.inj h
      refine .column (Steps.refl entity) (fun r hr => ?_) ⟨e, he, hcolumn⟩
      rw [navigation_of_entity? he, hnone] at hr
      simp at hr
    · simp at h

theorem ofPath_cons_eq_ok {e : Entity} {segment : String} {rest : List String} (hne : rest ≠ [])
    {shape : SourceShape} : SourceShape.ofPath metadata e (segment :: rest) = .ok shape ↔
      ∃ r next, e.relation? segment = some r ∧ r.kind ≠ .hasMany ∧ metadata.entity? r.target = some next ∧
        SourceShape.ofPath metadata next rest = .ok shape := by
  obtain ⟨other, rest, rfl⟩ := List.exists_cons_of_ne_nil hne
  constructor
  · intro h
    unfold SourceShape.ofPath at h
    split at h
    · simp at h
    · rename_i r hr
      split at h
      · simp at h
      · rename_i hkind
        split at h
        · simp at h
        · rename_i next hnext
          exact ⟨r, next, hr, hkind, requireEntity_eq_ok.mp hnext, h⟩
  · rintro ⟨r, next, hr, hkind, hnext, h⟩
    simp only [SourceShape.ofPath, hr, if_neg hkind, requireEntity_eq_ok.mpr hnext]
    exact h

theorem ends_of_ofPath_of_ne_nil {entity : String} {e : Entity} (he : metadata.entity? entity = some e)
    {path : List String} (hne : path ≠ []) {shape : SourceShape}
    (h : SourceShape.ofPath metadata e path = .ok shape) : metadata.Ends entity path shape := by
  induction path generalizing entity e with
  | nil => exact absurd rfl hne
  | cons segment rest ih =>
    by_cases hrest : rest = []
    · subst hrest
      exact ends_of_ofMember he h
    · obtain ⟨r, next, hr, hkind, hnext, h⟩ := (ofPath_cons_eq_ok hrest).mp h
      exact .cons ((navigation_of_entity? he).mpr hr) hkind ⟨next, hnext⟩ hrest (ih hnext hrest h)

theorem ends_of_ofPath (hnamed : metadata.Named) {entity : String} {e : Entity}
    (he : metadata.entity? entity = some e) {path : List String} {shape : SourceShape}
    (h : SourceShape.ofPath metadata e path = .ok shape) : metadata.Ends entity path shape := by
  by_cases hnil : path = []
  · subst hnil
    obtain rfl := Except.ok.inj h
    exact hnamed _ _ he ▸ .here
  · exact ends_of_ofPath_of_ne_nil he hnil h

theorem entity?_of_entityAlong {entity last : String} {e declaring : Entity}
    (he : metadata.entity? entity = some e) {path : List String}
    (hsteps : metadata.Steps entity path last) (h : metadata.entityAlong e path = .ok declaring) :
    metadata.entity? last = some declaring := by
  induction path generalizing entity e with
  | nil =>
    obtain rfl : entity = last := hsteps
    exact Except.ok.inj h ▸ he
  | cons segment rest ih =>
    obtain ⟨r, hr, -, -, hrest⟩ := hsteps
    unfold entityAlong at h
    obtain ⟨r', hr', hbound⟩ := bind_eq_ok.mp h
    obtain ⟨next, hnext, halong⟩ := bind_eq_ok.mp hbound
    rw [requireRelation_eq_ok, ← navigation_of_entity? he, hr] at hr'
    obtain rfl := Except.ok.inj hr'
    exact ih (requireEntity_eq_ok.mp hnext) hrest halong

/-! ### Walking paths -/

theorem Steps.walkable_alongPath {entity last : String} {path : List String}
    (h : metadata.Steps entity path last) :
    ∀ p ∈ Include.pathsOf (Include.alongPath [] path), metadata.Walkable entity p := by
  intro p hp
  rcases Include.mem_pathsOf_alongPath.mp hp with ⟨hne, hfront⟩ | ⟨q, hq, rfl⟩
  · exact h.walkable_front hne hfront
  · cases hq

namespace Ends

variable {entity : String} {path : List String} {shape : SourceShape}

theorem exists_steps {segment : String} (h : metadata.Ends entity (path ++ [segment]) shape) :
    ∃ last, metadata.Steps entity path last := by
  generalize hconcat : path ++ [segment] = whole at h
  cases h with
  | here => simp at hconcat
  | column hsteps | one hsteps | many hsteps =>
    obtain ⟨rfl, -⟩ := List.append_inj' hconcat rfl
    exact ⟨_, hsteps⟩

theorem walkable (h : metadata.Ends entity path shape) {target : String} (htarget : shape.target? = some target)
    {rest : List String} (hrest : metadata.Walkable target rest) : metadata.Walkable entity (path ++ rest) := by
  cases h with
  | here =>
    obtain rfl := Option.some.inj htarget
    exact hrest
  | column => cases htarget
  | one hsteps hr | many hsteps hr =>
    obtain rfl := Option.some.inj htarget
    rw [List.append_assoc]
    exact hsteps.walkable (hrest.cons hr)

theorem walkable_alongPath (h : metadata.Ends entity path shape) {target : String}
    (htarget : shape.target? = some target) (hknown : ∃ e, metadata.entity? target = some e)
    {nested : List Include} (hnested : ∀ p ∈ Include.pathsOf nested, metadata.Walkable target p) :
    ∀ p ∈ Include.pathsOf (Include.alongPath nested path), metadata.Walkable entity p := by
  intro p hp
  rcases Include.mem_pathsOf_alongPath.mp hp with ⟨-, hfront⟩ | ⟨q, hq, rfl⟩
  · have hwhole := h.walkable htarget (Walkable.nil hknown)
    rw [List.append_nil] at hwhole
    exact hwhole.of_front hfront
  · exact h.walkable htarget (hnested q hq)

theorem walkable_pathIncludes (h : metadata.Ends entity path shape)
    (hknown : ∀ target, shape.target? = some target → ∃ e, metadata.entity? target = some e) :
    ∀ p ∈ Include.pathsOf (Item.pathIncludes path shape), metadata.Walkable entity p := by
  cases shape with
  | scalar =>
    cases h with
    | column hsteps =>
      unfold Item.pathIncludes
      rw [List.dropLast_concat]
      exact hsteps.walkable_alongPath
  | entity target | sequence target =>
    exact h.walkable_alongPath rfl (hknown target rfl) (by simp [Include.pathsOf])

end Ends

end Metadata

/-! ## Items -/

/-- An item that is fetched along the last relation of its path. -/
structure Item.FetchedBy (metadata : Metadata) (owner : MapperKey) (i : Item C) (path : List String)
    (segment : String) (relation : Relation) (dependency : MapperKey) (route : Route C) : Prop where
  source : i.source = .path (path ++ [segment])
  needs : i.dependency? = some dependency
  style : i.style.isFetch = true
  steps : ∃ declaring : Entity, metadata.Steps owner.source path declaring.name ∧
    metadata.navigation declaring.name segment = .ok relation ∧
    Item.Fetches metadata dependency path declaring relation route
  shape : i.sourceShape = .sequence dependency.source ↔ relation.kind = .hasMany
  target : relation.target = dependency.source

namespace Item

variable {metadata : Metadata} {owner : MapperKey} {i : Item C} {c : Commitments C}

theorem navigation?_concat {path : List String} {segment : String}
    (hsource : i.source = .path (path ++ [segment])) : i.navigation? = some (path, segment) := by
  unfold Item.navigation?
  rw [hsource]
  simp [Accessor.segments?]

theorem source_of_navigation? {path : List String} {segment : String}
    (h : i.navigation? = some (path, segment)) : i.source = .path (path ++ [segment]) := by
  unfold navigation? at h
  cases hsource : i.source with
  | computed =>
    rw [hsource] at h
    cases h
  | path whole =>
    rw [hsource, Accessor.segments?, Option.bind_some, Option.map_eq_some_iff] at h
    obtain ⟨last, hlast, heq⟩ := h
    obtain ⟨rfl, rfl⟩ := Prod.mk.inj heq
    rw [List.dropLast_append_getLast? last hlast]

theorem embedRoute_includes (i : Item C) (plan : Plan C) : (i.embedRoute plan).includes =
    match i.source.segments? with
    | some path => Include.alongPath plan.includes path
    | none => [] := by
  unfold embedRoute
  dsimp only
  split <;> rfl

theorem fetchedBy_of_fetchRoute (hnamed : metadata.Named) {path : List String} {last segment : String}
    {relation : Relation} {dependency : MapperKey} (hsource : i.source = .path (path ++ [segment]))
    (hdependency : i.dependency? = some dependency) (hstyle : i.style.isFetch = true)
    (hsteps : metadata.Steps owner.source path last)
    (hrelation : metadata.navigation last segment = .ok relation)
    (hshape : i.sourceShape = .sequence dependency.source ↔ relation.kind = .hasMany)
    (htarget : relation.target = dependency.source) {choice : Choice C}
    (h : i.fetchRoute owner dependency metadata = .ok choice) :
    i.FetchedBy metadata owner path segment relation dependency choice.route ∧
      choice.includes = Include.alongPath [] path := by
  obtain ⟨path', segment', root, declaring, relation', hnavigation, hroot, hdeclaring, hrelation',
    hfetches, hincludes⟩ := fetchRoute_eq_ok h
  rw [navigation?_concat hsource] at hnavigation
  obtain ⟨rfl, rfl⟩ := Prod.mk.inj (Option.some.inj hnavigation)
  have hlast := Metadata.entity?_of_entityAlong hroot hsteps hdeclaring
  rw [← Metadata.navigation_of_entity? hlast, hrelation] at hrelation'
  obtain rfl := Except.ok.inj hrelation'
  obtain rfl : declaring.name = last := hnamed _ _ hlast
  exact ⟨⟨hsource, hdependency, hstyle, ⟨declaring, hsteps, hrelation, hfetches⟩, hshape, htarget⟩, hincludes⟩

theorem exists_fetchedBy (hnamed : metadata.Named) {path : List String} (hsource : i.source = .path path)
    (hends : metadata.Ends owner.source path i.sourceShape) {dependency : MapperKey}
    (hdependency : i.dependency? = some dependency) (hstyle : i.style.isFetch = true) {choice : Choice C}
    (h : i.fetchRoute owner dependency metadata = .ok choice) :
    ∃ front segment relation, i.FetchedBy metadata owner front segment relation dependency choice.route ∧
      choice.includes = Include.alongPath [] front := by
  rcases dependency?_eq_some.mp hdependency with ⟨hshape, -⟩ | ⟨hshape, -⟩
  · rcases (hshape ▸ hends).entity with ⟨rfl, -⟩ | ⟨front, segment, _, r, rfl, hsteps, hr, hkind, htarget⟩
    -- The row itself is at the end of no relation, and fetching it was refused.
    · obtain ⟨path', segment', -, -, -, hnavigation, -⟩ := fetchRoute_eq_ok h
      unfold navigation? at hnavigation
      rw [hsource] at hnavigation
      cases hnavigation
    · refine ⟨front, segment, r, fetchedBy_of_fetchRoute hnamed hsource hdependency hstyle hsteps hr ?_ htarget h⟩
      simp [hshape, hkind]
  · obtain ⟨front, segment, _, r, rfl, hsteps, hr, hkind, htarget⟩ := (hshape ▸ hends).sequence
    refine ⟨front, segment, r, fetchedBy_of_fetchRoute hnamed hsource hdependency hstyle hsteps hr ?_ htarget h⟩
    simp [hshape, hkind]

theorem fetchRoute_of_choose {dependency : MapperKey} (hdependency : i.dependency? = some dependency)
    (hstyle : i.style.isFetch = true) {choice : Choice C} (h : i.choose owner metadata c = .ok choice) :
    i.fetchRoute owner dependency metadata = .ok choice := by
  cases chooses_of_choose h with
  | batch hbatch =>
    rw [hbatch] at hstyle
    cases hstyle
  | copy _ hunmapped =>
    rw [hunmapped] at hdependency
    cases hdependency
  | fetch _ hneeds _ hfetch =>
    obtain rfl := Option.some.inj (hdependency.symm.trans hneeds)
    exact hfetch
  | embed hinline =>
    rw [hinline] at hstyle
    cases hstyle

/-! ### What is loaded for an item -/

/-- The item reads a path that the metadata knows. If no mapper is applied to what is at its end, then that is
known, too. Nothing is said of computed values. -/
structure Charted (metadata : Metadata) (owner : MapperKey) (i : Item C) : Prop where
  ends : ∀ path, i.source = .path path → metadata.Ends owner.source path i.sourceShape
  known : ∀ path, i.source = .path path → i.dependency? = none →
    ∀ target, i.sourceShape.target? = some target → ∃ e, metadata.entity? target = some e
  batched : ∀ processor, i.style = .batch processor → i.dependency? = none

theorem target?_of_dependency? {dependency : MapperKey} (h : i.dependency? = some dependency) :
    i.sourceShape.target? = some dependency.source := by
  rcases dependency?_eq_some.mp h with ⟨hshape, -⟩ | ⟨hshape, -⟩ <;> rw [hshape] <;> rfl

theorem Charted.walkable_readingIncludes (h : i.Charted metadata owner) (hunmapped : i.dependency? = none) :
    ∀ p ∈ Include.pathsOf i.readingIncludes, metadata.Walkable owner.source p := by
  unfold readingIncludes
  cases hsource : i.source with
  | computed compute => simp [Accessor.segments?, Include.pathsOf]
  | path path => exact (h.ends path hsource).walkable_pathIncludes (h.known path hsource hunmapped)

/-- All that is loaded for an item can be walked, if what is loaded for embedded plans can. -/
theorem Charted.walkable_choose (h : i.Charted metadata owner)
    (hplans : ∀ key plan, c.plans.get? key = some plan → (∃ e, metadata.entity? key.source = some e) ∧
      ∀ p ∈ Include.pathsOf plan.includes, metadata.Walkable key.source p)
    {choice : Choice C} (hchoice : i.choose owner metadata c = .ok choice) :
    ∀ p ∈ Include.pathsOf choice.includes, metadata.Walkable owner.source p := by
  cases chooses_of_choose hchoice with
  | batch hstyle => exact h.walkable_readingIncludes (h.batched _ hstyle)
  | copy _ hunmapped => exact h.walkable_readingIncludes hunmapped
  | fetch _ _ _ hfetch =>
    obtain ⟨front, segment, -, -, -, hnavigation, -, -, -, -, hincludes⟩ := fetchRoute_eq_ok hfetch
    obtain ⟨last, hsteps⟩ := (h.ends _ (source_of_navigation? hnavigation)).exists_steps
    rw [hincludes]
    exact hsteps.walkable_alongPath
  | embed _ hdependency _ hplan =>
    obtain ⟨hknown, hwalk⟩ := hplans _ _ hplan
    rw [embedRoute_includes]
    cases hsource : i.source with
    | computed compute => simp [Accessor.segments?, Include.pathsOf]
    | path path => exact (h.ends path hsource).walkable_alongPath (target?_of_dependency? hdependency) hknown hwalk

theorem distinctAll_readingIncludes (i : Item C) : Include.DistinctAll i.readingIncludes := by
  unfold readingIncludes pathIncludes
  split
  · split <;> exact Include.distinctAll_alongPath (show Include.DistinctAll [] from trivial) _
  · trivial

/-- Nothing that is loaded for an item is named twice, if that is so of what is loaded for embedded plans. -/
theorem distinctAll_choose (hplans : ∀ key plan, c.plans.get? key = some plan → Include.DistinctAll plan.includes)
    {choice : Choice C} (hchoice : i.choose owner metadata c = .ok choice) : Include.DistinctAll choice.includes := by
  cases chooses_of_choose hchoice with
  | batch | copy => exact i.distinctAll_readingIncludes
  | fetch _ _ _ hfetch =>
    obtain ⟨front, segment, -, -, -, -, -, -, -, -, hincludes⟩ := fetchRoute_eq_ok hfetch
    rw [hincludes]
    exact Include.distinctAll_alongPath (show Include.DistinctAll [] from trivial) _
  | embed _ _ _ hplan =>
    rw [embedRoute_includes]
    split
    · exact Include.distinctAll_alongPath (hplans _ _ hplan) _
    · trivial

end Item

/-! ## Declarations -/

namespace Declaration

variable {metadata : Metadata} {owner : MapperKey} {registered : List MapperKey} {d : Declaration C} {i : Item C}

theorem ends_of_resolve (hnamed : metadata.Named) {path : List String} (hpath : d.accessor = .path path)
    (hunshaped : d.sourceShape = none) (h : d.resolve owner metadata registered = .ok i) :
    i.source = .path path ∧ metadata.Ends owner.source path i.sourceShape := by
  obtain ⟨component, sourceShape, destinationShape, hsource, -, rfl⟩ := resolve_eq_ok h
  unfold resolveSource at hsource
  rw [hunshaped, hpath] at hsource
  obtain ⟨e, he, hshape⟩ := bind_eq_ok.mp hsource
  exact ⟨hpath, Metadata.ends_of_ofPath hnamed (requireEntity_eq_ok.mp he) hshape⟩

theorem shape_of_unmapped (h : d.mapped = none) {component : String} {style : Style C} {source : SourceShape}
    {shape : DestinationShape} (hshape : d.resolveDestination component style source registered = .ok shape) :
    style.isFetch = false ∧ shape = .scalar (d.declared.getD .any) := by
  unfold resolveDestination at hshape
  rw [h] at hshape
  cases style with
  | fetch => simp at hshape
  | inline | batch => exact ⟨rfl, (Except.ok.inj hshape).symm⟩

theorem dependency?_of_unmapped (hmapped : d.mapped = none) (h : d.resolve owner metadata registered = .ok i) :
    i.dependency? = none ∧ i.style.isFetch = false := by
  obtain ⟨component, sourceShape, destinationShape, -, hdestination, rfl⟩ := resolve_eq_ok h
  obtain ⟨hunfetched, rfl⟩ := shape_of_unmapped hmapped hdestination
  refine ⟨?_, hunfetched⟩
  unfold Item.dependency?
  split <;> simp_all

theorem exists_dependency {destination : String} (hmapped : d.mapped = some destination)
    (h : d.resolve owner metadata registered = .ok i) :
    (∃ dependency, i.dependency? = some dependency) ∧ ∀ processor, i.style ≠ .batch processor := by
  obtain ⟨component, sourceShape, destinationShape, -, hdestination, rfl⟩ := resolve_eq_ok h
  unfold resolveDestination at hdestination
  rw [hmapped] at hdestination
  refine ⟨?_, fun processor hstyle => ?_⟩
  · split at hdestination
    · simp at hdestination
    · obtain ⟨_, -, hshape⟩ := bind_eq_ok.mp hdestination
      obtain rfl := Except.ok.inj hshape
      exact ⟨_, rfl⟩
    · obtain ⟨_, -, hshape⟩ := bind_eq_ok.mp hdestination
      obtain rfl := Except.ok.inj hshape
      exact ⟨_, rfl⟩
    all_goals simp_all
  · change d.style.getD .inline = .batch processor at hstyle
    rw [hstyle] at hdestination
    simp at hdestination

end Declaration

/-! ## Plans -/

namespace Commits

variable {metadata : Metadata} {c : Commitments C} {m : Mapper C} {entity : Entity}
  {foreignKeys : List String} {choices : List (Choice C)} {plan : Plan C}

theorem includes_eq (h : Commits metadata c m entity foreignKeys choices plan) :
    plan.includes = choices.foldl (fun is choice => Include.mergeAll is choice.includes) [] := by
  unfold Plan.includes
  rw [h.head_eq]

theorem forall₂_items (h : Commits metadata c m entity foreignKeys choices plan) :
    List.Forall₂ (fun i p => p.1 = .ofItem i ∧
      ∃ choice ∈ choices, i.choose m.key metadata c = .ok choice ∧ p.2 = choice.route)
      m.items plan.items := by
  rw [h.items_eq]
  have hchosen := h.chosen
  clear h
  generalize m.items = items at hchosen
  induction hchosen with
  | nil => exact List.Forall₂.nil
  | @cons i choice items choices hchoice _ ih =>
    refine List.Forall₂.cons ⟨rfl, choice, by simp, hchoice, rfl⟩ (ih.imp ?_)
    rintro j p ⟨hp, choice', hmem, hrest⟩
    exact ⟨hp, choice', List.mem_cons_of_mem _ hmem, hrest⟩

theorem exists_choose (h : Commits metadata c m entity foreignKeys choices plan) {choice : Choice C}
    (hmem : choice ∈ choices) : ∃ i ∈ m.items, i.choose m.key metadata c = .ok choice :=
  exists_of_forall₂_right h.chosen hmem

end Commits

namespace Committed

variable {metadata : Metadata} {registered : List MapperKey} {registrations : List (Registration C)}

theorem exists_entity (h : Committed metadata registered registrations) {key : MapperKey}
    {plan : Plan C} (hplan : (plansOf registrations).get? key = some plan) :
    ∃ e, metadata.entity? key.source = some e := by
  obtain ⟨r, hr, rfl, -⟩ := h.get?_plansOf.mp hplan
  obtain ⟨front, back, -, -, hcommit⟩ := h.exists_front hr
  obtain ⟨-, entity, foreignKeys, choices, hcommits⟩ := commit_eq_ok hcommit
  exact ⟨entity, hcommits.entity_eq⟩

theorem exists_choose (h : Committed metadata registered registrations) {r : Registration C}
    (hr : r ∈ registrations) {i : Item C} (hi : i ∈ r.mapper.items) :
    ∃ c choice, i.choose r.mapper.key metadata c = .ok choice := by
  obtain ⟨front, back, -, -, hcommit⟩ := h.exists_front hr
  obtain ⟨-, entity, foreignKeys, choices, hcommits⟩ := commit_eq_ok hcommit
  obtain ⟨choice, -, hchoice⟩ := exists_of_forall₂_left hcommits.chosen hi
  exact ⟨_, choice, hchoice⟩

/-- What holds of a plan, if it holds of all plans that it may embed, holds of every plan. -/
theorem forall_plans {Q : MapperKey → Plan C → Prop} (h : Committed metadata registered registrations)
    (hcommits : ∀ r ∈ registrations, ∀ (c : Commitments C) entity foreignKeys choices,
      (∀ key plan, c.plans.get? key = some plan →
        (∃ e, metadata.entity? key.source = some e) ∧ Q key plan) →
      Commits metadata c r.mapper entity foreignKeys choices r.plan → Q r.mapper.key r.plan)
    {key : MapperKey} {plan : Plan C} (hplan : (plansOf registrations).get? key = some plan) : Q key plan := by
  induction h generalizing key plan with
  | nil => cases hplan
  | @concat front m newPlan hfront hcommit ih =>
    have ih := fun {key plan} hplan =>
      @ih (fun r hr => hcommits r (List.mem_append_left _ hr)) key plan hplan
    rw [plansOf_concat, Dict.get?_set] at hplan
    split at hplan
    · rename_i heq
      obtain rfl : m.key = key := heq
      obtain rfl := Option.some.inj hplan
      obtain ⟨-, entity, foreignKeys, choices, hcommitted⟩ := commit_eq_ok hcommit
      exact hcommits ⟨m, newPlan⟩ (by simp) _ entity foreignKeys choices
        (fun _ _ hget => ⟨hfront.exists_entity hget, ih hget⟩) hcommitted
    · exact ih hplan

theorem forall_includes {Q : String → List Include → Prop} (hempty : ∀ entity, Q entity [])
    (hmerge : ∀ entity into is, Q entity into → Q entity is → Q entity (Include.mergeAll into is))
    (h : Committed metadata registered registrations)
    (hchoose : ∀ r ∈ registrations, ∀ i ∈ r.mapper.items, ∀ (c : Commitments C) choice,
      (∀ key plan, c.plans.get? key = some plan →
        (∃ e, metadata.entity? key.source = some e) ∧ Q key.source plan.includes) →
      i.choose r.mapper.key metadata c = .ok choice → Q r.mapper.key.source choice.includes)
    {key : MapperKey} {plan : Plan C} (hplan : (plansOf registrations).get? key = some plan) :
    Q key.source plan.includes := by
  refine h.forall_plans (Q := fun key plan => Q key.source plan.includes)
    (fun r hr c entity foreignKeys choices hplans hcommits => ?_) hplan
  rw [hcommits.includes_eq]
  refine List.foldlRecOn choices _ (hempty _) fun into hinto choice hmem => hmerge _ _ _ hinto ?_
  obtain ⟨i, hi, hchoice⟩ := hcommits.exists_choose hmem
  exact hchoose r hr i hi c choice hplans hchoice

theorem distinctAll_includes (h : Committed metadata registered registrations) {r : Registration C}
    (hr : r ∈ registrations) : Include.DistinctAll r.plan.includes :=
  h.forall_includes (Q := fun _ is => Include.DistinctAll is) (fun _ => trivial)
    (fun _ into is hinto his => Include.distinctAll_mergeAll is into his hinto)
    (fun _ _ _ _ _ _ hplans hchoice =>
      Item.distinctAll_choose (fun key plan hget => (hplans key plan hget).2) hchoice)
    (h.get?_plansOf.mpr ⟨r, hr, rfl, rfl⟩)

theorem walkable_includes (h : Committed metadata registered registrations)
    (hcharted : ∀ r ∈ registrations, ∀ i ∈ r.mapper.items, i.Charted metadata r.mapper.key) {r : Registration C}
    (hr : r ∈ registrations) : ∀ p ∈ Include.pathsOf r.plan.includes, metadata.Walkable r.mapper.key.source p := by
  refine h.forall_includes (Q := fun entity is => ∀ p ∈ Include.pathsOf is, metadata.Walkable entity p)
    (fun _ => by simp [Include.pathsOf]) (fun entity into is hinto his p hp => ?_)
    (fun r hr i hi c choice hplans hchoice => (hcharted r hr i hi).walkable_choose hplans hchoice)
    (h.get?_plansOf.mpr ⟨r, hr, rfl, rfl⟩)
  exact ((Include.mem_pathsOf_mergeAll _ _ _).mp hp).elim (hinto p) (his p)

end Committed

end EntityMapping
