import EntityMapping.Proofs.Charting
import EntityMapping.Proofs.Source.Attaching

/-! # Embedded rows

An item embeds what is at the end of its path: one row, or a list of rows. When a registry is built, the metadata
tells which of both it is, and loading a query attaches just that to its rows, whatever their fields held before.
So projecting rows along paths never fails, at any depth.
-/

namespace EntityMapping

variable {C : Type}

/-! ## What can be embedded -/

namespace Value

/-- Null, or a row of some kind. -/
inductive OneOf (kind : Row → Prop) : Value → Prop
  | null : OneOf kind .null
  | row {row : Row} : kind row → OneOf kind (.row row)

/-- Null, or a list of rows of some kind. -/
inductive ManyOf (kind : Row → Prop) : Value → Prop
  | null : ManyOf kind .null
  | list {rows : List Row} : (∀ row ∈ rows, kind row) → ManyOf kind (.list (rows.map .row))

variable {kind kind' : Row → Prop} {v : Value}

theorem OneOf.mono (h : v.OneOf kind) (himp : ∀ row, kind row → kind' row) : v.OneOf kind' := by
  cases h with
  | null => exact .null
  | row hrow => exact .row (himp _ hrow)

theorem manyOf_list_iff {elements : List Value} :
    (list elements).ManyOf kind ↔ ∀ element ∈ elements, ∃ row, element = .row row ∧ kind row := by
  constructor
  · intro h element helement
    cases h with
    | list hrows =>
      obtain ⟨row, hrow, rfl⟩ := List.mem_map.mp helement
      exact ⟨row, rfl, hrows row hrow⟩
  · intro h
    obtain ⟨rows, hrows⟩ := exists_forall₂ h
    obtain rfl : elements = rows.map .row := by
      rw [← List.forall₂_eq_eq_eq, List.forall₂_map_right_iff]
      exact hrows.imp fun _ _ hrow => hrow.1
    refine .list fun row hrow => ?_
    obtain ⟨next, heq, hnext⟩ := h _ (List.mem_map_of_mem hrow)
    exact Value.row.inj heq ▸ hnext

theorem ManyOf.mono (h : v.ManyOf kind) (himp : ∀ row, kind row → kind' row) : v.ManyOf kind' := by
  cases h with
  | null => exact .null
  | list hrows => exact .list fun row hrow => himp row (hrows row hrow)

end Value

mutual

/-- Every item of the plan finds what it needs in the row: an embedded plan null or a row that it fits in turn, and
a plan that is embedded for each row null or a list of rows that it fits. -/
def Plan.Fits : Plan C → Row → C → Prop
  | .mk _ items, row, ambient => itemsFit items row ambient

def itemsFit : List (Assignment C × Route C) → Row → C → Prop
  | [], _, _ => True
  | (_, route) :: rest, row, ambient => route.Fits row ambient ∧ itemsFit rest row ambient

def Route.Fits : Route C → Row → C → Prop
  | .copy source, row, ambient => ∃ v, source.evaluate row ambient = .ok v
  | .batch source _, row, ambient => ∃ v, source.evaluate row ambient = .ok v
  | .fetchOne _ _ _, _, _ => True
  | .fetchBack _ _ _, _, _ => True
  | .embed source plan, row, ambient =>
    ∃ v, source.evaluate row ambient = .ok v ∧ v.OneOf fun related => plan.Fits related ambient
  | .embedEach source plan, row, ambient =>
    ∃ v, source.evaluate row ambient = .ok v ∧ v.ManyOf fun related => plan.Fits related ambient

end

theorem itemsFit_iff {items : List (Assignment C × Route C)} {row : Row} {ambient : C} :
    itemsFit items row ambient ↔ ∀ p ∈ items, p.2.Fits row ambient := by
  induction items with
  | nil => simp [itemsFit]
  | cons p items ih =>
    unfold itemsFit
    rw [ih, List.forall_mem_cons]

theorem Plan.fits_iff {plan : Plan C} {row : Row} {ambient : C} :
    plan.Fits row ambient ↔ ∀ p ∈ plan.items, p.2.Fits row ambient := by
  obtain ⟨head, items⟩ := plan
  unfold Plan.Fits
  exact itemsFit_iff

mutual

theorem Plan.exists_project_iff : ∀ (plan : Plan C) (row : Row) (ambient : C),
    (∃ t, plan.project row ambient = .ok t) ↔ plan.Fits row ambient
  | .mk head items, row, ambient => by
    unfold Plan.project Plan.Fits
    rw [← exists_projectItems_iff items row ambient]
    simp [map_eq_ok]

theorem exists_projectItems_iff : ∀ (items : List (Assignment C × Route C)) (row : Row) (ambient : C),
    (∃ slots, projectItems items row ambient = .ok slots) ↔ itemsFit items row ambient
  | [], _, _ => by simp [projectItems, itemsFit]
  | (assignment, route) :: rest, row, ambient => by
    unfold itemsFit projectItems
    rw [← Route.exists_project_iff route assignment.item row ambient, ← exists_projectItems_iff rest row ambient]
    simp [bind_eq_ok, pure, Except.pure]

theorem Route.exists_project_iff : ∀ (route : Route C) (item : String) (row : Row) (ambient : C),
    (∃ slot, route.project item row ambient = .ok slot) ↔ route.Fits row ambient
  | .copy source, _, row, ambient => by
    unfold Route.project Route.Fits
    simp [map_eq_ok]
  | .batch source _, _, row, ambient => by
    unfold Route.project Route.Fits
    simp [map_eq_ok]
  | .fetchOne _ _ _, _, _, _ => by
    unfold Route.project Route.Fits
    simp
  | .fetchBack _ _ _, _, _, _ => by
    unfold Route.project Route.Fits
    simp
  | .embed source plan, item, row, ambient => by
    unfold Route.project Route.Fits
    have hplan := fun related => Plan.exists_project_iff plan related ambient
    constructor
    · rintro ⟨slot, h⟩
      obtain ⟨v, hv, h⟩ := bind_eq_ok.mp h
      refine ⟨v, hv, ?_⟩
      split at h
      · exact .null
      · obtain ⟨t, ht, -⟩ := bind_eq_ok.mp h
        exact .row ((hplan _).mp ⟨t, ht⟩)
      · cases h
    · rintro ⟨v, hv, hfits⟩
      cases hfits with
      | null => exact ⟨.embedded none, bind_eq_ok.mpr ⟨.null, hv, rfl⟩⟩
      | @row related hrelated =>
        obtain ⟨t, ht⟩ := (hplan related).mpr hrelated
        exact ⟨.embedded (some t), bind_eq_ok.mpr ⟨_, hv, bind_eq_ok.mpr ⟨t, ht, rfl⟩⟩⟩
  | .embedEach source plan, item, row, ambient => by
    unfold Route.project Route.Fits
    have hplan := fun related => Plan.exists_project_iff plan related ambient
    constructor
    · rintro ⟨slot, h⟩
      obtain ⟨v, hv, h⟩ := bind_eq_ok.mp h
      refine ⟨v, hv, ?_⟩
      split at h
      · exact .null
      · obtain ⟨ts, hts, -⟩ := bind_eq_ok.mp h
        refine Value.manyOf_list_iff.mpr fun element helement => ?_
        obtain ⟨t, -, ht⟩ := exists_of_forall₂_left (mapM_eq_ok.mp hts) helement
        split at ht
        · exact ⟨_, rfl, (hplan _).mp ⟨t, ht⟩⟩
        · cases ht
      · cases h
    · rintro ⟨v, hv, hfits⟩
      cases hfits with
      | null => exact ⟨.sequence none, bind_eq_ok.mpr ⟨.null, hv, rfl⟩⟩
      | @list rows hrows =>
        obtain ⟨ts, hts⟩ := exists_forall₂ fun related hrelated => (hplan related).mpr (hrows related hrelated)
        refine ⟨.sequence (some ts), bind_eq_ok.mpr ⟨_, hv, bind_eq_ok.mpr ⟨ts, mapM_eq_ok.mpr ?_, rfl⟩⟩⟩
        exact (List.forall₂_map_left_iff).mpr hts

end

/-! ## What is attached to rows -/

/-- A row of an entity that at least the relations of some includes are attached to, and none of them twice. -/
def Row.Extended (metadata : Metadata) (needed : List Include) (entity : String) (row : Row) : Prop :=
  ∃ e is before, metadata.entity? entity = some e ∧ Include.DistinctAll is ∧
    Include.pathsOf needed ⊆ Include.pathsOf is ∧ Attached (fun _ _ => True) metadata e is before row

theorem Source.relationValue_oneOf {kind : RelationKind} (hkind : kind ≠ .hasMany) (found : List Row) :
    (relationValue kind found).OneOf (· ∈ found) := by
  cases kind with
  | hasMany => exact absurd rfl hkind
  | belongsTo | hasOne =>
    cases found with
    | nil => exact .null
    | cons next rest => exact .row List.mem_cons_self

namespace Row.Extended

variable {metadata : Metadata} {needed nested : List Include} {entity last segment : String} {row : Row}
  {path : List String} {r : Relation}

theorem mono (h : row.Extended metadata needed entity) (hsub : Include.pathsOf nested ⊆ Include.pathsOf needed) :
    row.Extended metadata nested entity := by
  obtain ⟨e, is, before, he, hdistinct, hneeded, hattached⟩ := h
  exact ⟨e, is, before, he, hdistinct, List.Subset.trans hsub hneeded, hattached⟩

theorem value_relation {rest : List String}
    (h : row.Extended metadata (Include.alongPath nested (segment :: rest)) entity)
    (hr : metadata.navigation entity segment = .ok r) :
    ∃ found, row.value segment = Source.relationValue r.kind found ∧
      ∀ next ∈ found, next.Extended metadata (Include.alongPath nested rest) r.target := by
  obtain ⟨e, is, before, he, hdistinct, hneeded, hattached⟩ := h
  obtain ⟨inner, hmem, hsub⟩ := hdistinct.exists_mem_of_alongPath hneeded
  obtain ⟨front, back, rfl⟩ := List.append_of_mem hmem
  have hlast : segment ∉ back.map (·.relation) := by
    have hnodup := hdistinct.nodup
    rw [List.map_append, List.map_cons, List.nodup_middle, List.nodup_cons] at hnodup
    exact fun hback => hnodup.1 (List.mem_append_right _ hback)
  obtain ⟨r', target, found, hr', htarget, hvalue, hfound⟩ := hattached.exists_found rfl hlast
  obtain rfl := Option.some.inj (hr'.symm.trans ((Metadata.navigation_of_entity? he).mp hr))
  refine ⟨found, hvalue, fun next hnext => ?_⟩
  obtain ⟨origin, horigin⟩ := hfound next hnext
  exact ⟨target, inner, origin, htarget, hdistinct.distinct hmem, hsub, horigin⟩

theorem path_oneOf (hsteps : metadata.Steps entity path last)
    (h : row.Extended metadata (Include.alongPath nested path) entity) :
    (row.path path).OneOf fun next => next.Extended metadata nested last := by
  induction path generalizing entity row with
  | nil =>
    obtain rfl : entity = last := hsteps
    exact .row h
  | cons segment rest ih =>
    obtain ⟨r, hr, hkind, -, hrest⟩ := hsteps
    obtain ⟨found, hvalue, hfound⟩ := h.value_relation hr
    have hone := Source.relationValue_oneOf hkind found
    rw [← hvalue] at hone
    generalize heq : row.value segment = v at hone
    cases hone with
    | null =>
      rw [Row.path_of_value_null heq]
      exact .null
    | row hnext =>
      rw [Row.path_of_value_row heq]
      exact ih hrest (hfound _ hnext)

theorem path_manyOf (hsteps : metadata.Steps entity path last) (hr : metadata.navigation last segment = .ok r)
    (hkind : r.kind = .hasMany)
    (h : row.Extended metadata (Include.alongPath nested (path ++ [segment])) entity) :
    (row.path (path ++ [segment])).ManyOf fun next => next.Extended metadata nested r.target := by
  rw [Include.alongPath_append] at h
  have hone := h.path_oneOf hsteps
  rw [Row.path_concat, Row.columnAt_eq_match]
  generalize row.path path = v at hone
  cases hone with
  | null => exact .null
  | @row next hnext =>
    obtain ⟨found, hvalue, hfound⟩ := hnext.value_relation hr
    dsimp only
    rw [hvalue, hkind]
    exact .list hfound

end Row.Extended

theorem Source.after_fetch_extended {source : DataSource} {metadata : Metadata} {q : Query}
    (hdistinct : Include.DistinctAll q.includes) (l : Loading) :
    After (fetch source metadata q) l
      (either (fun rows _ => ∀ row ∈ rows, row.Extended metadata q.includes q.entity) fun _ _ => True) := by
  by_cases hnothing : q.matchesNothing = true
  · rw [fetch_of_matchesNothing hnothing, After.pure_iff, either_ok]
    simp
  · refine (attached_fetch source q (by simpa using hnothing) l).imp ?_ fun _ _ _ => trivial
    rintro rows l' ⟨e, loaded, he, -, hattached⟩ row hrow
    obtain ⟨before, -, hbefore⟩ := exists_of_forall₂_right hattached hrow
    exact ⟨e, q.includes, before, he, hdistinct, List.Subset.refl _, hbefore.mono fun _ _ _ => trivial⟩

/-! ## Plans that fit -/

/-- The item reads along a path whose shape the metadata gives. -/
structure Declaration.Pathed (d : Declaration C) : Prop where
  path : ∃ path, d.accessor = .path path
  unshaped : d.sourceShape = none

section Routes

variable {metadata : Metadata} {owner : MapperKey} {i : Item C} {ambient : C} {row : Row}

/-- A plan that is embedded fits every row that what it loads is attached to. -/
def FitsExtended (metadata : Metadata) (ambient : C) (key : MapperKey) (plan : Plan C) : Prop :=
  ∀ row : Row, row.Extended metadata plan.includes key.source → plan.Fits row ambient

namespace Item

theorem fits_embedRoute {path : List String} (hsource : i.source = .path path)
    (hends : metadata.Ends owner.source path i.sourceShape) {dependency : MapperKey}
    (hdependency : i.dependency? = some dependency) (hknown : ∃ e, metadata.entity? dependency.source = some e)
    {plan : Plan C} (hplan : FitsExtended metadata ambient dependency plan)
    (hrow : row.Extended metadata (i.embedRoute plan).includes owner.source) :
    (i.embedRoute plan).route.Fits row ambient := by
  rw [embedRoute_includes, hsource] at hrow
  replace hrow : row.Extended metadata (Include.alongPath plan.includes path) owner.source := hrow
  unfold embedRoute
  rw [hsource]
  rcases dependency?_eq_some.mp hdependency with ⟨hshape, hobject⟩ | ⟨hshape, hlist⟩
  · rw [hobject]
    unfold Route.Fits
    exact ⟨_, rfl, (hrow.path_oneOf ((hshape ▸ hends).steps hknown)).mono hplan⟩
  · obtain ⟨_, _, _, r, rfl, hsteps, hr, hkind, htarget⟩ := (hshape ▸ hends).sequence
    rw [hlist]
    unfold Route.Fits
    exact ⟨_, rfl, (hrow.path_manyOf hsteps hr hkind).mono fun next hnext => hplan next (htarget ▸ hnext)⟩

theorem fits_choose {c : Commitments C} {path : List String} (hsource : i.source = .path path)
    (hends : metadata.Ends owner.source path i.sourceShape)
    (hplans : ∀ key plan, c.plans.get? key = some plan →
      (∃ e, metadata.entity? key.source = some e) ∧ FitsExtended metadata ambient key plan)
    {choice : Choice C} (hchoice : i.choose owner metadata c = .ok choice)
    (hrow : row.Extended metadata choice.includes owner.source) : choice.route.Fits row ambient := by
  cases chooses_of_choose hchoice with
  | batch | copy =>
    unfold Route.Fits
    exact ⟨_, by rw [hsource]; rfl⟩
  | fetch _ _ _ hfetch =>
    obtain ⟨_, _, _, declaring, _, -, -, -, -, hfetches, -⟩ := fetchRoute_eq_ok hfetch
    generalize choice.route = route at hfetches
    cases hfetches <;> unfold Route.Fits <;> trivial
  | embed _ hdependency _ hplan =>
    exact fits_embedRoute hsource hends hdependency (hplans _ _ hplan).1 (hplans _ _ hplan).2 hrow

end Item

end Routes

namespace Registry

variable {config : Config} {declared : List (MapperDeclaration C)} {resolved : List (Mapper C)} {r : Registry C}

theorem Built.fits {metadata : Metadata} (h : Built metadata config declared resolved r) (hnamed : metadata.Named)
    (hpathed : ∀ d ∈ declared, ∀ i ∈ d.items, i.Pathed) (ambient : C) {a : Registration C}
    (ha : a ∈ r.registrations) : FitsExtended metadata ambient a.mapper.key a.plan := by
  refine h.committed.forall_plans (Q := FitsExtended metadata ambient) ?_
    (h.committed.get?_plansOf.mpr ⟨a, ha, rfl, rfl⟩)
  intro a ha c entity foreignKeys choices hplans hcommits row hrow
  refine Plan.fits_iff.mpr fun p hp => ?_
  have hitems := (List.forall₂_and_left _ _).mpr ⟨fun _ hi => hi, hcommits.forall₂_items⟩
  obtain ⟨i, -, hi, -, choice, hmem, hchoice, hroute⟩ := exists_of_forall₂_right hitems hp
  obtain ⟨d, hd, -, declaration, hdeclaration, hresolved⟩ := h.resolves.exists_resolved (h.mem a ha) hi
  obtain ⟨⟨path, hpath⟩, hunshaped⟩ := hpathed d hd declaration hdeclaration
  obtain ⟨hsource, hends⟩ := Declaration.ends_of_resolve hnamed hpath hunshaped hresolved
  rw [hroute]
  refine Item.fits_choose hsource hends hplans hchoice (hrow.mono fun q hq => ?_)
  rw [hcommits.includes_eq, Include.mem_pathsOf_foldl]
  exact Or.inr ⟨choice, hmem, hq⟩

theorem Built.after_fetch_fits {metadata : Metadata} (h : Built metadata config declared resolved r)
    (hnamed : metadata.Named) (hpathed : ∀ d ∈ declared, ∀ i ∈ d.items, i.Pathed) (source : DataSource) (ambient : C)
    {a : Registration C} (ha : a ∈ r.registrations) {q : Query} (hentity : q.entity = a.mapper.key.source)
    (hdistinct : Include.DistinctAll q.includes) (l : Loading) :
    After (Source.fetch source r.metadata (q.withIncludes a.plan.includes)) l
      (either (fun rows _ => ∀ row ∈ rows, a.plan.Fits row ambient) fun _ _ => True) := by
  rw [h.metadata_eq]
  have hmerged : Include.DistinctAll (q.withIncludes a.plan.includes).includes :=
    Include.distinctAll_mergeAll _ _ (h.committed.distinctAll_includes ha) hdistinct
  refine (Source.after_fetch_extended hmerged l).imp (fun rows _ hrows row hrow => ?_) fun _ _ _ => trivial
  refine h.fits hnamed hpathed ambient ha row (hentity ▸ (hrows row hrow).mono fun p hp => ?_)
  exact (Include.mem_pathsOf_mergeAll _ _ _).mpr (Or.inr hp)

/-- No pass has trouble with the rows that it projects, if all that is not such trouble is of the kind. -/
theorem Built.failsOnly_of_pathed {metadata : Metadata} (h : Built metadata config declared resolved r)
    (hnamed : metadata.Named) (hpathed : ∀ d ∈ declared, ∀ i ∈ d.items, i.Pathed) {P : Error → Prop}
    (hP : ∀ e : Error, e.kind ≠ "Projection" → (∀ cause, e.cause? = some cause → P cause) → P e)
    {source : DataSource} {ambient : C} (hcode : CodeRaises P r source ambient) {q : Query}
    (hdistinct : Include.DistinctAll q.includes) (destination : String) (heap : Heap) :
    FailsOnly P (r.map q destination source ambient heap).1 := by
  -- A name that is missing is not the failure of a projection.
  have hmissing : ∀ e : Error, e.isMissing = true → P e := by
    intro e he
    cases e with
    | unknownEntity | relationNotFound => exact hP _ (by simp [Error.kind]) fun _ hcause => by cases hcause
    | _ => cases he
  have hmild : Mild P := by
    intro e _ _ hunmet hcause
    refine hP e ?_ hcause
    cases e with
    | projection => cases hunmet
    | _ => simp [Error.kind]
  have hloads : ∀ a ∈ r.registrations, ∀ q : Query, q.entity = a.mapper.key.source →
      Include.DistinctAll q.includes → r.Loads P source ambient a q := by
    intro a ha q hentity hdistinct l
    apply ((failsOnly_fetch_of_missing hcode.source r.metadata hmissing _ l).and
      (h.after_fetch_fits hnamed hpathed source ambient ha hentity hdistinct l)).mono
    rintro loaded l' ⟨hloaded, hfits⟩
    refine ⟨hloaded, fun rows hrows row hrow => ?_⟩
    subst hrows
    obtain ⟨t, ht⟩ := (Plan.exists_project_iff a.plan row ambient).mpr (hfits row hrow)
    rw [ht]
    exact FailsOnly.ok t
  refine Confined.failsOnly_map ⟨hmild, h, hcode, fun _ _ _ _ _ _ => .inl fun _ _ => ?_,
    fun a ha q hentity hincludes => hloads a ha q hentity (hincludes ▸ trivial)⟩ ?_
    (fun a ha hkey => hloads a ha q (congrArg (·.source) hkey).symm hdistinct) heap
  all_goals exact hP _ (by simp [Error.kind]) fun _ hcause => by cases hcause

/-- Where all items read along paths whose shapes the metadata gives, whatever rows a source answers with: all that a
query loads for a mapper fits the mapper's plan, at every depth, and can be projected. So no pass fails with a
projection error, be it alone or as what another error is told with, unless the code of the declarations or the
source raises one. The query names no relation twice in one list, as no query does that was put together include
by include. -/
theorem paths_always_project {entities : List Entity} {logs : List LogRecord}
    (hbuild : ((build (.ofList entities) config declared).run.run logs).1 = .ok r)
    (hpathed : ∀ d ∈ declared, ∀ i ∈ d.items, i.Pathed) (q : Query) (hdistinct : Include.DistinctAll q.includes)
    (source : DataSource) (ambient : C) :
    (∀ a ∈ r.registrations, a.mapper.key.source = q.entity → ∀ l rows l',
      (Source.fetch source r.metadata (q.withIncludes a.plan.includes)).run.run l = (.ok rows, l') →
        ∀ row ∈ rows, a.plan.Fits row ambient ∧ ∃ t, a.plan.project row ambient = .ok t) ∧
    ∀ (destination : String) (heap : Heap),
      (CodeRaises (fun e => e.kind ≠ "Projection") r source ambient →
        FailsOnly (fun e => e.kind ≠ "Projection") (r.map q destination source ambient heap).1) ∧
      (CodeRaises (fun e => e.innermost.kind ≠ "Projection") r source ambient →
        FailsOnly (fun e => e.innermost.kind ≠ "Projection") (r.map q destination source ambient heap).1) := by
  obtain ⟨resolved, hbuilt⟩ := built_of_build hbuild
  have hnamed := Metadata.named_ofList entities
  refine ⟨fun a ha hentity l rows l' hfetch row hrow => ?_,
    fun destination heap => ⟨fun hcode => ?_, fun hcode => ?_⟩⟩
  · have hfits := (hbuilt.after_fetch_fits hnamed hpathed source ambient ha hentity.symm hdistinct l).of_run hfetch
    exact ⟨hfits row hrow, (Plan.exists_project_iff a.plan row ambient).mpr (hfits row hrow)⟩
  · exact hbuilt.failsOnly_of_pathed hnamed hpathed (fun _ he _ => he) hcode hdistinct destination heap
  · refine hbuilt.failsOnly_of_pathed hnamed hpathed (fun e he hcause => ?_) hcode hdistinct destination heap
    exact Error.innermost_induct (P := fun e => e.kind ≠ "Projection") he hcause

end Registry

/-! ## Forged rows -/

namespace Sample

/-- Orders belong to customers, who have addresses. -/
def delivering : Metadata := .ofList [
  ((Entity.new "Address").withKey "id" .int).withColumn "customer_id" .int,
  ((Entity.new "Customer").withKey "id" .int).withRelation
    ⟨"addresses", "Address", .hasMany, "customer_id", "id"⟩,
  (((Entity.new "Order").withKey "id" .int).withColumn "customer_id" .int).withRelation
    ⟨"customer", "Customer", .belongsTo, "customer_id", "id"⟩]

def delivered : List (MapperDeclaration Unit) := [
  ⟨⟨"Order", "OrderLabel"⟩, [{ destination := "customer", mapped := some "CustomerLabel" }], []⟩,
  ⟨⟨"Customer", "CustomerLabel"⟩, [{ destination := "addresses", mapped := some "AddressLabel" }], []⟩,
  ⟨⟨"Address", "AddressLabel"⟩, [{ destination := "id" }], []⟩]

theorem bare_delivered : ∀ d ∈ delivered,
    (∀ i ∈ d.items, i.Pathed ∧ i.transposer = none ∧ i.style = none) ∧ d.after = [] := by
  intro d hd
  simp only [delivered, List.mem_cons, List.not_mem_nil, or_false] at hd
  rcases hd with rfl | rfl | rfl <;>
  · refine ⟨fun i hi => ?_, rfl⟩
    obtain rfl := List.mem_singleton.mp hi
    exact ⟨⟨⟨_, rfl⟩, rfl⟩, rfl, rfl⟩

/-- Answers every load with the same two rows, whose relations are filled in already. -/
def forging : DataSource := ⟨fun _ _ _ => ⟨.ok [
  ⟨[("id", .int 1), ("customer_id", .int 1), ("customer", .string "Ada"), ("addresses", .bool true)]⟩,
  ⟨[("id", .string "x"), ("customer", .int 3)]⟩], [], []⟩⟩

theorem codeRaises_delivered {config : Config} {resolved : List (Mapper Unit)} {r : Registry Unit}
    (h : Registry.Built delivering config delivered resolved r) (P : Error → Prop) : CodeRaises P r forging () := by
  refine h.codeRaises (fun d hd i hi => ?_) (fun d hd hook hhook => ?_) fun _ _ _ => FailsOnly.ok _
  · obtain ⟨⟨⟨path, hpath⟩, -⟩, htransposer, hstyle⟩ := (bare_delivered d hd).1 i hi
    refine ⟨fun _ hcomputed => ?_, fun _ hf => ?_, fun _ hp => ?_⟩
    · cases hpath.symm.trans hcomputed
    · cases htransposer.symm.trans hf
    · cases hstyle.symm.trans hp
  · rw [(bare_delivered d hd).2] at hhook
    cases hhook

/-- The customer of the first order and the address of that customer are found nevertheless, and the second order
has no customer. -/
theorem forged_orders_project : ∃ (r : Registry Unit) (a : Registration Unit) (rows : List Row) (l' : Loading),
    ((Registry.build delivering {} delivered).run.run []).1 = .ok r ∧ a ∈ r.registrations ∧
      a.mapper.key = ⟨"Order", "OrderLabel"⟩ ∧
      (Source.fetch forging r.metadata ((Query.all "Order").withIncludes a.plan.includes)).run.run ⟨.empty, 0⟩ =
        (.ok rows, l') ∧
      rows.map (fun row => (row.path ["customer", "addresses"]).isNull) = [false, true] ∧
      (∀ row ∈ rows, a.plan.Fits row () ∧ ∃ t, a.plan.project row () = .ok t) ∧
      FailsOnly (fun e => e.kind ≠ "Projection") (r.map (Query.all "Order") "OrderLabel" forging () .empty).1 ∧
      FailsOnly (fun e => e.innermost.kind ≠ "Projection")
        (r.map (Query.all "Order") "OrderLabel" forging () .empty).1 := by
  have hran : (((Registry.build delivering {} delivered).run.run []).1.toOption.any fun r =>
      r.registrations.any fun a => a.mapper.key = ⟨"Order", "OrderLabel"⟩ &&
        ((Source.fetch forging r.metadata ((Query.all "Order").withIncludes a.plan.includes)).run.run
          ⟨.empty, 0⟩).1.toOption.any fun rows =>
            rows.map (fun row => (row.path ["customer", "addresses"]).isNull) = [false, true]) = true := by cbv
  obtain ⟨r, hbuild, hany⟩ := exists_ok_of_any hran
  obtain ⟨a, ha, hfetched⟩ := List.any_eq_true.mp hany
  rw [Bool.and_eq_true, decide_eq_true_iff] at hfetched
  obtain ⟨hkey, hfetched⟩ := hfetched
  obtain ⟨rows, hrows, hfound⟩ := exists_ok_of_any hfetched
  have hpathed : ∀ d ∈ delivered, ∀ i ∈ d.items, i.Pathed := fun d hd i hi => ((bare_delivered d hd).1 i hi).1
  obtain ⟨resolved, hbuilt⟩ := Registry.built_of_build hbuild
  have hcode := codeRaises_delivered hbuilt
  obtain ⟨hprojects, hpasses⟩ :=
    Registry.paths_always_project hbuild hpathed (Query.all "Order") trivial forging ()
  refine ⟨r, a, rows, _, hbuild, ha, hkey, Prod.ext hrows rfl, of_decide_eq_true hfound, ?_, ?_⟩
  · exact hprojects a ha (by rw [hkey]; rfl) _ _ _ (Prod.ext hrows rfl)
  · exact ⟨(hpasses _ _).1 (hcode _), (hpasses _ _).2 (hcode _)⟩

/-- The second time the customer is attached as the source gave it, and what it has for a list of addresses is none. -/
theorem twice_fails_to_project : ∃ (r : Registry Unit) (e : Error),
    ((Registry.build delivering {} delivered).run.run []).1 = .ok r ∧
      (∀ d ∈ delivered, ∀ i ∈ d.items, i.Pathed) ∧ (∀ P, CodeRaises P r forging ()) ∧
      (r.map customersTwice "OrderLabel" forging () .empty).1 = .error e ∧ e.kind = "Projection" := by
  have hran : (((Registry.build delivering {} delivered).run.run []).1.toOption.any fun r =>
      match (r.map customersTwice "OrderLabel" forging () .empty).1 with
      | .ok _ => false
      | .error e => e.kind = "Projection") = true := by cbv
  obtain ⟨r, hbuild, hfails⟩ := exists_ok_of_any hran
  obtain ⟨resolved, hbuilt⟩ := Registry.built_of_build hbuild
  refine ⟨r, ?_⟩
  cases hresult : (r.map customersTwice "OrderLabel" forging () .empty).1 with
  | ok mapped => simp [hresult] at hfails
  | error e =>
    rw [hresult] at hfails
    refine ⟨e, hbuild, fun d hd i hi => ((bare_delivered d hd).1 i hi).1, codeRaises_delivered hbuilt, rfl, ?_⟩
    exact of_decide_eq_true hfails

end Sample

end EntityMapping
