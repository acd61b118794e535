import EntityMapping.Proofs.Pass.Groups
import EntityMapping.Proofs.Pass.Safety
import EntityMapping.Proofs.Viewing
import EntityMapping.Proofs.WaveBound

/-! # Passes that raise only errors of a kind

If the code of the declarations and the source raise only errors of a kind, so does a pass: its mappers find the
slots and the fetchers that they need, and what a wave leaves in the queues can be worked off.
-/

namespace EntityMapping

variable {C α β : Type}

/-! ## Projecting -/

namespace Registry.Built

variable {P : Error → Prop} {metadata : Metadata} {config : Config}
  {declared : List (MapperDeclaration C)} {resolved : List (Mapper C)} {r : Registry C}
  {source : DataSource} {ambient : C} (h : Built metadata config declared resolved r)
  (hcode : CodeRaises P r source ambient)
  (hfound : ∀ item reason, (Error.projection item reason).isFault = false → P (.projection item reason))
  {a : Registration C} (ha : a ∈ r.registrations)
include hcode ha

theorem failsOnly_evaluate {i : Item C} (hi : i ∈ a.mapper.items) (row : Row) :
    FailsOnly P (i.source.evaluate row ambient) := by
  cases hsource : i.source with
  | path segments => exact FailsOnly.ok _
  | computed compute => exact hcode.accessor a.mapper (List.mem_map_of_mem ha) i hi compute hsource row

include h hfound

theorem failsOnly_route
    (hprojects : ∀ b ∈ r.registrations, DependsOn r.mappers a.mapper.key b.mapper.key →
      ∀ row, FailsOnly P (b.plan.project row ambient))
    {p : Assignment C × Route C} (hp : p ∈ a.plan.items) (name : String) (row : Row) :
    FailsOnly P (p.2.project name row ambient) := by
  have hembedded := fun (plan : Plan C) (hplan : p.2.embedded? = some plan) =>
    h.exists_embedded ha hp hplan
  obtain ⟨i, hi, -, hfollows⟩ := h.committed.follows ha hp
  -- What is found in the place of a row makes no fault.
  have hfound : ∀ {start found : String}, (start = "expected a row, found " ∨
      start = "expected a row element, found " ∨ start = "expected a list of rows, found ") →
      P (.projection name (start ++ found)) :=
    fun hstart => hfound _ _ (isFault_projection_found name _ hstart)
  obtain ⟨assignment, route⟩ := p
  cases route with
  | copy source =>
    obtain rfl : source = i.source := hfollows
    exact FailsOnly.map (failsOnly_evaluate hcode ha hi row)
  | batch source processor =>
    obtain rfl : source = i.source := hfollows.1
    exact FailsOnly.map (failsOnly_evaluate hcode ha hi row)
  | fetchOne | fetchBack => exact FailsOnly.ok _
  | embed source plan =>
    obtain rfl : source = i.source := hfollows
    obtain ⟨b, hb, hneeds, rfl⟩ := hembedded _ rfl
    refine FailsOnly.bind (failsOnly_evaluate hcode ha hi row) fun v _ => ?_
    split
    · exact FailsOnly.ok _
    · exact FailsOnly.bind (hprojects b hb hneeds _) fun _ _ => FailsOnly.ok _
    · exact (FailsOnly.error _).mpr (hfound (Or.inl rfl))
  | embedEach source plan =>
    obtain rfl : source = i.source := hfollows
    obtain ⟨b, hb, hneeds, rfl⟩ := hembedded _ rfl
    refine FailsOnly.bind (failsOnly_evaluate hcode ha hi row) fun v _ => ?_
    split
    · exact FailsOnly.ok _
    · refine FailsOnly.bind (FailsOnly.mapM fun element _ => ?_) fun _ _ => FailsOnly.ok _
      split
      · exact hprojects b hb hneeds _
      · exact (FailsOnly.error _).mpr (hfound (Or.inr (Or.inl rfl)))
    · exact (FailsOnly.error _).mpr (hfound (Or.inr (Or.inr rfl)))

theorem failsOnly_project (row : Row) : FailsOnly P (a.plan.project row ambient) := by
  revert row
  refine h.induct (P := fun a => ∀ row, FailsOnly P (a.plan.project row ambient))
    (fun a ha ih row => ?_) ha
  rw [Plan.project_eq]
  refine FailsOnly.map ?_
  have hparts := fun p (hp : p ∈ a.plan.items) => h.failsOnly_route hcode hfound ha ih hp
  generalize a.plan.items = items at hparts
  induction items with
  | nil => exact FailsOnly.ok _
  | cons p items ih =>
    unfold projectItems
    refine FailsOnly.bind (hparts p (by simp) _ row) fun _ _ => ?_
    exact FailsOnly.bind (ih fun q hq => hparts q (List.mem_cons_of_mem _ hq)) fun _ _ => FailsOnly.ok _

end Registry.Built

/-! ## Mapping -/

theorem mem_routesOf {registrations : List (Registration C)} {a : Registration C} (ha : a ∈ registrations)
    {p : Assignment C × Route C} (hp : p ∈ a.plan.items) : p.2 ∈ routesOf registrations :=
  List.mem_flatMap.mpr ⟨a, ha, List.mem_map_of_mem hp⟩

/-- What was loaded raises only errors of a kind, and so does projecting it. -/
structure Plan.Accepts (P : Error → Prop) (ambient : C) (plan : Plan C) (loaded : Except Error (List Row)) :
    Prop where
  fails : FailsOnly P loaded
  projects : ∀ rows, loaded = .ok rows → ∀ row ∈ rows, FailsOnly P (plan.project row ambient)

/-- A mapper accepts what is loaded for a query with all that the mapper includes. -/
def Registry.Loads (P : Error → Prop) (r : Registry C) (source : DataSource) (ambient : C) (a : Registration C)
    (q : Query) : Prop :=
  ∀ l, After (Source.fetch source r.metadata (q.withIncludes a.plan.includes)) l fun loaded _ =>
    a.plan.Accepts P ambient loaded

/-- Code that raises only errors of a kind, in a registry that was built. What its mappers load for themselves raises
no other errors, and neither does what its processors leave undone. -/
structure Confined (P : Error → Prop) (metadata : Metadata) (config : Config)
    (declared : List (MapperDeclaration C)) (resolved : List (Mapper C)) (r : Registry C)
    (source : DataSource) (ambient : C) : Prop where
  mild : Mild P
  built : Registry.Built metadata config declared resolved r
  code : CodeRaises P r source ambient
  serves : ∀ m ∈ r.mappers, ∀ i ∈ m.items, ∀ p, i.style = .batch p → p.Serves P ambient
  loads : ∀ a ∈ r.registrations, ∀ q : Query, q.entity = a.mapper.key.source → q.includes = [] →
    r.Loads P source ambient a q

namespace Confined

variable {P : Error → Prop} {metadata : Metadata} {config : Config}
  {declared : List (MapperDeclaration C)} {resolved : List (Mapper C)} {r : Registry C}
  {source : DataSource} {ambient : C} (h : Confined P metadata config declared resolved r source ambient)
  {a : Registration C} (ha : a ∈ r.registrations)
include h ha

theorem raises_assignment {p : Assignment C × Route C} (hp : p ∈ a.plan.items) :
    p.1.Raises P ambient := by
  obtain ⟨i, hi, hassignment, -⟩ := h.built.committed.follows ha hp
  rw [hassignment]
  exact fun f hf => h.code.transposer a.mapper (List.mem_map_of_mem ha) i hi f hf

/-- An item fills its field from a slot of its kind, if the mappers that it needs can be mapped by. -/
theorem safe_fill
    (hmaps : ∀ b ∈ r.registrations, DependsOn r.mappers a.mapper.key b.mapper.key → ∀ t : Transient,
      t.Conforms r.schemaOf b.plan.schema →
        Safe P (r.setting source ambient) (b.plan.map (r.setting source ambient) t))
    {p : Assignment C × Route C} (hp : p ∈ a.plan.items) {slot : Slot}
    (hslot : slot.Conforms r.schemaOf p.2.fieldKind) (o : ObjectRef) :
    Safe P (r.setting source ambient) (p.2.fill (r.setting source ambient) p.1 slot o) := by
  have hraises := h.raises_assignment ha hp
  have hembedded := fun (plan : Plan C) (hplan : p.2.embedded? = some plan) =>
    h.built.exists_embedded ha hp hplan
  obtain ⟨assignment, route⟩ := p
  cases route with
  | copy source => exact Safe.assign h.mild hraises _ _
  | batch source processor =>
    obtain ⟨i, hi, -, -, hstyle⟩ := h.built.committed.follows ha hp
    exact Safe.requestBatch h.mild hraises
      (h.code.processor a.mapper (List.mem_map_of_mem ha) i hi processor hstyle)
      (h.serves a.mapper (List.mem_map_of_mem ha) i hi processor hstyle) _ _
  | fetchOne path foreignKey target =>
    exact Safe.requestOne h.mild hraises
      (h.built.supplied.one _ _ _ (mem_routesOf ha hp)) _ _
  | fetchBack path relation fetcher =>
    exact Safe.requestBack h.mild hraises
      (h.built.supplied.back _ _ _ (mem_routesOf ha hp)) _ _
  | embed source plan =>
    -- An embedded plan belongs to a mapper that this one depends on.
    obtain ⟨b, hb, hneeds, rfl⟩ := hembedded _ rfl
    cases hslot with
    | noRow => exact Safe.assign h.mild hraises _ _
    | row hschema ht =>
      obtain rfl := Option.some.inj (hschema.symm.trans (h.built.schemaOf_eq hb))
      exact Safe.bind (hmaps b hb hneeds _ ht) fun _ => Safe.assign h.mild hraises _ _
  | embedEach source plan =>
    obtain ⟨b, hb, hneeds, rfl⟩ := hembedded _ rfl
    cases hslot with
    | noRows => exact Safe.pure _
    | rows hschema hts =>
      obtain rfl := Option.some.inj (hschema.symm.trans (h.built.schemaOf_eq hb))
      exact Safe.bind (Safe.mapM _ fun t ht => hmaps b hb hneeds t (hts t ht)) fun _ =>
        Safe.assign h.mild hraises _ _

theorem safe_fillItems
    (hmaps : ∀ b ∈ r.registrations, DependsOn r.mappers a.mapper.key b.mapper.key → ∀ t : Transient,
      t.Conforms r.schemaOf b.plan.schema →
        Safe P (r.setting source ambient) (b.plan.map (r.setting source ambient) t))
    {items : List (Assignment C × Route C)} (hitems : items ⊆ a.plan.items) {slots : List Slot}
    (hslots : List.Forall₂ (fun p slot => slot.Conforms r.schemaOf p.2.fieldKind) items slots)
    (o : ObjectRef) :
    Safe P (r.setting source ambient) (fillItems (r.setting source ambient) items slots o) := by
  induction hslots with
  | nil => exact Safe.pure _
  | @cons p slot items slots hslot _ ih =>
    obtain ⟨hp, hitems⟩ := List.cons_subset.mp hitems
    exact Safe.bind (h.safe_fill ha hmaps hp hslot o) fun _ =>
      Safe.bind Safe.record fun _ => ih hitems

theorem safe_map {t : Transient} (ht : t.Conforms r.schemaOf a.plan.schema) :
    Safe P (r.setting source ambient) (a.plan.map (r.setting source ambient) t) := by
  revert t
  refine h.built.induct (P := fun a => ∀ {t : Transient}, t.Conforms r.schemaOf a.plan.schema →
    Safe P (r.setting source ambient) (a.plan.map (r.setting source ambient) t))
    (fun a ha ih t ht => ?_) ha
  have hhooks : ∀ hook ∈ a.plan.head.after, ∀ o, (hook o ambient).Raises P := by
    rw [h.built.after_eq ha]
    exact h.code.hook a.mapper (List.mem_map_of_mem ha)
  have hslots : List.Forall₂ (fun p slot => slot.Conforms r.schemaOf p.2.fieldKind) a.plan.items
      (t.drop a.plan.head.carriers.length) := by
    have hdrop := List.forall₂_drop a.plan.head.carriers.length ht
    unfold Plan.schema at hdrop
    rw [List.drop_left' (by simp)] at hdrop
    rwa [List.forall₂_map_left_iff] at hdrop
  have hfill := fun o => h.safe_fillItems ha (fun b hb hneeds t ht => ih b hb hneeds ht)
    (List.Subset.refl a.plan.items) hslots o
  -- From here on only what was gathered of the plan matters.
  generalize a.plan = plan at hhooks hfill
  obtain ⟨head, items⟩ := plan
  unfold Plan.map
  refine Safe.bind (Safe.cached _ _) fun found => ?_
  split
  · exact Safe.pure _
  · refine Safe.bind (Safe.allocate _ _ _) fun o => ?_
    refine Safe.bind (hfill o) fun _ => ?_
    refine Safe.bind (Safe.defer fun hook hmem => hhooks hook hmem o) fun _ => ?_
    exact Safe.bind Safe.record fun _ => Safe.pure _

end Confined

/-! ## Resolving -/

namespace Confined

variable {P : Error → Prop} {metadata : Metadata} {config : Config}
  {declared : List (MapperDeclaration C)} {resolved : List (Mapper C)} {r : Registry C}
  {source : DataSource} {ambient : C} (h : Confined P metadata config declared resolved r source ambient)
  {a : Registration C} (ha : a ∈ r.registrations)
include h ha

theorem safe_materialize {q : Query} (hloads : r.Loads P source ambient a q) :
    Safe P (r.setting source ambient) (materialize (r.setting source ambient) a.plan q) := by
  unfold materialize
  dsimp only
  have hloaded : ∀ s : PassState C, After (ExceptT.adapt (.query a.plan.text) (PassM.loading
      (Source.fetch source r.metadata (q.withIncludes a.plan.includes))) : PassM C (List Row)) s fun loaded _ =>
      a.plan.Accepts P ambient loaded := by
    intro s
    rw [After.adapt_iff]
    refine After.mono (Q := fun loaded _ => a.plan.Accepts P ambient loaded)
      (hloads ⟨s.journal, s.stats.loads⟩) ?_
    rintro (e | rows) s' haccepts
    · refine ⟨(FailsOnly.error _).mpr (h.mild _ rfl rfl rfl fun cause hcause => ?_), nofun⟩
      obtain rfl := Option.some.inj hcause
      exact haccepts.fails e rfl
    · exact haccepts
  -- `R` carries from the loading to the projection that each of the rows projects.
  refine Safe.bind_of (R := fun rows => ∀ row ∈ rows, FailsOnly P (a.plan.project row ambient)) ?_ (fun s => ?_)
    fun rows hrows => ?_
  · refine Safe.of_same (fun s => ?_) fun s => (hloaded s).mono fun _ _ haccepts => haccepts.fails
    exact After.adapt_iff.mpr (PassM.same_loading (sameMarks_fetch _ _ _) s)
  · refine (hloaded s).mono ?_
    rintro (e | rows) s' haccepts
    · trivial
    · exact haccepts.projects rows rfl
  · refine Safe.ofExcept_bind (FailsOnly.mapM hrows) fun transients htransients => Safe.mapM _ fun t ht => ?_
    obtain ⟨row, -, hrow⟩ := exists_of_forall₂_right (mapM_eq_ok.mp htransients) ht
    exact Safe.bind (h.safe_map ha (h.built.conforms ha hrow)) fun _ => Safe.pure _

theorem safe_materializeByKeys (column : String) (keys : List Key) : Safe P (r.setting source ambient)
    (materialize (r.setting source ambient) a.plan ((Query.all a.plan.key.source).filterIn column keys)) :=
  h.safe_materialize ha (h.loads a ha _ (congrArg (·.source) (h.built.committed.key_eq ha)) rfl)

end Confined

/-! ## Waves -/

theorem Registry.failsOnly_of_unregistered {P : Error → Prop} {r : Registry C} {q : Query} {destination : String}
    (hroot : ⟨q.entity, destination⟩ ∉ r.order)
    (hmissing : P (.mapperNotFound (MapperKey.text ⟨q.entity, destination⟩)))
    (source : DataSource) (ambient : C) (heap : Heap) :
    FailsOnly P (r.map q destination source ambient heap).1 := by
  have hfind : r.find? ⟨q.entity, destination⟩ = none := by
    rw [Option.eq_none_iff_forall_ne_some]
    intro a hfind
    obtain ⟨ha, hkey⟩ := mem_of_find? hfind
    exact hroot (hkey ▸ List.mem_map_of_mem ha)
  have hpass : After (r.mapping q destination source ambient) (.initial heap)
      fun result _ => FailsOnly P result := by
    unfold mapping require
    rw [hfind]
    exact (FailsOnly.error _).mpr hmissing
  exact hpass

namespace Confined

variable {P : Error → Prop} {metadata : Metadata} {config : Config}
  {declared : List (MapperDeclaration C)} {resolved : List (Mapper C)} {r : Registry C}
  {source : DataSource} {ambient : C} (h : Confined P metadata config declared resolved r source ambient)
include h

theorem safe_resolveReverse {key : ReverseKey} {requests : List (KeyedRequest C)} (hne : requests ≠ [])
    (hrequests : ∀ q ∈ requests, (Request.reverse key q).Answerable P (r.setting source ambient)) :
    Safe P (r.setting source ambient) (resolveReverse (r.setting source ambient) key requests) := by
  unfold resolveReverse
  refine Safe.bind (Safe.beginGroup _ _) fun _ => ?_
  obtain ⟨q, hq⟩ := List.exists_mem_of_ne_nil _ hne
  obtain ⟨fetcher, hfetcher⟩ := Option.isSome_iff_exists.mp (hrequests q hq).1
  have hrequire : (r.setting source ambient).fetchers.requireReverse key = .ok fetcher := by
    unfold Fetchers.requireReverse
    rw [hfetcher]
  rw [hrequire]
  obtain ⟨hplan, -⟩ := h.built.supplied.reverse key fetcher hfetcher
  obtain ⟨a, ha, -, hplan⟩ := h.built.committed.get?_plansOf.mp hplan
  unfold ReverseFetcher.resolve
  refine Safe.ofExcept_bind (FailsOnly.ok _) fun f hf => ?_
  obtain rfl := Except.ok.inj hf
  refine Safe.bind Safe.record fun _ => Safe.bind (hplan ▸ h.safe_materializeByKeys ha _ _) fun mapped => ?_
  exact Safe.deliverEach h.mild (fun q hq => (hrequests q hq).2) _

theorem safe_resolveEntity {key : MapperKey} {requests : List (KeyedRequest C)} (hne : requests ≠ [])
    (hrequests : ∀ q ∈ requests, (Request.entity key q).Answerable P (r.setting source ambient)) :
    Safe P (r.setting source ambient) (resolveEntity (r.setting source ambient) key requests) := by
  unfold resolveEntity
  refine Safe.bind (Safe.beginGroup _ _) fun _ => ?_
  obtain ⟨q, hq⟩ := List.exists_mem_of_ne_nil _ hne
  obtain ⟨fetcher, hfetcher⟩ := Option.isSome_iff_exists.mp (hrequests q hq).1
  have hrequire : (r.setting source ambient).fetchers.requireEntity key = .ok fetcher := by
    unfold Fetchers.requireEntity
    rw [hfetcher]
  rw [hrequire]
  obtain ⟨hplan, -⟩ := h.built.supplied.entity key fetcher hfetcher
  obtain ⟨a, ha, -, hplan⟩ := h.built.committed.get?_plansOf.mp hplan
  unfold EntityFetcher.resolve
  refine Safe.ofExcept_bind (FailsOnly.ok _) fun f hf => ?_
  obtain rfl := Except.ok.inj hf
  refine Safe.bind Safe.record fun _ => Safe.bind (hplan ▸ h.safe_materializeByKeys ha _ _) fun mapped => ?_
  exact Safe.deliverEach h.mild (fun q hq => (hrequests q hq).2) _

theorem safe_resolveGroups {requests : List (Request C)}
    (hrequests : ∀ q ∈ requests, q.Answerable P (r.setting source ambient)) :
    Safe P (r.setting source ambient)
      (resolveGroups (r.setting source ambient) (Groups.ofList requests)) := by
  have hof := Groups.of_ofList requests
  unfold resolveGroups
  refine Safe.bind (Safe.forM _ fun e he => ?_) fun _ => ?_
  · exact h.safe_resolveReverse (hof.reverse.ne_nil he) fun q hq => hrequests _ (hof.mem_reverse he hq)
  refine Safe.bind (Safe.forM _ fun e he => ?_) fun _ => Safe.forM _ fun e he => ?_
  · exact h.safe_resolveEntity (hof.entity.ne_nil he) fun q hq => hrequests _ (hof.mem_entity he hq)
  · obtain ⟨⟨q, hq⟩, hfrom⟩ := Groups.fromRequests_ofList requests e he
    refine Safe.bind (Safe.beginGroup _ _) fun _ => ?_
    obtain ⟨hraises, hserves, -⟩ := hrequests _ hq
    refine Safe.resolveBatch h.mild hraises hserves fun q hq => ?_
    obtain ⟨p, -, hmem⟩ := hfrom q hq
    exact (hrequests _ hmem).2.2

theorem safe_runWave {requests : List (Request C)} {hooks : List (PendingHook C)}
    (hrequests : ∀ q ∈ requests, q.Answerable P (r.setting source ambient))
    (hhooks : ∀ pending ∈ hooks, (pending.hook pending.object ambient).Raises P) :
    Safe P (r.setting source ambient) (runWave (r.setting source ambient) requests hooks) := by
  unfold runWave
  refine Safe.bind (Safe.beginWave h.mild) fun wave => Safe.bind Safe.record fun _ => ?_
  refine Safe.bind (h.safe_resolveGroups hrequests) fun _ => ?_
  exact Safe.forM _ fun pending hpending => Safe.runHook (hhooks pending hpending)

theorem safe_drain (waves : Nat) :
    Safe P (r.setting source ambient) (drain (r.setting source ambient) waves) := by
  intro s hs
  apply (drain_keeps (I := Ready P (r.setting source ambient))
    (E := fun e s' => Ready P (r.setting source ambient) s' ∧ P e) ?_ ?_ waves hs).mono
  · rintro (e | _) s' hs'
    · exact ⟨hs'.1, (FailsOnly.error e).mpr hs'.2⟩
    · exact ⟨hs'.1, FailsOnly.ok _⟩
  · intro s hs
    have htaken : Ready P (r.setting source ambient) s.taken :=
      Ready.of_not_busy (by simp [PassState.Busy, PassState.taken])
    apply (h.safe_runWave hs.request hs.hook s.taken htaken).mono
    rintro (e | _) s' ⟨hs', hfails⟩
    · exact ⟨hs', (FailsOnly.error e).mp hfails⟩
    · exact hs'
  · exact fun s hs => ⟨hs, h.mild _ rfl rfl rfl fun _ h => by cases h⟩

theorem failsOnly_mapping {q : Query} {destination : String} (hroot : ⟨q.entity, destination⟩ ∈ r.order)
    (hloads : ∀ a ∈ r.registrations, a.mapper.key = ⟨q.entity, destination⟩ → r.Loads P source ambient a q)
    (heap : Heap) : FailsOnly P (r.map q destination source ambient heap).1 := by
  obtain ⟨a, ha, hfind, hkey⟩ := Registry.exists_find? hroot
  have hsafe : Safe P (r.setting source ambient) (r.mapping q destination source ambient) := by
    unfold Registry.mapping
    rw [Registry.require_eq_ok.mpr hfind]
    refine Safe.ofExcept_bind (FailsOnly.ok _) fun b hb => ?_
    obtain rfl := Except.ok.inj hb
    unfold Registry.mapBy
    refine Safe.bind (h.safe_materialize ha (hloads a ha hkey)) fun roots => ?_
    refine Safe.bind (h.safe_drain _) fun _ => ?_
    refine Safe.bind (fun s hs => ⟨hs, FailsOnly.ok s⟩) fun s => ?_
    exact Safe.bind Safe.record fun _ => Safe.pure _
  exact (hsafe (.initial heap) (Ready.of_not_busy (by simp [PassState.Busy, PassState.initial]))).2

/-- The same from any root, if the kind has the error about a root that is not registered. -/
theorem failsOnly_map {q : Query} {destination : String}
    (hmissing : P (.mapperNotFound (MapperKey.text ⟨q.entity, destination⟩)))
    (hloads : ∀ a ∈ r.registrations, a.mapper.key = ⟨q.entity, destination⟩ → r.Loads P source ambient a q)
    (heap : Heap) : FailsOnly P (r.map q destination source ambient heap).1 := by
  by_cases hroot : ⟨q.entity, destination⟩ ∈ r.order
  · exact h.failsOnly_mapping hroot hloads heap
  · exact Registry.failsOnly_of_unregistered hroot hmissing source ambient heap

end Confined

end EntityMapping
