import EntityMapping.Proofs.Resolution
import Mathlib.Data.List.Induction

/-! # Committed mappers

A mapper is committed against the plans of the mappers before it. When these are all that its items need,
nothing can go wrong but a mistake in the declarations, and the plan follows the items one by one.
-/

namespace EntityMapping

variable {C : Type}

/-! ## Routes -/

/-- The mapper whose rows a route maps, now or later. -/
def Route.target? : Route C → Option MapperKey
  | .copy _ => none
  | .batch _ _ => none
  | .fetchOne _ _ target => some target
  | .fetchBack _ _ fetcher => some fetcher.mapper
  | .embed _ plan => some plan.key
  | .embedEach _ plan => some plan.key

/-- The plan that is part of a route. -/
def Route.embedded? : Route C → Option (Plan C)
  | .embed _ plan => some plan
  | .embedEach _ plan => some plan
  | _ => none

theorem Route.target?_of_embedded {route : Route C} {plan : Plan C}
    (h : route.embedded? = some plan) : route.target? = some plan.key := by
  cases route with
  | embed | embedEach =>
    obtain rfl := Option.some.inj h
    rfl
  | copy | batch | fetchOne | fetchBack => cases h

theorem requirePlan_eq_ok {c : Commitments C} {key : MapperKey} {plan : Plan C} :
    c.requirePlan key = .ok plan ↔ c.plans.get? key = some plan := by
  unfold Commitments.requirePlan
  split <;> simp_all

theorem uncommitted_requirePlan (c : Commitments C) (key : MapperKey) :
    FailsOnly (fun e => c.plans.contains key = false ∧ e = .notCommitted key.text)
      (c.requirePlan key) := by
  unfold Commitments.requirePlan
  split
  · exact FailsOnly.ok _
  · rename_i hnone
    simp [Dict.contains, hnone]

theorem mistake_requirePlan {c : Commitments C} {key : MapperKey}
    (h : c.plans.contains key = true) : FailsOnly Mistake (c.requirePlan key) :=
  (uncommitted_requirePlan c key).mono fun _ he => absurd (h.symm.trans he.1) (by simp)

theorem misnamed_entityAlong (metadata : Metadata) (e : Entity) (path : List String) :
    FailsOnly Misnamed (metadata.entityAlong e path) := by
  induction path generalizing e with
  | nil => exact FailsOnly.ok _
  | cons segment rest ih =>
    unfold Metadata.entityAlong
    refine FailsOnly.bind (misnamed_requireRelation _ _) fun r _ => ?_
    exact FailsOnly.bind (misnamed_requireEntity _ _) fun e _ => ih e

namespace Item

theorem misnamed_fetchOneRoute (i : Item C) (owner dependency : MapperKey) (metadata : Metadata)
    (path : List String) (relation : Relation) :
    FailsOnly Misnamed (i.fetchOneRoute owner dependency metadata path relation) := by
  unfold fetchOneRoute
  refine FailsOnly.bind (misnamed_requireEntity _ _) fun e _ => ?_
  refine FailsOnly.bind (misnamed_singlePrimaryKey _) fun primaryKey _ => ?_
  split
  · exact FailsOnly.ok _
  · simp [Misnamed, Mistake, Unclashing, Error.isConfiguration]

theorem misnamed_fetchRoute (i : Item C) (owner dependency : MapperKey) (metadata : Metadata) :
    FailsOnly Misnamed (i.fetchRoute owner dependency metadata) := by
  unfold fetchRoute
  split
  · simp [Misnamed, Mistake, Unclashing, Error.isConfiguration]
  · refine FailsOnly.bind (misnamed_requireEntity _ _) fun root _ => ?_
    refine FailsOnly.bind (misnamed_entityAlong _ _ _) fun declaring _ => ?_
    refine FailsOnly.bind (misnamed_requireRelation _ _) fun relation _ => ?_
    dsimp only
    split
    · exact FailsOnly.bind (misnamed_fetchOneRoute i owner dependency metadata _ relation) fun _ _ =>
        FailsOnly.ok _
    · exact FailsOnly.ok _
    · exact FailsOnly.ok _

/-- Choosing a route goes wrong by a wrong name, or since the mapper that the item needs is not
committed. -/
theorem failsOnly_choose (i : Item C) (owner : MapperKey) (metadata : Metadata) (c : Commitments C) :
    FailsOnly
      (fun e => Misnamed e ∨ ∃ key, i.dependency? = some key ∧ c.plans.contains key = false ∧
        e = .notCommitted key.text)
      (i.choose owner metadata c) := by
  unfold choose
  split
  · exact FailsOnly.ok _
  · exact FailsOnly.ok _
  · rename_i dependency hdependency _
    unfold mappedRoute
    split
    · split
      · exact (misnamed_fetchRoute i owner dependency metadata).mono fun _ he => .inl he
      · refine FailsOnly.map ((uncommitted_requirePlan c dependency).mono fun _ he => .inr ?_)
        exact ⟨dependency, hdependency, he⟩
    · simp [Misnamed, Mistake, Unclashing, Error.isConfiguration]

theorem mistake_choose (i : Item C) (owner : MapperKey) (metadata : Metadata) (c : Commitments C)
    (h : ∀ key, i.dependency? = some key → c.plans.contains key = true) :
    FailsOnly Mistake (i.choose owner metadata c) := by
  refine (failsOnly_choose i owner metadata c).mono ?_
  rintro e (he | ⟨key, hkey, hmissing, -⟩)
  · exact he.1
  · exact absurd ((h key hkey).symm.trans hmissing) (by simp)

theorem singlePrimaryKey_eq_ok {e : Entity} {column : String} :
    e.singlePrimaryKey = .ok column ↔ e.primaryKey = [column] := by
  unfold Entity.singlePrimaryKey
  split <;> simp_all

/-- How a fetched item is fetched. -/
inductive Fetches (metadata : Metadata) (dependency : MapperKey) (path : List String)
    (declaring : Entity) (relation : Relation) : Route C → Prop
  /-- The target is known by its own primary key. -/
  | one {target : Entity} : relation.kind = .belongsTo → metadata.entity? relation.target = some target →
    target.primaryKey = [relation.references] →
    Fetches metadata dependency path declaring relation
      (.fetchOne path relation.foreignKey dependency)
  /-- The targets hold a key of the declaring entity. -/
  | back : relation.kind ≠ .belongsTo →
    Fetches metadata dependency path declaring relation
      (.fetchBack path relation ⟨declaring.name, relation.name, dependency⟩)

theorem fetchRoute_eq_ok {i : Item C} {owner dependency : MapperKey} {metadata : Metadata}
    {choice : Choice C} (h : i.fetchRoute owner dependency metadata = .ok choice) :
    ∃ path segment root declaring relation, i.navigation? = some (path, segment) ∧
      metadata.entity? owner.source = some root ∧ metadata.entityAlong root path = .ok declaring ∧
      declaring.relation? segment = some relation ∧
      Fetches metadata dependency path declaring relation choice.route ∧
      choice.includes = Include.alongPath [] path := by
  unfold fetchRoute at h
  split at h
  · simp at h
  · rename_i path segment hnavigation
    obtain ⟨root, hroot, h⟩ := bind_eq_ok.mp h
    obtain ⟨declaring, hdeclaring, h⟩ := bind_eq_ok.mp h
    obtain ⟨relation, hrelation, h⟩ := bind_eq_ok.mp h
    refine ⟨path, segment, root, declaring, relation, hnavigation, requireEntity_eq_ok.mp hroot,
      hdeclaring, requireRelation_eq_ok.mp hrelation, ?_⟩
    dsimp only at h
    -- A belongs-to relation is fetched by the key of its target, the others by their foreign key.
    split at h
    · rename_i hkind
      obtain ⟨route, hroute, h⟩ := bind_eq_ok.mp h
      obtain rfl := Except.ok.inj h
      unfold fetchOneRoute at hroute
      obtain ⟨target, htarget, hroute⟩ := bind_eq_ok.mp hroute
      obtain ⟨primaryKey, hkey, hroute⟩ := bind_eq_ok.mp hroute
      split at hroute
      · rename_i heq
        obtain rfl := Except.ok.inj hroute
        exact ⟨Fetches.one hkind (requireEntity_eq_ok.mp htarget)
          (heq ▸ singlePrimaryKey_eq_ok.mp hkey), rfl⟩
      · simp at hroute
    · rename_i hkind
      obtain rfl := Except.ok.inj h
      exact ⟨Fetches.back (by simp [hkind]), rfl⟩
    · rename_i hkind
      obtain rfl := Except.ok.inj h
      exact ⟨Fetches.back (by simp [hkind]), rfl⟩

theorem target?_fetchRoute {i : Item C} {owner dependency : MapperKey} {metadata : Metadata}
    {choice : Choice C} (h : i.fetchRoute owner dependency metadata = .ok choice) :
    choice.route.target? = some dependency ∧ choice.route.embedded? = none := by
  obtain ⟨path, segment, root, declaring, relation, -, -, -, -, hfetches, -⟩ := fetchRoute_eq_ok h
  generalize choice.route = route at hfetches
  cases hfetches <;> exact ⟨rfl, rfl⟩

theorem embedded?_embedRoute (i : Item C) (plan : Plan C) :
    (i.embedRoute plan).route.target? = some plan.key ∧
      (i.embedRoute plan).route.embedded? = some plan := by
  unfold embedRoute
  dsimp only
  split <;> exact ⟨rfl, rfl⟩

/-- How an item gets its route: by what it needs and by its style. -/
inductive Chooses (i : Item C) (owner : MapperKey) (metadata : Metadata) (c : Commitments C) : Choice C → Prop
  | batch {processor : Processor C} : i.style = .batch processor →
    Chooses i owner metadata c ⟨.batch i.source processor, i.readingIncludes⟩
  | copy : (∀ processor, i.style ≠ .batch processor) → i.dependency? = none →
    Chooses i owner metadata c ⟨.copy i.source, i.readingIncludes⟩
  | fetch {dependency : MapperKey} {choice : Choice C} : i.style = .fetch →
    i.dependency? = some dependency → dependency ∈ c.registered →
    i.fetchRoute owner dependency metadata = .ok choice → Chooses i owner metadata c choice
  | embed {dependency : MapperKey} {plan : Plan C} : i.style = .inline →
    i.dependency? = some dependency → dependency ∈ c.registered →
    c.plans.get? dependency = some plan → Chooses i owner metadata c (i.embedRoute plan)

theorem chooses_of_choose {i : Item C} {owner : MapperKey} {metadata : Metadata} {c : Commitments C}
    {choice : Choice C} (h : i.choose owner metadata c = .ok choice) : i.Chooses owner metadata c choice := by
  unfold choose at h
  split at h
  · rename_i processor hstyle
    obtain rfl := Except.ok.inj h
    exact .batch hstyle
  · rename_i hunmapped hunbatched
    obtain rfl := Except.ok.inj h
    exact .copy hunbatched hunmapped
  · rename_i dependency hdependency hunbatched
    unfold mappedRoute at h
    split at h
    · rename_i hmem
      split at h
      · rename_i hstyle
        exact .fetch hstyle hdependency hmem h
      · rename_i hunfetched
        obtain ⟨plan, hplan, rfl⟩ := map_eq_ok.mp h
        refine .embed ?_ hdependency hmem (requirePlan_eq_ok.mp hplan)
        cases hstyle : i.style with
        | inline => rfl
        | fetch => exact absurd hstyle hunfetched
        | batch processor => exact absurd hstyle (hunbatched processor)
    · cases h

end Item

/-- The route of an item leads to the mapper that the item needs; a plan that is part of it is the one
committed for that mapper. -/
theorem target?_choose {i : Item C} {owner : MapperKey} {metadata : Metadata} {c : Commitments C}
    {choice : Choice C} (h : i.choose owner metadata c = .ok choice) :
    (∀ plan, choice.route.embedded? = some plan →
      ∃ key, i.dependency? = some key ∧ key ∈ c.registered ∧ c.plans.get? key = some plan) ∧
    (choice.route.embedded? = none → ∀ key, choice.route.target? = some key →
      i.dependency? = some key ∧ key ∈ c.registered) := by
  cases Item.chooses_of_choose h with
  | batch | copy => exact ⟨by simp [Route.embedded?], by simp [Route.target?]⟩
  | fetch _ hdependency hmem hfetch =>
    obtain ⟨htarget, hembedded⟩ := Item.target?_fetchRoute hfetch
    refine ⟨fun plan hplan => ?_, fun _ key hkey => ?_⟩
    · rw [hembedded] at hplan
      simp at hplan
    · rw [htarget] at hkey
      obtain rfl := Option.some.inj hkey
      exact ⟨hdependency, hmem⟩
  | @embed dependency plan _ hdependency hmem hplan =>
    obtain ⟨-, hembedded⟩ := Item.embedded?_embedRoute i plan
    rw [hembedded]
    refine ⟨fun p hp => ?_, fun hnone => absurd hnone (by simp)⟩
    obtain rfl := Option.some.inj hp
    exact ⟨dependency, hdependency, hmem, hplan⟩

/-! ## Plans -/

theorem mistake_addName (owner : MapperKey) (names : List String) (name : String) :
    FailsOnly Mistake (Layout.addName owner names name) := by
  unfold Layout.addName
  split
  · simp [Mistake, Error.isConfiguration]
  · exact FailsOnly.ok _

theorem mistake_addCarrier (owner : MapperKey) (l : Layout C) (column : String) :
    FailsOnly Mistake (Layout.addCarrier owner l column) := by
  unfold Layout.addCarrier
  exact FailsOnly.map (mistake_addName _ _ _)

/-- Once the mappers that it needs are committed and it is not, a mapper can be committed, or there is
a mistake. -/
theorem mistake_commit (m : Mapper C) (metadata : Metadata) (c : Commitments C)
    (hnew : c.plans.contains m.key = false)
    (h : ∀ i ∈ m.items, ∀ key, i.dependency? = some key → c.plans.contains key = true) :
    FailsOnly Mistake (m.commit metadata c) := by
  unfold Mapper.commit
  rw [hnew, if_neg (by simp)]
  refine FailsOnly.bind (misnamed_requireEntity _ _).mistake fun entity _ => ?_
  refine FailsOnly.bind (FailsOnly.foldlM _ fun _ _ l => mistake_addCarrier _ l _) fun l₁ _ => ?_
  refine FailsOnly.bind (FailsOnly.map (misnamed_requireEntity _ _).mistake) fun allKeys _ => ?_
  refine FailsOnly.bind (FailsOnly.foldlM _ fun _ _ l => mistake_addCarrier _ l _) fun l₂ _ => ?_
  refine FailsOnly.bind (FailsOnly.foldlM _ fun i hi l => ?_) fun _ _ => FailsOnly.ok _
  unfold Layout.addItem
  refine FailsOnly.bind (Item.mistake_choose i m.key metadata c (h i hi)) fun choice _ => ?_
  exact FailsOnly.bind (mistake_addName _ _ _) fun _ _ => FailsOnly.ok _

theorem foldlM_addCarrier {owner : MapperKey} {columns : List String} {l l' : Layout C}
    (h : columns.foldlM (Layout.addCarrier owner) l = .ok l') :
    l'.items = l.items ∧ l'.includes = l.includes := by
  refine foldlM_induct (fun _ l' => l'.items = l.items ∧ l'.includes = l.includes) ?_ ⟨rfl, rfl⟩ h
  rintro front column l₁ l₂ hl₁ hadd
  unfold Layout.addCarrier at hadd
  obtain ⟨names, -, rfl⟩ := map_eq_ok.mp hadd
  exact hl₁

theorem foldlM_addItem {owner : MapperKey} {metadata : Metadata} {c : Commitments C}
    {items : List (Item C)} {l l' : Layout C}
    (h : items.foldlM (Layout.addItem owner metadata c) l = .ok l') :
    ∃ choices, List.Forall₂ (fun i choice => i.choose owner metadata c = .ok choice) items choices ∧
      l'.items = l.items ++ List.zipWith (fun i choice => (.ofItem i, choice.route)) items choices ∧
      l'.includes =
        choices.foldl (fun includes choice => Include.mergeAll includes choice.includes) l.includes := by
  induction items generalizing l with
  | nil =>
    obtain rfl := Except.ok.inj h
    exact ⟨[], List.Forall₂.nil, by simp, rfl⟩
  | cons i items ih =>
    rw [List.foldlM_cons] at h
    obtain ⟨l₁, hadd, h⟩ := bind_eq_ok.mp h
    unfold Layout.addItem at hadd
    obtain ⟨choice, hchoice, hadd⟩ := bind_eq_ok.mp hadd
    obtain ⟨names, -, hadd⟩ := bind_eq_ok.mp hadd
    obtain rfl := Except.ok.inj hadd
    obtain ⟨choices, hchoices, hitems, hincludes⟩ := ih h
    exact ⟨choice :: choices, List.Forall₂.cons hchoice hchoices, by simp [hitems], hincludes⟩

/-- What a plan takes from its mapper. -/
structure Commits (metadata : Metadata) (c : Commitments C) (m : Mapper C) (entity : Entity)
    (foreignKeys : List String) (choices : List (Choice C)) (plan : Plan C) : Prop where
  entity_eq : metadata.entity? m.key.source = some entity
  foreignKeys_eq : ∃ allKeys, metadata.foreignKeysOn m.key.source = .ok allKeys ∧
    foreignKeys = allKeys.filter (· ∉ entity.primaryKey)
  chosen : List.Forall₂ (fun i choice => i.choose m.key metadata c = .ok choice) m.items choices
  items_eq : plan.items = List.zipWith (fun i choice => (.ofItem i, choice.route)) m.items choices
  head_eq : plan.head = ⟨m.key, entity.primaryKey, foreignKeys,
    choices.foldl (fun includes choice => Include.mergeAll includes choice.includes) [], m.after⟩

theorem layouts_of_commit {m : Mapper C} {metadata : Metadata} {c : Commitments C} {plan : Plan C}
    (h : m.commit metadata c = .ok plan) :
    c.plans.contains m.key = false ∧ ∃ entity allKeys l₁ l₂ l₃,
      metadata.entity? m.key.source = some entity ∧ metadata.foreignKeysOn m.key.source = .ok allKeys ∧
      entity.primaryKey.foldlM (Layout.addCarrier m.key) Layout.empty = .ok l₁ ∧
      (allKeys.filter (· ∉ entity.primaryKey)).foldlM (Layout.addCarrier m.key) l₁ = .ok l₂ ∧
      m.items.foldlM (Layout.addItem m.key metadata c) l₂ = .ok l₃ ∧
      plan = .mk ⟨m.key, entity.primaryKey, allKeys.filter (· ∉ entity.primaryKey), l₃.includes, m.after⟩
        l₃.items := by
  unfold Mapper.commit at h
  split at h
  · cases h
  · rename_i hnew
    obtain ⟨entity, hentity, h⟩ := bind_eq_ok.mp h
    obtain ⟨l₁, hl₁, h⟩ := bind_eq_ok.mp h
    obtain ⟨allKeys, hkeys, h⟩ := bind_eq_ok.mp h
    obtain ⟨l₂, hl₂, h⟩ := bind_eq_ok.mp h
    obtain ⟨l₃, hl₃, h⟩ := bind_eq_ok.mp h
    exact ⟨by simpa using hnew, entity, allKeys, l₁, l₂, l₃, requireEntity_eq_ok.mp hentity, hkeys, hl₁, hl₂,
      hl₃, (Except.ok.inj h).symm⟩

theorem commit_eq_ok {m : Mapper C} {metadata : Metadata} {c : Commitments C} {plan : Plan C}
    (h : m.commit metadata c = .ok plan) :
    c.plans.contains m.key = false ∧
      ∃ entity foreignKeys choices, Commits metadata c m entity foreignKeys choices plan := by
  obtain ⟨hnew, entity, allKeys, l₁, l₂, l₃, hentity, hkeys, hl₁, hl₂, hl₃, rfl⟩ := layouts_of_commit h
  obtain ⟨choices, hchosen, hitems, hincludes⟩ := foldlM_addItem hl₃
  have h₁ := foldlM_addCarrier hl₁
  have h₂ := foldlM_addCarrier hl₂
  rw [h₂.1, h₁.1] at hitems
  rw [h₂.2, h₁.2] at hincludes
  refine ⟨hnew, entity, _, choices, hentity, ⟨allKeys, hkeys, rfl⟩, hchosen, hitems, ?_⟩
  unfold Plan.head
  rw [hincludes]
  rfl

namespace Commits

variable {metadata : Metadata} {c : Commitments C} {m : Mapper C} {entity : Entity}
  {foreignKeys : List String} {choices : List (Choice C)} {plan : Plan C}

theorem key_eq (h : Commits metadata c m entity foreignKeys choices plan) : plan.key = m.key := by
  unfold Plan.key
  rw [h.head_eq]

theorem mem_carriers (h : Commits metadata c m entity foreignKeys choices plan) {column : String}
    (hcolumn : column ∈ plan.head.carriers) : column ∈ entity.primaryKey ∨
      ∃ columns, metadata.foreignKeysOn m.key.source = .ok columns ∧ column ∈ columns := by
  obtain ⟨allKeys, hallKeys, rfl⟩ := h.foreignKeys_eq
  rw [PlanHead.carriers, h.head_eq] at hcolumn
  exact (List.mem_append.mp hcolumn).imp_right fun hmem => ⟨allKeys, hallKeys, List.mem_of_mem_filter hmem⟩

theorem exists_item (h : Commits metadata c m entity foreignKeys choices plan)
    {a : Assignment C} {route : Route C} (hmem : (a, route) ∈ plan.items) :
    ∃ i ∈ m.items, a = .ofItem i ∧
      ∃ choice, i.choose m.key metadata c = .ok choice ∧ choice.route = route := by
  rw [h.items_eq, ← List.map_uncurry_zip_eq_zipWith] at hmem
  obtain ⟨⟨i, choice⟩, hzip, heq⟩ := List.mem_map.mp hmem
  obtain ⟨rfl, rfl⟩ := Prod.mk.inj heq
  exact ⟨i, (List.of_mem_zip hzip).1, rfl, choice, List.forall₂_zip h.chosen hzip, rfl⟩

end Commits

/-! ## One mapper after the other -/

/-- Every mapper is committed against the plans of those before it. -/
inductive Committed (metadata : Metadata) (registered : List MapperKey) :
    List (Registration C) → Prop
  | nil : Committed metadata registered []
  | concat {front : List (Registration C)} {m : Mapper C} {plan : Plan C} :
    Committed metadata registered front →
    m.commit metadata ⟨registered, plansOf front⟩ = .ok plan →
    Committed metadata registered (front ++ [⟨m, plan⟩])

theorem plansOf_concat (front : List (Registration C)) (r : Registration C) :
    plansOf (front ++ [r]) = (plansOf front).set r.mapper.key r.plan := by
  simp [plansOf, Dict.ofList]

theorem contains_plansOf {registrations : List (Registration C)} {key : MapperKey} :
    (plansOf registrations).contains key = true ↔ key ∈ registrations.map (·.mapper.key) := by
  induction registrations using List.reverseRecOn with
  | nil => simp [plansOf, Dict.ofList, Dict.contains]
  | append_singleton front r ih =>
    rw [plansOf_concat, Dict.contains, Dict.get?_set]
    by_cases h : r.mapper.key = key
    · simp [h]
    · rw [if_neg h, ← Dict.contains, ih]
      simp [Ne.symm h]

namespace Committed

variable {metadata : Metadata} {registered : List MapperKey} {registrations : List (Registration C)}

theorem front {front back : List (Registration C)}
    (h : Committed metadata registered (front ++ back)) : Committed metadata registered front := by
  induction back using List.reverseRecOn with
  | nil => simpa using h
  | append_singleton back r ih =>
    rw [← List.append_assoc] at h
    generalize hall : front ++ back ++ [r] = all at h
    cases h with
    | nil => simp at hall
    | concat hfront _ =>
      obtain ⟨rfl, -⟩ := List.append_inj' hall rfl
      exact ih hfront

theorem commit_eq {front back : List (Registration C)} {r : Registration C}
    (h : Committed metadata registered (front ++ r :: back)) :
    r.mapper.commit metadata ⟨registered, plansOf front⟩ = .ok r.plan := by
  rw [← List.singleton_append, ← List.append_assoc] at h
  have h := h.front
  generalize hall : front ++ [r] = all at h
  cases h with
  | nil => simp at hall
  | concat _ hcommit =>
    obtain ⟨rfl, hr⟩ := List.append_inj' hall rfl
    obtain rfl := List.singleton_inj.mp hr
    exact hcommit

theorem nodup (h : Committed metadata registered registrations) :
    (registrations.map (·.mapper.key)).Nodup := by
  induction h with
  | nil => exact List.nodup_nil
  | @concat front m plan hfront hcommit ih =>
    have hnew := (commit_eq_ok hcommit).1
    have hmem : m.key ∉ front.map (·.mapper.key) := by
      intro hmem
      rw [← contains_plansOf, hnew] at hmem
      simp at hmem
    simpa using ih.concat hmem

theorem get?_plansOf (h : Committed metadata registered registrations) {key : MapperKey}
    {plan : Plan C} : (plansOf registrations).get? key = some plan ↔
      ∃ r ∈ registrations, r.mapper.key = key ∧ r.plan = plan := by
  induction h with
  | nil => simp [plansOf, Dict.ofList]
  | @concat front m newPlan hfront hcommit ih =>
    have hnodup := (hfront.concat hcommit).nodup
    rw [plansOf_concat, Dict.get?_set]
    by_cases hkey : m.key = key
    · rw [if_pos hkey]
      constructor
      · intro heq
        exact ⟨⟨m, newPlan⟩, by simp, hkey, Option.some.inj heq⟩
      · rintro ⟨r, hr, hrkey, rfl⟩
        rcases List.mem_append.mp hr with hr | hr
        · rw [List.map_append, List.nodup_append] at hnodup
          exact absurd (hrkey.trans hkey.symm)
            (hnodup.2.2 _ (List.mem_map_of_mem hr) m.key (by simp))
        · obtain rfl := List.mem_singleton.mp hr
          rfl
    · rw [if_neg hkey, ih]
      constructor
      · rintro ⟨r, hr, h⟩
        exact ⟨r, by simp [hr], h⟩
      · rintro ⟨r, hr, hrkey, hplan⟩
        rcases List.mem_append.mp hr with hr | hr
        · exact ⟨r, hr, hrkey, hplan⟩
        · obtain rfl := List.mem_singleton.mp hr
          exact absurd hrkey hkey

theorem exists_front (h : Committed metadata registered registrations) {r : Registration C}
    (hr : r ∈ registrations) :
    ∃ front back, registrations = front ++ r :: back ∧ Committed metadata registered front ∧
      r.mapper.commit metadata ⟨registered, plansOf front⟩ = .ok r.plan := by
  obtain ⟨front, back, rfl⟩ := List.append_of_mem hr
  exact ⟨front, back, rfl, h.front, h.commit_eq⟩

theorem key_eq (h : Committed metadata registered registrations) {r : Registration C}
    (hr : r ∈ registrations) : r.plan.key = r.mapper.key := by
  obtain ⟨front, back, -, -, hcommit⟩ := h.exists_front hr
  obtain ⟨-, entity, foreignKeys, choices, hcommits⟩ := commit_eq_ok hcommit
  exact hcommits.key_eq

/-- Where the parts of a plan come from: the route of an item leads to the mapper that the item needs,
and what it embeds is the plan of a mapper committed before. -/
theorem route (h : Committed metadata registered registrations) {r : Registration C}
    (hr : r ∈ registrations) {a : Assignment C} {route : Route C} (hmem : (a, route) ∈ r.plan.items) :
    ∃ i ∈ r.mapper.items, a = .ofItem i ∧
      (∀ key, route.target? = some key → i.dependency? = some key) ∧
      ∀ plan, route.embedded? = some plan → ∃ r' ∈ registrations,
        i.dependency? = some r'.mapper.key ∧ r'.plan = plan := by
  obtain ⟨front, back, rfl, hfront, hcommit⟩ := h.exists_front hr
  obtain ⟨-, entity, foreignKeys, choices, hcommits⟩ := commit_eq_ok hcommit
  obtain ⟨i, hi, rfl, choice, hchoice, rfl⟩ := hcommits.exists_item hmem
  obtain ⟨hembedded, htarget⟩ := target?_choose hchoice
  -- A plan that is embedded was committed earlier.
  have hearlier : ∀ plan, choice.route.embedded? = some plan → ∃ r' ∈ front,
      i.dependency? = some r'.mapper.key ∧ r'.plan = plan := by
    intro plan hplan
    obtain ⟨key, hkey, -, hget⟩ := hembedded plan hplan
    obtain ⟨r', hr', rfl, rfl⟩ := hfront.get?_plansOf.mp hget
    exact ⟨r', hr', hkey, rfl⟩
  refine ⟨i, hi, rfl, fun key hkey => ?_, fun plan hplan => ?_⟩
  · cases hroute : choice.route.embedded? with
    | none => exact (htarget hroute key hkey).1
    | some plan =>
      obtain ⟨r', hr', hdependency, rfl⟩ := hearlier plan hroute
      rw [hdependency, ← hfront.key_eq hr', ← hkey]
      exact (Route.target?_of_embedded hroute).symm
  · obtain ⟨r', hr', hdependency⟩ := hearlier plan hplan
    exact ⟨r', List.mem_append_left _ hr', hdependency⟩

end Committed

end EntityMapping
