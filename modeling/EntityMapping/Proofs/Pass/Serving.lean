import EntityMapping.Proofs.Pass.Draining
import EntityMapping.Proofs.Pass.Filling

/-! # Serving requests

A group of requests loads all rows with the keys that it asks for. Those with the key of a request are the
rows that its item leads to, so what the request is given is what the item shows.
-/

namespace EntityMapping

variable {C : Type}

/-! ## Mapped rows by their keys -/

theorem get?_firstByKey (head : PlanHead C) (mapped : List (Transient × ObjectRef)) (k : Key) :
    (firstByKey head mapped).get? k =
      (mapped.filter fun m => head.keyOf m.1 = some k).head?.map (·.2) := by
  unfold firstByKey
  induction mapped using List.reverseRecOn with
  | nil => rfl
  | append_singleton mapped m ih =>
    rw [List.foldl_concat, List.filter_append, List.head?_append]
    generalize mapped.foldl _ _ = found at ih ⊢
    cases hkey : head.keyOf m.1 with
    | none => simp [hkey, ih]
    | some k' =>
      dsimp only
      -- The first row with a key keeps its place, and later ones are passed over.
      by_cases hk : k' = k
      · subst hk
        unfold Dict.contains
        rw [ih]
        cases hfirst : (mapped.filter fun m => head.keyOf m.1 = some k').head? with
        | none => simp [hkey]
        | some first => simp [ih, hfirst]
      · have hnone : [m].filter (fun m => head.keyOf m.1 = some k) = [] := by simp [hkey, hk]
        rw [hnone, List.head?_nil, Option.or_none, ← ih]
        split
        · rfl
        · exact Dict.get?_set_of_ne _ _ hk

theorem getD_groupBySlot (slot : Nat) (mapped : List (Transient × ObjectRef)) (k : Key) :
    ((groupBySlot slot mapped).get? k).getD [] =
      (mapped.filter fun m => (m.1.value slot).asKey? = some k).map (·.2) := by
  rw [← getD_collect (fun m : Transient × ObjectRef => (m.1.value slot).asKey?) (·.2) mapped k]
  unfold groupBySlot collect
  congr 3
  funext groups m
  dsimp only
  cases (m.1.value slot).asKey? <;> rfl

theorem forall₂_holding {R : Row → Transient × ObjectRef → Prop} {m : Source.Memory}
    {entity column : String} {keys : List Key} {mapped : List (Transient × ObjectRef)}
    {f : Transient → Option Key} (hf : ∀ row p, R row p → f p.1 = (row.value column).asKey?) {k : Key}
    (hk : k ∈ keys) (h : List.Forall₂ R (m.matching entity (some ⟨column, keys⟩)) mapped) :
    List.Forall₂ R (m.holding entity column k) (mapped.filter fun p => f p.1 = some k) := by
  rw [← Source.Memory.filter_matching hk]
  refine List.rel_filter ?_ h
  intro row p hp
  dsimp only
  rw [hf row p hp]

/-! ## What requests want -/

/-- A request of a fetched item, for rows of an entity with a key in a column. -/
inductive Wants (σ : Stage C) (L : Labels) (dependency : MapperKey) (column : String)
    (r : KeyedRequest C) (relation : Relation) : Prop
  | mk {a : Registration C} {i : Item C} {row : Row} {path : List String} {segment : String}
    {route : Route C} : Owned σ L a i row r.delivery.object → r.delivery.assignment = .ofItem i →
    i.FetchedBy σ.metadata a.mapper.key path segment relation dependency route →
    (σ.memory.keyAt σ.metadata a.mapper.key.source row (path ++ [segment])).asKey? = some r.key →
    r.key.isFetchable = true → relation.remoteColumn = column → Wants σ L dependency column r relation

/-- The value that a request is given is what its item shows. -/
inductive Served (σ : Stage C) (L : Labels) (d : Delivery C) (v : Value) : Prop
  | mk {a : Registration C} {i : Item C} {row : Row} {dependency : MapperKey} :
    Owned σ L a i row d.object → d.assignment = .ofItem i → i.dependency? = some dependency →
    (∀ w, d.chosen v = some w → Fulfilled σ L a.mapper.key i row w) →
    (d.chosen v = none → Fulfilled σ L a.mapper.key i row i.destinationShape.default) → Served σ L d v

theorem Delivery.chosen_of_takesAll {d : Delivery C} (h : d.takesFirst = false) (v : Value) :
    d.chosen v = some v := by
  unfold Delivery.chosen
  rw [if_neg (by simp [h])]

theorem Delivery.chosen_list {d : Delivery C} (h : d.takesFirst = true) (items : List Value) :
    d.chosen (.list items) = items.head? := by
  unfold Delivery.chosen
  rw [if_pos h]

theorem Served.of_chosen {σ : Stage C} {L : Labels} {d : Delivery C} {v w : Value}
    {a : Registration C} {i : Item C} {row : Row} {dependency : MapperKey}
    (howned : Owned σ L a i row d.object) (hassignment : d.assignment = .ofItem i)
    (hneeds : i.dependency? = some dependency) (hchosen : d.chosen v = some w)
    (hw : Fulfilled σ L a.mapper.key i row w) : Served σ L d v := by
  refine .mk howned hassignment hneeds (fun w' hw' => ?_) fun hnone => ?_
  · rw [hchosen] at hw'
    exact Option.some.inj hw' ▸ hw
  · rw [hchosen] at hnone
    simp at hnone

theorem Served.mono {σ : Stage C} {L L' : Labels} {d : Delivery C} {v : Value} (h : Served σ L d v)
    (hle : L.Le L') : Served σ L' d v := by
  obtain ⟨howned, hassignment, hneeds, hsome, hnone⟩ := h
  exact .mk (howned.mono hle) hassignment hneeds (fun w hw => (hsome w hw).mono hle)
    fun hw => (hnone hw).mono hle

namespace Wants

variable {σ : Stage C} {L L' : Labels} {dependency : MapperKey} {column : String} {r : KeyedRequest C}
  {relation : Relation}

theorem unrelated (h : Wants σ L dependency column r relation) (hapart : σ.metadata.NamesApart) :
    σ.metadata.Unrelated dependency.source column := by
  obtain ⟨-, -, hfetched, -, -, rfl⟩ := h
  obtain ⟨declaring, -, hr, -⟩ := hfetched.steps
  exact hfetched.target ▸ hapart.unrelated_remoteColumn hr

theorem reads (h : Wants σ L dependency column r relation) (htame : σ.Tame)
    {due : List (Delivery C)} {s : PassState C} (hs : Filling σ L due s) {next : Row}
    (hnext : next ∈ σ.memory.holding dependency.source column r.key) : σ.reads dependency next := by
  obtain ⟨howned, -, hfetched, hkey, -, rfl⟩ := h
  refine htame.item _ howned.mem _ (hs.known _ _ howned.owner.1).1 _ howned.item _ hfetched.needs next ?_
  rw [hfetched.leads_eq, hfetched.rowsAt_eq, hkey]
  exact hnext

end Wants

/-! ## Given values -/

namespace Item.FetchedBy

variable {σ : Stage C} {L : Labels} {owner : MapperKey} {i : Item C} {row : Row} {path : List String}
  {segment : String} {relation : Relation} {dependency : MapperKey} {route : Route C} {k : Key}
  {found : List ObjectRef} (h : i.FetchedBy σ.metadata owner path segment relation dependency route)
  (hkey : (σ.memory.keyAt σ.metadata owner.source row (path ++ [segment])).asKey? = some k)
  (hfound : List.Forall₂ (L.Of dependency)
    (σ.memory.holding dependency.source relation.remoteColumn k) found)
include h hkey hfound

theorem shown_one (hkind : relation.kind ≠ .hasMany) :
    Shown σ L owner i row (.ofOption .object found.head?) := by
  have hentity : i.sourceShape = .entity dependency.source := by
    rcases Item.dependency?_eq_some.mp h.needs with ⟨hshape, -⟩ | ⟨hshape, -⟩
    · exact hshape
    · exact absurd (h.shape.mp hshape) hkind
  have hrow : σ.memory.rowAt σ.metadata owner.source row (path ++ [segment]) =
      (σ.memory.holding dependency.source relation.remoteColumn k).head? := by
    rw [h.rowAt_eq, h.rowsAt_eq, hkey]
  generalize σ.memory.holding dependency.source relation.remoteColumn k = rows at hfound hrow
  cases hfound with
  | nil => exact .nothing h.source hentity h.needs hrow
  | cons ho _ => exact .object h.source hentity h.needs hrow ho

theorem shown_many (hkind : relation.kind = .hasMany) :
    Shown σ L owner i row (.list (found.map .object)) := by
  refine .list h.source (h.shape.mpr hkind) h.needs ?_
  rw [h.rowsAt_eq, hkey]
  exact hfound

theorem fulfilled_of_found (hfetchable : k.isFetchable = true) {v : Value}
    (hshown : Shown σ L owner i row v) : Fulfilled σ L owner i row v := by
  refine h.fulfilled (Or.inr ⟨k, hkey, hfetchable⟩) (fun next hnext => ?_) hshown
  rw [h.rowsAt_eq, hkey] at hnext
  obtain ⟨o, -, ho⟩ := exists_of_forall₂_left hfound hnext
  exact ⟨o, ho⟩

end Item.FetchedBy

namespace Wants

variable {σ : Stage C} {L L' : Labels} {dependency : MapperKey} {column : String} {r : KeyedRequest C}
  {relation : Relation} {found : List ObjectRef} (h : Wants σ L dependency column r relation)
  (hle : L.Le L')
  (hfound : List.Forall₂ (L'.Of dependency) (σ.memory.holding dependency.source column r.key) found)
include h hle hfound

theorem served_one (hkind : relation.kind ≠ .hasMany) (htakes : r.delivery.takesFirst = false) :
    Served σ L' r.delivery (.ofOption .object found.head?) := by
  obtain ⟨howned, hassignment, hfetched, hkey, hfetchable, rfl⟩ := h
  have hone := hfetched.fulfilled_of_found hkey hfound hfetchable (hfetched.shown_one hkey hfound hkind)
  exact .of_chosen (howned.mono hle) hassignment hfetched.needs (Delivery.chosen_of_takesAll htakes _) hone

/-- A request for the other side of a relation is given all rows with the key, and takes the first where
its item leads to one row. -/
theorem served_back (htakes : r.delivery.takesFirst = decide (relation.kind ≠ .hasMany)) :
    Served σ L' r.delivery (.list (found.map .object)) := by
  obtain ⟨howned, hassignment, hfetched, hkey, hfetchable, rfl⟩ := h
  have hall := fun {v} => hfetched.fulfilled_of_found (v := v) hkey hfound hfetchable
  by_cases hkind : relation.kind = .hasMany
  · have htakes : r.delivery.takesFirst = false := by simp [htakes, hkind]
    exact .of_chosen (howned.mono hle) hassignment hfetched.needs (Delivery.chosen_of_takesAll htakes _)
      (hall (hfetched.shown_many hkey hfound hkind))
  · have hchosen : r.delivery.chosen (.list (found.map .object)) = (found.map .object).head? :=
      Delivery.chosen_list (by simp [htakes, hkind]) _
    have hshown := hfetched.shown_one hkey hfound hkind
    refine .mk (howned.mono hle) hassignment hfetched.needs (fun w hw => ?_) fun hnone => ?_
    · rw [hchosen, List.head?_map, Option.map_eq_some_iff] at hw
      obtain ⟨o, ho, rfl⟩ := hw
      rw [ho] at hshown
      exact hall hshown
    -- Without rows nothing is assigned, and the field keeps its default.
    · rw [hchosen, List.head?_eq_none_iff, List.map_eq_nil_iff] at hnone
      subst hnone
      refine hall (hfetched.shown_default ?_ L')
      rw [hfetched.rowsAt_eq, hkey]
      exact List.forall₂_nil_right_iff.mp hfound

end Wants

/-! ## Deliveries -/

namespace Stage.Tame

variable {σ : Stage C} (h : σ.Tame) {L : Labels} {due : List (Delivery C)} {s : PassState C}
include h

theorem yields_deliver {d : Delivery C} {v : Value} (hserved : Served σ L d v) (number : Nat)
    (hs : Filling σ L (d :: due) s) :
    Yields σ L due (fun _ _ => True) (deliver σ.setting number d v) s := by
  obtain ⟨howned, hassignment, hneeds, hsome, hnone⟩ := hserved
  obtain ⟨assignment, o, takesFirst⟩ := d
  obtain rfl : assignment = _ := hassignment
  unfold deliver
  refine .bind (.record _ hs) fun _ L' s' hle _ hs' => ?_
  split
  · rename_i w hw
    exact h.yields_assign hs' (howned.mono hle) hneeds ((hsome w hw).mono hle)
  · rename_i hw
    exact .pure trivial (h.settle hs' (howned.mono hle) ((hnone hw).mono hle))

theorem yields_serve {a : Registration C} (ha : a ∈ σ.registry.registrations) {q : Query}
    (hentity : q.entity = a.mapper.key.source) (hincludes : q.includes = [])
    (hreads : ∀ row ∈ σ.memory.matching q.entity q.filter, σ.reads a.mapper.key row) (text : String)
    {requests : List (KeyedRequest C)} (value : List (Transient × ObjectRef) → KeyedRequest C → Value)
    (hserved : ∀ (L' : Labels) mapped, L.Le L' →
      List.Forall₂ (fun row m => Carries σ a row m.1 ∧ L'.Of a.mapper.key row m.2)
        (σ.memory.matching q.entity q.filter) mapped →
      ∀ r ∈ requests, Served σ L' r.delivery (value mapped r))
    (hs : Filling σ L (requests.map (·.delivery) ++ due) s) :
    Yields σ L due (fun _ _ => True) (do
      PassM.debug text
      let mapped ← materialize σ.setting a.plan q
      requests.forM fun r => deliver σ.setting r.number r.delivery (value mapped r)) s := by
  refine .bind (.record _ hs) fun _ L₁ s₁ hle₁ _ hs₁ => ?_
  have hdistinct : Include.DistinctAll q.includes := by
    rw [hincludes]
    trivial
  have hloads : q.Loads σ.metadata := Or.inr fun p hp => by
    rw [hincludes] at hp
    cases hp
  refine .bind (h.yields_materialize ha hentity hdistinct hloads hreads hs₁)
    fun mapped L₂ s₂ hle₂ hmapped hs₂ => ?_
  have hserved := hserved L₂ mapped (hle₁.trans hle₂) hmapped
  rw [List.map_eq_flatMap] at hs₂
  refine .forM _ (fun r hr L₃ rest s₃ hle₃ hs₃ => ?_) hs₂
  exact h.yields_deliver ((hserved r hr).mono hle₃) r.number hs₃

end Stage.Tame

/-! ## Fetchers -/

theorem Yields.beginGroup {σ : Stage C} {L : Labels} {due : List (Delivery C)} {s : PassState C}
    (group : GroupKey) (numbers : List Nat) (hs : Filling σ L due s) :
    Yields σ L due (fun _ _ => True) (beginGroup group numbers) s :=
  .of_eq rfl trivial (hs.of_eq rfl rfl rfl rfl)

theorem mem_distinct {requests : List (KeyedRequest C)} {k : Key} :
    k ∈ Key.distinct (requests.map (·.key)) ↔ ∃ r ∈ requests, r.key = k := by
  unfold Key.distinct
  rw [mem_foldl_new, List.mem_map]
  simp

theorem Asked.wants_entity {σ : Stage C} {L : Labels} {key : MapperKey} {r : KeyedRequest C}
    (h : Asked σ L (.entity key r)) {e : Entity} {column : String}
    (he : σ.metadata.entity? key.source = some e) (hcolumn : e.primaryKey = [column]) :
    ∃ relation, Wants σ L key column r relation ∧ relation.kind = .belongsTo ∧
      r.delivery.takesFirst = false := by
  cases h with
  | @entity a i row o path segment foreignKey relation _ number k howned hfetched _ hkey hfetchable =>
    obtain ⟨declaring, -, -, hfetches⟩ := hfetched.steps
    cases hfetches with
    | @one target hkind htarget hprimary =>
      rw [hfetched.target, he] at htarget
      obtain rfl := Option.some.inj htarget
      have hreferences : relation.references = column := by
        rw [hcolumn] at hprimary
        exact (List.cons.inj hprimary).1.symm
      refine ⟨relation, .mk howned rfl hfetched hkey hfetchable ?_, hkind, rfl⟩
      unfold Relation.remoteColumn
      rw [hkind]
      exact hreferences

theorem Asked.wants_reverse {σ : Stage C} {L : Labels} {key : ReverseKey} {r : KeyedRequest C}
    (h : Asked σ L (.reverse key r)) {relation : Relation}
    (hr : σ.metadata.navigation key.entity key.relation = .ok relation) :
    Wants σ L key.mapper relation.foreignKey r relation ∧
      r.delivery.takesFirst = decide (relation.kind ≠ .hasMany) := by
  cases h with
  | @reverse a i row o path segment relation' dependency _ number k howned hfetched _ hkey hfetchable =>
    obtain ⟨declaring, -, hr', hfetches⟩ := hfetched.steps
    cases hfetches with
    | back hkind =>
      obtain ⟨_, -, -, rfl⟩ := Metadata.name_of_navigation hr'
      obtain rfl := Except.ok.inj (hr'.symm.trans hr)
      exact ⟨.mk howned rfl hfetched hkey hfetchable (Relation.remoteColumn_eq hkind), rfl⟩

namespace Stage.Tame

variable {σ : Stage C} (h : σ.Tame) {L : Labels} {due : List (Delivery C)} {s : PassState C}
include h

theorem navigation_of_fetchBack {path : List String} {relation : Relation} {key : ReverseKey}
    (hroute : .fetchBack path relation key ∈ routesOf σ.registry.registrations) :
    σ.metadata.navigation key.entity key.relation = .ok relation := by
  obtain ⟨a, ha, hroute⟩ := List.mem_flatMap.mp hroute
  obtain ⟨⟨assignment, _⟩, hp, rfl⟩ := List.mem_map.mp hroute
  obtain ⟨i, -, -, is, hchosen, -⟩ := exists_of_forall₂_right (h.registry.laid ha).items hp
  cases hchosen with
  | fetch hfetched =>
    obtain ⟨declaring, -, hr, hfetches⟩ := hfetched.steps
    cases hfetches with
    | back =>
      obtain ⟨_, -, -, rfl⟩ := Metadata.name_of_navigation hr
      exact hr

theorem reads_matching {dependency : MapperKey} {column : String} {requests : List (KeyedRequest C)}
    (hwants : ∀ r ∈ requests, ∃ relation, Wants σ L dependency column r relation)
    (hs : Filling σ L due s) : ∀ row ∈ σ.memory.matching dependency.source
      (some ⟨column, Key.distinct (requests.map (·.key))⟩), σ.reads dependency row := by
  intro row hrow
  rw [Source.Memory.matching_some, List.mem_filter, Option.any_eq_true] at hrow
  obtain ⟨hrow, k, hk, hmem⟩ := hrow
  obtain ⟨r, hr, rfl⟩ := mem_distinct.mp (of_decide_eq_true hmem)
  obtain ⟨relation, hwant⟩ := hwants r hr
  refine hwant.reads h hs ?_
  exact List.mem_filter.mpr ⟨hrow, decide_eq_true hk⟩

theorem yields_resolveEntity {key : MapperKey} {requests : List (KeyedRequest C)} (hne : requests ≠ [])
    (hasked : ∀ r ∈ requests, Asked σ L (.entity key r))
    (hs : Filling σ L (requests.map (·.delivery) ++ due) s) :
    Yields σ L due (fun _ _ => True) (resolveEntity σ.setting key requests) s := by
  have hsome : (σ.registry.fetchers.entity.get? key).isSome := by
    obtain ⟨r, hr⟩ := List.exists_mem_of_ne_nil requests hne
    cases hasked r hr with
    | entity _ _ hroute _ => exact h.registry.supplied.one _ _ _ hroute
  obtain ⟨fetcher, hget⟩ := Option.isSome_iff_exists.mp hsome
  obtain ⟨plan, column⟩ := fetcher
  obtain ⟨hplan, e, he, hcolumn⟩ := h.registry.supplied.entity key _ hget
  obtain ⟨b, hb, rfl, rfl⟩ := h.registry.committed.get?_plansOf.mp hplan
  have hlaid := h.registry.laid hb
  -- The fetcher goes by the one column of the primary key, which the transients carry in front.
  have hprimary : b.plan.head.primaryKey = [column] := by
    obtain ⟨e', he', hprimary⟩ := hlaid.entity
    obtain rfl := Option.some.inj (he.symm.trans he')
    exact hprimary.trans hcolumn
  have hwants := fun r hr => (hasked r hr).wants_entity he hcolumn
  have hrequire : σ.setting.fetchers.requireEntity b.mapper.key = .ok ⟨b.plan, column⟩ := by
    change σ.registry.fetchers.requireEntity b.mapper.key = _
    unfold Fetchers.requireEntity
    rw [hget]
  unfold resolveEntity
  refine .bind (.beginGroup _ _ hs) fun _ L₁ s₁ hle₁ _ hs₁ => ?_
  rw [hrequire]
  refine .ok_bind ?_
  have hentity : b.plan.key.source = b.mapper.key.source := congrArg _ hlaid.key_eq
  unfold EntityFetcher.resolve
  refine h.yields_serve hb hentity rfl ?_ _ _ (fun L' mapped hle hmapped r hr => ?_) hs₁
  · exact hentity ▸ h.reads_matching (fun r hr => (hwants r hr).imp fun _ hwant => hwant.1) hs
  · obtain ⟨relation, hwant, hkind, htakes⟩ := hwants r hr
    have hunrelated := hwant.unrelated h.registry.apart
    have hholding := forall₂_holding
      (fun row p hp => h.keyOf_of_unrelated hb hp.1 hprimary hunrelated)
      (mem_distinct.mpr ⟨r, hr, rfl⟩) (hentity ▸ hmapped)
    have hfound := List.forall₂_map_right_iff.mpr (hholding.imp fun _ _ hp => hp.2)
    have hserved := hwant.served_one (hle₁.trans hle) hfound (by rw [hkind]; simp) htakes
    rw [get?_firstByKey, ← List.head?_map]
    generalize List.head? _ = first at hserved ⊢
    cases first <;> exact hserved

theorem yields_resolveReverse {key : ReverseKey} {requests : List (KeyedRequest C)} (hne : requests ≠ [])
    (hasked : ∀ r ∈ requests, Asked σ L (.reverse key r))
    (hs : Filling σ L (requests.map (·.delivery) ++ due) s) :
    Yields σ L due (fun _ _ => True) (resolveReverse σ.setting key requests) s := by
  -- A request comes from a route, and each route has its fetcher.
  have hsome : (σ.registry.fetchers.reverse.get? key).isSome := by
    obtain ⟨r, hr⟩ := List.exists_mem_of_ne_nil requests hne
    cases hasked r hr with
    | reverse _ _ hroute _ => exact h.registry.supplied.back _ _ _ hroute
  obtain ⟨fetcher, hget⟩ := Option.isSome_iff_exists.mp hsome
  obtain ⟨plan, foreignKey, carrier⟩ := fetcher
  obtain ⟨hplan, hslot, path, relation, hroute, rfl⟩ := h.registry.supplied.reverse key _ hget
  obtain ⟨b, hb, hkey, rfl⟩ := h.registry.committed.get?_plansOf.mp hplan
  have hwants := fun r hr => (hasked r hr).wants_reverse (h.navigation_of_fetchBack hroute)
  rw [← hkey] at hwants
  have hrequire : σ.setting.fetchers.requireReverse key = .ok ⟨b.plan, relation.foreignKey, carrier⟩ := by
    change σ.registry.fetchers.requireReverse key = _
    unfold Fetchers.requireReverse
    rw [hget]
  unfold resolveReverse
  refine .bind (.beginGroup _ _ hs) fun _ L₁ s₁ hle₁ _ hs₁ => ?_
  rw [hrequire]
  refine .ok_bind ?_
  have hentity : b.plan.key.source = b.mapper.key.source := congrArg _ (h.registry.laid hb).key_eq
  unfold ReverseFetcher.resolve
  refine h.yields_serve hb hentity rfl ?_ _ _ (fun L' mapped hle hmapped r hr => ?_) hs₁
  · exact hentity ▸ h.reads_matching (fun r hr => ⟨relation, (hwants r hr).1⟩) hs
  · obtain ⟨hwant, htakes⟩ := hwants r hr
    have hunrelated := hwant.unrelated h.registry.apart
    have hholding := forall₂_holding (f := fun t => (t.value carrier).asKey?)
      (fun row p hp => congrArg _ (h.value_of_carrierSlot hb hp.1 hslot hunrelated))
      (mem_distinct.mpr ⟨r, hr, rfl⟩) (hentity ▸ hmapped)
    have hfound := List.forall₂_map_right_iff.mpr (hholding.imp fun _ _ hp => hp.2)
    rw [getD_groupBySlot]
    exact hwant.served_back (hle₁.trans hle) hfound htakes

end Stage.Tame

end EntityMapping
