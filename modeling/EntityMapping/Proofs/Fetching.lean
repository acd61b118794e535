import EntityMapping.Proofs.Conformance
import EntityMapping.Proofs.Heights
import EntityMapping.Proofs.Pass.Answering

/-! # What fetchers give

A fetcher loads the rows for a whole group of requests at once. Whatever rows the source answers with, every
request is given the objects that were mapped from the rows with its own key, once and in the order of requests.
Rows are told by the column that they were asked for by, so no relation of that name may be attached to them.
-/

namespace EntityMapping

variable {C : Type}

/-! ## Queries of fetchers -/

/-- What a fetcher asks for: the rows with the keys of a group in a column, with all that a plan includes. -/
def fetcherQuery (plan : Plan C) (column : String) (requests : List (KeyedRequest C)) : Query :=
  ((Query.all plan.key.source).filterIn column (Key.distinct (requests.map (·.key)))).withIncludes plan.includes

theorem relation_mem_of_fetcherQuery {plan : Plan C} {column relation : String} {requests : List (KeyedRequest C)}
    (h : relation ∈ (fetcherQuery plan column requests).includes.map (·.relation)) :
    relation ∈ plan.includes.map (·.relation) := by
  rw [← Include.singleton_mem_pathsOf] at h ⊢
  rcases (Include.mem_pathsOf_mergeAll _ _ _).mp h with hnone | h
  · cases hnone
  · exact h

theorem matchesNothing_filterIn {entity column : String} {requests : List (KeyedRequest C)} (hne : requests ≠ []) :
    ((Query.all entity).filterIn column (Key.distinct (requests.map (·.key)))).matchesNothing = false := by
  obtain ⟨r, hr⟩ := List.exists_mem_of_ne_nil requests hne
  have hmem := mem_distinct.mpr ⟨r, hr, rfl⟩
  unfold Query.matchesNothing Query.filterIn
  exact List.isEmpty_eq_false_iff.mpr (List.ne_nil_of_mem hmem)

theorem EntityFetcher.resolve_eq (setting : Setting C) (f : EntityFetcher C) (requests : List (KeyedRequest C)) :
    f.resolve setting requests = (do
      let keys := Key.distinct (requests.map (·.key))
      PassM.debug s!"refract: fetching {keys.length} {f.plan.key.text} for {requests.length} requests"
      let mapped ← materialize setting f.plan ((Query.all f.plan.key.source).filterIn f.keyColumn keys)
      requests.forM fun r => deliver setting r.number r.delivery
        (.ofOption .object ((firstByKey f.plan.head mapped).get? r.key))) := by
  unfold resolve
  refine congrArg (PassM.debug _ >>= ·) (funext fun _ => ?_)
  refine congrArg (materialize setting f.plan _ >>= ·) (funext fun mapped => ?_)
  refine congrArg requests.forM (funext fun r => congrArg (deliver setting r.number r.delivery) ?_)
  cases (firstByKey f.plan.head mapped).get? r.key <;> rfl

namespace Registry

variable {metadata : Metadata} {config : Config} {declared : List (MapperDeclaration C)} {logs : List LogRecord}
  {r : Registry C}

theorem entity_fetcher_by_primaryKey (hbuild : ((build metadata config declared).run.run logs).1 = .ok r)
    {key : MapperKey} {f : EntityFetcher C} (hf : r.fetchers.entity.get? key = some f) :
    f.plan.key = key ∧ f.plan.head.primaryKey = [f.keyColumn] ∧
      ∃ e, metadata.entity? key.source = some e ∧ e.primaryKey = [f.keyColumn] := by
  obtain ⟨resolved, hbuilt⟩ := built_of_build hbuild
  obtain ⟨hplan, e, he, hcolumn⟩ := hbuilt.supplied.entity key f hf
  obtain ⟨b, hb, rfl, hcommitted⟩ := hbuilt.committed.get?_plansOf.mp hplan
  obtain ⟨front, back, -, -, hcommit⟩ := hbuilt.committed.exists_front hb
  obtain ⟨-, entity, foreignKeys, choices, hcommits⟩ := commit_eq_ok hcommit
  obtain rfl := Option.some.inj (he.symm.trans hcommits.entity_eq)
  rw [← hcommitted]
  refine ⟨hcommits.key_eq, ?_, e, he, hcolumn⟩
  rw [hcommits.head_eq]
  exact hcolumn

theorem keyOf_of_single {head : PlanHead C} {column : String} (h : head.primaryKey = [column]) (t : Transient) :
    head.keyOf t = (t.value 0).asKey? := by
  unfold PlanHead.keyOf
  rw [h]
  cases hkey : (t.value 0).asKey? <;> simp [List.range, List.range.loop, hkey, Key.ofParts]

/-- The requests of a group are given the objects of their rows by primary key: each request is given one value,
in the order of the requests. It is the object that mapping gave to the first row with the key of the request, or
null if the source answered with no such row. What the transposers make of the values is stored, one after the other.
Where the transposers do no more than look at the objects, a field that one request of the group goes to ends as its
transposer has it. -/
theorem entity_fetcher_delivers (hbuild : ((build metadata config declared).run.run logs).1 = .ok r)
    {key : MapperKey} {f : EntityFetcher C} (hf : r.fetchers.entity.get? key = some f)
    (hapart : f.keyColumn ∉ f.plan.includes.map (·.relation)) (source : DataSource) (ambient : C)
    {requests : List (KeyedRequest C)} (hne : requests ≠ []) {s s' : PassState C}
    (hrun : (f.resolve (r.setting source ambient) requests).run.run s = (.ok (), s')) :
    ∃ e text s₀ loaded transients objects s₁,
      metadata.entity? key.source = some e ∧ e.primaryKey = [f.keyColumn] ∧ f.plan.key = key ∧
      (PassM.debug text).run.run s = (.ok (), s₀) ∧
      Materialized (r.setting source ambient) f.plan (fetcherQuery f.plan f.keyColumn requests) s₀ loaded transients
        objects s₁ ∧
      objects.length = loaded.length ∧
      let given (q : KeyedRequest C) := Value.ofOption .object (objectsHolding f.keyColumn loaded objects q.key).head?
      (requests.forM fun q => deliver (r.setting source ambient) q.number q.delivery (given q)).run.run s₁ =
        (.ok (), s') ∧
      s'.journal.deliveries = s.journal.deliveries ++ requests.map (fun q => (q.number, given q)) ∧
      PutsAll ambient (requests.map fun q => (q.delivery, given q)) s₁.heap s'.heap ∧
      ∀ front q back, requests = front ++ q :: back → q.delivery.object.id < s.heap.size →
        (∀ p ∈ requests, p.delivery.assignment.Spares ambient) → (∀ p ∈ front ++ back, p.delivery.Apart q.delivery) →
        q.delivery.EndsAs ambient (q.delivery.chosen (given q)) s₁.heap s'.heap := by
  obtain ⟨hkey, hprimary, e, he, hcolumn⟩ := entity_fetcher_by_primaryKey hbuild hf
  rw [EntityFetcher.resolve_eq] at hrun
  obtain ⟨s₀, loaded, transients, objects, s₁, hnoted, hmaterialized, hgiven, hdeliveries⟩ :=
    served_of_run (matchesNothing_filterIn hne) hrun
  have hslot : f.plan.head.carriers[0]? = some f.keyColumn := by
    unfold PlanHead.carriers
    rw [hprimary]
    rfl
  -- The key of a transient is the value of the key column in its row, as no relation hides it.
  have hvalue : ∀ q : KeyedRequest C, (firstByKey f.plan.head (transients.zip objects)).get? q.key =
      (objectsHolding f.keyColumn loaded objects q.key).head? := by
    intro q
    rw [get?_firstByKey, ← List.head?_map]
    simp only [keyOf_of_single hprimary]
    rw [hmaterialized.filter_eq (fun hmem => hapart (relation_mem_of_fetcherQuery hmem)) hslot q.key]
  simp only [hvalue] at hgiven hdeliveries
  refine ⟨e, _, s₀, loaded, transients, objects, s₁, he, hcolumn, hkey, hnoted, hmaterialized,
    hmaterialized.length_eq, hgiven, hdeliveries, putsAll_of_run hgiven, ?_⟩
  intro front q back hsplit hobject hspares hothers
  have hgrown := hmaterialized.size_le_of_noted hnoted
  exact endsAs_of_run hsplit hspares hothers (Nat.lt_of_lt_of_le hobject hgrown) hgiven

end Registry

namespace Sample

/-- A request of an order for its customer. -/
def customerRequest (number : Nat) (k : Int64) : KeyedRequest Unit :=
  ⟨number, .int k, ⟨⟨"customer", "customer", .null, .object "CustomerView", none⟩, ⟨0, "OrderView"⟩, false⟩⟩

/-- Two requests for one customer are given the same. -/
theorem customers_delivered : ∃ (r : Registry Unit) (f : EntityFetcher Unit) (s' : PassState Unit) (ada nobody : Value),
    ((Registry.build metadata {} declared).run.run []).1 = .ok r ∧
    r.fetchers.entity.get? ⟨"Customer", "CustomerView"⟩ = some f ∧
    (f.resolve (r.setting memory.source ()) [customerRequest 0 1, customerRequest 1 2, customerRequest 2 1]).run.run
      (.initial .empty) = (.ok (), s') ∧
    s'.journal.deliveries = [(0, ada), (1, nobody), (2, ada)] := by
  have h : (((Registry.build metadata {} declared).run.run []).1.toOption.any fun r =>
      (r.fetchers.entity.get? ⟨"Customer", "CustomerView"⟩).any fun f =>
        f.plan.includes.isEmpty &&
          ((f.resolve (r.setting memory.source ())
            [customerRequest 0 1, customerRequest 1 2, customerRequest 2 1]).run.run
              (.initial .empty)).1.toOption.any fun _ => true) = true := by cbv
  obtain ⟨r, hbuild, hfetcher⟩ := exists_ok_of_any h
  obtain ⟨f, hf, hran⟩ := (Option.any_eq_true _ _).mp hfetcher
  obtain ⟨hnone, hran⟩ := Bool.and_eq_true_iff.mp hran
  obtain ⟨⟨⟩, hresult, -⟩ := exists_ok_of_any hran
  have hapart : f.keyColumn ∉ f.plan.includes.map (·.relation) := by simp [List.isEmpty_iff.mp hnone]
  obtain ⟨e, text, s₀, loaded, transients, objects, s₁, -, -, -, -, -, -, -, hdeliveries, -⟩ :=
    Registry.entity_fetcher_delivers hbuild hf hapart memory.source () (by simp) (Prod.ext hresult rfl)
  exact ⟨r, f, _, _, _, hbuild, hf, Prod.ext hresult rfl, hdeliveries⟩

/-- Customers name the relation to their parent like their primary key. -/
def namesakes : Metadata := .ofList [
  ((((Entity.new "Customer").withKey "id" .int).withColumn "name" .string).withColumn "parent_id" .int).withRelation
    ⟨"id", "Customer", .belongsTo, "parent_id", "id"⟩,
  (((Entity.new "Order").withKey "id" .int).withColumn "customer_id" .int).withRelation
    ⟨"customer", "Customer", .belongsTo, "customer_id", "id"⟩]

def namesakesDeclared : List (MapperDeclaration Unit) := [
  ⟨⟨"Order", "OrderView"⟩,
    [{ destination := "id" },
      { destination := "customer", mapped := some "CustomerView", style := some .fetch }], []⟩,
  ⟨⟨"Customer", "CustomerView"⟩,
    [{ destination := "name" }, { destination := "parent", source := some (.path ["id", "name"]) }], []⟩]

def founder : Row := ⟨[("id", .int 1), ("name", .string "Ada"), ("parent_id", .null)]⟩

/-- The source answers with the customer that was asked for. The relation to its parent is attached under the name
of the primary key, so the request is given null. -/
theorem relation_hides_primaryKey : ∃ (r : Registry Unit) (f : EntityFetcher Unit) (s' : PassState Unit),
    ((Registry.build namesakes {} namesakesDeclared).run.run []).1 = .ok r ∧
    r.fetchers.entity.get? ⟨"Customer", "CustomerView"⟩ = some f ∧
    (f.resolve (r.setting (Source.Memory.ofTables [("Customer", [founder])]).source ())
      [customerRequest 0 1]).run.run (.initial .empty) = (.ok (), s') ∧
    (∃ e, namesakes.entity? "Customer" = some e ∧ e.primaryKey = [f.keyColumn] ∧
      ((Source.Memory.ofTables [("Customer", [founder])]).source.reply [] e (some ⟨"id", [.int 1]⟩)).rows =
        .ok [founder] ∧ founder.key e.primaryKey = some (.int 1)) ∧
    s'.journal.loads = [⟨"Customer", some ⟨"id", [.int 1]⟩⟩] ∧
    s'.journal.deliveries.map (fun d => (d.1, d.2.isNull)) = [(0, true)] := by
  have h : (((Registry.build namesakes {} namesakesDeclared).run.run []).1.toOption.any fun r =>
      (r.fetchers.entity.get? ⟨"Customer", "CustomerView"⟩).any fun f =>
        let ran := (f.resolve (r.setting (Source.Memory.ofTables [("Customer", [founder])]).source ())
          [customerRequest 0 1]).run.run (.initial .empty)
        f.keyColumn = "id" && ran.1.toOption.any fun _ =>
          ran.2.journal.loads = [⟨"Customer", some ⟨"id", [.int 1]⟩⟩] ∧
          ran.2.journal.deliveries.map (fun d => (d.1, d.2.isNull)) = [(0, true)]) = true := by cbv
  obtain ⟨r, hbuild, hfetcher⟩ := exists_ok_of_any h
  obtain ⟨f, hf, hran⟩ := (Option.any_eq_true _ _).mp hfetcher
  obtain ⟨hcolumn, hran⟩ := Bool.and_eq_true_iff.mp hran
  obtain ⟨⟨⟩, hresult, hgiven⟩ := exists_ok_of_any hran
  refine ⟨r, f, _, hbuild, hf, Prod.ext hresult rfl, ⟨_, rfl, ?_, rfl, rfl⟩, of_decide_eq_true hgiven⟩
  rw [of_decide_eq_true hcolumn]
  rfl

end Sample

/-! ## Rows of the other side -/

theorem Source.exists_relation_of_attachAll {source : DataSource} {metadata : Metadata} {e : Entity}
    {is : List Include} {rows rows' : List Row} {l l' : Loading}
    (h : (attachAll source metadata e rows is).run.run l = (.ok rows', l')) {i : Include} (hi : i ∈ is) :
    ∃ relation ∈ e.relations, relation.name = i.relation := by
  induction is generalizing rows l with
  | nil => cases hi
  | cons first rest ih =>
    unfold attachAll at h
    obtain ⟨rows₁, l₁, hfirst, hrest⟩ := After.run_bind_eq_ok.mp h
    rcases List.mem_cons.mp hi with rfl | hi
    · obtain ⟨name, nested⟩ := i
      unfold attach at hfirst
      obtain ⟨relation, _, hrelation, -⟩ := After.run_bind_eq_ok.mp hfirst
      have hfound := requireRelation_eq_ok.mp (After.run_ofExcept_eq_ok.mp hrelation).1
      exact ⟨relation, List.mem_of_find?_eq_some hfound, of_decide_eq_true (List.find?_some hfound :)⟩
    · exact ih hrest hi

/-- What filling an item from the other side of a relation leaves behind: nothing for null, and else a request for
the rows with its key. Of a relation to many rows it takes the whole list, and of any other the first element only.
Until then the field stays as it is. -/
inductive AskedBack (a : Assignment C) (relation : Relation) (fetcher : ReverseKey) (o : ObjectRef) (v : Value)
    (s s' : PassState C) : Prop
  | nothing : v = .null → s' = s → AskedBack a relation fetcher o v s s'
  | queued {k : Key} : v.asKey? = some k → k.isFetchable = true → s'.heap = s.heap →
    s'.requests = s.requests ++ [.reverse fetcher ⟨s.queued, k, ⟨a, o, relation.kind ≠ .hasMany⟩⟩] →
    AskedBack a relation fetcher o v s s'

theorem askedBack_of_run {setting : Setting C} {path : List String} {relation : Relation} {fetcher : ReverseKey}
    {a : Assignment C} {slot : Slot} {o : ObjectRef} {s s' : PassState C}
    (h : ((Route.fetchBack path relation fetcher).fill setting a slot o).run.run s = (.ok (), s')) :
    AskedBack a relation fetcher o slot.plain s s' := by
  unfold Route.fill requestBack at h
  split at h
  · rename_i hnull
    exact .nothing hnull (Prod.mk.inj h).2.symm
  · obtain ⟨k, s₁, hran, henqueue⟩ := After.run_bind_eq_ok.mp h
    obtain ⟨hkey, rfl⟩ := After.run_ofExcept_eq_ok.mp hran
    obtain ⟨hv, hfetchable⟩ := fetchKey_eq_ok.mp hkey
    rw [← (Prod.mk.inj henqueue).2]
    exact .queued hv hfetchable rfl rfl

namespace Registry

variable {metadata : Metadata} {config : Config} {declared : List (MapperDeclaration C)} {logs : List LogRecord}
  {r : Registry C}

/-- The requests of a group are given the objects of their rows by foreign key: each request is given one list, in
the order of the requests. It holds the objects of exactly the rows with the key of the request, in their order.
Where the transposers do no more than look at the objects, a field that one request of the group goes to ends as its
transposer has it: made from the whole list, or from the first element, or as it was if there is none. -/
theorem reverse_fetcher_groups (hbuild : ((build metadata config declared).run.run logs).1 = .ok r)
    {key : ReverseKey} {f : ReverseFetcher C} (hf : r.fetchers.reverse.get? key = some f)
    (hapart : ∀ e, metadata.entity? key.mapper.source = some e → ∀ relation ∈ e.relations, relation.name ≠ f.foreignKey)
    (source : DataSource) (ambient : C) {requests : List (KeyedRequest C)} (hne : requests ≠ [])
    {s s' : PassState C} (hrun : (f.resolve (r.setting source ambient) requests).run.run s = (.ok (), s')) :
    ∃ text s₀ loaded transients objects s₁,
      f.plan.key = key.mapper ∧ (PassM.debug text).run.run s = (.ok (), s₀) ∧
      Materialized (r.setting source ambient) f.plan (fetcherQuery f.plan f.foreignKey requests) s₀ loaded transients
        objects s₁ ∧
      objects.length = loaded.length ∧
      let group (q : KeyedRequest C) := (objectsHolding f.foreignKey loaded objects q.key).map Value.object
      (requests.forM fun q => deliver (r.setting source ambient) q.number q.delivery (.list (group q))).run.run s₁ =
        (.ok (), s') ∧
      s'.journal.deliveries = s.journal.deliveries ++ requests.map (fun q => (q.number, .list (group q))) ∧
      (∀ path relation a slot o (t t' : PassState C),
        ((Route.fetchBack path relation key).fill (r.setting source ambient) a slot o).run.run t = (.ok (), t') →
          AskedBack a relation key o slot.plain t t') ∧
      ∀ front q back, requests = front ++ q :: back → q.delivery.object.id < s.heap.size →
        (∀ p ∈ requests, p.delivery.assignment.Spares ambient) → (∀ p ∈ front ++ back, p.delivery.Apart q.delivery) →
        q.delivery.EndsAs ambient (if q.delivery.takesFirst then (group q).head? else some (.list (group q)))
          s₁.heap s'.heap := by
  obtain ⟨resolved, hbuilt⟩ := built_of_build hbuild
  obtain ⟨hplan, hcarrier, path, relation, -, -⟩ := hbuilt.supplied.reverse key f hf
  obtain ⟨b, hb, hkey, hcommitted⟩ := hbuilt.committed.get?_plansOf.mp hplan
  have hplankey : f.plan.key = key.mapper := by rw [← hcommitted, hbuilt.committed.key_eq hb, hkey]
  obtain ⟨s₀, loaded, transients, objects, s₁, hnoted, hmaterialized, hgiven, hdeliveries⟩ :=
    served_of_run (matchesNothing_filterIn hne) hrun
  -- No relation that the query includes is named like the foreign key.
  have hcolumn : f.foreignKey ∉ (fetcherQuery f.plan f.foreignKey requests).includes.map (·.relation) := by
    intro hmem
    obtain ⟨i, hi, hname⟩ := List.mem_map.mp hmem
    obtain ⟨he, -, hattach, -, -⟩ := hmaterialized
    obtain ⟨relation, hrelation, hsame⟩ := Source.exists_relation_of_attachAll hattach hi
    rw [show (r.setting source ambient).metadata = metadata from hbuilt.metadata_eq] at he
    exact hapart _ (hplankey ▸ he) relation hrelation (hsame.trans hname)
  have hvalue : ∀ q : KeyedRequest C, ((groupBySlot f.carrier (transients.zip objects)).get? q.key).getD [] =
      objectsHolding f.foreignKey loaded objects q.key := by
    intro q
    rw [getD_groupBySlot, hmaterialized.filter_eq hcolumn (carriers_of_carrierSlot hcarrier)]
  simp only [hvalue] at hgiven hdeliveries
  refine ⟨_, s₀, loaded, transients, objects, s₁, hplankey, hnoted, hmaterialized, hmaterialized.length_eq, hgiven,
    hdeliveries, fun _ _ _ _ _ _ _ hfill => askedBack_of_run hfill, ?_⟩
  intro front q back hsplit hobject hspares hapart
  have hgrown := hmaterialized.size_le_of_noted hnoted
  have hends := endsAs_of_run hsplit hspares hapart (Nat.lt_of_lt_of_le hobject hgrown) hgiven
  cases hfirst : q.delivery.takesFirst with
  | true => rwa [Delivery.chosen_list hfirst] at hends
  | false => rwa [Delivery.chosen_of_takesAll hfirst] at hends

end Registry

namespace Sample

/-- Customers know the orders that belong to them. -/
def accounts : Metadata := .ofList [
  ((Entity.new "Customer").withKey "id" .int).withRelation ⟨"orders", "Order", .hasMany, "customer_id", "id"⟩,
  ((Entity.new "Order").withKey "id" .int).withColumn "customer_id" .int]

def accountsDeclared : List (MapperDeclaration Unit) := [
  ⟨⟨"Customer", "CustomerView"⟩,
    [{ destination := "id" },
      { destination := "orders", mapped := some "OrderView", style := some .fetch }], []⟩,
  ⟨⟨"Order", "OrderView"⟩, [{ destination := "id" }], []⟩]

/-- A request of a customer for its orders. -/
def ordersRequest (number : Nat) (k : Int64) : KeyedRequest Unit :=
  ⟨number, .int k, ⟨⟨"orders", "orders", .list [], .list "OrderView", none⟩, ⟨number, "CustomerView"⟩, false⟩⟩

/-- Three objects whose orders were not loaded yet. -/
def unfilled : Heap := ⟨#[⟨[("orders", .list [])]⟩, ⟨[("orders", .list [])]⟩, ⟨[("orders", .list [])]⟩]⟩

/-- Customers of one key are given the same orders, each in a list of its own. -/
theorem orders_grouped : ∃ (r : Registry Unit) (f : ReverseFetcher Unit) (s' : PassState Unit)
    (orders none : List Value),
    ((Registry.build accounts {} accountsDeclared).run.run []).1 = .ok r ∧
    r.fetchers.reverse.get? ⟨"Customer", "orders", ⟨"Order", "OrderView"⟩⟩ = some f ∧
    (f.resolve (r.setting memory.source ()) [ordersRequest 0 1, ordersRequest 1 2, ordersRequest 2 1]).run.run
      (.initial unfilled) = (.ok (), s') ∧
    s'.journal.deliveries = [(0, .list orders), (1, .list none), (2, .list orders)] ∧
    s'.heap.get ⟨0, "CustomerView"⟩ "orders" = .list orders := by
  have h : (((Registry.build accounts {} accountsDeclared).run.run []).1.toOption.any fun r =>
      (r.fetchers.reverse.get? ⟨"Customer", "orders", ⟨"Order", "OrderView"⟩⟩).any fun f =>
        ((f.resolve (r.setting memory.source ())
          [ordersRequest 0 1, ordersRequest 1 2, ordersRequest 2 1]).run.run
            (.initial unfilled)).1.toOption.any fun _ => true) = true := by cbv
  obtain ⟨r, hbuild, hfetcher⟩ := exists_ok_of_any h
  obtain ⟨f, hf, hran⟩ := (Option.any_eq_true _ _).mp hfetcher
  obtain ⟨⟨⟩, hresult, -⟩ := exists_ok_of_any hran
  have hapart : ∀ e, accounts.entity? "Order" = some e → ∀ relation ∈ e.relations, relation.name ≠ f.foreignKey := by
    intro e he relation hrelation
    obtain rfl := Option.some.inj he
    cases hrelation
  obtain ⟨text, s₀, loaded, transients, objects, s₁, -, -, -, -, -, hdeliveries, -, hends⟩ :=
    Registry.reverse_fetcher_groups hbuild hf hapart memory.source () (by simp) (Prod.ext hresult rfl)
  have hspares : ∀ q ∈ [ordersRequest 0 1, ordersRequest 1 2, ordersRequest 2 1],
      q.delivery.assignment.Spares () := by
    simp only [List.forall_mem_cons]
    exact ⟨fun _ _ => rfl, fun _ _ => rfl, fun _ _ => rfl, List.forall_mem_nil _⟩
  have hothers : ∀ q ∈ [] ++ [ordersRequest 1 2, ordersRequest 2 1],
      q.delivery.Apart (ordersRequest 0 1).delivery := by
    simp only [List.nil_append, List.forall_mem_cons]
    exact ⟨fun heq => absurd heq (by decide), fun heq => absurd heq (by decide), List.forall_mem_nil _⟩
  obtain ⟨_, w, hw, -, hget⟩ := hends [] (ordersRequest 0 1) _ rfl (by decide) hspares hothers
  obtain rfl := Except.ok.inj hw
  exact ⟨r, f, _, _, _, hbuild, hf, Prod.ext hresult rfl, hdeliveries, hget⟩

end Sample

end EntityMapping
