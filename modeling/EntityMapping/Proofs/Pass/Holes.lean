import EntityMapping.Proofs.Projecting

/-! # Objects with holes

Every object of a pass was made for a row. Its fields show what the items of its mapper lead to, except for
those that wait for their values and hold their defaults until then.
-/

namespace EntityMapping

variable {C : Type}

/-! ## Labels -/

/-- The mappers and the rows that objects were made for, by the identities of the objects. -/
def Labels : Type := Nat → Option (MapperKey × Row)

namespace Labels

def none : Labels := fun _ => .none

def put (L : Labels) (id : Nat) (key : MapperKey) (row : Row) : Labels :=
  fun id' => if id' = id then some (key, row) else L id'

/-- The object was made for the row. -/
def Of (L : Labels) (key : MapperKey) (row : Row) (o : ObjectRef) : Prop :=
  L o.id = some (key, row) ∧ o.typeName = key.destination

/-- Objects were added. -/
def Le (L L' : Labels) : Prop := ∀ id p, L id = some p → L' id = some p

variable {L L' L'' : Labels} {key : MapperKey} {row : Row} {o : ObjectRef}

theorem Le.refl (L : Labels) : L.Le L := fun _ _ h => h

theorem Le.trans (h : L.Le L') (h' : L'.Le L'') : L.Le L'' := fun id p hp => h' id p (h id p hp)

theorem Of.mono (h : L.Of key row o) (hle : L.Le L') : L'.Of key row o := ⟨hle _ _ h.1, h.2⟩

theorem Of.unique {key' : MapperKey} {row' : Row} {o' : ObjectRef} (h : L.Of key row o)
    (h' : L.Of key' row' o') (hid : o.id = o'.id) : key = key' ∧ row = row' := by
  have heq := h.1
  rw [hid, h'.1] at heq
  obtain ⟨rfl, rfl⟩ := Prod.mk.inj (Option.some.inj heq)
  exact ⟨rfl, rfl⟩

theorem le_put {id : Nat} (h : L id = .none) : L.Le (L.put id key row) := by
  intro id' p hp
  unfold put
  rw [if_neg, hp]
  rintro rfl
  rw [h] at hp
  simp at hp

theorem of_put (L : Labels) (id : Nat) (key : MapperKey) (row : Row) :
    (L.put id key row).Of key row ⟨id, key.destination⟩ := ⟨if_pos rfl, rfl⟩

end Labels

/-! ## Fields -/

/-- What an item shows of a row. -/
inductive Shown (σ : Stage C) (L : Labels) (owner : MapperKey) (i : Item C) (row : Row) : Value → Prop
  | given {v : Value} : i.sourceShape = .scalar → σ.value? owner i row = some v → Shown σ L owner i row v
  | nothing {path : List String} {dependency : MapperKey} : i.source = .path path →
    i.sourceShape = .entity dependency.source → i.dependency? = some dependency →
    σ.memory.rowAt σ.metadata owner.source row path = none → Shown σ L owner i row .null
  | object {path : List String} {dependency : MapperKey} {next : Row} {o : ObjectRef} :
    i.source = .path path → i.sourceShape = .entity dependency.source →
    i.dependency? = some dependency →
    σ.memory.rowAt σ.metadata owner.source row path = some next → L.Of dependency next o →
    Shown σ L owner i row (.object o)
  | list {path : List String} {dependency : MapperKey} {os : List ObjectRef} :
    i.source = .path path → i.sourceShape = .sequence dependency.source →
    i.dependency? = some dependency →
    List.Forall₂ (L.Of dependency) (σ.memory.rowsAt σ.metadata owner.source row path) os →
    Shown σ L owner i row (.list (os.map .object))

namespace Shown

variable {σ : Stage C} {L L' : Labels} {owner : MapperKey} {i : Item C} {row : Row} {v : Value}

theorem mono (h : Shown σ L owner i row v) (hle : L.Le L') : Shown σ L' owner i row v := by
  cases h with
  | given hscalar hv => exact .given hscalar hv
  | nothing hsource hshape hneeds hnone => exact .nothing hsource hshape hneeds hnone
  | object hsource hshape hneeds hsome ho => exact .object hsource hshape hneeds hsome (ho.mono hle)
  | list hsource hshape hneeds hos =>
    exact .list hsource hshape hneeds (hos.imp fun _ _ ho => ho.mono hle)

theorem accepts (h : Shown σ L owner i row v) (hmapped : i.dependency? ≠ none) :
    i.destinationShape.accepts v = true := by
  cases h with
  | given hscalar => exact absurd (Item.dependency?_of_scalar hscalar) hmapped
  | nothing => cases i.destinationShape <;> rfl
  | object _ hshape hneeds _ ho =>
    -- The shapes of both ends go together, which leaves one of the two cases.
    rcases Item.dependency?_eq_some.mp hneeds with ⟨-, hobject⟩ | ⟨hsequence, -⟩
    · rw [hobject]
      unfold DestinationShape.accepts DestinationShape.isObjectOf
      exact decide_eq_true ho.2
    · rw [hshape] at hsequence
      simp at hsequence
  | list _ hshape hneeds hos =>
    rcases Item.dependency?_eq_some.mp hneeds with ⟨hentity, -⟩ | ⟨-, hlist⟩
    · rw [hshape] at hentity
      simp at hentity
    · rw [hlist]
      unfold DestinationShape.accepts
      dsimp only
      rw [List.all_map, List.all_eq_true]
      intro o ho
      obtain ⟨next, -, hof⟩ := exists_of_forall₂_right hos ho
      unfold DestinationShape.isObjectOf
      exact decide_eq_true hof.2

theorem default {path : List String} {dependency : MapperKey} (hsource : i.source = .path path)
    (hneeds : i.dependency? = some dependency)
    (hone : i.sourceShape = .entity dependency.source →
      σ.memory.rowAt σ.metadata owner.source row path = none)
    (hmany : i.sourceShape = .sequence dependency.source →
      σ.memory.rowsAt σ.metadata owner.source row path = []) :
    Shown σ L owner i row i.destinationShape.default := by
  rcases Item.dependency?_eq_some.mp hneeds with ⟨hshape, hobject⟩ | ⟨hshape, hlist⟩
  · rw [hobject]
    exact .nothing hsource hshape hneeds (hone hshape)
  · rw [hlist]
    have hnone : List.Forall₂ (L.Of dependency) (σ.memory.rowsAt σ.metadata owner.source row path) [] := by
      rw [hmany hshape]
      exact .nil
    exact .list hsource hshape hneeds hnone

theorem covered (h : Shown σ L owner i row v) (hstyle : i.style.isFetch = false) {dependency : MapperKey}
    (hneeds : i.dependency? = some dependency) {next : Row}
    (hnext : next ∈ i.leads σ.metadata σ.memory owner.source row) : ∃ o, L.Of dependency next o := by
  unfold Item.leads at hnext
  cases h with
  | given hscalar =>
    rw [Item.dependency?_of_scalar hscalar] at hneeds
    cases hneeds
  | nothing hsource hshape _ hnone =>
    rw [hsource, hshape] at hnext
    dsimp only at hnext
    rw [hstyle, if_neg (by simp), hnone] at hnext
    cases hnext
  | object hsource hshape hneeds' hsome ho =>
    obtain rfl := Option.some.inj (hneeds.symm.trans hneeds')
    rw [hsource, hshape] at hnext
    dsimp only at hnext
    rw [hstyle, if_neg (by simp), hsome] at hnext
    exact List.mem_singleton.mp hnext ▸ ⟨_, ho⟩
  | list hsource hshape hneeds' hos =>
    obtain rfl := Option.some.inj (hneeds.symm.trans hneeds')
    rw [hsource, hshape] at hnext
    obtain ⟨o, -, ho⟩ := exists_of_forall₂_left hos hnext
    exact ⟨o, ho⟩

end Shown

/-- What an item shows of a row is all that there is: the item could do its work, and every row that it leads
to has an object. -/
structure Fulfilled (σ : Stage C) (L : Labels) (owner : MapperKey) (i : Item C) (row : Row) (v : Value) :
    Prop where
  shown : Shown σ L owner i row v
  feasible : Feasible σ owner i row
  covered : ∀ dependency, i.dependency? = some dependency →
    ∀ next ∈ i.leads σ.metadata σ.memory owner.source row, ∃ o, L.Of dependency next o

namespace Fulfilled

variable {σ : Stage C} {L L' : Labels} {owner : MapperKey} {i : Item C} {row : Row} {v : Value}

theorem mono (h : Fulfilled σ L owner i row v) (hle : L.Le L') : Fulfilled σ L' owner i row v where
  shown := h.shown.mono hle
  feasible := h.feasible
  covered dependency hneeds next hnext :=
    (h.covered dependency hneeds next hnext).imp fun _ ho => ho.mono hle

theorem given (hscalar : i.sourceShape = .scalar) (hstyle : i.style.isFetch = false)
    (hv : σ.value? owner i row = some v) : Fulfilled σ L owner i row v where
  shown := .given hscalar hv
  feasible := ⟨fun _ => Option.isSome_iff_exists.mpr ⟨v, hv⟩, fun hfetch => by simp [hstyle] at hfetch⟩
  covered dependency hneeds := by
    rw [Item.dependency?_of_scalar hscalar] at hneeds
    cases hneeds

theorem embedded {dependency : MapperKey} (hneeds : i.dependency? = some dependency)
    (hstyle : i.style.isFetch = false) (hshown : Shown σ L owner i row v) :
    Fulfilled σ L owner i row v where
  shown := hshown
  feasible := ⟨fun hnone => by simp [hneeds] at hnone, fun hfetch => by simp [hstyle] at hfetch⟩
  covered _ hneeds _ hnext := hshown.covered hstyle hneeds hnext

end Fulfilled

/-- The value goes to a field of the object. -/
def Delivery.Fills (d : Delivery C) (id : Nat) (field : String) : Prop :=
  d.object.id = id ∧ d.assignment.field = field

/-- The fields of an object that was made for a row. Every item has its field, and fields that do not show
their items wait for a value. -/
structure Filled (σ : Stage C) (L : Labels) (waiting : List (Delivery C)) (a : Registration C) (row : Row)
    (id : Nat) (fields : Dict String Value) : Prop where
  keys_eq : fields.keys = a.mapper.items.map (·.destination)
  item : ∀ i ∈ a.mapper.items, ∃ v, fields.get? i.destination = some v ∧
    (Fulfilled σ L a.mapper.key i row v ∨
      v = i.destinationShape.default ∧ ∃ d ∈ waiting, d.Fills id i.destination)

theorem Filled.mono {σ : Stage C} {L L' : Labels} {waiting waiting' : List (Delivery C)}
    {a : Registration C} {row : Row} {id : Nat} {fields : Dict String Value}
    (h : Filled σ L waiting a row id fields) (hle : L.Le L')
    (hwaiting : ∀ i ∈ a.mapper.items, ∀ d ∈ waiting, d.Fills id i.destination →
      Fulfilled σ L' a.mapper.key i row i.destinationShape.default ∨
        ∃ d' ∈ waiting', d'.Fills id i.destination) :
    Filled σ L' waiting' a row id fields := by
  refine ⟨h.keys_eq, fun i hi => ?_⟩
  obtain ⟨v, hget, hshown | ⟨rfl, d, hd, hfills⟩⟩ := h.item i hi
  · exact ⟨v, hget, Or.inl (hshown.mono hle)⟩
  · rcases hwaiting i hi d hd hfills with hshown | hd'
    · exact ⟨_, hget, Or.inl hshown⟩
    · exact ⟨_, hget, Or.inr ⟨rfl, hd'⟩⟩

/-! ## Requests -/

/-- An item of the mapper that made an object for a row. -/
structure Owned (σ : Stage C) (L : Labels) (a : Registration C) (i : Item C) (row : Row) (o : ObjectRef) :
    Prop where
  mem : a ∈ σ.registry.registrations
  item : i ∈ a.mapper.items
  owner : L.Of a.mapper.key row o

theorem Owned.mono {σ : Stage C} {L L' : Labels} {a : Registration C} {i : Item C} {row : Row}
    {o : ObjectRef} (h : Owned σ L a i row o) (hle : L.Le L') : Owned σ L' a i row o :=
  ⟨h.mem, h.item, h.owner.mono hle⟩

/-- A request for the rows that a fetched item leads to, by the key that it goes by, or for the value that a
processor has for a cell. -/
inductive Asked (σ : Stage C) (L : Labels) : Request C → Prop
  | entity {a : Registration C} {i : Item C} {row : Row} {o : ObjectRef} {path : List String}
    {segment foreignKey : String} {relation : Relation} {dependency : MapperKey} {number : Nat} {k : Key} :
    Owned σ L a i row o →
    i.FetchedBy σ.metadata a.mapper.key path segment relation dependency
      (.fetchOne path foreignKey dependency) →
    .fetchOne path foreignKey dependency ∈ routesOf σ.registry.registrations →
    (σ.memory.keyAt σ.metadata a.mapper.key.source row (path ++ [segment])).asKey? = some k →
    k.isFetchable = true → Asked σ L (.entity dependency ⟨number, k, ⟨.ofItem i, o, false⟩⟩)
  | reverse {a : Registration C} {i : Item C} {row : Row} {o : ObjectRef} {path : List String}
    {segment : String} {relation : Relation} {dependency : MapperKey} {fetcher : ReverseKey}
    {number : Nat} {k : Key} : Owned σ L a i row o →
    i.FetchedBy σ.metadata a.mapper.key path segment relation dependency
      (.fetchBack path relation fetcher) →
    .fetchBack path relation fetcher ∈ routesOf σ.registry.registrations →
    (σ.memory.keyAt σ.metadata a.mapper.key.source row (path ++ [segment])).asKey? = some k →
    k.isFetchable = true → Asked σ L (.reverse fetcher ⟨number, k, ⟨.ofItem i, o, relation.kind ≠ .hasMany⟩⟩)
  | batch {a : Registration C} {i : Item C} {row : Row} {o : ObjectRef} {processor : Processor C}
    {number : Nat} {k : Key} : Owned σ L a i row o → i.sourceShape = .scalar → i.style = .batch processor →
    (i.cell σ.metadata σ.memory a.mapper.key.source row).asKey? = some k → k.isFetchable = true →
    Asked σ L (.batch processor
      ⟨number, i.cell σ.metadata σ.memory a.mapper.key.source row, ⟨.ofItem i, o, false⟩⟩)

theorem Asked.mono {σ : Stage C} {L L' : Labels} {r : Request C} (h : Asked σ L r) (hle : L.Le L') :
    Asked σ L' r := by
  cases h with
  | entity howned hfetched hroute hkey hfetchable =>
    exact .entity (howned.mono hle) hfetched hroute hkey hfetchable
  | reverse howned hfetched hroute hkey hfetchable =>
    exact .reverse (howned.mono hle) hfetched hroute hkey hfetchable
  | batch howned hscalar hstyle hkey hfetchable =>
    exact .batch (howned.mono hle) hscalar hstyle hkey hfetchable

/-! ## Fields that are given values -/

section

variable {σ : Stage C} {L : Labels} {waiting : List (Delivery C)} {a : Registration C} {row : Row}
  {id : Nat} {fields : Dict String Value} {d : Delivery C}

theorem Filled.of_ne (h : Filled σ L (d :: waiting) a row id fields) (hne : d.object.id ≠ id) :
    Filled σ L waiting a row id fields := by
  refine h.mono (Labels.Le.refl L) fun i _ d' hd' hfills => Or.inr ?_
  rcases List.mem_cons.mp hd' with rfl | hd'
  · exact absurd hfills.1 hne
  · exact ⟨d', hd', hfills⟩

theorem Filled.set (h : Filled σ L (d :: waiting) a row id fields)
    (hnodup : (a.mapper.items.map (·.destination)).Nodup) {i : Item C} (hi : i ∈ a.mapper.items)
    (hfield : d.assignment.field = i.destination) {v : Value}
    (hv : Fulfilled σ L a.mapper.key i row v) : Filled σ L waiting a row id (fields.set i.destination v) := by
  refine ⟨?_, fun j hj => ?_⟩
  · rw [Dict.keys_set, if_pos, h.keys_eq]
    rw [h.keys_eq]
    exact List.mem_map_of_mem hi
  · by_cases heq : i.destination = j.destination
    · obtain rfl := List.inj_on_of_nodup_map hnodup hi hj heq
      exact ⟨v, Dict.get?_set_self _ _ _, Or.inl hv⟩
    · rw [Dict.get?_set_of_ne _ _ heq]
      obtain ⟨w, hget, hshown | ⟨hdefault, d', hd', hfills⟩⟩ := h.item j hj
      · exact ⟨w, hget, Or.inl hshown⟩
      · refine ⟨w, hget, Or.inr ⟨hdefault, d', ?_, hfills⟩⟩
        refine (List.mem_cons.mp hd').resolve_left ?_
        rintro rfl
        exact heq (hfield.symm.trans hfills.2)

end

/-- The fields that some parts of a plan are to fill. -/
def unfilled (items : List (Assignment C × Route C)) (o : ObjectRef) : List (Delivery C) :=
  items.map fun p => ⟨p.1, o, false⟩

namespace Laid

variable {metadata : Metadata} {tables : Nat → Key → Option Value} {n : Nat} {plans : Dict MapperKey (Plan C)}
  {a : Registration C}

theorem assignments_eq (h : Laid metadata tables n plans a) :
    a.plan.items.map (·.1) = a.mapper.items.map .ofItem :=
  (map_eq_map_of_forall₂ (h.items.imp fun _ _ hpart => hpart.1.symm)).symm

theorem entries_defaults (h : Laid metadata tables n plans a) :
    a.plan.defaults.entries =
      a.mapper.items.map fun i => (i.destination, i.destinationShape.default) :=
  Plan.entries_defaults h.assignments_eq h.destinations

theorem filled (h : Laid metadata tables n plans a) (σ : Stage C) (L : Labels) (row : Row) (o : ObjectRef)
    (waiting : List (Delivery C)) :
    Filled σ L (unfilled a.plan.items o ++ waiting) a row o.id a.plan.defaults := by
  have hkeys := Plan.keys_defaults h.assignments_eq h.destinations
  refine ⟨hkeys, fun i hi => ⟨i.destinationShape.default, ?_, Or.inr ⟨rfl, ?_⟩⟩⟩
  · apply (Dict.mem_entries_iff (hkeys ▸ h.destinations)).mp
    rw [h.entries_defaults]
    exact List.mem_map.mpr ⟨i, hi, rfl⟩
  · obtain ⟨p, hp, hpart, -⟩ := exists_of_forall₂_left h.items hi
    refine ⟨⟨p.1, o, false⟩, List.mem_append_left _ (List.mem_map_of_mem hp), rfl, ?_⟩
    rw [hpart]
    rfl

end Laid

/-! ## States -/

/-- The state of a pass between two steps. Besides the queued requests, some deliveries are still due. -/
structure Filling (σ : Stage C) (L : Labels) (due : List (Delivery C)) (s : PassState C) : Prop where
  lt : ∀ id p, L id = some p → id < s.heap.size
  /-- The objects are new. -/
  ge : ∀ id p, L id = some p → σ.heap.size ≤ id
  keeps : σ.heap.Keeps s.heap
  known : ∀ id p, L id = some p →
    σ.reads p.1 p.2 ∧ ∃ a ∈ σ.registry.registrations, a.mapper.key = p.1
  filled : ∀ a ∈ σ.registry.registrations, ∀ row o, L.Of a.mapper.key row o →
    Filled σ L (due ++ s.requests.map (·.delivery)) a row o.id (s.heap.fields o)
  asked : ∀ r ∈ s.requests, Asked σ L r
  cached : ∀ a ∈ σ.registry.registrations, ∀ k o, s.cache.get? (a.mapper.key, k) = some o →
    ∃ row, L.Of a.mapper.key row o ∧ row.key a.plan.head.primaryKey = some k
  hooks_eq : s.hooks = []

namespace Filling

variable {σ : Stage C} {L : Labels} {due due' : List (Delivery C)} {s s' : PassState C}

theorem of_eq (h : Filling σ L due s) (hheap : s'.heap = s.heap) (hrequests : s'.requests = s.requests)
    (hcache : s'.cache = s.cache) (hhooks : s'.hooks = s.hooks) : Filling σ L due s' where
  lt := hheap ▸ h.lt
  ge := h.ge
  keeps := hheap ▸ h.keeps
  known := h.known
  filled := by
    rw [hheap, hrequests]
    exact h.filled
  asked := hrequests ▸ h.asked
  cached := hcache ▸ h.cached
  hooks_eq := hhooks.trans h.hooks_eq

theorem mono_due (h : Filling σ L due s) (hdue : due ⊆ due') : Filling σ L due' s where
  lt := h.lt
  ge := h.ge
  keeps := h.keeps
  known := h.known
  filled a ha row o ho := by
    refine (h.filled a ha row o ho).mono (Labels.Le.refl L) fun i _ d hd hfills => Or.inr ⟨d, ?_, hfills⟩
    rcases List.mem_append.mp hd with hd | hd
    · exact List.mem_append_left _ (hdue hd)
    · exact List.mem_append_right _ hd
  asked := h.asked
  cached := h.cached
  hooks_eq := h.hooks_eq

theorem le_put (h : Filling σ L due s) {key : MapperKey} {row : Row} :
    L.Le (L.put s.heap.size key row) := by
  apply Labels.le_put
  by_contra hne
  obtain ⟨p, hp⟩ := Option.ne_none_iff_exists'.mp hne
  exact absurd (h.lt _ _ hp) (Nat.lt_irrefl _)

theorem initial {heap : Heap} (hkeeps : σ.heap.Keeps heap) : Filling σ .none [] (.initial heap) where
  lt _ _ h := by cases h
  ge _ _ h := by cases h
  keeps := hkeeps
  known _ _ h := by cases h
  filled _ _ _ _ h := by cases h.1
  asked _ h := by cases h
  cached _ _ _ _ h := by cases h
  hooks_eq := rfl

end Filling

/-! ## Steps -/

namespace Stage.Tame

variable {σ : Stage C} (h : σ.Tame) {L : Labels} {due : List (Delivery C)} {s : PassState C}
  {a : Registration C} {i : Item C} {row : Row} {o : ObjectRef} {takesFirst : Bool}
include h

theorem registration_eq {a b : Registration C} (ha : a ∈ σ.registry.registrations)
    (hb : b ∈ σ.registry.registrations) (hkey : a.mapper.key = b.mapper.key) : a = b :=
  List.inj_on_of_nodup_map h.registry.committed.nodup ha hb hkey

theorem settle (hs : Filling σ L (⟨.ofItem i, o, takesFirst⟩ :: due) s) (ho : Owned σ L a i row o)
    (hshown : Fulfilled σ L a.mapper.key i row i.destinationShape.default) : Filling σ L due s where
  lt := hs.lt
  ge := hs.ge
  keeps := hs.keeps
  known := hs.known
  filled b hb row' o' ho' := by
    -- The one field that may have waited for this delivery is the field of the item.
    refine (hs.filled b hb row' o' ho').mono (Labels.Le.refl L) fun j hj d hd hfills => ?_
    rcases List.mem_cons.mp hd with rfl | hd
    · obtain ⟨hkey, rfl⟩ := ho.owner.unique ho' hfills.1
      obtain rfl := h.registration_eq ho.mem hb hkey
      obtain rfl := List.inj_on_of_nodup_map (h.registry.laid hb).destinations ho.item hj hfills.2
      exact Or.inl hshown
    · exact Or.inr ⟨d, hd, hfills⟩
  asked := hs.asked
  cached := hs.cached
  hooks_eq := hs.hooks_eq

theorem fill (hs : Filling σ L (⟨.ofItem i, o, takesFirst⟩ :: due) s) (ho : Owned σ L a i row o)
    {v : Value} (hshown : Fulfilled σ L a.mapper.key i row v) :
    Filling σ L due { s with heap := s.heap.set o i.destination v } where
  lt id p hp := by
    rw [Heap.size_set]
    exact hs.lt id p hp
  ge := hs.ge
  keeps := hs.keeps.set (hs.ge _ _ ho.owner.1) (hs.lt _ _ ho.owner.1) _ _
  known := hs.known
  filled b hb row' o' ho' := by
    -- Only the fields of `o` change, and `o` stands for one row.
    have hfilled := hs.filled b hb row' o' ho'
    rw [Heap.fields_set _ _ _ _ _ (hs.lt _ _ ho.owner.1)]
    split
    · rename_i hid
      obtain ⟨hkey, rfl⟩ := ho.owner.unique ho' hid.symm
      obtain rfl := h.registration_eq ho.mem hb hkey
      exact hfilled.set (h.registry.laid hb).destinations ho.item rfl hshown
    · rename_i hid
      exact hfilled.of_ne (Ne.symm hid)
  asked := hs.asked
  cached := hs.cached
  hooks_eq := hs.hooks_eq

omit h in
theorem queue {r : Request C} {takesFirst' : Bool}
    (hs : Filling σ L (⟨.ofItem i, o, takesFirst⟩ :: due) s) (hr : Asked σ L r)
    (hdelivery : r.delivery = ⟨.ofItem i, o, takesFirst'⟩) :
    Filling σ L due { s with requests := s.requests ++ [r], queued := s.queued + 1 } where
  lt := hs.lt
  ge := hs.ge
  keeps := hs.keeps
  known := hs.known
  filled b hb row' o' ho' := by
    -- What was due for `o` waits among the requests now.
    refine (hs.filled b hb row' o' ho').mono (Labels.Le.refl L) fun j hj d hd hfills => Or.inr ?_
    rw [List.map_append]
    rcases List.mem_cons.mp hd with rfl | hd
    · exact ⟨r.delivery, by simp, hdelivery ▸ hfills⟩
    · refine ⟨d, ?_, hfills⟩
      rw [← List.append_assoc]
      exact List.mem_append_left _ hd
  asked r' hr' := by
    rcases List.mem_append.mp hr' with hr' | hr'
    · exact hs.asked r' hr'
    · exact List.mem_singleton.mp hr' ▸ hr
  cached := hs.cached
  hooks_eq := hs.hooks_eq

theorem create (hs : Filling σ L due s) (ha : a ∈ σ.registry.registrations)
    (hreads : σ.reads a.mapper.key row) :
    Filling σ (L.put s.heap.size a.mapper.key row)
      (unfilled a.plan.items ⟨s.heap.size, a.mapper.key.destination⟩ ++ due)
      { s with heap := (s.heap.create a.mapper.key.destination a.plan.defaults).2 } := by
  have hle : L.Le (L.put s.heap.size a.mapper.key row) := hs.le_put
  refine ⟨fun id p hp => ?_, fun id p hp => ?_, ?_, fun id p hp => ?_,
    fun b hb row' o' ho' => ?_, fun r hr => (hs.asked r hr).mono hle, fun b hb k o' hget => ?_, hs.hooks_eq⟩
  · rw [Heap.size_create]
    unfold Labels.put at hp
    split at hp
    · omega
    · have := hs.lt id p hp
      omega
  · unfold Labels.put at hp
    split at hp
    · exact (by assumption : id = _) ▸ hs.keeps.size
    · exact hs.ge id p hp
  · exact hs.keeps.create a.mapper.key.destination a.plan.defaults
  · unfold Labels.put at hp
    split at hp
    · obtain rfl := Option.some.inj hp
      exact ⟨hreads, a, ha, rfl⟩
    · exact hs.known id p hp
  -- The new object has nothing but holes, and the others keep their fields.
  · obtain ⟨hlabel, htype⟩ := ho'
    unfold Labels.put at hlabel
    split at hlabel
    · rename_i hid
      obtain ⟨hkey, rfl⟩ := Prod.mk.inj (Option.some.inj hlabel)
      obtain rfl := h.registration_eq ha hb hkey
      obtain rfl : o' = ⟨s.heap.size, a.mapper.key.destination⟩ := by
        cases o'
        simp_all
      have hfields := Heap.fields_create_self s.heap a.mapper.key.destination a.plan.defaults
      rw [show (s.heap.create _ _).2.fields ⟨s.heap.size, a.mapper.key.destination⟩ = _ from hfields,
        List.append_assoc]
      exact (h.registry.laid hb).filled σ _ row _ _
    · rw [Heap.fields_create_of_lt _ _ _ (hs.lt _ _ hlabel)]
      refine (hs.filled b hb row' o' ⟨hlabel, htype⟩).mono hle fun j _ d hd hfills => Or.inr ⟨d, ?_, hfills⟩
      rw [List.append_assoc]
      exact List.mem_append_right _ hd
  · obtain ⟨row', ho', hkey⟩ := hs.cached b hb k o' hget
    exact ⟨row', ho'.mono hle, hkey⟩

theorem remember (hs : Filling σ L due s) (ha : a ∈ σ.registry.registrations)
    (ho : L.Of a.mapper.key row o) {k : Key} (hk : row.key a.plan.head.primaryKey = some k) :
    Filling σ L due { s with cache := s.cache.set (a.mapper.key, k) o } where
  lt := hs.lt
  ge := hs.ge
  keeps := hs.keeps
  known := hs.known
  filled := hs.filled
  asked := hs.asked
  cached b hb k' o' hget := by
    rw [Dict.get?_set] at hget
    split at hget
    · rename_i heq
      obtain ⟨hkey, rfl⟩ := Prod.mk.inj heq
      obtain rfl := h.registration_eq ha hb hkey
      obtain rfl := Option.some.inj hget
      exact ⟨row, ho, hk⟩
    · exact hs.cached b hb k' o' hget
  hooks_eq := hs.hooks_eq

end Stage.Tame

end EntityMapping
