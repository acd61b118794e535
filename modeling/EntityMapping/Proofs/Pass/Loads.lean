import EntityMapping.Proofs.Delivery
import EntityMapping.Proofs.Including

/-! # The loads of a pass

A pass loads its root rows, and then rows for every group of requests that a fetcher resolves. Each time there
is one load for the rows themselves and at most one for every include, however many rows there are. All but
the first load of a pass are made by keys, each of them asked for once.
-/

namespace EntityMapping

variable {C α β : Type}

/-! ## Errands -/

/-- What concerns loads in the journal of a pass. -/
inductive Errand where
  | group (group : GroupKey)
  | load (record : LoadRecord)

def Entry.errand? : Entry → Option Errand
  | .resolving group _ => some (.group group)
  | .load record => some (.load record)
  | _ => none

def Errand.record? : Errand → Option LoadRecord
  | .load record => some record
  | .group _ => none

namespace Journal

def errands (j : Journal) : List Errand := j.toList.filterMap (·.errand?)

theorem errands_add (j : Journal) (e : Entry) : (j.add e).errands = j.errands ++ e.errand?.toList := by
  unfold errands
  rw [toList_add, List.filterMap_append]
  cases h : e.errand? <;> simp [h]

theorem errands_foldl {f : β → Entry} (hf : ∀ b, (f b).errand? = none) (l : List β) (j : Journal) :
    (l.foldl (fun j b => j.add (f b)) j).errands = j.errands := by
  induction l generalizing j with
  | nil => rfl
  | cons b l ih => rw [List.foldl_cons, ih, errands_add, hf, Option.toList_none, List.append_nil]

theorem errands_addNotes (j : Journal) (notes : List Note) : (j.addNotes notes).errands = j.errands :=
  errands_foldl (f := .note) (fun _ => rfl) notes j

theorem loads_eq (j : Journal) : j.loads = j.errands.filterMap (·.record?) := by
  unfold loads errands
  rw [List.filterMap_filterMap]
  refine List.filterMap_congr fun e _ => ?_
  cases e <;> rfl

end Journal

/-! ## Loading -/

/-- The load asks for rows by keys, each of them once. -/
def LoadRecord.IsKeyed (record : LoadRecord) : Prop :=
  ∃ f, record.filter = some f ∧ f.keys ≠ [] ∧ f.keys.Nodup

theorem nodup_foldl_new {κ : Type} [DecidableEq κ] {ks found : List κ} (h : found.Nodup) :
    (ks.foldl (fun found k => if k ∈ found then found else found ++ [k]) found).Nodup := by
  induction ks generalizing found with
  | nil => exact h
  | cons k ks ih =>
    rw [List.foldl_cons]
    apply ih
    split
    · exact h
    · rename_i hk
      simpa using h.concat hk

theorem Key.mem_distinct {keys : List Key} {k : Key} : k ∈ Key.distinct keys ↔ k ∈ keys := by
  unfold Key.distinct
  rw [mem_foldl_new]
  simp

theorem Key.nodup_distinct (keys : List Key) : (Key.distinct keys).Nodup := nodup_foldl_new List.nodup_nil

/-- Some loads were made one after the other, and each was counted. -/
structure Loading.Made (records : List LoadRecord) (l l' : Loading) : Prop where
  errands_eq : l'.journal.errands = l.journal.errands ++ records.map .load
  loads_eq : l'.loads = l.loads + records.length

namespace Loading.Made

theorem nil (l : Loading) : Made [] l l := ⟨by simp, rfl⟩

theorem append {records records' : List LoadRecord} {l l' l'' : Loading} (h : Made records l l')
    (h' : Made records' l' l'') : Made (records ++ records') l l'' where
  errands_eq := by rw [h'.errands_eq, h.errands_eq, List.map_append, List.append_assoc]
  loads_eq := by rw [h'.loads_eq, h.loads_eq, List.length_append, Nat.add_assoc]

end Loading.Made

/-- Work that makes at most `n` loads, all of them by keys, whether it fails or not. -/
def LoadsAtMost (n : Nat) (x : LoadM α) : Prop :=
  ∀ l, After x l fun _ l' => ∃ records, Loading.Made records l l' ∧ records.length ≤ n ∧
    ∀ record ∈ records, record.IsKeyed

namespace LoadsAtMost

theorem pure (a : α) : LoadsAtMost 0 (pure a) := fun l => ⟨[], .nil l, Nat.le_refl _, by simp⟩

theorem ofExcept (r : Except Error α) : LoadsAtMost 0 (ofExcept r : LoadM α) := by
  intro l
  rw [After.ofExcept_iff]
  exact ⟨[], .nil l, Nat.le_refl _, by simp⟩

theorem mono {n m : Nat} {x : LoadM α} (h : LoadsAtMost n x) (hle : n ≤ m) : LoadsAtMost m x :=
  fun l => (h l).mono fun _ _ ⟨records, hmade, hlength, hkeyed⟩ =>
    ⟨records, hmade, hlength.trans hle, hkeyed⟩

theorem bind {n m : Nat} {x : LoadM α} {f : α → LoadM β} (hx : LoadsAtMost n x)
    (hf : ∀ a, LoadsAtMost m (f a)) : LoadsAtMost (n + m) (x >>= f) := by
  intro l
  rw [After.bind_iff]
  apply (hx l).mono
  rintro (e | a) l₁ ⟨records, hmade, hlength, hkeyed⟩
  · exact ⟨records, hmade, by omega, hkeyed⟩
  · rw [either_ok]
    apply (hf a l₁).mono
    rintro _ l' ⟨records', hmade', hlength', hkeyed'⟩
    refine ⟨records ++ records', hmade.append hmade', ?_, fun record hrecord => ?_⟩
    · rw [List.length_append]
      omega
    · exact (List.mem_append.mp hrecord).elim (hkeyed record) (hkeyed' record)

end LoadsAtMost

namespace Source

variable (source : DataSource) (metadata : Metadata)

theorem made_load (e : Entity) (filter : Option KeyFilter) (l : Loading) :
    After (source.load e filter) l fun _ l' => Loading.Made [⟨e.name, filter⟩] l l' := by
  refine ⟨?_, rfl⟩
  change (Journal.addNotes _ _).errands = _
  rw [Journal.errands_addNotes, Journal.errands_foldl (f := .served) fun _ => rfl, Journal.errands_add]
  rfl

theorem loadsAtMost_loadByKeys (target : Entity) (column : String) {keys : List Key} (hkeys : keys.Nodup) :
    LoadsAtMost 1 (loadByKeys source target column keys) := by
  unfold loadByKeys
  split
  · exact (LoadsAtMost.pure _).mono (Nat.zero_le 1)
  · rename_i hne
    intro l
    apply (made_load source target _ l).mono
    refine fun _ _ hmade => ⟨_, hmade, Nat.le_refl 1, fun record hrecord => ?_⟩
    obtain rfl := List.mem_singleton.mp hrecord
    exact ⟨_, rfl, fun heq => hne (List.isEmpty_iff.mpr heq), hkeys⟩

mutual

/-- An include is loaded at once for all rows, and so is each that is nested in it. -/
theorem loadsAtMost_attach (entity : Entity) (rows : List Row) : ∀ i : Include,
    LoadsAtMost i.count (attach source metadata entity rows i)
  | ⟨field, nested⟩ => by
    have hnested := fun target related => loadsAtMost_attachAll target related nested
    unfold attach
    have hcount : 0 + (0 + (1 + (Include.countAll nested + 0))) = Include.count ⟨field, nested⟩ := by
      rw [Include.count]
      omega
    rw [← hcount]
    refine (LoadsAtMost.ofExcept _).bind fun relation => ?_
    refine (LoadsAtMost.ofExcept _).bind fun target => ?_
    refine (loadsAtMost_loadByKeys source target _ (Key.nodup_distinct _)).bind fun related => ?_
    exact (hnested target related).bind fun _ => LoadsAtMost.pure _

theorem loadsAtMost_attachAll (entity : Entity) (rows : List Row) : ∀ includes : List Include,
    LoadsAtMost (Include.countAll includes) (attachAll source metadata entity rows includes)
  | [] => LoadsAtMost.pure _
  | i :: rest => by
    unfold attachAll
    exact (loadsAtMost_attach entity rows i).bind fun rows => loadsAtMost_attachAll entity rows rest

end

end Source

/-! ## Queries -/

/-- The loads of a query: one for its own rows, which the others follow by keys. -/
structure Query.LoadsOf (q : Query) (records : List LoadRecord) : Prop where
  length_le : records.length ≤ 1 + Include.countAll q.includes
  filter_eq : ∀ record ∈ records.head?, record.filter = q.filter
  keyed : ∀ record ∈ records.tail, record.IsKeyed
  nothing : q.matchesNothing = true → records = []

theorem Source.fetch_of_matchesNothing {q : Query} (h : q.matchesNothing = true) (source : DataSource)
    (metadata : Metadata) : Source.fetch source metadata q = pure [] := if_pos h

theorem Query.LoadsOf.none (q : Query) : q.LoadsOf [] where
  length_le := Nat.zero_le _
  filter_eq := by simp
  keyed := by simp
  nothing _ := rfl

theorem Source.loadsOf_fetch (source : DataSource) (metadata : Metadata) (q : Query) (l : Loading) :
    After (Source.fetch source metadata q) l fun _ l' =>
      ∃ records, Loading.Made records l l' ∧ q.LoadsOf records := by
  unfold Source.fetch
  split
  · exact ⟨[], .nil l, .none q⟩
  · rename_i hsome
    refine After.ofExcept_bind (fun e _ => ?_) fun _ _ => ⟨[], .nil l, .none q⟩
    rw [After.bind_iff]
    apply (Source.made_load source e q.filter l).mono
    rintro (err | rows) l₁ hfirst
    · refine ⟨_, hfirst, ⟨?_, by simp, by simp, fun h => absurd h hsome⟩⟩
      rw [List.length_singleton]
      omega
    · rw [either_ok]
      apply (Source.loadsAtMost_attachAll source metadata e rows q.includes l₁).mono
      rintro _ l' ⟨records, hmade, hlength, hkeyed⟩
      refine ⟨_, hfirst.append hmade, ⟨?_, by simp, hkeyed, fun h => absurd h hsome⟩⟩
      rw [List.singleton_append, List.length_cons]
      omega

/-! ## Mapping -/

/-- A fetcher is asked only for keys that rows can be fetched by. -/
def Request.IsFetchable : Request C → Prop
  | .reverse _ r | .entity _ r => r.key.isFetchable = true
  | .batch _ _ => True

/-- Some loads were made for what was begun before, and more requests were queued. -/
structure PassState.Made (records : List LoadRecord) (s s' : PassState C) : Prop where
  errands_eq : s'.journal.errands = s.journal.errands ++ records.map .load
  loads_eq : s'.stats.loads = s.stats.loads + records.length
  requests : ∃ new, s'.requests = s.requests ++ new ∧ ∀ r ∈ new, r.IsFetchable

namespace PassState.Made

theorem append {records records' : List LoadRecord} {s s' s'' : PassState C} (h : s.Made records s')
    (h' : s'.Made records' s'') : s.Made (records ++ records') s'' where
  errands_eq := by rw [h'.errands_eq, h.errands_eq, List.map_append, List.append_assoc]
  loads_eq := by rw [h'.loads_eq, h.loads_eq, List.length_append, Nat.add_assoc]
  requests := by
    obtain ⟨new, heq, hnew⟩ := h.requests
    obtain ⟨new', heq', hnew'⟩ := h'.requests
    refine ⟨new ++ new', by rw [heq', heq, List.append_assoc], fun r hr => ?_⟩
    exact (List.mem_append.mp hr).elim (hnew r) (hnew' r)

theorem of_eq {s s' : PassState C} (herrands : s'.journal.errands = s.journal.errands)
    (hloads : s'.stats.loads = s.stats.loads) (hrequests : s'.requests = s.requests) : s.Made [] s' where
  errands_eq := by rw [herrands, List.map_nil, List.append_nil]
  loads_eq := hloads
  requests := ⟨[], by rw [hrequests, List.append_nil], by simp⟩

end PassState.Made

/-- No load was made. -/
def Loadless (s s' : PassState C) : Prop := s.Made [] s'

instance : Std.Refl (Loadless (C := C)) := ⟨fun _ => .of_eq rfl rfl rfl⟩

instance : IsTrans (PassState C) Loadless := ⟨fun _ _ _ h h' => h.append h'⟩

namespace PassM

theorem loadless_record {e : Entry} (he : e.errand? = none) :
    Moves Loadless (record e : PassM C Unit) := by
  intro s
  rw [record_iff]
  exact .of_eq (by rw [Journal.errands_add, he, Option.toList_none, List.append_nil]) rfl rfl

theorem loadless_perform (action : Action α) : Moves Loadless (perform action : PassM C α) :=
  fun s => .of_eq (Journal.errands_addNotes s.journal _) rfl rfl

theorem loadless_assign (setting : Setting C) (a : Assignment C) (v : Value) (o : ObjectRef) :
    Moves Loadless (assign setting a v o) :=
  (loadless_perform _).bind fun _ => loadless_record rfl

theorem loadless_enqueue {request : Nat → Request C} (h : ∀ n, (request n).IsFetchable) :
    Moves Loadless (enqueue request) := by
  refine fun s => ⟨?_, rfl, [request s.queued], rfl, fun r hr => List.mem_singleton.mp hr ▸ h _⟩
  exact Journal.errands_add s.journal _

end PassM

/-- Mapping loads nothing. What it leaves for fetchers are keys that rows can be fetched by. -/
theorem loadless_mapSteps (setting : Setting C) : MapSteps setting (fun _ => True) Loadless where
  cached := PassM.moves_cached (fun _ _ _ => PassM.loadless_record rfl) setting
  allocate mapper key := PassM.moves_allocate PassM.loadless_perform
    (PassM.moves_remember (fun _ _ => .of_eq rfl rfl rfl) setting mapper key) fun _ => PassM.loadless_record rfl
  assign := PassM.loadless_assign setting
  requestOne a target o v _ := by
    unfold requestOne
    split
    · exact Moves.pure _
    · refine fun s => After.ofExcept_bind (fun key hkey => ?_) fun _ _ => Std.Refl.refl s
      refine PassM.loadless_enqueue ?_ s
      exact fun _ => (fetchKey_eq_ok.mp hkey).2
  requestBack a relation fetcher o v _ := by
    unfold requestBack
    split
    · exact Moves.pure _
    · refine fun s => After.ofExcept_bind (fun key hkey => ?_) fun _ _ => Std.Refl.refl s
      refine PassM.loadless_enqueue ?_ s
      exact fun _ => (fetchKey_eq_ok.mp hkey).2
  requestBatch a processor o v := by
    unfold requestBatch
    split
    · exact Moves.pure _
    · exact (Moves.ofExcept _).bind fun _ => PassM.loadless_enqueue fun _ => trivial
  defer _ _ := fun s => .of_eq rfl rfl rfl
  applied _ _ := PassM.loadless_record rfl
  completed _ := PassM.loadless_record rfl

/-! ## Groups -/

theorem made_materialize (setting : Setting C) (plan : Plan C) (q : Query) (s : PassState C) :
    After (materialize setting plan q) s fun _ s' =>
      ∃ records, s.Made records s' ∧ (q.withIncludes plan.includes).LoadsOf records := by
  unfold materialize
  refine After.bind (P := fun _ s₁ => ∃ records, s.Made records s₁ ∧
    (q.withIncludes plan.includes).LoadsOf records) (E := fun _ s₁ => ∃ records, s.Made records s₁ ∧
    (q.withIncludes plan.includes).LoadsOf records) ?_ ?_ fun _ _ h => h
  · rw [After.adapt_iff, PassM.loading_iff]
    apply (Source.loadsOf_fetch setting.source setting.metadata _ ⟨s.journal, s.stats.loads⟩).mono
    rintro (e | rows) l ⟨records, hmade, hrecords⟩ <;>
      exact ⟨records, ⟨hmade.errands_eq, hmade.loads_eq, [], (List.append_nil _).symm, by simp⟩, hrecords⟩
  · rintro rows s₁ ⟨records, hfetched, hrecords⟩
    have hmapped : Moves Loadless (do
        let transients ← ofExcept (rows.mapM fun row => plan.project row setting.ambient)
        transients.mapM fun t => do
          let o ← plan.map setting t
          return (t, o)) := by
      refine (Moves.ofExcept _).bind fun transients => Moves.mapM _ fun t _ => ?_
      exact (Plan.moves_map (loadless_mapSteps setting) plan plan.within_true t).bind fun _ => Moves.pure _
    apply (hmapped s₁).mono
    exact fun _ s' hs' => ⟨records, by simpa using hfetched.append hs', hrecords⟩

theorem loadless_deliver (setting : Setting C) (number : Nat) (d : Delivery C) (v : Value) :
    Moves Loadless (deliver setting number d v) := by
  unfold deliver
  refine (PassM.loadless_record rfl).bind fun _ => ?_
  split
  · exact PassM.loadless_assign setting _ _ _
  · exact Moves.pure _

theorem loadless_runScript (setting : Setting C) {n : Nat} (script : Script n)
    (pending : List (BatchRequest C)) (h : pending.length = n) :
    Moves Loadless (runScript setting script pending h) := by
  induction script generalizing pending with
  | finish => exact Moves.pure _
  | fail e => exact Moves.throw _
  | inspect next ih => exact (PassM.loadless_perform _).bind fun heap => ih heap pending h
  | set object field v next ih => exact (PassM.loadless_perform _).bind fun _ => ih pending h
  | create typeName fields next ih => exact (PassM.loadless_perform _).bind fun o => ih o pending h
  | note entry next ih => exact (PassM.loadless_record rfl).bind fun _ => ih pending h
  | apply i v next ih =>
    unfold runScript
    dsimp only
    refine Moves.bind (fun s => ?_) fun result => ih result (pending.eraseIdx i.val) _
    rw [PassM.attempt_iff]
    exact loadless_deliver setting _ _ v s

/-- The loads of a group of requests. Those of a fetcher begin with its own, by keys that rows can be
fetched by. -/
structure GroupKey.LoadsOf (allowance : GroupKey → Nat) (group : GroupKey) (records : List LoadRecord) :
    Prop where
  length_le : records.length ≤ allowance group
  keyed : ∀ record ∈ records, record.IsKeyed
  fetchable : ∀ record ∈ records.head?, ∀ f, record.filter = some f → ∀ k ∈ f.keys, k.isFetchable = true

/-- What a group is allowed is enough for the rows that its fetcher maps and for what these include. -/
structure Setting.Allows (setting : Setting C) (allowance : GroupKey → Nat) : Prop where
  entity : ∀ key fetcher, setting.fetchers.entity.get? key = some fetcher →
    1 + Include.countAll fetcher.plan.includes ≤ allowance (.entity key)
  reverse : ∀ key fetcher, setting.fetchers.reverse.get? key = some fetcher →
    1 + Include.countAll fetcher.plan.includes ≤ allowance (.reverse key)

/-- The errands for some groups: each was begun, and then its loads were made. -/
def errandsOf (groups : List (GroupKey × List LoadRecord)) : List Errand :=
  groups.flatMap fun g => .group g.1 :: g.2.map .load

/-- Some groups were resolved one after the other, and each made the loads that it is allowed. -/
structure PassState.Spent (allowance : GroupKey → Nat) (s s' : PassState C) : Prop where
  groups : ∃ groups : List (GroupKey × List LoadRecord),
    s'.journal.errands = s.journal.errands ++ errandsOf groups ∧
      s'.stats.loads = s.stats.loads + (groups.flatMap (·.2)).length ∧
      ∀ g ∈ groups, g.1.LoadsOf allowance g.2
  fetchable : (∀ r ∈ s.requests, r.IsFetchable) → ∀ r ∈ s'.requests, r.IsFetchable

theorem PassState.Made.fetchable {records : List LoadRecord} {s s' : PassState C} (h : s.Made records s')
    (hs : ∀ r ∈ s.requests, r.IsFetchable) : ∀ r ∈ s'.requests, r.IsFetchable := by
  obtain ⟨new, heq, hnew⟩ := h.requests
  rw [heq]
  exact fun r hr => (List.mem_append.mp hr).elim (hs r) (hnew r)

section

variable {allowance : GroupKey → Nat}

instance : Std.Refl (PassState.Spent (C := C) allowance) :=
  ⟨fun _ => ⟨⟨[], by simp [errandsOf], rfl, by simp⟩, id⟩⟩

instance : IsTrans (PassState C) (PassState.Spent allowance) := by
  refine ⟨?_⟩
  rintro s s' s'' ⟨⟨groups, herrands, hloads, hgroups⟩, hfetchable⟩
    ⟨⟨groups', herrands', hloads', hgroups'⟩, hfetchable'⟩
  refine ⟨⟨groups ++ groups', ?_, ?_, fun g hg => ?_⟩, fun hs => hfetchable' (hfetchable hs)⟩
  · rw [herrands', herrands, List.append_assoc]
    simp [errandsOf]
  · rw [hloads', hloads, List.flatMap_append, List.length_append, Nat.add_assoc]
  · exact (List.mem_append.mp hg).elim (hgroups g) (hgroups' g)

theorem Loadless.spent {s s' : PassState C} (h : Loadless s s') : s.Spent allowance s' where
  groups := ⟨[], by simpa [errandsOf] using h.errands_eq, h.loads_eq, by simp⟩
  fetchable := h.fetchable

theorem spent_of_loadless {x : PassM C α} (h : Moves Loadless x) : Moves (PassState.Spent allowance) x :=
  h.imp fun _ _ => Loadless.spent

theorem spent_group {group : GroupKey} {numbers : List Nat} {x : PassM C α} {s : PassState C}
    (h : ∀ s, After x s fun _ s' => ∃ records, s.Made records s' ∧ group.LoadsOf allowance records) :
    After (do
      beginGroup group numbers
      x) s fun _ s' => s.Spent allowance s' := by
  unfold beginGroup
  rw [After.bind_iff, After.bind_iff, After.modify_iff, either_ok, PassM.record_iff, either_ok]
  apply (h _).mono
  rintro _ s' ⟨records, hmade, hrecords⟩
  refine ⟨⟨[(group, records)], ?_, ?_, by simpa using hrecords⟩, hmade.fetchable⟩
  · rw [hmade.errands_eq, Journal.errands_add, List.append_assoc]
    simp [errandsOf, Entry.errand?]
  · rw [hmade.loads_eq]
    simp

theorem GroupKey.LoadsOf.none (group : GroupKey) : group.LoadsOf allowance [] where
  length_le := Nat.zero_le _
  keyed := by simp
  fetchable := by simp

/-- The requests of a group of a fetcher. -/
structure Asks (requests : List (KeyedRequest C)) : Prop where
  ne_nil : requests ≠ []
  fetchable : ∀ r ∈ requests, r.key.isFetchable = true

theorem Asks.loadsOf {requests : List (KeyedRequest C)} (h : Asks requests) {group : GroupKey}
    {includes : List Include} (hle : 1 + Include.countAll includes ≤ allowance group) {source column : String}
    {records : List LoadRecord}
    (hrecords : (((Query.all source).filterIn column (Key.distinct (requests.map (·.key)))).withIncludes
      includes).LoadsOf records) : group.LoadsOf allowance records where
  length_le := by
    have hlength := hrecords.length_le
    have hcount := Include.countAll_mergeAll includes []
    simp only [Query.all, Query.filterIn, Query.withIncludes, Include.countAll] at hlength hcount
    omega
  keyed record hrecord := by
    -- The first load asks for the keys themselves, the others for what is attached to its rows.
    cases records with
    | nil => simp at hrecord
    | cons first rest =>
      rcases List.mem_cons.mp hrecord with rfl | hrest
      · refine ⟨_, hrecords.filter_eq record rfl, fun hnil => ?_, Key.nodup_distinct _⟩
        obtain ⟨r, hr⟩ := List.exists_mem_of_ne_nil _ h.ne_nil
        have hmem := Key.mem_distinct.mpr (List.mem_map_of_mem (f := fun r => r.key) hr)
        exact List.ne_nil_of_mem hmem hnil
      · exact hrecords.keyed record hrest
  fetchable record hrecord f hf k hk := by
    rw [hrecords.filter_eq record hrecord] at hf
    obtain rfl := Option.some.inj hf
    obtain ⟨r, hr, rfl⟩ := List.mem_map.mp (Key.mem_distinct.mp hk)
    exact h.fetchable r hr

/-! ## Waves -/

variable {setting : Setting C} (hallows : setting.Allows allowance)

theorem made_serve (plan : Plan C) (q : Query) (text : String) (requests : List (KeyedRequest C))
    (value : List (Transient × ObjectRef) → KeyedRequest C → Value) (s : PassState C) :
    After (do
      PassM.debug text
      let mapped ← materialize setting plan q
      requests.forM fun r => deliver setting r.number r.delivery (value mapped r)) s
      fun _ s' => ∃ records, s.Made records s' ∧ (q.withIncludes plan.includes).LoadsOf records := by
  have hnoted : Loadless s { s with journal := s.journal.add (.note (.log ⟨.debug, text⟩)) } :=
    PassM.loadless_record (e := .note (.log ⟨.debug, text⟩)) rfl s
  unfold PassM.debug
  rw [After.bind_iff, PassM.record_iff, either_ok, After.bind_iff]
  apply (made_materialize setting plan q _).mono
  rintro (e | mapped) s₁ ⟨records, hmade, hrecords⟩
  · exact ⟨records, hnoted.append hmade, hrecords⟩
  · have hserved := Moves.forM requests fun r _ =>
      loadless_deliver setting r.number r.delivery (value mapped r)
    rw [either_ok]
    apply (hserved s₁).mono
    exact fun _ s' hs' => ⟨records, by simpa using (hnoted.append hmade).append hs', hrecords⟩

include hallows

theorem spent_resolveEntity (key : MapperKey) {requests : List (KeyedRequest C)} (h : Asks requests) :
    Moves (PassState.Spent allowance) (resolveEntity setting key requests) := by
  refine fun s => spent_group fun s₁ => After.ofExcept_bind (fun fetcher hfetcher => ?_) fun _ _ =>
    ⟨[], .of_eq rfl rfl rfl, .none _⟩
  have hle := hallows.entity key fetcher (requireEntity_eq_some hfetcher)
  apply (made_serve fetcher.plan _ _ requests _ s₁).mono
  exact fun _ _ ⟨records, hmade, hrecords⟩ => ⟨records, hmade, h.loadsOf hle hrecords⟩

theorem spent_resolveReverse (key : ReverseKey) {requests : List (KeyedRequest C)} (h : Asks requests) :
    Moves (PassState.Spent allowance) (resolveReverse setting key requests) := by
  refine fun s => spent_group fun s₁ => After.ofExcept_bind (fun fetcher hfetcher => ?_) fun _ _ =>
    ⟨[], .of_eq rfl rfl rfl, .none _⟩
  have hle := hallows.reverse key fetcher (requireReverse_eq_some hfetcher)
  apply (made_serve fetcher.plan _ _ requests _ s₁).mono
  exact fun _ _ ⟨records, hmade, hrecords⟩ => ⟨records, hmade, h.loadsOf hle hrecords⟩

theorem spent_resolveGroups {requests : List (Request C)} (h : ∀ r ∈ requests, r.IsFetchable) {g : Groups C}
    (hg : Groups.Of requests g) : Moves (PassState.Spent allowance) (resolveGroups setting g) := by
  unfold resolveGroups
  refine Moves.bind (Moves.forM _ ?_) fun _ => Moves.bind (Moves.forM _ ?_) fun _ => Moves.forM _ ?_
  · rintro ⟨key, rs⟩ hentry
    exact spent_resolveReverse hallows key ⟨hg.reverse.ne_nil hentry, fun r hr => h _ (hg.mem_reverse hentry hr)⟩
  · rintro ⟨key, rs⟩ hentry
    exact spent_resolveEntity hallows key ⟨hg.entity.ne_nil hentry, fun r hr => h _ (hg.mem_entity hentry hr)⟩
  · rintro ⟨id, p, rs⟩ -
    have hscript : Moves Loadless (resolveBatch setting p rs) := by
      unfold resolveBatch
      refine (loadless_runScript setting _ rs _).bind fun left => ?_
      split
      · exact Moves.pure _
      · exact Moves.throw _
    exact fun s => spent_group fun s₁ => (hscript s₁).mono fun _ _ hs' => ⟨[], hs', .none _⟩

omit hallows in
theorem loadless_beginWave : Moves Loadless (beginWave setting) := by
  intro s
  apply (beginWave_cases setting s).mono
  rintro (_ | _) _
  · rintro ⟨limit, -, -, -, rfl⟩
    exact .of_eq rfl rfl rfl
  · rintro ⟨-, -, rfl⟩
    refine .of_eq ?_ rfl rfl
    exact (Journal.errands_add _ _).trans (List.append_nil _)

theorem spent_runWave {requests : List (Request C)} (h : ∀ r ∈ requests, r.IsFetchable)
    (hooks : List (PendingHook C)) : Moves (PassState.Spent allowance) (runWave setting requests hooks) := by
  unfold runWave
  refine (spent_of_loadless loadless_beginWave).bind fun wave => ?_
  refine Moves.bind (spent_of_loadless (PassM.loadless_record rfl)) fun _ => ?_
  refine (spent_resolveGroups hallows h (Groups.of_ofList requests)).bind fun _ => ?_
  refine spent_of_loadless (Moves.forM _ fun hook _ => ?_)
  exact (PassM.loadless_record rfl).bind fun _ => PassM.loadless_perform _

/-- However many waves there are, each group makes the loads that it is allowed. -/
theorem spent_drain (waves : Nat) {s : PassState C} (h : ∀ r ∈ s.requests, r.IsFetchable) :
    After (drain setting waves) s fun _ s' => s.Spent allowance s' := by
  have hwave : ∀ s₁, s.Spent allowance s₁ → After (runWave setting s₁.requests s₁.hooks) s₁.taken
      (either (fun _ s' => s.Spent allowance s') fun _ s' => s.Spent allowance s') := by
    intro s₁ hs₁
    have htaken : s₁.Spent allowance s₁.taken :=
      ⟨⟨[], by simp [errandsOf, PassState.taken], rfl, by simp⟩, fun _ _ hr => absurd hr (by simp [PassState.taken])⟩
    apply (spent_runWave hallows (hs₁.fetchable h) s₁.hooks s₁.taken).mono
    rintro (_ | _) s₂ hs₂ <;> exact IsTrans.trans _ _ _ (IsTrans.trans _ _ _ hs₁ htaken) hs₂
  apply (drain_keeps hwave (fun _ hs => hs) waves (Std.Refl.refl s)).mono
  rintro (_ | _) s' hs'
  · exact hs'
  · exact hs'.1

end

end EntityMapping
