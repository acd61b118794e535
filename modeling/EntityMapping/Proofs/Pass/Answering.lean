import EntityMapping.Proofs.Code
import EntityMapping.Proofs.Delivery
import EntityMapping.Proofs.Identity
import EntityMapping.Proofs.Pass.Serving
import EntityMapping.Proofs.Source.Attaching

/-! # Answered requests

A fetcher asks one query for a group of requests, maps the rows of the answer and gives every request a value.
The objects stand in the order of the rows that the source answered with, and a key is read from a transient as
it stood in the row, unless a relation of the column's name was attached.
-/

namespace EntityMapping

variable {C α : Type}

/-! ## What was given -/

/-- A request and the value that it was given. -/
def Entry.delivery? : Entry → Option (Nat × Value)
  | .delivered request v => some (request, v)
  | _ => none

namespace Journal

/-- The requests that were given their values, in order. -/
def deliveries (j : Journal) : List (Nat × Value) := j.toList.filterMap (·.delivery?)

theorem deliveries_add (j : Journal) (e : Entry) : (j.add e).deliveries = j.deliveries ++ e.delivery?.toList := by
  unfold deliveries
  rw [toList_add, List.filterMap_append]
  cases h : e.delivery? <;> simp [h]

theorem Quiet.deliveries_eq {j j' : Journal} (h : Quiet j j') : j'.deliveries = j.deliveries := by
  obtain ⟨new, heq, hnew⟩ := h
  have hnone : new.filterMap (·.delivery?) = [] := by
    refine List.filterMap_eq_nil_iff.mpr fun e he => ?_
    have hsilent := hnew e he
    cases e with
    | note | load | served => rfl
    | _ => cases hsilent
  unfold deliveries
  rw [heq, List.filterMap_append, hnone, List.append_nil]

end Journal

/-- No request was given a value. -/
def Undelivered (s s' : PassState C) : Prop := s'.journal.deliveries = s.journal.deliveries

instance : Std.Refl (Undelivered (C := C)) := ⟨fun _ => rfl⟩

instance : IsTrans (PassState C) Undelivered := ⟨fun _ _ _ h h' => h'.trans h⟩

namespace Undelivered

variable {setting : Setting C}

theorem record {e : Entry} (h : e.delivery? = none) : Moves Undelivered (PassM.record e : PassM C Unit) := by
  intro s
  rw [PassM.record_iff]
  unfold Undelivered
  rw [Journal.deliveries_add, h]
  exact List.append_nil _

theorem assign (a : Assignment C) (v : Value) (o : ObjectRef) : Moves Undelivered (PassM.assign setting a v o) :=
  Moves.bind (fun s => (Journal.Quiet.addNotes s.journal _).deliveries_eq) fun _ => record rfl

/-- Mapping leaves no marks but those of requests that it queues. -/
theorem map (plan : Plan C) (t : Transient) : Moves Undelivered (plan.map setting t) := by
  intro s
  have hlonger := Plan.moves_map (longer_mapSteps setting) plan plan.within_true t s
  have hqueues := Plan.queues_map setting plan plan.within_true t s
  refine (hlonger.and hqueues).mono ?_
  rintro _ s' ⟨⟨new, hnew⟩, requests, hooks, -, -, haccount⟩
  have hmarks : s'.journal.marks = s.journal.marks ++ requests.map (·.mark) := congrArg Account.marks haccount
  have hnew : s'.journal.toList = s.journal.toList ++ new := hnew.symm
  unfold Journal.marks at hmarks
  rw [hnew, List.filterMap_append, List.append_cancel_left_eq] at hmarks
  have hnone : new.filterMap (·.delivery?) = [] := by
    -- A delivery would have left a mark, and the marks are those of queued requests.
    refine List.filterMap_eq_nil_iff.mpr fun e he => ?_
    cases e with
    | delivered request v =>
      have hmem : Mark.delivered request ∈ new.filterMap (·.mark?) := List.mem_filterMap.mpr ⟨_, he, rfl⟩
      rw [hmarks] at hmem
      obtain ⟨r, -, hr⟩ := List.mem_map.mp hmem
      cases hr
    | _ => rfl
  unfold Undelivered Journal.deliveries
  rw [hnew, List.filterMap_append, hnone, List.append_nil]

end Undelivered

theorem deliveries_deliver (setting : Setting C) (number : Nat) (d : Delivery C) (v : Value) (s : PassState C) :
    After (deliver setting number d v) s
      fun _ s' => s'.journal.deliveries = s.journal.deliveries ++ [(number, v)] := by
  unfold deliver
  rw [After.bind_iff, PassM.record_iff]
  have hadded : (s.journal.add (.delivered number v)).deliveries = s.journal.deliveries ++ [(number, v)] :=
    Journal.deliveries_add _ _
  split
  · exact (Undelivered.assign d.assignment _ d.object _).mono fun _ _ h => h.trans hadded
  · exact hadded

theorem deliveries_deliverEach (setting : Setting C) {β : Type} (number : β → Nat) (delivery : β → Delivery C)
    (value : β → Value) (requests : List β) (s : PassState C) :
    After (requests.forM fun r => deliver setting (number r) (delivery r) (value r)) s
      (either (fun _ s' => s'.journal.deliveries =
        s.journal.deliveries ++ requests.map fun r => (number r, value r)) fun e _ =>
          ∃ r ∈ requests, ∃ s₁, ((deliver setting (number r) (delivery r) (value r)).run.run s₁).1 = .error e) := by
  have hloop := After.forM (f := fun r => deliver setting (number r) (delivery r) (value r)) (s := s)
    (E := fun e (_ : PassState C) => ∃ r ∈ requests, ∃ s₁,
      ((deliver setting (number r) (delivery r) (value r)).run.run s₁).1 = .error e)
    (I := fun rest (s' : PassState C) => s'.journal.deliveries ++ rest.map (fun r => (number r, value r)) =
      s.journal.deliveries ++ requests.map fun r => (number r, value r)) requests ?_ rfl
  · refine hloop.imp (fun _ s' h => ?_) fun _ _ h => h
    rwa [List.map_nil, List.append_nil] at h
  · intro r rest s₁ hr hs₁
    apply (deliveries_deliver setting (number r) (delivery r) (value r) s₁).keep.mono
    rintro (e | _) s' ⟨hran, hs'⟩
    · exact ⟨r, hr, s₁, congrArg Prod.fst hran⟩
    · rw [either_ok, hs', List.append_assoc]
      exact hs₁

/-! ## Mapped answers -/

/-- The source answers the query with rows, relations are attached to them, the rows are projected and the
transients mapped. -/
inductive Materialized (setting : Setting C) (plan : Plan C) (q : Query) (s : PassState C) (loaded : List Row)
    (transients : List Transient) (objects : List ObjectRef) (s' : PassState C) : Prop
  | mk {e : Entity} {l l' : Loading} {rows : List Row} : setting.metadata.entity? q.entity = some e →
    (setting.source.load e q.filter).run.run ⟨s.journal, s.stats.loads⟩ = (.ok loaded, l) →
    (Source.attachAll setting.source setting.metadata e loaded q.includes).run.run l = (.ok rows, l') →
    rows.mapM (fun row => plan.project row setting.ambient) = .ok transients →
    (transients.mapM fun t => plan.map setting t).run.run
      { s with journal := l'.journal, stats := { s.stats with loads := l'.loads } } = (.ok objects, s') →
    Materialized setting plan q s loaded transients objects s'

theorem mapM_pair {β : Type} (f : α → PassM C β) (l : List α) :
    (l.mapM fun a => do let b ← f a; return (a, b)) = (fun bs => l.zip bs) <$> l.mapM f := by
  induction l with
  | nil => rfl
  | cons a l ih =>
    rw [List.mapM_cons, List.mapM_cons, ih]
    simp only [bind_assoc, pure_bind, map_bind, map_pure, bind_map_left, List.zip_cons_cons]

theorem run_loading_eq_ok {work : LoadM α} {a : α} {s s' : PassState C} :
    (PassM.loading work : PassM C α).run.run s = (.ok a, s') ↔
      ∃ l, work.run.run ⟨s.journal, s.stats.loads⟩ = (.ok a, l) ∧
        { s with journal := l.journal, stats := { s.stats with loads := l.loads } } = s' := by
  change ((work.run.run ⟨s.journal, s.stats.loads⟩).1, { s with
    journal := (work.run.run ⟨s.journal, s.stats.loads⟩).2.journal
    stats := { s.stats with loads := (work.run.run ⟨s.journal, s.stats.loads⟩).2.loads } }) = _ ↔ _
  generalize work.run.run ⟨s.journal, s.stats.loads⟩ = ran
  obtain ⟨result, l⟩ := ran
  constructor
  · intro h
    obtain ⟨rfl, rfl⟩ := Prod.mk.inj h
    exact ⟨l, rfl, rfl⟩
  · rintro ⟨_, hran, rfl⟩
    obtain ⟨rfl, rfl⟩ := Prod.mk.inj hran
    rfl

theorem Source.run_fetch_eq_ok {source : DataSource} {metadata : Metadata} {q : Query}
    (hsome : q.matchesNothing = false) {l₀ l' : Loading} {rows : List Row} :
    (fetch source metadata q).run.run l₀ = (.ok rows, l') ↔
      ∃ e loaded l, metadata.entity? q.entity = some e ∧
        (source.load e q.filter).run.run l₀ = (.ok loaded, l) ∧
        (attachAll source metadata e loaded q.includes).run.run l = (.ok rows, l') := by
  unfold fetch
  rw [if_neg (by simp [hsome]), After.run_bind_eq_ok]
  simp only [After.run_ofExcept_eq_ok, After.run_bind_eq_ok, requireEntity_eq_ok]
  grind

theorem materialized_of_run {setting : Setting C} {plan : Plan C} {q : Query} (hsome : q.matchesNothing = false)
    {s s' : PassState C} {mapped : List (Transient × ObjectRef)}
    (h : (materialize setting plan q).run.run s = (.ok mapped, s')) :
    ∃ loaded transients objects, mapped = transients.zip objects ∧
      Materialized setting plan (q.withIncludes plan.includes) s loaded transients objects s' := by
  unfold materialize at h
  obtain ⟨rows, s₁, hrows, h⟩ := After.run_bind_eq_ok.mp h
  obtain ⟨l', hfetch, rfl⟩ := run_loading_eq_ok.mp (After.run_adapt_eq_ok.mp hrows)
  have hwanted : (q.withIncludes plan.includes).matchesNothing = false := hsome
  obtain ⟨e, loaded, l, he, hloaded, hattached⟩ := (Source.run_fetch_eq_ok hwanted).mp hfetch
  obtain ⟨transients, s₂, hproject, h⟩ := After.run_bind_eq_ok.mp h
  obtain ⟨htransients, rfl⟩ := After.run_ofExcept_eq_ok.mp hproject
  rw [mapM_pair] at h
  obtain ⟨objects, hobjects, rfl⟩ := After.run_map_eq_ok.mp h
  exact ⟨loaded, transients, objects, rfl, .mk he hloaded hattached htransients hobjects⟩

namespace Materialized

variable {setting : Setting C} {plan : Plan C} {q : Query} {s s' : PassState C} {loaded : List Row}
  {transients : List Transient} {objects : List ObjectRef}
  (h : Materialized setting plan q s loaded transients objects s')
include h

theorem attached : ∃ e l l' rows, setting.metadata.entity? q.entity = some e ∧
    Source.AttachedSince setting.source setting.metadata l l' e q.includes loaded rows ∧
    rows.mapM (fun row => plan.project row setting.ambient) = .ok transients := by
  obtain ⟨he, hload, hattach, hproject, -⟩ := h
  rename_i e l l' rows
  have hgave := (Source.gave_load setting.source e q.filter _).of_run hload
  have hgrown := (Source.made_load setting.source e q.filter _).of_run hload
  have hloaded : Source.AttachedSince setting.source setting.metadata ⟨s.journal, s.stats.loads⟩ l e []
      loaded loaded :=
    List.forall₂_same.mpr fun row hrow => .loaded (hgave.2 row hrow)
  have hprefix : s.journal.loads <+: l.journal.loads := hgrown.loads_append ▸ List.prefix_append _ _
  exact ⟨e, _, l', rows, he,
    (Source.attached_attachAll setting.source q.includes e hprefix hloaded).of_run hattach, hproject⟩

theorem map_value {column : String} {slot : Nat} (hcolumn : column ∉ q.includes.map (·.relation))
    (hslot : plan.head.carriers[slot]? = some column) :
    transients.map (·.value slot) = loaded.map (·.value column) := by
  obtain ⟨e, l, l', rows, -, hattached, hproject⟩ := h.attached
  have hkept : rows.map (·.value column) = loaded.map (·.value column) := by
    refine (map_eq_map_of_forall₂ (hattached.imp fun before row hrow => ?_)).symm
    exact congrArg (·.getD .null) (hrow.get?_eq hcolumn).symm
  rw [← hkept]
  refine (map_eq_map_of_forall₂ ((mapM_eq_ok.mp hproject).imp fun row t ht => ?_)).symm
  rw [Plan.project_eq] at ht
  obtain ⟨slots, -, rfl⟩ := map_eq_ok.mp ht
  exact (value_carrier hslot).symm

theorem length_eq : objects.length = loaded.length := by
  obtain ⟨e, l, l', rows, -, hattached, hproject⟩ := h.attached
  obtain ⟨-, -, -, -, hobjects⟩ := h
  rw [After.length_of_run_mapM hobjects, ← (mapM_eq_ok.mp hproject).length_eq, ← hattached.length_eq]

end Materialized

/-! ## Rows by their keys -/

/-- The objects of the rows that hold a key in a column, in the order of the rows. -/
def objectsHolding (column : String) (loaded : List Row) (objects : List ObjectRef) (k : Key) : List ObjectRef :=
  ((loaded.zip objects).filter fun m => (m.1.value column).asKey? = some k).map (·.2)

theorem map_filter_zip {β γ δ : Type} {f : α → γ} {g : β → γ} {l : List α} {l' : List β} (h : l.map f = l'.map g)
    (objects : List δ) (p : γ → Bool) :
    ((l.zip objects).filter fun m => p (f m.1)).map (·.2) =
      ((l'.zip objects).filter fun m => p (g m.1)).map (·.2) := by
  have hread : ∀ {ε : Type} (f : ε → γ) (l : List ε), ((l.zip objects).filter fun m => p (f m.1)).map (·.2) =
      (((l.map f).zip objects).filter fun m => p m.1).map (·.2) := by
    intro ε f l
    rw [List.zip_map_left, List.filter_map, List.map_map]
    rfl
  rw [hread, hread, h]

theorem Materialized.filter_eq {setting : Setting C} {plan : Plan C} {q : Query} {s s' : PassState C}
    {loaded : List Row} {transients : List Transient} {objects : List ObjectRef}
    (h : Materialized setting plan q s loaded transients objects s') {column : String} {slot : Nat}
    (hcolumn : column ∉ q.includes.map (·.relation)) (hslot : plan.head.carriers[slot]? = some column) (k : Key) :
    ((transients.zip objects).filter fun m => (m.1.value slot).asKey? = some k).map (·.2) =
      objectsHolding column loaded objects k :=
  map_filter_zip (f := fun t : Transient => t.value slot) (g := fun row : Row => row.value column)
    (h.map_value hcolumn hslot) objects fun v : Value => v.asKey? = some k

/-! ## Serving a group -/

theorem Undelivered.materialize (setting : Setting C) (plan : Plan C) (q : Query) :
    Moves Undelivered (materialize setting plan q) := by
  unfold EntityMapping.materialize
  refine Moves.bind (fun s => ?_) fun rows => (Moves.ofExcept _).bind fun transients => ?_
  · rw [After.adapt_iff, PassM.loading_iff]
    exact (quiet_fetch setting.source setting.metadata _ _).mono fun _ _ h => h.deliveries_eq
  · exact Moves.mapM _ fun t _ => (Undelivered.map plan t).bind fun _ => Moves.pure _

theorem served_of_run {setting : Setting C} {plan : Plan C} {text : String} {q : Query}
    (hsome : q.matchesNothing = false) {requests : List (KeyedRequest C)}
    {value : List (Transient × ObjectRef) → KeyedRequest C → Value} {s s' : PassState C}
    (h : (do
      PassM.debug text
      let mapped ← materialize setting plan q
      requests.forM fun r => deliver setting r.number r.delivery (value mapped r) : PassM C Unit).run.run s =
        (.ok (), s')) :
    ∃ s₀ loaded transients objects s₁, (PassM.debug text).run.run s = (.ok (), s₀) ∧
      Materialized setting plan (q.withIncludes plan.includes) s₀ loaded transients objects s₁ ∧
      (requests.forM fun r => deliver setting r.number r.delivery (value (transients.zip objects) r)).run.run s₁ =
        (.ok (), s') ∧
      s'.journal.deliveries =
        s.journal.deliveries ++ requests.map fun r => (r.number, value (transients.zip objects) r) := by
  obtain ⟨⟨⟩, s₀, hnoted, h⟩ := After.run_bind_eq_ok.mp h
  obtain ⟨mapped, s₁, hmapped, hgiven⟩ := After.run_bind_eq_ok.mp h
  obtain ⟨loaded, transients, objects, rfl, hmaterialized⟩ := materialized_of_run hsome hmapped
  refine ⟨s₀, loaded, transients, objects, s₁, hnoted, hmaterialized, hgiven, ?_⟩
  have hdebug : Undelivered s s₀ :=
    After.of_run (Undelivered.record (e := .note (.log ⟨.debug, text⟩)) rfl s) hnoted
  have hquiet := (Undelivered.materialize setting plan q s₀).of_run hmapped
  rw [(deliveries_deliverEach setting (·.number) (·.delivery) _ requests s₁).of_run hgiven, hquiet, hdebug]

/-! ## Filled fields -/

/-- What giving a value does to the objects: what the transposer makes of the chosen value fits the item and is
stored. If none is chosen, everything stays as it was. -/
inductive Delivery.Puts (d : Delivery C) (ambient : C) : Option Value → (before after : Heap) → Prop
  | nothing {h : Heap} : Puts d ambient none h h
  | stored {v w : Value} {h h' : Heap} {notes : List Note} :
    (d.assignment.transpose v ambient).run h = ⟨.ok w, h', notes⟩ → d.assignment.expected.accepts w = true →
    Puts d ambient (some v) h (h'.set d.object d.assignment.field w)

/-- The same of values that are given one after the other. -/
inductive PutsAll (ambient : C) : List (Delivery C × Value) → (before after : Heap) → Prop
  | nil {h : Heap} : PutsAll ambient [] h h
  | cons {d : Delivery C} {v : Value} {given : List (Delivery C × Value)} {h h₁ h' : Heap} :
    d.Puts ambient (d.chosen v) h h₁ → PutsAll ambient given h₁ h' → PutsAll ambient ((d, v) :: given) h h'

theorem Assignment.assign_eq_ok {a : Assignment C} {v : Value} {o : ObjectRef} {ambient : C} {h : Heap}
    (hok : ((a.assign v o ambient).run h).result = .ok ()) :
    ∃ w h' notes, (a.transpose v ambient).run h = ⟨.ok w, h', notes⟩ ∧ a.expected.accepts w = true ∧
      ((a.assign v o ambient).run h).heap = h'.set o a.field w := by
  rw [run_assign] at hok ⊢
  split at hok
  · cases hok
  · rename_i w h' notes hran
    split at hok
    · rename_i haccepts
      exact ⟨w, h', notes, hran, haccepts, by rw [if_pos haccepts]⟩
    · cases hok

theorem puts_of_run {setting : Setting C} {number : Nat} {d : Delivery C} {v : Value} {s s' : PassState C}
    (h : (deliver setting number d v).run.run s = (.ok (), s')) :
    d.Puts setting.ambient (d.chosen v) s.heap s'.heap := by
  unfold deliver at h
  obtain ⟨⟨⟩, s₁, hnoted, h⟩ := After.run_bind_eq_ok.mp h
  have hheap : s₁.heap = s.heap := by rw [← (Prod.mk.inj hnoted).2]
  rw [← hheap]
  cases hchosen : d.chosen v with
  | none =>
    rw [hchosen] at h
    obtain rfl := (Prod.mk.inj h).2
    exact .nothing
  | some w =>
    rw [hchosen] at h
    obtain ⟨⟨⟩, s₂, hran, hnoted⟩ := After.run_bind_eq_ok.mp h
    obtain ⟨hresult, rfl⟩ := Prod.mk.inj hran
    obtain ⟨x, heap, notes, htransposed, haccepts, hstored⟩ := Assignment.assign_eq_ok hresult
    rw [← (Prod.mk.inj hnoted).2]
    exact hstored ▸ .stored htransposed haccepts

theorem putsAll_of_run {setting : Setting C} {β : Type} {number : β → Nat} {delivery : β → Delivery C}
    {value : β → Value} {requests : List β} {s s' : PassState C}
    (h : (requests.forM fun r => deliver setting (number r) (delivery r) (value r)).run.run s = (.ok (), s')) :
    PutsAll setting.ambient (requests.map fun r => (delivery r, value r)) s.heap s'.heap := by
  induction requests generalizing s with
  | nil =>
    obtain rfl : s = s' := (Prod.mk.inj h).2
    exact .nil
  | cons r requests ih =>
    obtain ⟨s₁, hfirst, hrest⟩ := After.run_forM_cons_eq_ok.mp h
    exact .cons (puts_of_run hfirst) (ih hrest)

theorem PutsAll.exists_of_append {ambient : C} {front back : List (Delivery C × Value)} {h h' : Heap}
    (hputs : PutsAll ambient (front ++ back) h h') :
    ∃ h₁, PutsAll ambient front h h₁ ∧ PutsAll ambient back h₁ h' := by
  induction front generalizing h with
  | nil => exact ⟨h, .nil, hputs⟩
  | cons p front ih =>
    cases hputs with
    | cons hp hrest =>
      obtain ⟨h₁, hfront, hback⟩ := ih hrest
      exact ⟨h₁, .cons hp hfront, hback⟩

theorem Heap.get_set_of_ne {h : Heap} {o p : ObjectRef} {field other : String} (v : Value)
    (hne : o.id = p.id → field ≠ other) : (h.set o field v).get p other = h.get p other := by
  unfold get fields set
  rw [Array.getElem?_modify]
  split
  · rename_i hid
    cases h.objects[p.id]? with
    | none => rfl
    | some fields => exact congrArg (·.getD .null) (Dict.get?_set_of_ne fields v (hne hid))
  · rfl

theorem Heap.get_set_self {h : Heap} {o : ObjectRef} (ho : o.id < h.size) (field : String) (v : Value) :
    (h.set o field v).get o field = v := by
  unfold get
  rw [fields_set h o o field v ho, if_pos rfl, Dict.get?_set_self]
  rfl

/-- The transposer looks at the objects at most. -/
def Assignment.Spares (a : Assignment C) (ambient : C) : Prop := ∀ v h, ((a.transpose v ambient).run h).heap = h

theorem Assignment.Spares.heap_eq {a : Assignment C} {ambient : C} (hspares : a.Spares ambient) {v : Value}
    {h h' : Heap} {result : Except Error Value} {notes : List Note}
    (hrun : (a.transpose v ambient).run h = ⟨result, h', notes⟩) : h' = h := by
  have hheap := hspares v h
  rwa [hrun] at hheap

namespace Delivery

/-- The delivery goes to another field, or to another object. -/
def Apart (d d' : Delivery C) : Prop := d.object.id = d'.object.id → d.assignment.field ≠ d'.assignment.field

/-- The field ends as what the transposer makes of the chosen value, which fits the item. If none is chosen, it stays
as it was. -/
def EndsAs (d : Delivery C) (ambient : C) (chosen : Option Value) (before after : Heap) : Prop :=
  match chosen with
  | none => after.get d.object d.assignment.field = before.get d.object d.assignment.field
  | some v => ∃ h w, ((d.assignment.transpose v ambient).run h).result = .ok w ∧
      d.assignment.expected.accepts w = true ∧ after.get d.object d.assignment.field = w

namespace Puts

variable {d d' : Delivery C} {ambient : C} {chosen : Option Value} {h h' : Heap} (hputs : d.Puts ambient chosen h h')
  (hspares : d.assignment.Spares ambient)
include hputs hspares

theorem size_eq : h'.size = h.size := by
  cases hputs with
  | nothing => rfl
  | stored htransposed _ =>
    obtain rfl := hspares.heap_eq htransposed
    exact Heap.size_set _ _ _ _

theorem get_eq (hapart : d.Apart d') :
    h'.get d'.object d'.assignment.field = h.get d'.object d'.assignment.field := by
  cases hputs with
  | nothing => rfl
  | stored htransposed _ =>
    obtain rfl := hspares.heap_eq htransposed
    exact Heap.get_set_of_ne _ hapart

theorem endsAs (hobject : d.object.id < h.size) : d.EndsAs ambient chosen h h' := by
  cases hputs with
  | nothing => rfl
  | stored htransposed haccepts =>
    obtain rfl := hspares.heap_eq htransposed
    exact ⟨_, _, by rw [htransposed], haccepts, Heap.get_set_self hobject _ _⟩

end Puts

end Delivery

/-- Objects stay. -/
def Extending (s s' : PassState C) : Prop := s.heap.size ≤ s'.heap.size

instance : Std.Refl (Extending (C := C)) := ⟨fun _ => Nat.le_refl _⟩

instance : IsTrans (PassState C) Extending := ⟨fun _ _ _ => Nat.le_trans⟩

theorem extending_mapSteps (setting : Setting C) : MapSteps setting (fun _ => True) Extending :=
  mapSteps_of_primitives (fun _ _ => Nat.le_refl _) (fun x s => (x.extends_run s.heap).size)
    (fun _ _ => Nat.le_refl _) (fun _ _ => Nat.le_refl _) fun _ _ _ => Nat.le_refl _

theorem Materialized.extending {setting : Setting C} {plan : Plan C} {q : Query} {s s' : PassState C}
    {loaded : List Row} {transients : List Transient} {objects : List ObjectRef}
    (h : Materialized setting plan q s loaded transients objects s') : s.heap.size ≤ s'.heap.size := by
  obtain ⟨-, -, -, -, hobjects⟩ := h
  have hmoves : Moves Extending (transients.mapM fun t => plan.map setting t) :=
    Moves.mapM _ fun t _ => Plan.moves_map (extending_mapSteps setting) plan plan.within_true t
  have hextending := (hmoves _).of_run hobjects
  exact hextending

theorem Materialized.size_le_of_noted {setting : Setting C} {text : String} {plan : Plan C} {q : Query}
    {s s₀ s' : PassState C} {loaded : List Row} {transients : List Transient} {objects : List ObjectRef}
    (h : Materialized setting plan q s₀ loaded transients objects s')
    (hnoted : (PassM.debug text).run.run s = (.ok (), s₀)) : s.heap.size ≤ s'.heap.size := by
  have hheap : s₀.heap = s.heap := by rw [← (Prod.mk.inj hnoted).2]
  exact hheap ▸ h.extending

namespace PutsAll

variable {ambient : C} {h h' : Heap}

theorem get_eq {d : Delivery C} {given : List (Delivery C × Value)} (hputs : PutsAll ambient given h h')
    (hspares : ∀ p ∈ given, p.1.assignment.Spares ambient) (hapart : ∀ p ∈ given, p.1.Apart d) :
    h'.size = h.size ∧ h'.get d.object d.assignment.field = h.get d.object d.assignment.field := by
  induction hputs with
  | nil => exact ⟨rfl, rfl⟩
  | cons hp _ ih =>
    obtain ⟨hspared, hspares⟩ := List.forall_mem_cons.mp hspares
    obtain ⟨hother, hapart⟩ := List.forall_mem_cons.mp hapart
    obtain ⟨hsize, hget⟩ := ih hspares hapart
    exact ⟨hsize.trans (hp.size_eq hspared), hget.trans (hp.get_eq hspared hother)⟩

/-- A field that one value goes to ends as this value has it. -/
theorem endsAs {d : Delivery C} {v : Value} {front back : List (Delivery C × Value)}
    (hputs : PutsAll ambient (front ++ (d, v) :: back) h h')
    (hspares : ∀ p ∈ front ++ (d, v) :: back, p.1.assignment.Spares ambient)
    (hapart : ∀ p ∈ front ++ back, p.1.Apart d) (hobject : d.object.id < h.size) :
    d.EndsAs ambient (d.chosen v) h h' := by
  obtain ⟨h₁, hfront, hrest⟩ := hputs.exists_of_append
  cases hrest with
  | cons hd hback =>
    rw [List.forall_mem_append, List.forall_mem_cons] at hspares
    rw [List.forall_mem_append] at hapart
    obtain ⟨hsize, hbefore⟩ := hfront.get_eq hspares.1 hapart.1
    obtain ⟨-, hafter⟩ := hback.get_eq hspares.2.2 hapart.2
    have hends := hd.endsAs hspares.2.1 (hsize ▸ hobject)
    unfold Delivery.EndsAs at hends ⊢
    split at hends
    · rw [hafter, hends, hbefore]
    · obtain ⟨heap, w, hw, haccepts, hend⟩ := hends
      exact ⟨heap, w, hw, haccepts, hafter.trans hend⟩

end PutsAll

/-- A field that one request of a group goes to ends as the value of this request has it. -/
theorem endsAs_of_run {setting : Setting C} {β : Type} {number : β → Nat} {delivery : β → Delivery C}
    {value : β → Value} {requests front back : List β} {r : β} (hsplit : requests = front ++ r :: back)
    (hspares : ∀ q ∈ requests, (delivery q).assignment.Spares setting.ambient)
    (hapart : ∀ q ∈ front ++ back, (delivery q).Apart (delivery r)) {s s' : PassState C}
    (hobject : (delivery r).object.id < s.heap.size)
    (h : (requests.forM fun r => deliver setting (number r) (delivery r) (value r)).run.run s = (.ok (), s')) :
    (delivery r).EndsAs setting.ambient ((delivery r).chosen (value r)) s.heap s'.heap := by
  have hputs := putsAll_of_run h
  have hspared : ∀ p ∈ requests.map fun q => (delivery q, value q), p.1.assignment.Spares setting.ambient :=
    List.forall_mem_map.mpr hspares
  have hothers : ∀ p ∈ (front ++ back).map fun q => (delivery q, value q), p.1.Apart (delivery r) :=
    List.forall_mem_map.mpr hapart
  rw [hsplit, List.map_append, List.map_cons] at hputs hspared
  rw [List.map_append] at hothers
  exact hputs.endsAs hspared hothers hobject

end EntityMapping
