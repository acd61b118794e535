import EntityMapping.Proofs.Faults
import EntityMapping.Proofs.Pass.Destinations

/-! # Invariants of a pass

An invariant of a pass is shown step by step: for a destination that is made, an assignment, a request
that is queued, a value that is delivered, a script and a hook. What requests are made for and what hooks
are deferred is kept account of here, so that a step may take it for granted.
-/

namespace EntityMapping

variable {C α β : Type}

/-! ## What is queued -/

/-- A processor is asked for an item of its style, and gives it all of the value. -/
def Request.Suits (i : Item C) : Request C → Prop
  | .batch processor r => i.style = .batch processor ∧ r.delivery.takesFirst = false
  | _ => True

/-- The request was queued for an item of the mapper that its destination is of. -/
structure Request.Posted (r : Registry C) (es : List Entry) (q : Request C) : Prop where
  queued : .queued q.number q.group q.delivery.object ∈ es
  owned : ∃ a ∈ r.registrations, IsDestination a q.delivery.object es ∧
    ∃ i ∈ a.mapper.items, q.delivery.assignment = .ofItem i ∧ q.Suits i

theorem Request.Posted.mono {r : Registry C} {es es' : List Entry} {q : Request C} (h : q.Posted r es)
    (hle : es ⊆ es') : q.Posted r es' := by
  obtain ⟨hqueued, a, ha, ho, hi⟩ := h
  exact ⟨hle hqueued, a, ha, ho.mono hle, hi⟩

/-- The hook was deferred for a destination of its mapper. -/
def PendingHook.Posted (r : Registry C) (es : List Entry) (h : PendingHook C) : Prop :=
  ∃ a ∈ r.registrations, IsDestination a h.object es ∧ a.mapper.after[h.place]? = some h.hook

theorem PendingHook.Posted.mono {r : Registry C} {es es' : List Entry} {h : PendingHook C} (hh : h.Posted r es)
    (hle : es ⊆ es') : h.Posted r es' := by
  obtain ⟨a, ha, ho, hplace⟩ := hh
  exact ⟨a, ha, ho.mono hle, hplace⟩

/-- Everything that is queued was queued by mappers of the registry. -/
structure Stocked (r : Registry C) (s : PassState C) : Prop where
  requests : ∀ q ∈ s.requests, q.Posted r s.entries
  hooks : ∀ pending ∈ s.hooks, pending.Posted r s.entries

/-- The queues are left alone, and the journal grows. -/
structure Aside (s s' : PassState C) : Prop where
  requests : s'.requests = s.requests
  hooks : s'.hooks = s.hooks
  entries : s.entries ⊆ s'.entries

instance : Std.Refl (Aside (C := C)) := ⟨fun _ => ⟨rfl, rfl, List.Subset.refl _⟩⟩

instance : IsTrans (PassState C) Aside :=
  ⟨fun _ _ _ h h' => ⟨h'.requests.trans h.requests, h'.hooks.trans h.hooks,
    List.Subset.trans h.entries h'.entries⟩⟩

theorem Stocked.aside {r : Registry C} {s s' : PassState C} (h : Stocked r s) (ha : Aside s s') :
    Stocked r s' where
  requests q hq := (h.requests q (ha.requests ▸ hq)).mono ha.entries
  hooks pending hpending := (h.hooks pending (ha.hooks ▸ hpending)).mono ha.entries

/-- The entry tells of no destination, no assignment, no request and no hook. -/
def Entry.IsNeutral : Entry → Prop
  | .allocated _ _ _ | .assigned _ _ | .queued _ _ _ | .delivered _ _ | .hooked _ _ => False
  | _ => True

theorem Entry.IsSilent.isNeutral {e : Entry} (h : e.IsSilent) : e.IsNeutral := by
  cases e with
  | note | load | served => trivial
  | _ => cases h

/-- The objects are left alone too, and what is written down is of no weight. -/
structure Still (s s' : PassState C) : Prop where
  heap : s'.heap = s.heap
  queued : s'.queued = s.queued
  entries : ∃ new, s'.entries = s.entries ++ new ∧ ∀ e ∈ new, e.IsNeutral

instance : Std.Refl (Still (C := C)) := ⟨fun _ => ⟨rfl, rfl, [], by simp, by simp⟩⟩

instance : IsTrans (PassState C) Still := by
  refine ⟨fun s s' s'' h h' => ⟨h'.heap.trans h.heap, h'.queued.trans h.queued, ?_⟩⟩
  obtain ⟨new, hentries, hnew⟩ := h.entries
  obtain ⟨new', hentries', hnew'⟩ := h'.entries
  exact ⟨new ++ new', by rw [hentries', hentries, List.append_assoc],
    List.forall_mem_append.mpr ⟨hnew, hnew'⟩⟩

/-- Nothing but the shared destinations and the statistics changes, and what is written down is of no
weight. -/
def Idle (s s' : PassState C) : Prop := Still s s' ∧ Aside s s'

instance : Std.Refl (Idle (C := C)) := ⟨fun s => ⟨Std.Refl.refl s, Std.Refl.refl s⟩⟩

instance : IsTrans (PassState C) Idle :=
  ⟨fun _ _ _ h h' => ⟨IsTrans.trans _ _ _ h.1 h'.1, IsTrans.trans _ _ _ h.2 h'.2⟩⟩

namespace PassM

theorem idle_of_entries {s s' : PassState C} (hheap : s'.heap = s.heap) (hqueued : s'.queued = s.queued)
    (hrequests : s'.requests = s.requests) (hhooks : s'.hooks = s.hooks) {new : List Entry}
    (hentries : s'.entries = s.entries ++ new) (hnew : ∀ e ∈ new, e.IsNeutral) : Idle s s' :=
  ⟨⟨hheap, hqueued, new, hentries, hnew⟩, hrequests, hhooks, hentries ▸ List.subset_append_left _ _⟩

theorem idle_record {e : Entry} (h : e.IsNeutral) : Moves Idle (record e : PassM C Unit) := fun _ =>
  idle_of_entries rfl rfl rfl rfl (Journal.toList_add _ _) fun _ he => List.mem_singleton.mp he ▸ h

theorem idle_cached (setting : Setting C) (mapper : MapperKey) (key : Option Key) :
    Moves Idle (cached setting mapper key) :=
  moves_cached (fun _ _ _ => idle_record (by trivial)) setting mapper key

theorem idle_loading {work : LoadM α} (h : Moves Loading.Quiet work) :
    Moves Idle (loading work : PassM C α) := by
  intro s
  obtain ⟨new, hentries, hnew⟩ := h ⟨s.journal, s.stats.loads⟩
  exact idle_of_entries rfl rfl rfl rfl hentries fun e he => (hnew e he).isNeutral

theorem idle_beginGroup (group : GroupKey) (numbers : List Nat) :
    Moves Idle (beginGroup group numbers : PassM C Unit) :=
  Moves.bind (fun s => idle_of_entries rfl rfl rfl rfl (List.append_nil _).symm (by simp))
    fun _ => idle_record trivial

theorem idle_beginWave (setting : Setting C) : Moves Idle (beginWave setting) := by
  intro s
  apply (beginWave_cases setting s).mono
  rintro (_ | _) _
  · rintro ⟨limit, -, -, -, rfl⟩
    exact idle_of_entries rfl rfl rfl rfl (List.append_nil _).symm (by simp)
  · rintro ⟨-, -, rfl⟩
    refine idle_of_entries rfl rfl rfl rfl (Journal.toList_add _ _) fun e he => ?_
    exact List.mem_singleton.mp he ▸ trivial

/-! ## Steps that leave the queues alone -/

theorem aside_record (e : Entry) : Moves Aside (record e : PassM C Unit) := by
  intro s
  refine ⟨rfl, rfl, ?_⟩
  change s.journal.toList ⊆ (s.journal.add e).toList
  rw [Journal.toList_add]
  exact List.subset_append_left _ _

theorem aside_perform (action : Action α) : Moves Aside (perform action : PassM C α) := by
  intro s
  obtain ⟨new, hentries, -⟩ := Journal.Quiet.addNotes s.journal (action.run s.heap).notes
  refine ⟨rfl, rfl, ?_⟩
  change s.journal.toList ⊆ (s.journal.addNotes _).toList
  rw [hentries]
  exact List.subset_append_left _ _

theorem aside_assign (setting : Setting C) (a : Assignment C) (v : Value) (o : ObjectRef) :
    Moves Aside (assign setting a v o) := (aside_perform _).bind fun _ => aside_record _

/-- The state after a request was queued. -/
def queueing (request : Nat → Request C) (s : PassState C) : PassState C :=
  let q := request s.queued
  { s with
    requests := s.requests ++ [q]
    queued := s.queued + 1
    journal := s.journal.add (.queued q.number q.group q.delivery.object) }

theorem enqueue_iff {request : Nat → Request C} {s : PassState C}
    {Q : Except Error Unit → PassState C → Prop} :
    After (enqueue request) s Q ↔ Q (.ok ()) (queueing request s) := Iff.rfl

theorem entries_queueing (request : Nat → Request C) (s : PassState C) :
    (queueing request s).entries = s.entries ++
      [.queued (request s.queued).number (request s.queued).group (request s.queued).delivery.object] :=
  Journal.toList_add _ _

end PassM

theorem aside_deliver (setting : Setting C) (number : Nat) (d : Delivery C) (v : Value) :
    Moves Aside (deliver setting number d v) := by
  unfold deliver
  refine (PassM.aside_record _).bind fun _ => ?_
  split
  · exact PassM.aside_assign _ _ _ _
  · exact Moves.pure _

theorem aside_runScript (setting : Setting C) {n : Nat} (script : Script n)
    (pending : List (BatchRequest C)) (hlength : pending.length = n) :
    Moves Aside (runScript setting script pending hlength) := by
  induction script generalizing pending with
  | finish => exact Moves.pure _
  | fail e => exact Moves.throw _
  | inspect next ih => exact (PassM.aside_perform _).bind fun heap => ih heap pending _
  | set o field v next ih => exact (PassM.aside_perform _).bind fun _ => ih pending _
  | create typeName fields next ih => exact (PassM.aside_perform _).bind fun o => ih o pending _
  | note entry next ih => exact (PassM.aside_record _).bind fun _ => ih pending _
  | apply i v next ih =>
    unfold runScript
    refine Moves.bind (fun s => ?_) fun result => ih result _ _
    rw [PassM.attempt_iff]
    exact aside_deliver _ _ _ _ s

/-! ## Upholding -/

/-- The steps of a pass keep an invariant, each with what is known when it is taken. -/
structure Upholding (r : Registry C) (source : DataSource) (ambient : C) (I : PassState C → Prop) :
    Prop where
  still : ∀ s s', Still s s' → I s → I s'
  allocate : ∀ a ∈ r.registrations, ∀ key o s s', Allocated r a key a.plan.defaults s o s' →
    s'.queued = s.queued → I s → I s'
  assign : ∀ a ∈ r.registrations, ∀ i ∈ a.mapper.items, ∀ o s, I s → IsDestination a o s.entries → ∀ v,
    After (PassM.assign (r.setting source ambient) (.ofItem i) v o) s
      (either (fun _ s' => I s') fun _ _ => True)
  enqueue : ∀ (request : Nat → Request C) s, (∀ n, (request n).number = n) → I s →
    I (PassM.queueing request s)
  deliver : ∀ (q : Request C) s, q.Posted r s.entries → I s → ∀ v,
    After (deliver (r.setting source ambient) q.number q.delivery v) s
      (either (fun _ s' => I s') fun _ _ => True)
  script : ∀ a ∈ r.registrations, ∀ i ∈ a.mapper.items, ∀ p, i.style = .batch p →
    ∀ (requests : List (BatchRequest C)) s,
    (∀ q ∈ requests, ∃ p', (Request.batch p' q).Posted r s.entries) → I s →
    After (runScript (r.setting source ambient) (p.process (requests.map (·.key)) ambient) requests
      (by simp)) s (either (fun _ s' => I s') fun _ _ => True)
  hook : ∀ (pending : PendingHook C) s, pending.Posted r s.entries → I s →
    After (runHook (r.setting source ambient) pending) s (either (fun _ s' => I s') fun _ _ => True)

/-- Work that keeps an invariant and the account of what is queued, when it begins after some entries. -/
def Upholds (r : Registry C) (I : PassState C → Prop) (es : List Entry) (x : PassM C α) : Prop :=
  ∀ s, Stocked r s → I s → es ⊆ s.entries →
    After x s (either (fun _ s' => Stocked r s' ∧ I s' ∧ s.entries ⊆ s'.entries) fun _ _ => True)

namespace Upholds

variable {r : Registry C} {I : PassState C → Prop} {es : List Entry}

theorem pure (v : α) : Upholds r I es (pure v : PassM C α) :=
  fun _ hs hI _ => ⟨hs, hI, List.Subset.refl _⟩

theorem throw (e : Error) : Upholds r I es (throw e : PassM C α) := fun _ _ _ _ => trivial

theorem bind {x : PassM C α} {f : α → PassM C β} (hx : Upholds r I es x)
    (hf : ∀ v, Upholds r I es (f v)) : Upholds r I es (x >>= f) := by
  intro s hs hI hes
  refine After.bind (hx s hs hI hes) ?_ fun _ _ _ => trivial
  rintro v s₁ ⟨hs₁, hI₁, hle⟩
  refine (hf v s₁ hs₁ hI₁ (List.Subset.trans hes hle)).imp ?_ fun _ _ _ => trivial
  rintro _ _ ⟨hs₂, hI₂, hle'⟩
  exact ⟨hs₂, hI₂, List.Subset.trans hle hle'⟩

theorem ofExcept_bind {result : Except Error α} {f : α → PassM C β}
    (hf : ∀ v, result = .ok v → Upholds r I es (f v)) :
    Upholds r I es ((ofExcept result : PassM C α) >>= f) := by
  cases result with
  | ok v => exact hf v rfl
  | error e => exact throw e

theorem forM {ι : Type} {f : ι → PassM C PUnit} (l : List ι) (h : ∀ i ∈ l, Upholds r I es (f i)) :
    Upholds r I es (l.forM f) := by
  induction l with
  | nil => exact pure _
  | cons i l ih => exact bind (h i (by simp)) fun _ => ih fun j hj => h j (List.mem_cons_of_mem _ hj)

theorem mapM {ι : Type} {f : ι → PassM C β} (l : List ι) (h : ∀ i ∈ l, Upholds r I es (f i)) :
    Upholds r I es (l.mapM f) := by
  induction l with
  | nil => exact pure _
  | cons i l ih =>
    rw [List.mapM_cons]
    refine bind (h i (by simp)) fun _ => ?_
    exact bind (ih fun j hj => h j (List.mem_cons_of_mem _ hj)) fun _ => pure _

theorem of_aside {x : PassM C α} (ha : Moves Aside x)
    (h : ∀ s, I s → es ⊆ s.entries → After x s (either (fun _ s' => I s') fun _ _ => True)) :
    Upholds r I es x := by
  intro s hs hI hes
  apply (After.and (ha s) (h s hI hes)).mono
  rintro (e | v) s' ⟨haside, hresult⟩
  · trivial
  · exact ⟨hs.aside haside, hresult, haside.entries⟩

end Upholds

namespace Upholding

variable {metadata : Metadata} {config : Config} {declared : List (MapperDeclaration C)}
  {resolved : List (Mapper C)} {r : Registry C} {source : DataSource} {ambient : C}
  {I : PassState C → Prop} {es : List Entry} (h : Upholding r source ambient I)
include h

theorem of_idle {x : PassM C α} (hx : Moves Idle x) : Upholds r I es x := by
  intro s hs hI _
  apply (hx s).mono
  rintro (e | v) s' ⟨hstill, haside⟩
  · trivial
  · exact ⟨hs.aside haside, h.still s s' hstill hI, haside.entries⟩

/-! ## Mapping -/

theorem upholds_assign {a : Registration C} (ha : a ∈ r.registrations) {i : Item C}
    (hi : i ∈ a.mapper.items) {o : ObjectRef} (ho : IsDestination a o es) (v : Value) :
    Upholds r I es (PassM.assign (r.setting source ambient) (.ofItem i) v o) :=
  .of_aside (PassM.aside_assign _ _ _ _) fun s hI hes => h.assign a ha i hi o s hI (ho.mono hes) v

theorem upholds_enqueue {request : Nat → Request C} (hnumber : ∀ n, (request n).number = n)
    (howned : ∀ n, ∃ a ∈ r.registrations, IsDestination a (request n).delivery.object es ∧
      ∃ i ∈ a.mapper.items, (request n).delivery.assignment = .ofItem i ∧ (request n).Suits i) :
    Upholds r I es (PassM.enqueue request) := by
  intro s hs hI hes
  rw [PassM.enqueue_iff]
  have hle : s.entries ⊆ (PassM.queueing request s).entries := by
    rw [PassM.entries_queueing]
    exact List.subset_append_left _ _
  refine ⟨⟨fun q hq => ?_, fun pending hpending => (hs.hooks pending hpending).mono hle⟩,
    h.enqueue request s hnumber hI, hle⟩
  rcases List.mem_append.mp hq with hq | hq
  · exact (hs.requests q hq).mono hle
  · obtain rfl := List.mem_singleton.mp hq
    obtain ⟨a, ha, ho, hi⟩ := howned s.queued
    refine ⟨?_, a, ha, ho.mono (List.Subset.trans hes hle), hi⟩
    rw [PassM.entries_queueing]
    exact List.mem_append_right _ (List.mem_singleton.mpr rfl)

theorem upholds_fill (hbuilt : Registry.Built metadata config declared resolved r) {a : Registration C}
    (ha : a ∈ r.registrations)
    (hmaps : ∀ b ∈ r.registrations, DependsOn r.mappers a.mapper.key b.mapper.key → ∀ t,
      Upholds r I es (b.plan.map (r.setting source ambient) t))
    {p : Assignment C × Route C} (hp : p ∈ a.plan.items) (slot : Slot) {o : ObjectRef}
    (ho : IsDestination a o es) :
    Upholds r I es (p.2.fill (r.setting source ambient) p.1 slot o) := by
  have hembedded := fun (plan : Plan C) (hplan : p.2.embedded? = some plan) =>
    hbuilt.exists_embedded ha hp hplan
  obtain ⟨i, hi, hassignment, hfollows⟩ := hbuilt.committed.follows ha hp
  obtain ⟨assignment, route⟩ := p
  obtain rfl : assignment = .ofItem i := hassignment
  have hassign := fun v => h.upholds_assign ha hi ho v
  cases route with
  | copy source => exact hassign _
  | batch source processor =>
    unfold Route.fill requestBatch
    split
    · exact .pure _
    · refine .ofExcept_bind fun _ _ => h.upholds_enqueue (fun _ => rfl) fun _ => ?_
      exact ⟨a, ha, ho, i, hi, rfl, hfollows.2, rfl⟩
  | fetchOne path foreignKey target =>
    unfold Route.fill requestOne
    split
    · exact .pure _
    · refine .ofExcept_bind fun _ _ => h.upholds_enqueue (fun _ => rfl) fun _ => ?_
      exact ⟨a, ha, ho, i, hi, rfl, trivial⟩
  | fetchBack path relation fetcher =>
    unfold Route.fill requestBack
    split
    · exact .pure _
    · refine .ofExcept_bind fun _ _ => h.upholds_enqueue (fun _ => rfl) fun _ => ?_
      exact ⟨a, ha, ho, i, hi, rfl, trivial⟩
  | embed source plan =>
    obtain ⟨b, hb, hneeds, rfl⟩ := hembedded _ rfl
    cases slot with
    | embedded t =>
      cases t with
      | some t => exact .bind (hmaps b hb hneeds t) fun _ => hassign _
      | none => exact hassign _
    | value | sequence => exact .throw _
  | embedEach source plan =>
    obtain ⟨b, hb, hneeds, rfl⟩ := hembedded _ rfl
    cases slot with
    | sequence ts =>
      cases ts with
      | some ts => exact .bind (.mapM ts fun t _ => hmaps b hb hneeds t) fun _ => hassign _
      | none => exact .pure _
    | value | embedded => exact .throw _

theorem upholds_fillItems (hbuilt : Registry.Built metadata config declared resolved r)
    {a : Registration C} (ha : a ∈ r.registrations)
    (hmaps : ∀ b ∈ r.registrations, DependsOn r.mappers a.mapper.key b.mapper.key → ∀ t,
      Upholds r I es (b.plan.map (r.setting source ambient) t))
    {items : List (Assignment C × Route C)} (hitems : items ⊆ a.plan.items) (slots : List Slot)
    {o : ObjectRef} (ho : IsDestination a o es) :
    Upholds r I es (fillItems (r.setting source ambient) items slots o) := by
  induction items generalizing slots with
  | nil => exact .pure _
  | cons p items ih =>
    obtain ⟨hp, hitems⟩ := List.cons_subset.mp hitems
    cases slots with
    | nil => exact .throw _
    | cons slot slots =>
      refine .bind (h.upholds_fill hbuilt ha hmaps hp slot ho) fun _ => ?_
      exact .bind (h.of_idle (PassM.idle_record (by trivial))) fun _ => ih hitems slots

theorem upholds_defer (hbuilt : Registry.Built metadata config declared resolved r) {a : Registration C}
    (ha : a ∈ r.registrations) {o : ObjectRef} (ho : IsDestination a o es) :
    Upholds r I es (PassM.defer o a.plan.head.after : PassM C Unit) := by
  intro s hs hI hes
  refine ⟨⟨hs.requests, fun pending hpending => ?_⟩, ?_, List.Subset.refl _⟩
  · rcases List.mem_append.mp hpending with hpending | hpending
    · exact hs.hooks pending hpending
    · obtain ⟨⟨hook, place⟩, hmem, rfl⟩ := List.mem_map.mp hpending
      exact ⟨a, ha, ho.mono hes, hbuilt.after_eq ha ▸ List.mem_zipIdx_iff_getElem?.mp hmem⟩
  · refine h.still s _ ?_ hI
    exact ⟨rfl, rfl, [], (List.append_nil _).symm, by simp⟩

theorem after_allocate (hbuilt : Registry.Built metadata config declared resolved r) {a : Registration C}
    (ha : a ∈ r.registrations) (key : Option Key) {s : PassState C} (hs : Stocked r s) (hI : I s) :
    After (PassM.allocate (r.setting source ambient) a.plan.head.key key a.plan.defaults) s (either
      (fun o s' => Stocked r s' ∧ I s' ∧ s.entries ⊆ s'.entries ∧ IsDestination a o s'.entries)
      fun _ _ => False) := by
  have hkey : a.plan.head.key = a.mapper.key := hbuilt.committed.key_eq ha
  rw [hkey]
  have hallocated := EntityMapping.after_allocate r source ambient a key a.plan.defaults s
  apply (hallocated.and (PassM.same_allocate _ _ _ _ s)).mono
  rintro (e | o) s' ⟨hmade, hsame⟩
  · exact hmade
  rw [either_ok] at hmade
  have haside : Aside s s' := ⟨hmade.requests, hmade.hooks, by
    rw [hmade.entries]
    exact List.subset_append_left _ _⟩
  refine ⟨hs.aside haside, h.allocate a ha key o s s' hmade (congrArg Account.queued hsame) hI,
    haside.entries, key, ?_⟩
  rw [hmade.entries]
  exact List.mem_append_right _ (List.mem_singleton.mpr rfl)

theorem upholds_map (hbuilt : Registry.Built metadata config declared resolved r) {a : Registration C}
    (ha : a ∈ r.registrations) (t : Transient) :
    Upholds r I es (a.plan.map (r.setting source ambient) t) := by
  revert t es
  refine hbuilt.induct (P := fun a => ∀ {es : List Entry} (t : Transient),
    Upholds r I es (a.plan.map (r.setting source ambient) t)) (fun a ha ih es t => ?_) ha
  rw [Plan.map_eq]
  refine .bind (h.of_idle (PassM.idle_cached _ _ _)) fun found => ?_
  split
  · exact .pure _
  intro s hs hI hes
  refine After.bind (h.after_allocate hbuilt ha _ hs hI) ?_ fun _ _ h => h.elim
  rintro o s₁ ⟨hs₁, hI₁, hle, ho⟩
  -- From here on, the destination is one of the mapper.
  have hrest : Upholds r I s₁.entries (do
      fillItems (r.setting source ambient) a.plan.items (t.drop a.plan.head.carriers.length) o
      PassM.defer o a.plan.head.after
      PassM.record (.completed o)
      return o : PassM C ObjectRef) := by
    refine .bind (h.upholds_fillItems hbuilt ha (fun b hb hneeds t => ih b hb hneeds t)
      (List.Subset.refl _) _ ho) fun _ => ?_
    refine .bind (h.upholds_defer hbuilt ha ho) fun _ => ?_
    exact .bind (h.of_idle (PassM.idle_record (by trivial))) fun _ => .pure _
  refine (hrest s₁ hs₁ hI₁ (List.Subset.refl _)).imp ?_ fun _ _ _ => trivial
  rintro _ _ ⟨hs₂, hI₂, hle'⟩
  exact ⟨hs₂, hI₂, List.Subset.trans hle hle'⟩

/-! ## Resolving -/

theorem upholds_materialize (hbuilt : Registry.Built metadata config declared resolved r)
    {a : Registration C} (ha : a ∈ r.registrations) (q : Query) :
    Upholds r I es (materialize (r.setting source ambient) a.plan q) := by
  unfold materialize
  dsimp only
  refine .bind (h.of_idle fun s => ?_) fun rows => .ofExcept_bind fun transients _ => .mapM _ fun t _ => ?_
  · exact After.adapt_iff.mpr (PassM.idle_loading (quiet_fetch _ _ _) s)
  · exact .bind (h.upholds_map hbuilt ha t) fun _ => .pure _

theorem upholds_deliver {q : Request C} (hq : q.Posted r es) (v : Value) :
    Upholds r I es (EntityMapping.deliver (r.setting source ambient) q.number q.delivery v) :=
  .of_aside (aside_deliver _ _ _ _) fun s hI hes => h.deliver q s (hq.mono hes) hI v

theorem upholds_resolveReverse (hbuilt : Registry.Built metadata config declared resolved r)
    (key : ReverseKey) {requests : List (KeyedRequest C)}
    (hrequests : ∀ q ∈ requests, (Request.reverse key q).Posted r es) :
    Upholds r I es (resolveReverse (r.setting source ambient) key requests) := by
  unfold resolveReverse
  refine .bind (h.of_idle (PassM.idle_beginGroup _ _)) fun _ => .ofExcept_bind fun fetcher hfetcher => ?_
  obtain ⟨hplan, -⟩ := hbuilt.supplied.reverse key fetcher (requireReverse_eq_some hfetcher)
  obtain ⟨a, ha, -, hplan⟩ := hbuilt.committed.get?_plansOf.mp hplan
  unfold ReverseFetcher.resolve
  refine .bind (h.of_idle (PassM.idle_record (by trivial))) fun _ => ?_
  refine .bind (hplan ▸ h.upholds_materialize hbuilt ha _) fun mapped => .forM _ fun q hq => ?_
  exact h.upholds_deliver (hrequests q hq) _

theorem upholds_resolveEntity (hbuilt : Registry.Built metadata config declared resolved r)
    (key : MapperKey) {requests : List (KeyedRequest C)}
    (hrequests : ∀ q ∈ requests, (Request.entity key q).Posted r es) :
    Upholds r I es (resolveEntity (r.setting source ambient) key requests) := by
  unfold resolveEntity
  refine .bind (h.of_idle (PassM.idle_beginGroup _ _)) fun _ => .ofExcept_bind fun fetcher hfetcher => ?_
  obtain ⟨hplan, -⟩ := hbuilt.supplied.entity key fetcher (requireEntity_eq_some hfetcher)
  obtain ⟨a, ha, -, hplan⟩ := hbuilt.committed.get?_plansOf.mp hplan
  unfold EntityFetcher.resolve
  refine .bind (h.of_idle (PassM.idle_record (by trivial))) fun _ => ?_
  refine .bind (hplan ▸ h.upholds_materialize hbuilt ha _) fun mapped => .forM _ fun q hq => ?_
  exact h.upholds_deliver (hrequests q hq) _

theorem upholds_resolveBatch {a : Registration C} (ha : a ∈ r.registrations) {i : Item C}
    (hi : i ∈ a.mapper.items) {p : Processor C} (hp : i.style = .batch p)
    {requests : List (BatchRequest C)}
    (hrequests : ∀ q ∈ requests, ∃ p', (Request.batch p' q).Posted r es) :
    Upholds r I es (resolveBatch (r.setting source ambient) p requests) := by
  unfold resolveBatch
  refine .bind (.of_aside (aside_runScript _ _ _ _) fun s hI hes => ?_) fun left => ?_
  · refine h.script a ha i hi p hp requests s (fun q hq => ?_) hI
    obtain ⟨p', hposted⟩ := hrequests q hq
    exact ⟨p', hposted.mono hes⟩
  · split
    · exact .pure _
    · exact .throw _

theorem upholds_resolveGroups (hbuilt : Registry.Built metadata config declared resolved r)
    {requests : List (Request C)} (hrequests : ∀ q ∈ requests, q.Posted r es) :
    Upholds r I es (resolveGroups (r.setting source ambient) (Groups.ofList requests)) := by
  have hof := Groups.of_ofList requests
  unfold resolveGroups
  refine .bind (.forM _ fun e he => ?_) fun _ => .bind (.forM _ fun e he => ?_) fun _ =>
    .forM _ fun e he => ?_
  · exact h.upholds_resolveReverse hbuilt e.1 fun q hq => hrequests _ (hof.mem_reverse he hq)
  · exact h.upholds_resolveEntity hbuilt e.1 fun q hq => hrequests _ (hof.mem_entity he hq)
  · obtain ⟨⟨q, hq⟩, hfrom⟩ := Groups.fromRequests_ofList requests e he
    obtain ⟨a, ha, -, i, hi, -, hsuits⟩ := (hrequests _ hq).owned
    refine .bind (h.of_idle (PassM.idle_beginGroup _ _)) fun _ => ?_
    refine h.upholds_resolveBatch ha hi hsuits.1 fun q hq => ?_
    obtain ⟨p, -, hmem⟩ := hfrom q hq
    exact ⟨p, hrequests _ hmem⟩

/-! ## Waves -/

theorem upholds_runHook {pending : PendingHook C} (hpending : pending.Posted r es) :
    Upholds r I es (runHook (r.setting source ambient) pending) :=
  .of_aside ((PassM.aside_record _).bind fun _ => PassM.aside_perform _) fun s hI hes =>
    h.hook pending s (hpending.mono hes) hI

theorem upholds_runWave (hbuilt : Registry.Built metadata config declared resolved r)
    {requests : List (Request C)} (hrequests : ∀ q ∈ requests, q.Posted r es)
    {hooks : List (PendingHook C)}
    (hhooks : ∀ pending ∈ hooks, pending.Posted r es) :
    Upholds r I es (runWave (r.setting source ambient) requests hooks) := by
  unfold runWave
  refine .bind (h.of_idle (PassM.idle_beginWave _)) fun wave => ?_
  refine .bind (h.of_idle (PassM.idle_record (by trivial))) fun _ => ?_
  refine .bind (h.upholds_resolveGroups hbuilt hrequests) fun _ => .forM _ fun pending hpending => ?_
  exact h.upholds_runHook (hhooks pending hpending)

theorem upholds_drain (hbuilt : Registry.Built metadata config declared resolved r) (waves : Nat) :
    Upholds r I es (drain (r.setting source ambient) waves) := by
  intro s hs hI hes
  refine (drain_keeps (I := fun s' => Stocked r s' ∧ I s' ∧ s.entries ⊆ s'.entries) (E := fun _ _ => True) ?_
    (fun _ _ => trivial) waves ⟨hs, hI, List.Subset.refl _⟩).imp (fun _ _ hs => hs.1) fun _ _ _ => trivial
  rintro s₁ ⟨hs₁, hI₁, hle⟩
  -- What is taken from the queues was queued before.
  have htaken : Stocked r s₁.taken := ⟨by simp [PassState.taken], by simp [PassState.taken]⟩
  have hItaken : I s₁.taken := h.still s₁ s₁.taken ⟨rfl, rfl, [], (List.append_nil _).symm, by simp⟩ hI₁
  have hwave := h.upholds_runWave hbuilt hs₁.requests hs₁.hooks
  refine (hwave s₁.taken htaken hItaken (List.Subset.refl _)).imp ?_ fun _ _ _ => trivial
  rintro _ s' ⟨hs', hI', hle'⟩
  exact ⟨hs', hI', List.Subset.trans hle hle'⟩

/-- A pass that gives a result ends in a state of which the invariant holds. -/
theorem after_mapping (hbuilt : Registry.Built metadata config declared resolved r) (q : Query)
    (destination : String) (heap : Heap) (hI : I (.initial heap)) :
    After (r.mapping q destination source ambient) (.initial heap)
      (either (fun _ s => Stocked r s ∧ I s) fun _ _ => True) := by
  have hmapping : Upholds r I [] (r.mapping q destination source ambient) := by
    unfold Registry.mapping
    refine .ofExcept_bind fun a ha => ?_
    obtain ⟨hmem, -⟩ := Registry.mem_of_find? (Registry.require_eq_ok.mp ha)
    unfold Registry.mapBy
    refine .bind (h.upholds_materialize hbuilt hmem q) fun roots => ?_
    refine .bind (h.upholds_drain hbuilt _) fun _ => ?_
    refine .bind (h.of_idle fun s => Std.Refl.refl s) fun s => ?_
    exact .bind (h.of_idle (PassM.idle_record (by trivial))) fun _ => .pure _
  have hstocked : Stocked r (.initial heap) := ⟨by simp [PassState.initial], by simp [PassState.initial]⟩
  refine (hmapping _ hstocked hI (by simp)).imp ?_ fun _ _ _ => trivial
  rintro _ _ ⟨hs, hI, -⟩
  exact ⟨hs, hI⟩

theorem of_map (hbuilt : Registry.Built metadata config declared resolved r) {q : Query} {destination : String}
    {heap : Heap} (hI : I (.initial heap)) {mapped : Mapped}
    (hmapped : (r.map q destination source ambient heap).1 = .ok mapped) :
    I (r.map q destination source ambient heap).2 := by
  have hpass := h.after_mapping hbuilt q destination heap hI
  unfold After at hpass
  unfold Registry.map at hmapped ⊢
  rw [hmapped] at hpass
  exact hpass.2

end Upholding

end EntityMapping
