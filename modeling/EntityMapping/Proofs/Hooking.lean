import EntityMapping.Proofs.Evaluation
import EntityMapping.Proofs.Pass.Effects
import EntityMapping.Proofs.Pass.Settling

/-! # The order of hooks

Hooks run on complete objects. When the first hook of a destination runs, all that was asked for while it
was mapped is in place, and the destinations that it took in while it was mapped are done with their own
hooks.
-/

open Relation (TransGen ReflTransGen)

namespace EntityMapping

variable {C : Type}

/-! ## Spans -/

/-- What was written down between the allocation of a destination and its completion. -/
def Spans (es : List Entry) (o : ObjectRef) (inside : List Entry) : Prop :=
  ∃ before mapper key after, es = before ++ .allocated mapper key o :: inside ++ .completed o :: after

/-- While the first object was mapped, the second became the destination of a transient. -/
def TakesIn (es : List Entry) (o p : ObjectRef) : Prop :=
  ∃ inside, Spans es o inside ∧ ∃ d ∈ destinationsIn inside, d.object = p

namespace Lawful

variable {r : Registry C} {base : Nat} {es front front' rest rest' : List Entry} {o p : ObjectRef}

theorem front_eq (h : Lawful r base es) (hsplit : es = front ++ .completed o :: rest)
    (hsplit' : es = front' ++ .completed o :: rest') : front = front' := by
  have hnot := (h _ _ _ hsplit).1
  have hnot' := (h _ _ _ hsplit').1
  rcases List.append_eq_append_iff.mp (hsplit.symm.trans hsplit') with ⟨more, rfl, hmore⟩ | ⟨more, rfl, hmore⟩
  · cases more with
    | nil => exact (List.append_nil _).symm
    | cons e more =>
      obtain ⟨rfl, -⟩ := List.cons.inj hmore
      exact absurd (by simp) hnot'
  · cases more with
    | nil => exact List.append_nil _
    | cons e more =>
      obtain ⟨rfl, -⟩ := List.cons.inj hmore
      exact absurd (by simp) hnot

theorem exists_span (h : Lawful r base es) {d : Destination} (hd : d ∈ destinationsIn es)
    (hcompleted : .completed d.object ∈ es) : ∃ inside, Spans es d.object inside := by
  obtain ⟨before, rest, rfl⟩ := List.append_of_mem (h.allocated hd)
  rcases List.mem_append.mp hcompleted with hcompleted | hcompleted
  · -- It would have been allocated twice.
    obtain ⟨front, more, rfl, -, ⟨a, -, ⟨key, hallocated⟩, -⟩, -⟩ := (Obeys.front h).of_mem hcompleted
    have hlaw := h _ _ _ rfl
    have hmem : (⟨a.mapper.key, key, d.object⟩ : Destination) ∈
        destinationsIn (front ++ .completed d.object :: more) :=
      mem_destinationsIn.mpr (Or.inl (List.mem_append_left _ hallocated))
    exact absurd (hlaw.2.2 _ hmem).1 (Nat.lt_irrefl _)
  · obtain ⟨inside, after, rfl⟩ := List.append_of_mem ((List.mem_cons.mp hcompleted).resolve_left (by simp))
    exact ⟨inside, before, d.mapper, d.key, after, by simp⟩

theorem completed_of_takesIn (h : Lawful r base es) (htakes : TransGen (TakesIn es) o p)
    (hsplit : es = front ++ .completed o :: rest) :
    ∃ front' rest', front = front' ++ .completed p :: rest' := by
  have hstep : ∀ {o p : ObjectRef} {front rest : List Entry}, TakesIn es o p →
      es = front ++ .completed o :: rest → .completed p ∈ front := by
    rintro o _ front rest ⟨inside, ⟨before, mapper, key, after, heq⟩, d, hd, rfl⟩ hsplit
    obtain rfl := h.front_eq hsplit heq
    exact (h _ _ _ heq).2.2 before mapper key inside rfl d hd
  induction htakes with
  | single htakes => exact List.append_of_mem (hstep htakes hsplit)
  | tail _ htakes ih =>
    obtain ⟨front', rest', rfl⟩ := ih
    obtain ⟨front'', rest'', rfl⟩ := List.append_of_mem (hstep htakes (by rw [hsplit, List.append_assoc]; rfl))
    exact ⟨front'', _, by rw [List.append_assoc]; rfl⟩

/-- When a hook runs, all is delivered that was asked for while its destination, or one that it took in,
was mapped. -/
theorem delivered_of_hooked (h : Lawful r base es) {hook : Nat} (hhooked : es = front ++ .hooked o hook :: rest)
    (htakes : ReflTransGen (TakesIn es) o p) {inside : List Entry} (hspan : Spans es p inside) :
    (queuedIn (marksOf inside)).map (·.1) ⊆ deliveredIn (marksOf front) := by
  obtain ⟨front', more, hfront, hserved⟩ : Cleared o front := h _ _ _ hhooked
  have hsplit : es = front' ++ .completed o :: (more ++ .hooked o hook :: rest) := by
    rw [hhooked, hfront, List.append_assoc]
    rfl
  obtain ⟨before, mapper, key, after, heq⟩ := hspan
  -- The span ends before the destination of the hook is completed.
  have hbefore : ∃ later, front' = before ++ .allocated mapper key p :: inside ++ later := by
    rcases Relation.reflTransGen_iff_eq_or_transGen.mp htakes with rfl | htakes
    · exact ⟨[], by rw [List.append_nil]; exact h.front_eq hsplit heq⟩
    · obtain ⟨front'', rest'', rfl⟩ := h.completed_of_takesIn htakes hsplit
      obtain rfl := h.front_eq (hsplit.trans (List.append_assoc _ _ _)) heq
      exact ⟨_, rfl⟩
  obtain ⟨later, rfl⟩ := hbefore
  refine List.Subset.trans (fun n hn => ?_) hserved
  simp only [marksOf_append, queuedIn_append, List.map_append]
  refine List.mem_append_left _ (List.mem_append_right _ ?_)
  rw [← List.singleton_append, marksOf_append, queuedIn_append, List.map_append]
  exact List.mem_append_right _ hn

end Lawful

/-! ## Hooks in order -/

/-- The places of the hooks that ran on an object, in order. -/
def hooksRunOn (o : ObjectRef) (es : List Entry) : List Nat :=
  ((hookedIn es).filter (·.1 = o)).map (·.2)

theorem mem_hookedIn {es : List Entry} {p : ObjectRef × Nat} : p ∈ hookedIn es ↔ .hooked p.1 p.2 ∈ es := by
  unfold hookedIn
  rw [List.mem_filterMap]
  constructor
  · rintro ⟨e, he, hp⟩
    cases e with
    | hooked o place =>
      obtain rfl := Option.some.inj hp
      exact he
    | _ => cases hp
  · exact fun h => ⟨_, h, rfl⟩

section Order

variable {done : List (Registration C × ObjectRef)} {o : ObjectRef}

theorem not_mem_hooks (h : o ∉ done.map (·.2)) (place : Nat) : (o, place) ∉ done.flatMap hooksOf := by
  intro hmem
  obtain ⟨p, hp, hmem⟩ := List.mem_flatMap.mp hmem
  obtain ⟨_, -, heq⟩ := List.mem_map.mp hmem
  have ho : p.2 = o := congrArg Prod.fst heq
  exact h (ho ▸ List.mem_map_of_mem hp)

theorem filter_hooks_eq_nil (h : o ∉ done.map (·.2)) : (done.flatMap hooksOf).filter (·.1 = o) = [] := by
  refine List.filter_eq_nil_iff.mpr fun p hp => ?_
  rw [decide_eq_true_eq]
  rintro rfl
  exact not_mem_hooks h p.2 hp

variable {es : List Entry} (hhooked : hookedIn es = done.flatMap hooksOf) (hnodup : (done.map (·.2)).Nodup)
include hhooked hnodup

theorem hooksRunOn_eq {a : Registration C} (ho : (a, o) ∈ done) :
    hooksRunOn o es = List.range a.mapper.after.length := by
  obtain ⟨front, rest, rfl⟩ := List.append_of_mem ho
  rw [List.map_append, List.map_cons] at hnodup
  obtain ⟨hrest, hfront⟩ : o ∉ rest.map (·.2) ∧ o ∉ front.map (·.2) := by
    have hmiddle := List.nodup_middle.mp hnodup
    exact ⟨fun h => (List.nodup_cons.mp hmiddle).1 (List.mem_append_right _ h),
      fun h => (List.nodup_cons.mp hmiddle).1 (List.mem_append_left _ h)⟩
  have hown : (hooksOf (a, o)).filter (·.1 = o) = hooksOf (a, o) :=
    List.filter_eq_self.mpr fun p hp => by
      obtain ⟨_, -, rfl⟩ := List.mem_map.mp hp
      exact decide_eq_true rfl
  unfold hooksRunOn
  rw [hhooked, List.flatMap_append, List.flatMap_cons, List.filter_append, List.filter_append,
    filter_hooks_eq_nil hfront, filter_hooks_eq_nil hrest, hown, List.nil_append, List.append_nil]
  unfold hooksOf
  rw [List.map_map]
  exact List.map_id _

theorem hooked_of_completed {before later front rest : List Entry} {hook : Nat} {p : ObjectRef}
    (hdone : completedIn es = done.map (·.2)) (hcompleted : es = before ++ .completed o :: later)
    (hp : .completed p ∈ before) (hsplit : es = front ++ .hooked o hook :: rest) {place : Nat}
    (hplace : .hooked p place ∈ es) : .hooked p place ∈ front := by
  rw [hcompleted, completedIn_append] at hdone
  obtain ⟨first, others, rfl, hfirst, hothers⟩ := List.map_eq_append_iff.mp hdone.symm
  obtain ⟨last, others, rfl, hlast, -⟩ := List.map_eq_cons_iff.mp hothers
  change last.2 = o at hlast
  rw [List.map_append, List.map_cons, hlast] at hnodup
  have hmiddle := List.nodup_cons.mp (List.nodup_middle.mp hnodup)
  have hnot : (o, hook) ∉ first.flatMap hooksOf :=
    not_mem_hooks (fun h => hmiddle.1 (List.mem_append_left _ h)) hook
  -- The hooks of what was completed before `o` ran before those of `o`.
  have hfront : first.flatMap hooksOf <+: hookedIn front := by
    rw [hsplit, hookedIn_append, List.flatMap_append] at hhooked
    rcases List.append_eq_append_iff.mp hhooked with ⟨more, hmore, hrest⟩ | ⟨more, hmore, -⟩
    · cases more with
      | nil => exact ⟨[], by simpa using hmore⟩
      | cons e more =>
        obtain ⟨rfl, -⟩ := List.cons.inj hrest
        exact absurd (hmore ▸ by simp) hnot
    · exact ⟨more, hmore.symm⟩
  have hfirst : p ∈ first.map (·.2) := hfirst ▸ mem_completedIn.mpr hp
  have hplace : (p, place) ∈ first.flatMap hooksOf := by
    have hmem : (p, place) ∈ hookedIn es := mem_hookedIn.mpr hplace
    rw [hhooked, List.flatMap_append] at hmem
    refine (List.mem_append.mp hmem).resolve_right fun hmem => ?_
    refine not_mem_hooks (fun h => ?_) place hmem
    rw [List.map_cons, hlast] at h
    exact (List.nodup_append.mp hnodup).2.2 p hfirst p h rfl
  exact mem_hookedIn.mp (hfront.subset hplace)

end Order

/-! ## Passes -/

/-- Nothing that tells of a hook was written down while a value was taken. -/
theorem Registry.Takes.took_before {r : Registry C} {ambient : C} {heap : Heap} {front rest later : List Entry}
    {number hook : Nat} {v : Value} {o : ObjectRef}
    (h : r.Takes ambient heap front number v (rest ++ .hooked o hook :: later)) :
    ∃ (q : Request C) (stored : Option Value) (trace : List Entry), q.number = number ∧ q.Posted r front ∧
      q.Took r ambient v stored trace ∧ trace <+: rest := by
  obtain ⟨q, stored, trace, more, hnumber, hposted, htook, hsplit, -⟩ := h
  refine ⟨q, stored, trace, hnumber, hposted, htook, ?_⟩
  rcases List.append_eq_append_iff.mp hsplit with ⟨between, rfl, hmore⟩ | ⟨between, rfl, -⟩
  · cases between with
    | nil => exact ⟨[], by simp⟩
    | cons e between =>
      obtain ⟨rfl, -⟩ := List.cons.inj hmore
      exact (htook.isEffect (.hooked o hook) (by simp)).elim
  · exact ⟨between, rfl⟩

/-- What held when a hook of a destination ran, after the entries in `front`. -/
structure HookedLast (r : Registry C) (ambient : C) (es : List Entry) (o : ObjectRef) (front : List Entry) : Prop where
  /-- What was asked for, while the destination or one that it took in was mapped, is delivered. -/
  delivered : ∀ p, ReflTransGen (TakesIn es) o p → ∀ inside, Spans es p inside →
    (queuedIn (marksOf inside)).map (·.1) ⊆ deliveredIn (marksOf front)
  /-- The request took what was delivered to it. -/
  took : ∀ earlier number v later, front = earlier ++ .delivered number v :: later →
    ∃ (q : Request C) (stored : Option Value) (trace : List Entry), q.number = number ∧ q.Posted r earlier ∧
      q.Took r ambient v stored trace ∧ trace <+: later
  /-- The destinations that it took in are done with their hooks. -/
  hooked : ∀ p, TransGen (TakesIn es) o p → ∀ place, .hooked p place ∈ es → .hooked p place ∈ front

/-- The hook of the mapper at this place ran on the destination, and `rest` begins with what it noted. -/
def MapperDeclaration.RanHook (d : MapperDeclaration C) (ambient : C) (o : ObjectRef) (place : Nat)
    (rest : List Entry) : Prop :=
  ∃ hook, d.after[place]? = some hook ∧ ∃ (before after : Heap) (notes : List Note) (later : List Entry),
    (hook o ambient).run before = ⟨.ok (), after, notes⟩ ∧ rest = notes.map .note ++ later

/-- When nothing is left to do, the completed destinations had all of their hooks. -/
theorem Between.exists_hooked {r : Registry C} {base : Nat} {s : PassState C} (h : Between r base [] s)
    (hidle : ¬ s.Busy) : ∃ done : List (Registration C × ObjectRef), completedIn s.entries = done.map (·.2) ∧
      (∀ p ∈ done, p.1 ∈ r.registrations ∧ IsDestination p.1 p.2 s.entries) ∧
      hookedIn s.entries = done.flatMap hooksOf := by
  obtain ⟨done, hdone, hdestinations, hfollow⟩ := h.follow
  have hhooks : s.hooks = [] := by
    by_contra hne
    exact hidle (Or.inr hne)
  refine ⟨done, hdone, hdestinations, ?_⟩
  rw [← hfollow, hhooks]
  simp

namespace Registry

/-- No group of requests is resolved, and no value delivered, after the first hook of a wave. In a pass that
succeeds, the declared hooks run on every destination of their mapper, each once and in order, when all that
was asked for while the destination was mapped is delivered and taken, and when the destinations that it took in
then, new ones and those that were there, have what they asked for as well and are done with their hooks. -/
theorem map_orders_hooks {metadata : Metadata} {config : Config} {declared : List (MapperDeclaration C)}
    {logs : List LogRecord} {r : Registry C}
    (hbuild : ((build metadata config declared).run.run logs).1 = .ok r) (q : Query) (destination : String)
    (source : DataSource) (ambient : C) (heap : Heap) :
    let pass := r.map q destination source ambient heap
    let es := pass.2.entries
    (∀ front group numbers rest, es = front ++ .resolving group numbers :: rest → Calm front) ∧
    (∀ front number value rest, es = front ++ .delivered number value :: rest → Calm front) ∧
    ∀ mapped, pass.1 = .ok mapped → ∀ d ∈ declared, ∀ key o, .allocated d.key key o ∈ es →
      hooksRunOn o es = List.range d.after.length ∧ (∃ inside, Spans es o inside) ∧
        ∀ front hook rest, es = front ++ .hooked o hook :: rest →
          HookedLast r ambient es o front ∧ d.RanHook ambient o hook rest := by
  obtain ⟨resolved, h⟩ := built_of_build hbuild
  intro pass es
  obtain ⟨_, hsound⟩ : Sound r heap.size pass.2 := h.sound_map q destination source ambient heap
  have hlawful : Lawful r heap.size es := hsound.lawful
  refine ⟨fun _ _ _ _ hsplit => hlawful _ _ _ hsplit, fun _ _ _ _ hsplit => hlawful _ _ _ hsplit, ?_⟩
  intro mapped hmapped d hd key o hallocated
  obtain ⟨hs, hidle⟩ : Between r heap.size [] pass.2 ∧ ¬ pass.2.Busy :=
    h.settled_map q destination source ambient heap hmapped
  have hdestination : (⟨d.key, key, o⟩ : Destination) ∈ destinationsIn es :=
    mem_destinationsIn.mpr (Or.inl hallocated)
  have hcompleted : .completed o ∈ es := hs.finished _ _ _ hallocated trivial
  obtain ⟨done, hdone, hdestinations, hhooked⟩ := hs.exists_hooked hidle
  have hnodup : (done.map (·.2)).Nodup := hdone ▸ hlawful.nodup_completed
  obtain ⟨a, ha⟩ : ∃ a, (a, o) ∈ done := by
    have hmem : o ∈ done.map (·.2) := hdone ▸ mem_completedIn.mpr hcompleted
    obtain ⟨p, hp, rfl⟩ := List.mem_map.mp hmem
    exact ⟨p.1, hp⟩
  obtain ⟨hmem, hdestination'⟩ := hdestinations (a, o) ha
  have hafter : ∀ {a : Registration C}, a ∈ r.registrations → IsDestination a o es → a.mapper.after = d.after := by
    rintro a hmem ⟨key', hallocated'⟩
    obtain ⟨d', hd', hresolved⟩ := h.resolves.exists_declaration (h.mem a hmem)
    obtain ⟨hkey, hafter, -⟩ := resolveMapper_eq_ok hresolved
    have hsame : a.mapper.key = d.key := (hlawful.unique hallocated' hallocated rfl).1
    exact List.inj_on_of_nodup_map h.resolves.distinct hd' hd (hkey.symm.trans hsame) ▸ hafter
  have haccounted : Accounted r ambient pass.2.heap.size pass.2 :=
    (Accounted.upholding r source ambient).of_map h (.initial r ambient heap) hmapped
  refine ⟨hafter hmem hdestination' ▸ hooksRunOn_eq hhooked hnodup ha,
    hlawful.exists_span hdestination hcompleted, fun front hook rest hsplit => ⟨?_, ?_⟩⟩
  · refine ⟨fun p htakes inside hspan => hlawful.delivered_of_hooked hsplit htakes hspan, ?_, ?_⟩
    · rintro earlier number v later rfl
      exact (haccounted.takes earlier number v _ (hsplit.trans (List.append_assoc _ _ _))).took_before
    · intro p htakes place hplace
      obtain ⟨before, later, hbefore⟩ := List.append_of_mem hcompleted
      obtain ⟨earlier, more, rfl⟩ := hlawful.completed_of_takesIn htakes hbefore
      exact hooked_of_completed hhooked hnodup hdone hbefore (by simp) hsplit hplace
  · obtain ⟨b, hb, ho, code, hcode, hran⟩ := haccounted.runs front o hook rest hsplit
    have ho : IsDestination b o es := ho.mono (hsplit ▸ List.subset_append_left _ _)
    exact ⟨code, hafter hb ho ▸ hcode, hran⟩

end Registry

/-! ## Hooks of a small pass -/

namespace Sample

/-- Orders take in their customers, and both have hooks. -/
def hooked : List (MapperDeclaration Unit) := [
  ⟨⟨"Order", "OrderView"⟩,
    [{ destination := "id" }, { destination := "customer", mapped := some "CustomerView" }],
    [fun o _ => Action.setField o "ready" (.bool true)]⟩,
  ⟨⟨"Customer", "CustomerView"⟩, [{ destination := "id" }, { destination := "name" }],
    [fun o _ => Action.setField o "known" (.bool true)]⟩]

theorem exists_hooked : ∃ (r : Registry Unit) (mapped : Mapped),
    ((Registry.build metadata {} hooked).run.run []).1 = .ok r ∧
      (r.map (Query.all "Order") "OrderView" memory.source () .empty).1 = .ok mapped := by
  have h : (((Registry.build metadata {} hooked).run.run []).1.toOption.any fun r =>
      (r.map (Query.all "Order") "OrderView" memory.source () .empty).1.toOption.any fun _ => true) = true := by cbv
  obtain ⟨r, hbuild, hpass⟩ := exists_ok_of_any h
  obtain ⟨mapped, hmapped, -⟩ := exists_ok_of_any hpass
  exact ⟨r, mapped, hbuild, hmapped⟩

end Sample

theorem Registry.orders_run_hooks : ∃ (r : Registry Unit) (mapped : Mapped),
    ((build Sample.metadata {} Sample.hooked).run.run []).1 = .ok r ∧
      let pass := r.map (Query.all "Order") "OrderView" Sample.memory.source () .empty
      pass.1 = .ok mapped ∧ ∀ d ∈ Sample.hooked, ∀ key o, .allocated d.key key o ∈ pass.2.entries →
        hooksRunOn o pass.2.entries = List.range d.after.length ∧
          (∃ inside, Spans pass.2.entries o inside) ∧
          ∀ front hook rest, pass.2.entries = front ++ .hooked o hook :: rest →
            HookedLast r () pass.2.entries o front ∧ d.RanHook () o hook rest := by
  obtain ⟨r, mapped, hbuild, hmapped⟩ := Sample.exists_hooked
  obtain ⟨-, -, hhooks⟩ := map_orders_hooks hbuild (Query.all "Order") "OrderView" Sample.memory.source () .empty
  exact ⟨r, mapped, hbuild, hmapped, hhooks mapped hmapped⟩

end EntityMapping
