import EntityMapping.Proofs.Pass.Effects
import EntityMapping.Recipe.Resolver

/-! # Assignments that fail

A processor sees the result of every item that it applies, so it is up to the processor whether a failed assignment
fails the pass. If no processor goes on after a failure, a pass that succeeds has completed the assignment of every
request that was queued in it. A processor that does go on can make a pass succeed although a field was never set.
-/

namespace EntityMapping

variable {C : Type}

/-! ## Scripts that pass failures on -/

namespace Script

theorem PassesOn.applying {n : Nat} (i : Fin (n + 1)) (v : Value) {next : Script n} (h : next.PassesOn) :
    (Script.applying i v next).PassesOn := ⟨h, fun _ => trivial⟩

theorem PassesOn.attempt {α : Type} (action : Action α) {n : Nat} {next : Except Error α → Script n}
    (h : ∀ result, (next result).PassesOn) : (Script.attempt action next).PassesOn := by
  induction action with
  | done a => exact h _
  | fail e => exact h _
  | inspect more ih => exact fun heap => ih heap
  | set o field v more ih => exact ih
  | create typeName fields more ih => exact fun o => ih o
  | note entry more ih => exact ih

theorem passesOn_applyAll (value : Value → Value) (keys : List Value) : (applyAll value keys).PassesOn := by
  induction keys with
  | nil => trivial
  | cons key keys ih => exact .applying 0 (value key) ih

end Script

theorem Batch.passesOn_keyed (id : Nat) (name : String) (load : List Key → C → Action (List (Key × Value)))
    (ambient : C) : (keyed id name load).PassesOn ambient := by
  intro keys
  refine Script.PassesOn.attempt _ fun result => ?_
  cases result with
  | ok table => exact Script.passesOn_applyAll _ keys
  | error e => trivial

namespace Resolver

theorem passesOn_forwards (value : Nat → Value → Value) (place : Nat) (keys : List Value) :
    (forwards value place keys).PassesOn := by
  induction keys generalizing place with
  | nil => trivial
  | cons key keys ih => exact .applying 0 (value place key) (ih (place + 1))

theorem passesOn_backwards (value : Nat → Value) (n : Nat) : (backwards value n).PassesOn := by
  induction n with
  | zero => trivial
  | succ n ih => exact .applying (Fin.last n) (value n) ih

theorem passesOn_atMost (v : Value) (otherwise : {n : Nat} → Script n) (h : ∀ n, (@otherwise n).PassesOn)
    (count n : Nat) : (atMost v otherwise count n).PassesOn := by
  induction count generalizing n with
  | zero =>
    cases n with
    | zero => trivial
    | succ n => exact h _
  | succ count ih =>
    cases n with
    | zero => trivial
    | succ n => exact .applying 0 v (ih n)

theorem passesOn_processor (resolver : Resolver) (id : Nat) (name : String) (ambient : Value) :
    (resolver.processor id name).PassesOn ambient := by
  intro keys
  cases resolver with
  | keyed table failure =>
    exact Batch.passesOn_keyed id name (fun keys _ => lookUp name (Dict.ofList table) failure keys) ambient keys
  | echo => exact passesOn_forwards _ 0 keys
  | reverse => exact passesOn_backwards _ keys.length
  | index => exact passesOn_forwards _ 0 keys
  | ambient => exact passesOn_forwards _ 0 keys
  | const v => exact passesOn_forwards _ 0 keys
  | partly v count => exact passesOn_atMost v .finish (fun _ => trivial) count keys.length
  | fail v count => exact passesOn_atMost v (.fail (.external name)) (fun _ => trivial) count keys.length

end Resolver

/-! ## Completed deliveries -/

/-- What the transposer made of the chosen value has the expected shape, and the field was set to it. -/
def Delivery.Done (d : Delivery C) (ambient : C) (v : Value) (trace : List Entry) : Prop :=
  ∀ chosen, d.chosen v = some chosen → ∃ (before : Heap) (w : Value) (after : Heap) (notes : List Note),
    (d.assignment.transpose chosen ambient).run before = ⟨.ok w, after, notes⟩ ∧
      d.assignment.expected.accepts w = true ∧
      trace = notes.map .note ++ [.assigned d.object d.assignment.field]

theorem Request.Took.done {r : Registry C} {ambient : C} {q : Request C} {v : Value} {stored : Option Value}
    {trace : List Entry} (h : q.Took r ambient v stored trace) (hpasses : r.PassesOn ambient) :
    q.delivery.Done ambient v trace := by
  intro chosen hchosen
  cases h with
  | nothing hfirst hnone =>
    rw [Delivery.chosen_eq_none.mpr ⟨hfirst, hnone⟩] at hchosen
    cases hchosen
  | stored hchosen' htransposed haccepts =>
    obtain rfl := Option.some.inj (hchosen.symm.trans hchosen')
    exact ⟨_, _, _, _, htransposed, haccepts, rfl⟩
  | refused hgoes => exact absurd hpasses hgoes

/-! ## Requests of a pass -/

theorem exists_of_mem_deliveredIn {j : Journal} {number : Nat} (h : number ∈ deliveredIn j.marks) :
    ∃ v, .delivered number v ∈ j.toList := by
  obtain ⟨mark, hmark, hnumber⟩ := List.mem_filterMap.mp h
  obtain ⟨e, he, hread⟩ := List.mem_filterMap.mp hmark
  cases e with
  | delivered number' v =>
    cases hread
    cases hnumber
    exact ⟨v, he⟩
  | _ => cases hread <;> cases hnumber

theorem History.eq_of_queued {s : PassState C} (h : History s.account) {number : Nat} {group group' : GroupKey}
    {o o' : ObjectRef} (hmem : .queued number group o ∈ s.entries) (hmem' : .queued number group' o' ∈ s.entries) :
    group = group' ∧ o = o' := by
  obtain ⟨front, last, hsettled⟩ := h.settled
  have hnodup : ((queuedIn s.journal.marks).map (·.1)).Nodup := hsettled.numbered ▸ List.nodup_range
  unfold queuedIn Journal.marks at hnodup
  rw [List.map_filterMap, List.filterMap_filterMap] at hnodup
  cases eq_of_nodup_filterMap hnodup hmem hmem' (k := number) rfl rfl
  exact ⟨rfl, rfl⟩

namespace Registry

/-- When a pass has given its result and all processors pass failures on, every request that was queued in it was
given a value whose assignment was completed: what the transposer made of it fits the item, and the field was set
to it. -/
theorem map_completes_requests {metadata : Metadata} {config : Config} {declared : List (MapperDeclaration C)}
    {logs : List LogRecord} {r : Registry C} (hbuild : ((build metadata config declared).run.run logs).1 = .ok r)
    {ambient : C}
    (hpasses : ∀ d ∈ declared, ∀ i ∈ d.items, ∀ p, i.style = some (.batch p) → p.PassesOn ambient)
    (q : Query) (destination : String) (source : DataSource) (heap : Heap) {mapped : Mapped}
    (hmapped : (r.map q destination source ambient heap).1 = .ok mapped) :
    let s := (r.map q destination source ambient heap).2
    ∀ number group o, .queued number group o ∈ s.entries →
      ∃ m ∈ r.mappers, ∃ key, .allocated m.key key o ∈ s.entries ∧
        ∃ i ∈ m.items, ∃ request : Request C, request.group = group ∧ request.Suits i ∧
          request.delivery.assignment = .ofItem i ∧ request.delivery.object = o ∧
          ∃ front v trace later, s.entries = front ++ .delivered number v :: (trace ++ later) ∧
            request.delivery.Done ambient v trace := by
  obtain ⟨resolved, hbuilt⟩ := built_of_build hbuild
  intro s number group o hqueued
  have haccounted : Accounted r ambient s.heap.size s :=
    (Accounted.upholding r source ambient).of_map hbuilt (.initial r ambient heap) hmapped
  have hserved := after_mapping r q destination source ambient heap
  unfold After at hserved
  unfold map at hmapped
  rw [hmapped] at hserved
  obtain ⟨hhistory, hrequests, -⟩ : History s.account ∧ s.requests = [] ∧ _ := hserved
  -- Nothing waits at the end, so the request was given a value, and took it.
  have hnumber : number ∈ deliveredIn s.account.marks := by
    have hmark : (number, group) ∈ queuedIn s.account.marks :=
      List.mem_filterMap.mpr ⟨.queued number group, List.mem_filterMap.mpr ⟨_, hqueued, rfl⟩, rfl⟩
    refine (hhistory.served_or_waiting number (List.mem_map_of_mem hmark)).resolve_right ?_
    change number ∉ s.requests.map _
    rw [hrequests]
    exact List.not_mem_nil
  obtain ⟨v, hv⟩ := exists_of_mem_deliveredIn hnumber
  obtain ⟨front, rest, hsplit⟩ : ∃ front rest, s.entries = front ++ .delivered number v :: rest :=
    List.append_of_mem hv
  obtain ⟨request, stored, trace, later, rfl, hposted, htook, rfl, -⟩ := haccounted.takes front number v rest hsplit
  obtain ⟨hqueued', a, ha, ⟨key, hkey⟩, i, hi, hassignment, hsuits⟩ : request.Posted r s.entries :=
    hposted.mono (hsplit ▸ List.subset_append_left _ _)
  obtain ⟨rfl, rfl⟩ := hhistory.eq_of_queued hqueued hqueued'
  exact ⟨a.mapper, List.mem_map_of_mem ha, key, hkey, i, hi, request, rfl, hsuits, hassignment, rfl, front, v, trace,
    later, hsplit, htook.done (hbuilt.passesOn hpasses)⟩

end Registry

/-! ## A careless processor -/

namespace Sample

/-- Applies all items, the last one first, and does not care whether they take their values. -/
def applyBlindly : (n : Nat) → Script n
  | 0 => .finish
  | n + 1 => .apply (Fin.last n) .null fun _ => applyBlindly n

def careless : Processor Unit := ⟨0, "careless", fun keys _ => applyBlindly keys.length⟩

/-- Orders that refuse every name of their customer. -/
def refusing : List (MapperDeclaration Unit) := [
  ⟨⟨"Order", "OrderLabel"⟩, [{
    destination := "customer"
    source := some (.path ["customer_id"])
    style := some (.batch careless)
    transposer := some fun _ _ => .fail (.external "refused") }], []⟩]

/-- The assignment of some request was not completed. -/
def leavesOut (s : PassState Unit) : Bool :=
  s.entries.any fun
    | .queued _ _ o => s.entries.all fun
        | .assigned p _ => p ≠ o
        | _ => true
    | _ => false

theorem exists_of_leavesOut {s : PassState Unit} (h : leavesOut s = true) :
    ∃ number group o, .queued number group o ∈ s.entries ∧ ∀ field, .assigned o field ∉ s.entries := by
  obtain ⟨e, he, h⟩ := List.any_eq_true.mp h
  split at h
  · rename_i number group o
    refine ⟨number, group, o, he, fun field hassigned => ?_⟩
    simpa using List.all_eq_true.mp h _ hassigned
  · cases h

/-- The careless processor makes the pass succeed although all names were refused. -/
theorem refused_names : ∃ r mapped, ((Registry.build metadata {} refusing).run.run []).1 = .ok r ∧
    (r.map (Query.all "Order") "OrderLabel" memory.source () .empty).1 = .ok mapped ∧
    ∃ number group o,
      .queued number group o ∈ (r.map (Query.all "Order") "OrderLabel" memory.source () .empty).2.entries ∧
      ∀ field, .assigned o field ∉ (r.map (Query.all "Order") "OrderLabel" memory.source () .empty).2.entries := by
  have hruns : (((Registry.build metadata {} refusing).run.run []).1.toOption.any fun r =>
      (r.map (Query.all "Order") "OrderLabel" memory.source () .empty).1.toOption.any fun _ =>
        leavesOut (r.map (Query.all "Order") "OrderLabel" memory.source () .empty).2) = true := by
    cbv
  obtain ⟨r, hbuild, hruns⟩ := exists_ok_of_any hruns
  obtain ⟨mapped, hmapped, hleaves⟩ := exists_ok_of_any hruns
  exact ⟨r, mapped, hbuild, hmapped, exists_of_leavesOut hleaves⟩

end Sample

end EntityMapping
