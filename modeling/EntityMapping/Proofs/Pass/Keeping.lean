import EntityMapping.Proofs.Pass.Laws
import EntityMapping.Proofs.Pass.Resolving

/-! # Keeping the laws

The state of a pass bears out its journal: shared destinations are those that were allocated, what waits in
the queues belongs to fields that are still unassigned, and hooks wait in the order in which their
destinations were finished. Every step of a pass keeps it so.
-/

namespace EntityMapping

variable {C α : Type}

/-! ## Objects -/

/-- Objects stay, and so do their fields, in their order. -/
structure Heap.Extends (h h' : Heap) : Prop where
  size : h.size ≤ h'.size
  keys : ∀ o : ObjectRef, o.id < h.size → (h.fields o).keys <+: (h'.fields o).keys

namespace Heap.Extends

theorem refl (h : Heap) : h.Extends h := ⟨Nat.le_refl _, fun _ _ => List.prefix_rfl⟩

theorem trans {h h' h'' : Heap} (hle : h.Extends h') (hle' : h'.Extends h'') : h.Extends h'' where
  size := Nat.le_trans hle.size hle'.size
  keys o ho := (hle.keys o ho).trans (hle'.keys o (Nat.lt_of_lt_of_le ho hle.size))

theorem set (h : Heap) (o : ObjectRef) (field : String) (v : Value) : h.Extends (h.set o field v) where
  size := Nat.le_of_eq (size_set h o field v).symm
  keys p hp := by
    by_cases ho : o.id < h.size
    · rw [fields_set h o p field v ho]
      split
      · rw [Dict.keys_set]
        split
        · exact List.prefix_rfl
        · exact List.prefix_append _ _
      · exact List.prefix_rfl
    · have hne : o.id ≠ p.id := fun heq => ho (heq ▸ hp)
      have hsame : (h.set o field v).fields p = h.fields p := by
        unfold Heap.fields Heap.set
        rw [Array.getElem?_modify, if_neg hne]
      exact hsame ▸ List.prefix_rfl

theorem create (h : Heap) (typeName : String) (fields : Dict String Value) :
    h.Extends (h.create typeName fields).2 where
  size := by rw [size_create]; exact Nat.le_succ _
  keys o ho := (fields_create_of_lt h typeName fields ho) ▸ List.prefix_rfl

end Heap.Extends

theorem Action.extends_run (action : Action α) (h : Heap) : h.Extends (action.run h).heap := by
  induction action generalizing h with
  | done | fail => exact .refl h
  | inspect next ih => exact ih h h
  | set o field v next ih => exact (Heap.Extends.set h o field v).trans (ih _)
  | create typeName fields next ih => exact (Heap.Extends.create h typeName fields).trans (ih _ _)
  | note n next ih => exact ih h

/-! ## The state and its journal -/

def PassState.entries (s : PassState C) : List Entry := s.journal.toList

/-- Where a fetched value goes. -/
def Delivery.place (d : Delivery C) : ObjectRef × String := (d.object, d.assignment.field)

/-- Where the values of the queued requests go. -/
def PassState.places (s : PassState C) : List (ObjectRef × String) := s.requests.map (·.delivery.place)

/-- The place of a hook in the journal. -/
def PendingHook.mark (h : PendingHook C) : ObjectRef × Nat := (h.object, h.place)

/-- The hooks of a destination, in order. -/
def hooksOf (p : Registration C × ObjectRef) : List (ObjectRef × Nat) :=
  (List.range p.1.mapper.after.length).map (p.2, ·)

/-- The hooks of the completed destinations ran or will run: first those of the journal, then those that are
at hand, and then those in the queue. -/
def HooksFollow (r : Registry C) (hooks : List (PendingHook C)) (s : PassState C) : Prop :=
  ∃ done : List (Registration C × ObjectRef), completedIn s.entries = done.map (·.2) ∧
    (∀ p ∈ done, p.1 ∈ r.registrations ∧ IsDestination p.1 p.2 s.entries) ∧
    hookedIn s.entries ++ (hooks ++ s.hooks).map (·.mark) = done.flatMap hooksOf

/-- The journal obeys the laws, and what is shared, the fields of destinations and the hooks are as it says.
The pass began with `base` objects, and `hooks` are at hand. -/
structure Kept (r : Registry C) (base : Nat) (hooks : List (PendingHook C)) (s : PassState C) : Prop where
  lawful : Lawful r base s.entries
  lt : ∀ d ∈ destinationsIn s.entries, d.object.id < s.heap.size
  le : base ≤ s.heap.size
  fields : ∀ a ∈ r.registrations, ∀ o, IsDestination a o s.entries →
    a.mapper.items.map (·.destination) <+: (s.heap.fields o).keys
  cached : r.config.cacheDestinations = true → ∀ mapper key o,
    s.cache.get? (mapper, key) = some o ↔ .allocated mapper (some key) o ∈ s.entries
  follow : HooksFollow r hooks s

/-- The field belongs to an item of the object's mapper, and no item has written it. -/
def Unassigned (r : Registry C) (es : List Entry) (p : ObjectRef × String) : Prop :=
  .assigned p.1 p.2 ∉ es ∧
    ∃ a ∈ r.registrations, IsDestination a p.1 es ∧ p.2 ∈ a.mapper.items.map (·.destination)

/-- Besides, the fields that wait for their values, those at hand in `due` and those of queued requests, are
different and unassigned, and no hook has run in this wave. -/
structure Orderly (r : Registry C) (base : Nat) (hooks : List (PendingHook C))
    (due : List (ObjectRef × String)) (s : PassState C) : Prop extends Kept r base hooks s where
  nodup : (due ++ s.places).Nodup
  unassigned : ∀ p ∈ due ++ s.places, Unassigned r s.entries p
  calm : Calm s.entries

/-! ## Growing journals -/

/-- Entries were written down; the hooks and the shared destinations are the same. -/
structure Along (new : List Entry) (s s' : PassState C) : Prop where
  entries : s'.entries = s.entries ++ new
  heap : s.heap.Extends s'.heap
  cache : s'.cache = s.cache
  hooks : s'.hooks = s.hooks

/-- The entry begins no destination and ends none. -/
def Entry.IsPlain : Entry → Prop
  | .allocated _ _ _ | .completed _ | .hooked _ _ => False
  | _ => True

theorem Entry.IsSilent.isPlain {e : Entry} (h : e.IsSilent) : e.IsPlain := by
  cases e with
  | note | load | served => trivial
  | _ => cases h

theorem Entry.IsSilent.law {e : Entry} (h : e.IsSilent) (r : Registry C) (base : Nat)
    (front : List Entry) : Law r base front e := by
  cases e with
  | note | load | served => trivial
  | _ => cases h

section Plain

variable {new : List Entry} (h : ∀ e ∈ new, e.IsPlain)
include h

theorem completedIn_plain : completedIn new = [] := by
  refine List.filterMap_eq_nil_iff.mpr fun e he => ?_
  have hplain := h e he
  cases e with
  | completed => cases hplain
  | _ => rfl

theorem hookedIn_plain : hookedIn new = [] := by
  refine List.filterMap_eq_nil_iff.mpr fun e he => ?_
  have hplain := h e he
  cases e with
  | hooked => cases hplain
  | _ => rfl

end Plain

theorem isDestination_append {a : Registration C} {o : ObjectRef} {es new : List Entry}
    (h : ∀ mapper key o, .allocated mapper key o ∉ new) :
    IsDestination a o (es ++ new) ↔ IsDestination a o es :=
  ⟨fun ⟨key, hkey⟩ => ⟨key, (List.mem_append.mp hkey).resolve_right (h _ _ _)⟩,
    fun ho => ho.mono (List.subset_append_left _ _)⟩

theorem destinationsIn_silent {new : List Entry} (h : ∀ e ∈ new, e.IsSilent) : destinationsIn new = [] := by
  refine List.filterMap_eq_nil_iff.mpr fun e he => ?_
  have hsilent := h e he
  cases e with
  | note | load | served => rfl
  | _ => cases hsilent

section

variable {r : Registry C} {base : Nat} {hooks : List (PendingHook C)} {due : List (ObjectRef × String)}
  {s s' : PassState C} {new : List Entry}

/-- Without new destinations, it is enough that the laws are kept and the hooks follow. -/
theorem Kept.step {hooks' : List (PendingHook C)} (h : Kept r base hooks s)
    (hnew : ∀ mapper key o, .allocated mapper key o ∉ new) (hentries : s'.entries = s.entries ++ new)
    (hheap : s.heap.Extends s'.heap) (hcache : s'.cache = s.cache) (hlaw : Lawful r base s'.entries)
    (hfollow : HooksFollow r hooks' s') : Kept r base hooks' s' where
  lawful := hlaw
  lt d hd := by
    have hallocated := hlaw.allocated hd
    rw [hentries] at hallocated
    have hmem := (List.mem_append.mp hallocated).resolve_right (hnew _ _ _)
    exact Nat.lt_of_lt_of_le (h.lt d (mem_destinationsIn.mpr (Or.inl hmem))) hheap.size
  le := Nat.le_trans h.le hheap.size
  fields a hmem o ho := by
    rw [hentries, isDestination_append hnew] at ho
    obtain ⟨key, hkey⟩ := id ho
    have hlt := h.lt ⟨_, key, o⟩ (mem_destinationsIn.mpr (Or.inl hkey))
    exact (h.fields a hmem o ho).trans (hheap.keys o hlt)
  cached hcaching mapper key o := by
    rw [hcache, h.cached hcaching, hentries, List.mem_append, or_iff_left (hnew _ _ _)]
  follow := hfollow

theorem Kept.along (h : Kept r base hooks s) (ha : Along new s s') (hplain : ∀ e ∈ new, e.IsPlain)
    (hlaw : Lawful r base s'.entries) : Kept r base hooks s' := by
  have hnew : ∀ mapper key o, .allocated mapper key o ∉ new := fun _ _ _ hmem => hplain _ hmem
  refine h.step hnew ha.entries ha.heap ha.cache hlaw ?_
  obtain ⟨done, hdone, hdestinations, hfollow⟩ := h.follow
  refine ⟨done, ?_, fun p hp => ⟨(hdestinations p hp).1, ?_⟩, ?_⟩
  · rw [ha.entries, completedIn_append, completedIn_plain hplain, List.append_nil, hdone]
  · rw [ha.entries, isDestination_append hnew]
    exact (hdestinations p hp).2
  · rw [ha.entries, hookedIn_append, hookedIn_plain hplain, List.append_nil, ha.hooks, hfollow]

theorem Unassigned.append {es : List Entry} {p : ObjectRef × String} (h : Unassigned r es p)
    (hnew : .assigned p.1 p.2 ∉ new) : Unassigned r (es ++ new) p := by
  obtain ⟨hnot, a, ha, ho, hfield⟩ := h
  refine ⟨fun hmem => ?_, a, ha, ho.mono (List.subset_append_left _ _), hfield⟩
  exact (List.mem_append.mp hmem).elim hnot hnew

namespace Orderly

theorem along (h : Orderly r base hooks due s) (ha : Along new s s') (hplain : ∀ e ∈ new, e.IsPlain)
    (hlaw : Lawful r base s'.entries) (hrequests : s'.requests = s.requests)
    (hnew : ∀ p ∈ due ++ s.places, .assigned p.1 p.2 ∉ new) : Orderly r base hooks due s' := by
  have hplaces : s'.places = s.places := by unfold PassState.places; rw [hrequests]
  refine ⟨h.toKept.along ha hplain hlaw, hplaces ▸ h.nodup, fun p hp => ?_, ?_⟩
  · rw [hplaces] at hp
    rw [ha.entries]
    exact (h.unassigned p hp).append (hnew p hp)
  · rw [ha.entries]
    exact h.calm.append (hookedIn_plain hplain)

theorem subperm {due' : List (ObjectRef × String)} (h : Orderly r base hooks due s)
    (hdue : due'.Subperm due) : Orderly r base hooks due' s where
  toKept := h.toKept
  nodup := by
    obtain ⟨l, hperm, hsub⟩ := hdue
    exact ((hperm.append_right _).nodup_iff.mp (h.nodup.sublist (hsub.append_right _)))
  unassigned p hp := by
    refine h.unassigned p ?_
    rcases List.mem_append.mp hp with hp | hp
    · exact List.mem_append_left _ (hdue.subset hp)
    · exact List.mem_append_right _ hp
  calm := h.calm

theorem drop {p : ObjectRef × String} (h : Orderly r base hooks (p :: due) s) :
    Orderly r base hooks due s := h.subperm (List.sublist_cons_self _ _).subperm

theorem claim {p : ObjectRef × String} (h : Orderly r base hooks due s) (hp : p ∉ due ++ s.places)
    (hunassigned : Unassigned r s.entries p) : Orderly r base hooks (p :: due) s where
  toKept := h.toKept
  nodup := List.nodup_cons.mpr ⟨hp, h.nodup⟩
  unassigned q hq := by
    rcases List.mem_cons.mp hq with rfl | hq
    · exact hunassigned
    · exact h.unassigned q hq
  calm := h.calm

end Orderly

/-! ## Quiet steps -/

/-- Nothing but notes and loads was written down. -/
def PassState.Quiet (s s' : PassState C) : Prop :=
  ∃ new, Along new s s' ∧ (∀ e ∈ new, e.IsSilent) ∧ s'.requests = s.requests

instance : Std.Refl (PassState.Quiet (C := C)) :=
  ⟨fun s => ⟨[], ⟨(List.append_nil _).symm, .refl _, rfl, rfl⟩, by simp, rfl⟩⟩

namespace PassM

theorem quiet_perform (action : Action α) : Moves PassState.Quiet (perform action : PassM C α) := by
  intro s
  obtain ⟨new, heq, hnew⟩ := Journal.Quiet.addNotes s.journal (action.run s.heap).notes
  exact ⟨new, ⟨heq, action.extends_run s.heap, rfl, rfl⟩, hnew, rfl⟩

theorem quiet_loading {work : LoadM α} (h : Moves Loading.Quiet work) :
    Moves PassState.Quiet (loading work : PassM C α) := by
  intro s
  obtain ⟨new, heq, hnew⟩ := h ⟨s.journal, s.stats.loads⟩
  exact ⟨new, ⟨heq, .refl _, rfl, rfl⟩, hnew, rfl⟩

theorem quiet_note (n : Note) : Moves PassState.Quiet (record (.note n) : PassM C Unit) := by
  intro s
  rw [record_iff]
  exact ⟨[.note n], ⟨Journal.toList_add _ _, .refl _, rfl, rfl⟩,
    fun _ he => List.mem_singleton.mp he ▸ trivial, rfl⟩

end PassM

theorem not_assigned_of_silent {es : List Entry} (h : ∀ e ∈ es, e.IsSilent) (o : ObjectRef) (field : String) :
    .assigned o field ∉ es := fun hmem => h _ hmem

theorem Kept.quiet (h : Kept r base hooks s) (hq : s.Quiet s') : Kept r base hooks s' := by
  obtain ⟨new, ha, hnew, -⟩ := hq
  refine h.along ha (fun e he => (hnew e he).isPlain) ?_
  rw [ha.entries]
  exact h.lawful.append fun e he front => (hnew e he).law r base front

theorem Orderly.quiet (h : Orderly r base hooks due s) (hq : s.Quiet s') : Orderly r base hooks due s' := by
  have hkept := h.toKept.quiet hq
  obtain ⟨new, ha, hnew, hrequests⟩ := hq
  exact h.along ha (fun e he => (hnew e he).isPlain) hkept.lawful hrequests
    fun p _ => not_assigned_of_silent hnew p.1 p.2

end

end EntityMapping
