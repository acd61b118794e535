import EntityMapping.Proofs.Conformance
import EntityMapping.Proofs.Pass.Growing

/-! # Open destinations

While a transient is mapped, its destination is open: items are applied to it one by one, and each fills a field that
was not assigned before, or leaves a request that will.
-/

open Relation (TransGen ReflTransGen)

namespace EntityMapping

variable {C α : Type} {r : Registry C} {base : Nat} {hooks : List (PendingHook C)} {due : List (ObjectRef × String)}
  {s s' : PassState C}

/-! ## Open destinations -/

/-- Some items were applied to a destination that is not complete, and only some fields of it were assigned
or wait for their values. -/
structure Open (a : Registration C) (o : ObjectRef) (items fields : List String)
    (due : List (ObjectRef × String)) (s : PassState C) : Prop where
  destination : IsDestination a o s.entries
  applied : appliedTo o s.entries = items
  incomplete : .completed o ∉ s.entries
  assigned : ∀ field, .assigned o field ∈ s.entries → field ∈ fields
  waiting : ∀ p ∈ due ++ s.places, p.1 = o → p.2 ∈ fields

namespace Open

variable {a : Registration C} {o : ObjectRef} {items fields : List String}

theorem lt (h : Open a o items fields due s) (hs : Kept r base hooks s) : o.id < s.heap.size := by
  obtain ⟨key, hkey⟩ := h.destination
  exact hs.lt ⟨_, key, o⟩ (mem_destinationsIn.mpr (Or.inl hkey))

theorem widen (h : Open a o items fields due s) (field : String) :
    Open a o items (fields ++ [field]) ((o, field) :: due) s where
  destination := h.destination
  applied := h.applied
  incomplete := h.incomplete
  assigned f hf := List.mem_append_left _ (h.assigned f hf)
  waiting p hp ho := by
    rcases List.mem_cons.mp hp with rfl | hp
    · simp
    · exact List.mem_append_left _ (h.waiting p hp ho)

theorem drop {p : ObjectRef × String} (h : Open a o items fields (p :: due) s) :
    Open a o items fields due s :=
  ⟨h.destination, h.applied, h.incomplete, h.assigned, fun q hq => h.waiting q (List.mem_cons_of_mem _ hq)⟩

/-- Work at other objects changes nothing for an open destination. -/
theorem grown (h : Open a o items fields due s) {n : Nat} (hn : o.id < n) (hg : Grown n s s') :
    Open a o items fields due s' := by
  obtain ⟨⟨new, heq, htouched, -⟩, ⟨more, hmore, hids⟩, -⟩ := hg
  have hother : ∀ e ∈ new, e.touched? ≠ some o :=
    fun e he ho => Nat.not_le_of_lt hn (htouched e he o ho)
  refine ⟨h.destination.mono ?_, ?_, ?_, ?_, ?_⟩
  · exact heq ▸ List.subset_append_left _ _
  · rw [heq, appliedTo_append, appliedTo_eq_nil fun item hmem => hother _ hmem rfl, List.append_nil,
      h.applied]
  · rw [heq]
    exact fun hmem => (List.mem_append.mp hmem).elim h.incomplete fun hmem => hother _ hmem rfl
  · intro field hfield
    rw [heq] at hfield
    exact (List.mem_append.mp hfield).elim (h.assigned field) fun hmem => absurd rfl (hother _ hmem)
  · intro p hp ho
    rw [hmore, ← List.append_assoc] at hp
    rcases List.mem_append.mp hp with hp | hp
    · exact h.waiting p hp ho
    · exact absurd (hids p hp) (Nat.not_le_of_lt (ho ▸ hn))

theorem after_applied (h : Open a o items fields due s) (ha : a ∈ r.registrations) {item : String}
    (hstart : items ++ [item] <+: a.mapper.items.map (·.name)) (hs : Orderly r base hooks due s) :
    After (PassM.record (.applied o item)) s (either
      (fun _ s' => Orderly r base hooks due s' ∧ Grown o.id s s' ∧ Open a o (items ++ [item]) fields due s')
      fun _ _ => False) := by
  rw [PassM.record_iff, either_ok]
  generalize hs' : ({ s with journal := s.journal.add (.applied o item) } : PassState C) = s'
  have hentries : s'.entries = s.entries ++ [.applied o item] := by
    rw [← hs']
    exact Journal.toList_add _ _
  have hrequests : s'.requests = s.requests := by rw [← hs']
  have hplaces : s'.places = s.places := by unfold PassState.places; rw [hrequests]
  have halong : Along [.applied o item] s s' := by
    refine ⟨hentries, ?_, ?_, ?_⟩ <;> rw [← hs']
    exact .refl _
  refine ⟨?_, ?_, ?_⟩
  · refine hs.along halong (fun e he => List.mem_singleton.mp he ▸ trivial) ?_ hrequests (by simp)
    rw [hentries]
    exact hs.lawful.concat ⟨h.incomplete, a, ha, h.destination, by rwa [h.applied]⟩
  · exact ⟨⟨_, hentries, by simp [Entry.touched?], by simp [destinationsIn, Entry.destination?]⟩,
      ⟨[], by simpa using hplaces, by simp⟩, halong.heap.size⟩
  · refine ⟨h.destination.mono (hentries ▸ List.subset_append_left _ _), ?_, ?_, ?_, ?_⟩
    · rw [hentries, appliedTo_append, h.applied]
      simp [appliedTo, Entry.appliedTo?]
    · rw [hentries]
      simpa using h.incomplete
    · rw [hentries]
      simpa using h.assigned
    · rw [hplaces]
      exact h.waiting

theorem wrote (h : Open a o items fields due s) {field : String} (hfield : field ∈ fields)
    (hw : Wrote (o, field) s s') : Open a o items fields due s' := by
  obtain ⟨⟨new, heq, hnew⟩, hplaces, -⟩ := hw
  refine ⟨h.destination.mono (heq ▸ List.subset_append_left _ _), ?_, ?_, ?_, ?_⟩
  -- Nothing of what was written applies an item, completes `o` or assigns another of its fields.
  · have hnone : appliedTo o new = [] := appliedTo_eq_nil fun item hmem => by
      rcases hnew _ hmem with hsilent | hassigned
      · exact hsilent
      · cases hassigned
    rw [heq, appliedTo_append, hnone, List.append_nil, h.applied]
  · rw [heq]
    refine fun hmem => (List.mem_append.mp hmem).elim h.incomplete fun hmem => ?_
    rcases hnew _ hmem with hsilent | hassigned
    · exact hsilent
    · cases hassigned
  · intro f hf
    rw [heq] at hf
    rcases List.mem_append.mp hf with hf | hf
    · exact h.assigned f hf
    · rcases hnew _ hf with hsilent | hassigned
      · exact absurd hsilent id
      · exact (Entry.assigned.inj hassigned).2 ▸ hfield
  · rw [hplaces]
    exact h.waiting

end Open

/-! ## Filling a field -/

/-- The mappers that a mapper needs, by way of others as well. -/
def Registry.Underlies (r : Registry C) (key : MapperKey) : MapperKey → Prop := TransGen (DependsOn r.mappers) key

/-- The mapper itself, and those that it needs. -/
def Registry.Reach (r : Registry C) (key : MapperKey) : MapperKey → Prop :=
  ReflTransGen (DependsOn r.mappers) key

/-- Work that fills a field of an open destination, or leaves a request that will. The field is at hand
before, and not any more afterwards. -/
def Fills (r : Registry C) (base : Nat) (hooks : List (PendingHook C)) (a : Registration C) (o : ObjectRef)
    (field : String) (x : PassM C PUnit) : Prop :=
  ∀ due items fields s, Orderly r base hooks ((o, field) :: due) s →
    Open a o items fields ((o, field) :: due) s → field ∈ fields →
    Finished (r.Underlies a.mapper.key) s.entries →
      After x s fun result s' => Orderly r base hooks due s' ∧
        (result = .ok ⟨⟩ → Grown o.id s s' ∧ Open a o items fields due s')

namespace Fills

variable {a : Registration C} {o : ObjectRef} {field : String}

theorem pure : Fills r base hooks a o field (Pure.pure ⟨⟩) :=
  fun _ _ _ s hs hopen _ _ => ⟨hs.drop, fun _ => ⟨.refl _ s, hopen.drop⟩⟩

theorem throw (e : Error) : Fills r base hooks a o field (throw e) :=
  fun _ _ _ _ hs _ _ _ => ⟨hs.drop, fun h => by cases h⟩

theorem ofExcept_bind (result : Except Error α) {f : α → PassM C PUnit}
    (hf : ∀ v, Fills r base hooks a o field (f v)) :
    Fills r base hooks a o field (ofExcept result >>= f) := by
  cases result with
  | ok v => exact hf v
  | error e => exact throw e

theorem assign (setting : Setting C) (assignment : Assignment C) (v : Value) :
    Fills r base hooks a o assignment.field (PassM.assign setting assignment v o) := by
  intro due items fields s hs hopen hfield hfinished
  apply (after_assign setting assignment v o hs).mono
  exact fun result s' ⟨hs', hwrote⟩ => ⟨hs', fun _ => ⟨hwrote.grown, hopen.drop.wrote hfield hwrote⟩⟩

/-- Before the field is filled, transients of mappers that are needed may be mapped. -/
theorem bind {x : PassM C α} {f : α → PassM C PUnit} (hx : Grows r base hooks (r.Underlies a.mapper.key) x)
    (hf : ∀ v, Fills r base hooks a o field (f v)) : Fills r base hooks a o field (x >>= f) := by
  intro due items fields s hs hopen hfield hfinished
  have hlt := hopen.lt hs.toKept
  rw [After.bind_iff]
  apply (hx _ s hs hfinished).mono
  rintro (e | v) s₁ ⟨hs₁, hgrown⟩
  · exact ⟨hs₁.drop, fun h => by cases h⟩
  have hgrown := hgrown v rfl
  rw [either_ok]
  apply (hf v due items fields s₁ hs₁ (hopen.grown hlt hgrown) hfield (hfinished.grown hgrown)).mono
  exact fun result s₂ ⟨hs₂, hfills⟩ =>
    ⟨hs₂, fun hok => ⟨(hgrown.mono (Nat.le_of_lt hlt)).trans (hfills hok).1, (hfills hok).2⟩⟩

theorem enqueue {request : Nat → Request C} (hplace : ∀ n, (request n).delivery.place = (o, field)) :
    Fills r base hooks a o field (PassM.enqueue request) := by
  intro due items fields s hs hopen hfield _
  generalize hs' : ({ s with
    requests := s.requests ++ [request s.queued]
    queued := s.queued + 1
    journal := s.journal.add
      (.queued (request s.queued).number (request s.queued).group (request s.queued).delivery.object) } :
    PassState C) = s'
  have hentries : s'.entries = s.entries ++
      [.queued (request s.queued).number (request s.queued).group (request s.queued).delivery.object] := by
    rw [← hs']
    exact Journal.toList_add _ _
  have hplaces : s'.places = s.places ++ [(o, field)] := by
    rw [← hs', ← hplace s.queued]
    simp [PassState.places]
  -- What was due waits now, so the two kinds of places together are the same.
  have hperm : (due ++ s'.places).Perm ((o, field) :: (due ++ s.places)) := by
    rw [hplaces, ← List.append_assoc]
    exact List.perm_append_singleton _ _
  have halong : Along [.queued (request s.queued).number (request s.queued).group
      (request s.queued).delivery.object] s s' := by
    refine ⟨hentries, ?_, ?_, ?_⟩ <;> rw [← hs']
    exact .refl _
  have hplain : ∀ e ∈ [Entry.queued (request s.queued).number (request s.queued).group
      (request s.queued).delivery.object], e.IsPlain := fun e he => List.mem_singleton.mp he ▸ trivial
  have horderly : Orderly r base hooks due s' := by
    refine ⟨hs.toKept.along halong hplain ?_, hperm.nodup_iff.mpr hs.nodup, fun p hp => ?_, ?_⟩
    · rw [hentries]
      exact hs.lawful.concat trivial
    · rw [hentries]
      exact (hs.unassigned p (hperm.subset hp)).append (by simp)
    · rw [hentries]
      exact hs.calm.append rfl
  change After (PassM.enqueue request) s _
  unfold PassM.enqueue
  rw [After.bind_iff, After.get_iff, either_ok]
  dsimp only
  rw [After.bind_iff, After.set_iff, either_ok, PassM.record_iff]
  dsimp only
  rw [hs']
  refine ⟨horderly, fun _ => ⟨⟨⟨_, hentries, by simp [Entry.touched?], by simp [destinationsIn, Entry.destination?]⟩,
    ⟨_, hplaces, by simp⟩, halong.heap.size⟩, ?_⟩⟩
  refine ⟨hopen.destination.mono (hentries ▸ List.subset_append_left _ _), ?_, ?_, ?_, ?_⟩
  · rw [hentries, appliedTo_append, hopen.applied]
    exact List.append_nil _
  · rw [hentries]
    simpa using hopen.incomplete
  · rw [hentries]
    simpa using hopen.assigned
  · exact fun p hp => hopen.waiting p (hperm.subset hp)

end Fills

section Requests

variable {a : Registration C} {o : ObjectRef} (assignment : Assignment C) (v : Value)

theorem fills_requestOne (target : MapperKey) :
    Fills r base hooks a o assignment.field (requestOne assignment target o v) := by
  unfold requestOne
  split
  · exact .pure
  · exact .ofExcept_bind _ fun _ => .enqueue fun _ => rfl

theorem fills_requestBack (relation : Relation) (fetcher : ReverseKey) :
    Fills r base hooks a o assignment.field (requestBack assignment relation fetcher o v) := by
  unfold requestBack
  split
  · exact .pure
  · exact .ofExcept_bind _ fun _ => .enqueue fun _ => rfl

theorem fills_requestBatch (processor : Processor C) :
    Fills r base hooks a o assignment.field (requestBatch assignment processor o v) := by
  unfold requestBatch
  split
  · exact .pure
  · exact .ofExcept_bind _ fun _ => .enqueue fun _ => rfl

end Requests

end EntityMapping
