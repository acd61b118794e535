import EntityMapping.Proofs.Pass.Opening

/-! # Destinations

What is mapped on the way to a destination is finished before the destination is, and as no mapper needs itself, no
open destination is ever shared.
-/

open Relation (TransGen ReflTransGen)

namespace EntityMapping

variable {C : Type} {metadata : Metadata} {config : Config} {declared : List (MapperDeclaration C)}
  {resolved : List (Mapper C)} {r : Registry C} {source : DataSource} {ambient : C} {base : Nat}
  {hooks : List (PendingHook C)} {due : List (ObjectRef × String)} {s : PassState C} {a : Registration C}
  {o : ObjectRef}

/-- The transients of a mapper can be mapped while no destination of the mapper or of one that it needs is
open. -/
def Registry.GrowsBy (r : Registry C) (source : DataSource) (ambient : C) (base : Nat)
    (hooks : List (PendingHook C)) (b : Registration C) : Prop :=
  ∀ t, Grows r base hooks (r.Reach b.mapper.key) (b.plan.map (r.setting source ambient) t)

namespace Registry.Built

variable (h : Built metadata config declared resolved r)
include h

theorem fills_fill (ha : a ∈ r.registrations)
    (hmaps : ∀ b ∈ r.registrations, DependsOn r.mappers a.mapper.key b.mapper.key →
      r.GrowsBy source ambient base hooks b)
    {p : Assignment C × Route C} (hp : p ∈ a.plan.items) (slot : Slot) :
    Fills r base hooks a o p.1.field (p.2.fill (r.setting source ambient) p.1 slot o) := by
  have hembedded := fun (plan : Plan C) (hplan : p.2.embedded? = some plan) =>
    h.exists_embedded ha hp hplan
  obtain ⟨assignment, route⟩ := p
  -- What an embedded plan allocates stands below the mapper it belongs to.
  have hgrows : ∀ plan, route.embedded? = some plan → ∀ t,
      Grows r base hooks (r.Underlies a.mapper.key) (plan.map (r.setting source ambient) t) := by
    intro plan hplan t
    obtain ⟨b, hb, hneeds, rfl⟩ := hembedded plan hplan
    exact (hmaps b hb hneeds t).mono fun _ hreach => .head' hneeds hreach
  cases route with
  | copy source => exact .assign _ _ _
  | batch source processor => exact fills_requestBatch _ _ _
  | fetchOne path foreignKey target => exact fills_requestOne _ _ _
  | fetchBack path relation fetcher => exact fills_requestBack _ _ _ _
  | embed source plan =>
    match slot with
    | .embedded (some t) => exact .bind (hgrows plan rfl t) fun _ => .assign _ _ _
    | .embedded none => exact .assign _ _ _
    | .value _ | .sequence _ => exact .throw _
  | embedEach source plan =>
    match slot with
    | .sequence (some ts) => exact .bind (.mapM ts fun t _ => hgrows plan rfl t) fun _ => .assign _ _ _
    | .sequence none => exact .pure
    | .value _ | .embedded _ => exact .throw _

theorem claim_field (ha : a ∈ r.registrations) {front rest : List (Assignment C × Route C)}
    {p : Assignment C × Route C} (hitems : front ++ p :: rest = a.plan.items) {items : List String}
    (hs : Orderly r base hooks due s) (hopen : Open a o items (front.map (·.1.field)) due s) :
    Orderly r base hooks ((o, p.1.field) :: due) s := by
  -- The field belongs to no earlier item, so nothing was assigned to it yet.
  have hnew : p.1.field ∉ front.map (·.1.field) := by
    have hnodup := h.nodup_destinations ha
    rw [← h.fields_eq ha, ← hitems, List.map_append, List.map_cons] at hnodup
    exact fun hmem => (List.disjoint_of_nodup_append hnodup) hmem (by simp)
  refine hs.claim (fun hmem => hnew (hopen.waiting _ hmem rfl)) ?_
  refine ⟨fun hmem => hnew (hopen.assigned _ hmem), a, ha, hopen.destination, ?_⟩
  rw [← h.fields_eq ha, ← hitems]
  exact List.mem_map_of_mem (by simp)

/-- The items are applied one after the other, and the destination stays open. -/
theorem after_fillItems (ha : a ∈ r.registrations)
    (hmaps : ∀ b ∈ r.registrations, DependsOn r.mappers a.mapper.key b.mapper.key →
      r.GrowsBy source ambient base hooks b)
    (front : List (Assignment C × Route C)) {rest : List (Assignment C × Route C)}
    (hitems : front ++ rest = a.plan.items) (slots : List Slot) (hs : Orderly r base hooks due s)
    (hopen : Open a o (front.map (·.1.item)) (front.map (·.1.field)) due s)
    (hfinished : Finished (r.Underlies a.mapper.key) s.entries) :
    After (fillItems (r.setting source ambient) rest slots o) s fun result s' =>
      Orderly r base hooks due s' ∧ (result = .ok () → Grown o.id s s' ∧
        Open a o (a.plan.items.map (·.1.item)) (a.plan.items.map (·.1.field)) due s') := by
  -- `front` is what was filled already: its items are applied to `o` and its fields assigned or waiting.
  induction rest generalizing front slots s with
  | nil =>
    rw [List.append_nil] at hitems
    exact ⟨hs, fun _ => ⟨.refl _ s, hitems ▸ hopen⟩⟩
  | cons p rest ih =>
    cases slots with
    | nil => exact ⟨hs, fun hok => by cases hok⟩
    | cons slot slots =>
    have hp : p ∈ a.plan.items := hitems ▸ List.mem_append_right _ (by simp)
    have hclaimed := h.claim_field ha hitems hs hopen
    have hstart : front.map (·.1.item) ++ [p.1.item] <+: a.mapper.items.map (·.name) := by
      rw [← h.names_eq ha, ← hitems, List.map_append, List.map_cons]
      exact ⟨rest.map (·.1.item), by simp⟩
    obtain ⟨assignment, route⟩ := p
    unfold fillItems
    rw [After.bind_iff]
    apply (h.fills_fill ha hmaps hp slot due _ _ s hclaimed (hopen.widen _) (by simp) hfinished).mono
    rintro (e | _) s₁ ⟨hs₁, hfilled⟩
    · exact ⟨hs₁, fun hok => by cases hok⟩
    obtain ⟨hgrown₁, hopen₁⟩ := hfilled rfl
    rw [either_ok, After.bind_iff]
    apply (hopen₁.after_applied ha hstart hs₁).mono
    rintro (e | _) s₂ hnext
    · exact hnext.elim
    obtain ⟨hs₂, hgrown₂, hopen₂⟩ := hnext
    have hgrown := hgrown₁.trans hgrown₂
    rw [either_ok]
    apply (ih (front ++ [(assignment, route)]) (by simpa using hitems) slots hs₂ (by simpa using hopen₂)
      (hfinished.grown hgrown)).mono
    exact fun result s₃ ⟨hs₃, hrest⟩ =>
      ⟨hs₃, fun hok => ⟨hgrown.trans (hrest hok).1, (hrest hok).2⟩⟩

end Registry.Built

theorem after_cached (r : Registry C) (source : DataSource) (ambient : C) (mapper : MapperKey)
    (key : Option Key) (s : PassState C) :
    After (PassM.cached (r.setting source ambient) mapper key) s (either
      (fun found s' => match found with
        | some o => ∃ k, key = some k ∧ r.config.cacheDestinations = true ∧
            s.cache.get? (mapper, k) = some o ∧
            s' = { s with journal := s.journal.add (.reused mapper k o) }
        | none => s' = s ∧ (r.config.cacheDestinations = true → ∀ k, key = some k →
            s.cache.get? (mapper, k) = none))
      fun _ _ => False) := by
  unfold PassM.cached
  cases key with
  | none => exact ⟨rfl, by simp⟩
  | some k =>
    dsimp only
    split
    · rename_i hcaching
      rw [After.bind_iff, After.get_iff, either_ok]
      cases hget : s.cache.get? (mapper, k) with
      | none =>
        refine ⟨rfl, fun _ k' hk' => ?_⟩
        obtain rfl := Option.some.inj hk'
        exact hget
      | some o => exact ⟨k, rfl, hcaching, hget, rfl⟩
    · rename_i hcaching
      exact ⟨rfl, fun hcaching' => absurd hcaching' hcaching⟩

theorem Orderly.reuse {mapper : MapperKey} {k : Key} (hs : Orderly r base hooks due s)
    (hcaching : r.config.cacheDestinations = true) (hget : s.cache.get? (mapper, k) = some o)
    {T : MapperKey → Prop} (hfinished : Finished T s.entries) (hmapper : T mapper) {s' : PassState C}
    (hs' : s' = { s with journal := s.journal.add (.reused mapper k o) }) :
    Orderly r base hooks due s' ∧ Grown s.heap.size s s' := by
  have hallocated := (hs.cached hcaching mapper k o).mp hget
  have hcompleted := hfinished mapper (some k) o hallocated hmapper
  have hentries : s'.entries = s.entries ++ [.reused mapper k o] := by
    rw [hs']
    exact Journal.toList_add _ _
  have halong : Along [.reused mapper k o] s s' := by
    refine ⟨hentries, ?_, ?_, ?_⟩ <;> rw [hs']
    exact .refl _
  refine ⟨hs.along halong (fun e he => List.mem_singleton.mp he ▸ trivial) ?_ (by rw [hs']) (by simp),
    ⟨_, hentries, by simp [Entry.touched?], fun d hd => ?_⟩, ⟨[], ?_, by simp⟩, halong.heap.size⟩
  · exact hentries ▸ hs.lawful.concat ⟨hcaching, hallocated, hcompleted⟩
  · obtain rfl := List.mem_singleton.mp hd
    exact hentries ▸ List.mem_append_left _ hcompleted
  · rw [hs', List.append_nil]
    rfl

/-- A new object becomes the destination of a transient. -/
structure Allocated (r : Registry C) (a : Registration C) (key : Option Key) (fields : Dict String Value)
    (s : PassState C) (o : ObjectRef) (s' : PassState C) : Prop where
  object : o = ⟨s.heap.size, a.mapper.key.destination⟩
  heap : s'.heap = (s.heap.create a.mapper.key.destination fields).2
  entries : s'.entries = s.entries ++ [.allocated a.mapper.key key o]
  requests : s'.requests = s.requests
  hooks : s'.hooks = s.hooks
  cache : r.config.cacheDestinations = true → ∀ mapper k p, s'.cache.get? (mapper, k) = some p ↔
    (mapper = a.mapper.key ∧ key = some k ∧ p = o) ∨
      (¬ (mapper = a.mapper.key ∧ key = some k) ∧ s.cache.get? (mapper, k) = some p)

theorem after_allocate (r : Registry C) (source : DataSource) (ambient : C) (a : Registration C)
    (key : Option Key) (fields : Dict String Value) (s : PassState C) :
    After (PassM.allocate (r.setting source ambient) a.mapper.key key fields) s (either
      (fun o s' => Allocated r a key fields s o s') fun _ _ => False) := by
  unfold PassM.allocate PassM.remember
  cases key with
  | none =>
    refine ⟨rfl, rfl, Journal.toList_add _ _, rfl, rfl, fun _ mapper k p => ?_⟩
    change s.cache.get? (mapper, k) = some p ↔ _
    simp
  | some k =>
    dsimp only
    split
    · refine ⟨rfl, rfl, Journal.toList_add _ _, rfl, rfl, fun _ mapper k' p => ?_⟩
      change (s.cache.set (a.mapper.key, k) _).get? (mapper, k') = some p ↔ _
      rw [Dict.get?_set]
      by_cases heq : (a.mapper.key, k) = (mapper, k')
      · obtain ⟨rfl, rfl⟩ := Prod.mk.inj heq
        simp [eq_comm]
      · have hne : ¬ (mapper = a.mapper.key ∧ some k = some k') := by
          rintro ⟨rfl, hk⟩
          exact heq (by rw [Option.some.inj hk])
        rw [if_neg heq]
        simp only [hne, not_false_eq_true, true_and]
        refine ⟨Or.inr, fun h => h.resolve_left fun hsame => hne ⟨hsame.1, hsame.2.1⟩⟩
    · rename_i hcaching
      exact ⟨rfl, rfl, Journal.toList_add _ _, rfl, rfl, fun h => absurd h hcaching⟩

namespace Allocated

variable {key : Option Key} {fields : Dict String Value} {s' : PassState C}

section

variable (h : Allocated r a key fields s o s')
include h

theorem size_eq : s'.heap.size = s.heap.size + 1 := by rw [h.heap, Heap.size_create]

theorem id_eq : o.id = s.heap.size := congrArg ObjectRef.id h.object

theorem places_eq : s'.places = s.places := by
  unfold PassState.places
  rw [h.requests]

theorem law (ha : a ∈ r.registrations)
    (hnew : r.config.cacheDestinations = true → ∀ k, key = some k → s.cache.get? (a.mapper.key, k) = none)
    (hs : Kept r base hooks s) : Law r base s.entries (.allocated a.mapper.key key o) := by
  obtain ⟨rfl, -⟩ := h
  refine ⟨hs.le, List.mem_map_of_mem ha, fun d hd => ⟨hs.lt d hd, fun hcaching hsome hmapper hkey => ?_⟩⟩
  -- A destination of this key would be in the cache, where none was found.
  obtain ⟨k, rfl⟩ := Option.isSome_iff_exists.mp hsome
  have hget := (hs.cached hcaching a.mapper.key k d.object).mpr (hmapper ▸ hkey ▸ hs.lawful.allocated hd)
  rw [hnew hcaching k rfl] at hget
  cases hget

theorem fields_prefix (hnodup : r.order.Nodup) (ha : a ∈ r.registrations)
    (hfields : a.mapper.items.map (·.destination) <+: fields.keys) (hs : Kept r base hooks s) :
    ∀ b ∈ r.registrations, ∀ p, IsDestination b p s'.entries →
      b.mapper.items.map (·.destination) <+: (s'.heap.fields p).keys := by
  obtain ⟨rfl, hheap, hentries, -⟩ := h
  intro b hb p hp
  by_cases hold : IsDestination b p s.entries
  · obtain ⟨key', hkey'⟩ := id hold
    have hlt := hs.lt ⟨_, key', p⟩ (mem_destinationsIn.mpr (Or.inl hkey'))
    rw [hheap, Heap.fields_create_of_lt _ _ _ hlt]
    exact hs.fields b hb p hold
  · -- It is the new destination, with the fields it was made with.
    obtain ⟨key', hmem⟩ := id hp
    rw [hentries] at hmem
    obtain ⟨hmapper, -, rfl⟩ := Entry.allocated.inj (List.mem_singleton.mp
      ((List.mem_append.mp hmem).resolve_left fun hmem => hold ⟨key', hmem⟩))
    obtain rfl := List.inj_on_of_nodup_map hnodup hb ha hmapper
    rw [hheap]
    change _ <+: ((s.heap.create _ fields).2.fields (s.heap.create b.mapper.key.destination fields).1).keys
    rwa [Heap.fields_create_self]

theorem cached_iff
    (hnew : r.config.cacheDestinations = true → ∀ k, key = some k → s.cache.get? (a.mapper.key, k) = none)
    (hs : Kept r base hooks s) (hcaching : r.config.cacheDestinations = true) (mapper : MapperKey) (k : Key)
    (p : ObjectRef) : s'.cache.get? (mapper, k) = some p ↔ .allocated mapper (some k) p ∈ s'.entries := by
  rw [h.cache hcaching, h.entries, List.mem_append, List.mem_singleton, ← hs.cached hcaching]
  constructor
  · rintro (⟨rfl, rfl, rfl⟩ | ⟨-, hget⟩)
    · exact Or.inr rfl
    · exact Or.inl hget
  · rintro (hget | heq)
    -- An entry of this key would have been found in the cache.
    · refine Or.inr ⟨fun ⟨hmapper, hkey⟩ => ?_, hget⟩
      rw [hmapper, hnew hcaching k hkey] at hget
      cases hget
    · obtain ⟨rfl, hkey, rfl⟩ := Entry.allocated.inj heq
      exact Or.inl ⟨rfl, hkey.symm, rfl⟩

end

theorem orderly (h : Allocated r a key fields s o s') (hnodup : r.order.Nodup) (ha : a ∈ r.registrations)
    (hfields : a.mapper.items.map (·.destination) <+: fields.keys)
    (hnew : r.config.cacheDestinations = true → ∀ k, key = some k → s.cache.get? (a.mapper.key, k) = none)
    (hs : Orderly r base hooks due s) : Orderly r base hooks due s' := by
  have hentries := h.entries
  have hsize := h.size_eq
  have hplaces := h.places_eq
  have hlawful : Lawful r base s'.entries := hentries ▸ hs.lawful.concat (h.law ha hnew hs.toKept)
  refine ⟨⟨hlawful, fun d hd => ?_, by rw [hsize]; exact Nat.le_succ_of_le hs.le,
    h.fields_prefix hnodup ha hfields hs.toKept, h.cached_iff hnew hs.toKept, ?_⟩,
    hplaces ▸ hs.nodup, fun p hp => ?_, ?_⟩
  · rw [hsize]
    rw [hentries, destinationsIn_append] at hd
    rcases List.mem_append.mp hd with hd | hd
    · exact Nat.lt_succ_of_lt (hs.lt d hd)
    · obtain rfl := List.mem_singleton.mp hd
      exact Nat.lt_succ_of_le (Nat.le_of_eq h.id_eq)
  · obtain ⟨done, hdone, hdestinations, hfollow⟩ := hs.follow
    refine ⟨done, ?_, fun p hp => ⟨(hdestinations p hp).1, (hdestinations p hp).2.mono ?_⟩, ?_⟩
    · rw [hentries, completedIn_append, hdone]
      exact List.append_nil _
    · exact hentries ▸ List.subset_append_left _ _
    · rw [hentries, hookedIn_append, h.hooks, ← hfollow]
      simp [hookedIn, Entry.hooked?]
  · rw [hentries]
    exact (hs.unassigned p (hplaces ▸ hp)).append (by simp)
  · rw [hentries]
    exact hs.calm.append rfl

theorem isOpen (h : Allocated r a key fields s o s') (hs : Orderly r base hooks due s) : Open a o [] [] due s' := by
  have hplaces := h.places_eq
  obtain ⟨rfl, -, hentries, -⟩ := h
  -- Whatever was done before was done to older objects.
  have hother : ∀ {b : Registration C}, ¬ IsDestination b ⟨s.heap.size, a.mapper.key.destination⟩ s.entries :=
    fun ⟨key', hkey'⟩ => Nat.lt_irrefl _ (hs.lt ⟨_, key', _⟩ (mem_destinationsIn.mpr (Or.inl hkey')))
  refine ⟨⟨key, by rw [hentries]; simp⟩, ?_, ?_, fun field hfield => ?_, fun p hp ho => ?_⟩
  · rw [hentries, appliedTo_append, appliedTo_eq_nil fun item hmem => ?_]
    · rfl
    · obtain ⟨front, rest, heq, -, b, -, hb, -⟩ := hs.lawful.of_mem hmem
      exact hother (heq ▸ hb.mono (List.subset_append_left _ _))
  · rw [hentries]
    intro hmem
    obtain ⟨front, rest, heq, -, ⟨b, -, hb, -⟩, -⟩ := hs.lawful.of_mem (by simpa using hmem)
    exact hother (heq ▸ hb.mono (List.subset_append_left _ _))
  · rw [hentries] at hfield
    obtain ⟨front, rest, heq, -, b, -, hb, -⟩ := hs.lawful.of_mem
      (e := .assigned _ field) (by simpa using hfield)
    exact absurd (heq ▸ hb.mono (List.subset_append_left _ _)) hother
  · obtain ⟨-, b, -, hb, -⟩ := hs.unassigned p (hplaces ▸ hp)
    exact absurd (ho ▸ hb) hother

end Allocated

theorem Lawful.eq_of_split {es before before' inside inside' : List Entry} (hes : Lawful r base es)
    {mapper mapper' : MapperKey} {key key' : Option Key}
    (h : es = before ++ .allocated mapper key o :: inside)
    (h' : es = before' ++ .allocated mapper' key' o :: inside') : inside = inside' := by
  have hnot : ∀ {front rest : List Entry} {m m' : MapperKey} {k k' : Option Key},
      es = front ++ .allocated m k o :: rest → .allocated m' k' o ∉ front := by
    intro front rest m m' k k' heq hmem
    exact Nat.lt_irrefl _ ((hes _ _ _ heq).2.2 ⟨m', k', o⟩ (mem_destinationsIn.mpr (Or.inl hmem))).1
  rcases List.append_eq_append_iff.mp (h.symm.trans h') with ⟨more, hbefore, hrest⟩ | ⟨more, hbefore, hrest⟩
  · cases more with
    | nil => exact (List.cons.inj hrest).2
    | cons e more =>
      obtain ⟨rfl, -⟩ := List.cons.inj hrest
      have hmem : .allocated mapper key o ∈ before' := by simp [hbefore]
      exact absurd hmem (hnot h')
  · cases more with
    | nil => exact (List.cons.inj hrest).2.symm
    | cons e more =>
      obtain ⟨rfl, -⟩ := List.cons.inj hrest
      have hmem : .allocated mapper' key' o ∈ before := by simp [hbefore]
      exact absurd hmem (hnot h)

theorem Orderly.complete (hs : Orderly r base hooks due s) (ha : a ∈ r.registrations)
    {items fields : List String} (hopen : Open a o items fields due s)
    (happlied : items = a.mapper.items.map (·.name))
    (hinside : ∀ before mapper key inside, s.entries = before ++ .allocated mapper key o :: inside →
      ∀ d ∈ destinationsIn inside, .completed d.object ∈ s.entries)
    {s' : PassState C} (hentries : s'.entries = s.entries ++ [.completed o]) (hheap : s'.heap = s.heap)
    (hcache : s'.cache = s.cache) (hrequests : s'.requests = s.requests)
    (hhooks : s'.hooks = s.hooks ++ a.mapper.after.zipIdx.map fun hook => ⟨o, hook.2, hook.1⟩) :
    Orderly r base hooks due s' := by
  have hplaces : s'.places = s.places := by unfold PassState.places; rw [hrequests]
  have hlaw : Law r base s.entries (.completed o) :=
    ⟨hopen.incomplete, ⟨a, ha, hopen.destination, hopen.applied.trans happlied⟩, hinside⟩
  have hnew : ∀ mapper key p, .allocated mapper key p ∉ [Entry.completed o] := by simp
  refine ⟨hs.step hnew hentries (hheap ▸ .refl _) hcache (hentries ▸ hs.lawful.concat hlaw) ?_,
    hplaces ▸ hs.nodup, fun p hp => ?_, ?_⟩
  · obtain ⟨done, hdone, hdestinations, hfollow⟩ := hs.follow
    refine ⟨done ++ [(a, o)], ?_, fun p hp => ?_, ?_⟩
    · rw [hentries, completedIn_append, hdone, List.map_append]
      rfl
    · rw [hentries, isDestination_append hnew]
      rcases List.mem_append.mp hp with hp | hp
      · exact hdestinations p hp
      · exact List.mem_singleton.mp hp ▸ ⟨ha, hopen.destination⟩
    -- The hooks are numbered by their places in the mapper.
    · have hqueued : (a.mapper.after.zipIdx.map fun hook => (⟨o, hook.2, hook.1⟩ : PendingHook C)).map (·.mark) =
          hooksOf (a, o) := by
        unfold hooksOf
        rw [List.map_map, List.range_eq_range', ← List.zipIdx_map_snd, List.map_map]
        rfl
      rw [hentries, hookedIn_append, hhooks, List.flatMap_append, ← hfollow, ← List.append_assoc,
        List.map_append, hqueued]
      simp [hookedIn, Entry.hooked?]
  · rw [hentries]
    exact (hs.unassigned p (hplaces ▸ hp)).append (by simp)
  · rw [hentries]
    exact hs.calm.append rfl

/-- With its completion, a new destination is all that the state has grown by. -/
theorem Allocated.grown {key : Option Key} {fields : Dict String Value} {s₁ s₂ s₃ : PassState C}
    (h : Allocated r a key fields s o s₁) (hgrown : Grown o.id s₁ s₂)
    (hentries : s₃.entries = s₂.entries ++ [.completed o]) (hplaces : s₃.places = s₂.places)
    (hheap : s₃.heap = s₂.heap) : Grown s.heap.size s s₃ := by
  obtain ⟨⟨new, hnew, htouched, hcompleted⟩, ⟨more, hmore, hids⟩, hsize⟩ := hgrown
  rw [← h.id_eq]
  refine ⟨⟨.allocated a.mapper.key key o :: (new ++ [.completed o]), ?_, fun e he p hp => ?_, fun d hd => ?_⟩,
    ⟨more, by rw [hplaces, hmore, h.places_eq], hids⟩, ?_⟩
  · rw [hentries, hnew, h.entries]
    simp
  · rcases List.mem_cons.mp he with rfl | he
    · exact Nat.le_of_eq (congrArg ObjectRef.id (Option.some.inj hp))
    · rcases List.mem_append.mp he with he | he
      · exact htouched e he p hp
      · obtain rfl := List.mem_singleton.mp he
        exact Nat.le_of_eq (congrArg ObjectRef.id (Option.some.inj hp))
  · have hsplit : destinationsIn (.allocated a.mapper.key key o :: (new ++ [.completed o])) =
        ⟨a.mapper.key, key, o⟩ :: destinationsIn new := by
      simp [destinationsIn, Entry.destination?]
    rw [hentries]
    rw [hsplit] at hd
    rcases List.mem_cons.mp hd with rfl | hd
    · simp
    · exact List.mem_append_left _ (hcompleted d hd)
  · rw [hheap]
    exact Nat.le_trans (Nat.le_of_succ_le (Nat.le_of_eq h.size_eq.symm)) hsize

/-- A transient is given a destination: one that was completed before, or a new one that is completed. -/
theorem Registry.Built.growsBy (h : Built metadata config declared resolved r) (ha : a ∈ r.registrations) :
    r.GrowsBy source ambient base hooks a := by
  refine h.induct (P := r.GrowsBy source ambient base hooks) (fun a ha ih t due s hs hfinished => ?_) ha
  have hkey : a.plan.head.key = a.mapper.key := h.committed.key_eq ha
  rw [Plan.map_eq, hkey, h.after_eq ha]
  refine After.bind (after_cached r source ambient _ _ s) ?_ fun _ _ hnone => hnone.elim
  intro found s₁ hfound
  cases found with
  | some o =>
    obtain ⟨k, -, hcaching, hget, hs₁⟩ := hfound
    obtain ⟨horderly, hgrown⟩ := hs.reuse hcaching hget hfinished .refl hs₁
    exact ⟨horderly, fun _ _ => hgrown⟩
  | none =>
  obtain ⟨rfl, hnew⟩ := hfound
  have hkeys := Plan.keys_defaults (h.assignments_eq ha) (h.nodup_destinations ha)
  refine After.bind (after_allocate r source ambient a _ _ s₁) ?_ fun _ _ hnone => hnone.elim
  intro o s₂ hallocated
  have hs₂ := hallocated.orderly h.committed.nodup ha (hkeys ▸ List.prefix_rfl) hnew hs
  -- The new destination is the only open one, and its mapper does not need itself.
  have hbelow : Finished (r.Underlies a.mapper.key) s₂.entries := by
    rw [hallocated.entries]
    refine (hfinished.mono fun _ htrans => htrans.to_reflTransGen).append fun d hd hneeds => ?_
    obtain rfl := List.mem_singleton.mp hd
    exact absurd hneeds (h.acyclic_mappers a.mapper.key)
  rw [After.bind_iff]
  apply (h.after_fillItems ha ih [] rfl _ hs₂ (hallocated.isOpen hs) hbelow).mono
  rintro (e | _) s₃ ⟨hs₃, hfilled⟩
  · exact ⟨hs₃, fun _ hok => by cases hok⟩
  obtain ⟨hgrown, hopen⟩ := hfilled rfl
  obtain ⟨new, hentries₃, htouched, hcompleted⟩ := hgrown.entries
  rw [either_ok, After.bind_iff]
  unfold PassM.defer
  rw [After.modify_iff, either_ok, After.bind_iff, PassM.record_iff, either_ok, After.pure_iff]
  generalize hs₄ : ({ s₃ with
    hooks := s₃.hooks ++ a.mapper.after.zipIdx.map fun hook => ⟨o, hook.2, hook.1⟩
    journal := s₃.journal.add (.completed o) } : PassState C) = s₄
  have hentries₄ : s₄.entries = s₃.entries ++ [.completed o] := by
    rw [← hs₄]
    exact Journal.toList_add _ _
  have hwhole : s₃.entries = s₁.entries ++ .allocated a.mapper.key (a.plan.head.keyOf t) o :: new := by
    rw [hentries₃, hallocated.entries, List.append_assoc, List.singleton_append]
  have hs₄' : Orderly r base hooks due s₄ := by
    refine hs₃.complete ha hopen (h.names_eq ha) (fun before mapper key inside hsplit d hd => ?_) hentries₄ ?_ ?_ ?_ ?_
    · obtain rfl := hs₃.lawful.eq_of_split hwhole hsplit
      exact hcompleted d hd
    all_goals rw [← hs₄]
  exact ⟨hs₄', fun _ _ => hallocated.grown hgrown hentries₄ (by rw [← hs₄]; rfl) (by rw [← hs₄])⟩

end EntityMapping
