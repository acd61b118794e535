import EntityMapping.Proofs.Pass.Keeping

/-! # What mapping adds

Mapping a transient works at new objects only, and completes all that it takes in. Assigning a value writes to one
field of one object.
-/

namespace EntityMapping

variable {C α β : Type}

/-- The object that an entry is about. -/
def Entry.touched? : Entry → Option ObjectRef
  | .allocated _ _ o | .applied o _ | .completed o | .assigned o _ => some o
  | _ => none

theorem Entry.IsSilent.touched?_eq {e : Entry} (h : e.IsSilent) : e.touched? = none := by
  cases e with
  | note | load | served => rfl
  | _ => cases h

/-- Only objects from `n` on were worked at, and the destinations that were given are completed. -/
structure Grown (n : Nat) (s s' : PassState C) : Prop where
  entries : ∃ new, s'.entries = s.entries ++ new ∧
    (∀ e ∈ new, ∀ o, e.touched? = some o → n ≤ o.id) ∧
    ∀ d ∈ destinationsIn new, .completed d.object ∈ s'.entries
  places : ∃ more, s'.places = s.places ++ more ∧ ∀ p ∈ more, n ≤ p.1.id
  size : s.heap.size ≤ s'.heap.size

namespace Grown

variable {n n' : Nat} {s s' s'' : PassState C}

theorem refl (n : Nat) (s : PassState C) : Grown n s s :=
  ⟨⟨[], (List.append_nil _).symm, by simp, by simp [destinationsIn]⟩,
    ⟨[], (List.append_nil _).symm, by simp⟩, Nat.le_refl _⟩

theorem mono (h : Grown n s s') (hn : n' ≤ n) : Grown n' s s' := by
  obtain ⟨⟨new, heq, htouched, hcompleted⟩, ⟨more, hmore, hids⟩, hsize⟩ := h
  exact ⟨⟨new, heq, fun e he o ho => Nat.le_trans hn (htouched e he o ho), hcompleted⟩,
    ⟨more, hmore, fun p hp => Nat.le_trans hn (hids p hp)⟩, hsize⟩

theorem trans (h : Grown n s s') (h' : Grown n s' s'') : Grown n s s'' := by
  obtain ⟨⟨new, heq, htouched, hcompleted⟩, ⟨more, hmore, hids⟩, hsize⟩ := h
  obtain ⟨⟨new', heq', htouched', hcompleted'⟩, ⟨more', hmore', hids'⟩, hsize'⟩ := h'
  refine ⟨⟨new ++ new', by rw [heq', heq, List.append_assoc], fun e he => ?_, fun d hd => ?_⟩,
    ⟨more ++ more', by rw [hmore', hmore, List.append_assoc], fun p hp => ?_⟩, Nat.le_trans hsize hsize'⟩
  · exact (List.mem_append.mp he).elim (htouched e) (htouched' e)
  · rw [destinationsIn_append] at hd
    rcases List.mem_append.mp hd with hd | hd
    · exact heq' ▸ List.mem_append_left _ (hcompleted d hd)
    · exact hcompleted' d hd
  · exact (List.mem_append.mp hp).elim (hids p) (hids' p)

theorem quiet (n : Nat) (h : s.Quiet s') : Grown n s s' := by
  obtain ⟨new, ha, hnew, hrequests⟩ := h
  refine ⟨⟨new, ha.entries, fun e he o ho => ?_, ?_⟩, ⟨[], ?_, by simp⟩, ha.heap.size⟩
  · rw [(hnew e he).touched?_eq] at ho
    cases ho
  · rw [destinationsIn_silent hnew]
    simp
  · unfold PassState.places
    rw [hrequests, List.append_nil]

theorem prefix_entries (h : Grown n s s') : s.entries <+: s'.entries := by
  obtain ⟨new, heq, -⟩ := h.entries
  exact ⟨new, heq.symm⟩

end Grown

/-- The destinations of some mappers are completed. -/
def Finished (T : MapperKey → Prop) (es : List Entry) : Prop :=
  ∀ mapper key o, .allocated mapper key o ∈ es → T mapper → .completed o ∈ es

theorem Finished.mono {T T' : MapperKey → Prop} {es : List Entry} (h : Finished T es)
    (hT : ∀ mapper, T' mapper → T mapper) : Finished T' es :=
  fun mapper key o hmem hmapper => h mapper key o hmem (hT mapper hmapper)

theorem Finished.append {T : MapperKey → Prop} {es new : List Entry} (h : Finished T es)
    (hnew : ∀ d ∈ destinationsIn new, T d.mapper → .completed d.object ∈ es ++ new) :
    Finished T (es ++ new) := by
  intro mapper key o hmem hmapper
  rcases List.mem_append.mp hmem with hmem | hmem
  · exact List.mem_append_left _ (h mapper key o hmem hmapper)
  · exact hnew ⟨mapper, key, o⟩ (mem_destinationsIn.mpr (Or.inl hmem)) hmapper

theorem Finished.grown {T : MapperKey → Prop} {n : Nat} {s s' : PassState C} (h : Finished T s.entries)
    (hg : Grown n s s') : Finished T s'.entries := by
  obtain ⟨new, heq, -, hcompleted⟩ := hg.entries
  rw [heq] at hcompleted ⊢
  exact h.append fun d hd _ => hcompleted d hd

variable {r : Registry C} {base : Nat} {hooks : List (PendingHook C)}

/-- Work that keeps the laws. If it succeeds and destinations of some mappers were completed before, it
works at new objects only and completes them. -/
def Grows (r : Registry C) (base : Nat) (hooks : List (PendingHook C)) (T : MapperKey → Prop)
    (x : PassM C α) : Prop :=
  ∀ due s, Orderly r base hooks due s → Finished T s.entries →
    After x s fun result s' => Orderly r base hooks due s' ∧
      ∀ v, result = .ok v → Grown s.heap.size s s'

namespace Grows

variable {T : MapperKey → Prop}

theorem mono {T' : MapperKey → Prop} {x : PassM C α} (h : Grows r base hooks T x)
    (hT : ∀ mapper, T mapper → T' mapper) : Grows r base hooks T' x :=
  fun due s hs hfinished => h due s hs (hfinished.mono hT)

theorem pure (v : α) : Grows r base hooks T (pure v : PassM C α) :=
  fun _ s hs _ => ⟨hs, fun _ _ => .refl _ s⟩

theorem of_quiet {x : PassM C α} (h : Moves PassState.Quiet x) : Grows r base hooks T x :=
  fun _ s hs _ => (h s).mono fun _ _ hq => ⟨hs.quiet hq, fun _ _ => .quiet _ hq⟩

theorem bind {x : PassM C α} {f : α → PassM C β} (hx : Grows r base hooks T x)
    (hf : ∀ v, Grows r base hooks T (f v)) : Grows r base hooks T (x >>= f) := by
  intro due s hs hfinished
  rw [After.bind_iff]
  apply (hx due s hs hfinished).mono
  rintro (e | v) s₁ ⟨hs₁, hgrown⟩
  · exact ⟨hs₁, fun _ h => by cases h⟩
  have hgrown := hgrown v rfl
  rw [either_ok]
  apply (hf v due s₁ hs₁ (hfinished.grown hgrown)).mono
  exact fun result s₂ ⟨hs₂, hgrown₂⟩ =>
    ⟨hs₂, fun w hw => hgrown.trans ((hgrown₂ w hw).mono hgrown.size)⟩

theorem ofExcept (result : Except Error α) : Grows r base hooks T (ofExcept result : PassM C α) :=
  of_quiet (Moves.ofExcept result)

theorem mapM {f : α → PassM C β} (l : List α) (h : ∀ a ∈ l, Grows r base hooks T (f a)) :
    Grows r base hooks T (l.mapM f) := by
  induction l with
  | nil => exact pure _
  | cons a l ih =>
    rw [List.mapM_cons]
    refine bind (h a (by simp)) fun b => ?_
    exact bind (ih fun c hc => h c (List.mem_cons_of_mem _ hc)) fun _ => pure _

end Grows

/-! ## Writing to an object -/

/-- At most one field of an object was assigned. -/
structure Wrote (p : ObjectRef × String) (s s' : PassState C) : Prop where
  entries : ∃ new, s'.entries = s.entries ++ new ∧ ∀ e ∈ new, e.IsSilent ∨ e = .assigned p.1 p.2
  places : s'.places = s.places
  size : s.heap.size ≤ s'.heap.size

theorem Wrote.grown {p : ObjectRef × String} {s s' : PassState C} (h : Wrote p s s') :
    Grown p.1.id s s' := by
  obtain ⟨⟨new, heq, hnew⟩, hplaces, hsize⟩ := h
  refine ⟨⟨new, heq, fun e he o ho => ?_, ?_⟩, ⟨[], by simpa using hplaces, by simp⟩, hsize⟩
  · rcases hnew e he with hsilent | rfl
    · rw [hsilent.touched?_eq] at ho
      cases ho
    · exact Nat.le_of_eq (congrArg ObjectRef.id (Option.some.inj ho))
  · intro d hd
    obtain ⟨e, he, hd⟩ := List.mem_filterMap.mp hd
    rcases hnew e he with hsilent | rfl
    · cases e with
      | note | load | served => cases hd
      | _ => cases hsilent
    · cases hd

variable {due : List (ObjectRef × String)} {s s' : PassState C}

theorem after_assign (setting : Setting C) (a : Assignment C) (v : Value) (o : ObjectRef)
    (hs : Orderly r base hooks ((o, a.field) :: due) s) :
    After (PassM.assign setting a v o) s fun _ s' =>
      Orderly r base hooks due s' ∧ Wrote (o, a.field) s s' := by
  unfold PassM.assign
  rw [After.bind_iff]
  apply (PassM.quiet_perform (a.assign v o setting.ambient) s).mono
  intro result s₁ hq
  have hs₁ := hs.quiet hq
  obtain ⟨new, ha, hnew, hrequests⟩ := hq
  have hplaces : s₁.places = s.places := by unfold PassState.places; rw [hrequests]
  cases result with
  | error e => exact ⟨hs₁.drop, ⟨new, ha.entries, fun e he => Or.inl (hnew e he)⟩, hplaces, ha.heap.size⟩
  | ok u =>
    rw [either_ok, PassM.record_iff]
    have hentries : ({ s₁ with journal := s₁.journal.add (.assigned o a.field) } : PassState C).entries =
        s₁.entries ++ [.assigned o a.field] := Journal.toList_add _ _
    refine ⟨?_, ⟨new ++ [.assigned o a.field], ?_, ?_⟩, hplaces, ha.heap.size⟩
    · obtain ⟨hnot, hfresh⟩ := List.nodup_cons.mp hs₁.nodup
      -- The field is due no more, as it is assigned now.
      refine hs₁.drop.along ⟨hentries, .refl _, rfl, rfl⟩
        (fun e he => List.mem_singleton.mp he ▸ trivial) ?_ rfl fun p hp hmem => ?_
      · rw [hentries]
        obtain ⟨hunassigned, b, hb, ho, hfield⟩ := hs₁.unassigned (o, a.field) (by simp)
        exact hs₁.lawful.concat ⟨hunassigned, b, hb, ho, hfield⟩
      · obtain ⟨hobject, hfield⟩ := Entry.assigned.inj (List.mem_singleton.mp hmem)
        exact hnot ((Prod.ext hobject hfield : p = (o, a.field)) ▸ hp)
    · rw [hentries, ha.entries, List.append_assoc]
    · intro e he
      rcases List.mem_append.mp he with he | he
      · exact Or.inl (hnew e he)
      · exact Or.inr (List.mem_singleton.mp he)

end EntityMapping
