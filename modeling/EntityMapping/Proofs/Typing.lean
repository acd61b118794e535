import EntityMapping.Proofs.Evaluation
import EntityMapping.Proofs.Pass.Upholding
import EntityMapping.Proofs.Projecting
import EntityMapping.Proofs.Sparing

/-! # Declared types

Every declared field of a destination holds a value of its type from the moment it is made: first what the
field begins with, and then what is assigned to it. Only the empty list that the field of a mapped sequence
begins with need not be of the type that was declared for the field.
-/

namespace EntityMapping

variable {C α : Type}

/-! ## Values that fit -/

theorem DestinationShape.accepts_null (shape : DestinationShape) : shape.accepts .null = true := by
  cases shape with
  | scalar type => cases type <;> rfl
  | object | list => rfl

/-- The field of an item holds a value of its type, or is still the list that it began with. -/
def Item.Fits (i : Item C) (s : PassState C) (o : ObjectRef) : Prop :=
  ∃ v, (s.heap.fields o).get? i.destination = some v ∧
    (i.expected.accepts v = true ∨
      (∃ name, i.destinationShape = .list name) ∧ v = .list [] ∧ .assigned o i.destination ∉ s.entries)

theorem Item.fits_default {i : Item C} {s : PassState C} {o : ObjectRef}
    (hget : (s.heap.fields o).get? i.destination = some i.destinationShape.default)
    (hnew : .assigned o i.destination ∉ s.entries) : i.Fits s o := by
  refine ⟨_, hget, ?_⟩
  cases hshape : i.destinationShape with
  | list name => exact .inr ⟨⟨name, rfl⟩, rfl, hnew⟩
  | scalar | object => exact .inl (DestinationShape.accepts_null _)

/-- An entry that makes a destination or sets a field. -/
def Entry.IsWritten : Entry → Prop
  | .allocated _ _ _ | .assigned _ _ => True
  | _ => False

theorem Entry.IsNeutral.not_written {e : Entry} (h : e.IsNeutral) : ¬ e.IsWritten := by
  cases e with
  | allocated | assigned => cases h
  | _ => exact id

/-- The destinations are among the first `base` objects, they have identities of their own, and their
declared fields hold what fits. -/
structure Typed (r : Registry C) (base : Nat) (s : PassState C) : Prop where
  le : base ≤ s.heap.size
  lt : ∀ mapper key o, .allocated mapper key o ∈ s.entries → o.id < base
  assigned_lt : ∀ o field, .assigned o field ∈ s.entries → o.id < base
  unique : ∀ mapper key o mapper' key' o', .allocated mapper key o ∈ s.entries →
    .allocated mapper' key' o' ∈ s.entries → o.id = o'.id → mapper = mapper' ∧ o = o'
  fits : ∀ mapper key o, .allocated mapper key o ∈ s.entries →
    ∃ a ∈ r.registrations, a.mapper.key = mapper ∧ ∀ i ∈ a.mapper.items, i.Fits s o

namespace Typed

variable {r : Registry C} {base : Nat} {s s' : PassState C}

theorem initial (r : Registry C) (heap : Heap) : Typed r heap.size (.initial heap : PassState C) where
  le := Nat.le_refl _
  lt _ _ _ h := by cases h
  assigned_lt _ _ h := by cases h
  unique _ _ _ _ _ _ h := by cases h
  fits _ _ _ h := by cases h

theorem grow (h : Typed r base s) : Typed r s.heap.size s :=
  ⟨Nat.le_refl _, fun _ _ _ ho => Nat.lt_of_lt_of_le (h.lt _ _ _ ho) h.le,
    fun _ _ ho => Nat.lt_of_lt_of_le (h.assigned_lt _ _ ho) h.le, h.unique, h.fits⟩

/-- No declared field changes while nothing is written down about it. -/
theorem spare (h : Typed r base s) (hheap : s.heap.Spares r.Declares base s'.heap)
    (hentries : ∀ e ∈ s'.entries, e.IsWritten → e ∈ s.entries) : Typed r base s' where
  le := Nat.le_trans h.le hheap.size
  lt mapper key o ho := h.lt _ _ _ (hentries _ ho trivial)
  assigned_lt o field ho := h.assigned_lt _ _ (hentries _ ho trivial)
  unique mapper key o mapper' key' o' ho ho' :=
    h.unique _ _ _ _ _ _ (hentries _ ho trivial) (hentries _ ho' trivial)
  fits mapper key o ho := by
    obtain ⟨a, ha, hkey, hfits⟩ := h.fits _ _ _ (hentries _ ho trivial)
    refine ⟨a, ha, hkey, fun i hi => ?_⟩
    obtain ⟨v, hget, hv⟩ := hfits i hi
    have hdeclared : r.Declares i.destination := ⟨a.mapper, List.mem_map_of_mem ha, i, hi, rfl⟩
    refine ⟨v, ?_, hv.imp_right fun ⟨hlist, hempty, hnot⟩ =>
      ⟨hlist, hempty, fun hmem => hnot (hentries _ hmem trivial)⟩⟩
    rw [hheap.get?_eq o (h.lt _ _ _ (hentries _ ho trivial)) _ hdeclared, hget]

theorem allocated {metadata : Metadata} {config : Config} {declared : List (MapperDeclaration C)}
    {resolved : List (Mapper C)} (hbuilt : Registry.Built metadata config declared resolved r)
    {a : Registration C} (ha : a ∈ r.registrations) {key : Option Key} {o : ObjectRef}
    (h : Typed r s.heap.size s) (hmade : Allocated r a key a.plan.defaults s o s') :
    Typed r s'.heap.size s' := by
  have hid := hmade.id_eq
  have hsize := hmade.size_eq
  obtain ⟨hobject, hheap, hentries, -⟩ := hmade
  have hspares : s.heap.Spares r.Declares s.heap.size s'.heap :=
    hheap ▸ .create s.heap (Nat.le_refl _) _ _
  have hmem : ∀ e, e ∈ s'.entries ↔ e ∈ s.entries ∨ e = .allocated a.mapper.key key o := by
    simp [hentries]
  -- The object is new, so nothing was assigned to it.
  have hassigned : ∀ field, .assigned o field ∉ s'.entries := by
    intro field hin
    have hold := ((hmem _).mp hin).resolve_right (by simp)
    exact absurd (h.assigned_lt _ _ hold) (by omega)
  have hold : ∀ {mapper key' p}, .allocated mapper key' p ∈ s'.entries →
      .allocated mapper key' p ∈ s.entries ∨ mapper = a.mapper.key ∧ p = o := by
    intro mapper key' p hp
    refine ((hmem _).mp hp).imp_right fun heq => ?_
    injection heq with hmapper _ hp
    exact ⟨hmapper, hp⟩
  refine ⟨Nat.le_refl _, fun mapper key' p hp => ?_, fun p field hp => ?_, ?_, fun mapper key' p hp => ?_⟩
  · rcases hold hp with hp | ⟨-, rfl⟩
    · exact Nat.lt_of_lt_of_le (h.lt _ _ _ hp) hspares.size
    · omega
  · exact Nat.lt_of_lt_of_le (h.assigned_lt _ _ (((hmem _).mp hp).resolve_right (by simp))) hspares.size
  · intro mapper key' p mapper' key'' p' hp hp' hsame
    rcases hold hp with hp | ⟨rfl, rfl⟩ <;> rcases hold hp' with hp' | ⟨rfl, rfl⟩
    · exact h.unique _ _ _ _ _ _ hp hp' hsame
    · exact absurd (h.lt _ _ _ hp) (by omega)
    · exact absurd (h.lt _ _ _ hp') (by omega)
    · exact ⟨rfl, rfl⟩
  · rcases hold hp with hp | ⟨rfl, rfl⟩
    · obtain ⟨b, hb, hkey, hfits⟩ := h.fits _ _ _ hp
      refine ⟨b, hb, hkey, fun i hi => ?_⟩
      obtain ⟨v, hget, hv⟩ := hfits i hi
      have hdeclared : r.Declares i.destination := ⟨b.mapper, List.mem_map_of_mem hb, i, hi, rfl⟩
      refine ⟨v, by rw [hspares.get?_eq p (h.lt _ _ _ hp) _ hdeclared, hget], hv.imp_right ?_⟩
      exact fun ⟨hlist, hempty, hnot⟩ =>
        ⟨hlist, hempty, fun hin => hnot (((hmem _).mp hin).resolve_right (by simp))⟩
    · refine ⟨a, ha, rfl, fun i hi => Item.fits_default ?_ (hassigned _)⟩
      have hfields : s'.heap.fields p = a.plan.defaults := by
        rw [hheap, hobject]
        exact Heap.fields_create_self _ _ _
      have hassignments := hbuilt.assignments_eq ha
      have hdestinations := hbuilt.nodup_destinations ha
      have hkeys : a.plan.defaults.keys.Nodup := by
        rw [Plan.keys_defaults hassignments hdestinations]
        exact hdestinations
      rw [hfields, ← Dict.mem_entries_iff hkeys, Plan.entries_defaults hassignments hdestinations]
      exact List.mem_map_of_mem hi

theorem assigned {metadata : Metadata} {config : Config} {declared : List (MapperDeclaration C)}
    {resolved : List (Mapper C)} (hbuilt : Registry.Built metadata config declared resolved r)
    {a : Registration C} (ha : a ∈ r.registrations) {i : Item C} (hi : i ∈ a.mapper.items) {o : ObjectRef}
    (h : Typed r base s) (ho : IsDestination a o s.entries) {heap : Heap}
    (hspares : s.heap.Spares r.Declares base heap) {v : Value} (hv : i.expected.accepts v = true)
    (hheap : s'.heap = heap.set o i.destination v)
    (hentries : ∀ e ∈ s'.entries, e.IsWritten → e ∈ s.entries ∨ e = .assigned o i.destination) :
    Typed r base s' := by
  obtain ⟨key, ho⟩ := ho
  have hold : ∀ {mapper key' p}, .allocated mapper key' p ∈ s'.entries → .allocated mapper key' p ∈ s.entries :=
    fun hp => (hentries _ hp trivial).resolve_right (by simp)
  have hle : base ≤ heap.size := Nat.le_trans h.le hspares.size
  have hlt : o.id < heap.size := Nat.lt_of_lt_of_le (h.lt _ _ _ ho) hle
  refine ⟨by rwa [hheap, Heap.size_set], fun mapper key' p hp => h.lt _ _ _ (hold hp),
    fun p field hp => ?_, fun _ _ _ _ _ _ hp hp' => h.unique _ _ _ _ _ _ (hold hp) (hold hp'),
    fun mapper key' p hp => ?_⟩
  · rcases hentries _ hp trivial with hp | heq
    · exact h.assigned_lt _ _ hp
    · injection heq with hp _
      exact hp ▸ h.lt _ _ _ ho
  obtain ⟨b, hb, hkey, hfits⟩ := h.fits _ _ _ (hold hp)
  refine ⟨b, hb, hkey, fun j hj => ?_⟩
  by_cases hsame : p = o ∧ j.destination = i.destination
  · -- The field is the one that is set, so the item is the one that it is set for.
    obtain ⟨rfl, hdestination⟩ := hsame
    obtain ⟨hmapper, -⟩ := h.unique _ _ _ _ _ _ (hold hp) ho rfl
    obtain rfl : b = a := List.inj_on_of_nodup_map hbuilt.committed.nodup hb ha (hkey.trans hmapper)
    obtain rfl : j = i := List.inj_on_of_nodup_map (hbuilt.nodup_destinations ha) hj hi hdestination
    refine ⟨v, ?_, .inl hv⟩
    rw [hheap, Heap.fields_set _ _ _ _ _ hlt, if_pos rfl, Dict.get?_set_self]
  · obtain ⟨w, hget, hw⟩ := hfits j hj
    have hdeclared : r.Declares j.destination := ⟨b.mapper, List.mem_map_of_mem hb, j, hj, rfl⟩
    have hkept := hspares.get?_eq p (h.lt _ _ _ (hold hp)) _ hdeclared
    refine ⟨w, ?_, hw.imp_right fun ⟨hlist, hempty, hnot⟩ => ⟨hlist, hempty, fun hin => ?_⟩⟩
    · rw [hheap, Heap.fields_set _ _ _ _ _ hlt]
      split
      · rename_i hid
        obtain ⟨-, rfl⟩ := h.unique _ _ _ _ _ _ (hold hp) ho hid
        rw [Dict.get?_set_of_ne _ _ fun heq => hsame ⟨rfl, heq.symm⟩, hkept, hget]
      · rw [hkept, hget]
    · rcases hentries _ hin trivial with hin | heq
      · exact hnot hin
      · injection heq with hp' hfield
        exact hsame ⟨hp', hfield⟩

end Typed

/-! ## The steps of a pass -/

/-- An assignment fails without a trace in these fields, or stores a value that is accepted. -/
theorem Assignment.run_assign_spares {P : String → Prop} {ambient : C} {a : Assignment C}
    (h : ∀ f, a.transposer = some f → ∀ v, (f v ambient).Spares P) (v : Value) (o : ObjectRef)
    (heap : Heap) :
    (∃ e, ((a.assign v o ambient).run heap).result = .error e ∧
        heap.Spares P heap.size ((a.assign v o ambient).run heap).heap) ∨
      ∃ w heap', ((a.assign v o ambient).run heap).result = .ok () ∧ a.expected.accepts w = true ∧
        heap.Spares P heap.size heap' ∧
        ((a.assign v o ambient).run heap).heap = heap'.set o a.field w := by
  have hspares := Assignment.spares_transpose h v heap
  rw [run_assign]
  generalize (a.transpose v ambient).run heap = ran at hspares
  obtain ⟨_ | w, heap', notes⟩ := ran
  · exact .inl ⟨_, rfl, hspares⟩
  · dsimp only
    split
    · rename_i haccepts
      exact .inr ⟨w, heap', rfl, haccepts, hspares, rfl⟩
    · exact .inl ⟨_, rfl, hspares⟩

namespace Typed

variable {metadata : Metadata} {config : Config} {declared : List (MapperDeclaration C)}
  {resolved : List (Mapper C)} {r : Registry C} {source : DataSource} {ambient : C}
  {base : Nat} {s s' : PassState C}

theorem mem_of_notes {notes : List Note} (hjournal : s'.journal = s.journal.addNotes notes) {e : Entry}
    (he : e ∈ s'.entries) (hwritten : e.IsWritten) : e ∈ s.entries := by
  obtain ⟨new, hentries, hnew⟩ := Journal.Quiet.addNotes s.journal notes
  have hall : s'.entries = s.entries ++ new := by
    unfold PassState.entries
    rw [hjournal, hentries]
  rw [hall] at he
  exact (List.mem_append.mp he).resolve_right fun hin =>
    (hnew e hin).isNeutral.not_written hwritten

theorem perform {action : Action α} (h : Typed r base s) (haction : action.Spares r.Declares) :
    After (PassM.perform action) s fun _ s' => Typed r base s' := by
  rw [PassM.perform_iff]
  exact h.spare ((haction s.heap).mono h.le) fun _ he => mem_of_notes rfl he

theorem record (h : Typed r base s) {e : Entry} (he : ¬ e.IsWritten) :
    After (PassM.record e) s fun _ s' => Typed r base s' := by
  rw [PassM.record_iff]
  refine h.spare (.refl _ _ _) fun e' he' hwritten => ?_
  have hentries : e' ∈ s.entries ++ [e] := (Journal.toList_add s.journal e) ▸ he'
  rcases List.mem_append.mp hentries with hin | hin
  · exact hin
  · exact absurd (List.mem_singleton.mp hin ▸ hwritten) he

section

variable (hbuilt : Registry.Built metadata config declared resolved r) (hcode : CodeSpares r ambient)
include hbuilt hcode

theorem assign {a : Registration C} (ha : a ∈ r.registrations) {i : Item C} (hi : i ∈ a.mapper.items)
    {o : ObjectRef} (h : Typed r base s) (ho : IsDestination a o s.entries) (v : Value) :
    After (PassM.assign (r.setting source ambient) (.ofItem i) v o) s fun _ s' => Typed r base s' := by
  have hran := Assignment.run_assign_spares (a := .ofItem i)
    (hcode.transposer a.mapper (List.mem_map_of_mem ha) i hi) v o s.heap
  change After (PassM.perform ((Assignment.ofItem i).assign v o ambient) >>= fun _ =>
    PassM.record (.assigned o i.destination)) s _
  generalize (Assignment.ofItem i).assign v o ambient = action at hran
  rw [After.bind_iff, PassM.perform_iff]
  rcases hran with ⟨e, hresult, hspares⟩ | ⟨w, heap, hresult, haccepts, hspares, hheap⟩
  · rw [hresult]
    exact h.spare (hspares.mono h.le) fun _ he => mem_of_notes rfl he
  · rw [hresult, either_ok, PassM.record_iff]
    refine h.assigned hbuilt ha hi ho (hspares.mono h.le) haccepts hheap fun e he hwritten => ?_
    let performed : PassState C := { s with journal := s.journal.addNotes (action.run s.heap).notes }
    have hentries : e ∈ performed.entries ++ [.assigned o i.destination] := (Journal.toList_add _ _) ▸ he
    exact (List.mem_append.mp hentries).imp (fun hin => mem_of_notes rfl hin hwritten) List.mem_singleton.mp

theorem deliver {q : Request C} (hq : q.Posted r s.entries) (h : Typed r base s) (v : Value) :
    After (deliver (r.setting source ambient) q.number q.delivery v) s fun _ s' => Typed r base s' := by
  obtain ⟨-, a, ha, ho, i, hi, hassignment, -⟩ := hq
  have haside := PassM.aside_record (.delivered q.number v) s
  have hnoted := h.record (e := .delivered q.number v) id
  unfold EntityMapping.deliver
  rw [After.bind_iff]
  apply (haside.and hnoted).mono
  rintro (e | _) s₁ ⟨haside, hnoted⟩
  · exact hnoted
  rw [either_ok]
  split
  · rw [hassignment]
    exact assign hbuilt hcode ha hi hnoted (ho.mono haside.entries) _
  · exact hnoted

omit hbuilt hcode in
theorem bind {β : Type} {x : PassM C α} {f : α → PassM C β} (ha : Moves Aside x)
    (hx : After x s fun _ s' => Typed r base s')
    (hf : ∀ v s', Typed r base s' → s.entries ⊆ s'.entries →
      After (f v) s' fun _ s' => Typed r base s') :
    After (x >>= f) s fun _ s' => Typed r base s' := by
  rw [After.bind_iff]
  apply ((ha s).and hx).mono
  rintro (e | v) s' ⟨haside, hs'⟩
  · exact hs'
  · exact hf v s' hs' haside.entries

/-- A script may set the fields of objects that it made, as they are no destinations. -/
theorem runScript {n : Nat} {script : Script n} (hscript : script.Spares r.Declares base)
    {pending : List (BatchRequest C)} (hlength : pending.length = n)
    (hpending : ∀ q ∈ pending, ∃ p, (Request.batch p q).Posted r s.entries) (h : Typed r base s) :
    After (runScript (r.setting source ambient) script pending hlength) s fun _ s' => Typed r base s' := by
  have hposted : ∀ {pending : List (BatchRequest C)} {s s' : PassState C}, s.entries ⊆ s'.entries →
      (∀ q ∈ pending, ∃ p, (Request.batch p q).Posted r s.entries) →
      ∀ q ∈ pending, ∃ p, (Request.batch p q).Posted r s'.entries :=
    fun hle hpending q hq => (hpending q hq).imp fun _ hq => hq.mono hle
  induction script generalizing pending s with
  | finish | fail => exact h
  | inspect next ih =>
    refine bind (PassM.aside_perform _) (h.perform fun heap => .refl _ _ heap) fun heap s' hs' hle => ?_
    exact ih heap (hscript heap) hlength (hposted hle hpending) hs'
  | set o field v next ih =>
    have hset : After (PassM.perform (.setField o field v)) s fun _ s' => Typed r base s' :=
      h.spare (.set s.heap hscript.1 v) fun _ he _ => he
    refine bind (PassM.aside_perform _) hset fun _ s' hs' hle => ?_
    exact ih hscript.2 hlength (hposted hle hpending) hs'
  | create typeName fields next ih =>
    unfold EntityMapping.runScript
    rw [After.bind_iff, PassM.perform_iff]
    have hcreated : Typed r base { s with
        heap := (s.heap.create typeName fields).2
        journal := s.journal.addNotes [] } := h.spare (.create s.heap h.le typeName fields) fun _ he _ => he
    exact ih _ (hscript ⟨s.heap.size, typeName⟩ h.le) hlength hpending hcreated
  | note entry next ih =>
    refine bind (PassM.aside_record _) (h.record id) fun _ s' hs' hle => ?_
    exact ih hscript hlength (hposted hle hpending) hs'
  | apply i v next ih =>
    unfold EntityMapping.runScript
    dsimp only
    rw [After.bind_iff, PassM.attempt_iff]
    obtain ⟨p, hq⟩ := hpending _ (List.getElem_mem (i.isLt.trans_eq hlength.symm))
    apply ((aside_deliver _ _ _ _ s).and (deliver hbuilt hcode hq h v)).mono
    rintro result s' ⟨haside, hs'⟩
    refine ih result (hscript result) _ (hposted haside.entries fun q hq => ?_) hs'
    exact hpending q (List.mem_of_mem_eraseIdx hq)

end

theorem upholding (hbuilt : Registry.Built metadata config declared resolved r)
    (hcode : CodeSpares r ambient) :
    Upholding r source ambient fun s => Typed r s.heap.size s where
  still s s' hstill h := by
    obtain ⟨new, hentries, hnew⟩ := hstill.entries
    rw [hstill.heap]
    refine h.spare (hstill.heap ▸ .refl _ _ _) fun e he hwritten => ?_
    rw [hentries] at he
    exact (List.mem_append.mp he).resolve_right fun hin => (hnew e hin).not_written hwritten
  allocate a ha key o s s' hmade _ h := h.allocated hbuilt ha hmade
  assign a ha i hi o s h ho v := by
    apply (assign hbuilt hcode ha hi h ho v).mono
    rintro (e | _) s' hs'
    · trivial
    · exact hs'.grow
  enqueue request s _ h := by
    refine h.spare (.refl _ _ _) fun e he hwritten => ?_
    rw [PassM.entries_queueing] at he
    refine (List.mem_append.mp he).resolve_right fun hin => ?_
    obtain rfl := List.mem_singleton.mp hin
    exact hwritten
  deliver q s hq h v := by
    apply (deliver hbuilt hcode hq h v).mono
    rintro (e | _) s' hs'
    · trivial
    · exact hs'.grow
  script a ha i hi p hp requests s hrequests h := by
    have hscript := hcode.processor a.mapper (List.mem_map_of_mem ha) i hi p hp
      (requests.map (·.key)) s.heap.size
    apply (runScript hbuilt hcode hscript (by simp) hrequests h).mono
    rintro (e | _) s' hs'
    · trivial
    · exact hs'.grow
  hook pending s hpending h := by
    obtain ⟨a, ha, -, hplace⟩ := hpending
    have hspares := hcode.hook a.mapper (List.mem_map_of_mem ha) _ (List.mem_of_getElem? hplace) pending.object
    refine After.mono (bind (PassM.aside_record _) (h.record id) fun _ s' hs' _ => hs'.perform hspares) ?_
    rintro (e | _) s' hs'
    · trivial
    · exact hs'.grow

end Typed

namespace Registry

/-- The shape that an item's values must fit is that of its field, or a type that was declared for it. -/
theorem Built.expected_eq {metadata : Metadata} {config : Config} {declared : List (MapperDeclaration C)}
    {resolved : List (Mapper C)} {r : Registry C} (h : Built metadata config declared resolved r)
    {a : Registration C} (ha : a ∈ r.registrations) {i : Item C} (hi : i ∈ a.mapper.items) :
    i.expected = i.destinationShape ∨ ∃ type, i.expected = .scalar type := by
  obtain ⟨_, -, -, declaration, -, hresolved⟩ := h.resolves.exists_resolved (h.mem a ha) hi
  obtain ⟨-, -, -, -, -, rfl⟩ := Declaration.resolve_eq_ok hresolved
  cases declaration.declared with
  | none => exact .inl rfl
  | some type => exact .inr ⟨type, rfl⟩

/-- When a pass has given its result, every declared field of every destination that was made in it holds a
value of its type, unless it is the field of a mapped sequence for which a type was declared: then it may
hold the empty list that it began with, if nothing was assigned to it. Code that sets the declared fields of
objects that it did not make is not reckoned with. -/
theorem map_types_fields {metadata : Metadata} {config : Config} {declared : List (MapperDeclaration C)}
    {logs : List LogRecord} {r : Registry C}
    (hbuild : ((build metadata config declared).run.run logs).1 = .ok r) (q : Query) (destination : String)
    (source : DataSource) {ambient : C} (hcode : CodeSpares r ambient) (heap : Heap) {mapped : Mapped}
    (hmapped : (r.map q destination source ambient heap).1 = .ok mapped) :
    let s := (r.map q destination source ambient heap).2
    ∀ mapper key o, .allocated mapper key o ∈ s.entries → ∃ m ∈ r.mappers, m.key = mapper ∧
      ∀ i ∈ m.items, ∃ v, (s.heap.fields o).get? i.destination = some v ∧
        (i.expected.accepts v = true ∨
          ∃ name type, i.destinationShape = .list name ∧ i.expected = .scalar type ∧ v = .list [] ∧
            .assigned o i.destination ∉ s.entries) := by
  obtain ⟨resolved, hbuilt⟩ := built_of_build hbuild
  have hupholding : Upholding r source ambient fun s => Typed r s.heap.size s := Typed.upholding hbuilt hcode
  have htyped := hupholding.of_map hbuilt (Typed.initial r heap) hmapped
  intro s mapper key o ho
  obtain ⟨a, ha, hkey, hfits⟩ := htyped.fits mapper key o ho
  refine ⟨a.mapper, List.mem_map_of_mem ha, hkey, fun i hi => ?_⟩
  obtain ⟨v, hget, hv⟩ := hfits i hi
  refine ⟨v, hget, ?_⟩
  rcases hv with haccepts | ⟨⟨name, hlist⟩, rfl, hunassigned⟩
  · exact .inl haccepts
  -- An empty list fits the shape of the field, so it is only of another type that it may not be.
  rcases hbuilt.expected_eq ha hi with heq | ⟨type, heq⟩
  · exact .inl (by rw [heq, hlist]; rfl)
  · exact .inr ⟨name, type, hlist, heq, rfl, hunassigned⟩

end Registry

/-! ## Orders whose lines are typed -/

namespace Sample

/-- Orders have lines by a code that may be missing. -/
def coded : Metadata := .ofList [
  (((Entity.new "Order").withKey "id" .int).withColumn "code" .string).withRelation
    ⟨"lines", "Line", .hasMany, "order_code", "code"⟩,
  ((Entity.new "Line").withKey "id" .int).withColumn "order_code" .string]

/-- The codes are transposed, and numbers are declared where lines are mapped. -/
def retyped : List (MapperDeclaration Unit) := [
  ⟨⟨"Order", "OrderView"⟩,
    [{ destination := "code", declared := some .string,
       transposer := some fun v _ => .done v },
      { destination := "lines", mapped := some "LineView", declared := some .int, style := some .fetch }], []⟩,
  ⟨⟨"Line", "LineView"⟩, [{ destination := "id", declared := some .int }], []⟩]

def uncoded : Source.Memory := .ofTables [("Order", [⟨[("id", .int 1), ("code", .null)]⟩])]

/-- What is mapped for an order sets a field of it that is declared. -/
def meddling : List (MapperDeclaration Unit) := [
  ⟨⟨"Order", "OrderView"⟩,
    [{ destination := "customer", mapped := some "CustomerView",
       transposer := some fun v _ =>
        match v with
        | .object o => .set o "id" (.string "none") (.done v)
        | _ => .done v }], []⟩,
  ⟨⟨"Customer", "CustomerView"⟩, [{ destination := "id", declared := some .int }], []⟩]

/-- Some field holds what its item does not accept. -/
def HoldsMisfit (r : Registry Unit) (s : PassState Unit) : Prop :=
  ∃ mapper key o, .allocated mapper key o ∈ s.entries ∧ ∃ m ∈ r.mappers, m.key = mapper ∧
    ∃ i ∈ m.items, ∃ v, (s.heap.fields o).get? i.destination = some v ∧ i.expected.accepts v = false

def holdsMisfit (r : Registry Unit) (s : PassState Unit) : Bool :=
  s.entries.any fun
    | .allocated mapper _ o => r.mappers.any fun m => m.key = mapper && m.items.any fun i =>
        ((s.heap.fields o).get? i.destination).any fun v => !i.expected.accepts v
    | _ => false

theorem holdsMisfit_of_any {r : Registry Unit} {s : PassState Unit} (h : holdsMisfit r s = true) :
    HoldsMisfit r s := by
  obtain ⟨e, he, h⟩ := List.any_eq_true.mp h
  split at h
  · rename_i mapper key o
    obtain ⟨m, hm, h⟩ := List.any_eq_true.mp h
    simp only [Bool.and_eq_true, decide_eq_true_eq] at h
    obtain ⟨hkey, h⟩ := h
    obtain ⟨i, hi, h⟩ := List.any_eq_true.mp h
    obtain ⟨v, hget, hv⟩ := (Option.any_eq_true _ _).mp h
    exact ⟨mapper, key, o, he, m, hm, hkey, i, hi, v, hget, by simpa using hv⟩
  · cases h

/-- All orders are mapped, and a field holds what its item does not accept. -/
def Misfits (metadata : Metadata) (declared : List (MapperDeclaration Unit)) (m : Source.Memory) : Prop :=
  ∃ r mapped, ((Registry.build metadata {} declared).run.run []).1 = .ok r ∧ (∀ d ∈ declared, d.after = []) ∧
    (r.map (Query.all "Order") "OrderView" m.source () .empty).1 = .ok mapped ∧
    HoldsMisfit r (r.map (Query.all "Order") "OrderView" m.source () .empty).2

theorem misfits_of_any {metadata : Metadata} {declared : List (MapperDeclaration Unit)} {m : Source.Memory}
    (h : (((Registry.build metadata {} declared).run.run []).1.toOption.any fun r =>
      (r.map (Query.all "Order") "OrderView" m.source () .empty).1.toOption.any fun _ =>
        holdsMisfit r (r.map (Query.all "Order") "OrderView" m.source () .empty).2) = true)
    (hafter : ∀ d ∈ declared, d.after = []) : Misfits metadata declared m := by
  obtain ⟨r, hbuild, h⟩ := exists_ok_of_any h
  obtain ⟨mapped, hmapped, h⟩ := exists_ok_of_any h
  exact ⟨r, mapped, hbuild, hafter, hmapped, holdsMisfit_of_any h⟩

/-- Where a number is declared for mapped lines, an order without a code keeps its empty list. And a transposer
that is given a destination may set any field of it. -/
theorem unfit_fields : Misfits coded retyped uncoded ∧ Misfits metadata meddling memory :=
  ⟨misfits_of_any (by cbv) (by simp [retyped]), misfits_of_any (by cbv) (by simp [meddling])⟩

theorem retyped_orders_fit : ∃ r mapped, ((Registry.build coded {} retyped).run.run []).1 = .ok r ∧
    CodeSpares r () ∧ (r.map (Query.all "Order") "OrderView" uncoded.source () .empty).1 = .ok mapped ∧
    let s := (r.map (Query.all "Order") "OrderView" uncoded.source () .empty).2
    ∀ mapper key o, .allocated mapper key o ∈ s.entries → ∃ m ∈ r.mappers, m.key = mapper ∧
      ∀ i ∈ m.items, ∃ v, (s.heap.fields o).get? i.destination = some v ∧
        (i.expected.accepts v = true ∨
          ∃ name type, i.destinationShape = .list name ∧ i.expected = .scalar type ∧ v = .list [] ∧
            .assigned o i.destination ∉ s.entries) := by
  have hruns : (((Registry.build coded {} retyped).run.run []).1.toOption.any fun r =>
      (r.map (Query.all "Order") "OrderView" uncoded.source () .empty).1.toOption.any fun _ => true) = true := by
    cbv
  obtain ⟨r, hbuild, hruns⟩ := exists_ok_of_any hruns
  obtain ⟨mapped, hmapped, -⟩ := exists_ok_of_any hruns
  obtain ⟨resolved, hbuilt⟩ := Registry.built_of_build hbuild
  have hcode : CodeSpares r () := by
    refine hbuilt.codeSpares ?_ (by simp [retyped]) (by simp [retyped])
    intro d hd i hi f hf v
    -- The only transposer gives back its value.
    have hkeeps : ∀ d ∈ retyped, ∀ i ∈ d.items, ∀ f, i.transposer = some f → ∀ v, f v () = .done v := by
      simp [retyped]
    rw [hkeeps d hd i hi f hf v]
    exact fun heap => .refl _ _ heap
  exact ⟨r, mapped, hbuild, hcode, hmapped,
    Registry.map_types_fields hbuild (Query.all "Order") "OrderView" uncoded.source hcode .empty hmapped⟩

end Sample

end EntityMapping
