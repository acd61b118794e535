import EntityMapping.Pass
import EntityMapping.Proofs.Pass.Trace

/-! # Laws of the journal

What a pass does to its destinations is told by its journal, and every entry is bound by the entries before
it: a destination is new or was finished before, its items are applied one after the other, a field is
assigned once, and a hook runs when all that was asked for before its destination was finished is there.
-/

namespace EntityMapping

variable {C : Type}

/-! ## Reading entries -/

/-- The destination that a transient was given. -/
structure Destination where
  mapper : MapperKey
  key : Option Key
  object : ObjectRef

def Entry.destination? : Entry → Option Destination
  | .allocated mapper key object => some ⟨mapper, key, object⟩
  | .reused mapper key object => some ⟨mapper, some key, object⟩
  | _ => none

def Entry.completed? : Entry → Option ObjectRef
  | .completed object => some object
  | _ => none

def Entry.hooked? : Entry → Option (ObjectRef × Nat)
  | .hooked object hook => some (object, hook)
  | _ => none

def Entry.appliedTo? (o : ObjectRef) : Entry → Option String
  | .applied object item => if object = o then some item else none
  | _ => none

/-- The destinations of all transients that were mapped, in order. -/
def destinationsIn (es : List Entry) : List Destination := es.filterMap (·.destination?)

def completedIn (es : List Entry) : List ObjectRef := es.filterMap (·.completed?)

def hookedIn (es : List Entry) : List (ObjectRef × Nat) := es.filterMap (·.hooked?)

/-- The items that were applied to a destination, in order. -/
def appliedTo (o : ObjectRef) (es : List Entry) : List String := es.filterMap (·.appliedTo? o)

def marksOf (es : List Entry) : List Mark := es.filterMap (·.mark?)

theorem destinationsIn_append (es es' : List Entry) :
    destinationsIn (es ++ es') = destinationsIn es ++ destinationsIn es' := List.filterMap_append

theorem completedIn_append (es es' : List Entry) :
    completedIn (es ++ es') = completedIn es ++ completedIn es' := List.filterMap_append

theorem hookedIn_append (es es' : List Entry) :
    hookedIn (es ++ es') = hookedIn es ++ hookedIn es' := List.filterMap_append

theorem appliedTo_append (o : ObjectRef) (es es' : List Entry) :
    appliedTo o (es ++ es') = appliedTo o es ++ appliedTo o es' := List.filterMap_append

theorem marksOf_append (es es' : List Entry) : marksOf (es ++ es') = marksOf es ++ marksOf es' :=
  List.filterMap_append

theorem mem_destinationsIn {es : List Entry} {d : Destination} :
    d ∈ destinationsIn es ↔ .allocated d.mapper d.key d.object ∈ es ∨
      ∃ key, d.key = some key ∧ .reused d.mapper key d.object ∈ es := by
  unfold destinationsIn
  rw [List.mem_filterMap]
  constructor
  · rintro ⟨e, he, hd⟩
    cases e with
    | allocated mapper key object =>
      obtain rfl := Option.some.inj hd
      exact Or.inl he
    | reused mapper key object =>
      obtain rfl := Option.some.inj hd
      exact Or.inr ⟨key, rfl, he⟩
    | _ => cases hd
  · obtain ⟨mapper, key, object⟩ := d
    rintro (h | ⟨key', rfl, h⟩)
    · exact ⟨_, h, rfl⟩
    · exact ⟨_, h, rfl⟩

theorem mem_completedIn {es : List Entry} {o : ObjectRef} : o ∈ completedIn es ↔ .completed o ∈ es := by
  unfold completedIn
  rw [List.mem_filterMap]
  constructor
  · rintro ⟨e, he, ho⟩
    cases e with
    | completed object =>
      obtain rfl := Option.some.inj ho
      exact he
    | _ => cases ho
  · exact fun h => ⟨_, h, rfl⟩

theorem appliedTo_eq_nil {es : List Entry} {o : ObjectRef} (h : ∀ item, .applied o item ∉ es) :
    appliedTo o es = [] := by
  refine List.filterMap_eq_nil_iff.mpr fun e he => ?_
  cases e with
  | applied object item =>
    refine if_neg ?_
    rintro rfl
    exact h item he
  | _ => rfl

/-! ## Laws -/

/-- Every entry is as a law demands after the entries before it. -/
def Obeys (law : List Entry → Entry → Prop) (es : List Entry) : Prop :=
  ∀ front e rest, es = front ++ e :: rest → law front e

namespace Obeys

variable {law : List Entry → Entry → Prop} {es : List Entry}

theorem nil : Obeys law [] := fun front e rest h => absurd h (by simp)

theorem concat (h : Obeys law es) {e : Entry} (he : law es e) : Obeys law (es ++ [e]) := by
  intro front e' rest heq
  rcases List.eq_nil_or_concat rest with rfl | ⟨rest, last, rfl⟩
  · obtain ⟨rfl, hlast⟩ := List.append_inj' heq rfl
    exact (List.cons.inj hlast).1 ▸ he
  · rw [List.concat_eq_append, ← List.cons_append, ← List.append_assoc] at heq
    exact h front e' rest (List.append_inj' heq rfl).1

theorem append (h : Obeys law es) {new : List Entry} (hnew : ∀ e ∈ new, ∀ front, law front e) :
    Obeys law (es ++ new) := by
  induction new using List.reverseRecOn with
  | nil => rwa [List.append_nil]
  | append_singleton new e ih =>
    rw [← List.append_assoc]
    exact (ih fun e' he' => hnew e' (List.mem_append_left _ he')).concat (hnew e (by simp) _)

theorem front {rest : List Entry} (h : Obeys law (es ++ rest)) : Obeys law es := by
  rintro front e rest' rfl
  exact h front e (rest' ++ rest) (by simp)

theorem of_mem (h : Obeys law es) {e : Entry} (he : e ∈ es) :
    ∃ front rest, es = front ++ e :: rest ∧ law front e := by
  obtain ⟨front, rest, heq⟩ := List.append_of_mem he
  exact ⟨front, rest, heq, h front e rest heq⟩

end Obeys

/-- No hook has run since the last wave began. -/
def Calm (es : List Entry) : Prop :=
  ∀ front o hook rest, es = front ++ .hooked o hook :: rest → ∃ number, .wave number ∈ rest

namespace Calm

theorem append {es new : List Entry} (h : Calm es) (hnew : hookedIn new = []) : Calm (es ++ new) := by
  intro front o hook rest heq
  rcases List.append_eq_append_iff.mp heq with ⟨more, rfl, hrest⟩ | ⟨more, hes, hrest⟩
  · exact absurd (hrest ▸ hnew) (by simp [hookedIn, Entry.hooked?])
  · cases more with
    | nil => exact absurd ((List.nil_append _ ▸ hrest) ▸ hnew) (by simp [hookedIn, Entry.hooked?])
    | cons e more =>
      obtain ⟨rfl, rfl⟩ := List.cons.inj hrest
      obtain ⟨number, hnumber⟩ := h front o hook more hes
      exact ⟨number, List.mem_append_left _ hnumber⟩

theorem wave (es : List Entry) (number : Nat) : Calm (es ++ [.wave number]) := by
  intro front o hook rest heq
  rcases List.eq_nil_or_concat rest with rfl | ⟨rest, last, rfl⟩
  · cases (List.cons.inj (List.append_inj' heq rfl).2).1
  · rw [List.concat_eq_append, ← List.cons_append, ← List.append_assoc] at heq
    obtain rfl := (List.cons.inj (List.append_inj' heq rfl).2).1
    exact ⟨number, by simp⟩

end Calm

/-- The destination is completed, and all that was asked for before was given its value. -/
def Cleared (o : ObjectRef) (es : List Entry) : Prop :=
  ∃ front rest, es = front ++ .completed o :: rest ∧
    (queuedIn (marksOf front)).map (·.1) ⊆ deliveredIn (marksOf es)

theorem Cleared.append {o : ObjectRef} {es : List Entry} (h : Cleared o es) (new : List Entry) :
    Cleared o (es ++ new) := by
  obtain ⟨front, rest, rfl, hserved⟩ := h
  refine ⟨front, rest ++ new, by simp, fun number hnumber => ?_⟩
  rw [marksOf_append, deliveredIn_append]
  exact List.mem_append_left _ (hserved hnumber)

/-- The object is a destination of the mapper. -/
def IsDestination (a : Registration C) (o : ObjectRef) (es : List Entry) : Prop :=
  ∃ key, .allocated a.mapper.key key o ∈ es

theorem IsDestination.mono {a : Registration C} {o : ObjectRef} {es es' : List Entry}
    (h : IsDestination a o es) (hle : es ⊆ es') : IsDestination a o es' :=
  h.imp fun _ hmem => hle hmem

/-- What an entry demands of the entries before it, in a pass that begins with `base` objects. -/
def Law (r : Registry C) (base : Nat) (front : List Entry) : Entry → Prop
  | .allocated mapper key o => base ≤ o.id ∧ mapper ∈ r.order ∧
      ∀ d ∈ destinationsIn front, d.object.id < o.id ∧
        (r.config.cacheDestinations = true → key.isSome = true → d.mapper = mapper → d.key ≠ key)
  | .reused mapper key o => r.config.cacheDestinations = true ∧
      .allocated mapper (some key) o ∈ front ∧ .completed o ∈ front
  | .applied o item => .completed o ∉ front ∧ ∃ a ∈ r.registrations, IsDestination a o front ∧
      appliedTo o front ++ [item] <+: a.mapper.items.map (·.name)
  | .completed o => .completed o ∉ front ∧
      (∃ a ∈ r.registrations, IsDestination a o front ∧
        appliedTo o front = a.mapper.items.map (·.name)) ∧
      ∀ before mapper key inside, front = before ++ .allocated mapper key o :: inside →
        ∀ d ∈ destinationsIn inside, .completed d.object ∈ front
  | .assigned o field => .assigned o field ∉ front ∧ ∃ a ∈ r.registrations, IsDestination a o front ∧
      field ∈ a.mapper.items.map (·.destination)
  | .resolving _ _ | .delivered _ _ => Calm front
  | .hooked o _ => Cleared o front
  | _ => True

abbrev Lawful (r : Registry C) (base : Nat) (es : List Entry) : Prop := Obeys (Law r base) es

/-! ## What follows from the laws -/

/-- The transients have one destination: one mapper found one primary key in both. -/
def Shares (r : Registry C) (d d' : Destination) : Prop :=
  r.config.cacheDestinations = true ∧ d.mapper = d'.mapper ∧ d.key = d'.key ∧ d.key.isSome = true

theorem Shares.symm {r : Registry C} {d d' : Destination} (h : Shares r d d') : Shares r d' d := by
  obtain ⟨hcaching, hmapper, hkey, hsome⟩ := h
  exact ⟨hcaching, hmapper.symm, hkey.symm, hkey ▸ hsome⟩

/-- The transients have the same object exactly if they share it. -/
def Identified (r : Registry C) (d d' : Destination) : Prop :=
  (Shares r d d' → d.object = d'.object) ∧ (¬ Shares r d d' → d.object.id ≠ d'.object.id)

instance {r : Registry C} : Std.Symm (Identified r) where
  symm _ _ h := ⟨fun hshares => (h.1 hshares.symm).symm,
    fun hnot => (h.2 (mt Shares.symm hnot)).symm⟩

namespace Lawful

variable {r : Registry C} {base : Nat} {es : List Entry}

theorem allocated (h : Lawful r base es) {d : Destination} (hd : d ∈ destinationsIn es) :
    .allocated d.mapper d.key d.object ∈ es := by
  rcases mem_destinationsIn.mp hd with hd | ⟨key, hkey, hd⟩
  · exact hd
  · obtain ⟨front, rest, rfl, hlaw⟩ := h.of_mem hd
    rw [hkey]
    exact List.mem_append_left _ hlaw.2.1

theorem le_id (h : Lawful r base es) {d : Destination} (hd : d ∈ destinationsIn es) :
    base ≤ d.object.id := by
  obtain ⟨front, rest, -, hlaw⟩ := h.of_mem (h.allocated hd)
  exact hlaw.1

theorem mem_order (h : Lawful r base es) {d : Destination} (hd : d ∈ destinationsIn es) :
    d.mapper ∈ r.order := by
  obtain ⟨front, rest, -, hlaw⟩ := h.of_mem (h.allocated hd)
  exact hlaw.2.1

theorem pairwise (h : Lawful r base es) : (destinationsIn es).Pairwise (Identified r) := by
  induction es using List.reverseRecOn with
  | nil => exact List.Pairwise.nil
  | append_singleton es e ih =>
    have hlaw := h es e [] rfl
    have ih := ih h.front
    rw [destinationsIn_append, List.pairwise_append]
    refine ⟨ih, ?_, fun d hd d' hd' => ?_⟩
    · cases e <;> simp [destinationsIn, Entry.destination?]
    · cases e with
      | allocated mapper key o =>
        obtain rfl := List.mem_singleton.mp hd'
        obtain ⟨hlt, hnew⟩ := hlaw.2.2 d hd
        refine ⟨fun hshares => ?_, fun _ => Nat.ne_of_lt hlt⟩
        obtain ⟨hcaching, hmapper, hkey, hsome⟩ := hshares
        rw [show d.key = key from hkey] at hsome
        exact absurd hkey (hnew hcaching hsome hmapper)
      | reused mapper key o =>
        obtain rfl := List.mem_singleton.mp hd'
        -- The first transient with the key was given the same destination.
        have hfirst : (⟨mapper, some key, o⟩ : Destination) ∈ destinationsIn es :=
          mem_destinationsIn.mpr (Or.inl hlaw.2.1)
        by_cases heq : d = ⟨mapper, some key, o⟩
        · subst heq
          exact ⟨fun _ => rfl, fun hnot => absurd ⟨hlaw.1, rfl, rfl, rfl⟩ hnot⟩
        · exact ih.forall hd hfirst heq
      | _ => cases hd'

theorem unique (h : Lawful r base es) {mapper mapper' : MapperKey} {key key' : Option Key}
    {o o' : ObjectRef} (ho : .allocated mapper key o ∈ es) (ho' : .allocated mapper' key' o' ∈ es)
    (hid : o.id = o'.id) : mapper = mapper' ∧ key = key' ∧ o = o' := by
  induction es using List.reverseRecOn with
  | nil => cases ho
  | append_singleton es e ih =>
    have hlaw := h es e [] rfl
    have hne : ∀ {m : MapperKey} {k : Option Key} {p p' : ObjectRef}, .allocated m k p ∈ es → p.id = p'.id →
        ∀ {m' : MapperKey} {k' : Option Key}, e ≠ .allocated m' k' p' := by
      rintro m k p p' hp heq m' k' rfl
      exact Nat.ne_of_lt (hlaw.2.2 ⟨m, k, p⟩ (mem_destinationsIn.mpr (Or.inl hp))).1 heq
    rcases List.mem_append.mp ho with ho | ho <;> rcases List.mem_append.mp ho' with ho' | ho'
    · exact ih h.front ho ho'
    · exact absurd (List.mem_singleton.mp ho').symm (hne ho hid)
    · exact absurd (List.mem_singleton.mp ho).symm (hne ho' hid.symm)
    · have heq := (List.mem_singleton.mp ho).trans (List.mem_singleton.mp ho').symm
      exact Entry.allocated.inj heq

theorem registration_eq (h : Lawful r base es) (hnodup : r.order.Nodup) {a b : Registration C}
    (ha : a ∈ r.registrations) (hb : b ∈ r.registrations) {o : ObjectRef} (hao : IsDestination a o es)
    (hbo : IsDestination b o es) : a = b := by
  obtain ⟨key, hao⟩ := hao
  obtain ⟨key', hbo⟩ := hbo
  exact List.inj_on_of_nodup_map hnodup ha hb (h.unique hao hbo rfl).1

theorem applied (h : Lawful r base es) (hnodup : r.order.Nodup) {a : Registration C}
    (ha : a ∈ r.registrations) {o : ObjectRef} (ho : IsDestination a o es) :
    appliedTo o es <+: a.mapper.items.map (·.name) := by
  induction es using List.reverseRecOn with
  | nil =>
    obtain ⟨key, hkey⟩ := ho
    cases hkey
  | append_singleton es e ih =>
    have hlaw := h es e [] rfl
    rw [appliedTo_append]
    by_cases he : ∃ item, e = .applied o item
    · obtain ⟨item, rfl⟩ := he
      obtain ⟨b, hb, hbo, hstart⟩ := hlaw.2
      obtain rfl := registration_eq h hnodup ha hb ho (hbo.mono (List.subset_append_left _ _))
      simpa [appliedTo, Entry.appliedTo?] using hstart
    · rw [appliedTo_eq_nil fun item hitem => he ⟨item, (List.mem_singleton.mp hitem).symm⟩, List.append_nil]
      by_cases hes : IsDestination a o es
      · exact ih h.front hes
      · -- Nothing is applied before the allocation.
        have hnone : appliedTo o es = [] := by
          refine appliedTo_eq_nil fun item hitem => ?_
          obtain ⟨front, rest, rfl, -, b, hb, hbo, -⟩ := (Obeys.front h).of_mem hitem
          obtain rfl := registration_eq h hnodup ha hb ho
            (hbo.mono (List.Subset.trans (List.subset_append_left _ _) (List.subset_append_left _ _)))
          exact hes (hbo.mono (List.subset_append_left _ _))
        rw [hnone]
        exact List.nil_prefix

theorem applied_eq (h : Lawful r base es) (hnodup : r.order.Nodup) {a : Registration C}
    (ha : a ∈ r.registrations) {o : ObjectRef} (ho : IsDestination a o es) (hcompleted : .completed o ∈ es) :
    appliedTo o es = a.mapper.items.map (·.name) := by
  obtain ⟨front, rest, rfl, -, ⟨b, hb, hbo, happlied⟩, -⟩ := h.of_mem hcompleted
  obtain rfl := registration_eq h hnodup ha hb ho (hbo.mono (List.subset_append_left _ _))
  have hrest : appliedTo o (.completed o :: rest) = [] := by
    refine appliedTo_eq_nil fun item hitem => ?_
    rcases List.mem_cons.mp hitem with hitem | hitem
    · cases hitem
    obtain ⟨before, after, rfl⟩ := List.append_of_mem hitem
    have hlaw := h (front ++ .completed o :: before) (.applied o item) after (by simp)
    exact hlaw.1 (by simp)
  rw [appliedTo_append, hrest, List.append_nil, happlied]

theorem nodup_completed (h : Lawful r base es) : (completedIn es).Nodup := by
  induction es using List.reverseRecOn with
  | nil => exact List.nodup_nil
  | append_singleton es e ih =>
    have hlaw := h es e [] rfl
    rw [completedIn_append]
    refine List.nodup_append.mpr ⟨ih h.front, ?_, ?_⟩
    · cases e <;> simp [completedIn, Entry.completed?]
    · rintro o ho o' ho' rfl
      obtain rfl := List.mem_singleton.mp (mem_completedIn.mp ho')
      exact hlaw.1 (mem_completedIn.mp ho)

end Lawful

end EntityMapping
