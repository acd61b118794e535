import EntityMapping.Pass.Mapping
import EntityMapping.Proofs.Outcome
import Mathlib.Data.List.Range

/-! # The account of a pass

What a pass does about requests can be told from a part of its journal, and that part grows along with
its queues. The account of a state is that part and the queues. Mapping only adds requests and hooks to
it, and most other steps leave it alone.
-/

namespace EntityMapping

variable {C : Type}

/-! ## Marks -/

/-- What concerns requests in the journal of a pass. -/
inductive Mark where
  | queued (request : Nat) (group : GroupKey)
  | wave
  | resolving (group : GroupKey) (requests : List Nat)
  | delivered (request : Nat)
deriving DecidableEq, Repr

def Entry.mark? : Entry → Option Mark
  | .queued request group _ => some (.queued request group)
  | .wave _ => some .wave
  | .resolving group requests => some (.resolving group requests)
  | .delivered request _ => some (.delivered request)
  | _ => none

namespace Journal

def marks (j : Journal) : List Mark := j.toList.filterMap (·.mark?)

theorem marks_empty : empty.marks = [] := rfl

theorem marks_add (j : Journal) (e : Entry) : (j.add e).marks = j.marks ++ e.mark?.toList := by
  unfold marks
  rw [toList_add, List.filterMap_append]
  cases h : e.mark? <;> simp [h]

theorem marks_addNotes (j : Journal) (notes : List Note) : (j.addNotes notes).marks = j.marks := by
  unfold addNotes
  induction notes generalizing j with
  | nil => rfl
  | cons n notes ih =>
    rw [List.foldl_cons, ih, marks_add]
    exact List.append_nil _

end Journal

/-! ## Accounts -/

/-- The mapper whose rows a request asks for. -/
def Request.target? : Request C → Option MapperKey
  | .reverse fetcher _ => some fetcher.mapper
  | .entity mapper _ => some mapper
  | .batch _ _ => none

def Request.mark (r : Request C) : Mark := .queued r.number r.group

structure Account (C : Type) where
  requests : List (Request C)
  hooks : List (PendingHook C)
  queued : Nat
  waves : Nat
  fetchGroups : Nat
  marks : List Mark

def PassState.account (s : PassState C) : Account C :=
  ⟨s.requests, s.hooks, s.queued, s.stats.waves, s.stats.fetchGroups, s.journal.marks⟩

namespace Account

/-- The account after more requests and hooks were queued. -/
def adding (a : Account C) (new : List (Request C)) (hooks : List (PendingHook C)) : Account C :=
  { a with
    requests := a.requests ++ new
    hooks := a.hooks ++ hooks
    queued := a.queued + new.length
    marks := a.marks ++ new.map (·.mark) }

def marked (a : Account C) (marks : List Mark) : Account C := { a with marks := a.marks ++ marks }

theorem adding_nil (a : Account C) : a.adding [] [] = a := by simp [adding]

theorem adding_adding (a : Account C) (new new' : List (Request C)) (hooks hooks' : List (PendingHook C)) :
    (a.adding new hooks).adding new' hooks' = a.adding (new ++ new') (hooks ++ hooks') := by
  simp [adding, Nat.add_assoc]

theorem marked_nil (a : Account C) : a.marked [] = a := by simp [marked]

theorem marked_marked (a : Account C) (marks marks' : List Mark) :
    (a.marked marks).marked marks' = a.marked (marks ++ marks') := by
  simp [marked]

end Account

/-! ## Quiet steps -/

/-- The account stays as it is. -/
def Same (s s' : PassState C) : Prop := s'.account = s.account

instance : Std.Refl (Same (C := C)) := ⟨fun _ => rfl⟩

instance : IsTrans (PassState C) Same := ⟨fun _ _ _ h h' => h'.trans h⟩

namespace PassM

variable {α : Type}

theorem record_iff {e : Entry} {s : PassState C} {Q : Except Error Unit → PassState C → Prop} :
    After (record e) s Q ↔ Q (.ok ()) { s with journal := s.journal.add e } := Iff.rfl

theorem perform_iff {action : Action α} {s : PassState C} {Q : Except Error α → PassState C → Prop} :
    After (perform action) s Q ↔
      Q (action.run s.heap).result
        { s with
          heap := (action.run s.heap).heap
          journal := s.journal.addNotes (action.run s.heap).notes } := Iff.rfl

theorem loading_iff {work : LoadM α} {s : PassState C} {Q : Except Error α → PassState C → Prop} :
    After (loading work) s Q ↔ After work ⟨s.journal, s.stats.loads⟩ fun r l =>
      Q r { s with journal := l.journal, stats := { s.stats with loads := l.loads } } := Iff.rfl

theorem attempt_iff {x : PassM C α} {s : PassState C}
    {Q : Except Error (Except Error α) → PassState C → Prop} :
    After (attempt x) s Q ↔ After x s fun r s' => Q (.ok r) s' := Iff.rfl

theorem account_record (s : PassState C) (e : Entry) :
    { s with journal := s.journal.add e }.account = s.account.marked e.mark?.toList := by
  simp [PassState.account, Account.marked, Journal.marks_add]

theorem same_record {e : Entry} (h : e.mark? = none) : Moves Same (record e : PassM C Unit) := by
  intro s
  rw [record_iff]
  exact (account_record s e).trans (by rw [h]; exact Account.marked_nil _)

theorem after_debug (text : String) (s : PassState C) :
    After (debug text) s (either (fun _ s' => Same s s') fun _ _ => False) :=
  (account_record s _).trans (Account.marked_nil _)

theorem same_perform (action : Action α) : Moves Same (perform action : PassM C α) := by
  intro s
  change (⟨_, _, _, _, _, (s.journal.addNotes _).marks⟩ : Account C) = _
  rw [Journal.marks_addNotes]
  rfl

theorem same_loading {work : LoadM α} (h : Moves (fun l l' => l'.journal.marks = l.journal.marks) work) :
    Moves Same (loading work : PassM C α) := by
  intro s
  change (⟨_, _, _, _, _, (work.run.run ⟨s.journal, s.stats.loads⟩).2.journal.marks⟩ : Account C) = _
  rw [show (work.run.run ⟨s.journal, s.stats.loads⟩).2.journal.marks = s.journal.marks from
    h ⟨s.journal, s.stats.loads⟩]
  rfl

theorem same_assign (setting : Setting C) (a : Assignment C) (v : Value) (o : ObjectRef) :
    Moves Same (assign setting a v o) :=
  (same_perform _).bind fun _ => same_record rfl

section

variable {R : PassState C → PassState C → Prop} [Std.Refl R] [IsTrans (PassState C) R]

theorem moves_cached (hreused : ∀ mapper k o, Moves R (record (.reused mapper k o) : PassM C Unit))
    (setting : Setting C) (mapper : MapperKey) (key : Option Key) : Moves R (cached setting mapper key) := by
  unfold cached
  split
  · exact Moves.pure _
  · split
    · refine Moves.bind (fun s => Std.Refl.refl s) fun s => ?_
      split
      · exact Moves.pure _
      · exact (hreused _ _ _).bind fun _ => Moves.pure _
    · exact Moves.pure _

omit [IsTrans (PassState C) R] in
theorem moves_remember (hcache : ∀ s cache, R s { s with cache := cache }) (setting : Setting C)
    (mapper : MapperKey) (key : Option Key) (o : ObjectRef) : Moves R (remember setting mapper key o) := by
  unfold remember
  split
  · exact Moves.pure _
  · split
    · exact fun s => hcache s _
    · exact Moves.pure _

theorem moves_allocate {setting : Setting C} {mapper : MapperKey} {key : Option Key}
    (hperform : ∀ action : Action ObjectRef, Moves R (perform action : PassM C ObjectRef))
    (hremember : ∀ o, Moves R (remember setting mapper key o))
    (hallocated : ∀ o, Moves R (record (.allocated mapper key o) : PassM C Unit)) (fields : Dict String Value) :
    Moves R (allocate setting mapper key fields) := by
  unfold allocate
  refine (hperform _).bind fun o => ?_
  exact (hremember o).bind fun _ => (hallocated o).bind fun _ => Moves.pure _

end

theorem same_cached (setting : Setting C) (mapper : MapperKey) (key : Option Key) :
    Moves Same (cached setting mapper key) :=
  moves_cached (fun _ _ _ => same_record rfl) setting mapper key

theorem same_allocate (setting : Setting C) (mapper : MapperKey) (key : Option Key)
    (fields : Dict String Value) : Moves Same (allocate setting mapper key fields) :=
  moves_allocate same_perform (moves_remember (fun _ _ => rfl) setting mapper key) (fun _ => same_record rfl)
    fields

end PassM

/-! ## Mapping -/

theorem fetchKey_eq_ok {item : String} {v : Value} {k : Key} :
    fetchKey item v = .ok k ↔ v.asKey? = some k ∧ k.isFetchable = true := by
  unfold fetchKey
  cases v.asKey? with
  | none => simp
  | some k' =>
    by_cases hfetchable : k'.isFetchable = true
    · simp only [hfetchable, if_true, Except.ok.injEq, Option.some.injEq]
      exact ⟨fun heq => ⟨heq, heq ▸ hfetchable⟩, fun h => h.1⟩
    · simp only [hfetchable, Option.some.injEq]
      exact ⟨fun h => by simp at h, fun h => absurd (h.1 ▸ h.2) hfetchable⟩

/-- The requests are numbered from `n` on. -/
def Numbered (n : Nat) (requests : List (Request C)) : Prop :=
  requests.map (·.number) = List.range' n requests.length

theorem Numbered.append {n : Nat} {new new' : List (Request C)} (h : Numbered n new)
    (h' : Numbered (n + new.length) new') : Numbered n (new ++ new') := by
  unfold Numbered at *
  rw [List.map_append, h, h', List.length_append, List.range'_append_1]

/-- Requests and hooks are queued, and the requests ask only for rows of some mappers. -/
def Queues (T : MapperKey → Prop) (s s' : PassState C) : Prop :=
  ∃ new hooks, Numbered s.queued new ∧ (∀ r ∈ new, ∀ key, r.target? = some key → T key) ∧
    s'.account = s.account.adding new hooks

namespace Queues

variable {T : MapperKey → Prop}

theorem of_same {s s' : PassState C} (h : Same s s') : Queues T s s' :=
  ⟨[], [], rfl, by simp, h.trans (Account.adding_nil _).symm⟩

instance : Std.Refl (Queues (C := C) T) := ⟨fun s => of_same (Std.Refl.refl s)⟩

instance : IsTrans (PassState C) (Queues T) := by
  refine ⟨?_⟩
  rintro s s' s'' ⟨new, hooks, hnumbered, htargets, haccount⟩
    ⟨new', hooks', hnumbered', htargets', haccount'⟩
  have hqueued : s'.queued = s.queued + new.length := congrArg Account.queued haccount
  refine ⟨new ++ new', hooks ++ hooks', hnumbered.append (hqueued ▸ hnumbered'), ?_, ?_⟩
  · intro r hr
    rcases List.mem_append.mp hr with hr | hr
    · exact htargets r hr
    · exact htargets' r hr
  · rw [haccount', haccount, Account.adding_adding]

theorem quiet {α : Type} {x : PassM C α} (h : Moves Same x) : Moves (Queues T) x :=
  h.imp fun _ _ => of_same

end Queues

namespace PassM

variable {T : MapperKey → Prop}

theorem queues_enqueue {request : Nat → Request C} (hnumber : ∀ n, (request n).number = n)
    (htarget : ∀ n key, (request n).target? = some key → T key) :
    Moves (Queues T) (enqueue request) := by
  intro s
  refine ⟨[request s.queued], [], by simp [Numbered, hnumber], ?_, ?_⟩
  · intro r hr key hkey
    obtain rfl := List.mem_singleton.mp hr
    exact htarget _ key hkey
  · change (⟨s.requests ++ [request s.queued], s.hooks, s.queued + 1, s.stats.waves,
      s.stats.fetchGroups, (s.journal.add _).marks⟩ : Account C) = _
    rw [Journal.marks_add]
    simp [PassState.account, Account.adding, Entry.mark?, Request.mark]

theorem queues_defer (o : ObjectRef) (hooks : List (Hook C)) : Moves (Queues T) (defer o hooks) := by
  intro s
  refine ⟨[], hooks.zipIdx.map fun h => ⟨o, h.2, h.1⟩, rfl, by simp, ?_⟩
  simp only [Account.adding, List.append_nil, List.map_nil, List.length_nil, Nat.add_zero]
  rfl

end PassM

theorem Plan.map_eq (setting : Setting C) (plan : Plan C) (t : Transient) :
    plan.map setting t = (do
      match ← PassM.cached setting plan.head.key (plan.head.keyOf t) with
      | some o => return o
      | none =>
        let o ← PassM.allocate setting plan.head.key (plan.head.keyOf t) plan.defaults
        fillItems setting plan.items (t.drop plan.head.carriers.length) o
        PassM.defer o plan.head.after
        PassM.record (.completed o)
        return o) := by
  cases plan
  unfold Plan.map
  rfl

mutual

/-- Everything that a plan leaves for later is asked of these mappers. -/
def Plan.Within (T : MapperKey → Prop) : Plan C → Prop
  | .mk _ items => ItemsWithin T items

def ItemsWithin (T : MapperKey → Prop) : List (Assignment C × Route C) → Prop
  | [] => True
  | (_, route) :: rest => route.Within T ∧ ItemsWithin T rest

def Route.Within (T : MapperKey → Prop) : Route C → Prop
  | .fetchOne _ _ target => T target
  | .fetchBack _ _ fetcher => T fetcher.mapper
  | .embed _ plan => plan.Within T
  | .embedEach _ plan => plan.Within T
  | .copy _ => True
  | .batch _ _ => True

end

section

variable {T : MapperKey → Prop}

theorem queues_requestOne (a : Assignment C) {target : MapperKey} (h : T target) (o : ObjectRef)
    (v : Value) : Moves (Queues T) (requestOne a target o v) := by
  unfold requestOne
  split
  · exact Moves.pure _
  · refine (Moves.ofExcept _).bind fun key => PassM.queues_enqueue (fun _ => rfl) ?_
    rintro n key heq
    exact Option.some.inj heq ▸ h

theorem queues_requestBack (a : Assignment C) (relation : Relation) {fetcher : ReverseKey}
    (h : T fetcher.mapper) (o : ObjectRef) (v : Value) :
    Moves (Queues T) (requestBack a relation fetcher o v) := by
  unfold requestBack
  split
  · exact Moves.pure _
  · refine (Moves.ofExcept _).bind fun key => PassM.queues_enqueue (fun _ => rfl) ?_
    rintro n key heq
    exact Option.some.inj heq ▸ h

theorem queues_requestBatch (a : Assignment C) (processor : Processor C) (o : ObjectRef) (v : Value) :
    Moves (Queues T) (requestBatch a processor o v) := by
  unfold requestBatch
  split
  · exact Moves.pure _
  · refine (Moves.ofExcept _).bind fun _ => PassM.queues_enqueue (fun _ => rfl) ?_
    rintro n key heq
    cases heq

end

/-- The steps that mapping is made of move the state along a relation. What is left for later is asked of
some mappers. -/
structure MapSteps (setting : Setting C) (T : MapperKey → Prop) (R : PassState C → PassState C → Prop) :
    Prop where
  cached : ∀ mapper key, Moves R (PassM.cached setting mapper key)
  allocate : ∀ mapper key fields, Moves R (PassM.allocate setting mapper key fields)
  assign : ∀ a v o, Moves R (PassM.assign setting a v o)
  requestOne : ∀ a target o v, T target → Moves R (requestOne a target o v)
  requestBack : ∀ a relation fetcher o v, T fetcher.mapper → Moves R (requestBack a relation fetcher o v)
  requestBatch : ∀ a processor o v, Moves R (requestBatch a processor o v)
  defer : ∀ o hooks, Moves R (PassM.defer o hooks)
  applied : ∀ o item, Moves R (PassM.record (.applied o item) : PassM C Unit)
  completed : ∀ o, Moves R (PassM.record (.completed o) : PassM C Unit)

section

variable {setting : Setting C} {T : MapperKey → Prop} {R : PassState C → PassState C → Prop} [Std.Refl R]
  [IsTrans (PassState C) R]

/-- Mapping is put together from a few steps, which may as well be looked at one by one. -/
theorem mapSteps_of_primitives (hrecord : ∀ e, Moves R (PassM.record e : PassM C Unit))
    (hperform : ∀ {α : Type} (x : Action α), Moves R (PassM.perform x : PassM C α))
    (hcache : ∀ s cache, R s { s with cache := cache })
    (henqueue : ∀ request : Nat → Request C, Moves R (PassM.enqueue request))
    (hdefer : ∀ o hooks, Moves R (PassM.defer (C := C) o hooks)) : MapSteps setting T R where
  cached := PassM.moves_cached (fun _ _ _ => hrecord _) setting
  allocate mapper key fields :=
    PassM.moves_allocate hperform (PassM.moves_remember hcache setting mapper key) (fun _ => hrecord _) fields
  assign _ _ _ := (hperform _).bind fun _ => hrecord _
  requestOne a target o v _ := by
    unfold requestOne
    split
    · exact Moves.pure _
    · exact (Moves.ofExcept _).bind fun _ => henqueue _
  requestBack a relation fetcher o v _ := by
    unfold requestBack
    split
    · exact Moves.pure _
    · exact (Moves.ofExcept _).bind fun _ => henqueue _
  requestBatch a processor o v := by
    unfold requestBatch
    split
    · exact Moves.pure _
    · exact (Moves.ofExcept _).bind fun _ => henqueue _
  defer := hdefer
  applied _ _ := hrecord _
  completed _ := hrecord _

mutual

theorem Plan.moves_map (h : MapSteps setting T R) : ∀ (plan : Plan C), plan.Within T →
    ∀ t, Moves R (plan.map setting t)
  | .mk head items, hplan, t => by
    unfold Plan.map
    refine (h.cached _ _).bind fun found => ?_
    split
    · exact Moves.pure _
    · refine (h.allocate _ _ _).bind fun o => ?_
      refine (moves_fillItems h items hplan _ o).bind fun _ => ?_
      refine (h.defer o _).bind fun _ => ?_
      exact (h.completed o).bind fun _ => Moves.pure _

theorem moves_fillItems (h : MapSteps setting T R) : ∀ (items : List (Assignment C × Route C)),
    ItemsWithin T items → ∀ slots o, Moves R (fillItems setting items slots o)
  | [], _, _, _ => Moves.pure _
  | _ :: _, _, [], _ => Moves.throw _
  | (a, route) :: rest, hitems, slot :: slots, o => by
    unfold fillItems
    refine (Route.moves_fill h route hitems.1 a slot o).bind fun _ => ?_
    refine (h.applied o a.item).bind fun _ => ?_
    exact moves_fillItems h rest hitems.2 slots o

theorem Route.moves_fill (h : MapSteps setting T R) : ∀ (route : Route C), route.Within T →
    ∀ a slot o, Moves R (route.fill setting a slot o)
  | .copy _, _, a, _, o => h.assign a _ o
  | .batch _ processor, _, a, _, o => h.requestBatch a processor o _
  | .fetchOne _ _ _, htarget, a, _, o => h.requestOne a _ o _ htarget
  | .fetchBack _ relation _, htarget, a, _, o => h.requestBack a relation _ o _ htarget
  | .embed _ plan, hplan, a, .embedded (some t), o =>
    (Plan.moves_map h plan hplan t).bind fun _ => h.assign a _ o
  | .embed _ _, _, a, .embedded none, o => h.assign a _ o
  | .embed _ _, _, _, .value _, _ => Moves.throw _
  | .embed _ _, _, _, .sequence _, _ => Moves.throw _
  | .embedEach _ plan, hplan, a, .sequence (some ts), o =>
    (Moves.mapM ts fun t _ => Plan.moves_map h plan hplan t).bind fun _ => h.assign a _ o
  | .embedEach _ _, _, _, .sequence none, _ => Moves.pure _
  | .embedEach _ _, _, _, .value _, _ => Moves.throw _
  | .embedEach _ _, _, _, .embedded _, _ => Moves.throw _

end

end

theorem queues_mapSteps (setting : Setting C) (T : MapperKey → Prop) : MapSteps setting T (Queues T) where
  cached _ _ := Queues.quiet (PassM.same_cached setting _ _)
  allocate _ _ _ := Queues.quiet (PassM.same_allocate setting _ _ _)
  assign a v o := Queues.quiet (PassM.same_assign setting a v o)
  requestOne a _ o v htarget := queues_requestOne a htarget o v
  requestBack a relation _ o v htarget := queues_requestBack a relation htarget o v
  requestBatch a processor o v := queues_requestBatch a processor o v
  defer o hooks := PassM.queues_defer o hooks
  applied _ _ := Queues.quiet (PassM.same_record rfl)
  completed _ := Queues.quiet (PassM.same_record rfl)

theorem Plan.queues_map {T : MapperKey → Prop} (setting : Setting C) (plan : Plan C) (hplan : plan.Within T)
    (t : Transient) : Moves (Queues T) (plan.map setting t) :=
  Plan.moves_map (queues_mapSteps setting T) plan hplan t

end EntityMapping
