import EntityMapping.Pass.Fetching
import EntityMapping.Pass.Waves
import EntityMapping.Proofs.Pass.Account
import Mathlib.Data.List.Perm.Basic

/-! # Resolved groups

Resolving a group leaves a block in the account: the group with its requests, what was queued while its
rows were mapped, and the requests that were given their values. A fetcher serves its requests in their
order. A processor serves them in an order of its own, and fails when it leaves one out.
-/

namespace EntityMapping

variable {C : Type}

/-! ## Loading -/

/-- Notes and loads say nothing of requests and destinations. -/
def Entry.IsSilent : Entry → Prop
  | .note _ | .load _ | .served _ => True
  | _ => False

/-- Nothing but notes and loads was written down. -/
def Journal.Quiet (j j' : Journal) : Prop :=
  ∃ new, j'.toList = j.toList ++ new ∧ ∀ e ∈ new, e.IsSilent

namespace Journal.Quiet

theorem refl (j : Journal) : Quiet j j := ⟨[], by simp, by simp⟩

theorem trans {j j' j'' : Journal} (h : Quiet j j') (h' : Quiet j' j'') : Quiet j j'' := by
  obtain ⟨new, heq, hnew⟩ := h
  obtain ⟨new', heq', hnew'⟩ := h'
  refine ⟨new ++ new', by rw [heq', heq, List.append_assoc], fun e he => ?_⟩
  exact (List.mem_append.mp he).elim (hnew e) (hnew' e)

theorem add (j : Journal) {e : Entry} (he : e.IsSilent) : Quiet j (j.add e) :=
  ⟨[e], toList_add j e, fun _ hmem => List.mem_singleton.mp hmem ▸ he⟩

theorem foldl {α : Type} {f : α → Entry} (hf : ∀ a, (f a).IsSilent) (l : List α) (j : Journal) :
    Quiet j (l.foldl (fun j a => j.add (f a)) j) := by
  induction l generalizing j with
  | nil => exact refl j
  | cons a l ih => exact (add j (hf a)).trans (ih _)

theorem addNotes (j : Journal) (notes : List Note) : Quiet j (j.addNotes notes) :=
  foldl (f := .note) (fun _ => trivial) notes j

theorem marks_eq {j j' : Journal} (h : Quiet j j') : j'.marks = j.marks := by
  obtain ⟨new, heq, hnew⟩ := h
  have hnone : new.filterMap (·.mark?) = [] := by
    refine List.filterMap_eq_nil_iff.mpr fun e he => ?_
    have hsilent := hnew e he
    cases e with
    | note | load | served => rfl
    | _ => cases hsilent
  unfold marks
  rw [heq, List.filterMap_append, hnone, List.append_nil]

end Journal.Quiet

def Loading.Quiet (l l' : Loading) : Prop := l.journal.Quiet l'.journal

instance : Std.Refl Loading.Quiet := ⟨fun l => .refl l.journal⟩

instance : IsTrans Loading Loading.Quiet := ⟨fun _ _ _ => .trans⟩

theorem quiet_load (source : DataSource) (e : Entity) (filter : Option KeyFilter) :
    Moves Loading.Quiet (source.load e filter) := by
  intro l
  exact (Journal.Quiet.add l.journal (e := .load ⟨e.name, filter⟩) trivial).trans
    ((Journal.Quiet.foldl (f := .served) (fun _ => trivial) _ _).trans (Journal.Quiet.addNotes _ _))

mutual

theorem quiet_attach (source : DataSource) (metadata : Metadata) (entity : Entity)
    (rows : List Row) : ∀ i : Include, Moves Loading.Quiet (Source.attach source metadata entity rows i)
  | ⟨field, nested⟩ => by
    unfold Source.attach
    refine (Moves.ofExcept _).bind fun relation => ?_
    refine (Moves.ofExcept _).bind fun target => ?_
    refine Moves.bind ?_ fun related => ?_
    · unfold Source.loadByKeys
      split
      · exact Moves.pure _
      · exact quiet_load source target _
    · exact (quiet_attachAll source metadata target related nested).bind fun _ => Moves.pure _

theorem quiet_attachAll (source : DataSource) (metadata : Metadata) (entity : Entity)
    (rows : List Row) : ∀ includes : List Include,
    Moves Loading.Quiet (Source.attachAll source metadata entity rows includes)
  | [] => Moves.pure _
  | i :: rest => by
    unfold Source.attachAll
    exact (quiet_attach source metadata entity rows i).bind fun rows =>
      quiet_attachAll source metadata entity rows rest

end

theorem quiet_fetch (source : DataSource) (metadata : Metadata) (q : Query) :
    Moves Loading.Quiet (Source.fetch source metadata q) := by
  unfold Source.fetch
  split
  · exact Moves.pure _
  · refine (Moves.ofExcept _).bind fun entity => ?_
    exact (quiet_load source entity _).bind fun rows => quiet_attachAll source metadata entity rows _

theorem sameMarks_fetch (source : DataSource) (metadata : Metadata) (q : Query) :
    Moves (fun l l' => l'.journal.marks = l.journal.marks) (Source.fetch source metadata q) :=
  (quiet_fetch source metadata q).imp fun _ _ => Journal.Quiet.marks_eq

theorem queues_materialize {T : MapperKey → Prop} (setting : Setting C) {plan : Plan C}
    (hplan : plan.Within T) (q : Query) : Moves (Queues T) (materialize setting plan q) := by
  unfold materialize
  refine Moves.bind ?_ fun rows => (Moves.ofExcept _).bind fun transients => ?_
  · have hloading := PassM.same_loading (C := C)
      (sameMarks_fetch setting.source setting.metadata (q.withIncludes plan.includes))
    exact fun s => After.adapt_iff.mpr (Queues.quiet hloading s)
  · exact Moves.mapM _ fun t _ => (Plan.queues_map setting plan hplan t).bind fun _ => Moves.pure _

/-! ## Giving values -/

theorem after_deliver (setting : Setting C) (number : Nat) (d : Delivery C) (v : Value)
    (s : PassState C) : After (deliver setting number d v) s
      fun _ s' => s'.account = s.account.marked [.delivered number] := by
  unfold deliver
  rw [After.bind_iff, PassM.record_iff]
  have haccount := PassM.account_record s (.delivered number v)
  split
  · exact (PassM.same_assign setting d.assignment _ d.object _).mono fun _ _ h => h.trans haccount
  · exact haccount

theorem after_deliverEach (setting : Setting C) (value : KeyedRequest C → Value)
    (requests : List (KeyedRequest C)) (s : PassState C) :
    After (requests.forM fun r => deliver setting r.number r.delivery (value r)) s
      (either
        (fun _ (s' : PassState C) =>
          s'.account = s.account.marked ((requests.map (·.number)).map .delivered))
        fun _ s' => ∃ numbers : List Nat, s'.account = s.account.marked (numbers.map .delivered)) := by
  have hloop := After.forM (f := fun r => deliver setting r.number r.delivery (value r)) (s := s)
    (E := fun _ (s' : PassState C) => ∃ numbers : List Nat,
      s'.account = s.account.marked (numbers.map .delivered))
    (I := fun rest (s' : PassState C) => ∃ front, front ++ rest = requests ∧
      s'.account = s.account.marked ((front.map (·.number)).map .delivered)) requests ?_
    ⟨[], rfl, (Account.marked_nil _).symm⟩
  · refine hloop.imp ?_ fun _ _ h => h
    rintro _ s' ⟨front, hfront, haccount⟩
    rw [List.append_nil] at hfront
    exact hfront ▸ haccount
  · rintro r rest s₁ - ⟨front, hfront, haccount⟩
    have hnext : ∀ s' : PassState C, s'.account = s₁.account.marked [.delivered r.number] →
        s'.account = s.account.marked (((front ++ [r]).map (·.number)).map .delivered) := by
      intro s' hs'
      rw [hs', haccount, Account.marked_marked]
      simp
    apply (after_deliver setting r.number r.delivery (value r) s₁).mono
    rintro (e | _) s' hs'
    · exact ⟨_, hnext s' hs'⟩
    · exact ⟨front ++ [r], by simpa using hfront, hnext s' hs'⟩

/-! ## Blocks -/

/-- What the resolution of a group leaves in the account. -/
structure Block (C : Type) where
  group : GroupKey
  requests : List Nat
  new : List (Request C)
  hooks : List (PendingHook C)
  delivered : List Nat

namespace Block

def marks (b : Block C) : List Mark :=
  .resolving b.group b.requests :: (b.new.map (·.mark) ++ b.delivered.map .delivered)

/-- Every request was given its value once. Fetchers go through them in order, and processors queue
nothing. -/
def Exact (b : Block C) : Prop :=
  match b.group with
  | .batch _ => b.delivered.Perm b.requests ∧ b.new = [] ∧ b.hooks = []
  | _ => b.delivered = b.requests

theorem Exact.perm {b : Block C} (h : b.Exact) : b.delivered.Perm b.requests := by
  unfold Exact at h
  split at h
  · exact h.1
  · rw [h]

end Block

namespace Account

/-- The account after a group was resolved. -/
def resolved (a : Account C) (b : Block C) : Account C where
  requests := a.requests ++ b.new
  hooks := a.hooks ++ b.hooks
  queued := a.queued + b.new.length
  waves := a.waves
  fetchGroups := a.fetchGroups + 1
  marks := a.marks ++ b.marks

end Account

/-- A group of requests was resolved, and what was queued meanwhile asks only for rows of some
mappers. -/
def ResolvedGroup (T : MapperKey → Prop) (group : GroupKey) (requests : List Nat) (b : Block C)
    (s s' : PassState C) : Prop :=
  b.group = group ∧ b.requests = requests ∧ Numbered s.queued b.new ∧
    (∀ r ∈ b.new, ∀ key, r.target? = some key → T key) ∧ s'.account = s.account.resolved b

theorem length_keys (requests : List (BatchRequest C)) :
    requests.length = (requests.map (·.key)).length :=
  (List.length_map _).symm

/-- A processor fails when it leaves a request out, and in no other way than by its own script. -/
def Unapplied (setting : Setting C) (id : Nat) (numbers : List Nat) (e : Error) (s' : PassState C) :
    Prop :=
  ∃ (p : Processor C) (requests : List (BatchRequest C)) (s : PassState C) (r : Except Error Nat),
    p.id = id ∧ requests.map (·.number) = numbers ∧
      (runScript setting (p.process (requests.map (·.key)) setting.ambient) requests
        (length_keys requests)).run.run s = (r, s') ∧
      (r = .error e ∨ ∃ left, 0 < left ∧ r = .ok left ∧
        e = .batchIncomplete p.name numbers.length (numbers.length - left))

/-- A group that was not resolved to its end. -/
def FailedGroup (setting : Setting C) (group : GroupKey) (requests : List Nat) (e : Error)
    (s s' : PassState C) : Prop :=
  ∃ b : Block C, b.group = group ∧ b.requests = requests ∧ s'.account = s.account.resolved b ∧
    ∀ id, group = .batch id → Unapplied setting id requests e s'

theorem after_beginGroup (group : GroupKey) (requests : List Nat) (s : PassState C) :
    After (beginGroup group requests) s (either
      (fun _ s' => s'.queued = s.queued ∧ s'.account = s.account.resolved ⟨group, requests, [], [], []⟩)
      fun _ _ => False) := by
  have hmarks : (s.journal.add (.resolving group requests)).marks =
      s.journal.marks ++ [.resolving group requests] := Journal.marks_add _ _
  refine ⟨rfl, ?_⟩
  change (⟨s.requests, s.hooks, s.queued, s.stats.waves, s.stats.fetchGroups + 1,
    (s.journal.add (.resolving group requests)).marks⟩ : Account C) = _
  rw [hmarks]
  simp [PassState.account, Account.resolved, Block.marks]

theorem requireEntity_eq_some {f : Fetchers C} {key : MapperKey} {fetcher : EntityFetcher C}
    (h : f.requireEntity key = .ok fetcher) : f.entity.get? key = some fetcher := by
  unfold Fetchers.requireEntity at h
  split at h
  · rename_i heq
    exact Except.ok.inj h ▸ heq
  · simp at h

theorem requireReverse_eq_some {f : Fetchers C} {key : ReverseKey} {fetcher : ReverseFetcher C}
    (h : f.requireReverse key = .ok fetcher) : f.reverse.get? key = some fetcher := by
  unfold Fetchers.requireReverse at h
  split at h
  · rename_i heq
    exact Except.ok.inj h ▸ heq
  · simp at h

/-- What a fetcher leaves behind: all of its requests served in order, or some of them. -/
theorem after_serve {T : MapperKey → Prop} {setting : Setting C} {plan : Plan C}
    (hplan : plan.Within T) (q : Query) {group : GroupKey} (hgroup : ∀ id, group ≠ .batch id)
    {requests : List (KeyedRequest C)}
    (value : List (Transient × ObjectRef) → KeyedRequest C → Value) {s₀ s : PassState C}
    (hqueued : s.queued = s₀.queued)
    (hbegun : s.account = s₀.account.resolved ⟨group, requests.map (·.number), [], [], []⟩) :
    After (do
      let mapped ← materialize setting plan q
      requests.forM fun r => deliver setting r.number r.delivery (value mapped r)) s
      (either
        (fun _ s' => ∃ b : Block C, b.Exact ∧
          ResolvedGroup T group (requests.map (·.number)) b s₀ s')
        fun e s' => FailedGroup setting group (requests.map (·.number)) e s₀ s') := by
  have hadded : ∀ (new : List (Request C)) (hooks : List (PendingHook C)) (numbers : List Nat),
      (s.account.adding new hooks).marked (numbers.map .delivered) =
        s₀.account.resolved ⟨group, requests.map (·.number), new, hooks, numbers⟩ := by
    intro new hooks numbers
    rw [hbegun]
    simp [Account.adding, Account.marked, Account.resolved, Block.marks]
  -- A group that is fetched is no batch, so it leaves no request to its processor.
  have hnone : ∀ {e s'} id, group = .batch id →
      Unapplied setting id (requests.map (·.number)) e s' := fun id heq => absurd heq (hgroup id)
  rw [After.bind_iff]
  apply (queues_materialize setting hplan q s).mono
  rintro (e | mapped) s₁ ⟨new, hooks, hnumbered, htargets, haccount⟩
  · refine ⟨⟨group, requests.map (·.number), new, hooks, []⟩, rfl, rfl, ?_, hnone⟩
    rw [haccount, ← hadded]
    exact (Account.marked_nil _).symm
  · refine (after_deliverEach setting (value mapped) requests s₁).imp ?_ ?_
    · intro _ s' hs'
      rw [haccount, hadded] at hs'
      refine ⟨_, ?_, rfl, rfl, hqueued ▸ hnumbered, htargets, hs'⟩
      unfold Block.Exact
      split
      · rename_i id heq
        exact absurd heq (hgroup id)
      · rfl
    · rintro e s' ⟨numbers, hs'⟩
      rw [haccount, hadded] at hs'
      exact ⟨_, rfl, rfl, hs', hnone⟩

theorem after_served {T : MapperKey → Prop} {setting : Setting C} {plan : Plan C}
    (hplan : plan.Within T) (text : String) (q : Query) {group : GroupKey}
    (hgroup : ∀ id, group ≠ .batch id) {requests : List (KeyedRequest C)}
    (value : List (Transient × ObjectRef) → KeyedRequest C → Value) {s₀ s : PassState C}
    (hqueued : s.queued = s₀.queued)
    (hbegun : s.account = s₀.account.resolved ⟨group, requests.map (·.number), [], [], []⟩) :
    After (do
      PassM.debug text
      let mapped ← materialize setting plan q
      requests.forM fun r => deliver setting r.number r.delivery (value mapped r)) s
      (either
        (fun _ s' => ∃ b : Block C, b.Exact ∧
          ResolvedGroup T group (requests.map (·.number)) b s₀ s')
        fun e s' => FailedGroup setting group (requests.map (·.number)) e s₀ s') := by
  unfold PassM.debug
  rw [After.bind_iff, PassM.record_iff]
  refine after_serve hplan q hgroup value hqueued ?_
  rw [PassM.account_record, hbegun]
  exact Account.marked_nil _

theorem after_resolveEntity {T : MapperKey → Prop} {setting : Setting C} {key : MapperKey}
    (hplan : ∀ fetcher, setting.fetchers.entity.get? key = some fetcher → fetcher.plan.Within T)
    (requests : List (KeyedRequest C)) (s : PassState C) :
    After (resolveEntity setting key requests) s (either
      (fun _ s' => ∃ b : Block C, b.Exact ∧
        ResolvedGroup T (.entity key) (requests.map (·.number)) b s s')
      fun e s' => FailedGroup setting (.entity key) (requests.map (·.number)) e s s') := by
  unfold resolveEntity
  refine After.bind (after_beginGroup _ _ s) ?_ (fun _ _ h => h.elim)
  rintro _ s₁ ⟨hqueued, hbegun⟩
  refine After.ofExcept_bind (fun fetcher hfetcher => ?_) 
    (fun e _ => ⟨_, rfl, rfl, hbegun, by simp⟩)
  have hget := requireEntity_eq_some hfetcher
  unfold EntityFetcher.resolve
  exact after_served (hplan fetcher hget) _ _ (by simp) _ hqueued hbegun

theorem after_resolveReverse {T : MapperKey → Prop} {setting : Setting C} {key : ReverseKey}
    (hplan : ∀ fetcher, setting.fetchers.reverse.get? key = some fetcher → fetcher.plan.Within T)
    (requests : List (KeyedRequest C)) (s : PassState C) :
    After (resolveReverse setting key requests) s (either
      (fun _ s' => ∃ b : Block C, b.Exact ∧
        ResolvedGroup T (.reverse key) (requests.map (·.number)) b s s')
      fun e s' => FailedGroup setting (.reverse key) (requests.map (·.number)) e s s') := by
  unfold resolveReverse
  refine After.bind (after_beginGroup _ _ s) ?_ (fun _ _ h => h.elim)
  rintro _ s₁ ⟨hqueued, hbegun⟩
  refine After.ofExcept_bind (fun fetcher hfetcher => ?_) 
    (fun e _ => ⟨_, rfl, rfl, hbegun, by simp⟩)
  have hget := requireReverse_eq_some hfetcher
  unfold ReverseFetcher.resolve
  exact after_served (hplan fetcher hget) _ _ (by simp) _ hqueued hbegun

/-! ## Processors -/

/-- A script serves different requests, and what it has not served is left at its end. -/
def Serves (numbers : List Nat) (s : PassState C) (r : Except Error Nat) (s' : PassState C) : Prop :=
  ∃ served left : List Nat, (served ++ left).Perm numbers ∧
    s'.account = s.account.marked (served.map .delivered) ∧ ∀ count, r = .ok count → left.length = count

theorem Serves.none (numbers : List Nat) {s s' : PassState C} (h : Same s s') {r : Except Error Nat}
    (hr : ∀ count, r = .ok count → numbers.length = count) : Serves numbers s r s' :=
  ⟨[], numbers, List.Perm.refl _, h.trans (Account.marked_nil _).symm, hr⟩

theorem Serves.of_same {numbers : List Nat} {s s₁ s' : PassState C} (h : Same s s₁)
    {r : Except Error Nat} (hserves : Serves numbers s₁ r s') : Serves numbers s r s' := by
  obtain ⟨served, left, hperm, haccount, hcount⟩ := hserves
  rw [show s₁.account = s.account from h] at haccount
  exact ⟨served, left, hperm, haccount, hcount⟩

theorem Serves.bind {α : Type} {numbers : List Nat} {x : PassM C α} {f : α → PassM C Nat}
    {s : PassState C} (hx : Moves Same x) (hf : ∀ a s₁, After (f a) s₁ (Serves numbers s₁)) :
    After (x >>= f) s (Serves numbers s) := by
  rw [After.bind_iff]
  apply (hx s).mono
  rintro (e | a) s₁ hs₁
  · exact Serves.none numbers hs₁ fun _ heq => absurd heq (by simp)
  · exact (hf a s₁).mono fun _ _ h => Serves.of_same hs₁ h

theorem after_runScript (setting : Setting C) {n : Nat} (script : Script n)
    (pending : List (BatchRequest C)) (h : pending.length = n) (s : PassState C) :
    After (runScript setting script pending h) s (Serves (pending.map (·.number)) s) := by
  induction script generalizing pending s with
  | finish =>
    refine Serves.none _ (Std.Refl.refl s) ?_
    rintro count heq
    rw [List.length_map, h]
    exact Except.ok.inj heq
  | fail e => exact Serves.none _ (Std.Refl.refl s) fun _ heq => by cases heq
  | inspect next ih => exact Serves.bind (PassM.same_perform _) fun heap s₁ => ih heap pending h s₁
  | set object field v next ih => exact Serves.bind (PassM.same_perform _) fun _ s₁ => ih pending h s₁
  | create typeName fields next ih =>
    exact Serves.bind (PassM.same_perform _) fun o s₁ => ih o pending h s₁
  | note entry next ih => exact Serves.bind (PassM.same_record rfl) fun _ s₁ => ih pending h s₁
  | apply i v next ih =>
    unfold runScript
    dsimp only
    rw [After.bind_iff, PassM.attempt_iff]
    have hi : i.val < pending.length := by omega
    -- Applying an item is no error of the script.
    apply (after_deliver setting pending[i.val].number pending[i.val].delivery v s).mono
    intro result s₁ hs₁
    rw [either_ok]
    apply (ih result (pending.eraseIdx i.val) _ s₁).mono
    rintro r s' ⟨served, left, hperm, haccount, hcount⟩
    refine ⟨pending[i.val].number :: served, left, ?_, ?_, hcount⟩
    · have herase := (List.getElem_cons_eraseIdx_perm hi).map (·.number)
      exact (hperm.cons _).trans herase
    · rw [haccount, hs₁, Account.marked_marked]
      rfl

theorem after_resolveBatch {T : MapperKey → Prop} (setting : Setting C) (p : Processor C)
    (requests : List (BatchRequest C)) (s : PassState C) :
    After (do
      beginGroup (.batch p.id) (requests.map (·.number))
      resolveBatch setting p requests) s (either
      (fun _ s' => ∃ b : Block C, b.Exact ∧
        ResolvedGroup T (.batch p.id) (requests.map (·.number)) b s s')
      fun e s' => FailedGroup setting (.batch p.id) (requests.map (·.number)) e s s') := by
  refine After.bind (after_beginGroup _ _ s) ?_ (fun _ _ h => h.elim)
  rintro _ s₁ ⟨hqueued, hbegun⟩
  unfold resolveBatch
  dsimp only
  rw [After.bind_iff]
  have hserves := after_runScript setting (p.process (requests.map (·.key)) setting.ambient) requests
    (by simp) s₁
  unfold After at hserves
  rw [After]
  generalize hran : (runScript setting (p.process (requests.map (·.key)) setting.ambient) requests
    _).run.run s₁ = ran at hserves ⊢
  obtain ⟨r, s'⟩ := ran
  obtain ⟨served, left, hperm, haccount, hcount⟩ := hserves
  have hblock : s'.account = s.account.resolved
      ⟨.batch p.id, requests.map (·.number), [], [], served⟩ := by
    rw [haccount, hbegun]
    simp [Account.marked, Account.resolved, Block.marks]
  -- Short of all its requests, the batch fails with what its script ended in.
  have hunapplied : ∀ e, (r = .error e ∨ ∃ left, 0 < left ∧ r = .ok left ∧
      e = .batchIncomplete p.name (requests.map (·.number)).length
        ((requests.map (·.number)).length - left)) →
      FailedGroup setting (.batch p.id) (requests.map (·.number)) e s s' := by
    intro e he
    refine ⟨_, rfl, rfl, hblock, fun id hid => ?_⟩
    injection hid with hid
    exact hid ▸ ⟨p, requests, s₁, r, rfl, rfl, hran, he⟩
  rcases r with e | _ | count
  · exact hunapplied e (Or.inl rfl)
  · obtain rfl := List.length_eq_zero_iff.mp (hcount 0 rfl)
    rw [List.append_nil] at hperm
    rw [either_ok, if_pos rfl, After.pure_iff]
    exact ⟨⟨.batch p.id, requests.map (·.number), [], [], served⟩, ⟨hperm, rfl, rfl⟩, rfl, rfl, rfl,
      by simp, hblock⟩
  · refine hunapplied _ (Or.inr ⟨count + 1, by omega, rfl, ?_⟩)
    rw [List.length_map]

end EntityMapping
