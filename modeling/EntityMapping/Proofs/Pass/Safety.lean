import EntityMapping.Proofs.Code
import EntityMapping.Proofs.Errors
import EntityMapping.Proofs.Pass.Draining

/-! # Steps that raise only errors of a kind

A step is safe if it raises only errors of a kind and leaves in the queues only what can be worked off. The steps of
a pass are safe if the code that they run raises only errors of the kind.
-/

namespace EntityMapping

variable {C α β : Type}

/-- The transposer of an assignment raises only errors of a kind. -/
def Assignment.Raises (P : Error → Prop) (ambient : C) (a : Assignment C) : Prop :=
  ∀ f, a.transposer = some f → ∀ v, (f v ambient).Raises P

/-- A request that can be resolved: its fetcher is there, or its processor raises only errors of a kind and leaves
nothing undone. -/
def Request.Answerable (P : Error → Prop) (setting : Setting C) : Request C → Prop
  | .reverse fetcher r =>
    (setting.fetchers.reverse.get? fetcher).isSome ∧ r.delivery.assignment.Raises P setting.ambient
  | .entity mapper r =>
    (setting.fetchers.entity.get? mapper).isSome ∧ r.delivery.assignment.Raises P setting.ambient
  | .batch processor r =>
    (∀ keys, (processor.process keys setting.ambient).Raises P) ∧ processor.Serves P setting.ambient ∧
      r.delivery.assignment.Raises P setting.ambient

/-- All that waits in the queues can be worked off. -/
structure Ready (P : Error → Prop) (setting : Setting C) (s : PassState C) : Prop where
  request : ∀ r ∈ s.requests, r.Answerable P setting
  hook : ∀ h ∈ s.hooks, (h.hook h.object setting.ambient).Raises P

theorem Ready.of_not_busy {P : Error → Prop} {setting : Setting C} {s : PassState C} (h : ¬ s.Busy) :
    Ready P setting s := by
  simp only [PassState.Busy, not_or, not_not] at h
  exact ⟨by simp [h.1], by simp [h.2]⟩

/-- Work that raises only errors of a kind and leaves in the queues only what can be worked off. -/
def Safe (P : Error → Prop) (setting : Setting C) (x : PassM C α) : Prop :=
  ∀ s, Ready P setting s → After x s fun result s' => Ready P setting s' ∧ FailsOnly P result

namespace Safe

variable {P : Error → Prop} {setting : Setting C}

theorem pure (a : α) : Safe P setting (pure a : PassM C α) := fun _ hs => ⟨hs, FailsOnly.ok a⟩

theorem throw {e : Error} (he : P e) : Safe P setting (throw e : PassM C α) :=
  fun _ hs => ⟨hs, (FailsOnly.error e).mpr he⟩

theorem bind {x : PassM C α} {f : α → PassM C β} (hx : Safe P setting x)
    (hf : ∀ a, Safe P setting (f a)) : Safe P setting (x >>= f) := by
  intro s hs
  rw [After.bind_iff]
  apply (hx s hs).mono
  rintro (e | a) s' ⟨hs', he⟩
  · exact ⟨hs', (FailsOnly.error e).mpr (he e rfl)⟩
  · exact hf a s' hs'

theorem bind_of {x : PassM C α} {f : α → PassM C β} {R : α → Prop} (hx : Safe P setting x)
    (hR : ∀ s, After x s (either (fun a _ => R a) fun _ _ => True)) (hf : ∀ a, R a → Safe P setting (f a)) :
    Safe P setting (x >>= f) := by
  intro s hs
  rw [After.bind_iff]
  apply (After.and (hx s hs) (hR s)).mono
  rintro (e | a) s' ⟨⟨hs', he⟩, ha⟩
  · exact ⟨hs', (FailsOnly.error e).mpr (he e rfl)⟩
  · exact hf a ha s' hs'

theorem ofExcept_bind {result : Except Error α} {f : α → PassM C β} (hresult : FailsOnly P result)
    (hf : ∀ a, result = .ok a → Safe P setting (f a)) :
    Safe P setting ((ofExcept result : PassM C α) >>= f) := by
  intro s hs
  refine After.ofExcept_bind (fun a ha => hf a ha s hs) fun e he => ⟨hs, ?_⟩
  exact (FailsOnly.error e).mpr (hresult e he)

theorem forM {f : α → PassM C PUnit} (l : List α) (h : ∀ a ∈ l, Safe P setting (f a)) :
    Safe P setting (l.forM f) := by
  induction l with
  | nil => exact Safe.pure _
  | cons a l ih => exact bind (h a (by simp)) fun _ => ih fun b hb => h b (List.mem_cons_of_mem _ hb)

theorem mapM {f : α → PassM C β} (l : List α) (h : ∀ a ∈ l, Safe P setting (f a)) :
    Safe P setting (l.mapM f) := by
  induction l with
  | nil => exact Safe.pure _
  | cons a l ih =>
    rw [List.mapM_cons]
    refine bind (h a (by simp)) fun b => ?_
    exact bind (ih fun c hc => h c (List.mem_cons_of_mem _ hc)) fun _ => Safe.pure _

/-- Work that leaves the queues alone is safe if it raises only errors of the kind. -/
theorem of_same {x : PassM C α} (hsame : Moves Same x)
    (hfails : ∀ s, After x s fun result _ => FailsOnly P result) : Safe P setting x := by
  intro s hs
  apply (After.and (hsame s) (hfails s)).mono
  rintro result s' ⟨haccount, hresult⟩
  have hrequests : s'.requests = s.requests := congrArg Account.requests haccount
  have hhooks : s'.hooks = s.hooks := congrArg Account.hooks haccount
  exact ⟨⟨hrequests ▸ hs.request, hhooks ▸ hs.hook⟩, hresult⟩

theorem record {e : Entry} : Safe P setting (PassM.record e : PassM C Unit) :=
  fun _ hs => ⟨⟨hs.request, hs.hook⟩, FailsOnly.ok _⟩

theorem perform {action : Action α} (h : action.Raises P) : Safe P setting (PassM.perform action) :=
  of_same (PassM.same_perform action) fun s => h s.heap

theorem enqueue {request : Nat → Request C} (h : ∀ n, (request n).Answerable P setting) :
    Safe P setting (PassM.enqueue request) := by
  refine fun s hs => ⟨⟨fun r hr => ?_, hs.hook⟩, FailsOnly.ok _⟩
  rcases List.mem_append.mp hr with hr | hr
  · exact hs.request r hr
  · exact List.mem_singleton.mp hr ▸ h _

theorem defer {o : ObjectRef} {hooks : List (Hook C)}
    (h : ∀ hook ∈ hooks, (hook o setting.ambient).Raises P) :
    Safe P setting (PassM.defer o hooks) := by
  refine fun s hs => ⟨⟨hs.request, fun pending hpending => ?_⟩, FailsOnly.ok _⟩
  rcases List.mem_append.mp hpending with hpending | hpending
  · exact hs.hook pending hpending
  · obtain ⟨⟨hook, place⟩, hmem, rfl⟩ := List.mem_map.mp hpending
    exact h hook (List.fst_mem_of_mem_zipIdx hmem)

end Safe

/-! ## Steps of mapping -/

section Steps

variable {P : Error → Prop} (hP : Mild P) {setting : Setting C} {a : Assignment C}

theorem Action.Raises.andThen {x : Action α} {f : α → Action β} (hx : x.Raises P)
    (hf : ∀ v, (f v).Raises P) : (x.andThen f).Raises P := by
  intro heap
  have hx := hx heap
  rw [Action.run_andThen]
  generalize (x.run heap).result = result at hx
  cases result with
  | ok v => exact hf v _
  | error e => exact (FailsOnly.error e).mpr (hx e rfl)

include hP in
theorem Assignment.raises_assign {ambient : C} (ha : a.Raises P ambient) (v : Value) (o : ObjectRef) :
    (a.assign v o ambient).Raises P := by
  unfold Assignment.assign
  refine Action.Raises.andThen ?_ fun v heap => ?_
  · unfold transpose
    split
    · rename_i f hf
      intro heap
      have hraises := ha f hf v heap
      rw [Action.run_mapError]
      dsimp only
      generalize ((f v ambient).run heap).result = result at hraises
      cases result with
      | ok v => exact FailsOnly.ok v
      | error e =>
        refine (FailsOnly.error _).mpr (hP _ rfl rfl rfl fun cause hcause => ?_)
        obtain rfl := Option.some.inj hcause
        exact hraises e rfl
    · exact fun _ => FailsOnly.ok v
  · unfold store
    split
    · exact FailsOnly.ok _
    · exact (FailsOnly.error _).mpr (hP _ rfl rfl rfl fun _ h => by cases h)

include hP in
theorem failsOnly_fetchKey (item : String) (v : Value) : FailsOnly P (fetchKey item v) := by
  unfold fetchKey
  split
  · split
    · exact FailsOnly.ok _
    · exact (FailsOnly.error _).mpr (hP _ rfl rfl rfl fun _ h => by cases h)
  · exact (FailsOnly.error _).mpr (hP _ rfl rfl rfl fun _ h => by cases h)

include hP in
theorem failsOnly_checkBatchKey (item : String) (v : Value) : FailsOnly P (checkBatchKey item v) := by
  unfold checkBatchKey
  split
  · rename_i parts
    induction parts with
    | nil => exact FailsOnly.ok _
    | cons part parts ih =>
      exact FailsOnly.bind (FailsOnly.map (failsOnly_fetchKey hP item part)) fun _ _ => ih
  · exact FailsOnly.map (failsOnly_fetchKey hP item _)

namespace Safe

include hP in
theorem assign (ha : a.Raises P setting.ambient) (v : Value) (o : ObjectRef) :
    Safe P setting (PassM.assign setting a v o) :=
  bind (perform (Assignment.raises_assign hP ha v o)) fun _ => record

theorem cached (mapper : MapperKey) (key : Option Key) :
    Safe P setting (PassM.cached setting mapper key) := by
  unfold PassM.cached
  split
  · exact Safe.pure _
  · split
    · refine bind (fun s hs => ⟨hs, FailsOnly.ok s⟩) fun s => ?_
      split
      · exact Safe.pure _
      · exact bind record fun _ => Safe.pure _
    · exact Safe.pure _

theorem allocate (mapper : MapperKey) (key : Option Key) (fields : Dict String Value) :
    Safe P setting (PassM.allocate setting mapper key fields) := by
  unfold PassM.allocate
  refine bind (perform fun _ => FailsOnly.ok _) fun o => ?_
  refine bind ?_ fun _ => bind record fun _ => Safe.pure _
  unfold PassM.remember
  split
  · exact Safe.pure _
  · split
    · exact fun s hs => ⟨⟨hs.request, hs.hook⟩, FailsOnly.ok _⟩
    · exact Safe.pure _

include hP in
theorem requestOne (ha : a.Raises P setting.ambient) {target : MapperKey}
    (htarget : (setting.fetchers.entity.get? target).isSome) (o : ObjectRef) (v : Value) :
    Safe P setting (EntityMapping.requestOne a target o v) := by
  unfold EntityMapping.requestOne
  split
  · exact Safe.pure _
  · exact ofExcept_bind (failsOnly_fetchKey hP _ _) fun _ _ => enqueue fun _ => ⟨htarget, ha⟩

include hP in
theorem requestBack (ha : a.Raises P setting.ambient) {relation : Relation} {fetcher : ReverseKey}
    (hfetcher : (setting.fetchers.reverse.get? fetcher).isSome) (o : ObjectRef) (v : Value) :
    Safe P setting (EntityMapping.requestBack a relation fetcher o v) := by
  unfold EntityMapping.requestBack
  split
  · exact Safe.pure _
  · exact ofExcept_bind (failsOnly_fetchKey hP _ _) fun _ _ => enqueue fun _ => ⟨hfetcher, ha⟩

include hP in
theorem requestBatch (ha : a.Raises P setting.ambient) {processor : Processor C}
    (hprocessor : ∀ keys, (processor.process keys setting.ambient).Raises P)
    (hserves : processor.Serves P setting.ambient) (o : ObjectRef) (v : Value) :
    Safe P setting (EntityMapping.requestBatch a processor o v) := by
  unfold EntityMapping.requestBatch
  split
  · exact Safe.pure _
  · exact ofExcept_bind (failsOnly_checkBatchKey hP _ _) fun _ _ => enqueue fun _ => ⟨hprocessor, hserves, ha⟩

include hP in
theorem deliver {number : Nat} {d : Delivery C} (hd : d.assignment.Raises P setting.ambient)
    (v : Value) : Safe P setting (EntityMapping.deliver setting number d v) := by
  unfold EntityMapping.deliver
  refine bind record fun _ => ?_
  split
  · exact assign hP hd _ _
  · exact Safe.pure _

end Safe

end Steps

/-! ## Steps of resolving -/

section Groups

variable {P : Error → Prop} (hP : Mild P) {setting : Setting C}

namespace Safe

theorem beginGroup (group : GroupKey) (numbers : List Nat) :
    Safe P setting (EntityMapping.beginGroup group numbers : PassM C Unit) :=
  bind (fun _ hs => ⟨⟨hs.request, hs.hook⟩, FailsOnly.ok _⟩) fun _ => record

include hP

theorem deliverEach {requests : List (KeyedRequest C)}
    (hrequests : ∀ r ∈ requests, r.delivery.assignment.Raises P setting.ambient)
    (value : KeyedRequest C → Value) : Safe P setting
      (requests.forM fun r => EntityMapping.deliver setting r.number r.delivery (value r)) :=
  forM _ fun r hr => deliver hP (hrequests r hr) _

theorem runScript {n : Nat} (script : Script n) (hscript : script.Raises P)
    (pending : List (BatchRequest C)) (hlength : pending.length = n)
    (hpending : ∀ r ∈ pending, r.delivery.assignment.Raises P setting.ambient) :
    Safe P setting (EntityMapping.runScript setting script pending hlength) := by
  induction script generalizing pending with
  | finish => exact Safe.pure _
  | fail e => exact Safe.throw hscript
  | inspect next ih =>
    exact bind (perform fun _ => FailsOnly.ok _) fun heap => ih heap (hscript heap) pending _ hpending
  | set o field v next ih =>
    exact bind (perform fun _ => FailsOnly.ok _) fun _ => ih hscript pending _ hpending
  | create typeName fields next ih =>
    exact bind (perform fun _ => FailsOnly.ok _) fun o => ih o (hscript o) pending _ hpending
  | note entry next ih => exact bind record fun _ => ih hscript pending _ hpending
  | apply i v next ih =>
    unfold EntityMapping.runScript
    intro s hs
    dsimp only
    rw [After.bind_iff, PassM.attempt_iff]
    -- The error of an application is told to the script, which may go on.
    apply (deliver hP (hpending _ (List.getElem_mem _)) v s hs).mono
    rintro result s₁ ⟨hs₁, hresult⟩
    exact ih result (hscript result hresult) _ _ (fun r hr => hpending r (List.mem_of_mem_eraseIdx hr)) s₁ hs₁

omit hP in
theorem after_runScript {n : Nat} (script : Script n) (hscript : script.Completes) (pending : List (BatchRequest C))
    (hlength : pending.length = n) (s : PassState C) :
    After (EntityMapping.runScript setting script pending hlength) s
      (either (fun left _ => left = 0) fun _ _ => True) := by
  induction script generalizing pending s with
  | finish => exact hscript
  | fail e => trivial
  | inspect next ih => exact After.bind_any (fun heap s' => ih heap (hscript heap) pending _ s') fun _ _ => trivial
  | set o field v next ih => exact After.bind_any (fun _ s' => ih hscript pending _ s') fun _ _ => trivial
  | create typeName fields next ih =>
    exact After.bind_any (fun o s' => ih o (hscript o) pending _ s') fun _ _ => trivial
  | note entry next ih => exact After.bind_any (fun _ s' => ih hscript pending _ s') fun _ _ => trivial
  | apply i v next ih =>
    exact After.bind_any (fun result s' => ih result (hscript result) _ _ s') fun _ _ => trivial

theorem resolveBatch {p : Processor C} (hp : ∀ keys, (p.process keys setting.ambient).Raises P)
    (hserves : p.Serves P setting.ambient) {requests : List (BatchRequest C)}
    (hrequests : ∀ r ∈ requests, r.delivery.assignment.Raises P setting.ambient) :
    Safe P setting (EntityMapping.resolveBatch setting p requests) := by
  unfold EntityMapping.resolveBatch
  have hran := runScript hP _ (hp (requests.map (·.key))) requests (length_keys requests) hrequests
  rcases hserves with hmay | hcompletes
  · refine bind hran fun left => ?_
    split
    · exact Safe.pure _
    · exact Safe.throw (hmay _ _)
  · refine bind_of hran (fun s => after_runScript _ (hcompletes _) requests _ s) fun left hleft => ?_
    rw [if_pos hleft]
    exact Safe.pure _

omit hP in
theorem runHook {pending : PendingHook C}
    (hpending : (pending.hook pending.object setting.ambient).Raises P) :
    Safe P setting (EntityMapping.runHook setting pending) :=
  bind record fun _ => perform hpending

theorem beginWave : Safe P setting (EntityMapping.beginWave setting) := by
  intro s hs
  apply (beginWave_cases setting s).mono
  rintro (_ | _) _
  · rintro ⟨limit, -, -, rfl, rfl⟩
    exact ⟨⟨hs.request, hs.hook⟩, (FailsOnly.error _).mpr (hP _ rfl rfl rfl fun _ h => by cases h)⟩
  · rintro ⟨-, -, rfl⟩
    exact ⟨⟨hs.request, hs.hook⟩, FailsOnly.ok _⟩

end Safe

end Groups

end EntityMapping
