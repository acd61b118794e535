import EntityMapping.Proofs.Pass.Holes
import EntityMapping.Proofs.Pass.Resolving

/-! # Filling objects

A tame mapper maps the transient of a row to an object that was made for the row, and fails only when an item
cannot do its work. The rows that items lead to are mapped along with it, and what is left for later waits for
its value.
-/

namespace EntityMapping

variable {C : Type}

/-! ## Work that fills -/

/-- The work leaves fewer deliveries due, maybe with more objects, and fails only when some item cannot do its
work on a row. -/
def Yields {α : Type} (σ : Stage C) (L : Labels) (due : List (Delivery C)) (P : Labels → α → Prop)
    (x : PassM C α) (s : PassState C) : Prop :=
  After x s (either (fun a s' => ∃ L' : Labels, L.Le L' ∧ P L' a ∧ Filling σ L' due s') fun _ _ => ¬ σ.Feasible)

namespace Yields

variable {α β : Type} {σ : Stage C} {L : Labels} {due due' : List (Delivery C)} {s s' : PassState C}

theorem of_eq {P : Labels → α → Prop} {x : PassM C α} {a : α} (hrun : x.run.run s = (.ok a, s'))
    (ha : P L a) (hs : Filling σ L due s') : Yields σ L due P x s := by
  unfold Yields After
  rw [hrun]
  exact ⟨L, Labels.Le.refl L, ha, hs⟩

theorem pure {P : Labels → α → Prop} {a : α} (ha : P L a) (hs : Filling σ L due s) :
    Yields σ L due P (pure a) s := of_eq rfl ha hs

theorem of_le {P : Labels → α → Prop} {x : PassM C α} {L₀ : Labels} (hle : L₀.Le L)
    (h : Yields σ L due P x s) : Yields σ L₀ due P x s := by
  refine After.imp h ?_ fun _ _ h => h
  rintro a s' ⟨L', hle', ha, hs'⟩
  exact ⟨L', hle.trans hle', ha, hs'⟩

theorem bind {P : Labels → α → Prop} {P' : Labels → β → Prop} {x : PassM C α} {f : α → PassM C β}
    (hx : Yields σ L due P x s)
    (hf : ∀ a L' s', L.Le L' → P L' a → Filling σ L' due s' → Yields σ L' due' P' (f a) s') :
    Yields σ L due' P' (x >>= f) s := by
  refine After.bind hx ?_ fun _ _ h => h
  rintro a s' ⟨L', hle, ha, hs'⟩
  exact of_le hle (hf a L' s' hle ha hs')

theorem ok_bind {P : Labels → β → Prop} {a : α} {f : α → PassM C β}
    (hf : Yields σ L due P (f a) s) : Yields σ L due P (ofExcept (.ok a) >>= f) s := hf

theorem record (e : Entry) (hs : Filling σ L due s) :
    Yields σ L due (fun _ _ => True) (PassM.record e) s := of_eq rfl trivial (hs.of_eq rfl rfl rfl rfl)

theorem loading {P : α → Prop} {work : LoadM α}
    (hwork : ∀ l, After work l (either (fun a _ => P a) fun _ _ => False)) (hs : Filling σ L due s) :
    Yields σ L due (fun _ a => P a) (PassM.loading work) s := by
  unfold Yields
  rw [PassM.loading_iff]
  refine (hwork ⟨s.journal, s.stats.loads⟩).mono ?_
  rintro (e | a) l hran
  · exact hran.elim
  · exact ⟨L, Labels.Le.refl L, hran, hs.of_eq rfl rfl rfl rfl⟩

theorem mapM {γ : Type} {R : γ → α → Prop} {P : Labels → γ → β → Prop} {f : α → PassM C β}
    (hmono : ∀ L L' c b, L.Le L' → P L c b → P L' c b) {cs : List γ} {as : List α}
    (has : List.Forall₂ R cs as)
    (hf : ∀ c a L s, R c a → Filling σ L due s → Yields σ L due (fun L' b => P L' c b) (f a) s)
    (hs : Filling σ L due s) :
    Yields σ L due (fun L' bs => List.Forall₂ (P L') cs bs) (as.mapM f) s := by
  induction has generalizing L s with
  | nil => exact .pure .nil hs
  | @cons c a cs as hca _ ih =>
    rw [List.mapM_cons]
    refine .bind (hf c a L s hca hs) fun b L₁ s₁ _ hb hs₁ => ?_
    refine .bind (ih hs₁) fun bs L₂ s₂ hle hbs hs₂ => ?_
    exact .pure (.cons (hmono _ _ _ _ hle hb) hbs) hs₂

theorem forM {f : α → PassM C PUnit} (owed : α → List (Delivery C)) {l : List α}
    (hf : ∀ a ∈ l, ∀ L' rest s, L.Le L' → Filling σ L' (owed a ++ rest) s →
      Yields σ L' rest (fun _ _ => True) (f a) s)
    (hs : Filling σ L (l.flatMap owed ++ due) s) : Yields σ L due (fun _ _ => True) (l.forM f) s := by
  induction l generalizing L s with
  | nil => exact .pure trivial hs
  | cons a l ih =>
    rw [List.flatMap_cons, List.append_assoc] at hs
    refine .bind (hf a (by simp) L _ s (Labels.Le.refl L) hs) fun _ L₁ s₁ hle _ hs₁ => ?_
    exact ih (fun b hb L' rest s hle' => hf b (List.mem_cons_of_mem _ hb) L' rest s (hle.trans hle')) hs₁

end Yields

/-! ## Items -/

namespace Item.FetchedBy

variable {metadata : Metadata} {owner : MapperKey} {i : Item C} {path : List String} {segment : String}
  {relation : Relation} {dependency : MapperKey} {route : Route C}

theorem rowsAt_eq (h : i.FetchedBy metadata owner path segment relation dependency route)
    (m : Source.Memory) (row : Row) :
    m.rowsAt metadata owner.source row (path ++ [segment]) =
      match (m.keyAt metadata owner.source row (path ++ [segment])).asKey? with
      | some k => m.holding dependency.source relation.remoteColumn k
      | none => [] := by
  obtain ⟨declaring, hsteps, hr, -⟩ := h.steps
  cases hkey : (m.keyAt metadata owner.source row (path ++ [segment])).asKey? <;>
    simp only [Source.Memory.rowsAt_eq_holding hsteps hr, hkey, h.target]

theorem rowAt_eq (h : i.FetchedBy metadata owner path segment relation dependency route)
    (m : Source.Memory) (row : Row) :
    m.rowAt metadata owner.source row (path ++ [segment]) =
      (m.rowsAt metadata owner.source row (path ++ [segment])).head? := by
  obtain ⟨declaring, hsteps, hr, -⟩ := h.steps
  exact Source.Memory.rowAt_eq_head? hsteps hr row

theorem leads_eq (h : i.FetchedBy metadata owner path segment relation dependency route)
    (m : Source.Memory) (row : Row) :
    i.leads metadata m owner.source row =
      m.rowsAt metadata owner.source row (path ++ [segment]) := by
  unfold Item.leads
  rw [h.source]
  rcases Item.dependency?_eq_some.mp h.needs with ⟨hshape, -⟩ | ⟨hshape, -⟩
  · rw [hshape]
    exact if_pos h.style
  · rw [hshape]

theorem shown_default {σ : Stage C}
    (h : i.FetchedBy σ.metadata owner path segment relation dependency route) {row : Row}
    (hnone : σ.memory.rowsAt σ.metadata owner.source row (path ++ [segment]) = []) (L : Labels) :
    Shown σ L owner i row i.destinationShape.default := by
  refine .default h.source h.needs (fun _ => ?_) fun _ => hnone
  rw [h.rowAt_eq, hnone]
  rfl

theorem asked_eq (h : i.FetchedBy metadata owner path segment relation dependency route)
    (m : Source.Memory) (row : Row) :
    i.asked metadata m owner.source row = m.keyAt metadata owner.source row (path ++ [segment]) := by
  unfold Item.asked
  rw [h.source]

/-- What a fetched item shows is all that there is, once every row with its key has an object. -/
theorem fulfilled {σ : Stage C} {L : Labels} {row : Row} {v : Value}
    (h : i.FetchedBy σ.metadata owner path segment relation dependency route)
    (hasks : (σ.memory.keyAt σ.metadata owner.source row (path ++ [segment])).AsksWell)
    (hcovered : ∀ next ∈ σ.memory.rowsAt σ.metadata owner.source row (path ++ [segment]),
      ∃ o, L.Of dependency next o) (hshown : Shown σ L owner i row v) : Fulfilled σ L owner i row v where
  shown := hshown
  feasible := ⟨fun hnone => by simp [h.needs] at hnone, fun _ => by rw [h.asked_eq]; exact hasks⟩
  covered dependency' hneeds next hnext := by
    obtain rfl := Option.some.inj (hneeds.symm.trans h.needs)
    exact hcovered next (h.leads_eq σ.memory row ▸ hnext)

end Item.FetchedBy

/-! ## Requests for keys -/

section

variable {v : Value} {k : Key}

theorem fetchKey_eq_error (item : String) (h : ¬ v.AsksWell) : ∃ e, fetchKey item v = .error e := by
  unfold fetchKey
  split
  · rename_i k hk
    rw [if_neg fun hfetchable => h (Or.inr ⟨k, hk, hfetchable⟩)]
    exact ⟨_, rfl⟩
  · exact ⟨_, rfl⟩

theorem isNull_of_asKey? (hk : v.asKey? = some k) : v.isNull = false := by
  cases v <;> first | rfl | cases hk

theorem isNull_of_not_asksWell (h : ¬ v.AsksWell) : v.isNull = false := by
  cases v with
  | null => exact absurd (Or.inl rfl) h
  | _ => rfl

theorem requestOne_eq (a : Assignment C) (target : MapperKey) (o : ObjectRef) (hv : v.isNull = false) :
    requestOne a target o v = (do
      let key ← ofExcept (fetchKey a.item v)
      PassM.enqueue fun number => .entity target ⟨number, key, ⟨a, o, false⟩⟩) := by
  unfold requestOne
  split
  · cases hv
  · rfl

theorem requestBack_eq (a : Assignment C) (relation : Relation) (fetcher : ReverseKey) (o : ObjectRef)
    (hv : v.isNull = false) : requestBack a relation fetcher o v = (do
      let key ← ofExcept (fetchKey a.item v)
      PassM.enqueue fun number => .reverse fetcher ⟨number, key, ⟨a, o, relation.kind ≠ .hasMany⟩⟩) := by
  unfold requestBack
  split
  · cases hv
  · rfl

theorem requestBatch_eq (a : Assignment C) (processor : Processor C) (o : ObjectRef) (hv : v.isNull = false)
    (hscalar : v.isScalar = true) : requestBatch a processor o v = (do
      ofExcept ((fetchKey a.item v).map fun _ => ())
      PassM.enqueue fun number => .batch processor ⟨number, v, ⟨a, o, false⟩⟩) := by
  unfold requestBatch checkBatchKey
  split
  · cases hv
  · cases v with
    | list => cases hscalar
    | _ => rfl

end

/-! ## Single steps -/

theorem Owned.not_feasible {σ : Stage C} {L : Labels} {due : List (Delivery C)} {s : PassState C}
    {a : Registration C} {i : Item C} {row : Row} {o : ObjectRef} (ho : Owned σ L a i row o)
    (hs : Filling σ L due s) (hnot : ¬ Feasible σ a.mapper.key i row) : ¬ σ.Feasible :=
  fun hfeasible => hnot (hfeasible a ho.mem row (hs.known _ _ ho.owner.1).1 i ho.item)

namespace Stage.Tame

variable {σ : Stage C} (h : σ.Tame) {L : Labels} {due : List (Delivery C)} {s : PassState C}
  {a : Registration C} {i : Item C} {row : Row} {o : ObjectRef} {takesFirst : Bool}

include h in
theorem item_tame (ho : Owned σ L a i row o) :
    i.Tame σ.metadata σ.tables σ.heap.size a.mapper.key := (h.registry.laid ho.mem).tame i ho.item

include h in
theorem item_isColumn (ho : Owned σ L a i row o) (hscalar : i.sourceShape = .scalar) :
    i.IsColumn σ.tables σ.heap.size := by
  refine (h.item_tame ho).kind.resolve_right fun hmapped => ?_
  obtain ⟨dependency, hneeds⟩ := hmapped.needs
  rw [Item.dependency?_of_scalar hscalar] at hneeds
  cases hneeds

include h in
theorem yields_settle (hs : Filling σ L (⟨.ofItem i, o, takesFirst⟩ :: due) s) (ho : Owned σ L a i row o)
    (hscalar : i.sourceShape = .scalar) {v : Value}
    (hv : σ.value? a.mapper.key i row = i.settled? σ.ambient v) :
    Yields σ L due (fun _ _ => True) (PassM.assign σ.setting (.ofItem i) v o) s := by
  have hcolumn := h.item_isColumn ho hscalar
  have hpure : ∀ f, i.transposer = some f → ∀ v ambient, (f v ambient).IsPure :=
    fun f hf => (hcolumn.pure f hf).pure
  change σ.value? a.mapper.key i row = i.settled? σ.setting.ambient v at hv
  unfold Yields PassM.assign
  rw [After.bind_iff, PassM.perform_iff]
  cases hw : i.settled? σ.setting.ambient v with
  | some w =>
    obtain ⟨notes, hrun⟩ := Item.run_assign_of_settled hpure hw o
    have hfilled := h.fill hs ho (.given hscalar hcolumn.unfetched (hv.trans hw))
    rw [hrun]
    exact Yields.record _ (hfilled.of_eq rfl rfl rfl rfl)
  | none =>
    obtain ⟨e, notes, hrun⟩ := Item.run_assign_of_refused hpure hw o
    rw [hrun]
    -- In a pass that is feasible the value would have been taken.
    refine ho.not_feasible hs fun hfeasible => ?_
    have hsome := hfeasible.takes (Item.dependency?_of_scalar hscalar)
    rw [hv, hw] at hsome
    cases hsome

include h in
theorem yields_assign (hs : Filling σ L (⟨.ofItem i, o, takesFirst⟩ :: due) s) (ho : Owned σ L a i row o)
    {dependency : MapperKey} (hneeds : i.dependency? = some dependency) {v : Value}
    (hv : Fulfilled σ L a.mapper.key i row v) :
    Yields σ L due (fun _ _ => True) (PassM.assign σ.setting (.ofItem i) v o) s := by
  have hi := h.item_tame ho
  have hne : i.dependency? ≠ none := by simp [hneeds]
  have hmapped : i.IsMapped := hi.kind.resolve_left fun hcolumn => hne hcolumn.dependency?_eq
  have hassign : (Assignment.ofItem i).assign v o σ.ambient = Action.setField o i.destination v := by
    unfold Assignment.assign Assignment.transpose Assignment.ofItem
    dsimp only
    rw [hmapped.transposer_eq]
    unfold Action.andThen Assignment.store
    dsimp only
    rw [hi.expected_eq, if_pos (hv.shown.accepts hne)]
  unfold PassM.assign
  change Yields σ L due _ (PassM.perform ((Assignment.ofItem i).assign v o σ.ambient) >>= _) s
  rw [hassign]
  exact .of_eq rfl trivial ((h.fill hs ho hv).of_eq rfl rfl rfl rfl)

theorem yields_enqueue {request : Nat → Request C} {takesFirst' : Bool}
    (hs : Filling σ L (⟨.ofItem i, o, takesFirst⟩ :: due) s) (hr : ∀ n, Asked σ L (request n))
    (hdelivery : ∀ n, (request n).delivery = ⟨.ofItem i, o, takesFirst'⟩) :
    Yields σ L due (fun _ _ => True) (PassM.enqueue request) s :=
  .of_eq rfl trivial ((Tame.queue hs (hr s.queued) (hdelivery s.queued)).of_eq rfl rfl rfl rfl)

include h in
theorem yields_fetch (hs : Filling σ L (⟨.ofItem i, o, takesFirst⟩ :: due) s) (ho : Owned σ L a i row o)
    {path : List String} {segment : String} {relation : Relation} {dependency : MapperKey}
    {route : Route C}
    (hfetched : i.FetchedBy σ.metadata a.mapper.key path segment relation dependency route)
    (hroute : route ∈ routesOf σ.registry.registrations) :
    Yields σ L due (fun _ _ => True) (route.fill σ.setting (.ofItem i)
      (.value (σ.memory.keyAt σ.metadata a.mapper.key.source row (path ++ [segment]))) o) s := by
  obtain ⟨declaring, hsteps, hr, hfetches⟩ := hfetched.steps
  by_cases hasks : (σ.memory.keyAt σ.metadata a.mapper.key.source row (path ++ [segment])).AsksWell
  · rcases hasks with hnull | ⟨k, hk, hfetchable⟩
    -- Null asks for nothing, and then the default of the field already shows that there are no rows.
    · have hnone : σ.memory.rowsAt σ.metadata a.mapper.key.source row (path ++ [segment]) = [] := by
        rw [hfetched.rowsAt_eq, hnull]
        rfl
      have hsettled := h.settle hs ho (hfetched.fulfilled (Or.inl hnull)
        (fun next hnext => by rw [hnone] at hnext; cases hnext) (hfetched.shown_default hnone L))
      rw [hnull]
      cases hfetches <;> exact .of_eq rfl trivial hsettled
    · have hv := isNull_of_asKey? hk
      cases hfetches with
      | one =>
        unfold Route.fill Slot.plain
        rw [requestOne_eq _ _ _ hv, fetchKey_eq_ok.mpr ⟨hk, hfetchable⟩]
        exact .ok_bind (yields_enqueue hs (fun _ => .entity ho hfetched hroute hk hfetchable) fun _ => rfl)
      | back =>
        unfold Route.fill Slot.plain
        rw [requestBack_eq _ _ _ _ hv, fetchKey_eq_ok.mpr ⟨hk, hfetchable⟩]
        exact .ok_bind (yields_enqueue hs (fun _ => .reverse ho hfetched hroute hk hfetchable) fun _ => rfl)
  · have hv := isNull_of_not_asksWell hasks
    have hstuck : ¬ σ.Feasible := ho.not_feasible hs fun hfeasible => by
      have hasks' := hfeasible.asks hfetched.style
      rw [hfetched.asked_eq] at hasks'
      exact hasks hasks'
    obtain ⟨e, he⟩ := fetchKey_eq_error (Assignment.ofItem i).item hasks
    cases hfetches with
    | one =>
      unfold Route.fill Slot.plain
      rw [requestOne_eq _ _ _ hv, he]
      exact hstuck
    | back =>
      unfold Route.fill Slot.plain
      rw [requestBack_eq _ _ _ _ hv, he]
      exact hstuck

include h in
/-- A cell that is null asks for nothing, and then the column keeps its default. -/
theorem yields_requestBatch (hs : Filling σ L (⟨.ofItem i, o, takesFirst⟩ :: due) s)
    (ho : Owned σ L a i row o) (hscalar : i.sourceShape = .scalar) {processor : Processor C}
    (hstyle : i.style = .batch processor) :
    Yields σ L due (fun _ _ => True) (requestBatch (.ofItem i) processor o
      (i.cell σ.metadata σ.memory a.mapper.key.source row)) s := by
  have hcolumn := h.item_isColumn ho hscalar
  have hcell := h.regular.isScalar_cell i (h.mem _ _ (hs.known _ _ ho.owner.1).1)
  by_cases hasks : (i.cell σ.metadata σ.memory a.mapper.key.source row).AsksWell
  · rcases hasks with hnull | ⟨k, hk, hfetchable⟩
    · have hvalue : σ.value? a.mapper.key i row = some i.destinationShape.default := by
        unfold Stage.value?
        rw [hnull]
        exact Item.value?_null hstyle
      rw [hnull]
      exact .pure trivial (h.settle hs ho (.given hscalar hcolumn.unfetched hvalue))
    · rw [requestBatch_eq _ _ _ (isNull_of_asKey? hk) hcell, fetchKey_eq_ok.mpr ⟨hk, hfetchable⟩]
      exact .ok_bind (yields_enqueue hs (fun _ => .batch ho hscalar hstyle hk hfetchable) fun _ => rfl)
  -- A cell whose key cannot be fetched is refused, so nothing is queued.
  · have hv := isNull_of_not_asksWell hasks
    obtain ⟨e, he⟩ := fetchKey_eq_error (Assignment.ofItem i).item hasks
    rw [requestBatch_eq _ _ _ hv hcell, he]
    refine ho.not_feasible hs fun hfeasible => ?_
    have hsome := hfeasible.takes (Item.dependency?_of_scalar hscalar)
    unfold Stage.value? at hsome
    rw [Item.value?_of_error hstyle hv he] at hsome
    cases hsome

section

variable {key : Option Key} (ha : a ∈ σ.registry.registrations) (hreads : σ.reads a.mapper.key row)
  (hkey : ∀ k, key = some k → row.key a.plan.head.primaryKey = some k) (hs : Filling σ L due s)
include h ha hreads hkey hs

theorem yields_cached :
    Yields σ L due (fun L' found => ∀ o, found = some o → L'.Of a.mapper.key row o)
      (PassM.cached σ.setting a.mapper.key key) s := by
  unfold PassM.cached
  cases key with
  | none => exact .pure (fun _ hfound => absurd hfound (by simp)) hs
  | some k =>
    dsimp only
    by_cases hcache : σ.setting.config.cacheDestinations = true
    · rw [if_pos hcache]
      unfold Yields
      rw [After.bind_iff, After.get_iff, either_ok]
      cases hget : s.cache.get? (a.mapper.key, k) with
      | none => exact Yields.pure (fun _ hfound => absurd hfound (by simp)) hs
      | some o =>
        obtain ⟨row', ho, hk⟩ := hs.cached a ha k o hget
        obtain ⟨e, he, hprimary⟩ := (h.registry.laid ha).entity
        have hreads' := (hs.known _ _ ho.1).1
        -- The object was made for another occurrence of the row: rows with one primary key are identical.
        obtain rfl : row' = row := by
          refine h.regular.identical _ e he row' (h.mem _ _ hreads') row (h.mem _ _ hreads) k ?_ ?_
          · exact hprimary ▸ hk
          · exact hprimary ▸ hkey k rfl
        refine Yields.of_eq rfl (fun o' hfound => ?_) (hs.of_eq rfl rfl rfl rfl)
        exact Option.some.inj hfound ▸ ho
    · rw [if_neg hcache]
      exact .pure (fun _ hfound => absurd hfound (by simp)) hs

theorem after_allocate :
    After (PassM.allocate σ.setting a.mapper.key key a.plan.defaults) s (either
      (fun o s' => ∃ L' : Labels, L.Le L' ∧ L'.Of a.mapper.key row o ∧
        Filling σ L' (unfilled a.plan.items o ++ due) s') fun _ _ => False) := by
  have hle : L.Le (L.put s.heap.size a.mapper.key row) := hs.le_put
  have ho := L.of_put s.heap.size a.mapper.key row
  have hcreated := h.create hs ha hreads
  unfold PassM.allocate PassM.remember
  cases key with
  | none => exact ⟨_, hle, ho, hcreated.of_eq rfl rfl rfl rfl⟩
  | some k =>
    by_cases hcache : σ.setting.config.cacheDestinations = true
    · simp only [if_pos hcache]
      exact ⟨_, hle, ho, (h.remember hcreated ha ho (hkey k rfl)).of_eq rfl rfl rfl rfl⟩
    · simp only [if_neg hcache]
      exact ⟨_, hle, ho, hcreated.of_eq rfl rfl rfl rfl⟩

end

end Stage.Tame

/-! ## Mapping -/

/-- The transients of a mapper become objects of their rows. -/
def Maps (σ : Stage C) (b : Registration C) : Prop :=
  ∀ (row : Row) (t : Transient) (L : Labels) (due : List (Delivery C)) (s : PassState C),
    Carries σ b row t → σ.reads b.mapper.key row → Filling σ L due s →
      Yields σ L due (fun L' o => L'.Of b.mapper.key row o) (b.plan.map σ.setting t) s

theorem Maps.mapM {σ : Stage C} {b : Registration C} (h : Maps σ b) {rows : List Row}
    {ts : List Transient} (hts : List.Forall₂ (Carries σ b) rows ts)
    (hreads : ∀ row ∈ rows, σ.reads b.mapper.key row) {L : Labels} {due : List (Delivery C)}
    {s : PassState C} (hs : Filling σ L due s) :
    Yields σ L due (fun L' os => List.Forall₂ (L'.Of b.mapper.key) rows os)
      (ts.mapM fun t => b.plan.map σ.setting t) s := by
  have hmono : ∀ (L L' : Labels) row o, L.Le L' → L.Of b.mapper.key row o → L'.Of b.mapper.key row o :=
    fun _ _ _ _ hle ho => ho.mono hle
  refine .mapM hmono ((List.forall₂_and_left _ _).mpr ⟨hreads, hts⟩) ?_ hs
  rintro row t L s ⟨hread, ht⟩ hs
  exact h row t L due s ht hread hs

namespace Stage.Tame

variable {σ : Stage C} (h : σ.Tame) {L : Labels} {due : List (Delivery C)} {s : PassState C}
  {a : Registration C} {i : Item C} {row : Row} {o : ObjectRef}
include h

theorem reads_embedded (hs : Filling σ L due s) (ho : Owned σ L a i row o) {path : List String}
    {b : Registration C} (hembeds : Embeds σ i path b) {next : Row}
    (hnext : (i.sourceShape = .entity b.mapper.key.source ∧
        σ.memory.rowAt σ.metadata a.mapper.key.source row path = some next) ∨
      (i.sourceShape = .sequence b.mapper.key.source ∧
        next ∈ σ.memory.rowsAt σ.metadata a.mapper.key.source row path)) :
    σ.reads b.mapper.key next := by
  refine h.item a ho.mem row (hs.known _ _ ho.owner.1).1 i ho.item _ hembeds.needs next ?_
  unfold Item.leads
  rw [hembeds.source]
  rcases hnext with ⟨hshape, hrow⟩ | ⟨hshape, hrow⟩
  · rw [hshape]
    dsimp only
    rw [hembeds.style, if_neg (by simp), hrow]
    exact List.mem_singleton_self next
  · rw [hshape]
    exact hrow

theorem yields_slot (hs : Filling σ L (⟨.ofItem i, o, false⟩ :: due) s) (ho : Owned σ L a i row o)
    (hmaps : ∀ b ∈ σ.registry.registrations, i.dependency? = some b.mapper.key → Maps σ b)
    {route : Route C} (hroute : route ∈ routesOf σ.registry.registrations) {slot : Slot}
    (hslot : Slotted σ a.mapper.key i row route slot) :
    Yields σ L due (fun _ _ => True) (route.fill σ.setting (.ofItem i) slot o) s := by
  cases hslot with
  | copy hscalar hstyle =>
    unfold Route.fill Slot.plain
    exact h.yields_settle hs ho hscalar (Item.value?_of_unbatched hstyle)
  | batch hscalar hstyle =>
    unfold Route.fill Slot.plain
    exact h.yields_requestBatch hs ho hscalar hstyle
  | noRow hembeds hshape hnone =>
    unfold Route.fill
    exact h.yields_assign hs ho hembeds.needs (.embedded hembeds.needs hembeds.style
      (.nothing hembeds.source hshape hembeds.needs hnone))
  | @row path b next t hembeds hshape hsome ht =>
    unfold Route.fill
    have hread := h.reads_embedded hs ho hembeds (Or.inl ⟨hshape, hsome⟩)
    refine .bind (hmaps b hembeds.mem hembeds.needs next t L _ s ht hread hs) fun o' L' s' hle ho' hs' => ?_
    exact h.yields_assign hs' (ho.mono hle) hembeds.needs (.embedded hembeds.needs hembeds.style
      (.object hembeds.source hshape hembeds.needs hsome ho'))
  | noRows hembeds hshape hnone =>
    unfold Route.fill
    refine .pure trivial (h.settle hs ho (.embedded hembeds.needs hembeds.style ?_))
    refine .default hembeds.source hembeds.needs (fun hentity => ?_) fun _ => hnone
    rw [hshape] at hentity
    simp at hentity
  | @rows path b ts hembeds hshape hts =>
    unfold Route.fill
    have hreads : ∀ next ∈ σ.memory.rowsAt σ.metadata a.mapper.key.source row path,
        σ.reads b.mapper.key next :=
      fun next hnext => h.reads_embedded hs ho hembeds (Or.inr ⟨hshape, hnext⟩)
    refine .bind ((hmaps b hembeds.mem hembeds.needs).mapM hts hreads hs) fun os L' s' hle hos hs' => ?_
    exact h.yields_assign hs' (ho.mono hle) hembeds.needs (.embedded hembeds.needs hembeds.style
      (.list hembeds.source hshape hembeds.needs hos))
  | key hfetched => exact h.yields_fetch hs ho hfetched hroute

theorem yields_fillItems (ha : a ∈ σ.registry.registrations)
    (hmaps : ∀ b ∈ σ.registry.registrations,
      DependsOn σ.registry.mappers a.mapper.key b.mapper.key → Maps σ b)
    {items : List (Assignment C × Route C)} {slots : List Slot} (hsub : items ⊆ a.plan.items)
    (hslots : List.Forall₂ (SlotFor σ a row) items slots) (ho : L.Of a.mapper.key row o)
    (hs : Filling σ L (unfilled items o ++ due) s) :
    Yields σ L due (fun _ _ => True) (fillItems σ.setting items slots o) s := by
  induction hslots generalizing L s with
  | nil =>
    unfold fillItems
    exact .pure trivial hs
  | @cons p slot items slots hslot _ ih =>
    obtain ⟨assignment, route⟩ := p
    obtain ⟨i, hi, rfl, hslotted⟩ := hslot
    have hroute : route ∈ routesOf σ.registry.registrations :=
      List.mem_flatMap.mpr ⟨a, ha, List.mem_map.mpr ⟨_, hsub List.mem_cons_self, rfl⟩⟩
    unfold fillItems
    refine .bind (h.yields_slot hs ⟨ha, hi, ho⟩ (fun b hb hneeds => ?_) hroute hslotted)
      fun _ L₁ s₁ hle _ hs₁ => ?_
    · exact hmaps b hb ⟨a.mapper, List.mem_map_of_mem ha, rfl, i, hi, hneeds⟩
    · refine .bind (.record _ hs₁) fun _ L₂ s₂ hle' _ hs₂ => ?_
      exact ih (fun q hq => hsub (List.mem_cons_of_mem _ hq)) ((ho.mono hle).mono hle') hs₂

/-- Every transient becomes an object of its row, by induction on what mappers need. -/
theorem maps (ha : a ∈ σ.registry.registrations) : Maps σ a := by
  refine h.registry.induct (fun a ha ih row t L due s ht hreads hs => ?_) ha
  have hlaid := h.registry.laid ha
  have hkey : ∀ k, a.plan.head.keyOf t = some k → row.key a.plan.head.primaryKey = some k :=
    fun k => h.key_of_keyOf ha ht
  obtain ⟨joined, slots, -, rfl, hslots⟩ := h.slots_of_carries ha ht
  rw [Plan.map_eq, hlaid.key_eq]
  refine .bind (h.yields_cached ha hreads hkey hs) fun found L₁ s₁ hle hfound hs₁ => ?_
  cases found with
  | some o => exact .pure (hfound o rfl) hs₁
  | none =>
    -- A new object leaves all of its fields due, and the slots of the row pay for them.
    refine After.bind (h.after_allocate ha hreads hkey hs₁) ?_ fun _ _ h => h.elim
    rintro o s₂ ⟨L₂, hle₂, ho, hs₂⟩
    have hdrop : List.drop a.plan.head.carriers.length
        (a.plan.head.carriers.map (fun column => .value (joined.value column)) ++ slots) = slots :=
      List.drop_left' (by rw [List.length_map])
    rw [hdrop, hlaid.after_eq]
    have hfilled := h.yields_fillItems ha ih (List.Subset.refl _) hslots ho hs₂
    refine Yields.of_le hle₂ (.bind hfilled fun _ L₃ s₃ hle₃ _ hs₃ => ?_)
    have hdefer : Yields σ L₃ due (fun _ _ => True) (PassM.defer o []) s₃ :=
      .of_eq rfl trivial (hs₃.of_eq rfl rfl rfl (List.append_nil _))
    refine .bind hdefer fun _ L₄ s₄ hle₄ _ hs₄ => ?_
    refine .bind (.record _ hs₄) fun _ L₅ s₅ hle₅ _ hs₅ => ?_
    exact .pure (ho.mono (hle₃.trans (hle₄.trans hle₅))) hs₅

/-! ## Loading -/

theorem loads_withIncludes (ha : a ∈ σ.registry.registrations) {q : Query}
    (hentity : q.entity = a.mapper.key.source) :
    (q.withIncludes a.plan.includes).Loads σ.metadata ↔ q.Loads σ.metadata := by
  refine or_congr Iff.rfl ⟨fun hwalk p hp => hwalk p ?_, fun hwalk p hp => ?_⟩
  · exact Include.mem_pathsOf_mergeAll _ _ _ |>.mpr (Or.inl hp)
  · rcases (Include.mem_pathsOf_mergeAll _ _ _).mp hp with hp | hp
    · exact hwalk p hp
    · exact hentity ▸ (h.registry.laid ha).walkable p hp

theorem after_fetch (ha : a ∈ σ.registry.registrations) {q : Query}
    (hentity : q.entity = a.mapper.key.source) (hdistinct : Include.DistinctAll q.includes)
    (hloads : q.Loads σ.metadata) (l : Loading) :
    After (Source.fetch σ.setting.source σ.setting.metadata (q.withIncludes a.plan.includes)) l (either
      (fun rows _ => List.Forall₂ (σ.Joined a) (σ.memory.matching q.entity q.filter) rows)
      fun _ _ => False) := by
  have hlaid := h.registry.laid ha
  obtain ⟨e, he, -⟩ := hlaid.entity
  have hmerged := (h.loads_withIncludes ha hentity).mpr hloads
  change After (Source.fetch σ.memory.source σ.registry.metadata _) l _
  rw [h.registry.metadata_eq]
  refine (Source.after_fetch h.registry.apart h.registry.named (q := q.withIncludes a.plan.includes)
    (hentity ▸ he) hmerged l).imp ?_ fun _ _ h => h
  rintro rows _ rfl
  rw [List.forall₂_map_right_iff]
  -- A query that matches nothing is answered without walking the metadata.
  rcases hmerged with hnothing | hwalk
  · have hnone : σ.memory.matching q.entity q.filter = [] :=
      Source.Memory.matching_of_matchesNothing (q := q) hnothing
    change List.Forall₂ _ (σ.memory.matching q.entity q.filter) (σ.memory.matching q.entity q.filter)
    rw [hnone]
    exact .nil
  · refine List.forall₂_same.mpr fun row _ => ?_
    refine ⟨_, Include.distinctAll_mergeAll _ _ hlaid.distinct hdistinct, hentity ▸ hwalk, ?_, hentity ▸ rfl⟩
    exact fun p hp => (Include.mem_pathsOf_mergeAll _ _ _).mpr (Or.inr hp)

theorem yields_materialize (ha : a ∈ σ.registry.registrations) {q : Query}
    (hentity : q.entity = a.mapper.key.source) (hdistinct : Include.DistinctAll q.includes)
    (hloads : q.Loads σ.metadata)
    (hreads : ∀ row ∈ σ.memory.matching q.entity q.filter, σ.reads a.mapper.key row)
    (hs : Filling σ L due s) :
    Yields σ L due (fun L' mapped => List.Forall₂
      (fun row m => Carries σ a row m.1 ∧ L'.Of a.mapper.key row m.2)
      (σ.memory.matching q.entity q.filter) mapped) (materialize σ.setting a.plan q) s := by
  unfold materialize
  have hloaded : Yields σ L due
      (fun _ rows => List.Forall₂ (σ.Joined a) (σ.memory.matching q.entity q.filter) rows)
      (ExceptT.adapt (.query a.plan.text) (PassM.loading
        (Source.fetch σ.setting.source σ.setting.metadata (q.withIncludes a.plan.includes)))) s := by
    unfold Yields
    rw [After.adapt_iff]
    refine (Yields.loading (h.after_fetch ha hentity hdistinct hloads) hs).mono ?_
    rintro (e | rows) s' hs'
    · exact hs'
    · exact hs'
  refine .bind hloaded fun rows L₁ s₁ hle₁ hrows hs₁ => ?_
  obtain ⟨ts, hts, hcarries⟩ := (h.projects ha).exists_transients hrows
  have hproject : (rows.mapM fun row => a.plan.project row σ.setting.ambient) = .ok ts :=
    mapM_eq_ok.mpr hts
  rw [hproject]
  refine .ok_bind (.mapM ?_ ((List.forall₂_and_left _ _).mpr ⟨hreads, hcarries⟩) ?_ hs₁)
  · rintro L L' row m hle ⟨ht, ho⟩
    exact ⟨ht, ho.mono hle⟩
  · rintro row t L s ⟨hread, ht⟩ hs
    refine .bind (h.maps ha row t L due s ht hread hs) fun o L' s' hle ho hs' => ?_
    exact .pure ⟨ht, ho⟩ hs'

theorem materialize_fails (ha : a ∈ σ.registry.registrations) {q : Query}
    (hentity : q.entity = a.mapper.key.source) (hloads : ¬ q.Loads σ.metadata) (s : PassState C) :
    After (materialize σ.setting a.plan q) s (either (fun _ _ => False) fun _ _ => True) := by
  unfold materialize
  refine After.bind (P := fun _ _ => False) (E := fun _ _ => True) ?_ (fun _ _ h => h.elim) fun _ _ h => h
  rw [After.adapt_iff, PassM.loading_iff]
  change After (Source.fetch σ.memory.source σ.registry.metadata _) _ _
  rw [h.registry.metadata_eq]
  refine (Source.loads_of_fetch h.registry.named _ _).mono ?_
  rintro (e | rows) l hmerged
  · trivial
  · exact hloads ((h.loads_withIncludes ha hentity).mp hmerged)

end Stage.Tame

end EntityMapping
