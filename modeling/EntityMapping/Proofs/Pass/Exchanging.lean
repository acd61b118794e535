import EntityMapping.Proofs.Pass.Loads
import EntityMapping.Proofs.Source.Storing

/-! # Exchanging the source

A pass sees nothing of its source but the rows of its loads. Two runs of a pass, each on a source of its own,
do the same as long as every load of the first run is one that both sources answer with the same rows: their
states differ in the journals only. Which loads these are is left open, so that a source may also be compared
with one that refuses some loads.
-/

namespace EntityMapping

variable {C σ α β : Type}

/-! ## Two runs -/

/-- How the states of two runs compare, what is kept true of the states of the first run, and whether its
loads so far are such that the runs can be expected to do the same. -/
structure Comparison (σ : Type) where
  alike : σ → σ → Prop
  refl : ∀ s, alike s s
  sound : σ → Prop
  fine : σ → Prop

/-- The runs do the same if all is fine at the end of the first. If it is, then it was so at the beginning,
so two steps one after the other may each rely on it. -/
def Agree (κ : Comparison σ) (x y : ExceptT Error (StateM σ) α) : Prop :=
  ∀ s s', κ.alike s s' → κ.sound s → κ.sound (x.run.run s).2 ∧
    (κ.fine (x.run.run s).2 →
      κ.fine s ∧ (x.run.run s).1 = (y.run.run s').1 ∧ κ.alike (x.run.run s).2 (y.run.run s').2)

namespace Agree

variable {κ : Comparison σ} {x y : ExceptT Error (StateM σ) α}

theorem pure (a : α) : Agree κ (pure a) (pure a) := fun _ _ halike hsound =>
  ⟨hsound, fun hfine => ⟨hfine, rfl, halike⟩⟩

theorem throw (e : Error) : Agree κ (throw e : ExceptT Error (StateM σ) α) (throw e) := fun _ _ halike hsound =>
  ⟨hsound, fun hfine => ⟨hfine, rfl, halike⟩⟩

theorem bind {f g : α → ExceptT Error (StateM σ) β} (hx : Agree κ x y) (hf : ∀ a, Agree κ (f a) (g a)) :
    Agree κ (x >>= f) (y >>= g) := by
  intro s s' halike hsound
  obtain ⟨hsound₁, hx⟩ := hx s s' halike hsound
  rw [After.run_bind, After.run_bind]
  generalize x.run.run s = ran at hsound₁ hx ⊢
  obtain ⟨_ | a, s₁⟩ := ran
  · refine ⟨hsound₁, fun hfine => ?_⟩
    obtain ⟨hfine, hresult, halike⟩ := hx hfine
    generalize y.run.run s' = ran' at hresult halike ⊢
    obtain ⟨result, s₁'⟩ := ran'
    obtain rfl : Except.error _ = result := hresult
    exact ⟨hfine, rfl, halike⟩
  · -- The rest of the first run is fine only if its beginning was.
    obtain ⟨hsound₂, hback⟩ := hf a s₁ s₁ (κ.refl s₁) hsound₁
    refine ⟨hsound₂, fun hfine => ?_⟩
    obtain ⟨hfine₀, hresult, halike⟩ := hx (hback hfine).1
    generalize y.run.run s' = ran' at hresult halike ⊢
    obtain ⟨result, s₁'⟩ := ran'
    obtain rfl : Except.ok a = result := hresult
    exact ⟨hfine₀, ((hf a s₁ s₁' halike hsound₁).2 hfine).2⟩

theorem ofExcept_bind {result : Except Error α} {f g : α → ExceptT Error (StateM σ) β}
    (hf : ∀ a, result = .ok a → Agree κ (f a) (g a)) :
    Agree κ ((ofExcept result : ExceptT Error (StateM σ) α) >>= f) (ofExcept result >>= g) := by
  cases result with
  | ok a => exact hf a rfl
  | error e => exact throw e

theorem forM {f g : α → ExceptT Error (StateM σ) PUnit} (l : List α) (h : ∀ a ∈ l, Agree κ (f a) (g a)) :
    Agree κ (l.forM f) (l.forM g) := by
  induction l with
  | nil => exact pure _
  | cons a l ih => exact bind (h a (by simp)) fun _ => ih fun b hb => h b (List.mem_cons_of_mem _ hb)

theorem mapM {f g : α → ExceptT Error (StateM σ) β} (l : List α) (h : ∀ a ∈ l, Agree κ (f a) (g a)) :
    Agree κ (l.mapM f) (l.mapM g) := by
  induction l with
  | nil => exact pure _
  | cons a l ih =>
    rw [List.mapM_cons, List.mapM_cons]
    refine bind (h a (by simp)) fun _ => ?_
    exact bind (ih fun b hb => h b (List.mem_cons_of_mem _ hb)) fun _ => pure _

theorem adapt (h : Agree κ x y) (f : Error → Error) :
    Agree κ (ExceptT.adapt f x) (ExceptT.adapt f y) := by
  intro s s' halike hsound
  obtain ⟨hsound, h⟩ := h s s' halike hsound
  rw [ExceptT.run_adapt, ExceptT.run_adapt, StateT.run_map, StateT.run_map]
  exact ⟨hsound, fun hfine => (h hfine).imp_right fun hsame => hsame.imp_left (congrArg (Except.mapError f))⟩

end Agree

/-! ## Loading -/

/-- The sources answer the good loads of declared columns with the same rows. -/
structure Exchanges (metadata : Metadata) (good : LoadRecord → Prop) (source source' : DataSource) :
    Prop where
  rows_eq : ∀ name e, metadata.entity? name = some e → ∀ filter, e.Filters filter → good ⟨e.name, filter⟩ →
    ∀ history history', (source.reply history e filter).rows = (source'.reply history' e filter).rows

namespace Journal

theorem loads_add {e : Entry} (he : e.errand?.bind (·.record?) = none) (j : Journal) :
    (j.add e).loads = j.loads := by
  rw [loads_eq, loads_eq, errands_add, List.filterMap_append]
  cases herrand : e.errand? with
  | none => simp
  | some errand =>
    rw [herrand] at he
    simpa using he

theorem loads_addNotes (j : Journal) (notes : List Note) : (j.addNotes notes).loads = j.loads := by
  rw [loads_eq, loads_eq, errands_addNotes]

end Journal

/-- Journals may differ, numbers of loads may not. -/
def Comparison.loading (good : LoadRecord → Prop) : Comparison Loading where
  alike l l' := l'.loads = l.loads
  refl _ := rfl
  sound _ := True
  fine l := ∀ record ∈ l.journal.loads, good record

namespace Source

variable {metadata : Metadata} {good : LoadRecord → Prop} {source source' : DataSource}

section

variable (h : Exchanges metadata good source source')
include h

theorem agree_load {name : String} {e : Entity} (he : metadata.entity? name = some e)
    {filter : Option KeyFilter} (hfilter : e.Filters filter) :
    Agree (.loading good) (source.load e filter) (source'.load e filter) := by
  intro l l' halike _
  have hmade : After (source.load e filter) l fun _ l' => Loading.Made [⟨e.name, filter⟩] l l' :=
    made_load source e filter l
  have hloads := hmade.errands_eq
  refine ⟨trivial, fun hfine => ?_⟩
  change ∀ record ∈ _, good record at hfine
  rw [Journal.loads_eq, hloads, List.filterMap_append, ← Journal.loads_eq] at hfine
  have hgood : good ⟨e.name, filter⟩ := hfine _ (List.mem_append_right _ (List.mem_singleton_self _))
  exact ⟨fun record hrecord => hfine record (List.mem_append_left _ hrecord),
    h.rows_eq name e he filter hfilter hgood _ _, congrArg (· + 1) halike⟩

theorem agree_loadByKeys {name : String} {target : Entity} (htarget : metadata.entity? name = some target)
    {column : String} (hcolumn : column ∈ target.columnNames) {keys : List Key}
    (hkeys : ∀ k ∈ keys, k.IsSimple) :
    Agree (.loading good) (loadByKeys source target column keys) (loadByKeys source' target column keys) := by
  unfold loadByKeys
  split
  · exact .pure _
  · refine agree_load h htarget fun f hf => ?_
    obtain rfl := Option.some.inj hf
    exact ⟨hcolumn, hkeys⟩

end

mutual

theorem agree_attach (htabular : metadata.Tabular) (h : Exchanges metadata good source source')
    {name : String} {entity : Entity} (hentity : metadata.entity? name = some entity) (rows : List Row) :
    ∀ i : Include,
    Agree (.loading good) (attach source metadata entity rows i) (attach source' metadata entity rows i)
  | ⟨field, nested⟩ => by
    have hnested := fun target (htarget : ∃ name, metadata.entity? name = some target) related =>
      agree_attachAll htabular h htarget.choose_spec related nested
    unfold attach
    refine .ofExcept_bind fun relation hrelation => .ofExcept_bind fun target htarget => ?_
    have hmem := List.mem_of_find?_eq_some (requireRelation_eq_ok.mp hrelation)
    have htarget := requireEntity_eq_ok.mp htarget
    have hremote := (htabular.joins name entity hentity relation hmem).2 target htarget
    refine .bind (agree_loadByKeys h htarget hremote fun k hk => ?_) fun related => ?_
    · obtain ⟨row, -, hkey⟩ := List.mem_filterMap.mp (Key.mem_distinct.mp hk)
      exact Key.isSimple_of_asKey? hkey
    · exact .bind (hnested target ⟨_, htarget⟩ related) fun _ => .pure _

theorem agree_attachAll (htabular : metadata.Tabular) (h : Exchanges metadata good source source')
    {name : String} {entity : Entity} (hentity : metadata.entity? name = some entity) (rows : List Row) :
    ∀ includes : List Include,
    Agree (.loading good) (attachAll source metadata entity rows includes)
      (attachAll source' metadata entity rows includes)
  | [] => .pure _
  | i :: rest => by
    unfold attachAll
    exact .bind (agree_attach htabular h hentity rows i) fun rows =>
      agree_attachAll htabular h hentity rows rest

end

theorem agree_fetch (htabular : metadata.Tabular) (h : Exchanges metadata good source source') {q : Query}
    (hfilter : ∀ e, metadata.entity? q.entity = some e → e.Filters q.filter) :
    Agree (.loading good) (fetch source metadata q) (fetch source' metadata q) := by
  unfold fetch
  split
  · exact .pure _
  · refine .ofExcept_bind fun e he => ?_
    have he := requireEntity_eq_ok.mp he
    exact .bind (agree_load h he (hfilter e he)) fun rows => agree_attachAll htabular h he rows _

end Source

/-! ## Steps of a pass -/

/-- What is asked of a fetcher is a key that is no tuple. -/
def Request.IsSimple : Request C → Prop
  | .reverse _ r | .entity _ r => r.key.IsSimple
  | .batch _ _ => True

/-- Only the journals may differ. -/
def Comparison.pass (C : Type) (good : LoadRecord → Prop) : Comparison (PassState C) where
  alike s s' := ∃ j, s' = { s with journal := j }
  refl s := ⟨s.journal, rfl⟩
  sound s := ∀ r ∈ s.requests, r.IsSimple
  fine s := ∀ record ∈ s.journal.loads, good record

/-- The other setting has the same code, but a source of its own. -/
def Setting.on (setting : Setting C) (source : DataSource) : Setting C := { setting with source }

namespace PassM

variable {good : LoadRecord → Prop}

theorem fine_of_loads {s s' : PassState C} (h : s'.journal.loads = s.journal.loads) :
    (Comparison.pass C good).fine s' → (Comparison.pass C good).fine s :=
  fun hfine record hrecord => hfine record (h ▸ hrecord)

theorem agree_record {e : Entry} (he : e.errand?.bind (·.record?) = none) :
    Agree (.pass C good) (record e) (record e) := by
  rintro s _ ⟨j, rfl⟩ hsound
  exact ⟨hsound, fun hfine => ⟨fine_of_loads (Journal.loads_add he s.journal) hfine, rfl, j.add e, rfl⟩⟩

theorem agree_perform (action : Action α) : Agree (.pass C good) (perform action) (perform action) := by
  rintro s _ ⟨j, rfl⟩ hsound
  exact ⟨hsound, fun hfine => ⟨fine_of_loads (Journal.loads_addNotes s.journal _) hfine, rfl, _, rfl⟩⟩

theorem agree_modify {f : PassState C → PassState C}
    (hf : ∀ s j, f { s with journal := j } = { f s with journal := j })
    (hrequests : ∀ s, (f s).requests = s.requests) :
    Agree (.pass C good) (modify f : PassM C Unit) (modify f) := by
  rintro s _ ⟨j, rfl⟩ hsound
  have hjournal : (f s).journal = s.journal := congrArg (·.journal) (hf s s.journal)
  have hrequests' : (f s).requests = s.requests := hrequests s
  refine ⟨fun r hr => hsound r (hrequests' ▸ hr), fun hfine => ⟨?_, rfl, j, hf s j⟩⟩
  exact fine_of_loads (congrArg Journal.loads hjournal) hfine

theorem agree_get_bind {f g : PassState C → PassM C α} (hg : ∀ s j, g { s with journal := j } = g s)
    (h : ∀ s, Agree (.pass C good) (f s) (g s)) : Agree (.pass C good) (get >>= f) (get >>= g) := by
  rintro s _ ⟨j, rfl⟩ hsound
  have hsame : (get >>= g).run.run { s with journal := j } = (g s).run.run { s with journal := j } := by
    change (g { s with journal := j }).run.run _ = _
    rw [hg]
  rw [hsame]
  exact h s s _ ⟨j, rfl⟩ hsound

theorem agree_attempt {x y : PassM C α} (h : Agree (.pass C good) x y) :
    Agree (.pass C good) (attempt x) (attempt y) := by
  intro s s' halike hsound
  obtain ⟨hsound, h⟩ := h s s' halike hsound
  exact ⟨hsound, fun hfine => (h hfine).imp_right fun hsame => hsame.imp_left (congrArg Except.ok)⟩

theorem agree_loading {work work' : LoadM α} (h : Agree (.loading good) work work') :
    Agree (.pass C good) (loading work) (loading work') := by
  rintro s _ ⟨j, rfl⟩ hsound
  obtain ⟨-, h⟩ := h ⟨s.journal, s.stats.loads⟩ ⟨j, s.stats.loads⟩ rfl trivial
  refine ⟨hsound, fun hfine => ?_⟩
  obtain ⟨hfine, hresult, hloads⟩ := h hfine
  refine ⟨hfine, hresult, (work'.run.run ⟨j, s.stats.loads⟩).2.journal, ?_⟩
  change { s with journal := _, stats := { s.stats with loads := (work'.run.run ⟨j, s.stats.loads⟩).2.loads } } = _
  rw [hloads]
  rfl

theorem agree_enqueue {request : Nat → Request C} (h : ∀ n, (request n).IsSimple) :
    Agree (.pass C good) (enqueue request) (enqueue request) := by
  rintro s _ ⟨j, rfl⟩ hsound
  refine ⟨fun r hr => ?_, fun hfine => ⟨fine_of_loads (Journal.loads_add rfl s.journal) hfine, rfl, _, rfl⟩⟩
  rcases List.mem_append.mp hr with hr | hr
  · exact hsound r hr
  · exact List.mem_singleton.mp hr ▸ h _

variable (setting : Setting C) (source' : DataSource)

theorem agree_cached (mapper : MapperKey) (key : Option Key) :
    Agree (.pass C good) (cached setting mapper key) (cached (setting.on source') mapper key) := by
  change Agree _ _ (cached setting mapper key)
  unfold cached
  split
  · exact .pure _
  · split
    · refine agree_get_bind (fun _ _ => rfl) fun s => ?_
      split
      · exact .pure _
      · exact .bind (agree_record rfl) fun _ => .pure _
    · exact .pure _

theorem agree_allocate (mapper : MapperKey) (key : Option Key) (fields : Dict String Value) :
    Agree (.pass C good) (allocate setting mapper key fields)
      (allocate (setting.on source') mapper key fields) := by
  change Agree _ _ (allocate setting mapper key fields)
  unfold allocate remember
  refine .bind (agree_perform _) fun o => .bind ?_ fun _ => .bind (agree_record rfl) fun _ => .pure _
  split
  · exact .pure _
  · split
    · exact agree_modify (fun _ _ => rfl) fun _ => rfl
    · exact .pure _

theorem agree_assign (a : Assignment C) (v : Value) (o : ObjectRef) :
    Agree (.pass C good) (assign setting a v o) (assign (setting.on source') a v o) :=
  .bind (agree_perform _) fun _ => agree_record rfl

theorem agree_defer (o : ObjectRef) (hooks : List (Hook C)) :
    Agree (.pass C good) (defer o hooks) (defer o hooks) :=
  agree_modify (fun _ _ => rfl) fun _ => rfl

end PassM

/-! ## Mapping -/

section

variable {good : LoadRecord → Prop} (setting : Setting C) (source' : DataSource)

theorem agree_requestOne (a : Assignment C) (target : MapperKey) (o : ObjectRef) (v : Value) :
    Agree (.pass C good) (requestOne a target o v) (requestOne a target o v) := by
  unfold requestOne
  split
  · exact .pure _
  · exact .ofExcept_bind fun key hkey => PassM.agree_enqueue fun _ => Key.isSimple_of_asKey? (fetchKey_eq_ok.mp hkey).1

theorem agree_requestBack (a : Assignment C) (relation : Relation) (fetcher : ReverseKey) (o : ObjectRef)
    (v : Value) :
    Agree (.pass C good) (requestBack a relation fetcher o v) (requestBack a relation fetcher o v) := by
  unfold requestBack
  split
  · exact .pure _
  · exact .ofExcept_bind fun key hkey => PassM.agree_enqueue fun _ => Key.isSimple_of_asKey? (fetchKey_eq_ok.mp hkey).1

theorem agree_requestBatch (a : Assignment C) (processor : Processor C) (o : ObjectRef) (v : Value) :
    Agree (.pass C good) (requestBatch a processor o v) (requestBatch a processor o v) := by
  unfold requestBatch
  split
  · exact .pure _
  · exact .ofExcept_bind fun _ _ => PassM.agree_enqueue fun _ => trivial

mutual

/-- Mapping makes no use of the source. -/
theorem Plan.agree_map : ∀ (plan : Plan C) (t : Transient),
    Agree (.pass C good) (plan.map setting t) (plan.map (setting.on source') t)
  | .mk head items, t => by
    unfold Plan.map
    refine .bind (PassM.agree_cached setting source' _ _) fun found => ?_
    split
    · exact .pure _
    · refine .bind (PassM.agree_allocate setting source' _ _ _) fun o => ?_
      refine .bind (agree_fillItems items _ o) fun _ => ?_
      exact .bind (PassM.agree_defer o _) fun _ => .bind (PassM.agree_record rfl) fun _ => .pure _

theorem agree_fillItems : ∀ (items : List (Assignment C × Route C)) (slots : List Slot) (o : ObjectRef),
    Agree (.pass C good) (fillItems setting items slots o) (fillItems (setting.on source') items slots o)
  | [], _, _ => .pure _
  | _ :: _, [], _ => .throw _
  | (a, route) :: rest, slot :: slots, o => by
    unfold fillItems
    refine .bind (Route.agree_fill route a slot o) fun _ => ?_
    exact .bind (PassM.agree_record rfl) fun _ => agree_fillItems rest slots o

theorem Route.agree_fill : ∀ (route : Route C) (a : Assignment C) (slot : Slot) (o : ObjectRef),
    Agree (.pass C good) (route.fill setting a slot o) (route.fill (setting.on source') a slot o)
  | .copy _, a, _, o => PassM.agree_assign setting source' a _ o
  | .batch _ processor, a, _, o => agree_requestBatch a processor o _
  | .fetchOne _ _ target, a, _, o => agree_requestOne a target o _
  | .fetchBack _ relation fetcher, a, _, o => agree_requestBack a relation fetcher o _
  | .embed _ plan, a, .embedded (some t), o =>
    .bind (plan.agree_map t) fun _ => PassM.agree_assign setting source' a _ o
  | .embed _ _, a, .embedded none, o => PassM.agree_assign setting source' a _ o
  | .embed _ _, _, .value _, _ => .throw _
  | .embed _ _, _, .sequence _, _ => .throw _
  | .embedEach _ plan, a, .sequence (some ts), o =>
    .bind (.mapM ts fun t _ => plan.agree_map t) fun _ => PassM.agree_assign setting source' a _ o
  | .embedEach _ _, _, .sequence none, _ => .pure _
  | .embedEach _ _, _, .value _, _ => .throw _
  | .embedEach _ _, _, .embedded _, _ => .throw _

end

theorem agree_deliver (number : Nat) (d : Delivery C) (v : Value) :
    Agree (.pass C good) (deliver setting number d v) (deliver (setting.on source') number d v) := by
  unfold deliver
  refine .bind (PassM.agree_record rfl) fun _ => ?_
  split
  · exact PassM.agree_assign setting source' _ _ _
  · exact .pure _

theorem agree_runScript {n : Nat} (script : Script n) (pending : List (BatchRequest C))
    (hlength : pending.length = n) :
    Agree (.pass C good) (runScript setting script pending hlength)
      (runScript (setting.on source') script pending hlength) := by
  induction script generalizing pending with
  | finish => exact .pure _
  | fail e => exact .throw _
  | inspect next ih => exact .bind (PassM.agree_perform _) fun heap => ih heap pending hlength
  | set o field v next ih => exact .bind (PassM.agree_perform _) fun _ => ih pending hlength
  | create typeName fields next ih => exact .bind (PassM.agree_perform _) fun o => ih o pending hlength
  | note entry next ih => exact .bind (PassM.agree_record rfl) fun _ => ih pending hlength
  | apply i v next ih =>
    unfold runScript
    exact .bind (PassM.agree_attempt (agree_deliver setting source' _ _ _)) fun result => ih result _ _

theorem agree_resolveBatch (p : Processor C) (requests : List (BatchRequest C)) :
    Agree (.pass C good) (resolveBatch setting p requests) (resolveBatch (setting.on source') p requests) := by
  unfold resolveBatch
  refine .bind (agree_runScript setting source' _ requests _) fun left => ?_
  split
  · exact .pure _
  · exact .throw _

theorem agree_beginGroup (group : GroupKey) (numbers : List Nat) :
    Agree (.pass C good) (beginGroup group numbers : PassM C Unit) (beginGroup group numbers) :=
  .bind (PassM.agree_modify (fun _ _ => rfl) fun _ => rfl) fun _ => PassM.agree_record rfl

theorem agree_beginWave :
    Agree (.pass C good) (beginWave setting) (beginWave (setting.on source')) := by
  change Agree _ _ (beginWave setting)
  unfold beginWave
  refine PassM.agree_get_bind (fun _ _ => rfl) fun s => ?_
  refine .bind (PassM.agree_modify (fun _ _ => rfl) fun _ => rfl) fun _ => ?_
  have hopened : Agree (.pass C good) (do
      PassM.record (.wave (s.stats.waves + 1))
      return s.stats.waves + 1 : PassM C Nat) (do
      PassM.record (.wave (s.stats.waves + 1))
      return s.stats.waves + 1) := .bind (PassM.agree_record rfl) fun _ => .pure _
  dsimp only
  split
  · split
    · exact .bind (.throw _) fun _ => hopened
    · exact hopened
  · exact hopened

theorem agree_runHook (hook : PendingHook C) :
    Agree (.pass C good) (runHook setting hook) (runHook (setting.on source') hook) :=
  .bind (PassM.agree_record rfl) fun _ => PassM.agree_perform _

end

/-! ## Fetching -/

/-- Fetchers load by columns that are declared. -/
structure Fetchers.Declared (metadata : Metadata) (f : Fetchers C) : Prop where
  entity : ∀ key fetcher, f.entity.get? key = some fetcher →
    ∀ e, metadata.entity? fetcher.plan.key.source = some e → fetcher.keyColumn ∈ e.columnNames
  reverse : ∀ key fetcher, f.reverse.get? key = some fetcher →
    ∀ e, metadata.entity? fetcher.plan.key.source = some e → fetcher.foreignKey ∈ e.columnNames

/-- Two sources in one setting of a pass. -/
structure Setting.Exchanging (setting : Setting C) (good : LoadRecord → Prop) (source' : DataSource) : Prop where
  tabular : setting.metadata.Tabular
  sources : Exchanges setting.metadata good setting.source source'
  fetchers : setting.fetchers.Declared setting.metadata

section

variable {setting : Setting C} {good : LoadRecord → Prop} {source' : DataSource}
  (h : setting.Exchanging good source')
include h

theorem agree_materialize (plan : Plan C) {q : Query}
    (hfilter : ∀ e, setting.metadata.entity? q.entity = some e → e.Filters q.filter) :
    Agree (.pass C good) (materialize setting plan q) (materialize (setting.on source') plan q) := by
  unfold materialize
  have hfetch := Source.agree_fetch h.tabular h.sources (q := q.withIncludes plan.includes) hfilter
  refine .bind (.adapt (PassM.agree_loading hfetch) _) fun rows => ?_
  refine .ofExcept_bind fun transients _ => .mapM transients fun t _ => ?_
  exact .bind (plan.agree_map setting source' t) fun _ => .pure _

theorem agree_serve (plan : Plan C) {column : String} (text : String)
    (hcolumn : ∀ e, setting.metadata.entity? plan.key.source = some e → column ∈ e.columnNames)
    {requests : List (KeyedRequest C)} (hrequests : ∀ r ∈ requests, r.key.IsSimple)
    (value : List (Transient × ObjectRef) → KeyedRequest C → Value) :
    let q := (Query.all plan.key.source).filterIn column (Key.distinct (requests.map (·.key)))
    Agree (.pass C good) (do
      PassM.debug text
      let mapped ← materialize setting plan q
      requests.forM fun r => deliver setting r.number r.delivery (value mapped r)) (do
      PassM.debug text
      let mapped ← materialize (setting.on source') plan q
      requests.forM fun r => deliver (setting.on source') r.number r.delivery (value mapped r)) := by
  refine .bind (PassM.agree_record rfl) fun _ => .bind (agree_materialize h plan fun e he f hf => ?_) fun mapped => ?_
  · obtain rfl := Option.some.inj hf
    refine ⟨hcolumn e he, fun k hk => ?_⟩
    obtain ⟨r, hr, rfl⟩ := List.mem_map.mp (Key.mem_distinct.mp hk)
    exact hrequests r hr
  · exact .forM requests fun r _ => agree_deliver setting source' _ _ _

theorem agree_resolveEntity (key : MapperKey) {requests : List (KeyedRequest C)}
    (hrequests : ∀ r ∈ requests, r.key.IsSimple) :
    Agree (.pass C good) (resolveEntity setting key requests)
      (resolveEntity (setting.on source') key requests) := by
  unfold resolveEntity
  refine .bind (agree_beginGroup _ _) fun _ => .ofExcept_bind fun fetcher hfetcher => ?_
  have hcolumn := h.fetchers.entity key fetcher (requireEntity_eq_some hfetcher)
  exact agree_serve h fetcher.plan _ hcolumn hrequests _

theorem agree_resolveReverse (key : ReverseKey) {requests : List (KeyedRequest C)}
    (hrequests : ∀ r ∈ requests, r.key.IsSimple) :
    Agree (.pass C good) (resolveReverse setting key requests)
      (resolveReverse (setting.on source') key requests) := by
  unfold resolveReverse
  refine .bind (agree_beginGroup _ _) fun _ => .ofExcept_bind fun fetcher hfetcher => ?_
  have hcolumn := h.fetchers.reverse key fetcher (requireReverse_eq_some hfetcher)
  exact agree_serve h fetcher.plan _ hcolumn hrequests _

theorem agree_resolveGroups {requests : List (Request C)} (hrequests : ∀ r ∈ requests, r.IsSimple)
    {g : Groups C} (hg : Groups.Of requests g) :
    Agree (.pass C good) (resolveGroups setting g) (resolveGroups (setting.on source') g) := by
  unfold resolveGroups
  refine .bind (.forM _ ?_) fun _ => .bind (.forM _ ?_) fun _ => .forM _ ?_
  · rintro ⟨key, rs⟩ hentry
    exact agree_resolveReverse h key fun r hr => hrequests _ (hg.mem_reverse hentry hr)
  · rintro ⟨key, rs⟩ hentry
    exact agree_resolveEntity h key fun r hr => hrequests _ (hg.mem_entity hentry hr)
  · rintro ⟨id, p, rs⟩ -
    exact .bind (agree_beginGroup _ _) fun _ => agree_resolveBatch setting source' p rs

/-! ## Waves -/

theorem agree_runWave {requests : List (Request C)} (hrequests : ∀ r ∈ requests, r.IsSimple)
    (hooks : List (PendingHook C)) :
    Agree (.pass C good) (runWave setting requests hooks) (runWave (setting.on source') requests hooks) := by
  unfold runWave
  refine .bind (agree_beginWave setting source') fun wave => .bind (PassM.agree_record rfl) fun _ => ?_
  refine .bind (agree_resolveGroups h hrequests (Groups.of_ofList requests)) fun _ => ?_
  exact .forM hooks fun hook _ => agree_runHook setting source' hook

omit h in
theorem agree_takeQueued_bind {f g : List (Request C) × List (PendingHook C) → PassM C α}
    (hf : ∀ requests hooks, (∀ r ∈ requests, r.IsSimple) →
      Agree (.pass C good) (f (requests, hooks)) (g (requests, hooks))) :
    Agree (.pass C good) (takeQueued >>= f) (takeQueued >>= g) := by
  rintro s _ ⟨j, rfl⟩ hsound
  exact hf s.requests s.hooks hsound s.taken _ ⟨j, rfl⟩ fun r hr => absurd hr (by simp [PassState.taken])

theorem agree_drain (waves : Nat) :
    Agree (.pass C good) (drain setting waves) (drain (setting.on source') waves) := by
  induction waves with
  | zero =>
    unfold drain
    refine PassM.agree_get_bind (fun _ _ => rfl) fun s => ?_
    split
    · exact .pure _
    · exact .throw _
  | succ waves ih =>
    unfold drain
    refine agree_takeQueued_bind fun requests hooks hrequests => ?_
    dsimp only
    split
    · exact .pure _
    · exact .bind (agree_runWave h hrequests hooks) fun _ => ih

end

namespace Registry

/-- Two runs of a pass do the same if the loads of the first are ones that both sources answer alike. -/
theorem agree_mapping {r : Registry C} {good : LoadRecord → Prop} {source source' : DataSource} {ambient : C}
    (h : (r.setting source ambient).Exchanging good source') {q : Query}
    (hfilter : ∀ e, r.metadata.entity? q.entity = some e → e.Filters q.filter) (destination : String) :
    Agree (.pass C good) (r.mapping q destination source ambient) (r.mapping q destination source' ambient) := by
  unfold mapping
  refine .ofExcept_bind fun registration _ => ?_
  unfold mapBy
  refine .bind (agree_materialize h registration.plan hfilter) fun roots => ?_
  refine .bind (agree_drain h _) fun _ => PassM.agree_get_bind (fun _ _ => rfl) fun s => ?_
  exact .bind (PassM.agree_record rfl) fun _ => .pure _

end Registry

end EntityMapping
