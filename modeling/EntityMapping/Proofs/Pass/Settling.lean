import EntityMapping.Proofs.Delivery
import EntityMapping.Proofs.Pass.Destinations

/-! # Settling

Waves keep the laws of the journal. A wave takes over all that waits: it gives every request its value, and
only then lets the hooks run.
-/

namespace EntityMapping

variable {C α β : Type} {metadata : Metadata} {config : Config} {declared : List (MapperDeclaration C)}
  {resolved : List (Mapper C)} {r : Registry C} {source : DataSource} {ambient : C} {base : Nat}
  {hooks : List (PendingHook C)} {due : List (ObjectRef × String)} {s s' : PassState C}

/-! ## Giving values -/

/-- All destinations are completed, and the laws are kept. -/
structure Resting (r : Registry C) (base : Nat) (hooks : List (PendingHook C))
    (due : List (ObjectRef × String)) (s : PassState C) : Prop extends Orderly r base hooks due s where
  finished : Finished (fun _ => True) s.entries

/-- Work that takes values at hand, and keeps the laws even if it fails. -/
def Works (r : Registry C) (base : Nat) (hooks : List (PendingHook C)) (due due' : List (ObjectRef × String))
    (x : PassM C α) : Prop :=
  ∀ s, Resting r base hooks due s → After x s fun result s' =>
    Kept r base hooks s' ∧ ∀ v, result = .ok v → Resting r base hooks due' s' ∧ s.entries <+: s'.entries

theorem Resting.quiet (h : Resting r base hooks due s) (hq : s.Quiet s') : Resting r base hooks due s' :=
  ⟨h.toOrderly.quiet hq, h.finished.grown (Grown.quiet 0 hq)⟩

theorem Resting.note (h : Resting r base hooks due s) {e : Entry} (hplain : e.IsPlain)
    (hdestination : e.destination? = none) (hassigned : ∀ o field, e ≠ .assigned o field)
    (hlaw : Law r base s.entries e) (hentries : s'.entries = s.entries ++ [e]) (hheap : s'.heap = s.heap)
    (hcache : s'.cache = s.cache) (hhooks : s'.hooks = s.hooks) (hrequests : s'.requests = s.requests) :
    Resting r base hooks due s' := by
  refine ⟨h.along ⟨hentries, hheap ▸ .refl _, hcache, hhooks⟩
    (fun _ he => List.mem_singleton.mp he ▸ hplain) (hentries ▸ h.lawful.concat hlaw) hrequests ?_, ?_⟩
  · exact fun p _ hmem => hassigned _ _ (List.mem_singleton.mp hmem).symm
  · rw [hentries]
    refine h.finished.append fun d hd => ?_
    rw [show destinationsIn [e] = [] by simp [destinationsIn, hdestination]] at hd
    cases hd

namespace Works

variable {due' due'' : List (ObjectRef × String)}

theorem pure (v : α) : Works r base hooks due due (pure v : PassM C α) :=
  fun _ hs => ⟨hs.toKept, fun _ _ => ⟨hs, List.prefix_rfl⟩⟩

theorem throw (e : Error) : Works r base hooks due due' (throw e : PassM C α) :=
  fun _ hs => ⟨hs.toKept, fun _ h => by cases h⟩

theorem bind {x : PassM C α} {f : α → PassM C β} (hx : Works r base hooks due due' x)
    (hf : ∀ v, Works r base hooks due' due'' (f v)) : Works r base hooks due due'' (x >>= f) := by
  intro s hs
  rw [After.bind_iff]
  apply (hx s hs).mono
  rintro (e | v) s₁ ⟨hkept, hresting⟩
  · exact ⟨hkept, fun _ h => by cases h⟩
  obtain ⟨hs₁, hle⟩ := hresting v rfl
  rw [either_ok]
  apply (hf v s₁ hs₁).mono
  exact fun result s₂ ⟨hkept₂, hresting₂⟩ =>
    ⟨hkept₂, fun w hw => ⟨(hresting₂ w hw).1, hle.trans (hresting₂ w hw).2⟩⟩

theorem subperm {x : PassM C α} (h : Works r base hooks due' due'' x) (hdue : due'.Subperm due) :
    Works r base hooks due due'' x := fun s hs => h s ⟨hs.toOrderly.subperm hdue, hs.finished⟩

theorem of_quiet {x : PassM C α} (h : Moves PassState.Quiet x) : Works r base hooks due due x :=
  fun s hs => (h s).mono fun _ _ hq =>
    ⟨hs.toKept.quiet hq, fun _ _ => ⟨hs.quiet hq, (Grown.quiet 0 hq).prefix_entries⟩⟩

theorem ofExcept_bind {result : Except Error α} {f : α → PassM C β}
    (hf : ∀ v, result = .ok v → Works r base hooks due due' (f v)) :
    Works r base hooks due due' (ofExcept result >>= f) := by
  cases result with
  | ok v => exact hf v rfl
  | error e => exact throw e

theorem of_grows {T : MapperKey → Prop} {x : PassM C α} (h : Grows r base hooks T x) :
    Works r base hooks due due x := by
  intro s hs
  apply (h due s hs.toOrderly (hs.finished.mono fun _ _ => trivial)).mono
  exact fun result s' ⟨hs', hgrown⟩ => ⟨hs'.toKept, fun v hv =>
    ⟨⟨hs', hs.finished.grown (hgrown v hv)⟩, (hgrown v hv).prefix_entries⟩⟩

theorem forM {ι : Type} {f : ι → PassM C PUnit} (places : ι → List (ObjectRef × String)) (l : List ι)
    (h : ∀ i ∈ l, ∀ due, Works r base hooks (places i ++ due) due (f i)) (due : List (ObjectRef × String)) :
    Works r base hooks (l.flatMap places ++ due) due (l.forM f) := by
  induction l with
  | nil => exact pure _
  | cons i l ih =>
    rw [List.flatMap_cons, List.append_assoc]
    exact bind (h i (by simp) _) fun _ => ih fun j hj => h j (List.mem_cons_of_mem _ hj)

end Works

theorem after_deliverOne (setting : Setting C) (number : Nat) (d : Delivery C) (v : Value)
    (hs : Resting r base hooks (d.place :: due) s) :
    After (deliver setting number d v) s fun _ s' =>
      Resting r base hooks due s' ∧ s.entries <+: s'.entries := by
  unfold deliver
  rw [After.bind_iff, PassM.record_iff, either_ok]
  have hnoted : Resting r base hooks (d.place :: due)
      { s with journal := s.journal.add (.delivered number v) } :=
    hs.note (e := .delivered number v) trivial rfl (by simp) hs.calm (Journal.toList_add _ _) rfl rfl rfl rfl
  have hle : s.entries <+: { s with journal := s.journal.add (.delivered number v) }.entries :=
    ⟨_, (Journal.toList_add _ _).symm⟩
  split
  · apply (after_assign setting d.assignment _ d.object hnoted.toOrderly).mono
    exact fun _ s' ⟨hs', hwrote⟩ =>
      ⟨⟨hs', hnoted.finished.grown hwrote.grown⟩, hle.trans hwrote.grown.prefix_entries⟩
  · exact ⟨⟨hnoted.toOrderly.drop, hnoted.finished⟩, hle⟩

theorem works_deliver (setting : Setting C) (number : Nat) (d : Delivery C) (v : Value) :
    Works r base hooks (d.place :: due) due (deliver setting number d v) := by
  intro s hs
  apply (after_deliverOne setting number d v hs).mono
  exact fun _ s' hs' => ⟨hs'.1.toKept, fun _ _ => hs'⟩

theorem works_deliverEach (setting : Setting C) (value : KeyedRequest C → Value)
    (requests : List (KeyedRequest C)) : Works r base hooks (requests.map (·.delivery.place) ++ due) due
      (requests.forM fun q => deliver setting q.number q.delivery (value q)) := by
  rw [← List.flatMap_singleton' (requests.map _), List.flatMap_map]
  exact .forM _ requests (fun q _ due => works_deliver setting q.number q.delivery (value q)) due

theorem works_runScript (setting : Setting C) {n : Nat} (script : Script n)
    (pending : List (BatchRequest C)) (hlength : pending.length = n) :
    Works r base hooks (pending.map (·.delivery.place) ++ due) due
      (runScript setting script pending hlength) := by
  induction script generalizing pending with
  | finish => exact (Works.pure _).subperm (List.sublist_append_right _ _).subperm
  | fail e => exact .throw e
  | inspect next ih => exact .bind (.of_quiet (PassM.quiet_perform _)) fun heap => ih heap pending _
  | set o field v next ih => exact .bind (.of_quiet (PassM.quiet_perform _)) fun _ => ih pending _
  | create typeName fields next ih => exact .bind (.of_quiet (PassM.quiet_perform _)) fun o => ih o pending _
  | note entry next ih => exact .bind (.of_quiet (PassM.quiet_note _)) fun _ => ih pending _
  | apply i v next ih =>
    intro s hs
    unfold runScript
    dsimp only
    rw [After.bind_iff, PassM.attempt_iff]
    have hi : i.val < pending.length := by omega
    -- The place of the request that is applied is taken out of those that wait.
    have herase : (pending.map (·.delivery.place) ++ due).Perm
        (pending[i.val].delivery.place :: ((pending.eraseIdx i.val).map (·.delivery.place) ++ due)) := by
      have := ((List.getElem_cons_eraseIdx_perm hi).map (·.delivery.place)).symm
      simpa using this.append_right due
    apply (after_deliverOne setting _ _ v ⟨hs.toOrderly.subperm herase.symm.subperm, hs.finished⟩).mono
    rintro result s₁ ⟨hs₁, hle⟩
    rw [either_ok]
    apply (ih result _ _ s₁ hs₁).mono
    exact fun result s₂ ⟨hkept₂, hresting₂⟩ =>
      ⟨hkept₂, fun w hw => ⟨(hresting₂ w hw).1, hle.trans (hresting₂ w hw).2⟩⟩

/-! ## Resolving -/

/-- Where the values of the groups' requests go, group by group. -/
def Groups.places (g : Groups C) : List (ObjectRef × String) :=
  (g.reverse.entries.flatMap fun e => e.2.map (·.delivery.place)) ++
    ((g.entity.entries.flatMap fun e => e.2.map (·.delivery.place)) ++
      g.batch.entries.flatMap fun e => e.2.2.map (·.delivery.place))

theorem perm_kinds (requests : List (Request C)) :
    (((requests.filterMap Request.reverse?).map (·.2)).map (·.delivery.place) ++
      (((requests.filterMap Request.entity?).map (·.2)).map (·.delivery.place) ++
        ((requests.filterMap Request.batch?).map (·.2)).map (·.delivery.place))).Perm
      (requests.map (·.delivery.place)) := by
  induction requests with
  | nil => exact .refl _
  | cons q requests ih =>
    cases q with
    | reverse fetcher q => exact ih.cons _
    | entity mapper q => exact List.perm_middle.trans (ih.cons _)
    | batch processor q =>
      rw [← List.append_assoc] at ih ⊢
      exact List.perm_middle.trans (ih.cons _)

theorem Groups.Of.perm_places {requests : List (Request C)} {g : Groups C} (h : Groups.Of requests g) :
    g.places.Perm (requests.map (·.delivery.place)) := by
  refine List.Perm.trans ?_ (perm_kinds requests)
  unfold Groups.places
  have hbatch := h.batch.perm.map (·.delivery.place)
  unfold Dict.mapValues at hbatch
  rw [List.flatMap_map] at hbatch
  simp only [← List.map_flatMap]
  exact (h.reverse.perm.map _).append ((h.entity.perm.map _).append hbatch)

theorem works_beginGroup (group : GroupKey) (numbers : List Nat) :
    Works r base hooks due due (beginGroup group numbers) := by
  intro s hs
  unfold beginGroup
  rw [After.bind_iff, After.modify_iff, either_ok, PassM.record_iff]
  have hnoted : Resting r base hooks due { s with
      stats := { s.stats with fetchGroups := s.stats.fetchGroups + 1 }
      journal := s.journal.add (.resolving group numbers) } :=
    hs.note (e := .resolving group numbers) trivial rfl (by simp) hs.calm (Journal.toList_add _ _) rfl rfl rfl
      rfl
  exact ⟨hnoted.toKept, fun _ _ => ⟨hnoted, _, (Journal.toList_add _ _).symm⟩⟩

namespace Registry.Built

variable (h : Built metadata config declared resolved r)
include h

theorem grows_materialize {a : Registration C} (ha : a ∈ r.registrations) (q : Query) :
    Grows r base hooks (fun _ => True) (materialize (r.setting source ambient) a.plan q) := by
  unfold materialize
  dsimp only
  refine .bind (.of_quiet fun s => ?_) fun rows => .bind (.ofExcept _) fun transients => ?_
  · exact After.adapt_iff.mpr (PassM.quiet_loading (quiet_fetch _ _ _) s)
  · refine .mapM _ fun t _ => .bind ?_ fun _ => .pure _
    exact (h.growsBy ha t).mono fun _ _ => trivial

theorem works_serve {a : Registration C} (ha : a ∈ r.registrations) {plan : Plan C} (hplan : a.plan = plan)
    (text : String) (q : Query)
    (value : List (Transient × ObjectRef) → KeyedRequest C → Value) (requests : List (KeyedRequest C)) :
    Works r base hooks (requests.map (·.delivery.place) ++ due) due (do
      PassM.debug text
      let mapped ← materialize (r.setting source ambient) plan q
      requests.forM fun q => deliver (r.setting source ambient) q.number q.delivery (value mapped q)) :=
  .bind (.of_quiet (PassM.quiet_note _)) fun _ =>
    .bind (.of_grows (hplan ▸ h.grows_materialize ha q)) fun _ => works_deliverEach _ _ requests

theorem works_resolveReverse (key : ReverseKey) (requests : List (KeyedRequest C)) :
    Works r base hooks (requests.map (·.delivery.place) ++ due) due
      (resolveReverse (r.setting source ambient) key requests) := by
  unfold resolveReverse
  refine .bind (works_beginGroup _ _) fun _ => .ofExcept_bind fun fetcher hfetcher => ?_
  obtain ⟨hplan, -⟩ := h.supplied.reverse key fetcher (requireReverse_eq_some hfetcher)
  obtain ⟨a, ha, -, hplan⟩ := h.committed.get?_plansOf.mp hplan
  unfold ReverseFetcher.resolve
  exact h.works_serve ha hplan _ _ _ requests

theorem works_resolveEntity (key : MapperKey) (requests : List (KeyedRequest C)) :
    Works r base hooks (requests.map (·.delivery.place) ++ due) due
      (resolveEntity (r.setting source ambient) key requests) := by
  unfold resolveEntity
  refine .bind (works_beginGroup _ _) fun _ => .ofExcept_bind fun fetcher hfetcher => ?_
  obtain ⟨hplan, -⟩ := h.supplied.entity key fetcher (requireEntity_eq_some hfetcher)
  obtain ⟨a, ha, -, hplan⟩ := h.committed.get?_plansOf.mp hplan
  unfold EntityFetcher.resolve
  exact h.works_serve ha hplan _ _ _ requests

omit h in
theorem works_resolveBatch (p : Processor C) (requests : List (BatchRequest C)) :
    Works r base hooks (requests.map (·.delivery.place) ++ due) due
      (resolveBatch (r.setting source ambient) p requests) := by
  unfold resolveBatch
  refine .bind (works_runScript _ _ requests _) fun left => ?_
  split
  · exact .pure _
  · exact .throw _

theorem works_resolveGroups (requests : List (Request C)) :
    Works r base hooks (requests.map (·.delivery.place)) []
      (resolveGroups (r.setting source ambient) (Groups.ofList requests)) := by
  have hof := Groups.of_ofList requests
  unfold resolveGroups
  refine Works.subperm ?_ hof.perm_places.subperm
  rw [← List.append_nil (Groups.places _)]
  unfold Groups.places
  rw [List.append_assoc, List.append_assoc]
  refine .bind (.forM _ _ (fun e _ due => h.works_resolveReverse e.1 e.2) _) fun _ => ?_
  refine .bind (.forM _ _ (fun e _ due => h.works_resolveEntity e.1 e.2) _) fun _ => ?_
  refine .forM (fun e : Nat × Processor C × List (BatchRequest C) => e.2.2.map (·.delivery.place)) _
    (fun e _ due => ?_) _
  exact .bind (works_beginGroup _ _) fun _ => works_resolveBatch e.2.1 e.2.2

end Registry.Built

/-! ## Waves -/

/-- Between two waves, hooks may have run, and nothing is at hand. -/
structure Between (r : Registry C) (base : Nat) (hooks : List (PendingHook C)) (s : PassState C) : Prop extends
    Kept r base hooks s where
  nodup : s.places.Nodup
  unassigned : ∀ p ∈ s.places, Unassigned r s.entries p
  finished : Finished (fun _ => True) s.entries

theorem Resting.between (h : Resting r base hooks [] s) : Between r base hooks s :=
  ⟨h.toKept, h.nodup, h.unassigned, h.finished⟩

theorem Between.quiet (h : Between r base hooks s) (hq : s.Quiet s') : Between r base hooks s' := by
  have hkept := h.toKept.quiet hq
  have hfinished := h.finished.grown (Grown.quiet 0 hq)
  obtain ⟨new, ha, hsilent, hrequests⟩ := hq
  have hplaces : s'.places = s.places := by unfold PassState.places; rw [hrequests]
  refine ⟨hkept, hplaces ▸ h.nodup, fun p hp => ?_, hfinished⟩
  rw [ha.entries]
  exact (h.unassigned p (hplaces ▸ hp)).append (not_assigned_of_silent hsilent p.1 p.2)

theorem Between.begin (h : Between r base [] s) {number : Nat} (hentries : s'.entries = s.entries ++ [.wave number])
    (hheap : s'.heap = s.heap) (hcache : s'.cache = s.cache) (hrequests : s'.requests = [])
    (hhooks : s'.hooks = []) : Resting r base s.hooks s.places s' := by
  have hnew : ∀ mapper key o, .allocated mapper key o ∉ [Entry.wave number] := by simp
  have hplaces : s'.places = [] := by unfold PassState.places; rw [hrequests]; rfl
  refine ⟨⟨h.step hnew hentries (hheap ▸ .refl _) hcache (hentries ▸ h.lawful.concat trivial) ?_, ?_, ?_, ?_⟩, ?_⟩
  · obtain ⟨done, hdone, hdestinations, hfollow⟩ := h.follow
    refine ⟨done, ?_, fun p hp => ?_, ?_⟩
    · rw [hentries, completedIn_append, hdone]
      exact List.append_nil _
    · rw [hentries, isDestination_append hnew]
      exact hdestinations p hp
    · rw [hentries, hookedIn_append, hhooks, ← hfollow]
      simp [hookedIn, Entry.hooked?]
  · rw [hplaces, List.append_nil]
    exact h.nodup
  · intro p hp
    rw [hplaces, List.append_nil] at hp
    rw [hentries]
    exact (h.unassigned p hp).append (by simp)
  · rw [hentries]
    exact Calm.wave _ _
  · rw [hentries]
    exact h.finished.append (by simp [destinationsIn, Entry.destination?])

theorem after_runHook (setting : Setting C) {pending : PendingHook C} (hs : Between r base (pending :: hooks) s)
    (hcleared : Cleared pending.object s.entries) :
    After (runHook setting pending) s fun _ s' =>
      Between r base hooks s' ∧ ∃ new, s'.entries = s.entries ++ new := by
  unfold runHook
  rw [After.bind_iff, PassM.record_iff, either_ok]
  generalize hs₁ : ({ s with journal := s.journal.add (.hooked pending.object pending.place) } : PassState C) = s₁
  have hentries : s₁.entries = s.entries ++ [.hooked pending.object pending.place] := by
    rw [← hs₁]
    exact Journal.toList_add _ _
  have hnew : ∀ mapper key o, .allocated mapper key o ∉ [Entry.hooked pending.object pending.place] := by simp
  have hplaces : s₁.places = s.places := by rw [← hs₁]; rfl
  -- The hook that is noted is the first of those that were due.
  have hhooked : Kept r base hooks s₁ := by
    refine hs.step hnew hentries ?_ (by rw [← hs₁]) (hentries ▸ hs.lawful.concat hcleared) ?_
    · rw [← hs₁]
      exact .refl _
    · obtain ⟨done, hdone, hdestinations, hfollow⟩ := hs.follow
      refine ⟨done, ?_, fun p hp => ?_, ?_⟩
      · rw [hentries, completedIn_append, hdone]
        exact List.append_nil _
      · rw [hentries, isDestination_append hnew]
        exact hdestinations p hp
      · rw [hentries, hookedIn_append, ← hfollow, ← hs₁]
        simp [hookedIn, Entry.hooked?, PendingHook.mark]
  have hs₁ : Between r base hooks s₁ := by
    refine ⟨hhooked, hplaces ▸ hs.nodup, fun p hp => ?_, ?_⟩
    · rw [hentries]
      exact (hs.unassigned p (hplaces ▸ hp)).append (by simp)
    · rw [hentries]
      exact hs.finished.append (by simp [destinationsIn, Entry.destination?])
  apply (PassM.quiet_perform (pending.hook pending.object setting.ambient) s₁).mono
  intro _ s₂ hq
  obtain ⟨new, hnew⟩ := (Grown.quiet 0 hq).prefix_entries
  exact ⟨hs₁.quiet hq, .hooked pending.object pending.place :: new, by rw [← hnew, hentries]; simp⟩

/-- In every history, a request was given its value or waits. -/
theorem History.served_or_waiting {a : Account C} (h : History a) :
    ∀ n ∈ (queuedIn a.marks).map (·.1), n ∈ deliveredIn a.marks ∨ n ∈ a.requests.map (·.number) := by
  induction h with
  | start _ =>
    intro n hn
    rw [queuedIn_new, List.map_map] at hn
    exact Or.inr hn
  | @wave a blocks _ hgroups hexact _ ih =>
    intro n hn
    -- The wave delivers what waited, and what it queues waits in turn.
    have hserved := (waveExact_blocks (queuedIn_new a.requests) hgroups hexact).delivered
    have hmarks : (Account.resolvedAll { a with requests := [], hooks := [] }.opened blocks).marks =
        a.marks ++ ([.wave] ++ blocks.flatMap (·.marks)) := by
      simp [Account.resolvedAll, Account.opened]
    rw [hmarks, queuedIn_append, queuedIn_append, List.map_append] at hn
    rw [hmarks, deliveredIn_append, deliveredIn_append]
    rcases List.mem_append.mp hn with hn | hn
    · refine Or.inl ?_
      rcases ih n hn with hn | hn
      · exact List.mem_append_left _ hn
      · refine List.mem_append_right _ (List.mem_append_right _ (hserved.symm.subset ?_))
        rw [queuedIn_new, List.map_map]
        exact hn
    · rw [queuedIn_blocks] at hn
      refine Or.inr ?_
      simpa [Account.resolvedAll, Account.opened, queuedIn] using hn

theorem Between.cleared (h : Between r base [] s) (hhistory : History s.account) {pending : PendingHook C}
    (hpending : pending ∈ s.hooks) {es : List Entry} (hle : s.entries <+: es) {marks : List Mark}
    (hmarks : marksOf es = marksOf s.entries ++ marks)
    (hserved : s.requests.map (·.number) ⊆ deliveredIn marks) : Cleared pending.object es := by
  obtain ⟨done, hdone, -, hfollow⟩ := h.follow
  have hmark : pending.mark ∈ done.flatMap hooksOf := by
    rw [← hfollow]
    exact List.mem_append_right _ (List.mem_map_of_mem (by simpa using hpending))
  obtain ⟨p, hp, hmark⟩ := List.mem_flatMap.mp hmark
  obtain ⟨_, -, heq⟩ := List.mem_map.mp hmark
  -- A hook is queued for an object that was completed.
  have hcompleted : .completed pending.object ∈ s.entries := by
    have hobject : p.2 = pending.object := congrArg Prod.fst heq
    rw [← mem_completedIn, hdone, ← hobject]
    exact List.mem_map_of_mem hp
  obtain ⟨front, rest, hsplit⟩ := List.append_of_mem hcompleted
  obtain ⟨more, rfl⟩ := hle
  refine ⟨front, rest ++ more, by rw [hsplit]; simp, fun number hnumber => ?_⟩
  have hqueued : number ∈ (queuedIn s.account.marks).map (·.1) := by
    change number ∈ (queuedIn (marksOf s.entries)).map (·.1)
    rw [hsplit, marksOf_append, queuedIn_append, List.map_append]
    exact List.mem_append_left _ hnumber
  rw [hmarks, deliveredIn_append]
  rcases hhistory.served_or_waiting number hqueued with hdelivered | hwaits
  · exact List.mem_append_left _ hdelivered
  · exact List.mem_append_right _ (hserved hwaits)

/-- Whatever may be at hand, the laws were kept. -/
def Sound (r : Registry C) (base : Nat) (s : PassState C) : Prop := ∃ hooks, Kept r base hooks s

theorem after_beginWave_entries (r : Registry C) (source : DataSource) (ambient : C) (s : PassState C) :
    After (beginWave (r.setting source ambient)) s (either
      (fun number s' => s'.entries = s.entries ++ [.wave number] ∧ s'.heap = s.heap ∧ s'.cache = s.cache ∧
        s'.requests = s.requests ∧ s'.hooks = s.hooks)
      fun _ s' => s'.entries = s.entries ∧ s'.heap = s.heap ∧ s'.cache = s.cache ∧ s'.hooks = s.hooks) := by
  refine (beginWave_cases (r.setting source ambient) s).imp ?_ ?_
  · rintro _ _ ⟨rfl, -, rfl⟩
    exact ⟨Journal.toList_add _ _, rfl, rfl, rfl, rfl⟩
  · rintro _ _ ⟨limit, -, -, -, rfl⟩
    exact ⟨rfl, rfl, rfl, rfl⟩

/-- A wave settles all that waits: every request is given its value, and then every hook finds its
destination cleared. -/
theorem Registry.Built.after_wave_settles (h : Built metadata config declared resolved r)
    (hs : Between r base [] s) (hhistory : History s.account) :
    After (runWave (r.setting source ambient) s.requests s.hooks) s.taken (either
      (fun _ s' => Between r base [] s') fun _ s' => Sound r base s') := by
  unfold runWave
  have hbegins := (after_beginWave_entries r source ambient s.taken).and
    (after_beginWave (r.setting source ambient) s.taken)
  rw [After.bind_iff]
  apply hbegins.mono
  rintro (e | wave) s₁ ⟨hbegun, hopened⟩
  · obtain ⟨hentries, hheap, hcache, hhooks⟩ := hbegun
    have hentries' : s₁.entries = s.entries ++ [] := hentries.trans (List.append_nil _).symm
    refine ⟨s.hooks, hs.step (by simp) hentries' (hheap ▸ .refl _) hcache (hentries ▸ hs.lawful) ?_⟩
    obtain ⟨done, hdone, hdestinations, hfollow⟩ := hs.follow
    have hsame : s₁.entries = s.entries := hentries
    refine ⟨done, hsame ▸ hdone, hsame ▸ hdestinations, ?_⟩
    rw [hsame, hhooks, ← hfollow]
    simp [PassState.taken]
  obtain ⟨hentries, hheap, hcache, hrequests, hhooks⟩ := hbegun
  have hs₁ := hs.begin hentries hheap hcache hrequests hhooks
  rw [either_ok]
  dsimp only
  rw [After.bind_iff]
  apply ((PassM.quiet_note _ s₁).and (PassM.after_debug _ s₁)).mono
  rintro (e | _) s₂ ⟨hquiet, hsame⟩
  · exact hsame.elim
  have hs₂ := hs₁.quiet hquiet
  have hopened₂ : s₂.account = s.taken.account.opened := (show s₂.account = s₁.account from hsame).trans hopened
  rw [either_ok, After.bind_iff]
  apply ((h.works_resolveGroups s.requests s₂ hs₂).and
    (after_resolveGroups (fetchesWithin_true (r.setting source ambient) s.requests)
      (Groups.of_ofList s.requests) s₂)).mono
  rintro (e | _) s₃ ⟨⟨hkept₃, hresting₃⟩, hresolved⟩
  · exact ⟨s.hooks, hkept₃⟩
  obtain ⟨hresting₃, hle₃⟩ := hresting₃ () rfl
  obtain ⟨blocks, hblocks⟩ := hresolved
  have hcleared : ∀ pending ∈ s.hooks, Cleared pending.object s₃.entries := by
    have hmarks : marksOf s₃.entries = marksOf s.entries ++ ([.wave] ++ blocks.flatMap (·.marks)) := by
      have := congrArg Account.marks hblocks.account_eq
      rw [hopened₂] at this
      exact this.trans (List.append_assoc _ _ _)
    have hle : s.entries <+: s₃.entries := by
      obtain ⟨new, hnew⟩ := hle₃
      obtain ⟨notes, hnotes⟩ := (Grown.quiet 0 hquiet).prefix_entries
      rw [← hnotes, hentries] at hnew
      change s.entries ++ [.wave wave] ++ notes ++ new = s₃.entries at hnew
      exact ⟨[.wave wave] ++ notes ++ new, by rw [← hnew]; simp⟩
    intro pending hpending
    refine hs.cleared hhistory hpending hle hmarks ?_
    rw [deliveredIn_append]
    intro number hnumber
    have hserved := (waveExact_blocks (queuedIn_new s.requests) hblocks.groups_eq hblocks.exact).delivered
    rw [queuedIn_new, List.map_map] at hserved
    exact List.mem_append_right _ (hserved.symm.subset hnumber)
  -- Each hook leaves the others at hand, and their destinations cleared.
  have hloop := After.forM (f := runHook (r.setting source ambient)) (s := s₃)
    (I := fun rest s' => Between r base rest s' ∧ ∀ pending ∈ rest, Cleared pending.object s'.entries)
    (E := fun _ s' => Sound r base s') s.hooks ?_ ⟨hresting₃.between, hcleared⟩
  · exact hloop.imp (fun _ s' hs' => hs'.1) fun _ _ hs' => hs'
  · rintro pending rest s' - ⟨hs', hcleared'⟩
    apply (after_runHook _ hs' (hcleared' pending (by simp))).mono
    rintro (e | _) s'' ⟨hs'', new, hnew⟩
    · exact ⟨rest, hs''.toKept⟩
    · refine ⟨hs'', fun other hother => ?_⟩
      rw [hnew]
      exact (hcleared' other (List.mem_cons_of_mem _ hother)).append new

theorem Registry.Built.after_drain_settles (h : Built metadata config declared resolved r) (waves : Nat)
    (hs : Between r base [] s) (hhistory : History s.account) :
    After (drain (r.setting source ambient) waves) s (either
      (fun _ s' => Between r base [] s' ∧ ¬ s'.Busy) fun _ s' => Sound r base s') := by
  refine (drain_keeps (I := fun s => Between r base [] s ∧ History s.account) (E := fun _ s' => Sound r base s')
    ?_ (fun s hs => ⟨[], hs.1.toKept⟩) waves ⟨hs, hhistory⟩).imp (fun _ _ hs => ⟨hs.1.1, hs.2⟩) fun _ _ hs => hs
  rintro s ⟨hs, hhistory⟩
  apply ((h.after_wave_settles hs hhistory).and (after_wave_history hhistory)).mono
  rintro (e | _) s₁ ⟨hs₁, hhistory₁⟩
  · exact hs₁
  · exact ⟨hs₁, hhistory₁⟩

/-! ## Passes -/

theorem resting_initial (r : Registry C) (heap : Heap) :
    Resting r heap.size [] [] (.initial heap : PassState C) where
  lawful := Obeys.nil
  lt _ hd := by cases hd
  le := Nat.le_refl _
  fields _ _ _ ho := by
    obtain ⟨key, hkey⟩ := ho
    cases hkey
  cached _ mapper key o := by
    simp [PassState.initial, PassState.entries, Journal.toList_empty]
  follow := ⟨[], rfl, by simp, rfl⟩
  nodup := List.nodup_nil
  unassigned _ hp := by cases hp
  calm front o hook rest h := by simp [PassState.initial, PassState.entries] at h
  finished _ _ _ hmem := by cases hmem

/-- The laws hold when a pass ends. If it succeeds, all destinations are completed and nothing waits. -/
theorem Registry.Built.mapping_settles (h : Built metadata config declared resolved r) (q : Query)
    (destination : String) (source : DataSource) (ambient : C) (heap : Heap) :
    After (r.mapping q destination source ambient) (.initial heap) (either
      (fun _ s => Between r heap.size [] s ∧ ¬ s.Busy) fun _ s => Sound r heap.size s) := by
  have hinitial := resting_initial r heap
  unfold mapping
  refine After.ofExcept_bind (fun registration hregistration => ?_) fun e _ => ⟨[], hinitial.toKept⟩
  obtain ⟨hmem, -⟩ := mem_of_find? (require_eq_ok.mp hregistration)
  unfold mapBy
  dsimp only
  have hgrows : Grows r heap.size [] (fun _ => True)
      (materialize (r.setting source ambient) registration.plan q) := h.grows_materialize hmem q
  have hworks := Works.of_grows hgrows (PassState.initial heap) hinitial
  rw [After.bind_iff]
  apply (hworks.and (history_materialize (r.setting source ambient) registration.plan q heap)).mono
  rintro (e | roots) s ⟨⟨hkept, hresting⟩, hhistory⟩
  · exact ⟨[], hkept⟩
  rw [either_ok]
  refine After.bind (h.after_drain_settles _ (hresting roots rfl).1.between hhistory) ?_ fun _ _ hs => hs
  rintro _ s₁ ⟨hs₁, hidle⟩
  rw [After.bind_iff, After.get_iff, either_ok, After.bind_iff]
  apply ((PassM.quiet_note _ s₁).and (PassM.after_debug _ s₁)).mono
  rintro (e | _) s₂ ⟨hquiet, hsame⟩
  · exact hsame.elim
  -- The last line of the log gives the pass nothing more to do.
  have hidle₂ : ¬ s₂.Busy := by
    obtain ⟨new, ha, -, hrequests⟩ := hquiet
    unfold PassState.Busy
    rwa [hrequests, ha.hooks]
  exact ⟨hs₁.quiet hquiet, hidle₂⟩

section

variable (h : Registry.Built metadata config declared resolved r) (q : Query) (destination : String)
  (source : DataSource) (ambient : C) (heap : Heap)
include h

theorem Registry.Built.sound_map : Sound r heap.size (r.map q destination source ambient heap).2 := by
  have hpass := h.mapping_settles q destination source ambient heap
  unfold After at hpass
  change either _ _ (r.map q destination source ambient heap).1 (r.map q destination source ambient heap).2
    at hpass
  cases hresult : (r.map q destination source ambient heap).1 with
  | ok mapped =>
    rw [hresult] at hpass
    exact ⟨[], hpass.1.toKept⟩
  | error e =>
    rw [hresult] at hpass
    exact hpass

theorem Registry.Built.settled_map {mapped : Mapped}
    (hok : (r.map q destination source ambient heap).1 = .ok mapped) :
    Between r heap.size [] (r.map q destination source ambient heap).2 ∧
      ¬ (r.map q destination source ambient heap).2.Busy := by
  have hpass := h.mapping_settles q destination source ambient heap
  unfold After at hpass
  change either _ _ (r.map q destination source ambient heap).1 (r.map q destination source ambient heap).2
    at hpass
  rwa [hok] at hpass

end

end EntityMapping
