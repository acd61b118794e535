import EntityMapping.Proofs.Pass.Looking

/-! # Filled objects

A wave makes every delivery that was left to it, so when nothing is left for later, no field waits any more.
-/

namespace EntityMapping

variable {C : Type}

/-! ## Waves -/

theorem Filling.taken {σ : Stage C} {L : Labels} {s : PassState C} (h : Filling σ L [] s) :
    Filling σ L (s.requests.map (·.delivery)) s.taken where
  lt := h.lt
  ge := h.ge
  keeps := h.keeps
  known := h.known
  filled a ha row o ho := by
    have hfilled := h.filled a ha row o ho
    rw [List.nil_append] at hfilled
    exact (List.append_nil _).symm ▸ hfilled
  asked _ hr := by cases hr
  cached := h.cached
  hooks_eq := rfl

theorem of_grouped {κ ρ : Type} [DecidableEq κ] {P : κ → ρ → Prop} {select : Request C → Option (κ × ρ)}
    {d : Dict κ (List ρ)} {requests : List (Request C)} (hd : Grouped d (requests.filterMap select))
    (h : ∀ r ∈ requests, ∀ p, select r = some p → P p.1 p.2) : ∀ e ∈ d.entries, ∀ r ∈ e.2, P e.1 r := by
  intro e he r hr
  obtain ⟨q, hq, heq⟩ := List.mem_filterMap.mp (hd.mem_iff.mpr ⟨e.2, he, hr⟩)
  exact h q hq _ heq

namespace Stage.Tame

variable {σ : Stage C} (h : σ.Tame) {L : Labels} {due : List (Delivery C)} {s : PassState C}
include h

theorem looksUp {processor : Processor C} {r : BatchRequest C} (hasked : Asked σ L (.batch processor r)) :
    processor.LooksUp (σ.tables processor.id) := by
  cases hasked with
  | batch howned hscalar hstyle => exact (h.item_isColumn howned hscalar).keyed _ hstyle

theorem yields_resolveGroups {requests : List (Request C)} (hasked : ∀ r ∈ requests, Asked σ L r)
    (hs : Filling σ L (requests.map (·.delivery)) s) :
    Yields σ L [] (fun _ _ => True) (resolveGroups σ.setting (Groups.ofList requests)) s := by
  have hg := Groups.of_ofList requests
  have hprocessor : ∀ id p, (Groups.ofList requests).batch.get? id = some p →
      ∃ r, .batch p.1 r ∈ requests := fun _ _ => Groups.exists_request
  generalize Groups.ofList requests = g at hg hprocessor ⊢
  have hreverse := of_grouped (P := fun k r => Asked σ L (.reverse k r)) hg.reverse (by
    rintro (_ | _ | _) hr p heq <;> simp_all [Request.reverse?, Prod.ext_iff])
  have hentity := of_grouped (P := fun k r => Asked σ L (.entity k r)) hg.entity (by
    rintro (_ | _ | _) hr p heq <;> simp_all [Request.entity?, Prod.ext_iff])
  have hbatch := of_grouped (P := fun id r => Looks σ L id r) hg.batch (by
    rintro (_ | _ | ⟨processor, r⟩) hr p heq
    · cases heq
    · cases heq
    · obtain rfl := Option.some.inj heq
      exact ⟨processor, rfl, hasked _ hr⟩)
  have hmapped : ∀ e ∈ g.batch.entries, (e.1, e.2.2) ∈ (g.batch.mapValues (·.2)).entries :=
    fun e he => List.mem_map.mpr ⟨e, he, rfl⟩
  have hget : ∀ e ∈ g.batch.entries, g.batch.get? e.1 = some e.2 := by
    intro e he
    have hnodup := hg.batch.nodup
    rw [Dict.keys_mapValues] at hnodup
    exact (Dict.mem_entries_iff hnodup).mp he
  -- Every request is in one of the groups, so what is due is what the groups owe.
  have hdue : Filling σ L
      (g.reverse.entries.flatMap (fun e => e.2.map (·.delivery)) ++
        (g.entity.entries.flatMap (fun e => e.2.map (·.delivery)) ++
          (g.batch.entries.flatMap (fun e => e.2.2.map (·.delivery)) ++ []))) s := by
    refine hs.mono_due fun d hd => ?_
    obtain ⟨r, hr, rfl⟩ := List.mem_map.mp hd
    rw [List.append_nil, List.mem_append, List.mem_append, List.mem_flatMap, List.mem_flatMap,
      List.mem_flatMap]
    cases r with
    | entity mapper r =>
      obtain ⟨rs, hrs, hmem⟩ := hg.entity.mem_iff.mp (List.mem_filterMap.mpr ⟨_, hr, rfl⟩)
      exact Or.inr (Or.inl ⟨_, hrs, List.mem_map_of_mem hmem⟩)
    | reverse fetcher r =>
      obtain ⟨rs, hrs, hmem⟩ := hg.reverse.mem_iff.mp (List.mem_filterMap.mpr ⟨_, hr, rfl⟩)
      exact Or.inl ⟨_, hrs, List.mem_map_of_mem hmem⟩
    | batch processor r =>
      obtain ⟨rs, hrs, hmem⟩ := hg.batch.mem_iff.mp (List.mem_filterMap.mpr ⟨_, hr, rfl⟩)
      obtain ⟨e, he, heq⟩ := List.mem_map.mp hrs
      obtain ⟨-, rfl⟩ := Prod.mk.inj heq
      exact Or.inr (Or.inr ⟨e, he, List.mem_map_of_mem hmem⟩)
  unfold resolveGroups
  refine .bind (.forM _ (fun e he L₁ rest s₁ hle hs₁ => ?_) hdue) fun _ L₁ s₁ hle₁ _ hs₁ => ?_
  · exact h.yields_resolveReverse (hg.reverse.ne_nil he) (fun r hr => (hreverse e he r hr).mono hle) hs₁
  refine .bind (.forM _ (fun e he L₂ rest s₂ hle hs₂ => ?_) hs₁) fun _ L₂ s₂ hle₂ _ hs₂ => ?_
  · exact h.yields_resolveEntity (hg.entity.ne_nil he)
      (fun r hr => (hentity e he r hr).mono (hle₁.trans hle)) hs₂
  refine .forM (fun e : Nat × Processor C × List (BatchRequest C) => e.2.2.map (·.delivery))
    (fun e he L₃ rest s₃ hle hs₃ => ?_) hs₂
  obtain ⟨r, hr⟩ := hprocessor _ _ (hget e he)
  obtain ⟨id, p, rs⟩ := e
  obtain rfl : p.id = id := hg.processor _ _ (hget _ he)
  exact h.yields_resolveBatch (h.looksUp (hasked _ hr))
    (fun r hr => (hbatch _ (hmapped _ he) r hr).mono (hle₁.trans (hle₂.trans hle))) hs₃

theorem yields_beginWave (hs : Filling σ L due s) :
    Yields σ L due (fun _ _ => True) (beginWave σ.setting) s := by
  have hlimit : σ.setting.config.waveLimit = none := by
    change σ.registry.config.waveLimit = none
    rw [h.registry.config_eq]
    exact h.registry.unlimited
  unfold beginWave
  simp only [hlimit]
  exact .of_eq rfl trivial (hs.of_eq rfl rfl rfl rfl)

theorem yields_runWave (hs : Filling σ L [] s) :
    Yields σ L [] (fun _ _ => True) (runWave σ.setting s.requests s.hooks) s.taken := by
  unfold runWave
  refine .bind (h.yields_beginWave hs.taken) fun wave L₁ s₁ hle₁ _ hs₁ => ?_
  refine .bind (.record _ hs₁) fun _ L₂ s₂ hle₂ _ hs₂ => ?_
  refine .bind (h.yields_resolveGroups (fun r hr => ?_) hs₂)
    fun _ L₃ s₃ hle₃ _ hs₃ => ?_
  · exact (hs.asked r hr).mono (hle₁.trans hle₂)
  · rw [hs.hooks_eq]
    exact .pure trivial hs₃

/-- When nothing is queued any more, every field shows its item, unless some item could not do its work. -/
theorem of_drained {s' : PassState C} {result : Except Error Unit}
    (hdrained : Drained σ.setting s result s') (hs : Filling σ L [] s) :
    either (fun _ s' => s'.requests = [] ∧ ∃ L' : Labels, L.Le L' ∧ Filling σ L' [] s')
      (fun _ _ => ¬ σ.Feasible) result s' := by
  -- The labels grow from wave to wave, and the first wave that fails tells that the pass is not feasible.
  induction hdrained generalizing L with
  | @idle s hidle =>
    unfold PassState.Busy at hidle
    rw [not_or, not_not] at hidle
    exact ⟨hidle.1, L, Labels.Le.refl L, hs⟩
  | failed _ hrun =>
    have hwave := h.yields_runWave hs
    unfold Yields After at hwave
    rw [hrun] at hwave
    exact hwave
  | @wave _ _ _ result _ hrun _ ih =>
    have hwave := h.yields_runWave hs
    unfold Yields After at hwave
    rw [hrun] at hwave
    obtain ⟨L₁, hle₁, -, hs₁⟩ := hwave
    have hrest := ih hs₁
    cases result with
    | error e => exact hrest
    | ok _ =>
      obtain ⟨hrequests, L', hle, hs'⟩ := hrest
      exact ⟨hrequests, L', hle₁.trans hle, hs'⟩

end Stage.Tame

end EntityMapping
