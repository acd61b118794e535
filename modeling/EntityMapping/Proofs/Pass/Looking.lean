import EntityMapping.Proofs.Pass.Serving

/-! # Looking keys up

A processor with a table gives every request the value that the table has for its key, so a column ends up
with what it takes of the value for its cell.
-/

namespace EntityMapping

variable {C : Type}

/-! ## Scripts -/

theorem after_runScript_attempt {α : Type} (setting : Setting C) {n : Nat} (x : Action α)
    (next : Except Error α → Script n) (pending : List (BatchRequest C)) (h : pending.length = n)
    {s : PassState C} {Q : Except Error Nat → PassState C → Prop} :
    After (runScript setting (Script.attempt x next) pending h) s Q ↔
      After (runScript setting (next (x.run s.heap).result) pending h)
        { s with
          heap := (x.run s.heap).heap
          journal := s.journal.addNotes (x.run s.heap).notes } Q := by
  induction x generalizing s with
  | done a => rfl
  | fail e => rfl
  | inspect more ih =>
    change After (PassM.perform (.inspect .done) >>= fun heap => runScript setting
      (Script.attempt (more heap) next) pending h) s Q ↔ _
    rw [After.bind_iff]
    exact ih s.heap
  | set o field v more ih =>
    change After (PassM.perform (.setField o field v) >>= fun _ => runScript setting
      (Script.attempt more next) pending h) s Q ↔ _
    rw [After.bind_iff]
    exact ih
  | create typeName fields more ih =>
    change After (PassM.perform (.create typeName fields .done) >>= fun o => runScript setting
      (Script.attempt (more o) next) pending h) s Q ↔ _
    rw [After.bind_iff]
    exact ih _
  | note entry more ih =>
    change After (PassM.record (.note entry) >>= fun _ => runScript setting
      (Script.attempt more next) pending h) s Q ↔ _
    rw [After.bind_iff]
    exact ih

namespace Batch

variable {keys : List Value} {cell : Value} {k : Key}

theorem keysOf_of_asKey? (hk : cell.asKey? = some k) : k ∈ keysOf cell := by
  unfold keysOf
  split
  · cases hk
  · rw [hk]
    exact List.mem_singleton_self k

theorem mem_distinctKeys (hcell : cell ∈ keys) (hk : cell.asKey? = some k) : k ∈ distinctKeys keys := by
  unfold distinctKeys Key.distinct
  rw [mem_foldl_new]
  exact Or.inr (List.mem_flatMap.mpr ⟨cell, hcell, keysOf_of_asKey? hk⟩)

theorem resolved_of_asKey? (found : List (Key × Value)) (hk : cell.asKey? = some k) :
    resolved found cell = (Dict.lookup k found).getD .null := by
  unfold resolved
  split
  · cases hk
  · unfold lookUp
    rw [hk]

end Batch

/-! ## Requests -/

/-- A request that was queued for a processor with a number. -/
def Looks (σ : Stage C) (L : Labels) (id : Nat) (r : BatchRequest C) : Prop :=
  ∃ p : Processor C, p.id = id ∧ Asked σ L (.batch p r)

theorem Looks.mono {σ : Stage C} {L L' : Labels} {id : Nat} {r : BatchRequest C} (h : Looks σ L id r)
    (hle : L.Le L') : Looks σ L' id r := h.imp fun _ hp => ⟨hp.1, hp.2.mono hle⟩

theorem Looks.exists_key {σ : Stage C} {L : Labels} {id : Nat} {r : BatchRequest C} (h : Looks σ L id r) :
    ∃ k, r.key.asKey? = some k := by
  obtain ⟨p, -, hasked⟩ := h
  cases hasked with
  | batch _ _ _ hk => exact ⟨_, hk⟩

namespace Stage.Tame

variable {σ : Stage C} (h : σ.Tame) {L : Labels} {due : List (Delivery C)} {s : PassState C} {id : Nat}
include h

theorem yields_deliverFound {r : BatchRequest C} (hlooks : Looks σ L id r) {k : Key}
    (hk : r.key.asKey? = some k) (hs : Filling σ L (r.delivery :: due) s) :
    Yields σ L due (fun _ _ => True)
      (deliver σ.setting r.number r.delivery ((σ.tables id k).getD .null)) s := by
  obtain ⟨p, rfl, hasked⟩ := hlooks
  cases hasked with
  | @batch a i row o _ number k' howned hscalar hstyle hk' hfetchable =>
    obtain rfl := Option.some.inj (hk.symm.trans hk')
    unfold deliver
    refine .bind (.record _ hs) fun _ L' s' hle _ hs' => ?_
    rw [Delivery.chosen_of_takesAll rfl]
    refine h.yields_settle hs' (howned.mono hle) hscalar ?_
    exact Item.value?_of_key hstyle (isNull_of_asKey? hk) (fetchKey_eq_ok.mpr ⟨hk, hfetchable⟩)

theorem yields_applyAll {value : Value → Value} {requests : List (BatchRequest C)}
    (hlooks : ∀ r ∈ requests, Looks σ L id r)
    (hvalue : ∀ r ∈ requests, ∀ k, r.key.asKey? = some k → value r.key = (σ.tables id k).getD .null)
    (hlength : requests.length = (requests.map (·.key)).length)
    (hs : Filling σ L (requests.map (·.delivery) ++ due) s) :
    Yields σ L due (fun _ left => left = 0)
      (runScript σ.setting (Script.applyAll value (requests.map (·.key))) requests hlength) s := by
  induction requests generalizing L s with
  | nil => exact .pure rfl hs
  | cons r requests ih =>
    obtain ⟨k, hk⟩ := (hlooks r List.mem_cons_self).exists_key
    have hdelivered := h.yields_deliverFound (hlooks r List.mem_cons_self) hk hs
    rw [← hvalue r List.mem_cons_self k hk] at hdelivered
    change Yields σ L due _ (runScript σ.setting (.applying 0 (value r.key) _) (r :: requests) hlength) s
    unfold Script.applying runScript Yields
    rw [After.bind_iff, PassM.attempt_iff]
    refine After.mono hdelivered ?_
    rintro (e | _) s₁ hran
    · exact hran
    · obtain ⟨L₁, hle, -, hs₁⟩ := hran
      refine Yields.of_le hle (ih (fun r' hr' => (hlooks r' (List.mem_cons_of_mem _ hr')).mono hle)
        (fun r' hr' => hvalue r' (List.mem_cons_of_mem _ hr')) _ hs₁)

theorem yields_resolveBatch {p : Processor C} (hp : p.LooksUp (σ.tables p.id))
    {requests : List (BatchRequest C)} (hlooks : ∀ r ∈ requests, Looks σ L p.id r)
    (hs : Filling σ L (requests.map (·.delivery) ++ due) s) :
    Yields σ L due (fun _ _ => True) (do
      beginGroup (.batch p.id) (requests.map (·.number))
      resolveBatch σ.setting p requests) s := by
  obtain ⟨load, heq, hload⟩ := hp
  obtain ⟨found, hpure, hfound, hlookup⟩ :=
    hload (Batch.distinctKeys (requests.map (·.key))) σ.setting.ambient
  obtain ⟨notes, hrun⟩ := hpure.run_eq
  refine .bind (.beginGroup _ _ hs) fun _ L₁ s₁ hle₁ _ hs₁ => ?_
  have hran : Yields σ L₁ due (fun _ left => left = 0)
      (runScript σ.setting (p.process (requests.map (·.key)) σ.setting.ambient) requests
        (length_keys requests)) s₁ := by
    rw [show p.process (requests.map (·.key)) σ.setting.ambient = _ from
      congrArg (fun q : Processor C => q.process (requests.map (·.key)) σ.setting.ambient) heq]
    refine .bind (.record _ hs₁) fun _ L₂ s₂ hle₂ _ hs₂ => ?_
    unfold Yields Script.performing
    rw [after_runScript_attempt, hrun, hfound]
    refine h.yields_applyAll (fun r hr => (hlooks r hr).mono (hle₁.trans hle₂)) (fun r hr k hk => ?_) _
      (hs₂.of_eq rfl rfl rfl rfl)
    rw [Batch.resolved_of_asKey? found hk, hlookup k (Batch.mem_distinctKeys (List.mem_map_of_mem hr) hk)]
  unfold resolveBatch
  refine .bind hran fun left L₂ s₂ hle₂ hleft hs₂ => ?_
  rw [if_pos hleft]
  exact .pure trivial hs₂

end Stage.Tame

end EntityMapping
