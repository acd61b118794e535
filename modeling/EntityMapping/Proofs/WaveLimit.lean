import EntityMapping.Proofs.Delivery
import EntityMapping.Proofs.Evaluation
import EntityMapping.Proofs.Pass.Settings
import EntityMapping.Proofs.Sharing

/-! # The limit on waves

A limit changes nothing in a pass that does not take more waves. Any other pass is stopped when one wave too many
begins: it has done all that the same pass without a limit does up to there, and nothing of that wave.
-/

namespace EntityMapping

variable {C : Type}

/-! ## Counting waves -/

/-- What a state becomes by a number of waves, one after the other, none of which fails. -/
inductive AfterWaves (setting : Setting C) : (waves : Nat) → PassState C → PassState C → Prop
  | none {s : PassState C} : AfterWaves setting 0 s s
  | next {waves : Nat} {s s₁ s' : PassState C} : s.Busy →
    (runWave setting s.requests s.hooks).run.run s.taken = (.ok (), s₁) → AfterWaves setting waves s₁ s' →
    AfterWaves setting (waves + 1) s s'

/-- The state when a wave is refused: it is counted, and what was queued for it is gone. -/
def PassState.refused (s : PassState C) : PassState C :=
  { s.taken with stats := { s.stats with waves := s.stats.waves + 1 } }

theorem waves_runWave (setting : Setting C) (requests : List (Request C)) (hooks : List (PendingHook C))
    (s : PassState C) :
    After (runWave setting requests hooks) s fun _ s' => s'.stats.waves = s.stats.waves + 1 := by
  apply (after_runWave (fetchesWithin_true setting requests) hooks s).mono
  rintro (e | _) s'
  · rintro ⟨s₁, hwaves, -, hfailed, -⟩
    exact hfailed.trans hwaves
  · rintro ⟨blocks, s₁, hopened, hblocks⟩
    have haccount := hblocks.account_eq
    rw [hopened] at haccount
    exact congrArg Account.waves haccount

/-! ## One wave -/

section

variable {setting : Setting C} {s : PassState C}

theorem beginWave_within (h : ∀ limit, setting.config.waveLimit = some limit → s.stats.waves < limit) :
    (beginWave setting).run.run s = (.ok (s.stats.waves + 1),
      { s with
        stats := { s.stats with waves := s.stats.waves + 1 }
        journal := s.journal.add (.wave (s.stats.waves + 1)) }) := by
  change After (beginWave setting) s fun result s' => (result, s') = _
  apply (beginWave_cases setting s).mono
  rintro (_ | _) _
  · rintro ⟨limit, hlimit, hle, -⟩
    exact absurd (h limit hlimit) (Nat.not_lt_of_le hle)
  · rintro ⟨rfl, -, rfl⟩
    rfl

theorem beginWave_refused {limit : Nat} (hlimit : setting.config.waveLimit = some limit)
    (hle : limit ≤ s.stats.waves) :
    (beginWave setting).run.run s.taken = (.error (.waveLimitExceeded limit), s.refused) := by
  change After (beginWave setting) s.taken fun result s' => (result, s') = _
  apply (beginWave_cases setting s.taken).mono
  rintro (_ | _) _
  · rintro ⟨other, hother, -, rfl, rfl⟩
    rw [Option.some.inj (hlimit.symm.trans hother)]
    rfl
  · rintro ⟨-, hlt, -⟩
    exact absurd (hlt limit hlimit) (Nat.not_lt_of_le hle)

end

theorem waves_le_drain (setting : Setting C) (waves : Nat) (s : PassState C) :
    s.stats.waves ≤ ((drain setting waves).run.run s).2.stats.waves := by
  induction waves generalizing s with
  | zero => rw [show ((drain setting 0).run.run s).2 = s from drain_zero]
  | succ waves ih =>
    by_cases hbusy : s.Busy
    · rw [drain_busy hbusy, After.run_bind]
      have hwave : _ = s.stats.waves + 1 := waves_runWave setting s.requests s.hooks s.taken
      generalize (runWave setting s.requests s.hooks).run.run s.taken = ran at hwave
      obtain ⟨_ | _, s₁⟩ := ran
      · exact Nat.le_of_lt (hwave ▸ Nat.lt_succ_self _)
      · exact Nat.le_trans (Nat.le_of_lt (hwave ▸ Nat.lt_succ_self _)) (ih s₁)
    · rw [drain_idle hbusy]

/-! ## Waves under a limit -/

/-- Two settings of the same work, of which only the second has a limit. -/
structure Setting.Cut (limit : Nat) (free cut : Setting C) : Prop where
  alike : free.Alike cut
  free_eq : free.config.waveLimit = none
  cut_eq : cut.config.waveLimit = some limit

namespace Setting.Cut

variable {limit : Nat} {free cut : Setting C} (h : free.Cut limit cut) {s : PassState C}
include h

theorem runWave_eq (hlt : s.stats.waves < limit) (requests : List (Request C)) (hooks : List (PendingHook C)) :
    (runWave cut requests hooks).run.run s = (runWave free requests hooks).run.run s := by
  have hrunHook : runHook free = runHook cut := funext h.alike.runHook_eq
  have hroom : ∀ other, cut.config.waveLimit = some other → s.stats.waves < other := by
    rintro other hother
    rw [h.cut_eq] at hother
    exact Option.some.inj hother ▸ hlt
  unfold runWave
  rw [After.run_bind, After.run_bind, beginWave_within hroom, beginWave_within (by simp [h.free_eq])]
  simp only [h.alike.resolveGroups_eq, hrunHook]

theorem runWave_refused (hle : limit ≤ s.stats.waves) (requests : List (Request C))
    (hooks : List (PendingHook C)) :
    (runWave cut requests hooks).run.run s.taken = (.error (.waveLimitExceeded limit), s.refused) := by
  unfold runWave
  rw [After.run_bind, beginWave_refused h.cut_eq hle]

/-- The waves are the same as long as the limit is not reached, and where it is, the next one is refused. -/
theorem drain_eq (waves : Nat) (hle : s.stats.waves ≤ limit) :
    let drained := (drain free waves).run.run s
    (drained.2.stats.waves ≤ limit → (drain cut waves).run.run s = drained) ∧
      (limit < drained.2.stats.waves → ∃ n s', s.stats.waves + n = limit ∧ AfterWaves free n s s' ∧ s'.Busy ∧
        (drain cut waves).run.run s = (.error (.waveLimitExceeded limit), s'.refused)) := by
  induction waves generalizing s with
  | zero =>
    have hsame : ((drain free 0).run.run s).2 = s := drain_zero
    intro drained
    exact ⟨fun _ => rfl, fun hlt => absurd (hsame ▸ hlt) (Nat.not_lt_of_le hle)⟩
  | succ waves ih =>
    by_cases hbusy : s.Busy
    swap
    · rw [drain_idle hbusy, drain_idle hbusy]
      exact ⟨fun _ => rfl, fun hlt => absurd hlt (Nat.not_lt_of_le hle)⟩
    rw [drain_busy hbusy, drain_busy hbusy, After.run_bind, After.run_bind]
    have hwave : _ = s.stats.waves + 1 := waves_runWave free s.requests s.hooks s.taken
    rcases Nat.lt_or_eq_of_le hle with hlt | heq
    · rw [h.runWave_eq (s := s.taken) hlt]
      generalize hran : (runWave free s.requests s.hooks).run.run s.taken = ran at hwave
      obtain ⟨_ | _, s₁⟩ := ran
      · exact ⟨fun _ => rfl, fun hgt => absurd (hwave ▸ hgt) (by omega)⟩
      · obtain ⟨hwithin, hbeyond⟩ := ih (s := s₁) (hwave ▸ hlt)
        refine ⟨hwithin, fun hgt => ?_⟩
        obtain ⟨n, s', hn, hafter, hbusy', hcut⟩ := hbeyond hgt
        exact ⟨n + 1, s', by dsimp only at hwave; omega, .next hbusy hran hafter, hbusy', hcut⟩
    · -- The pass without a limit goes on, so its count ends above the limit.
      rw [h.runWave_refused (Nat.le_of_eq heq.symm)]
      refine ⟨fun hwithin => ?_, fun _ => ⟨0, s, heq, .none, hbusy, rfl⟩⟩
      generalize (runWave free s.requests s.hooks).run.run s.taken = ran at hwave hwithin
      obtain ⟨_ | _, s₁⟩ := ran
      · dsimp only at hwave hwithin
        omega
      · have := waves_le_drain free waves s₁
        dsimp only at hwave hwithin
        omega

end Setting.Cut

/-! ## Passes under a limit -/

namespace Registry

theorem waves_materialize (setting : Setting C) (plan : Plan C) (q : Query) (heap : Heap) :
    ((materialize setting plan q).run.run (.initial heap)).2.stats.waves = 0 := by
  obtain ⟨new, hooks, -, -, haccount⟩ :=
    queues_materialize setting plan.within_true q (PassState.initial heap)
  exact congrArg Account.waves haccount

theorem waves_mapBy (r : Registry C) (plan : Plan C) (q : Query) (source : DataSource) (ambient : C)
    {s s₁ : PassState C} {roots : List (Transient × ObjectRef)}
    (hroots : (materialize (r.setting source ambient) plan q).run.run s = (.ok roots, s₁)) :
    ((r.mapBy plan q source ambient).run.run s).2.stats.waves =
      ((drain (r.setting source ambient) r.registrations.length).run.run s₁).2.stats.waves := by
  unfold mapBy
  dsimp only
  rw [After.run_bind, hroots]
  dsimp only
  rw [After.run_bind]
  generalize (drain (r.setting source ambient) r.registrations.length).run.run s₁ = drained
  obtain ⟨_ | _, s₂⟩ := drained <;> rfl

theorem mapBy_limited {r limited : Registry C} {limit : Nat} {source : DataSource} {ambient : C}
    (hcut : (r.setting source ambient).Cut limit (limited.setting source ambient))
    (hlength : limited.registrations.length = r.registrations.length) (plan : Plan C) (q : Query) (heap : Heap) :
    let pass := (r.mapBy plan q source ambient).run.run (.initial heap)
    let cut := (limited.mapBy plan q source ambient).run.run (.initial heap)
    (pass.2.stats.waves ≤ limit → cut = pass) ∧
      (limit < pass.2.stats.waves → ∃ roots s s',
        (materialize (r.setting source ambient) plan q).run.run (.initial heap) = (.ok roots, s) ∧
          AfterWaves (r.setting source ambient) limit s s' ∧ s'.Busy ∧
          cut = (.error (.waveLimitExceeded limit), s'.refused)) := by
  -- The roots are loaded alike under both settings, and take no wave.
  have hzero := waves_materialize (r.setting source ambient) plan q heap
  have hmaterialize := (hcut.alike.materialize_eq plan q).symm
  cases hroots : (materialize (r.setting source ambient) plan q).run.run (.initial heap) with
  | mk result s =>
  rw [hroots] at hzero
  cases result with
  | error e =>
    have hsame : ∀ r' : Registry C,
        (materialize (r'.setting source ambient) plan q).run.run (.initial heap) = (.error e, s) →
          (r'.mapBy plan q source ambient).run.run (.initial heap) = (.error e, s) := by
      rintro r' hfailed
      unfold mapBy
      dsimp only
      rw [After.run_bind, hfailed]
    rw [hsame r hroots, hsame limited (hmaterialize ▸ hroots)]
    exact ⟨fun _ => rfl, fun hlt => absurd (hzero ▸ hlt) (Nat.not_lt_zero _)⟩
  | ok roots =>
    have hwaves := r.waves_mapBy plan q source ambient hroots
    obtain ⟨hwithin, hbeyond⟩ := hcut.drain_eq r.registrations.length (s := s) (hzero ▸ Nat.zero_le _)
    rw [← hwaves] at hwithin hbeyond
    refine ⟨fun hle => ?_, fun hlt => ?_⟩
    · unfold mapBy
      dsimp only
      rw [hmaterialize, After.run_bind, After.run_bind, hroots, hlength]
      dsimp only
      rw [After.run_bind, After.run_bind, hwithin hle]
    · obtain ⟨n, s', hn, hafter, hbusy, hrefused⟩ := hbeyond hlt
      obtain rfl : n = limit := by dsimp only at hzero; omega
      refine ⟨roots, s, s', rfl, hafter, hbusy, ?_⟩
      unfold mapBy
      dsimp only
      rw [hmaterialize, After.run_bind, hroots, hlength]
      dsimp only
      rw [After.run_bind, hrefused]

theorem cut_configured (r : Registry C) (hfree : r.config.waveLimit = none) (config : Config) {limit : Nat}
    (hlimit : config.waveLimit = some limit) (hshares : config.cacheDestinations = r.config.cacheDestinations)
    (source : DataSource) (ambient : C) :
    (r.setting source ambient).Cut limit ((r.configured config).setting source ambient) :=
  ⟨⟨rfl, rfl, rfl, hshares.symm, ⟨fun _ => rfl, fun _ => rfl⟩⟩, hfree, hlimit⟩

/-- A registry that is built with a limit on waves does what the same registry does without one, for as long as no
wave is one too many: results, statistics, loads and whatever else a pass leaves are the same if the pass without a
limit ends within its first waves. Otherwise the pass fails when it is about to begin a wave more. By then it has
mapped the rows of its query and gone through the waves that it may take, and from what is queued for the next one
it has resolved and run nothing. -/
theorem map_stops_at_limit {metadata : Metadata} {config : Config} {declared : List (MapperDeclaration C)}
    {logs : List LogRecord} {r : Registry C}
    (hbuild : ((build metadata { config with waveLimit := none } declared).run.run logs).1 = .ok r)
    (limit : Nat) :
    ∃ limited : Registry C,
      ((build metadata { config with waveLimit := some limit } declared).run.run logs).1 = .ok limited ∧
      ∀ (q : Query) (destination : String) (source : DataSource) (ambient : C) (heap : Heap),
        let pass := r.map q destination source ambient heap
        let cut := limited.map q destination source ambient heap
        (pass.2.stats.waves ≤ limit → cut = pass) ∧
          (limit < pass.2.stats.waves → ∃ registration roots s s',
            r.find? ⟨q.entity, destination⟩ = some registration ∧
            (materialize (r.setting source ambient) registration.plan q).run.run (.initial heap) = (.ok roots, s) ∧
            AfterWaves (r.setting source ambient) limit s s' ∧ s'.Busy ∧
            cut = (.error (.waveLimitExceeded limit), s'.refused)) := by
  have hlimited := ok_configured_of_build hbuild { config with waveLimit := some limit }
  refine ⟨_, hlimited, fun q destination source ambient heap => ?_⟩
  obtain ⟨resolved, hbuilt⟩ := built_of_build hbuild
  have hcut := r.cut_configured (congrArg Config.waveLimit hbuilt.config_eq) { config with waveLimit := some limit }
    rfl (congrArg Config.cacheDestinations hbuilt.config_eq).symm source ambient
  generalize hconfigured : r.configured { config with waveLimit := some limit } = limited at hcut
  have hfind' : limited.find? ⟨q.entity, destination⟩ = r.find? ⟨q.entity, destination⟩ := by
    rw [← hconfigured]
    rfl
  have hlength : limited.registrations.length = r.registrations.length := by
    rw [← hconfigured]
    rfl
  unfold map mapping require
  dsimp only
  rw [After.run_bind, After.run_bind, hfind']
  cases hfind : r.find? ⟨q.entity, destination⟩ with
  | none => exact ⟨fun _ => rfl, fun hlt => absurd hlt (Nat.not_lt_zero _)⟩
  | some registration =>
    obtain ⟨hwithin, hbeyond⟩ := mapBy_limited hcut hlength registration.plan q heap
    refine ⟨hwithin, fun hlt => ?_⟩
    obtain ⟨roots, s, s', hroots, hwaves, hbusy, hcut⟩ := hbeyond hlt
    exact ⟨registration, roots, s, s', rfl, hroots, hwaves, hbusy, hcut⟩

/-- The customers of orders are fetched in a wave, so a pass that may not take any ends there. -/
theorem orders_stop_at_limit : ∃ (r limited : Registry Unit) (s' : PassState Unit),
    ((build Sample.metadata { waveLimit := none } Sample.declared).run.run []).1 = .ok r ∧
      ((build Sample.metadata { waveLimit := some 0 } Sample.declared).run.run []).1 = .ok limited ∧
      limited.map (Query.all "Order") "OrderView" Sample.memory.source () .empty =
        (.error (.waveLimitExceeded 0), s'.refused) := by
  obtain ⟨r, mapped, hbuild, -, hwaves⟩ := Sample.exists_pass
  obtain ⟨limited, hlimited, hpasses⟩ := @map_stops_at_limit Unit Sample.metadata {} Sample.declared [] r hbuild 0
  obtain ⟨-, -, -, s', -, -, -, -, hcut⟩ :=
    (hpasses (Query.all "Order") "OrderView" Sample.memory.source () .empty).2
      (by rw [hwaves]; exact Nat.zero_lt_one)
  exact ⟨r, limited, s', hbuild, hlimited, hcut⟩

end Registry

end EntityMapping
