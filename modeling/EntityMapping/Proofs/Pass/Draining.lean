import EntityMapping.Proofs.Pass.Waves

/-! # Draining

The loop of waves ends without its bound: a wave maps only rows of mappers that were asked for, so what
it queues asks for mappers that are lower in the order of needs, and the lowest ask for none.
-/

namespace EntityMapping

variable {C : Type}

/-- The state after everything was taken out of the queues. -/
def PassState.taken (s : PassState C) : PassState C := { s with requests := [], hooks := [] }

def PassState.Busy (s : PassState C) : Prop := s.requests ≠ [] ∨ s.hooks ≠ []

/-- Waves until nothing is queued, or an error. -/
inductive Drained (setting : Setting C) : PassState C → Except Error Unit → PassState C → Prop
  | idle {s : PassState C} : ¬ s.Busy → Drained setting s (.ok ()) s
  | failed {s s' : PassState C} {e : Error} : s.Busy →
    (runWave setting s.requests s.hooks).run.run s.taken = (.error e, s') →
    Drained setting s (.error e) s'
  | wave {s s₁ s' : PassState C} {r : Except Error Unit} : s.Busy →
    (runWave setting s.requests s.hooks).run.run s.taken = (.ok (), s₁) →
    Drained setting s₁ r s' → Drained setting s r s'

theorem not_busy_iff {s : PassState C} :
    (s.requests.isEmpty && s.hooks.isEmpty) = true ↔ ¬ s.Busy := by
  simp [PassState.Busy]

theorem taken_of_not_busy {s : PassState C} (h : ¬ s.Busy) : s.taken = s := by
  simp only [PassState.Busy, not_or, not_not] at h
  unfold PassState.taken
  rw [← h.1, ← h.2]

theorem takeQueued_iff {s : PassState C}
    {Q : Except Error (List (Request C) × List (PendingHook C)) → PassState C → Prop} :
    After takeQueued s Q ↔ Q (.ok (s.requests, s.hooks)) s.taken := Iff.rfl

/-! ## The loop -/

section

variable {setting : Setting C} {s : PassState C}

theorem drain_zero : After (drain setting 0) s fun _ s' => s' = s := by
  rw [drain, After.bind_iff, After.get_iff, either_ok]
  split <;> rfl

theorem drain_idle (h : ¬ s.Busy) (waves : Nat) : (drain setting waves).run.run s = (.ok (), s) := by
  change After (drain setting waves) s fun result s' => (result, s') = _
  cases waves with
  | zero =>
    unfold drain
    rw [After.bind_iff, After.get_iff, either_ok, if_pos (not_busy_iff.mpr h), After.pure_iff]
  | succ waves =>
    unfold drain
    rw [After.bind_iff, takeQueued_iff, either_ok]
    dsimp only
    rw [if_pos (not_busy_iff.mpr h), After.pure_iff, taken_of_not_busy h]

theorem drain_busy (h : s.Busy) (waves : Nat) :
    (drain setting (waves + 1)).run.run s =
      (runWave setting s.requests s.hooks >>= fun _ => drain setting waves).run.run s.taken := by
  change After (drain setting (waves + 1)) s fun result s' => (result, s') = _
  rw [drain, After.bind_iff, takeQueued_iff, either_ok]
  dsimp only
  rw [if_neg (mt not_busy_iff.mp (not_not.mpr h))]
  rfl

/-- The loop keeps what every wave keeps. It ends because nothing is queued, by the error of a wave, or at its
bound. -/
theorem drain_keeps {I : PassState C → Prop} {E : Error → PassState C → Prop}
    (hwave : ∀ s, I s → After (runWave setting s.requests s.hooks) s.taken (either (fun _ s' => I s') E))
    (hbound : ∀ s, I s → E (.waveLimitExceeded s.stats.waves) s) (waves : Nat) (h : I s) :
    After (drain setting waves) s (either (fun _ s' => I s' ∧ ¬ s'.Busy) E) := by
  induction waves generalizing s with
  | zero =>
    unfold drain
    rw [After.bind_iff, After.get_iff, either_ok]
    split
    · rename_i hidle
      exact ⟨h, not_busy_iff.mp hidle⟩
    · exact hbound s h
  | succ waves ih =>
    unfold After
    by_cases hbusy : s.Busy
    · rw [drain_busy hbusy]
      exact After.bind (hwave s h) (fun _ s' hs' => ih hs') fun _ _ he => he
    · rw [drain_idle hbusy]
      exact ⟨h, hbusy⟩

end

/-! ## Ranks -/

/-- What is fetched for a mapper leaves nothing for later but rows of mappers of a lower rank. -/
structure Ranked (setting : Setting C) (rank : MapperKey → Nat) : Prop where
  pos : ∀ key, 0 < rank key
  entity : ∀ key fetcher, setting.fetchers.entity.get? key = some fetcher →
    fetcher.plan.Within fun target => rank target < rank key
  reverse : ∀ key fetcher, setting.fetchers.reverse.get? key = some fetcher →
    fetcher.plan.Within fun target => rank target < rank key.mapper

/-- The queued requests ask for mappers of lower ranks, and below the lowest rank nothing is queued. -/
structure Below (rank : MapperKey → Nat) (n : Nat) (s : PassState C) : Prop where
  lt : ∀ r ∈ s.requests, ∀ key, r.target? = some key → rank key < n
  idle : n = 0 → ¬ s.Busy

mutual

theorem Plan.Within.mono {T T' : MapperKey → Prop} (h : ∀ key, T key → T' key) :
    ∀ {plan : Plan C}, plan.Within T → plan.Within T'
  | .mk _ _, hplan => ItemsWithin.mono h hplan

theorem ItemsWithin.mono {T T' : MapperKey → Prop} (h : ∀ key, T key → T' key) :
    ∀ {items : List (Assignment C × Route C)}, ItemsWithin T items → ItemsWithin T' items
  | [], _ => trivial
  | (_, _) :: _, hitems => ⟨Route.Within.mono h hitems.1, ItemsWithin.mono h hitems.2⟩

theorem Route.Within.mono {T T' : MapperKey → Prop} (h : ∀ key, T key → T' key) :
    ∀ {route : Route C}, route.Within T → route.Within T'
  | .fetchOne _ _ _, hroute => h _ hroute
  | .fetchBack _ _ _, hroute => h _ hroute
  | .embed _ _, hroute => Plan.Within.mono h hroute
  | .embedEach _ _, hroute => Plan.Within.mono h hroute
  | .copy _, _ => trivial
  | .batch _ _, _ => trivial

end

theorem Request.target?_of_group {r : Request C} {key : MapperKey} :
    (r.group = .entity key ∨ ∃ fetcher, r.group = .reverse fetcher ∧ fetcher.mapper = key) ↔
      r.target? = some key := by
  cases r <;> simp [Request.group, Request.target?]

theorem Ranked.fetchesWithin {setting : Setting C} {rank : MapperKey → Nat} (h : Ranked setting rank)
    {n : Nat} {requests : List (Request C)}
    (hlt : ∀ r ∈ requests, ∀ key, r.target? = some key → rank key < n + 1) :
    FetchesWithin setting (fun key => rank key < n) requests where
  entity key hkey fetcher hget := by
    obtain ⟨r, hr, hgroup⟩ := List.mem_map.mp hkey
    have hrank := hlt r hr key (Request.target?_of_group.mp (Or.inl hgroup))
    exact (h.entity key fetcher hget).mono fun target htarget => by omega
  reverse key hkey fetcher hget := by
    obtain ⟨r, hr, hgroup⟩ := List.mem_map.mp hkey
    have hrank := hlt r hr key.mapper (Request.target?_of_group.mp (Or.inr ⟨key, hgroup, rfl⟩))
    exact (h.reverse key fetcher hget).mono fun target htarget => by omega

theorem ResolvedGroups.nothing {T : MapperKey → Prop} {requests : List (Request C)}
    {blocks : List (Block C)} {s s' : PassState C}
    (h : ResolvedGroups T (Groups.ofList requests).listed blocks s s')
    (hnone : ∀ r ∈ requests, r.target? = none) : ∀ b ∈ blocks, b.new = [] ∧ b.hooks = [] := by
  intro b hb
  have hgroup : b.group ∈ (Groups.ofList requests).listed.map (·.1) := by
    rw [← h.groups_eq, List.map_map]
    exact List.mem_map_of_mem (f := fun b : Block C => b.group) hb
  obtain ⟨r, hr, hrgroup⟩ := List.mem_map.mp ((Groups.of_ofList requests).mem_groups.mp hgroup)
  have hexact := h.exact b hb
  unfold Block.Exact at hexact
  split at hexact
  · exact hexact.2
  · rename_i hbatch
    have hr := hnone r hr
    cases r with
    | batch processor r => exact absurd hrgroup.symm (hbatch _)
    | reverse | entity => cases hr

/-- Every wave lowers the ranks of what is asked for. -/
theorem after_wave_below {setting : Setting C} {rank : MapperKey → Nat} (hrank : Ranked setting rank)
    {n : Nat} {s : PassState C} (h : Below rank (n + 1) s) :
    After (runWave setting s.requests s.hooks) s.taken (either
      (fun _ s' => Below rank n s' ∧ s'.stats.waves = s.stats.waves + 1)
      fun _ s' => s'.stats.waves = s.stats.waves + 1) := by
  refine (after_runWave (hrank.fetchesWithin h.lt) s.hooks s.taken).imp ?_ ?_
  · rintro _ s' ⟨blocks, s₁, hopened, hblocks⟩
    have haccount := hblocks.account_eq
    rw [hopened] at haccount
    have hrequests : s'.requests = blocks.flatMap (·.new) := congrArg Account.requests haccount
    have hhooks : s'.hooks = blocks.flatMap (·.hooks) := congrArg Account.hooks haccount
    refine ⟨⟨?_, ?_⟩, congrArg Account.waves haccount⟩
    · intro r hr
      rw [hrequests] at hr
      obtain ⟨b, hb, hr⟩ := List.mem_flatMap.mp hr
      exact hblocks.targets b hb r hr
    -- With no rank left nothing asks for rows, so the wave queues nothing.
    · rintro rfl
      have hnone : ∀ r ∈ s.requests, r.target? = none := by
        intro r hr
        rw [Option.eq_none_iff_forall_ne_some]
        intro key hkey
        have := h.lt r hr key hkey
        have := hrank.pos key
        omega
      have hnothing := hblocks.nothing hnone
      simp only [PassState.Busy, not_or, not_not, hrequests, hhooks]
      exact ⟨List.flatMap_eq_nil_iff.mpr fun b hb => (hnothing b hb).1,
        List.flatMap_eq_nil_iff.mpr fun b hb => (hnothing b hb).2⟩
  · rintro e s' ⟨s₁, hwaves, -, hfailed, -⟩
    exact hfailed.trans hwaves

/-- With as many waves as there are ranks, the loop does not run into its bound. -/
theorem after_drain {setting : Setting C} {rank : MapperKey → Nat} (hrank : Ranked setting rank)
    {n waves : Nat} (hn : n ≤ waves) {s : PassState C} (h : Below rank n s) :
    After (drain setting waves) s fun r s' =>
      Drained setting s r s' ∧ s'.stats.waves ≤ s.stats.waves + n := by
  -- Each wave takes one rank off, and there are at least as many waves as ranks.
  induction waves generalizing n s with
  | zero =>
    obtain rfl : n = 0 := by omega
    have hidle := h.idle rfl
    unfold drain
    rw [After.bind_iff, After.get_iff, either_ok, if_pos (not_busy_iff.mpr hidle), After.pure_iff]
    exact ⟨.idle hidle, Nat.le_refl _⟩
  | succ waves ih =>
    unfold drain
    rw [After.bind_iff, takeQueued_iff, either_ok]
    dsimp only
    by_cases hbusy : s.Busy
    · rw [if_neg (mt not_busy_iff.mp (not_not.mpr hbusy)), After.bind_iff]
      cases n with
      | zero => exact absurd hbusy (h.idle rfl)
      | succ n =>
        apply (after_wave_below hrank h).keep.mono
        rintro (e | _) s₁ ⟨hrun, hs₁⟩
        · exact ⟨.failed hbusy hrun, by rw [hs₁]; omega⟩
        · rw [either_ok]
          refine (ih (by omega) hs₁.1).mono ?_
          rintro r s' ⟨hdrained, hwaves⟩
          exact ⟨.wave hbusy hrun hdrained, by have := hs₁.2; omega⟩
    · rw [if_pos (not_busy_iff.mpr hbusy), After.pure_iff, taken_of_not_busy hbusy]
      exact ⟨.idle hbusy, by omega⟩

end EntityMapping
