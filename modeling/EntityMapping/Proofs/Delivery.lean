import EntityMapping.Pass
import EntityMapping.Proofs.Pass.Draining
import EntityMapping.Proofs.Pass.Trace

/-! # Requests and waves

When a pass succeeds, every request that was queued in it was given a value, in the wave after it was
queued, and every wave resolved each group of requests. A processor that leaves out a request makes
the pass fail.
-/

namespace EntityMapping

variable {C : Type}

mutual

theorem Plan.within_true : ∀ plan : Plan C, plan.Within fun _ => True
  | .mk _ items => itemsWithin_true items

theorem itemsWithin_true : ∀ items : List (Assignment C × Route C), ItemsWithin (fun _ => True) items
  | [] => trivial
  | (_, route) :: rest => ⟨route.within_true, itemsWithin_true rest⟩

theorem Route.within_true : ∀ route : Route C, route.Within fun _ => True
  | .fetchOne _ _ _ => trivial
  | .fetchBack _ _ _ => trivial
  | .embed _ plan => plan.within_true
  | .embedEach _ plan => plan.within_true
  | .copy _ => trivial
  | .batch _ _ => trivial

end

theorem fetchesWithin_true (setting : Setting C) (requests : List (Request C)) :
    FetchesWithin setting (fun _ => True) requests where
  entity _ _ fetcher _ := fetcher.plan.within_true
  reverse _ _ fetcher _ := fetcher.plan.within_true

/-- In every group of a processor all requests were served, but for the one whose error this is. -/
def BatchesServed (setting : Setting C) (e : Error) (s : PassState C) : Prop :=
  ∀ resolution ∈ resolutions s.journal.marks, ∀ id, resolution.group = .batch id →
    resolution.delivered.Perm resolution.requests ∨ Unapplied setting id resolution.requests e s

theorem BatchesServed.of_served {setting : Setting C} {e : Error} {s : PassState C}
    (h : ∀ resolution ∈ resolutions s.journal.marks, resolution.delivered.Perm resolution.requests) :
    BatchesServed setting e s := fun resolution hresolution _ _ => Or.inl (h resolution hresolution)

/-! ## Waves -/

theorem after_wave_history {setting : Setting C} {s : PassState C} (h : History s.account) :
    After (runWave setting s.requests s.hooks) s.taken (either
      (fun _ s' => History s'.account) fun e s' => BatchesServed setting e s') := by
  refine (after_runWave (fetchesWithin_true setting s.requests) s.hooks s.taken).imp ?_ ?_
  · rintro _ s' ⟨blocks, s₁, hopened, hblocks⟩
    have hqueued : s₁.queued = s.queued := congrArg Account.queued hopened
    have hnumbered := hblocks.numbered
    rw [hqueued] at hnumbered
    rw [hblocks.account_eq, hopened]
    exact History.wave h hblocks.groups_eq hblocks.exact hnumbered
  · rintro e s' ⟨s₁, -, hmarks, -, blocks, hblocks, hserved⟩
    obtain ⟨front, last, hsettled⟩ := h.settled
    -- Whether the wave was opened or refused makes no difference to resolutions.
    have hbegun : resolutions s₁.account.marks = resolutions s.account.marks := by
      rcases hmarks with hmarks | hmarks
      · rw [hmarks]
        rfl
      · rw [hmarks]
        unfold resolutions
        rw [List.foldl_append]
        rfl
    have hread : resolutions s'.journal.marks =
        (blocks.map (·.resolution)).reverse ++ resolutions s.account.marks := by
      rw [← hbegun]
      change resolutions s'.account.marks = _
      rw [hblocks]
      unfold resolutions
      rw [List.foldl_append, foldl_read_blocks]
    intro resolution hresolution id hid
    rw [hread, List.mem_append, List.mem_reverse] at hresolution
    rcases hresolution with hresolution | hresolution
    · obtain ⟨b, hb, rfl⟩ := List.mem_map.mp hresolution
      exact (hserved b hb id hid).imp_left Block.Exact.perm
    · exact Or.inl (hsettled.served resolution hresolution)

theorem after_drain_history {setting : Setting C} (waves : Nat) {s : PassState C}
    (h : History s.account) :
    After (drain setting waves) s (either
      (fun _ s' => History s'.account ∧ ¬ s'.Busy) fun e s' => BatchesServed setting e s') := by
  refine drain_keeps (I := fun s => History s.account) (fun s hs => after_wave_history hs) (fun s hs => ?_) waves h
  obtain ⟨front, last, hsettled⟩ := hs.settled
  exact BatchesServed.of_served hsettled.served

/-! ## Passes -/

theorem history_materialize (setting : Setting C) (plan : Plan C) (q : Query) (heap : Heap) :
    After (materialize setting plan q) (.initial heap) fun _ s => History s.account := by
  apply (queues_materialize setting plan.within_true q (.initial heap)).mono
  rintro result s ⟨new, hooks, hnumbered, -, haccount⟩
  rw [haccount]
  simpa [Account.adding, PassState.initial, PassState.account, Journal.marks_empty] using
    History.start hnumbered

namespace Registry

theorem after_mapping (r : Registry C) (q : Query) (destination : String) (source : DataSource)
    (ambient : C) (heap : Heap) :
    After (r.mapping q destination source ambient) (.initial heap) (either
      (fun mapped s => History s.account ∧ s.requests = [] ∧
        mapped.stats.waves = s.account.waves ∧ mapped.stats.fetchGroups = s.account.fetchGroups)
      fun e s => BatchesServed (r.setting source ambient) e s) := by
  unfold mapping
  refine After.ofExcept_bind (fun registration _ => ?_) (fun e _ => ?_)
  swap
  · exact BatchesServed.of_served (by simp [PassState.initial, Journal.marks_empty, resolutions])
  unfold mapBy
  dsimp only
  rw [After.bind_iff]
  apply (history_materialize (r.setting source ambient) registration.plan q heap).mono
  intro result s hstart
  cases result with
  | error e =>
    obtain ⟨front, last, hsettled⟩ := hstart.settled
    exact BatchesServed.of_served hsettled.served
  | ok roots =>
    rw [either_ok]
    refine After.bind (after_drain_history _ hstart) ?_ fun _ _ he => he
    rintro _ s₁ ⟨hhistory, hidle⟩
    rw [After.bind_iff, After.get_iff, either_ok]
    refine After.bind (PassM.after_debug _ s₁) ?_ fun _ _ he => he.elim
    intro _ s₂ hs₂
    have hsame : s₂.account = s₁.account := hs₂
    have hrequests : s₂.requests = s₁.requests := congrArg Account.requests hsame
    rw [After.pure_iff]
    refine ⟨hsame ▸ hhistory, ?_, congrArg Account.waves hsame.symm,
      congrArg Account.fetchGroups hsame.symm⟩
    rw [hrequests]
    exact not_not.mp fun hne => hidle (Or.inl hne)

end Registry

end EntityMapping
