import EntityMapping.Proofs.Pass.Groups
import EntityMapping.Proofs.Pass.Resolving

/-! # Waves

A wave resolves the groups of its requests one after the other, and what is queued meanwhile is left.
The hooks at its end queue nothing.
-/

namespace EntityMapping

variable {C : Type}

namespace Account

/-- The account after some groups were resolved. -/
def resolvedAll (a : Account C) (blocks : List (Block C)) : Account C where
  requests := a.requests ++ blocks.flatMap (·.new)
  hooks := a.hooks ++ blocks.flatMap (·.hooks)
  queued := a.queued + (blocks.flatMap (·.new)).length
  waves := a.waves
  fetchGroups := a.fetchGroups + blocks.length
  marks := a.marks ++ blocks.flatMap (·.marks)

theorem resolvedAll_nil (a : Account C) : a.resolvedAll [] = a := by simp [resolvedAll]

theorem resolved_resolvedAll (a : Account C) (b : Block C) (blocks : List (Block C)) :
    (a.resolved b).resolvedAll blocks = a.resolvedAll (b :: blocks) := by
  simp [resolvedAll, resolved, Nat.add_assoc, Nat.add_comm 1]

theorem resolvedAll_resolvedAll (a : Account C) (blocks blocks' : List (Block C)) :
    (a.resolvedAll blocks).resolvedAll blocks' = a.resolvedAll (blocks ++ blocks') := by
  simp [resolvedAll, Nat.add_assoc]

/-- The account when a wave begins. -/
def opened (a : Account C) : Account C := { a with waves := a.waves + 1, marks := a.marks ++ [.wave] }

end Account

/-! ## Groups -/

/-- Some groups were resolved, all requests of each, one group after the other. -/
structure ResolvedGroups (T : MapperKey → Prop) (groups : List (GroupKey × List Nat))
    (blocks : List (Block C)) (s s' : PassState C) : Prop where
  groups_eq : blocks.map (fun b => (b.group, b.requests)) = groups
  exact : ∀ b ∈ blocks, b.Exact
  numbered : Numbered s.queued (blocks.flatMap (·.new))
  targets : ∀ b ∈ blocks, ∀ r ∈ b.new, ∀ key, r.target? = some key → T key
  account_eq : s'.account = s.account.resolvedAll blocks

/-- An error came up. Until then, processors served all of their requests, unless it is the error of one
that did not. -/
def FailedGroups (setting : Setting C) (e : Error) (s s' : PassState C) : Prop :=
  s'.account.waves = s.account.waves ∧ ∃ blocks : List (Block C),
    s'.account.marks = s.account.marks ++ blocks.flatMap (·.marks) ∧
      ∀ b ∈ blocks, ∀ id, b.group = .batch id → b.Exact ∨ Unapplied setting id b.requests e s'

namespace ResolvedGroups

variable {T : MapperKey → Prop} {groups groups' : List (GroupKey × List Nat)}
  {blocks blocks' : List (Block C)} {s s₁ s' : PassState C}

theorem nil (h : Same s s') : ResolvedGroups T [] [] s s' where
  groups_eq := rfl
  exact := by simp
  numbered := rfl
  targets := by simp
  account_eq := h.trans (Account.resolvedAll_nil _).symm

theorem singleton {group : GroupKey} {requests : List Nat} {b : Block C} (hexact : b.Exact)
    (h : ResolvedGroup T group requests b s s') : ResolvedGroups T [(group, requests)] [b] s s' := by
  obtain ⟨rfl, rfl, hnumbered, htargets, haccount⟩ := h
  refine ⟨rfl, by simpa using hexact, by simpa using hnumbered, by simpa using htargets, ?_⟩
  rw [haccount, ← Account.resolved_resolvedAll, Account.resolvedAll_nil]

theorem append (h : ResolvedGroups T groups blocks s s₁) (h' : ResolvedGroups T groups' blocks' s₁ s') :
    ResolvedGroups T (groups ++ groups') (blocks ++ blocks') s s' where
  groups_eq := by rw [List.map_append, h.groups_eq, h'.groups_eq]
  exact b hb := (List.mem_append.mp hb).elim (h.exact b) (h'.exact b)
  numbered := by
    have hqueued : s₁.queued = s.queued + (blocks.flatMap (·.new)).length :=
      congrArg Account.queued h.account_eq
    rw [List.flatMap_append]
    exact h.numbered.append (hqueued ▸ h'.numbered)
  targets b hb := (List.mem_append.mp hb).elim (h.targets b) (h'.targets b)
  account_eq := by rw [h'.account_eq, h.account_eq, Account.resolvedAll_resolvedAll]

theorem failed {setting : Setting C} {e : Error} (h : ResolvedGroups T groups blocks s s₁)
    (h' : FailedGroups setting e s₁ s') : FailedGroups setting e s s' := by
  obtain ⟨hwaves, blocks', hmarks, hblocks'⟩ := h'
  refine ⟨?_, blocks ++ blocks', ?_, ?_⟩
  · rw [hwaves, h.account_eq]
    rfl
  · rw [hmarks, h.account_eq, List.flatMap_append, ← List.append_assoc]
    rfl
  · intro b hb id hid
    rcases List.mem_append.mp hb with hb | hb
    · exact Or.inl (h.exact b hb)
    · exact hblocks' b hb id hid

end ResolvedGroups

theorem FailedGroup.failedGroups {setting : Setting C} {group : GroupKey} {requests : List Nat}
    {e : Error} {s s' : PassState C} (h : FailedGroup setting group requests e s s') :
    FailedGroups setting e s s' := by
  obtain ⟨b, rfl, rfl, haccount, hunapplied⟩ := h
  refine ⟨?_, [b], ?_, ?_⟩
  · rw [haccount]
    rfl
  · rw [haccount]
    simp [Account.resolved]
  · intro b' hb' id hid
    obtain rfl := List.mem_singleton.mp hb'
    exact Or.inr (hunapplied id hid)

theorem after_eachGroup {ι : Type} {T : MapperKey → Prop} {setting : Setting C} (f : ι → PassM C Unit)
    (name : ι → GroupKey × List Nat) (entries : List ι)
    (hstep : ∀ i ∈ entries, ∀ s, After (f i) s (either
      (fun _ s' => ∃ b : Block C, b.Exact ∧ ResolvedGroup T (name i).1 (name i).2 b s s')
      fun e s' => FailedGroup setting (name i).1 (name i).2 e s s')) (s : PassState C) :
    After (entries.forM f) s (either
      (fun _ s' => ∃ blocks, ResolvedGroups T (entries.map name) blocks s s')
      fun e s' => FailedGroups setting e s s') := by
  have hloop := After.forM (f := f) (s := s) (E := fun e s' => FailedGroups setting e s s')
    (I := fun rest s' => ∃ front blocks, front ++ rest = entries ∧
      ResolvedGroups T (front.map name) blocks s s') entries ?_
    ⟨[], [], rfl, ResolvedGroups.nil (Std.Refl.refl s)⟩
  · refine hloop.imp ?_ fun _ _ h => h
    rintro _ s' ⟨front, blocks, hfront, hblocks⟩
    rw [List.append_nil] at hfront
    exact ⟨blocks, hfront ▸ hblocks⟩
  · rintro i rest s₁ hi ⟨front, blocks, hfront, hblocks⟩
    refine (hstep i hi s₁).imp ?_ fun e s' h => hblocks.failed h.failedGroups
    rintro _ s' ⟨b, hexact, hb⟩
    refine ⟨front ++ [i], blocks ++ [b], by simpa using hfront, ?_⟩
    rw [List.map_append]
    exact hblocks.append (ResolvedGroups.singleton hexact hb)

/-- What the fetchers of some requests map asks only for rows of some mappers. -/
structure FetchesWithin (setting : Setting C) (T : MapperKey → Prop) (requests : List (Request C)) :
    Prop where
  entity : ∀ key, .entity key ∈ requests.map (·.group) → ∀ fetcher,
    setting.fetchers.entity.get? key = some fetcher → fetcher.plan.Within T
  reverse : ∀ key, .reverse key ∈ requests.map (·.group) → ∀ fetcher,
    setting.fetchers.reverse.get? key = some fetcher → fetcher.plan.Within T

theorem after_resolveGroups {T : MapperKey → Prop} {setting : Setting C} {requests : List (Request C)}
    (hT : FetchesWithin setting T requests) {g : Groups C} (hg : Groups.Of requests g)
    (s : PassState C) :
    After (resolveGroups setting g) s (either
      (fun _ s' => ∃ blocks, ResolvedGroups T g.listed blocks s s')
      fun e s' => FailedGroups setting e s s') := by
  have hlisted : ∀ p ∈ g.listed, p.1 ∈ requests.map (·.group) := fun p hp =>
    hg.mem_groups.mp (List.mem_map_of_mem hp)
  unfold resolveGroups
  -- The three kinds of groups are resolved in turn, and a failure keeps the blocks that came before.
  refine After.bind (after_eachGroup (T := T) _ (fun e => (.reverse e.1, e.2.map (·.number))) _ ?_ s) ?_
    fun _ _ h => h
  · rintro ⟨key, rs⟩ hentry s₁
    refine after_resolveReverse (hT.reverse key (hlisted (.reverse key, rs.map (·.number)) ?_)) rs s₁
    exact List.mem_append_left _ (List.mem_map.mpr ⟨_, hentry, rfl⟩)
  rintro _ s₁ ⟨blocks₁, h₁⟩
  refine After.bind (after_eachGroup (T := T) _ (fun e => (.entity e.1, e.2.map (·.number))) _ ?_ s₁) ?_
    fun _ _ h => h₁.failed h
  · rintro ⟨key, rs⟩ hentry s₂
    refine after_resolveEntity (hT.entity key (hlisted (.entity key, rs.map (·.number)) ?_)) rs s₂
    exact List.mem_append_right _ (List.mem_append_left _ (List.mem_map.mpr ⟨_, hentry, rfl⟩))
  rintro _ s₂ ⟨blocks₂, h₂⟩
  refine (after_eachGroup (T := T) _
    (fun e => (.batch e.1, e.2.2.map (·.number))) _ ?_ s₂).imp ?_ fun _ _ h => h₁.failed (h₂.failed h)
  · rintro ⟨id, p, rs⟩ hentry s₃
    have hnodup := hg.batch.nodup
    rw [Dict.keys_mapValues] at hnodup
    obtain rfl := hg.processor _ _ ((Dict.mem_entries_iff hnodup).mp hentry)
    exact after_resolveBatch setting p rs s₃
  · rintro _ s' ⟨blocks₃, h₃⟩
    exact ⟨_, h₁.append (h₂.append h₃)⟩

/-! ## A wave -/

theorem same_runHook (setting : Setting C) (h : PendingHook C) : Moves Same (runHook setting h) :=
  (PassM.same_record rfl).bind fun _ => PassM.same_perform _

/-- A wave is counted and begins, unless it is one more than the limit allows. -/
theorem beginWave_cases (setting : Setting C) (s : PassState C) :
    After (beginWave setting) s (either
      (fun wave s' => wave = s.stats.waves + 1 ∧
        (∀ limit, setting.config.waveLimit = some limit → s.stats.waves < limit) ∧
        s' = { s with
          stats := { s.stats with waves := s.stats.waves + 1 }
          journal := s.journal.add (.wave (s.stats.waves + 1)) })
      fun e s' => ∃ limit, setting.config.waveLimit = some limit ∧ limit ≤ s.stats.waves ∧
        e = .waveLimitExceeded limit ∧ s' = { s with stats := { s.stats with waves := s.stats.waves + 1 } }) := by
  unfold beginWave
  rw [After.bind_iff, After.get_iff, either_ok]
  dsimp only
  rw [After.bind_iff, After.modify_iff, either_ok]
  cases hlimit : setting.config.waveLimit with
  | none => exact ⟨rfl, by simp, rfl⟩
  | some limit =>
    dsimp only
    split
    · rename_i hlt
      exact ⟨limit, rfl, Nat.le_of_lt_succ hlt, rfl, rfl⟩
    · rename_i hle
      refine ⟨rfl, fun other hother => ?_, rfl⟩
      obtain rfl := Option.some.inj hother
      omega

theorem after_beginWave (setting : Setting C) (s : PassState C) :
    After (beginWave setting) s (either
      (fun _ s' => s'.account = s.account.opened)
      fun _ s' => s'.account = { s.account with waves := s.account.waves + 1 }) := by
  refine (beginWave_cases setting s).imp ?_ ?_
  · rintro _ _ ⟨-, -, rfl⟩
    simp [PassState.account, Account.opened, Journal.marks_add, Entry.mark?]
  · rintro _ _ ⟨limit, -, -, -, rfl⟩
    rfl

/-- How a wave ends. The requests of all its groups were served, or an error came up in between. -/
theorem after_runWave {T : MapperKey → Prop} {setting : Setting C} {requests : List (Request C)}
    (hT : FetchesWithin setting T requests) (hooks : List (PendingHook C)) (s : PassState C) :
    After (runWave setting requests hooks) s (either
      (fun _ s' => ∃ (blocks : List (Block C)) (s₁ : PassState C), s₁.account = s.account.opened ∧
        ResolvedGroups T (Groups.ofList requests).listed blocks s₁ s')
      fun e s' => ∃ s₁ : PassState C, s₁.account.waves = s.account.waves + 1 ∧
        (s₁.account.marks = s.account.marks ∨ s₁.account.marks = s.account.marks ++ [.wave]) ∧
        FailedGroups setting e s₁ s') := by
  unfold runWave
  refine After.bind (after_beginWave setting s) ?_ ?_
  swap
  · rintro e s' hs'
    refine ⟨s', by rw [hs'], Or.inl (by rw [hs']), rfl, [], (List.append_nil _).symm, by simp⟩
  rintro wave s₁ hs₁
  have hopened : s₁.account.waves = s.account.waves + 1 ∧
      (s₁.account.marks = s.account.marks ∨ s₁.account.marks = s.account.marks ++ [.wave]) := by
    rw [hs₁]
    exact ⟨rfl, Or.inr rfl⟩
  dsimp only
  refine After.bind (PassM.after_debug _ s₁) ?_ (fun _ _ h => h.elim)
  intro _ s₂ hs₂
  have hsame : s₂.account = s₁.account := hs₂
  refine After.bind (after_resolveGroups hT (Groups.of_ofList requests) s₂) ?_ ?_
  swap
  · intro e s' hs'
    exact ⟨s₂, hsame ▸ hopened.1, hsame ▸ hopened.2, hs'⟩
  rintro _ s₃ ⟨blocks, hblocks⟩
  apply (Moves.forM (R := Same) hooks (fun h _ => same_runHook setting h) s₃).mono
  rintro (e | _) s' hs'
  · exact ⟨s₂, hsame ▸ hopened.1, hsame ▸ hopened.2,
      hblocks.failed ⟨congrArg Account.waves hs', [], by simpa using congrArg Account.marks hs', by simp⟩⟩
  · refine ⟨blocks, s₂, hsame.trans hs₁, ?_⟩
    simpa using hblocks.append (ResolvedGroups.nil hs')

end EntityMapping
