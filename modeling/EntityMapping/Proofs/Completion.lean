import EntityMapping.Proofs.Heights
import EntityMapping.Proofs.Source.Joining
import EntityMapping.Proofs.Supplying

/-! # Completed registrations

Which mappers and plans a registry holds, and which fetchers, does not depend on the order in which it was built.
Registrations of all declared mappers, in any order in which they can be committed, are those that building
arrives at, and it does arrive there.
-/

open Relation

namespace EntityMapping

variable {C : Type}

/-! ## Declarations in another order -/

theorem Registry.resolveMapper_congr {registered registered' : List MapperKey}
    (h : ∀ key, key ∈ registered ↔ key ∈ registered') (metadata : Metadata) (d : MapperDeclaration C) :
    resolveMapper metadata registered d = resolveMapper metadata registered' d := by
  have hitem : resolveItem (C := C) d.key metadata registered = resolveItem d.key metadata registered' := by
    funext items item
    unfold resolveItem Declaration.resolve Declaration.resolveDestination Declaration.requireMapper
    simp only [h]
  unfold resolveMapper
  rw [hitem]

theorem Resolves.perm {metadata : Metadata} {declared declared' : List (MapperDeclaration C)}
    {mappers : List (Mapper C)} (h : Resolves metadata declared mappers) (hperm : declared'.Perm declared) :
    ∃ mappers', Resolves metadata declared' mappers' ∧ mappers'.Perm mappers := by
  obtain ⟨mappers', hresolved, hmappers⟩ := List.perm_comp_forall₂ hperm h.resolved
  have hkeys := hperm.map (·.key)
  refine ⟨mappers', ⟨hkeys.symm.nodup h.distinct, fun d hd => h.known d (hperm.subset hd), ?_⟩, hmappers⟩
  refine hresolved.imp fun d m hd => ?_
  rwa [Registry.resolveMapper_congr fun _ => hkeys.mem_iff]

theorem DependsOn.perm {mappers mappers' : List (Mapper C)} (h : mappers'.Perm mappers) {a b : MapperKey}
    (hab : DependsOn mappers' a b) : DependsOn mappers a b := by
  obtain ⟨m, hm, hneeds⟩ := hab
  exact ⟨m, h.subset hm, hneeds⟩

/-! ## Commitment among other mappers -/

theorem Item.choose_congr {i : Item C} {c c' : Commitments C}
    (hregistered : ∀ key, key ∈ c.registered ↔ key ∈ c'.registered)
    (hplans : ∀ key, i.dependency? = some key → c.plans.get? key = c'.plans.get? key) (owner : MapperKey)
    (metadata : Metadata) : i.choose owner metadata c = i.choose owner metadata c' := by
  unfold choose
  split
  · rfl
  · rfl
  · rename_i dependency hdependency _
    unfold mappedRoute Commitments.requirePlan
    simp only [hregistered, hplans dependency hdependency]

theorem Mapper.commit_congr {m : Mapper C} {c c' : Commitments C}
    (hregistered : ∀ key, key ∈ c.registered ↔ key ∈ c'.registered)
    (hnew : c.plans.contains m.key = c'.plans.contains m.key)
    (hplans : ∀ i ∈ m.items, ∀ key, i.dependency? = some key → c.plans.get? key = c'.plans.get? key)
    (metadata : Metadata) : m.commit metadata c = m.commit metadata c' := by
  have hadd : ∀ i ∈ m.items, ∀ l, Layout.addItem m.key metadata c l i = Layout.addItem m.key metadata c' l i := by
    intro i hi l
    unfold Layout.addItem
    rw [Item.choose_congr hregistered (hplans i hi)]
  unfold commit
  simp only [hnew, foldlM_congr hadd]

namespace Committed

variable {metadata : Metadata} {registered registered' : List MapperKey} {registrations front : List (Registration C)}

theorem congr (h : Committed metadata registered registrations)
    (hregistered : ∀ key, key ∈ registered ↔ key ∈ registered') :
    Committed metadata registered' registrations := by
  induction h with
  | nil => exact .nil
  | @concat front m plan _ hcommit ih =>
    refine ih.concat ?_
    have hsame : m.commit metadata ⟨registered, plansOf front⟩ = m.commit metadata ⟨registered', plansOf front⟩ := by
      apply Mapper.commit_congr
      · exact hregistered
      · rfl
      · exact fun _ _ _ _ => rfl
    exact hsame ▸ hcommit

theorem get?_of_subset (h : Committed metadata registered registrations)
    (hfront : Committed metadata registered' front) (hsubset : front ⊆ registrations) {key : MapperKey}
    (hkey : key ∈ front.map (·.mapper.key)) :
    (plansOf front).get? key = (plansOf registrations).get? key := by
  obtain ⟨a, ha, rfl⟩ := List.mem_map.mp hkey
  rw [hfront.get?_plansOf.mpr ⟨a, ha, rfl, rfl⟩, h.get?_plansOf.mpr ⟨a, hsubset ha, rfl, rfl⟩]

theorem get?_of_perm (h : Committed metadata registered registrations)
    (hfront : Committed metadata registered' front) (hperm : front.Perm registrations) (key : MapperKey) :
    (plansOf front).get? key = (plansOf registrations).get? key := by
  refine Option.ext fun plan => ?_
  rw [hfront.get?_plansOf, h.get?_plansOf]
  simp only [hperm.mem_iff]

end Committed

/-! ## Back along relations -/

theorem Metadata.known_of_entityAlong {metadata : Metadata} {e declaring : Entity} {path : List String}
    (he : ∃ name, metadata.entity? name = some e) (h : metadata.entityAlong e path = .ok declaring) :
    ∃ name, metadata.entity? name = some declaring := by
  induction path generalizing e with
  | nil => exact Except.ok.inj h ▸ he
  | cons segment rest ih =>
    unfold entityAlong at h
    obtain ⟨relation, -, hbound⟩ := bind_eq_ok.mp h
    obtain ⟨next, hnext, hrest⟩ := bind_eq_ok.mp hbound
    exact ih ⟨_, requireEntity_eq_ok.mp hnext⟩ hrest

namespace Item

variable {metadata : Metadata} {i : Item C} {owner : MapperKey} {c : Commitments C} {choice : Choice C}
  {path : List String} {relation : Relation} {key : ReverseKey}

theorem fetchRoute_of_back (h : i.choose owner metadata c = .ok choice)
    (hroute : choice.route = .fetchBack path relation key) :
    ∃ dependency, i.fetchRoute owner dependency metadata = .ok choice := by
  cases chooses_of_choose h with
  | batch | copy => cases hroute
  | fetch _ _ _ hfetch => exact ⟨_, hfetch⟩
  | @embed dependency plan =>
    have hembedded := (embedded?_embedRoute i plan).2
    rw [hroute] at hembedded
    cases hembedded

theorem navigation_of_back (hnamed : metadata.Named) (h : i.choose owner metadata c = .ok choice)
    (hroute : choice.route = .fetchBack path relation key) :
    metadata.navigation key.entity key.relation = .ok relation := by
  obtain ⟨dependency, hfetch⟩ := fetchRoute_of_back h hroute
  obtain ⟨front, segment, root, declaring, relation', -, hroot, hdeclaring, hrelation, hfetches, -⟩ :=
    fetchRoute_eq_ok hfetch
  rw [hroute] at hfetches
  cases hfetches
  obtain ⟨name, hname⟩ := Metadata.known_of_entityAlong ⟨_, hroot⟩ hdeclaring
  have hsegment : relation.name = segment := by simpa using List.find?_some hrelation
  rw [Metadata.navigation_eq_ok]
  exact ⟨declaring, hnamed name declaring hname ▸ hname, hsegment ▸ hrelation⟩

end Item

theorem Committed.consistent {metadata : Metadata} (hnamed : metadata.Named) {registered : List MapperKey}
    {registrations : List (Registration C)} (h : Committed metadata registered registrations) :
    Consistent (routesOf registrations) := by
  have hnavigation : ∀ path relation key, .fetchBack path relation key ∈ routesOf registrations →
      metadata.navigation key.entity key.relation = .ok relation := by
    intro path relation key hroute
    obtain ⟨a, ha, hroute⟩ := List.mem_flatMap.mp hroute
    obtain ⟨⟨assignment, _⟩, hitem, rfl⟩ := List.mem_map.mp hroute
    obtain ⟨front, back, -, -, hcommit⟩ := h.exists_front ha
    obtain ⟨-, entity, foreignKeys, choices, hcommits⟩ := commit_eq_ok hcommit
    obtain ⟨i, -, -, choice, hchoice, hroute⟩ := hcommits.exists_item hitem
    exact Item.navigation_of_back hnamed hchoice hroute
  intro path relation path' relation' key hroute hroute'
  have hsame := (hnavigation _ _ _ hroute).symm.trans (hnavigation _ _ _ hroute')
  exact congrArg Relation.foreignKey (Except.ok.inj hsame)

/-! ## Completed registrations -/

/-- Registrations of all declared mappers, in an order in which they can be committed, whose fetchers can be
made. -/
structure Completes (metadata : Metadata) (declared : List (MapperDeclaration C)) (mappers : List (Mapper C))
    (registrations : List (Registration C)) : Prop where
  resolves : Resolves metadata declared mappers
  acyclic : ∀ key, ¬ TransGen (DependsOn mappers) key key
  all : (registrations.map (·.mapper)).Perm mappers
  committed : Committed metadata (declared.map (·.key)) registrations
  earlier : ∀ front a back, registrations = front ++ a :: back →
    ∀ i ∈ a.mapper.items, ∀ key, i.dependency? = some key → key ∈ front.map (·.mapper.key)
  consistent : Consistent (routesOf registrations)
  suppliable : ∀ route ∈ routesOf registrations, route.Suppliable metadata (plansOf registrations)

namespace Completes

variable {metadata : Metadata} {declared : List (MapperDeclaration C)} {mappers : List (Mapper C)}
  {registrations : List (Registration C)} (h : Completes metadata declared mappers registrations)
include h

/-- It does not matter in which order the mappers are declared. -/
theorem reorder {declared' : List (MapperDeclaration C)} (hperm : declared'.Perm declared) :
    ∃ mappers', Completes metadata declared' mappers' registrations := by
  obtain ⟨mappers', hresolves, hmappers⟩ := h.resolves.perm hperm
  refine ⟨mappers', hresolves, fun key hcycle => ?_, h.all.trans hmappers.symm, ?_, h.earlier, h.consistent,
    h.suppliable⟩
  · exact h.acyclic key (TransGen.mono (fun _ _ hab => hab.perm hmappers) key key hcycle)
  · exact h.committed.congr fun _ => (hperm.map (·.key)).symm.mem_iff

/-- A mapper gets the same plan whichever other mappers were committed before, as long as those that it needs
were. -/
theorem commit_eq {a : Registration C} (ha : a ∈ registrations) {front : List (Registration C)}
    (hfront : Committed metadata (declared.map (·.key)) front) (hsubset : front ⊆ registrations)
    (hnew : a.mapper.key ∉ front.map (·.mapper.key))
    (hneeds : ∀ i ∈ a.mapper.items, ∀ key, i.dependency? = some key → key ∈ front.map (·.mapper.key)) :
    a.mapper.commit metadata ⟨declared.map (·.key), plansOf front⟩ = .ok a.plan := by
  obtain ⟨before, back, hsplit⟩ := List.append_of_mem ha
  have hbefore : Committed metadata (declared.map (·.key)) before := (hsplit ▸ h.committed).front
  have hcommit := (hsplit ▸ h.committed).commit_eq
  rw [← hcommit]
  apply Mapper.commit_congr
  · exact fun _ => Iff.rfl
  · rw [(commit_eq_ok hcommit).1, ← Bool.not_eq_true, contains_plansOf]
    exact hnew
  · intro i hi key hkey
    rw [h.committed.get?_of_subset hfront hsubset (hneeds i hi key hkey),
      h.committed.get?_of_subset hbefore (by simp [hsplit]) (h.earlier before a back hsplit i hi key hkey)]

theorem after_commitEach {order : List (Mapper C)} (hmem : ∀ m ∈ order, m ∈ mappers)
    (hnodup : (order.map (·.key)).Nodup)
    (hearlier : ∀ front m back, order = front ++ m :: back →
      ∀ i ∈ m.items, ∀ key, i.dependency? = some key → key ∈ front.map (·.key)) (logs : List LogRecord) :
    After (order.foldlM (Registry.commitNext metadata (declared.map (·.key))) []) logs
      (either (fun committed _ => Committed metadata (declared.map (·.key)) committed ∧
        committed ⊆ registrations ∧ committed.map (·.mapper) = order) fun _ _ => False) := by
  have hloop := After.foldlM (f := Registry.commitNext metadata (declared.map (·.key))) (E := fun _ _ => False)
    (s := logs) (b := [])
    (I := fun rest front _ => Committed metadata (declared.map (·.key)) front ∧ front ⊆ registrations ∧
      front.map (·.mapper) ++ rest = order) order ?_ ⟨Committed.nil, List.nil_subset _, rfl⟩
  · refine hloop.imp ?_ fun _ _ h => h
    rintro committed _ ⟨hcommitted, hsubset, horder⟩
    exact ⟨hcommitted, hsubset, by simpa using horder⟩
  · rintro m rest front s hm ⟨hfront, hsubset, horder⟩
    obtain ⟨a, ha, rfl⟩ := List.mem_map.mp (h.all.mem_iff.mpr (hmem m hm))
    have hkeys : front.map (·.mapper.key) = (front.map (·.mapper)).map (·.key) := by simp
    have hnew : a.mapper.key ∉ front.map (·.mapper.key) := by
      intro hcontained
      rw [hkeys] at hcontained
      rw [← horder, List.map_append, List.nodup_append] at hnodup
      exact hnodup.2.2 _ hcontained a.mapper.key (by simp) rfl
    -- All that it needs was committed before, so its commitment is that of `registrations`.
    have hcommit := h.commit_eq ha hfront hsubset hnew fun i hi key hkey =>
      hkeys ▸ hearlier _ _ rest horder.symm i hi key hkey
    unfold Registry.commitNext
    refine After.bind (P := fun _ _ => True) (E := fun _ _ => False) trivial (fun _ s' _ => ?_) (by simp)
    refine After.ofExcept_bind (fun plan hplan => ?_) fun e he => ?_
    · obtain rfl : plan = a.plan := Except.ok.inj (hplan.symm.trans hcommit)
      refine ⟨hfront.concat hplan, ?_, by simpa using horder⟩
      exact List.append_subset.mpr ⟨hsubset, by simpa using ha⟩
    · cases he.symm.trans hcommit

/-- Committing all mappers arrives at the registrations, in some order. -/
theorem after_commitAll (logs : List LogRecord) :
    After (Registry.commitAll metadata declared) logs (either (fun c _ => c.keys = declared.map (·.key) ∧
      Committed metadata (declared.map (·.key)) c.registrations ∧ c.registrations.Perm registrations)
      fun _ _ => False) := by
  obtain ⟨keys, hkeys, hmappers⟩ := resolves_iff.mp h.resolves
  unfold Registry.commitAll
  rw [hkeys]
  refine After.ok_bind ?_
  rw [hmappers]
  refine After.ok_bind ?_
  obtain ⟨rfl, -⟩ := Registry.declaredKeys_eq_ok.mp hkeys
  dsimp only
  unfold Registry.refuseCycle
  rw [h.resolves.findCycle_eq_none_iff.mpr h.acyclic]
  refine After.ok_bind ?_
  have hgraph := h.resolves.acyclic h.acyclic
  refine After.bind (Registry.after_commitOrder hgraph h.resolves.distinct logs) ?_ fun _ _ h => h
  rintro order _ ⟨hperm, hsorted, rfl⟩
  have harranged : (Registry.arrange mappers order).map (·.key) = order := h.resolves.keys_arrange hperm.subset
  have hnodup : ((Registry.arrange mappers order).map (·.key)).Nodup :=
    harranged.symm ▸ hperm.symm.nodup h.resolves.distinct
  refine After.bind (h.after_commitEach (fun _ hm => Resolves.mem_of_mem_arrange order hm) hnodup
    (fun _ _ _ hsplit _ hi _ hkey => h.resolves.mem_front hgraph hperm hsorted hsplit hi hkey) _) ?_ fun _ _ h => h
  rintro committed logs₁ ⟨hcommitted, hsubset, horder⟩
  -- As many mappers were committed as there are registrations, so none is left out.
  refine ⟨rfl, hcommitted, (hcommitted.nodup.of_map.subperm hsubset).perm_of_length_le (Nat.le_of_eq ?_)⟩
  calc registrations.length = mappers.length := by rw [← h.all.length_eq, List.length_map]
    _ = order.length := by rw [hperm.length_eq, ← h.resolves.keys_eq, List.length_map]
    _ = (committed.map (·.mapper)).length := by rw [← harranged, List.length_map, horder]
    _ = committed.length := by rw [List.length_map]

/-- Building arrives at the registrations and at the fetchers that their routes need, in some order. -/
theorem after_build (config : Config) (logs : List LogRecord) :
    After (Registry.build metadata config declared) logs (either (fun r _ => r.metadata = metadata ∧
      r.config = config ∧ r.registrations.Perm registrations ∧
      r.fetchers.Meet metadata (plansOf registrations) (routesOf registrations)) fun _ _ => False) := by
  unfold Registry.build
  refine After.bind (h.after_commitAll logs) ?_ fun _ _ h => h
  rintro ⟨keys, order, committed⟩ logs₁ ⟨hkeys, hcommitted, hall⟩
  obtain rfl : keys = declared.map (·.key) := hkeys
  have hplans := h.committed.get?_of_perm hcommitted hall
  have hroutes : ∀ route, route ∈ routesOf committed ↔ route ∈ routesOf registrations := fun route =>
    (hall.flatMap_right _).mem_iff
  have hconsistent := h.consistent.of_subset fun route hroute => (hroutes route).mp hroute
  have hsuppliable : ∀ route ∈ routesOf committed, route.Suppliable metadata (plansOf committed) := fun route hroute =>
    (h.suppliable route ((hroutes route).mp hroute)).congr fun key => (hplans key).symm
  refine After.bind (Fetchers.meet_demandEach hconsistent hsuppliable _ logs₁) ?_ fun _ _ h => h
  exact fun fetchers logs₂ hmeet => ⟨rfl, rfl, hall, hmeet.congr hplans hroutes⟩

end Completes

end EntityMapping
