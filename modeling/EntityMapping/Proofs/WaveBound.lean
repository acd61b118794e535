import EntityMapping.Pass
import EntityMapping.Proofs.Heights
import EntityMapping.Proofs.Pass.Draining
import Mathlib

/-! # How many waves a pass takes

The height of a mapper is the number of mappers on a longest chain of needs from it. A registry fetches for
a mapper only rows of lower ones, so a pass takes no more waves than the height of its root mapper.

A small registry is evaluated at the end, and it is the first of many. Evaluation takes the equations of texts,
lists and monads from all over the library, so the library is imported as a whole.
-/

open Relation

namespace EntityMapping

variable {C : Type}

/-! ## Plans and heights -/

theorem itemsWithin_of_forall {T : MapperKey → Prop} {items : List (Assignment C × Route C)}
    (h : ∀ a route, (a, route) ∈ items → route.Within T) : ItemsWithin T items := by
  induction items with
  | nil => trivial
  | cons i items ih =>
    refine ⟨h i.1 i.2 (by simp), ih fun a route hmem => h a route ?_⟩
    exact List.mem_cons_of_mem _ hmem

theorem Route.within_of_target {T : MapperKey → Prop} {route : Route C}
    (htarget : ∀ key, route.target? = some key → T key)
    (hembedded : ∀ plan, route.embedded? = some plan → plan.Within T) : route.Within T := by
  cases route with
  | copy | batch => trivial
  | fetchOne path foreignKey target => exact htarget target rfl
  | fetchBack path relation fetcher => exact htarget fetcher.mapper rfl
  | embed source plan => exact hembedded plan rfl
  | embedEach source plan => exact hembedded plan rfl

namespace Registry

namespace Built

variable {metadata : Metadata} {config : Config} {declared : List (MapperDeclaration C)}
  {resolved : List (Mapper C)} {r : Registry C}

/-- A registered plan leaves for later only rows of lower mappers, along with what it embeds. -/
theorem within (h : Built metadata config declared resolved r) {registration : Registration C}
    (hr : registration ∈ r.registrations) :
    registration.plan.Within fun target =>
      Graph.height (DependsOn r.mappers) target <
        Graph.height (DependsOn r.mappers) registration.mapper.key := by
  -- Embedded plans belong to lower mappers, so this goes by the height.
  induction hn : Graph.height (DependsOn r.mappers) registration.mapper.key using
    Nat.strong_induction_on generalizing registration with
  | _ n ih =>
    have hneeds : ∀ i ∈ registration.mapper.items, ∀ key, i.dependency? = some key →
        Graph.height (DependsOn r.mappers) key < n := by
      intro i hi key hkey
      rw [← hn]
      exact h.bounded.height_lt ⟨registration.mapper, List.mem_map_of_mem hr, rfl, i, hi, hkey⟩
    have hitems : ItemsWithin (fun target => Graph.height (DependsOn r.mappers) target < n)
        registration.plan.items := by
      refine itemsWithin_of_forall fun a route hmem => ?_
      obtain ⟨i, hi, -, htarget, hembedded⟩ := h.committed.route hr hmem
      refine Route.within_of_target (fun key hkey => hneeds i hi key (htarget key hkey)) ?_
      intro plan hplan
      obtain ⟨r', hr', hdependency, rfl⟩ := hembedded plan hplan
      have hlower := hneeds i hi _ hdependency
      exact (ih _ hlower hr' rfl).mono fun target htarget => by omega
    generalize registration.plan = plan at hitems
    cases plan
    exact hitems

theorem ranked (h : Built metadata config declared resolved r) (source : DataSource) (ambient : C) :
    Ranked (r.setting source ambient) (Graph.height (DependsOn r.mappers)) where
  pos := h.bounded.height_pos
  entity key fetcher hget := by
    obtain ⟨hplan, -⟩ := h.supplied.entity key fetcher hget
    obtain ⟨registration, hr, hkey, hplan⟩ := h.committed.get?_plansOf.mp hplan
    exact hkey ▸ hplan ▸ h.within hr
  reverse key fetcher hget := by
    obtain ⟨hplan, -⟩ := h.supplied.reverse key fetcher hget
    obtain ⟨registration, hr, hkey, hplan⟩ := h.committed.get?_plansOf.mp hplan
    exact hkey ▸ hplan ▸ h.within hr

end Built

/-! ## Passes -/

theorem below_of_queues {rank : MapperKey → Nat} {n : Nat} (hn : 0 < n) {heap : Heap}
    {s : PassState C} (h : Queues (fun target => rank target < n) (.initial heap) s) :
    Below rank n s ∧ s.stats.waves = 0 := by
  obtain ⟨new, hooks, -, htargets, haccount⟩ := h
  have hrequests : s.requests = new := congrArg Account.requests haccount
  refine ⟨⟨fun r hr => htargets r (hrequests ▸ hr), fun hzero => ?_⟩, congrArg Account.waves haccount⟩
  omega

namespace Built

variable {metadata : Metadata} {config : Config} {declared : List (MapperDeclaration C)}
  {resolved : List (Mapper C)} {r : Registry C} (h : Built metadata config declared resolved r)
  {registration : Registration C} (hr : registration ∈ r.registrations)
include h hr

theorem after_materialize (q : Query) (source : DataSource) (ambient : C) (heap : Heap) :
    After (materialize (r.setting source ambient) registration.plan q) (.initial heap) fun _ s =>
      Below (Graph.height (DependsOn r.mappers))
        (Graph.height (DependsOn r.mappers) registration.mapper.key) s ∧ s.stats.waves = 0 :=
  (queues_materialize _ (h.within hr) q _).mono fun _ _ hs =>
    below_of_queues (h.bounded.height_pos _) hs

theorem after_drain {source : DataSource} {ambient : C} {s : PassState C}
    (hs : Below (Graph.height (DependsOn r.mappers))
      (Graph.height (DependsOn r.mappers) registration.mapper.key) s) :
    After (drain (r.setting source ambient) r.registrations.length) s fun result s' =>
      Drained (r.setting source ambient) s result s' ∧ s'.stats.waves ≤
        s.stats.waves + Graph.height (DependsOn r.mappers) registration.mapper.key := by
  have hlength := h.height_le (List.mem_map_of_mem hr)
  unfold order at hlength
  rw [List.length_map] at hlength
  exact EntityMapping.after_drain (h.ranked source ambient) hlength hs

end Built

/-- A pass takes at most as many waves as there are mappers on a longest chain of needs from its root
mapper, whatever the source answers and the code of the declarations does. Its loop of waves goes on until
nothing is queued or there is an error, and never stops for lack of waves. -/
theorem waves_le_longest_chain {metadata : Metadata} {config : Config}
    {declared : List (MapperDeclaration C)} {logs : List LogRecord} {r : Registry C}
    (hbuild : ((build metadata config declared).run.run logs).1 = .ok r) (q : Query)
    (destination : String) (hroot : ⟨q.entity, destination⟩ ∈ r.order) (source : DataSource)
    (ambient : C) (heap : Heap) :
    ∃ chain : List MapperKey,
      Graph.LongestFrom (DependsOn r.mappers) ⟨q.entity, destination⟩ chain ∧
      chain.length ≤ r.registrations.length ∧
      (r.map q destination source ambient heap).2.stats.waves ≤ chain.length ∧
      ∀ registration roots s, r.find? ⟨q.entity, destination⟩ = some registration →
        (materialize (r.setting source ambient) registration.plan q).run.run (.initial heap) =
          (.ok roots, s) →
        let drained := (drain (r.setting source ambient) r.registrations.length).run.run s
        Drained (r.setting source ambient) s drained.1 drained.2 := by
  obtain ⟨resolved, hbuilt⟩ := built_of_build hbuild
  obtain ⟨chain, hlongest, hheight⟩ := hbuilt.bounded.exists_longest ⟨q.entity, destination⟩
  have hlength : chain.length ≤ r.registrations.length := by
    rw [hheight, ← List.length_map (f := fun registration : Registration C => registration.mapper.key)]
    exact hbuilt.height_le hroot
  -- The longest chain is as long as the rank of its root, and each wave takes one rank off.
  refine ⟨chain, hlongest, hlength, ?_, ?_⟩
  · have hmap : After (r.mapping q destination source ambient) (.initial heap)
        fun _ s' => s'.stats.waves ≤ chain.length := by
      unfold mapping
      refine After.ofExcept_bind (fun registration hfind => ?_) (fun _ _ => Nat.zero_le _)
      obtain ⟨hr, hkey⟩ := mem_of_find? (require_eq_ok.mp hfind)
      unfold mapBy
      dsimp only
      rw [After.bind_iff]
      apply (hbuilt.after_materialize hr q source ambient heap).mono
      rintro (e | roots) s ⟨hbelow, hzero⟩
      · rw [either_error, hzero]
        exact Nat.zero_le _
      · rw [either_ok, After.bind_iff]
        apply (hbuilt.after_drain hr hbelow).mono
        rintro (e | _) s' ⟨-, hwaves⟩
        · rw [hzero, Nat.zero_add, hkey, ← hheight] at hwaves
          exact hwaves
        · rw [hzero, Nat.zero_add, hkey, ← hheight] at hwaves
          exact hwaves
    exact hmap
  · intro registration roots s hfind hrun
    obtain ⟨hr, -⟩ := mem_of_find? hfind
    have hbelow := hbuilt.after_materialize hr q source ambient heap
    unfold After at hbelow
    rw [hrun] at hbelow
    exact (hbuilt.after_drain hr hbelow.1).1

end Registry

/-! ## A small registry -/

namespace Sample

/-- Orders that belong to customers. -/
def metadata : Metadata := .ofList [
  ((Entity.new "Customer").withKey "id" .int).withColumn "name" .string,
  (((Entity.new "Order").withKey "id" .int).withColumn "customer_id" .int).withRelation
    ⟨"customer", "Customer", .belongsTo, "customer_id", "id"⟩]

/-- Orders are declared before the customers that are fetched for them. -/
def declared : List (MapperDeclaration Unit) := [
  ⟨⟨"Order", "OrderView"⟩,
    [{ destination := "id" },
      { destination := "customer", mapped := some "CustomerView", style := some .fetch }], []⟩,
  ⟨⟨"Customer", "CustomerView"⟩, [{ destination := "id" }, { destination := "name" }], []⟩]

theorem exists_registry : ∃ r, ((Registry.build metadata {} declared).run.run []).1 = .ok r ∧
    r.order = [⟨"Customer", "CustomerView"⟩, ⟨"Order", "OrderView"⟩] := by
  have h : (((Registry.build metadata {} declared).run.run []).1.toOption.any fun r =>
      r.order = [⟨"Customer", "CustomerView"⟩, ⟨"Order", "OrderView"⟩]) = true := by cbv
  obtain ⟨r, hbuild, horder⟩ := exists_ok_of_any h
  exact ⟨r, hbuild, of_decide_eq_true horder⟩

end Sample

namespace Registry

/-- Orders and their customers take at most two waves. -/
theorem waves_of_orders_le : ∃ r : Registry Unit,
    ((build Sample.metadata {} Sample.declared).run.run []).1 = .ok r ∧
      ⟨"Order", "OrderView"⟩ ∈ r.order ∧
      ∀ source heap, (r.map (Query.all "Order") "OrderView" source () heap).2.stats.waves ≤ 2 := by
  obtain ⟨r, hbuild, horder⟩ := Sample.exists_registry
  have hroot : ⟨"Order", "OrderView"⟩ ∈ r.order := by simp [horder]
  have hlength : r.registrations.length = 2 := by
    rw [← List.length_map (f := fun registration : Registration Unit => registration.mapper.key)]
    exact congrArg List.length horder
  refine ⟨r, hbuild, hroot, fun source heap => ?_⟩
  obtain ⟨chain, -, hchain, hwaves, -⟩ :=
    waves_le_longest_chain hbuild (Query.all "Order") "OrderView" hroot source () heap
  omega

end Registry

end EntityMapping
