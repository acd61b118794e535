import EntityMapping.Proofs.Building
import EntityMapping.Proofs.Graph.Chains

/-! # Heights of mappers

The height of a registered mapper is the number of mappers on a longest chain of needs from it. What an
item needs is lower, and no height exceeds the number of mappers.
-/

open Relation

namespace EntityMapping

variable {C : Type}

namespace Registry

/-- The mappers of a registry. -/
def mappers (r : Registry C) : List (Mapper C) := r.registrations.map (·.mapper)

namespace Built

variable {metadata : Metadata} {config : Config} {declared : List (MapperDeclaration C)}
  {resolved : List (Mapper C)} {r : Registry C}

theorem dependsOn (h : Built metadata config declared resolved r) {a b : MapperKey}
    (hab : DependsOn r.mappers a b) : DependsOn resolved a b := by
  obtain ⟨m, hm, hkey, hi⟩ := hab
  obtain ⟨registration, hr, rfl⟩ := List.mem_map.mp hm
  exact ⟨registration.mapper, h.mem registration hr, hkey, hi⟩

theorem acyclic_mappers (h : Built metadata config declared resolved r) (key : MapperKey) :
    ¬ TransGen (DependsOn r.mappers) key key :=
  fun hcycle => h.acyclic key (TransGen.mono (fun _ _ hab => h.dependsOn hab) key key hcycle)

theorem mem_order (h : Built metadata config declared resolved r) {a b : MapperKey}
    (hab : DependsOn r.mappers a b) : a ∈ r.order ∧ b ∈ r.order := by
  rw [h.perm.mem_iff, h.perm.mem_iff]
  exact h.resolves.mem_keys (h.dependsOn hab)

theorem bounded (h : Built metadata config declared resolved r) :
    Graph.Bounded (DependsOn r.mappers) (r.order.length + 1) :=
  Graph.bounded_of_acyclic h.acyclic_mappers fun _ _ hab => h.mem_order hab

/-- To show something of every registered mapper, it may be taken for granted of those that it needs. -/
theorem induct (h : Built metadata config declared resolved r) {P : Registration C → Prop}
    (step : ∀ a ∈ r.registrations,
      (∀ b ∈ r.registrations, DependsOn r.mappers a.mapper.key b.mapper.key → P b) → P a)
    {a : Registration C} (ha : a ∈ r.registrations) : P a := by
  induction hn : Graph.height (DependsOn r.mappers) a.mapper.key using Nat.strong_induction_on
    generalizing a with
  | _ n ih =>
    refine step a ha fun b hb hab => ?_
    exact ih _ (hn ▸ h.bounded.height_lt hab) hb rfl

theorem height_le (h : Built metadata config declared resolved r) {key : MapperKey}
    (hkey : key ∈ r.order) : Graph.height (DependsOn r.mappers) key ≤ r.order.length := by
  obtain ⟨chain, hlongest, hheight⟩ := h.bounded.exists_longest key
  rw [← hheight]
  exact Graph.length_le_of_chain h.acyclic_mappers (fun _ _ hab => (h.mem_order hab).2) hkey hlongest.1

theorem find?_mappers (h : Built metadata config declared resolved r) {a : Registration C}
    (ha : a ∈ r.registrations) : r.mappers.find? (·.key = a.mapper.key) = some a.mapper := by
  refine find?_of_nodup_map (f := Mapper.key) ?_ (List.mem_map_of_mem ha)
  unfold mappers
  rw [List.map_map]
  exact h.committed.nodup

end Built

theorem built_of_build {metadata : Metadata} {config : Config} {declared : List (MapperDeclaration C)}
    {logs : List LogRecord} {r : Registry C}
    (h : ((build metadata config declared).run.run logs).1 = .ok r) :
    ∃ resolved, Built metadata config declared resolved r := by
  have hends : BuildEnds metadata config declared logs
      ((build metadata config declared).run.run logs).1 _ := after_build metadata config declared logs
  rw [h] at hends
  cases hends with
  | built hbuilt => exact ⟨_, hbuilt⟩

theorem require_eq_ok {r : Registry C} {key : MapperKey} {registration : Registration C} :
    r.require key = .ok registration ↔ r.find? key = some registration := by
  unfold require
  split <;> simp_all

theorem mem_of_find? {r : Registry C} {key : MapperKey} {registration : Registration C}
    (h : r.find? key = some registration) :
    registration ∈ r.registrations ∧ registration.mapper.key = key :=
  ⟨List.mem_of_find?_eq_some h, by simpa using List.find?_some h⟩

end Registry

end EntityMapping
