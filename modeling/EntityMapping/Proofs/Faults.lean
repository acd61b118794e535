import EntityMapping.Proofs.Confinement
import EntityMapping.Proofs.Evaluation
import EntityMapping.Proofs.Source.Failing

/-! # Faults

A pass of a registry that was built never ends with an error that blames the engine, unless the code of its
declarations or its source raised it.
-/

namespace EntityMapping

variable {C : Type}

/-! ## Code that may raise all but faults -/

/-- Code that raises only errors of a kind, in a registry that was built. What its mappers load for themselves
fails with no other errors. -/
structure Guarded (P : Error → Prop) (metadata : Metadata) (config : Config)
    (declared : List (MapperDeclaration C)) (resolved : List (Mapper C)) (r : Registry C)
    (source : DataSource) (ambient : C) : Prop where
  lenient : Lenient P
  built : Registry.Built metadata config declared resolved r
  code : CodeRaises P r source ambient
  fetched : ∀ a ∈ r.registrations, ∀ q : Query, q.entity = a.mapper.key.source → q.includes = [] → ∀ l,
    After (Source.fetch source r.metadata (q.withIncludes a.plan.includes)) l fun result _ => FailsOnly P result

namespace Guarded

variable {P : Error → Prop} {metadata : Metadata} {config : Config}
  {declared : List (MapperDeclaration C)} {resolved : List (Mapper C)} {r : Registry C}
  {source : DataSource} {ambient : C} (h : Guarded P metadata config declared resolved r source ambient)
include h

theorem loads {a : Registration C} (ha : a ∈ r.registrations) {q : Query} (hfetch : ∀ l, After
      (Source.fetch source r.metadata (q.withIncludes a.plan.includes)) l fun result _ => FailsOnly P result) :
    r.Loads P source ambient a q := by
  refine fun l => (hfetch l).mono fun result _ hresult => ⟨hresult, fun rows _ row _ => ?_⟩
  refine h.built.failsOnly_project h.code (fun item reason hfault => ?_) ha row
  exact h.lenient _ hfault rfl fun _ hcause => by cases hcause

theorem confined : Confined P metadata config declared resolved r source ambient where
  mild := h.lenient.mild
  built := h.built
  code := h.code
  serves _ _ _ _ _ _ := .inl fun _ _ => h.lenient _ rfl rfl fun _ hcause => by cases hcause
  loads a ha q hentity hincludes := h.loads ha (h.fetched a ha q hentity hincludes)

/-- A pass from a registered root raises only errors of the kind, if loading its rows does. -/
theorem failsOnly_mapping {q : Query} {destination : String} (hroot : ⟨q.entity, destination⟩ ∈ r.order)
    (hfetch : ∀ a ∈ r.registrations, a.mapper.key = ⟨q.entity, destination⟩ → ∀ l, After
      (Source.fetch source r.metadata (q.withIncludes a.plan.includes)) l fun result _ => FailsOnly P result)
    (heap : Heap) : FailsOnly P (r.map q destination source ambient heap).1 :=
  h.confined.failsOnly_mapping hroot (fun a ha hkey => h.loads ha (hfetch a ha hkey)) heap

end Guarded

/-- Code that raises only errors of a kind, which has all that are no faults, in a registry that was built. -/
structure Trusted (P : Error → Prop) (metadata : Metadata) (config : Config)
    (declared : List (MapperDeclaration C)) (resolved : List (Mapper C)) (r : Registry C)
    (source : DataSource) (ambient : C) : Prop where
  tolerant : Tolerant P
  built : Registry.Built metadata config declared resolved r
  code : CodeRaises P r source ambient

namespace Trusted

variable {P : Error → Prop} {metadata : Metadata} {config : Config}
  {declared : List (MapperDeclaration C)} {resolved : List (Mapper C)} {r : Registry C}
  {source : DataSource} {ambient : C} (h : Trusted P metadata config declared resolved r source ambient)
include h

theorem failsOnly_fetch (q : Query) (l : Loading) :
    After (Source.fetch source r.metadata q) l fun result _ => FailsOnly P result := by
  refine failsOnly_fetch_of_missing h.code.source r.metadata (fun err herr => ?_) q l
  cases err with
  | unknownEntity | relationNotFound => exact h.tolerant _ rfl fun _ hcause => by cases hcause
  | _ => cases herr

theorem failsOnly_mapping {q : Query} {destination : String} (hroot : ⟨q.entity, destination⟩ ∈ r.order)
    (heap : Heap) : FailsOnly P (r.map q destination source ambient heap).1 :=
  Guarded.failsOnly_mapping ⟨h.tolerant.lenient, h.built, h.code, fun _ _ _ _ _ => h.failsOnly_fetch _⟩ hroot
    (fun _ _ _ => h.failsOnly_fetch _) heap

end Trusted

/-! ## Passes -/

namespace Registry

theorem Plain.codeRaises {metadata : Metadata} {declared : List (MapperDeclaration C)}
    {resolved : List (Mapper C)} {r : Registry C} (h : r.Plain metadata declared resolved)
    {P : Error → Prop} {source : DataSource} {ambient : C}
    (hsource : ∀ history e filter, FailsOnly P (source.reply history e filter).rows) :
    CodeRaises P r source ambient := by
  have htame : ∀ m ∈ r.mappers, m.Tame metadata (fun _ _ => none) 0 := by
    rintro m hm
    obtain ⟨a, ha, rfl⟩ := List.mem_map.mp hm
    exact (h.tame _ _).tame a ha
  have hitem : ∀ m ∈ r.mappers, ∀ i ∈ m.items, i.Plain := by
    rintro m hm i hi
    obtain ⟨a, ha, rfl⟩ := List.mem_map.mp hm
    exact h.plain a ha i hi
  -- A plain mapper runs no code of its own: nothing is computed, transposed, batched or hooked.
  refine ⟨?_, ?_, ?_, ?_, hsource⟩
  · intro m hm i hi compute hcomputed
    obtain ⟨path, hpath, -⟩ := ((htame m hm).items i hi).path
    rw [hpath] at hcomputed
    cases hcomputed
  · intro m hm i hi f hf
    rw [(hitem m hm i hi).transposer_eq] at hf
    cases hf
  · exact fun m hm i hi p hp => absurd hp ((hitem m hm i hi).unbatched p)
  · intro m hm hook hhook
    rw [(htame m hm).unhooked] at hhook
    cases hhook

/-- The slots of every committed mapper are laid out as its schema says, and a pass from a registered root
never fails with an error that blames the engine, alone or as what another error is told with, unless the
code of the declarations or the source raises one. -/
theorem map_raises_no_fault {metadata : Metadata} {config : Config}
    {declared : List (MapperDeclaration C)} {logs : List LogRecord} {r : Registry C}
    (hbuild : ((build metadata config declared).run.run logs).1 = .ok r) :
    (∀ a ∈ r.registrations, r.LaidOut a) ∧
      ∀ (q : Query) (destination : String), ⟨q.entity, destination⟩ ∈ r.order →
        ∀ (source : DataSource) (ambient : C) (heap : Heap),
          (CodeRaises (fun e => e.isFault = false) r source ambient →
            FailsOnly (fun e => e.isFault = false) (r.map q destination source ambient heap).1) ∧
          (CodeRaises (fun e => e.innermost.isFault = false) r source ambient →
            FailsOnly (fun e => e.innermost.isFault = false)
              (r.map q destination source ambient heap).1) := by
  obtain ⟨resolved, hbuilt⟩ := built_of_build hbuild
  refine ⟨fun a ha => hbuilt.laidOut ha, fun q destination hroot source ambient heap => ⟨?_, ?_⟩⟩
  · exact fun hcode => (Trusted.mk tolerant_isFault hbuilt hcode).failsOnly_mapping hroot heap
  · exact fun hcode => (Trusted.mk tolerant_innermost hbuilt hcode).failsOnly_mapping hroot heap

theorem orders_raise_no_fault : ∃ r : Registry Unit,
    ((build Sample.metadata {} Sample.declared).run.run []).1 = .ok r ∧
      (∀ a ∈ r.registrations, r.LaidOut a) ∧
      FailsOnly (fun e => e.isFault = false) (r.map (Query.all "Order") "OrderView"
        (Sample.memory.source.failing "Customer" "offline") () .empty).1 ∧
      FailsOnly (fun e => e.innermost.isFault = false) (r.map (Query.all "Order") "OrderView"
        (Sample.memory.source.failing "Customer" "offline") () .empty).1 := by
  obtain ⟨r, hbuild, horder⟩ := Sample.exists_registry
  obtain ⟨resolved, hregistry⟩ := plain_of_build Sample.namesApart Sample.plain_declared hbuild
  have hroot : ⟨(Query.all "Order").entity, "OrderView"⟩ ∈ r.order := by simp [horder, Query.all]
  have hcode : ∀ P : Error → Prop, P (.dataSource "offline") →
      CodeRaises P r (Sample.memory.source.failing "Customer" "offline") () := by
    intro P hP
    refine hregistry.codeRaises fun history e filter => ?_
    unfold DataSource.failing
    dsimp only
    split
    · exact (FailsOnly.error _).mpr hP
    · exact FailsOnly.ok _
  obtain ⟨hlaid, hraises⟩ := map_raises_no_fault hbuild
  obtain ⟨houter, hinner⟩ := hraises (Query.all "Order") "OrderView" hroot
    (Sample.memory.source.failing "Customer" "offline") () .empty
  exact ⟨r, hbuild, hlaid, houter (hcode _ rfl), hinner (hcode _ rfl)⟩

end Registry

end EntityMapping
