import EntityMapping.Proofs.Tame

/-! # Plain mappers

A plain mapper copies columns and maps rows along paths, without any code of its own.
-/

namespace EntityMapping

variable {C : Type}

/-- The item reads along a path whose shape the metadata gives, and runs no code. Unless it is mapped, the
path ends in a column. -/
structure Declaration.Plain (metadata : Metadata) (owner : MapperKey) (d : Declaration C) : Prop where
  path : ∃ path, d.accessor = .path path
  unshaped : d.sourceShape = none
  untyped : d.declared = none
  untransposed : d.transposer = none
  unbatched : ∀ processor, d.style ≠ some (.batch processor)
  column : d.mapped = none → d.resolveSource owner metadata = .ok .scalar

structure MapperDeclaration.Plain (metadata : Metadata) (d : MapperDeclaration C) : Prop where
  items : ∀ i ∈ d.items, i.Plain metadata d.key
  unhooked : d.after = []

/-- The item takes every cell as it is. -/
structure Item.Plain (i : Item C) : Prop where
  transposer_eq : i.transposer = none
  unbatched : ∀ processor, i.style ≠ .batch processor
  accepts : i.sourceShape = .scalar → ∀ v, i.expected.accepts v = true

theorem Declaration.Plain.tame {metadata : Metadata} {owner : MapperKey} {d : Declaration C}
    (h : d.Plain metadata owner) (tables : Nat → Key → Option Value) (n : Nat) :
    d.Tame metadata tables n owner where
  path := h.path
  unshaped := h.unshaped
  column := h.column
  untyped _ := h.untyped
  untransposed _ := h.untransposed
  pure f hf := by
    rw [h.untransposed] at hf
    cases hf
  keyed p hp := absurd hp (h.unbatched p)

theorem MapperDeclaration.Plain.tame {metadata : Metadata} {d : MapperDeclaration C} (h : d.Plain metadata)
    (tables : Nat → Key → Option Value) (n : Nat) : d.Tame metadata tables n :=
  ⟨fun i hi => (h.items i hi).tame tables n, h.unhooked⟩

theorem ScalarType.accepts_any (v : Value) : ScalarType.any.accepts v = true := by cases v <;> rfl

theorem Declaration.Plain.item {metadata : Metadata} {owner : MapperKey} {d : Declaration C}
    (h : d.Plain metadata owner) {registered : List MapperKey} {i : Item C}
    (hi : d.resolve owner metadata registered = .ok i) : i.Plain := by
  obtain ⟨component, sourceShape, destinationShape, -, hdestination, rfl⟩ := Declaration.resolve_eq_ok hi
  refine ⟨h.untransposed, fun processor hstyle => ?_, fun hscalar v => ?_⟩
  · apply h.unbatched processor
    cases hd : d.style with
    | none => simp [hd] at hstyle
    | some style =>
      simp only [hd, Option.getD_some] at hstyle
      rw [hstyle]
  · obtain rfl : sourceShape = .scalar := hscalar
    obtain ⟨-, rfl⟩ := Declaration.shape_of_unmapped (Declaration.unmapped_of_scalar hdestination) hdestination
    simp only [h.untyped, Option.map_none, Option.getD_none]
    exact ScalarType.accepts_any v

namespace Registry

/-- A registry of plain mappers, over metadata that keeps names apart. -/
structure Plain (metadata : Metadata) (declared : List (MapperDeclaration C))
    (resolved : List (Mapper C)) (r : Registry C) : Prop where
  tame : ∀ tables n, r.Tame metadata {} tables n declared resolved
  plain : ∀ a ∈ r.registrations, ∀ i ∈ a.mapper.items, i.Plain

theorem plain_of_build {entities : List Entity} (hapart : (Metadata.ofList entities).NamesApart)
    {declared : List (MapperDeclaration C)} (hplain : ∀ d ∈ declared, d.Plain (.ofList entities))
    {logs : List LogRecord} {r : Registry C}
    (h : ((build (.ofList entities) {} declared).run.run logs).1 = .ok r) :
    ∃ resolved, r.Plain (.ofList entities) declared resolved := by
  obtain ⟨resolved, hbuilt⟩ := built_of_build h
  refine ⟨resolved, fun tables n => ?_, fun a ha i hi => ?_⟩
  · have hnamed := Metadata.named_ofList entities
    refine ⟨hbuilt, hnamed, hapart, fun a ha => ?_, rfl⟩
    obtain ⟨d, hd, hresolved⟩ := hbuilt.resolves.exists_declaration (hbuilt.mem a ha)
    exact ((hplain d hd).tame tables n).mapper hnamed hresolved
  · obtain ⟨d, hd, hkey, declaration, hmem, hresolved⟩ := hbuilt.resolves.exists_resolved (hbuilt.mem a ha) hi
    exact (hkey ▸ (hplain d hd).items declaration hmem).item hresolved

end Registry

end EntityMapping
