import EntityMapping.Proofs.Code

/-! # Code that spares fields

Transposers, processors and hooks may set the fields of all objects that they get hold of. They spare the fields that
are declared for destinations if they set them in objects of their own only.
-/

namespace EntityMapping

variable {C α : Type}

/-! ## Objects -/

/-- The objects are there afterwards too, and the first `base` of them hold the same in these fields. -/
structure Heap.Spares (P : String → Prop) (base : Nat) (h h' : Heap) : Prop where
  size : h.size ≤ h'.size
  get?_eq : ∀ o : ObjectRef, o.id < base → ∀ field, P field →
    (h'.fields o).get? field = (h.fields o).get? field

theorem Heap.set_of_size_le {h : Heap} {o : ObjectRef} (ho : h.size ≤ o.id) (field : String) (v : Value) :
    h.set o field v = h := by
  have hle : h.objects.size ≤ o.id := ho
  have hmodify : h.objects.modify o.id (·.set field v) = h.objects := by
    apply Array.ext_getElem?
    intro i
    rw [Array.getElem?_modify]
    split
    · rename_i heq
      rw [← heq, Array.getElem?_eq_none hle]
      rfl
    · rfl
  rw [Heap.set, hmodify]

namespace Heap.Spares

variable {P : String → Prop} {base : Nat} {h h' : Heap}

theorem refl (P : String → Prop) (base : Nat) (h : Heap) : h.Spares P base h :=
  ⟨Nat.le_refl _, fun _ _ _ _ => rfl⟩

theorem mono {base' : Nat} (hle : h.Spares P base' h') (hbase : base ≤ base') : h.Spares P base h' :=
  ⟨hle.size, fun o ho => hle.get?_eq o (Nat.lt_of_lt_of_le ho hbase)⟩

/-- Another field may be set, and any field of an object behind the first ones. -/
theorem set (h : Heap) {o : ObjectRef} {field : String} (hfield : base ≤ o.id ∨ ¬ P field) (v : Value) :
    h.Spares P base (h.set o field v) where
  size := Nat.le_of_eq (size_set h o field v).symm
  get?_eq p hp field' hfield' := by
    rcases Nat.lt_or_ge o.id h.size with ho | ho
    · rw [fields_set _ _ _ _ _ ho]
      split
      · rename_i hsame
        refine Dict.get?_set_of_ne _ _ ?_
        rintro rfl
        exact hfield.elim (by omega) fun hnot => hnot hfield'
      · rfl
    · rw [set_of_size_le ho]

theorem create (h : Heap) (hbase : base ≤ h.size) (typeName : String) (fields : Dict String Value) :
    h.Spares P base (h.create typeName fields).2 where
  size := by rw [size_create]; exact Nat.le_succ _
  get?_eq p hp field hfield := by rw [fields_create_of_lt _ _ _ (Nat.lt_of_lt_of_le hp hbase)]

end Heap.Spares

/-! ## Code -/

/-- The action leaves these fields of the objects that are there alone. -/
def Action.Spares (P : String → Prop) (x : Action α) : Prop := ∀ h : Heap, h.Spares P h.size (x.run h).heap

/-- The script sets these fields of its own objects only, that is, of those after the first `base`. -/
def Script.Spares (P : String → Prop) (base : Nat) : {n : Nat} → Script n → Prop
  | _, .finish => True
  | _, .fail _ => True
  | _, .inspect next => ∀ heap, (next heap).Spares P base
  | _, .set o field _ next => (base ≤ o.id ∨ ¬ P field) ∧ next.Spares P base
  | _, .create _ _ next => ∀ o : ObjectRef, base ≤ o.id → (next o).Spares P base
  | _, .note _ next => next.Spares P base
  | _, .apply _ _ next => ∀ result, (next result).Spares P base

/-- The field is declared for some destination. -/
def Registry.Declares (r : Registry C) (field : String) : Prop :=
  ∃ m ∈ r.mappers, ∃ i ∈ m.items, i.destination = field

/-- The code of a registry's declarations leaves the declared fields of objects that are there alone. -/
structure CodeSpares (r : Registry C) (ambient : C) : Prop where
  transposer : ∀ m ∈ r.mappers, ∀ i ∈ m.items, ∀ f, i.transposer = some f →
    ∀ v, (f v ambient).Spares r.Declares
  processor : ∀ m ∈ r.mappers, ∀ i ∈ m.items, ∀ p, i.style = .batch p →
    ∀ keys base, (p.process keys ambient).Spares r.Declares base
  hook : ∀ m ∈ r.mappers, ∀ hook ∈ m.after, ∀ o, (hook o ambient).Spares r.Declares

theorem Assignment.spares_transpose {P : String → Prop} {ambient : C} {a : Assignment C}
    (h : ∀ f, a.transposer = some f → ∀ v, (f v ambient).Spares P) (v : Value) : (a.transpose v ambient).Spares P := by
  unfold transpose
  split
  · rename_i f hf
    intro heap
    rw [Action.run_mapError]
    exact h f hf v heap
  · exact fun heap => .refl P _ heap

theorem Registry.Built.codeSpares {metadata : Metadata} {config : Config} {declared : List (MapperDeclaration C)}
    {resolved : List (Mapper C)} {r : Registry C} (h : Built metadata config declared resolved r)
    {ambient : C}
    (htransposer : ∀ d ∈ declared, ∀ i ∈ d.items, ∀ f, i.transposer = some f →
      ∀ v, (f v ambient).Spares r.Declares)
    (hprocessor : ∀ d ∈ declared, ∀ i ∈ d.items, ∀ p, i.style = some (.batch p) →
      ∀ keys base, (p.process keys ambient).Spares r.Declares base)
    (hhook : ∀ d ∈ declared, ∀ hook ∈ d.after, ∀ o, (hook o ambient).Spares r.Declares) :
    CodeSpares r ambient := by
  refine ⟨fun m hm i hi f hf => ?_, fun m hm i hi p hp => ?_, fun m hm hook hmem => ?_⟩
  · obtain ⟨d, hd, declaration, hdeclaration, -, hsame, -⟩ := h.exists_declared hm hi
    exact htransposer d hd declaration hdeclaration f (hsame ▸ hf)
  · obtain ⟨d, hd, declaration, hdeclaration, -, -, hbatched⟩ := h.exists_declared hm hi
    exact hprocessor d hd declaration hdeclaration p (hbatched p hp)
  · obtain ⟨d, hd, hafter⟩ := h.after_declared hm
    exact hhook d hd hook (hafter ▸ hmem)

end EntityMapping
