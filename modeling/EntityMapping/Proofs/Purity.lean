import EntityMapping.Pass.Mapping
import EntityMapping.Proofs.Reference
import Mathlib.Data.Finset.Card

/-! # Pure code

Code of a declaration is pure when it does nothing but give a value, or fail, whatever the objects hold. What
an item without a mapper shows of a row can then be told from its cell alone.
-/

namespace EntityMapping

variable {C α : Type}

/-! ## Values without new objects -/

namespace Value

mutual

/-- The value holds no objects but the first `n`. -/
def Within (n : Nat) : Value → Prop
  | .list items => ItemsWithin n items
  | .row ⟨fields⟩ => FieldsWithin n fields
  | .object ref => ref.id < n
  | _ => True

def ItemsWithin (n : Nat) : List Value → Prop
  | [] => True
  | v :: rest => v.Within n ∧ ItemsWithin n rest

def FieldsWithin (n : Nat) : List (String × Value) → Prop
  | [] => True
  | (_, v) :: rest => v.Within n ∧ FieldsWithin n rest

end

theorem within_of_isScalar {v : Value} (h : v.isScalar = true) (n : Nat) : v.Within n := by
  cases v with
  | list | row | object => cases h
  | _ => trivial

variable {render render' : ObjectRef → Except Error Json} {n : Nat}

mutual

/-- The JSON of a value depends on the objects in it only. -/
theorem Within.toJsonWith_eq (hrender : ∀ o, o.id < n → render o = render' o) :
    ∀ {v : Value}, v.Within n → v.toJsonWith render = v.toJsonWith render'
  | .list items, h => by
    rw [toJsonWith, toJsonWith, ItemsWithin.itemsToJson_eq hrender h]
  | .row ⟨fields⟩, h => by
    rw [toJsonWith, toJsonWith, FieldsWithin.fieldsToJson_eq hrender h]
  | .object ref, h => hrender ref h
  | .null, _ | .bool _, _ | .int _, _ | .float _, _ | .string _, _ | .uuid _, _ | .dateTime _, _
  | .decimal _, _ | .json _, _ => rfl

theorem ItemsWithin.itemsToJson_eq (hrender : ∀ o, o.id < n → render o = render' o) :
    ∀ {items : List Value}, ItemsWithin n items → itemsToJson render items = itemsToJson render' items
  | [], _ => rfl
  | v :: rest, h => by
    rw [itemsToJson, itemsToJson, Within.toJsonWith_eq hrender h.1, ItemsWithin.itemsToJson_eq hrender h.2]

theorem FieldsWithin.fieldsToJson_eq (hrender : ∀ o, o.id < n → render o = render' o) :
    ∀ {fields : List (String × Value)}, FieldsWithin n fields →
      fieldsToJson render fields = fieldsToJson render' fields
  | [], _ => rfl
  | (_, v) :: rest, h => by
    rw [fieldsToJson, fieldsToJson, Within.toJsonWith_eq hrender h.1,
      FieldsWithin.fieldsToJson_eq hrender h.2]

end

end Value

/-! ## Objects from before -/

/-- The fields of the objects hold no objects but these. -/
def Heap.Closed (h : Heap) : Prop :=
  ∀ o : ObjectRef, o.id < h.size → Value.FieldsWithin h.size (h.fields o).entries

/-- The objects are there afterwards too, with the same fields. -/
structure Heap.Keeps (h h' : Heap) : Prop where
  size : h.size ≤ h'.size
  fields_eq : ∀ o : ObjectRef, o.id < h.size → h'.fields o = h.fields o

namespace Heap.Keeps

variable {h h' : Heap}

theorem refl (h : Heap) : h.Keeps h := ⟨Nat.le_refl _, fun _ _ => rfl⟩

theorem empty (h : Heap) : Heap.empty.Keeps h := ⟨Nat.zero_le _, fun _ ho => absurd ho (Nat.not_lt_zero _)⟩

theorem set (hkeeps : h.Keeps h') {o : ObjectRef} (hold : h.size ≤ o.id) (hlt : o.id < h'.size)
    (field : String) (v : Value) : h.Keeps (h'.set o field v) where
  size := (size_set h' o field v).symm ▸ hkeeps.size
  fields_eq p hp := by
    rw [fields_set _ _ _ _ _ hlt, if_neg (by omega)]
    exact hkeeps.fields_eq p hp

theorem create (hkeeps : h.Keeps h') (typeName : String) (fields : Dict String Value) :
    h.Keeps (h'.create typeName fields).2 where
  size := by
    rw [size_create]
    exact Nat.le_succ_of_le hkeeps.size
  fields_eq p hp := by
    rw [fields_create_of_lt _ _ _ (Nat.lt_of_lt_of_le hp hkeeps.size)]
    exact hkeeps.fields_eq p hp

end Heap.Keeps

/-- How many of the first `n` objects are not around. -/
def unmet (n : Nat) (path : List Nat) : Nat := (Finset.range n \ path.toFinset).card

theorem unmet_le (n : Nat) (path : List Nat) : unmet n path ≤ n := by
  have hle := Finset.card_le_card (Finset.sdiff_subset (s := Finset.range n) (t := path.toFinset))
  rwa [Finset.card_range] at hle

theorem unmet_cons {n id : Nat} {path : List Nat} (hid : id < n) (hnew : id ∉ path) :
    unmet n (id :: path) < unmet n path := by
  unfold unmet
  rw [List.toFinset_cons, Finset.sdiff_insert]
  exact Finset.card_erase_lt_of_mem (by simpa using ⟨hid, hnew⟩)

/-- The JSON of an object from before is the same afterwards, within whatever new objects it is met. -/
theorem Heap.Keeps.objectToJson_eq {h h' : Heap} (hkeeps : h.Keeps h') (hclosed : h.Closed) {o : ObjectRef}
    (ho : o.id < h.size) {fuel fuel' : Nat} {path path' : List Nat}
    (hpath : ∀ id < h.size, id ∈ path ↔ id ∈ path') (hfuel : unmet h.size path ≤ fuel)
    (hfuel' : unmet h.size path' ≤ fuel') : h'.objectToJson fuel path o = h.objectToJson fuel' path' o := by
  induction fuel generalizing o fuel' path path' with
  | zero =>
    -- No object from before is left, so this one is around.
    have hmem : o.id ∈ path := by
      by_contra hnew
      have := unmet_cons ho hnew
      omega
    unfold objectToJson
    rw [if_pos hmem, if_pos ((hpath _ ho).mp hmem)]
  | succ fuel ih =>
    by_cases hmem : o.id ∈ path
    · unfold objectToJson
      rw [if_pos hmem, if_pos ((hpath _ ho).mp hmem)]
    · have hmem' : o.id ∉ path' := mt (hpath _ ho).mpr hmem
      have hless := unmet_cons ho hmem
      have hless' := unmet_cons ho hmem'
      obtain ⟨fuel', rfl⟩ : ∃ m, fuel' = m + 1 := ⟨fuel' - 1, by omega⟩
      have hfields : Value.fieldsToJson (h'.objectToJson fuel (o.id :: path)) (h.fields o).entries =
          Value.fieldsToJson (h.objectToJson fuel' (o.id :: path')) (h.fields o).entries :=
        Value.FieldsWithin.fieldsToJson_eq
          (fun o' ho' => ih ho' (fun id hid => by simp [hpath id hid]) (by omega) (by omega)) (hclosed o ho)
      unfold objectToJson
      rw [if_neg hmem, if_neg hmem']
      dsimp only
      rw [hkeeps.fields_eq o ho, hfields]

/-! ## Pure actions -/

/-- The action leaves the objects alone, and its result and its notes do not depend on them. -/
def Action.IsPure (x : Action α) : Prop := ∃ result notes, ∀ heap, x.run heap = ⟨result, heap, notes⟩

/-- The result of an action that is pure. -/
def Action.value (x : Action α) : Except Error α := (x.run .empty).result

theorem Action.IsPure.run_eq {x : Action α} (h : x.IsPure) :
    ∃ notes, ∀ heap, x.run heap = ⟨x.value, heap, notes⟩ := by
  obtain ⟨result, notes, hrun⟩ := h
  refine ⟨notes, fun heap => ?_⟩
  rw [hrun]
  unfold Action.value
  rw [hrun]

theorem Action.isPure_done (a : α) : (Action.done a).IsPure := ⟨_, _, fun _ => rfl⟩

theorem Action.IsPure.mapError {x : Action α} (h : x.IsPure) (f : Error → Error) : (x.mapError f).IsPure := by
  obtain ⟨result, notes, hrun⟩ := h
  exact ⟨result.mapError f, notes, fun heap => by rw [run_mapError, hrun]⟩

theorem Action.value_done (a : α) : (Action.done a).value = .ok a := rfl

theorem Action.value_mapError (x : Action α) (f : Error → Error) :
    (x.mapError f).value = x.value.mapError f := by
  unfold value
  rw [run_mapError]

/-- The transposer is a function of its arguments, and makes up no objects: `n` of them are there. -/
structure Transposer.IsPure (n : Nat) (f : Transposer C) : Prop where
  pure : ∀ v ambient, (f v ambient).IsPure
  within : ∀ v ambient w, v.Within n → (f v ambient).value = .ok w → w.Within n

/-- The processor looks keys up in a table and gives every item the value of its key. -/
def Processor.LooksUp (table : Key → Option Value) (p : Processor C) : Prop :=
  ∃ load, p = Batch.keyed p.id p.name load ∧ ∀ keys ambient,
    ∃ found, (load keys ambient).IsPure ∧ (load keys ambient).value = .ok found ∧
      ∀ k ∈ keys, Dict.lookup k found = table k

/-! ## Plain fields -/

namespace Item

theorem dependency?_of_scalar {i : Item C} (h : i.sourceShape = .scalar) : i.dependency? = none := by
  unfold dependency?
  rw [h]

/-- The value that an item ends up with when it is given one, unless it refuses it. -/
def settled? (i : Item C) (ambient : C) (v : Value) : Option Value :=
  match ((Assignment.ofItem i).transpose v ambient).value with
  | .ok w => if i.expected.accepts w then some w else none
  | .error _ => none

/-- The value that an item without a mapper ends up with, by the cell that it reads: its own, or the one that
the table of its processor has for it. -/
def value? (i : Item C) (tables : Nat → Key → Option Value) (ambient : C) (cell : Value) : Option Value :=
  match i.style with
  | .batch p =>
    if cell.isNull then some i.destinationShape.default
    else
      match fetchKey i.name cell with
      | .ok k => i.settled? ambient ((tables p.id k).getD .null)
      | .error _ => none
  | _ => i.settled? ambient cell

variable {i : Item C} {tables : Nat → Key → Option Value} {ambient : C} {cell v : Value}

theorem value?_of_unbatched (h : ∀ p, i.style ≠ .batch p) :
    i.value? tables ambient cell = i.settled? ambient cell := by
  unfold value?
  split
  · exact absurd (by assumption) (h _)
  · rfl

theorem value?_null {p : Processor C} (h : i.style = .batch p) :
    i.value? tables ambient .null = some i.destinationShape.default := by
  unfold value?
  rw [h]
  rfl

theorem value?_of_key {p : Processor C} (h : i.style = .batch p) (hcell : cell.isNull = false) {k : Key}
    (hk : fetchKey i.name cell = .ok k) :
    i.value? tables ambient cell = i.settled? ambient ((tables p.id k).getD .null) := by
  unfold value?
  rw [h]
  dsimp only
  rw [hcell, if_neg (by simp), hk]

theorem value?_of_error {p : Processor C} (h : i.style = .batch p) (hcell : cell.isNull = false) {e : Error}
    (he : fetchKey i.name cell = .error e) : i.value? tables ambient cell = none := by
  unfold value?
  rw [h]
  dsimp only
  rw [hcell, if_neg (by simp), he]

/-! ### Items with pure code -/

section

variable (hpure : ∀ f, i.transposer = some f → ∀ v ambient, (f v ambient).IsPure)
include hpure

theorem isPure_transpose (v : Value) (ambient : C) : ((Assignment.ofItem i).transpose v ambient).IsPure := by
  unfold Assignment.transpose Assignment.ofItem
  dsimp only
  split
  · exact (hpure _ (by assumption) v ambient).mapError _
  · exact Action.isPure_done v

theorem run_assign_of_settled {v : Value} {ambient : C} {w : Value} (hw : i.settled? ambient v = some w)
    (o : ObjectRef) : ∃ notes, ∀ heap, ((Assignment.ofItem i).assign v o ambient).run heap =
      ⟨.ok (), heap.set o i.destination w, notes⟩ := by
  obtain ⟨notes, hrun⟩ := (isPure_transpose hpure v ambient).run_eq
  refine ⟨notes, fun heap => ?_⟩
  unfold settled? at hw
  split at hw
  · rename_i u hu
    split at hw
    · obtain rfl := Option.some.inj hw
      unfold Assignment.assign
      rw [Action.run_andThen, hrun, hu]
      unfold Assignment.store Assignment.ofItem
      dsimp only
      rw [if_pos (by assumption)]
      simp [Action.setField, Action.run]
    · cases hw
  · cases hw

theorem run_assign_of_refused {v : Value} {ambient : C} (hw : i.settled? ambient v = none) (o : ObjectRef) :
    ∃ e notes, ∀ heap, ((Assignment.ofItem i).assign v o ambient).run heap = ⟨.error e, heap, notes⟩ := by
  obtain ⟨notes, hrun⟩ := (isPure_transpose hpure v ambient).run_eq
  unfold settled? at hw
  unfold Assignment.assign
  split at hw
  · rename_i u hu
    split at hw
    · cases hw
    · refine ⟨.assignment i.name u.typeName i.destination i.expected.text, notes, fun heap => ?_⟩
      rw [Action.run_andThen, hrun, hu]
      unfold Assignment.store Assignment.ofItem
      dsimp only
      rw [if_neg (by assumption)]
      simp [Action.run]
  · rename_i e he
    refine ⟨e, notes, fun heap => ?_⟩
    rw [Action.run_andThen, hrun, he]

end

theorem settled?_within {n : Nat} (hpure : ∀ f, i.transposer = some f → Transposer.IsPure n f)
    (hv : v.Within n) {w : Value} (hw : i.settled? ambient v = some w) : w.Within n := by
  unfold settled? at hw
  split at hw
  · rename_i u hu
    split at hw
    · obtain rfl := Option.some.inj hw
      unfold Assignment.transpose Assignment.ofItem at hu
      dsimp only at hu
      split at hu
      · rename_i f hf
        rw [Action.value_mapError] at hu
        refine (hpure f hf).within v ambient _ hv ?_
        cases hvalue : (f v ambient).value with
        | ok u => rw [hvalue] at hu; exact hu
        | error e => rw [hvalue] at hu; cases hu
      · exact Except.ok.inj hu ▸ hv
    · cases hw
  · cases hw

theorem value?_within {n : Nat} (hpure : ∀ f, i.transposer = some f → Transposer.IsPure n f)
    (htables : ∀ id k v, tables id k = some v → v.Within n) (hcell : cell.isScalar = true)
    (hshape : ∃ type, i.destinationShape = .scalar type) (hv : i.value? tables ambient cell = some v) :
    v.Within n := by
  unfold value? at hv
  split at hv
  · split at hv
    · obtain ⟨type, htype⟩ := hshape
      rw [htype] at hv
      exact Option.some.inj hv ▸ trivial
    · split at hv
      · rename_i p _ _ _ k _
        refine settled?_within hpure ?_ hv
        cases hk : tables p.id k with
        | none => trivial
        | some u => exact htables _ _ _ hk
      · cases hv
  · exact settled?_within hpure (Value.within_of_isScalar hcell n) hv

end Item

end EntityMapping
