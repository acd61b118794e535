import EntityMapping.Heap.Json
import EntityMapping.Proofs.Pass.Holes

/-! # Rendering objects

The JSON of an object without holes is read off the row that it was made for. Objects within it belong to
lower mappers, so none of them is met again, and objects from before are as they were.
-/

namespace EntityMapping

variable {C : Type}

/-! ## Views of rows -/

/-- The JSON of an object that was there before. -/
def Stage.before (σ : Stage C) (o : ObjectRef) : Except Error Json :=
  σ.heap.objectToJson (σ.heap.size + 2) [] o

/-- The JSON that an item shows of a row, given the JSON of the rows that it leads to. -/
def Item.view (σ : Stage C) (owner : MapperKey) (i : Item C) (row : Row)
    (render : MapperKey → Row → Except Error Json) : Except Error Json :=
  match i.source, i.sourceShape, i.dependency? with
  | .path path, .entity _, some dependency =>
    match σ.memory.rowAt σ.metadata owner.source row path with
    | some next => render dependency next
    | none => .ok .null
  | .path path, .sequence _, some dependency =>
    ((σ.memory.rowsAt σ.metadata owner.source row path).mapM (render dependency)).map .array
  | _, _, _ =>
    match σ.value? owner i row with
    | some v => v.toJsonWith σ.before
    | none => .ok .null

/-- The JSON of a row by a mapper. The depth bounds how far mappers need each other. -/
def Stage.view (σ : Stage C) : (depth : Nat) → MapperKey → Row → Except Error Json
  | 0, _, _ => .ok .null
  | depth + 1, key, row =>
    match σ.registry.mappers.find? (·.key = key) with
    | some mapper =>
      (mapper.items.mapM fun i : Item C => (i.view σ key row (σ.view depth)).map (i.destination, ·)).map .ofMembers
    | none => .ok .null

theorem itemsToJson_eq {render : ObjectRef → Except Error Json} {view : Row → Except Error Json}
    {rows : List Row} {os : List ObjectRef} (h : List.Forall₂ (fun row o => render o = view row) rows os) :
    Value.itemsToJson render (os.map .object) = rows.mapM view := by
  induction h with
  | nil => rfl
  | @cons row o rows os ho _ ih =>
    rw [List.map_cons, Value.itemsToJson, Value.toJsonWith, ho, List.mapM_cons, ih]
    cases view row with
    | error e => rfl
    | ok j => cases rows.mapM view <;> rfl

theorem fieldsToJson_eq {render : ObjectRef → Except Error Json} {view : Item C → Except Error Json}
    {items : List (Item C)} {entries : List (String × Value)}
    (h : List.Forall₂ (fun i e => e.1 = i.destination ∧ e.2.toJsonWith render = view i) items entries) :
    Value.fieldsToJson render entries = items.mapM fun i => (view i).map (i.destination, ·) := by
  induction h with
  | nil => rfl
  | @cons i e items entries he _ ih =>
    obtain ⟨name, v⟩ := e
    obtain ⟨rfl, hv⟩ := he
    rw [Value.fieldsToJson, hv, List.mapM_cons, ih]
    cases view i with
    | error e => rfl
    | ok j =>
      change Except.map _ _ = Except.bind _ _
      generalize items.mapM (m := Except Error) _ = rest
      cases rest <;> rfl

/-- What is shown renders as the item's view, if the objects in it render as the rows that they were made for,
and objects from before as they did. -/
theorem Shown.toJsonWith_eq {σ : Stage C} {L : Labels} {owner : MapperKey} {i : Item C} {row : Row}
    {v : Value} (h : Shown σ L owner i row v)
    (hwithin : i.sourceShape = .scalar → ∀ w, σ.value? owner i row = some w → w.Within σ.heap.size)
    {render : ObjectRef → Except Error Json} {view : MapperKey → Row → Except Error Json}
    (hbefore : ∀ o, o.id < σ.heap.size → render o = σ.before o)
    (hrender : ∀ dependency, i.dependency? = some dependency → ∀ next o, L.Of dependency next o →
      render o = view dependency next) :
    v.toJsonWith render = i.view σ owner row view := by
  unfold Item.view
  cases h with
  | given hscalar hv =>
    rw [Item.dependency?_of_scalar hscalar]
    split
    · simp_all
    · simp_all
    · rw [hv]
      exact (hwithin hscalar v hv).toJsonWith_eq hbefore
  | nothing hsource hshape hneeds hnone =>
    rw [hsource, hshape, hneeds]
    dsimp only
    rw [hnone]
    rfl
  | object hsource hshape hneeds hsome ho =>
    rw [hsource, hshape, hneeds]
    dsimp only
    rw [hsome]
    exact hrender _ hneeds _ _ ho
  | list hsource hshape hneeds hos =>
    rw [hsource, hshape, hneeds]
    dsimp only
    rw [Value.toJsonWith, itemsToJson_eq (hos.imp fun _ _ ho => hrender _ hneeds _ _ ho)]

/-! ## Objects -/

/-- The objects around another one are different, and were made by mappers above its own. -/
structure Around (σ : Stage C) (L : Labels) (key : MapperKey) (path : List Nat) : Prop where
  nodup : path.Nodup
  above : ∀ id ∈ path, ∃ p, L id = some p ∧
    Graph.height (DependsOn σ.registry.mappers) key < Graph.height (DependsOn σ.registry.mappers) p.1

namespace Around

variable {σ : Stage C} {L : Labels} {key : MapperKey} {path : List Nat}

theorem nil (σ : Stage C) (L : Labels) (key : MapperKey) : Around σ L key [] :=
  ⟨List.nodup_nil, fun _ h => absurd h (by simp)⟩

theorem not_mem (h : Around σ L key path) {row : Row} {o : ObjectRef} (ho : L.Of key row o) :
    o.id ∉ path := by
  intro hmem
  obtain ⟨p, hp, hlt⟩ := h.above o.id hmem
  rw [ho.1] at hp
  obtain rfl := Option.some.inj hp
  exact Nat.lt_irrefl _ hlt

theorem cons (h : Around σ L key path) {row : Row} {o : ObjectRef} (ho : L.Of key row o)
    {dependency : MapperKey} (hlt : Graph.height (DependsOn σ.registry.mappers) dependency <
      Graph.height (DependsOn σ.registry.mappers) key) : Around σ L dependency (o.id :: path) := by
  refine ⟨List.nodup_cons.mpr ⟨h.not_mem ho, h.nodup⟩, fun id hid => ?_⟩
  rcases List.mem_cons.mp hid with rfl | hid
  · exact ⟨_, ho.1, hlt⟩
  · obtain ⟨p, hp, habove⟩ := h.above id hid
    exact ⟨p, hp, hlt.trans habove⟩

end Around

section

variable {σ : Stage C} {L : Labels} {due : List (Delivery C)} {s : PassState C} (hs : Filling σ L due s)
  {path : List Nat} (hnodup : path.Nodup) (hnew : ∀ id ∈ path, ∃ p, L id = some p)
include hs hnodup hnew

theorem Filling.length_le : path.length + σ.heap.size ≤ s.heap.size := by
  have hrange : path ⊆ List.range' σ.heap.size (s.heap.size - σ.heap.size) := by
    intro id hid
    obtain ⟨p, hp⟩ := hnew id hid
    have := hs.ge id p hp
    have := hs.lt id p hp
    rw [List.mem_range'_1]
    omega
  have hlength := (hnodup.subperm hrange).length_le
  rw [List.length_range'] at hlength
  have hsize := hs.keeps.size
  omega

/-- Objects from before are met within new ones only, and render as they did. -/
theorem Filling.render_before (hclosed : σ.heap.Closed) {fuel : Nat}
    (hfuel : s.heap.size ≤ fuel + path.length) {o : ObjectRef} (ho : o.id < σ.heap.size) :
    s.heap.objectToJson fuel path o = σ.before o := by
  have hlength := hs.length_le hnodup hnew
  have hroom := unmet_le σ.heap.size path
  have hempty := unmet_le σ.heap.size []
  refine hs.keeps.objectToJson_eq hclosed ho (fun id hid => ?_) (by omega) (by omega)
  refine ⟨fun hmem => ?_, fun hmem => by cases hmem⟩
  obtain ⟨p, hp⟩ := hnew id hmem
  exact absurd (hs.ge id p hp) (by omega)

end

/-- The objects of a mapper render as the views of their rows, within whatever objects they are met. -/
def Renders (σ : Stage C) (L : Labels) (s : PassState C) (a : Registration C) : Prop :=
  ∀ (row : Row) (o : ObjectRef) (path : List Nat) (fuel depth : Nat), L.Of a.mapper.key row o →
    Around σ L a.mapper.key path → fuel + path.length = s.heap.size + 2 →
    Graph.height (DependsOn σ.registry.mappers) a.mapper.key ≤ depth →
    s.heap.objectToJson fuel path o = σ.view depth a.mapper.key row

namespace Stage.Tame

variable {σ : Stage C} (h : σ.Tame) {L : Labels} {s : PassState C} (hs : Filling σ L [] s)
  (hrequests : s.requests = []) {a : Registration C} (ha : a ∈ σ.registry.registrations)
include h

theorem value?_within (ha : a ∈ σ.registry.registrations) {row : Row} (hread : σ.reads a.mapper.key row)
    {i : Item C} (hi : i ∈ a.mapper.items) (hscalar : i.sourceShape = .scalar) {v : Value}
    (hv : σ.value? a.mapper.key i row = some v) : v.Within σ.heap.size := by
  have hcolumn : i.IsColumn σ.tables σ.heap.size := by
    refine ((h.registry.laid ha).tame i hi).kind.resolve_right fun hmapped => ?_
    obtain ⟨dependency, hneeds⟩ := hmapped.needs
    rw [Item.dependency?_of_scalar hscalar] at hneeds
    cases hneeds
  exact Item.value?_within hcolumn.pure h.within (h.regular.isScalar_cell i (h.mem _ _ hread)) hcolumn.shape hv

include hs hrequests ha

theorem fulfilled_of_filled {row : Row} {o : ObjectRef} (ho : L.Of a.mapper.key row o) :
    List.Forall₂ (fun i e => e.1 = i.destination ∧ Fulfilled σ L a.mapper.key i row e.2) a.mapper.items
      (s.heap.fields o).entries := by
  have hfilled := hs.filled a ha row o ho
  rw [hrequests] at hfilled
  refine Dict.forall₂_entries hfilled.keys_eq ?_ fun i hi => ?_
  · rw [hfilled.keys_eq]
    exact (h.registry.laid ha).destinations
  · obtain ⟨v, hget, hdone | ⟨-, d, hd, -⟩⟩ := hfilled.item i hi
    · exact ⟨v, hget, hdone⟩
    · simp at hd

theorem renders : Renders σ L s a := by
  -- The induction is on what mappers need: the objects in a field belong to mappers below.
  refine h.registry.induct (fun a ha ih row o path fuel depth ho haround hfuel hdepth => ?_) ha
  have haboves : ∀ id ∈ path, ∃ p, L id = some p := fun id hid => (haround.above id hid).imp fun _ hp => hp.1
  have hlength := hs.length_le haround.nodup haboves
  have hpos := h.registry.bounded.height_pos a.mapper.key
  obtain ⟨fuel, rfl⟩ : ∃ n, fuel = n + 1 := ⟨fuel - 1, by omega⟩
  obtain ⟨depth, rfl⟩ : ∃ n, depth = n + 1 := ⟨depth - 1, by omega⟩
  have hread := (hs.known _ _ ho.1).1
  have hnew : ∀ id ∈ o.id :: path, ∃ p, L id = some p := by
    intro id hid
    rcases List.mem_cons.mp hid with rfl | hid
    · exact ⟨_, ho.1⟩
    · exact haboves id hid
  have hfields : Value.fieldsToJson (s.heap.objectToJson fuel (o.id :: path)) (s.heap.fields o).entries =
      a.mapper.items.mapM fun i : Item C =>
        (i.view σ a.mapper.key row (σ.view depth)).map (i.destination, ·) := by
    have hdone := (List.forall₂_and_left _ _).mpr
      ⟨fun _ hi => hi, h.fulfilled_of_filled hs hrequests ha ho⟩
    refine fieldsToJson_eq (hdone.imp ?_)
    rintro i e ⟨hi, hname, hdone⟩
    refine ⟨hname, hdone.shown.toJsonWith_eq (fun hscalar w hw => h.value?_within ha hread hi hscalar hw) ?_ ?_⟩
    · intro o' ho'
      refine hs.render_before (List.nodup_cons.mpr ⟨haround.not_mem ho, haround.nodup⟩) hnew h.closed ?_ ho'
      rw [List.length_cons]
      omega
    intro dependency hneeds next o' ho'
    obtain ⟨-, b, hb, rfl⟩ := hs.known _ _ ho'.1
    have hedge : DependsOn σ.registry.mappers a.mapper.key b.mapper.key :=
      ⟨a.mapper, List.mem_map_of_mem ha, rfl, i, hi, hneeds⟩
    have hlower := h.registry.bounded.height_lt hedge
    refine ih b hb hedge next o' _ _ _ ho' (haround.cons ho hlower) ?_ (by omega)
    rw [List.length_cons]
    omega
  unfold Heap.objectToJson Stage.view
  rw [if_neg (haround.not_mem ho), h.registry.find?_mappers ha]
  dsimp only
  rw [hfields]

end Stage.Tame

end EntityMapping
