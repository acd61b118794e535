import EntityMapping.Heap.Json
import EntityMapping.Item
import EntityMapping.Proofs.Grouping
import EntityMapping.Source.Memory

/-! # Reference semantics

What a mapper shows of a row, read off the tables item by item. A relation leads to the rows of its target
that hold the same key, a path follows relations one after the other, and the JSON of a row holds the JSON
of the rows that it leads to. Nothing is queued, shared or joined in advance.
-/

namespace EntityMapping

namespace Value

/-- Neither a list nor a row nor an object. -/
def isScalar : Value → Bool
  | .list _ | .row _ | .object _ => false
  | _ => true

/-- The JSON of a scalar. -/
def cell (v : Value) : Json := (v.toJsonWith fun _ => .ok .null).toOption.getD .null

theorem toJsonWith_of_isScalar {v : Value} (h : v.isScalar = true)
    (render : ObjectRef → Except Error Json) : v.toJsonWith render = .ok v.cell := by
  cases v with
  | list | row | object => cases h
  | _ => rfl

/-- A value that asks for nothing, or a key that rows can be fetched by. -/
def AsksWell (v : Value) : Prop := v = .null ∨ ∃ k, v.asKey? = some k ∧ k.isFetchable = true

instance (v : Value) : Decidable v.AsksWell :=
  decidable_of_iff (v.isNull = true ∨ v.asKey?.any (·.isFetchable) = true) <| by
    unfold AsksWell
    rw [Option.any_eq_true]
    cases v <;> simp [isNull]

end Value

/-! ## Relations and paths -/

namespace Source.Memory

variable (m : Memory) (metadata : Metadata)

/-- The rows with a key in a column, in table order. -/
def holding (entity column : String) (k : Key) : List Row :=
  (m.rows entity).filter fun row => (row.value column).asKey? = some k

/-- The rows that a relation leads to: their remote column holds the key that the row has in the local
one. -/
def related (r : Relation) (row : Row) : List Row :=
  match (row.value r.localColumn).asKey? with
  | some k => m.holding r.target r.remoteColumn k
  | none => []

/-- The row that a path of relations leads to, with its entity. Every step takes the first row. -/
def follow : (entity : String) → Row → List String → Option (String × Row)
  | entity, row, [] => some (entity, row)
  | entity, row, segment :: rest =>
    match metadata.navigation entity segment with
    | .error _ => none
    | .ok r =>
      match m.related r row with
      | [] => none
      | next :: _ => follow r.target next rest

/-- The column at the end of a path, null when the path leads to no row. -/
def cellAt (entity : String) (row : Row) (path : List String) : Value :=
  match m.follow metadata entity row path.dropLast with
  | some (_, last) => last.value (path.getLastD "")
  | none => .null

/-- The row at the end of a path. -/
def rowAt (entity : String) (row : Row) (path : List String) : Option Row :=
  (m.follow metadata entity row path).map (·.2)

/-- The last relation of a path, with the row that it starts from. -/
def lastStep (entity : String) (row : Row) (path : List String) : Option (Relation × Row) :=
  match m.follow metadata entity row path.dropLast with
  | some (declaring, last) =>
    match metadata.navigation declaring (path.getLastD "") with
    | .ok r => some (r, last)
    | .error _ => none
  | none => none

/-- All rows that the last relation of a path leads to. -/
def rowsAt (entity : String) (row : Row) (path : List String) : List Row :=
  match m.lastStep metadata entity row path with
  | some (r, last) => m.related r last
  | none => []

/-- The key that the last relation of a path goes by. -/
def keyAt (entity : String) (row : Row) (path : List String) : Value :=
  match m.lastStep metadata entity row path with
  | some (r, last) => last.value r.localColumn
  | none => .null

/-- Cells are scalars, and rows of a table with one primary key are one and the same. -/
structure Regular : Prop where
  scalar : ∀ entity, ∀ row ∈ m.rows entity, ∀ column, (row.value column).isScalar = true
  identical : ∀ entity e, metadata.entity? entity = some e →
    ∀ row ∈ m.rows entity, ∀ row' ∈ m.rows entity, ∀ k,
      row.key e.primaryKey = some k → row'.key e.primaryKey = some k → row = row'

end Source.Memory

/-- No relation of an entity has the name of a column that joins the entity with another one. -/
def Metadata.NamesApart (metadata : Metadata) : Prop :=
  ∀ entity e, metadata.entity? entity = some e → ∀ r ∈ e.relations,
    (∀ own ∈ e.relations, r.name ≠ own.localColumn) ∧
      ∀ owner o, metadata.entity? owner = some o → ∀ other ∈ o.relations,
        other.target = entity → r.name ≠ other.remoteColumn

/-! ## Mappers -/

variable {C : Type}

def Style.isFetch : Style C → Bool
  | .fetch => true
  | _ => false

namespace Item

variable (i : Item C) (metadata : Metadata) (m : Source.Memory) (entity : String) (row : Row)

/-- The rows that an item has mapped. Rows that are fetched are all mapped, even for a single one. -/
def leads : List Row :=
  match i.source, i.sourceShape with
  | .path path, .entity _ =>
    if i.style.isFetch then m.rowsAt metadata entity row path
    else (m.rowAt metadata entity row path).toList
  | .path path, .sequence _ => m.rowsAt metadata entity row path
  | _, _ => []

/-- The key that a fetched item reads. -/
def asked : Value :=
  match i.source with
  | .path path => m.keyAt metadata entity row path
  | .computed _ => .null

/-- The JSON that an item shows, given the JSON of the rows that it leads to. -/
def evaluate (render : MapperKey → Row → Json) : Json :=
  match i.source, i.sourceShape, i.dependency? with
  | .path path, .entity _, some dependency =>
    match m.rowAt metadata entity row path with
    | some next => render dependency next
    | none => .null
  | .path path, .sequence _, some dependency =>
    .array ((m.rowsAt metadata entity row path).map (render dependency))
  | .path path, _, _ => (m.cellAt metadata entity row path).cell
  | .computed _, _, _ => .null

end Item

/-- The JSON of a row by a mapper. The depth bounds how far mappers need each other. -/
def evaluate (metadata : Metadata) (m : Source.Memory) (mappers : List (Mapper C)) :
    (depth : Nat) → MapperKey → Row → Json
  | 0, _, _ => .null
  | depth + 1, key, row =>
    match mappers.find? (·.key = key) with
    | some mapper =>
      .ofMembers <| mapper.items.map fun i =>
        (i.destination, i.evaluate metadata m key.source row (evaluate metadata m mappers depth))
    | none => .null

/-- The rows that are mapped, and by which mapper, when some rows of a root mapper are. -/
inductive Reads (metadata : Metadata) (m : Source.Memory) (mappers : List (Mapper C)) (root : MapperKey)
    (rows : List Row) : MapperKey → Row → Prop
  | root {row : Row} : row ∈ rows → Reads metadata m mappers root rows root row
  | item {mapper : Mapper C} {row next : Row} {i : Item C} {dependency : MapperKey} :
    mapper ∈ mappers → Reads metadata m mappers root rows mapper.key row → i ∈ mapper.items →
    i.dependency? = some dependency → next ∈ i.leads metadata m mapper.key.source row →
    Reads metadata m mappers root rows dependency next

/-! ## Checks -/

theorem Source.Memory.exists_table {m : Source.Memory} {entity : String} {row : Row}
    (h : row ∈ m.rows entity) : ∃ rows, (entity, rows) ∈ m.tables.entries ∧ row ∈ rows := by
  unfold Source.Memory.rows at h
  cases hget : m.tables.get? entity with
  | none =>
    rw [hget] at h
    simp at h
  | some rows =>
    rw [hget] at h
    exact ⟨rows, Dict.mem_entries_of_get? hget, h⟩

theorem Row.value_cases (row : Row) (column : String) :
    Row.value row column = .null ∨ (column, Row.value row column) ∈ row.entries := by
  unfold Row.value
  cases hget : row.get? column with
  | none => exact Or.inl rfl
  | some v => exact Or.inr (Dict.mem_entries_of_get? hget)

theorem Source.Memory.value_of_entries {m : Source.Memory} {P : Value → Prop} (hnull : P .null)
    (h : ∀ t ∈ m.tables.entries, ∀ row ∈ t.2, ∀ cell ∈ row.entries, P cell.2) {entity : String}
    {row : Row} (hrow : row ∈ m.rows entity) (column : String) : P (Row.value row column) := by
  obtain ⟨rows, htable, hrow⟩ := Source.Memory.exists_table hrow
  rcases Row.value_cases row column with hvalue | hmem
  · rw [hvalue]
    exact hnull
  · exact h _ htable row hrow _ hmem

theorem eq_of_nodup_filterMap {α κ : Type} {f : α → Option κ} {l : List α} (h : (l.filterMap f).Nodup)
    {a b : α} (ha : a ∈ l) (hb : b ∈ l) {k : κ} (hfa : f a = some k) (hfb : f b = some k) : a = b := by
  have hne := List.pairwise_filterMap.mp h
  have hall : ∀ ⦃a⦄, a ∈ l → ∀ ⦃b⦄, b ∈ l → ∀ k, f a = some k → f b = some k → a = b := by
    apply List.Pairwise.forall_of_forall_of_flip
    · exact fun _ _ _ _ _ => rfl
    · exact hne.imp fun hab k hka hkb => absurd rfl (hab k hka k hkb)
    · exact hne.imp fun hab k hkb hka => absurd rfl (hab k hka k hkb)
  exact hall ha hb k hfa hfb

theorem Source.Memory.Regular.of_entries {m : Source.Memory} {metadata : Metadata}
    (hscalar : ∀ t ∈ m.tables.entries, ∀ row ∈ t.2, ∀ cell ∈ row.entries, cell.2.isScalar = true)
    (hkeys : ∀ t ∈ m.tables.entries, ∀ e ∈ metadata.entities.entries, e.1 = t.1 →
      (t.2.filterMap fun row => Row.key row e.2.primaryKey).Nodup) : m.Regular metadata where
  scalar _ _ hrow column :=
    Source.Memory.value_of_entries (P := fun v => v.isScalar = true) rfl hscalar hrow column
  identical entity e he row hrow row' hrow' k hk hk' := by
    unfold Source.Memory.rows at hrow hrow'
    cases hget : m.tables.get? entity with
    | none =>
      rw [hget] at hrow
      simp at hrow
    | some rows =>
      rw [hget] at hrow hrow'
      have hnodup := hkeys _ (Dict.mem_entries_of_get? hget) _ (Dict.mem_entries_of_get? he) rfl
      exact eq_of_nodup_filterMap hnodup hrow hrow' hk hk'

theorem Metadata.namesApart_of_entries {metadata : Metadata}
    (h : ∀ t ∈ metadata.entities.entries, ∀ r ∈ t.2.relations,
      (∀ own ∈ t.2.relations, r.name ≠ own.localColumn) ∧
        ∀ o ∈ metadata.entities.entries, ∀ other ∈ o.2.relations,
          other.target = t.1 → r.name ≠ other.remoteColumn) : metadata.NamesApart := by
  intro entity e he r hr
  obtain ⟨hown, hother⟩ := h _ (Dict.mem_entries_of_get? he) r hr
  exact ⟨hown, fun owner o ho => hother _ (Dict.mem_entries_of_get? ho)⟩

end EntityMapping
