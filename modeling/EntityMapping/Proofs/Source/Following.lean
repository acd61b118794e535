import EntityMapping.Proofs.Source.Joining
import Mathlib.Data.List.Forall2

/-! # Paths on joined rows

A row that is joined with the relations of a path can be read along it: the path ends where following its
relations from the row of the table ends. It does not matter what else was joined.
-/

namespace EntityMapping

/-! ## Reading paths -/

namespace Row

theorem path_cons_cons (row : Row) (segment other : String) (rest : List String) :
    row.path (segment :: other :: rest) =
      match row.value segment with
      | .row next => Row.path next (other :: rest)
      | _ => .null := by
  cases hvalue : row.value segment <;> simp [Row.path, hvalue]

theorem path_of_value_row {row next : Row} {segment : String} (h : row.value segment = .row next)
    (rest : List String) : row.path (segment :: rest) = next.path rest := by
  cases rest with
  | nil => exact h
  | cons other rest => rw [path_cons_cons, h]

theorem path_of_value_null {row : Row} {segment : String} (h : row.value segment = .null)
    (rest : List String) : row.path (segment :: rest) = .null := by
  cases rest with
  | nil => exact h
  | cons other rest => rw [path_cons_cons, h]

theorem path_concat (row : Row) (path : List String) (column : String) :
    row.path (path ++ [column]) = row.columnAt path column := by
  cases path with
  | nil => rfl
  | cons segment rest =>
    unfold Row.columnAt
    dsimp only
    induction rest generalizing row segment with
    | nil =>
      rw [List.cons_append, List.nil_append, path_cons_cons]
      rfl
    | cons other rest ih =>
      rw [List.cons_append, List.cons_append, path_cons_cons, path_cons_cons, ← List.cons_append]
      cases row.value segment with
      | row next => exact ih next other
      | _ => rfl

theorem columnAt_eq_match (row : Row) (path : List String) (column : String) :
    row.columnAt path column =
      match row.path path with
      | .row next => Row.value next column
      | _ => .null := by
  cases path <;> rfl

end Row

namespace Metadata

/-- A path of relations to single rows leads from one entity to another, by entities that are known. -/
def Steps (metadata : Metadata) : (entity : String) → List String → (last : String) → Prop
  | entity, [], last => entity = last
  | entity, segment :: rest, last =>
    ∃ r, metadata.navigation entity segment = .ok r ∧ r.kind ≠ .hasMany ∧
      (∃ e, metadata.entity? r.target = some e) ∧ metadata.Steps r.target rest last

/-- The name stands for no relation of the entity. -/
def Unrelated (metadata : Metadata) (entity column : String) : Prop :=
  ∀ r, metadata.navigation entity column ≠ .ok r

variable {metadata : Metadata}

theorem Steps.refl (entity : String) : metadata.Steps entity [] entity := rfl

theorem Steps.cons {entity segment last : String} {path : List String} {r : Relation}
    (hr : metadata.navigation entity segment = .ok r) (hkind : r.kind ≠ .hasMany)
    (hknown : ∃ e, metadata.entity? r.target = some e) (h : metadata.Steps r.target path last) :
    metadata.Steps entity (segment :: path) last :=
  ⟨r, hr, hkind, hknown, h⟩

theorem Steps.concat {entity last segment : String} {path : List String} {r : Relation}
    (h : metadata.Steps entity path last) (hr : metadata.navigation last segment = .ok r)
    (hkind : r.kind ≠ .hasMany) (hknown : ∃ e, metadata.entity? r.target = some e) :
    metadata.Steps entity (path ++ [segment]) r.target := by
  induction path generalizing entity with
  | nil =>
    obtain rfl : entity = last := h
    exact ⟨r, hr, hkind, hknown, rfl⟩
  | cons other rest ih =>
    obtain ⟨r', hr', hkind', hknown', hrest⟩ := h
    exact ⟨r', hr', hkind', hknown', ih hrest⟩

theorem Steps.walkable {entity last : String} {path rest : List String}
    (h : metadata.Steps entity path last) (hrest : metadata.Walkable last rest) :
    metadata.Walkable entity (path ++ rest) := by
  induction path generalizing entity with
  | nil =>
    obtain rfl : entity = last := h
    exact hrest
  | cons segment path ih =>
    obtain ⟨r, hr, -, -, hpath⟩ := h
    exact ⟨r, hr, ih hpath⟩

theorem Walkable.nil {entity : String} (h : ∃ e, metadata.entity? entity = some e) :
    metadata.Walkable entity [] :=
  h

theorem Walkable.cons {entity segment : String} {path : List String} {r : Relation}
    (hr : metadata.navigation entity segment = .ok r) (h : metadata.Walkable r.target path) :
    metadata.Walkable entity (segment :: path) :=
  ⟨r, hr, h⟩

theorem Walkable.exists_entity {entity : String} {path : List String}
    (h : metadata.Walkable entity path) : ∃ e, metadata.entity? entity = some e := by
  cases path with
  | nil => exact h
  | cons segment rest =>
    obtain ⟨r, hr, -⟩ := h
    obtain ⟨e, he, -⟩ := navigation_eq_ok.mp hr
    exact ⟨e, he⟩

theorem Walkable.of_front {entity : String} {path rest : List String}
    (h : metadata.Walkable entity rest) (hfront : path <+: rest) : metadata.Walkable entity path := by
  induction path generalizing entity rest with
  | nil => exact h.exists_entity
  | cons segment path ih =>
    obtain ⟨more, rfl⟩ := hfront
    obtain ⟨r, hr, hrest⟩ := h
    exact ⟨r, hr, ih hrest ⟨more, rfl⟩⟩

theorem Steps.walkable_front {entity last : String} {path p : List String}
    (h : metadata.Steps entity path last) (hne : p ≠ []) (hfront : p <+: path) :
    metadata.Walkable entity p := by
  induction path generalizing entity p with
  | nil => exact absurd (List.prefix_nil.mp hfront) hne
  | cons segment path ih =>
    obtain ⟨r, hr, -, hknown, hpath⟩ := h
    rcases List.prefix_cons_iff.mp hfront with rfl | ⟨p', rfl, hp'⟩
    · exact absurd rfl hne
    · refine ⟨r, hr, ?_⟩
      by_cases hnil : p' = []
      · exact hnil ▸ hknown
      · exact ih hpath hnil hp'

theorem NamesApart.unrelated_localColumn (h : metadata.NamesApart) {entity segment : String}
    {r : Relation} (hr : metadata.navigation entity segment = .ok r) :
    metadata.Unrelated entity r.localColumn :=
  fun _ hr' => h.ne_localColumn hr' hr rfl

theorem NamesApart.unrelated_remoteColumn (h : metadata.NamesApart) {owner segment : String}
    {r : Relation} (hr : metadata.navigation owner segment = .ok r) :
    metadata.Unrelated r.target r.remoteColumn :=
  fun _ hr' => h.ne_remoteColumn hr hr' rfl

theorem NamesApart.unrelated_foreignKey {entities : List Entity} (h : (ofList entities).NamesApart)
    {entity column : String} {columns : List String} (hcolumns : (ofList entities).foreignKeysOn entity = .ok columns)
    (hmem : column ∈ columns) : (ofList entities).Unrelated entity column := by
  intro r hr
  obtain ⟨e, he, hrelation, rfl⟩ := name_of_navigation hr
  obtain ⟨hown, hother⟩ := h entity e he r hrelation
  rcases (mem_foreignKeysOn he hcolumns).mp hmem with
    ⟨own, hmem, hkind, heq⟩ | ⟨owner, o, ho, other, hmem, hkind, htarget, heq⟩
  · refine hown own hmem (heq.symm.trans ?_)
    rw [Relation.localColumn, hkind]
  · exact hother owner o ho other hmem htarget (heq.symm.trans (Relation.remoteColumn_eq hkind).symm)

end Metadata

/-! ## Joined rows -/

namespace Source.Memory

variable {m : Memory} {metadata : Metadata}

/-- A row with at least the relations that some includes load. -/
def Joined (m : Memory) (metadata : Metadata) (needed : List Include) (entity : String)
    (row joined : Row) : Prop :=
  ∃ is, Include.DistinctAll is ∧ (∀ p ∈ Include.pathsOf is, metadata.Walkable entity p) ∧
    Include.pathsOf needed ⊆ Include.pathsOf is ∧ joined = m.joinAll metadata entity row is

namespace Joined

variable {needed nested : List Include} {entity : String} {row joined : Row}

theorem mono (h : Joined m metadata needed entity row joined)
    (hsub : Include.pathsOf nested ⊆ Include.pathsOf needed) :
    Joined m metadata nested entity row joined := by
  obtain ⟨is, hdistinct, hwalk, hneeded, rfl⟩ := h
  exact ⟨is, hdistinct, hwalk, List.Subset.trans hsub hneeded, rfl⟩

theorem value_eq (h : Joined m metadata needed entity row joined) {column : String}
    (hcolumn : metadata.Unrelated entity column) : joined.value column = row.value column := by
  obtain ⟨is, -, hwalk, -, rfl⟩ := h
  apply value_joinAll_of_not_mem
  intro hmem
  obtain ⟨i, hi, rfl⟩ := List.mem_map.mp hmem
  obtain ⟨r, hr⟩ := known_of_walkable hwalk i hi
  exact hcolumn r hr

theorem asKey? (h : Joined m metadata needed entity row joined) {column : String} {k : Key}
    (hk : (joined.value column).asKey? = some k) : (row.value column).asKey? = some k := by
  obtain ⟨is, -, -, -, rfl⟩ := h
  exact asKey?_of_joinAll hk

/-- The field of a relation holds the rows that it leads to, and they are joined further. -/
theorem value_relation (hapart : metadata.NamesApart) {segment : String} {rest : List String}
    (h : Joined m metadata (Include.alongPath nested (segment :: rest)) entity row joined)
    {r : Relation} (hr : metadata.navigation entity segment = .ok r) :
    ∃ found, joined.value segment = relationValue r.kind found ∧
      List.Forall₂ (Joined m metadata (Include.alongPath nested rest) r.target) (m.related r row)
        found := by
  obtain ⟨is, hdistinct, hwalk, hneeded, rfl⟩ := h
  obtain ⟨inner, hmem, hsub⟩ := hdistinct.exists_mem_of_alongPath hneeded
  refine ⟨_, value_joinAll hapart hdistinct (known_of_walkable hwalk) hmem hr row, ?_⟩
  rw [List.forall₂_map_right_iff, List.forall₂_same]
  refine fun next _ => ⟨inner, hdistinct.distinct hmem, fun p hp => ?_, hsub, rfl⟩
  have hne := Include.ne_nil_of_mem_pathsOf hp
  obtain ⟨r', hr', hwalkable⟩ := hwalk _ ((hdistinct.mem_nested hmem hne).mpr hp)
  obtain rfl := Except.ok.inj (hr.symm.trans hr')
  exact hwalkable

theorem path_eq (hapart : metadata.NamesApart) {path : List String} {last : String}
    (hsteps : metadata.Steps entity path last)
    (h : Joined m metadata (Include.alongPath nested path) entity row joined) :
    (m.follow metadata entity row path = none ∧ joined.path path = .null) ∨
      ∃ next joined', m.follow metadata entity row path = some (last, next) ∧
        joined.path path = .row joined' ∧ Joined m metadata nested last next joined' := by
  induction path generalizing entity row joined with
  | nil =>
    obtain rfl : entity = last := hsteps
    exact Or.inr ⟨row, joined, rfl, rfl, h⟩
  | cons segment rest ih =>
    obtain ⟨r, hr, hkind, -, hrest⟩ := hsteps
    obtain ⟨found, hvalue, hfound⟩ := h.value_relation hapart hr
    unfold follow
    rw [hr]
    dsimp only
    -- A path goes on with the first of the related rows.
    generalize m.related r row = nexts at hfound ⊢
    cases hfound with
    | nil =>
      left
      refine ⟨rfl, Row.path_of_value_null ?_ rest⟩
      rw [hvalue]
      cases hk : r.kind <;> simp_all [relationValue]
    | @cons next joined' nexts joineds hnext _ =>
      have hrow : joined.value segment = .row joined' := by
        rw [hvalue]
        cases hk : r.kind <;> simp_all [relationValue]
      rw [Row.path_of_value_row hrow]
      exact ih hrest hnext

theorem columnAt_eq (hapart : metadata.NamesApart) {path : List String} {last column : String}
    (hsteps : metadata.Steps entity path last) (hcolumn : metadata.Unrelated last column)
    (h : Joined m metadata (Include.alongPath nested path) entity row joined) :
    joined.columnAt path column =
      ((m.follow metadata entity row path).map fun p => p.2.value column).getD .null := by
  rw [Row.columnAt_eq_match]
  rcases h.path_eq hapart hsteps with ⟨hnone, hpath⟩ | ⟨next, joined', hsome, hpath, hnext⟩
  · rw [hnone, hpath]
    rfl
  · rw [hsome, hpath]
    exact hnext.value_eq hcolumn

end Joined

/-! ## The ends of paths -/

theorem mem_of_related {r : Relation} {row next : Row} (h : next ∈ m.related r row) :
    next ∈ m.rows r.target := by
  unfold related at h
  split at h
  · exact List.mem_of_mem_filter h
  · simp at h

theorem mem_of_follow {entity last : String} {row next : Row} {path : List String}
    (hrow : row ∈ m.rows entity) (h : m.follow metadata entity row path = some (last, next)) :
    next ∈ m.rows last := by
  induction path generalizing entity row with
  | nil =>
    obtain ⟨rfl, rfl⟩ := Prod.mk.inj (Option.some.inj h)
    exact hrow
  | cons segment rest ih =>
    unfold follow at h
    split at h
    · simp at h
    · split at h
      · simp at h
      · rename_i hrelated
        have hmem := mem_of_related (hrelated ▸ List.mem_cons_self : _ ∈ m.related _ row)
        exact ih hmem h

theorem Regular.isScalar_cellAt (h : m.Regular metadata) {entity : String} {row : Row}
    (hrow : row ∈ m.rows entity) (path : List String) :
    (m.cellAt metadata entity row path).isScalar = true := by
  unfold cellAt
  split
  · rename_i hfollow
    exact h.scalar _ _ (mem_of_follow hrow hfollow) _
  · rfl

theorem cellAt_concat (entity : String) (row : Row) (path : List String) (column : String) :
    m.cellAt metadata entity row (path ++ [column]) =
      ((m.follow metadata entity row path).map fun p => p.2.value column).getD .null := by
  unfold cellAt
  rw [List.dropLast_concat, List.getLastD_concat]
  cases m.follow metadata entity row path <;> rfl

theorem follow_concat (entity : String) (row : Row) (path : List String) (segment : String) :
    m.follow metadata entity row (path ++ [segment]) =
      (m.follow metadata entity row path).bind fun p => m.follow metadata p.1 p.2 [segment] := by
  induction path generalizing entity row with
  | nil => rfl
  | cons other rest ih =>
    rw [List.cons_append, follow, follow]
    cases metadata.navigation entity other with
    | error e => rfl
    | ok r =>
      dsimp only
      cases m.related r row with
      | nil => rfl
      | cons next nexts => exact ih r.target next

section

variable {entity last segment : String} {path : List String} {r : Relation}

theorem follow_fst (hsteps : metadata.Steps entity path last) {row : Row} {p : String × Row}
    (h : m.follow metadata entity row path = some p) : p.1 = last := by
  induction path generalizing entity row with
  | nil =>
    obtain rfl : entity = last := hsteps
    obtain rfl := Option.some.inj h
    rfl
  | cons other rest ih =>
    obtain ⟨r, hr, -, -, hrest⟩ := hsteps
    rw [follow, hr] at h
    dsimp only at h
    split at h
    · simp at h
    · exact ih hrest h

theorem lastStep_eq (hsteps : metadata.Steps entity path last)
    (hr : metadata.navigation last segment = .ok r) (row : Row) :
    m.lastStep metadata entity row (path ++ [segment]) =
      (m.follow metadata entity row path).map fun p => (r, p.2) := by
  unfold lastStep
  rw [List.dropLast_concat, List.getLastD_concat]
  cases hfollow : m.follow metadata entity row path with
  | none => rfl
  | some p =>
    dsimp only
    rw [follow_fst hsteps hfollow, hr]
    rfl

theorem rowsAt_eq (hsteps : metadata.Steps entity path last)
    (hr : metadata.navigation last segment = .ok r) (row : Row) :
    m.rowsAt metadata entity row (path ++ [segment]) =
      ((m.follow metadata entity row path).map fun p => m.related r p.2).getD [] := by
  unfold rowsAt
  rw [lastStep_eq hsteps hr]
  cases m.follow metadata entity row path <;> rfl

theorem keyAt_eq (hsteps : metadata.Steps entity path last)
    (hr : metadata.navigation last segment = .ok r) (row : Row) :
    m.keyAt metadata entity row (path ++ [segment]) =
      ((m.follow metadata entity row path).map fun p => p.2.value r.localColumn).getD .null := by
  unfold keyAt
  rw [lastStep_eq hsteps hr]
  cases m.follow metadata entity row path <;> rfl

theorem mem_of_rowAt (hsteps : metadata.Steps entity path last) {row next : Row}
    (hrow : row ∈ m.rows entity) (h : m.rowAt metadata entity row path = some next) :
    next ∈ m.rows last := by
  unfold rowAt at h
  obtain ⟨p, hfollow, rfl⟩ := Option.map_eq_some_iff.mp h
  exact follow_fst hsteps hfollow ▸ mem_of_follow hrow hfollow

theorem mem_of_rowsAt (hsteps : metadata.Steps entity path last)
    (hr : metadata.navigation last segment = .ok r) {row next : Row}
    (h : next ∈ m.rowsAt metadata entity row (path ++ [segment])) : next ∈ m.rows r.target := by
  rw [rowsAt_eq hsteps hr] at h
  cases hfollow : m.follow metadata entity row path with
  | none =>
    rw [hfollow] at h
    simp at h
  | some p =>
    rw [hfollow] at h
    exact mem_of_related h

theorem rowAt_eq_head? (hsteps : metadata.Steps entity path last)
    (hr : metadata.navigation last segment = .ok r) (row : Row) :
    m.rowAt metadata entity row (path ++ [segment]) =
      (m.rowsAt metadata entity row (path ++ [segment])).head? := by
  unfold rowAt
  rw [rowsAt_eq hsteps hr, follow_concat]
  cases hfollow : m.follow metadata entity row path with
  | none => rfl
  | some p =>
    simp only [Option.bind_some, Option.map_some, Option.getD_some]
    rw [follow, follow_fst hsteps hfollow, hr]
    dsimp only
    cases m.related r p.2 <;> rfl

theorem rowsAt_eq_holding (hsteps : metadata.Steps entity path last)
    (hr : metadata.navigation last segment = .ok r) (row : Row) :
    m.rowsAt metadata entity row (path ++ [segment]) =
      match (m.keyAt metadata entity row (path ++ [segment])).asKey? with
      | some k => m.holding r.target r.remoteColumn k
      | none => [] := by
  rw [rowsAt_eq hsteps hr, keyAt_eq hsteps hr]
  cases m.follow metadata entity row path <;> rfl

end

namespace Joined

variable {needed nested : List Include} {entity last : String} {row joined : Row} {path : List String}

theorem cellAt_eq (hapart : metadata.NamesApart) {column : String}
    (hsteps : metadata.Steps entity path last) (hcolumn : metadata.Unrelated last column)
    (h : Joined m metadata (Include.alongPath nested path) entity row joined) :
    joined.path (path ++ [column]) = m.cellAt metadata entity row (path ++ [column]) := by
  rw [Row.path_concat, h.columnAt_eq hapart hsteps hcolumn, cellAt_concat]

theorem keyAt_eq (hapart : metadata.NamesApart) {segment : String} {r : Relation}
    (hsteps : metadata.Steps entity path last) (hr : metadata.navigation last segment = .ok r)
    (h : Joined m metadata (Include.alongPath nested path) entity row joined) :
    joined.columnAt path r.localColumn = m.keyAt metadata entity row (path ++ [segment]) := by
  rw [h.columnAt_eq hapart hsteps (hapart.unrelated_localColumn hr), Memory.keyAt_eq hsteps hr]

theorem lastStep_eq (hapart : metadata.NamesApart) {segment : String} {r : Relation}
    (hsteps : metadata.Steps entity path last) (hr : metadata.navigation last segment = .ok r)
    (hkind : r.kind = .hasMany)
    (h : Joined m metadata (Include.alongPath nested (path ++ [segment])) entity row joined) :
    (m.lastStep metadata entity row (path ++ [segment]) = none ∧ joined.path (path ++ [segment]) = .null) ∨
      ∃ next found, m.lastStep metadata entity row (path ++ [segment]) = some (r, next) ∧
        joined.path (path ++ [segment]) = .list (found.map .row) ∧
        List.Forall₂ (Joined m metadata nested r.target) (m.related r next) found := by
  rw [Include.alongPath_append] at h
  rw [Row.path_concat, Row.columnAt_eq_match, Memory.lastStep_eq hsteps hr]
  rcases h.path_eq hapart hsteps with ⟨hnone, hpath⟩ | ⟨next, joined', hsome, hpath, hnext⟩
  · rw [hnone, hpath]
    exact Or.inl ⟨rfl, rfl⟩
  · obtain ⟨found, hvalue, hfound⟩ := hnext.value_relation hapart hr
    rw [hsome, hpath]
    refine Or.inr ⟨next, found, rfl, ?_, hfound⟩
    dsimp only
    rw [hvalue, hkind]
    rfl

end Joined

end Source.Memory

end EntityMapping
