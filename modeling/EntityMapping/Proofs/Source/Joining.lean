import EntityMapping.Proofs.Including
import EntityMapping.Proofs.Reference
import EntityMapping.Proofs.Resolution
import EntityMapping.Source.Join

/-! # Joined rows

Rows in memory are loaded with their relations as if each relation were followed row by row. Joining adds
fields named after relations, so that the columns that rows are joined by stay as they are.
-/

namespace EntityMapping

/-! ## Navigations -/

theorem Relation.remoteColumn_eq {r : Relation} (h : r.kind ≠ .belongsTo) : r.remoteColumn = r.foreignKey := by
  unfold remoteColumn
  split
  · exact absurd (by assumption) h
  · rfl
  · rfl

namespace Metadata

/-- Every entity is known under its own name. -/
def Named (metadata : Metadata) : Prop := ∀ name e, metadata.entity? name = some e → e.name = name

theorem mem_of_entity? {entities : List Entity} {name : String} {e : Entity}
    (h : (ofList entities).entity? name = some e) : e ∈ entities ∧ e.name = name := by
  unfold ofList at h
  induction entities using List.reverseRecOn with
  | nil => cases h
  | append_singleton entities e' ih =>
    rw [List.foldl_concat] at h
    change (Dict.set _ e'.name e').get? name = some e at h
    rw [Dict.get?_set] at h
    split at h
    · rename_i heq
      obtain rfl := Option.some.inj h
      exact ⟨by simp, heq⟩
    · exact (ih h).imp_left (List.mem_append_left _)

theorem named_ofList (entities : List Entity) : (ofList entities).Named := fun _ _ h => (mem_of_entity? h).2

theorem nodup_ofList (entities : List Entity) : (ofList entities).entities.keys.Nodup := by
  unfold ofList
  induction entities using List.reverseRecOn with
  | nil => exact List.nodup_nil
  | append_singleton entities e ih =>
    rw [List.foldl_concat]
    exact Dict.nodup_keys_set ih _ _

theorem mem_foreignKeysOn {entities : List Entity} {entity column : String} {e : Entity}
    (he : (ofList entities).entity? entity = some e) {columns : List String}
    (h : (ofList entities).foreignKeysOn entity = .ok columns) : column ∈ columns ↔
      (∃ r ∈ e.relations, r.kind = .belongsTo ∧ r.foreignKey = column) ∨
        ∃ owner o, (ofList entities).entity? owner = some o ∧
          ∃ r ∈ o.relations, r.kind ≠ .belongsTo ∧ r.target = entity ∧ r.foreignKey = column := by
  obtain ⟨e', he', rfl⟩ := map_eq_ok.mp h
  obtain rfl := Option.some.inj (he.symm.trans (requireEntity_eq_ok.mp he'))
  have hname : e.name = entity := named_ofList entities entity e he
  have hown : column ∈ ownForeignKeys e ↔ ∃ r ∈ e.relations, r.kind = .belongsTo ∧ r.foreignKey = column := by
    simp [ownForeignKeys, and_assoc]
  have hexpected : ∀ o : Entity, column ∈ expectedForeignKeys e.name o ↔
      ∃ r ∈ o.relations, r.kind ≠ .belongsTo ∧ r.target = entity ∧ r.foreignKey = column := by
    simp [expectedForeignKeys, hname, and_assoc]
  refine mem_foldl_new.trans ?_
  rw [List.mem_append, List.mem_flatMap, hown]
  simp only [List.not_mem_nil, false_or, hexpected]
  refine or_congr_right ⟨?_, ?_⟩
  · rintro ⟨o, ho, hr⟩
    obtain ⟨entry, hentry, rfl⟩ := List.mem_map.mp (List.mem_mergeSort.mp ho)
    exact ⟨entry.1, entry.2, (Dict.mem_entries_iff (nodup_ofList entities)).mp hentry, hr⟩
  · rintro ⟨owner, o, ho, hr⟩
    refine ⟨o, List.mem_mergeSort.mpr ?_, hr⟩
    exact List.mem_map_of_mem (f := Prod.snd) (Dict.mem_entries_of_get? ho)

theorem navigation_eq_ok {metadata : Metadata} {entity segment : String} {r : Relation} :
    metadata.navigation entity segment = .ok r ↔
      ∃ e, metadata.entity? entity = some e ∧ e.relation? segment = some r := by
  unfold navigation
  change (metadata.requireEntity entity >>= fun e => e.requireRelation segment) = _ ↔ _
  simp only [bind_eq_ok, requireEntity_eq_ok, requireRelation_eq_ok]

/-- All relations of a path are known, and so are the entities that they lead to. -/
def Walkable (metadata : Metadata) : (entity : String) → List String → Prop
  | entity, [] => ∃ e, metadata.entity? entity = some e
  | entity, segment :: rest =>
    ∃ r, metadata.navigation entity segment = .ok r ∧ metadata.Walkable r.target rest

theorem name_of_navigation {metadata : Metadata} {entity segment : String} {r : Relation}
    (h : metadata.navigation entity segment = .ok r) :
    ∃ e, metadata.entity? entity = some e ∧ r ∈ e.relations ∧ r.name = segment := by
  obtain ⟨e, he, hr⟩ := navigation_eq_ok.mp h
  exact ⟨e, he, List.mem_of_find?_eq_some hr, by simpa using List.find?_some hr⟩

/-- The entities of the rows that includes lead to, and the entity that they start from. -/
inductive Involves (metadata : Metadata) : (entity : String) → List Include → String → Prop
  | root {entity : String} {is : List Include} : metadata.Involves entity is entity
  | step {entity name : String} {is : List Include} {i : Include} {r : Relation} : i ∈ is →
    metadata.navigation entity i.relation = .ok r → metadata.Involves r.target i.nested name →
    metadata.Involves entity is name

theorem Involves.mono {metadata : Metadata} {entity name : String} {is is' : List Include}
    (h : metadata.Involves entity is name) (hle : is ⊆ is') : metadata.Involves entity is' name := by
  cases h with
  | root => exact .root
  | step hi hr hnext => exact .step (hle hi) hr hnext

/-- No relation of one entity has the name of a column that joins the entity with another one. -/
def NamesApartAt (metadata : Metadata) (entity : String) : Prop :=
  ∀ e, metadata.entity? entity = some e → ∀ r ∈ e.relations,
    (∀ own ∈ e.relations, r.name ≠ own.localColumn) ∧
      ∀ owner o, metadata.entity? owner = some o → ∀ other ∈ o.relations,
        other.target = entity → r.name ≠ other.remoteColumn

theorem NamesApart.at {metadata : Metadata} (h : metadata.NamesApart) (entity : String) :
    metadata.NamesApartAt entity := h entity

namespace NamesApartAt

variable {metadata : Metadata}

theorem ne_localColumn {entity segment segment' : String} {r r' : Relation}
    (h : metadata.NamesApartAt entity) (hr : metadata.navigation entity segment = .ok r)
    (hr' : metadata.navigation entity segment' = .ok r') : segment ≠ r'.localColumn := by
  obtain ⟨e, he, hmem, rfl⟩ := name_of_navigation hr
  obtain ⟨e', he', hmem', -⟩ := name_of_navigation hr'
  obtain rfl := Option.some.inj (he.symm.trans he')
  exact (h e he r hmem).1 r' hmem'

theorem ne_remoteColumn {owner segment segment' : String} {r r' : Relation}
    (hr' : metadata.navigation owner segment' = .ok r') (h : metadata.NamesApartAt r'.target)
    (hr : metadata.navigation r'.target segment = .ok r) : segment ≠ r'.remoteColumn := by
  obtain ⟨e, he, hmem, rfl⟩ := name_of_navigation hr
  obtain ⟨o, ho, hmem', -⟩ := name_of_navigation hr'
  exact (h e he r hmem).2 owner o ho r' hmem' rfl

end NamesApartAt

namespace NamesApart

variable {metadata : Metadata} (h : metadata.NamesApart)
include h

theorem ne_localColumn {entity segment segment' : String} {r r' : Relation}
    (hr : metadata.navigation entity segment = .ok r)
    (hr' : metadata.navigation entity segment' = .ok r') : segment ≠ r'.localColumn :=
  (h.at entity).ne_localColumn hr hr'

theorem ne_remoteColumn {owner segment segment' : String} {r r' : Relation}
    (hr' : metadata.navigation owner segment' = .ok r')
    (hr : metadata.navigation r'.target segment = .ok r) : segment ≠ r'.remoteColumn :=
  NamesApartAt.ne_remoteColumn hr' (h.at r'.target) hr

end NamesApart

end Metadata

/-- A query that matches nothing needs no relations, and all that another one includes must be known. -/
def Query.Loads (q : Query) (metadata : Metadata) : Prop :=
  q.matchesNothing = true ∨ ∀ p ∈ Include.pathsOf q.includes, metadata.Walkable q.entity p

/-! ## Joining row by row -/

theorem Row.value_set (row : Row) (field column : String) (v : Value) :
    Row.value (row.set field v) column = if field = column then v else row.value column := by
  unfold Row.value
  rw [Dict.get?_set]
  split <;> rfl

theorem asKey?_relationValue (kind : RelationKind) (found : List Row) :
    (Source.relationValue kind found).asKey? = none := by
  cases kind <;> cases found <;> rfl

namespace Source.Memory

variable (m : Memory) (metadata : Metadata)

mutual

/-- The row with the field of an include, whose rows have the fields of what is nested in it. -/
def join (entity : String) (row : Row) : Include → Row
  | ⟨field, nested⟩ =>
    match metadata.navigation entity field with
    | .ok r =>
      row.set field <| relationValue r.kind <|
        (m.related r row).map fun next => joinAll r.target next nested
    | .error _ => row

def joinAll (entity : String) (row : Row) : List Include → Row
  | [] => row
  | i :: rest => joinAll entity (join entity row i) rest

end

variable {m metadata}

theorem join_eq {entity field : String} {r : Relation}
    (hr : metadata.navigation entity field = .ok r) (row : Row) (nested : List Include) :
    m.join metadata entity row ⟨field, nested⟩ = row.set field (relationValue r.kind
      ((m.related r row).map fun next => m.joinAll metadata r.target next nested)) := by
  unfold join
  rw [hr]

theorem joinAll_cons (entity : String) (row : Row) (i : Include) (rest : List Include) :
    m.joinAll metadata entity row (i :: rest) =
      m.joinAll metadata entity (m.join metadata entity row i) rest := rfl

theorem value_join_of_ne {entity column : String} {i : Include} (hne : i.relation ≠ column)
    (row : Row) : (m.join metadata entity row i).value column = row.value column := by
  obtain ⟨field, nested⟩ := i
  unfold join
  split
  · rw [Row.value_set, if_neg hne]
  · rfl

theorem value_joinAll_of_not_mem {entity column : String} {is : List Include}
    (hnew : column ∉ is.map (·.relation)) (row : Row) :
    (m.joinAll metadata entity row is).value column = row.value column := by
  induction is generalizing row with
  | nil => rfl
  | cons i rest ih =>
    rw [List.map_cons, List.mem_cons, not_or] at hnew
    rw [joinAll_cons, ih hnew.2, value_join_of_ne (Ne.symm hnew.1)]

theorem asKey?_of_joinAll {entity column : String} {is : List Include} {row : Row} {k : Key}
    (h : ((m.joinAll metadata entity row is).value column).asKey? = some k) :
    (row.value column).asKey? = some k := by
  induction is generalizing row with
  | nil => exact h
  | cons i rest ih =>
    have hjoin := ih h
    obtain ⟨field, nested⟩ := i
    unfold join at hjoin
    split at hjoin
    · rw [Row.value_set] at hjoin
      split at hjoin
      · rw [asKey?_relationValue] at hjoin
        simp at hjoin
      · exact hjoin
    · exact hjoin

theorem related_congr {r : Relation} {row row' : Row}
    (h : row.value r.localColumn = row'.value r.localColumn) : m.related r row = m.related r row' := by
  unfold related
  rw [h]

/-- Where a relation is named more than once, the last include of it is the one that counts. -/
theorem value_joinAll_of_last (hapart : metadata.NamesApart) {entity field : String} {nested : List Include}
    {front rest : List Include} (hlast : field ∉ rest.map (·.relation))
    (hknown : ∀ i ∈ front, ∃ r, metadata.navigation entity i.relation = .ok r) {r : Relation}
    (hr : metadata.navigation entity field = .ok r) (row : Row) :
    (m.joinAll metadata entity row (front ++ ⟨field, nested⟩ :: rest)).value field = relationValue r.kind
      ((m.related r row).map fun next => m.joinAll metadata r.target next nested) := by
  induction front generalizing row with
  | nil => rw [List.nil_append, joinAll_cons, value_joinAll_of_not_mem hlast, join_eq hr, Row.value_set, if_pos rfl]
  | cons i front ih =>
    obtain ⟨r', hr'⟩ := hknown i (by simp)
    rw [List.cons_append, joinAll_cons, ih fun j hj => hknown j (List.mem_cons_of_mem _ hj)]
    -- The column that the relation goes by is no relation's field.
    rw [related_congr (value_join_of_ne (hapart.ne_localColumn hr' hr) row)]

theorem value_joinAll (hapart : metadata.NamesApart) {entity : String} {is : List Include}
    (hdistinct : Include.DistinctAll is)
    (hknown : ∀ i ∈ is, ∃ r, metadata.navigation entity i.relation = .ok r) {field : String}
    {nested : List Include} (hmem : ⟨field, nested⟩ ∈ is) {r : Relation}
    (hr : metadata.navigation entity field = .ok r) (row : Row) :
    (m.joinAll metadata entity row is).value field = relationValue r.kind
      ((m.related r row).map fun next => m.joinAll metadata r.target next nested) := by
  obtain ⟨front, rest, rfl⟩ := List.append_of_mem hmem
  have hnodup := hdistinct.nodup
  rw [List.map_append, List.map_cons, List.nodup_middle, List.nodup_cons, List.mem_append, not_or] at hnodup
  exact value_joinAll_of_last hapart hnodup.1.2 (fun i hi => hknown i (List.mem_append_left _ hi)) hr row

/-! ## Loading -/

theorem after_load (e : Entity) (filter : Option KeyFilter) (s : Loading) :
    After (m.source.load e filter) s
      (either (fun rows _ => rows = m.matching e.name filter) fun _ _ => False) := rfl

theorem matching_some (entity column : String) (keys : List Key) :
    m.matching entity (some ⟨column, keys⟩) =
      (m.rows entity).filter fun row => (row.value column).asKey?.any (· ∈ keys) := by
  unfold matching
  refine List.filter_congr fun row _ => ?_
  unfold KeyFilter.matches
  dsimp only
  cases (row.value column).asKey? <;> rfl

/-- The rows answer a load. By keys, they are all rows that match, in table order and maybe with others in
between. -/
def Answers (m : Memory) (entity : String) (filter : Option KeyFilter) (rows : List Row) : Prop :=
  ∀ f, filter = some f → rows.filter f.matches = m.matching entity filter

theorem answers_matching (entity : String) (filter : Option KeyFilter) :
    m.Answers entity filter (m.matching entity filter) := by
  rintro f rfl
  unfold matching
  dsimp only
  rw [List.filter_filter]
  simp only [Bool.and_self]

theorem Answers.filter_eq {entity column : String} {keys : List Key} {rows : List Row}
    (h : m.Answers entity (some ⟨column, keys⟩) rows) {k : Key} (hk : k ∈ keys) :
    rows.filter (fun row => (row.value column).asKey? = some k) = m.holding entity column k := by
  have hmatches : ∀ row : Row, (row.value column).asKey? = some k →
      KeyFilter.matches ⟨column, keys⟩ row = true := by
    intro row hrow
    unfold KeyFilter.matches
    simp [hrow, hk]
  have hnarrow : ∀ rows : List Row, (rows.filter (KeyFilter.matches ⟨column, keys⟩)).filter
      (fun row => (row.value column).asKey? = some k) =
        rows.filter fun row => (row.value column).asKey? = some k := by
    intro rows
    rw [List.filter_filter]
    refine List.filter_congr fun row _ => ?_
    by_cases hrow : (row.value column).asKey? = some k
    · simp [hrow, hmatches row hrow]
    · simp [hrow]
  unfold holding
  rw [← hnarrow, h _ rfl, show m.matching entity (some ⟨column, keys⟩) = (m.rows entity).filter (KeyFilter.matches ⟨column, keys⟩)
    from rfl, hnarrow]

theorem filter_matching {entity column : String} {keys : List Key} {k : Key} (hk : k ∈ keys) :
    (m.matching entity (some ⟨column, keys⟩)).filter (fun row => (row.value column).asKey? = some k) =
      m.holding entity column k :=
  (answers_matching entity _).filter_eq hk

theorem matching_of_matchesNothing {q : Query} (h : q.matchesNothing = true) :
    m.matching q.entity q.filter = [] := by
  unfold Query.matchesNothing at h
  split at h
  · rename_i f hf
    obtain ⟨column, keys⟩ := f
    obtain rfl : keys = [] := List.isEmpty_iff.mp h
    rw [hf, matching_some]
    simp
  · simp at h

end Source.Memory

/-- The source answers every load from the tables. -/
def DataSource.Serves (source : DataSource) (m : Source.Memory) : Prop :=
  ∀ history e filter, ∃ rows, (source.reply history e filter).rows = .ok rows ∧
    m.Answers e.name filter rows

namespace Source.Memory

variable {m : Memory}

theorem serves : m.source.Serves m := fun _ e filter => ⟨_, rfl, answers_matching e.name filter⟩

theorem after_loadByKeys {source : DataSource} (hserves : source.Serves m) (target : Entity) (column : String)
    (keys : List Key) (s : Loading) :
    After (loadByKeys source target column keys) s
      (either (fun rows _ => m.Answers target.name (some ⟨column, keys⟩) rows) fun _ _ => False) := by
  unfold loadByKeys
  split
  · rename_i hempty
    obtain rfl := List.isEmpty_iff.mp hempty
    rw [After.pure_iff, either_ok]
    rintro f -
    rw [matching_some]
    simp
  · obtain ⟨rows, hrows, hanswers⟩ := hserves s.journal.loads target (some ⟨column, keys⟩)
    change either _ _ (source.reply s.journal.loads target (some ⟨column, keys⟩)).rows _
    rw [hrows]
    exact hanswers

end Source.Memory

namespace Source

theorem mem_columnKeys {rows : List Row} {column : String} {row : Row} {k : Key} (hrow : row ∈ rows)
    (hk : (row.value column).asKey? = some k) : k ∈ columnKeys rows column := by
  unfold columnKeys Key.distinct
  rw [mem_foldl_new]
  exact Or.inr (List.mem_filterMap.mpr ⟨row, hrow, hk⟩)

theorem groupByColumn_eq (rows : List Row) (column : String) :
    groupByColumn rows column = collect (fun row : Row => (row.value column).asKey?) id rows := by
  unfold groupByColumn collect
  congr 1
  funext groups row
  dsimp only
  cases (row.value column).asKey? <;> rfl

variable {m : Memory} {metadata : Metadata}

/-- Joining from groups of loaded rows is joining row by row. -/
theorem joinRow_eq_join {entity field : String} {r : Relation}
    (hr : metadata.navigation entity field = .ok r) (hapart : metadata.NamesApartAt r.target)
    {nested : List Include}
    (hnested : ∀ i ∈ nested, ∃ r', metadata.navigation r.target i.relation = .ok r') {rows found : List Row}
    (hfound : m.Answers r.target (some ⟨r.remoteColumn, columnKeys rows r.localColumn⟩) found)
    {row : Row} (hrow : row ∈ rows) :
    joinRow r field
      (groupByColumn (found.map fun next => m.joinAll metadata r.target next nested) r.remoteColumn) row =
      m.join metadata entity row ⟨field, nested⟩ := by
  -- What is nested adds no field under the column that the rows are grouped by.
  have hremote : r.remoteColumn ∉ nested.map (·.relation) := by
    intro hmem
    obtain ⟨i, hi, heq⟩ := List.mem_map.mp hmem
    obtain ⟨r', hr'⟩ := hnested i hi
    exact Metadata.NamesApartAt.ne_remoteColumn hr hapart hr' heq
  rw [Memory.join_eq hr]
  unfold joinRow Memory.related
  dsimp only
  congr 2
  cases hk : (row.value r.localColumn).asKey? with
  | none => rfl
  | some k =>
    dsimp only
    rw [← hfound.filter_eq (mem_columnKeys hrow hk)]
    rw [groupByColumn_eq, getD_collect, List.map_id, List.filter_map]
    congr 1
    refine List.filter_congr fun next _ => ?_
    simp only [Function.comp_apply, Memory.value_joinAll_of_not_mem hremote]

theorem walkable_of_nested {entity field : String} {nested : List Include} {r : Relation}
    (h : ∀ p ∈ Include.paths ⟨field, nested⟩, metadata.Walkable entity p)
    (hr : metadata.navigation entity field = .ok r) : ∀ p ∈ Include.pathsOf nested, metadata.Walkable r.target p := by
  intro p hp
  obtain ⟨r', hr', hwalkable⟩ := h (field :: p) (Include.mem_paths.mpr (Or.inr ⟨p, hp, rfl⟩))
  obtain rfl := Except.ok.inj (hr.symm.trans hr')
  exact hwalkable

theorem known_of_walkable {entity : String} {is : List Include}
    (h : ∀ p ∈ Include.pathsOf is, metadata.Walkable entity p) :
    ∀ i ∈ is, ∃ r, metadata.navigation entity i.relation = .ok r := by
  rintro ⟨relation, nested⟩ hi
  obtain ⟨r, hr, -⟩ := h [relation] (Include.mem_pathsOf.mpr ⟨_, hi, Include.mem_paths.mpr (Or.inl rfl)⟩)
  exact ⟨r, hr⟩

variable {source : DataSource}

mutual

theorem after_attach (hserves : source.Serves m) (hnamed : metadata.Named) : ∀ (i : Include) {e : Entity},
    metadata.entity? e.name = some e →
    (∀ name, metadata.Involves e.name [i] name → metadata.NamesApartAt name) →
    (∀ p ∈ i.paths, metadata.Walkable e.name p) → ∀ (rows : List Row) (s : Loading),
    After (attach source metadata e rows i) s
      (either (fun rows' _ => rows' = rows.map fun row => m.join metadata e.name row i) fun _ _ => False)
  | ⟨field, nested⟩, e, he, hapart, hwalk, rows, s => by
    obtain ⟨r, hr, target, htarget⟩ := hwalk [field] (Include.mem_paths.mpr (Or.inl rfl))
    have hrelation : e.relation? field = some r := by
      obtain ⟨e', he', hrelation⟩ := Metadata.navigation_eq_ok.mp hr
      obtain rfl := Option.some.inj (he.symm.trans he')
      exact hrelation
    have hname : target.name = r.target := hnamed _ _ htarget
    -- The names that are involved below `field` are involved here as well.
    have hinvolved : ∀ name, metadata.Involves r.target nested name → metadata.NamesApartAt name :=
      fun name hinvolves => hapart name (.step (List.mem_singleton.mpr rfl) hr hinvolves)
    have hnested := walkable_of_nested hwalk hr
    unfold attach
    rw [requireRelation_eq_ok.mpr hrelation]
    apply After.ok_bind
    rw [requireEntity_eq_ok.mpr htarget]
    apply After.ok_bind
    dsimp only
    refine After.bind (Memory.after_loadByKeys hserves _ _ _ s) ?_ (fun _ _ h => h.elim)
    intro found s₁ hfound
    rw [hname] at hfound
    refine After.bind (after_attachAll hserves hnamed nested (hname ▸ htarget) (hname ▸ hinvolved)
      (hname ▸ hnested) found s₁) ?_ (fun _ _ h => h.elim)
    rintro _ s₂ rfl
    rw [After.pure_iff, either_ok, hname]
    refine List.map_congr_left fun row hrow => ?_
    exact joinRow_eq_join hr (hinvolved _ .root) (known_of_walkable hnested) hfound hrow

/-- Includes are joined row by row, whatever else the source answers with. -/
theorem after_attachAll (hserves : source.Serves m) (hnamed : metadata.Named) : ∀ (is : List Include)
    {e : Entity}, metadata.entity? e.name = some e →
    (∀ name, metadata.Involves e.name is name → metadata.NamesApartAt name) →
    (∀ p ∈ Include.pathsOf is, metadata.Walkable e.name p) → ∀ (rows : List Row) (s : Loading),
    After (attachAll source metadata e rows is) s
      (either (fun rows' _ => rows' = rows.map fun row => m.joinAll metadata e.name row is)
        fun _ _ => False)
  | [], _, _, _, _, rows, _ => (List.map_id rows).symm
  | i :: rest, e, he, hapart, hwalk, rows, s => by
    unfold attachAll
    have hfirst : ∀ p ∈ i.paths, metadata.Walkable e.name p :=
      fun p hp => hwalk p (List.mem_append_left _ hp)
    have hrest : ∀ p ∈ Include.pathsOf rest, metadata.Walkable e.name p :=
      fun p hp => hwalk p (List.mem_append_right _ hp)
    have hapartFirst : ∀ name, metadata.Involves e.name [i] name → metadata.NamesApartAt name :=
      fun name h => hapart name (h.mono (by simp))
    have hapartRest : ∀ name, metadata.Involves e.name rest name → metadata.NamesApartAt name :=
      fun name h => hapart name (h.mono (by simp))
    refine After.bind (after_attach hserves hnamed i he hapartFirst hfirst rows s) ?_ (fun _ _ h => h.elim)
    rintro _ s₁ rfl
    apply (after_attachAll hserves hnamed rest he hapartRest hrest _ s₁).mono
    rintro (err | rows') s₂ hrows
    · exact hrows
    · rw [either_ok] at hrows ⊢
      rw [hrows, List.map_map]
      rfl

end

theorem after_fetch_served (hserves : source.Serves m) (hnamed : metadata.Named) {q : Query} {e : Entity}
    (he : metadata.entity? q.entity = some e)
    (hapart : ∀ name, metadata.Involves q.entity q.includes name → metadata.NamesApartAt name)
    (hwalk : ∀ p ∈ Include.pathsOf q.includes, metadata.Walkable q.entity p)
    (hsome : q.matchesNothing = false) (s : Loading) :
    After (fetch source metadata q) s
      (either (fun rows _ => ∃ loaded, (source.reply s.journal.loads e q.filter).rows = .ok loaded ∧
        rows = loaded.map fun row => m.joinAll metadata q.entity row q.includes) fun _ _ => False) := by
  have hname : e.name = q.entity := hnamed _ _ he
  obtain ⟨loaded, hloaded, -⟩ := hserves s.journal.loads e q.filter
  unfold fetch
  rw [if_neg (by simp [hsome]), requireEntity_eq_ok.mpr he]
  apply After.ok_bind
  have hload : After (source.load e q.filter) s (either (fun rows _ => rows = loaded) fun _ _ => False) := by
    change either _ _ (source.reply s.journal.loads e q.filter).rows _
    rw [hloaded]
    exact rfl
  refine After.bind hload ?_ (fun _ _ h => h.elim)
  intro rows s₁ hrows
  have hattached := after_attachAll hserves hnamed q.includes (hname ▸ he) (hname ▸ hapart) (hname ▸ hwalk) rows s₁
  rw [hname] at hattached
  exact hattached.imp (fun _ _ hjoined => ⟨rows, hrows ▸ hloaded, hjoined⟩) fun _ _ h => h

theorem after_fetch (hapart : metadata.NamesApart) (hnamed : metadata.Named) {q : Query} {e : Entity}
    (he : metadata.entity? q.entity = some e) (hloads : q.Loads metadata) (s : Loading) :
    After (fetch m.source metadata q) s
      (either (fun rows _ => rows = (m.matching q.entity q.filter).map fun row =>
        m.joinAll metadata q.entity row q.includes) fun _ _ => False) := by
  by_cases hnothing : q.matchesNothing = true
  · unfold fetch
    rw [if_pos hnothing, After.pure_iff, either_ok, Memory.matching_of_matchesNothing hnothing]
    rfl
  · have hfetched := after_fetch_served (m := m) Memory.serves hnamed he (fun name _ => hapart.at name)
      (hloads.resolve_left hnothing) (by simpa using hnothing) s
    refine hfetched.imp ?_ fun _ _ h => h
    rintro _ s' ⟨loaded, hloaded, rfl⟩
    obtain rfl := Except.ok.inj hloaded
    rw [hnamed _ _ he]

/-! ## Unknown relations -/

mutual

theorem walkable_of_attach (hnamed : metadata.Named) : ∀ (i : Include) {e : Entity},
    metadata.entity? e.name = some e → ∀ (rows : List Row) (s : Loading),
    After (attach source metadata e rows i) s
      (either (fun _ _ => ∀ p ∈ i.paths, metadata.Walkable e.name p) fun _ _ => True)
  | ⟨field, nested⟩, e, he, rows, s => by
    unfold attach
    refine After.ofExcept_bind (fun r hr => ?_) fun _ _ => trivial
    have hr : metadata.navigation e.name field = .ok r :=
      Metadata.navigation_eq_ok.mpr ⟨e, he, requireRelation_eq_ok.mp hr⟩
    refine After.ofExcept_bind (fun target htarget => ?_) fun _ _ => trivial
    have htarget := requireEntity_eq_ok.mp htarget
    have hname : target.name = r.target := hnamed _ _ htarget
    dsimp only
    refine After.bind_any (fun related s₁ => ?_) fun _ _ => trivial
    refine After.bind (walkable_of_attachAll hnamed nested (hname ▸ htarget) related s₁) ?_ fun _ _ h => h
    rintro _ s₂ hnested
    rw [After.pure_iff, either_ok]
    intro p hp
    rcases Include.mem_paths.mp hp with rfl | ⟨rest, hrest, rfl⟩
    · exact ⟨r, hr, target, htarget⟩
    · exact ⟨r, hr, hname ▸ hnested rest hrest⟩

/-- Rows are joined with known relations only, whether there are rows or not. -/
theorem walkable_of_attachAll (hnamed : metadata.Named) : ∀ (is : List Include) {e : Entity},
    metadata.entity? e.name = some e → ∀ (rows : List Row) (s : Loading),
    After (attachAll source metadata e rows is) s
      (either (fun _ _ => ∀ p ∈ Include.pathsOf is, metadata.Walkable e.name p) fun _ _ => True)
  | [], _, _, _, _ => fun _ hp => by cases hp
  | i :: rest, e, he, rows, s => by
    unfold attachAll
    refine After.bind (walkable_of_attach hnamed i he rows s) ?_ fun _ _ h => h
    intro rows' s₁ hfirst
    refine (walkable_of_attachAll hnamed rest he rows' s₁).imp ?_ fun _ _ h => h
    intro _ _ hrest p hp
    exact (List.mem_append.mp hp).elim (hfirst p) (hrest p)

end

theorem loads_of_fetch (hnamed : metadata.Named) (q : Query) (s : Loading) :
    After (fetch m.source metadata q) s (either (fun _ _ => q.Loads metadata) fun _ _ => True) := by
  unfold fetch
  split
  · exact Or.inl (by assumption)
  · refine After.ofExcept_bind (fun e he => ?_) fun _ _ => trivial
    have he := requireEntity_eq_ok.mp he
    have hname : e.name = q.entity := hnamed _ _ he
    refine After.bind (Memory.after_load e q.filter s) ?_ fun _ _ h => h.elim
    rintro rows s₁ -
    refine (walkable_of_attachAll hnamed q.includes (hname ▸ he) rows s₁).imp ?_ fun _ _ h => h
    intro _ _ hwalk
    exact Or.inr (hname ▸ hwalk)

end Source

end EntityMapping
