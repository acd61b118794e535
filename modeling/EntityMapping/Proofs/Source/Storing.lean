import EntityMapping.Proofs.Grouping
import EntityMapping.Proofs.Source.Joining
import EntityMapping.Source.Database

/-! # Rows kept in tables

Rows of integers, strings and identifiers are kept in tables as they are. A load that a database answers by
comparing cells with parameters gives the rows that memory finds by comparing keys, each cell read back as
the value that was put in.
-/

namespace EntityMapping

/-! ## Keys and types -/

/-- The key is not a tuple. -/
def Key.IsSimple : Key → Prop
  | .composite _ => False
  | _ => True

theorem Key.isSimple_of_asKey? {v : Value} {k : Key} (h : v.asKey? = some k) : k.IsSimple := by
  cases v <;> cases h <;> trivial

/-- What the type holds are keys, or null. -/
def ScalarType.IsKeyed (t : ScalarType) : Prop := t = .int ∨ t = .string ∨ t = .uuid

instance (t : ScalarType) : Decidable t.IsKeyed := inferInstanceAs (Decidable (_ ∨ _ ∨ _))

theorem KeyFilter.matches_iff {f : KeyFilter} {row : Row} :
    f.matches row = true ↔ ∃ k ∈ f.keys, (row.value f.column).asKey? = some k := by
  unfold KeyFilter.matches
  cases (row.value f.column).asKey? <;> simp

namespace Source

namespace Cell

/-- The cell for a value that tables keep. -/
def holding (v : Value) : Cell := (ofValue? v).getD .null

/-- The cell keeps a value of the type. -/
inductive Stores : ScalarType → Value → Cell → Prop
  | null (t : ScalarType) : Stores t .null .null
  | int (n : Int64) : Stores .int (.int n) (.integer n)
  | string (s : String) : Stores .string (.string s) (.text s)
  | uuid (u : Uuid) : Stores .uuid (.uuid u) (.blob u)

theorem stores_holding {t : ScalarType} (ht : t.IsKeyed) {v : Value} (hv : t.accepts v = true) :
    Stores t v (holding v) := by
  obtain rfl | rfl | rfl := ht <;> cases v <;> first | exact .null _ | constructor | cases hv

namespace Stores

variable {t : ScalarType} {v : Value} {c : Cell} (h : Stores t v c)
include h

theorem ofValue?_eq : ofValue? v = some c := by cases h <;> rfl

theorem decode?_eq : c.decode? t = some v := by cases h <;> rfl

theorem equals_toSql {k : Key} (hk : k.IsSimple) :
    c.equals (ofParameter k.toSql) = decide (v.asKey? = some k) := by
  cases k with
  | composite parts => exact hk.elim
  | _ => cases h <;>
    simp [equals, ofParameter, Key.toSql, Value.asKey?, Key.ofValue?, Bool.beq_eq_decide_eq]

end Stores

end Cell

end Source

/-! ## Declared columns -/

namespace Entity

def columnNames (e : Entity) : List String := e.columns.map (·.name)

/-- The row has the columns of the entity in their order, each with a value of its type or null. -/
def Fits (e : Entity) (row : Row) : Prop :=
  List.Forall₂ (fun c field => field.1 = c.name ∧ c.type.accepts field.2 = true) e.columns row.entries

instance (e : Entity) (row : Row) : Decidable (e.Fits row) :=
  inferInstanceAs (Decidable (List.Forall₂ _ _ _))

/-- The columns can be told apart whatever the case of their letters, and they hold keys. -/
structure Tabular (e : Entity) : Prop where
  columns : (e.columnNames.map Source.Table.folded).Nodup
  types : ∀ c ∈ e.columns, c.type.IsKeyed

instance (e : Entity) : Decidable e.Tabular :=
  decidable_of_iff ((e.columnNames.map Source.Table.folded).Nodup ∧ ∀ c ∈ e.columns, c.type.IsKeyed)
    ⟨fun h => ⟨h.1, h.2⟩, fun h => ⟨h.columns, h.types⟩⟩

/-- The filter, if there is one, asks for a declared column by keys that are no tuples. -/
def Filters (e : Entity) (filter : Option KeyFilter) : Prop :=
  ∀ f, filter = some f → f.column ∈ e.columnNames ∧ ∀ k ∈ f.keys, k.IsSimple

end Entity

namespace Metadata

/-- Tables can be made of the entities, with names that can be told apart, and relations join columns of
them. -/
structure Tabular (metadata : Metadata) : Prop where
  tables : ∀ name name' e e', metadata.entity? name = some e → metadata.entity? name' = some e' →
    Source.Table.folded e.table = Source.Table.folded e'.table → name = name'
  entities : ∀ name e, metadata.entity? name = some e → e.Tabular
  joins : ∀ name e, metadata.entity? name = some e → ∀ r ∈ e.relations, r.localColumn ∈ e.columnNames ∧
    ∀ target, metadata.entity? r.target = some target → r.remoteColumn ∈ target.columnNames

/-- Every entity has its rows, and they fit it. -/
structure Stocks (metadata : Metadata) (tables : List (String × List Row)) : Prop where
  nodup : (tables.map (·.1)).Nodup
  fits : ∀ t ∈ tables, ∃ e, metadata.entity? t.1 = some e ∧ ∀ row ∈ t.2, e.Fits row
  covers : ∀ name e, metadata.entity? name = some e → ∃ rows, (name, rows) ∈ tables

end Metadata

theorem Entity.Tabular.nodup {e : Entity} (h : e.Tabular) : e.columnNames.Nodup := .of_map _ h.columns

namespace Entity.Fits

variable {e : Entity} {row : Row} (h : e.Fits row)
include h

theorem names_eq : row.keys = e.columnNames :=
  map_eq_map_of_forall₂ (h.flip.imp fun _ _ hfield => hfield.1)

theorem get?_eq (htabular : e.Tabular) {field : String × Value} (hfield : field ∈ row.entries) :
    row.get? field.1 = some field.2 :=
  (Dict.mem_entries_iff (h.names_eq ▸ htabular.nodup)).mp hfield

theorem stores (htabular : e.Tabular) {c : Column} (hc : c ∈ e.columns) :
    Source.Cell.Stores c.type (row.value c.name) (.holding (row.value c.name)) := by
  obtain ⟨field, hfield, hname, haccepts⟩ := exists_of_forall₂_left h hc
  have hvalue : row.value c.name = field.2 := by
    rw [Row.value, ← hname, h.get?_eq htabular hfield, Option.getD_some]
  rw [hvalue]
  exact Source.Cell.stores_holding (htabular.types c hc) haccepts

end Entity.Fits

/-! ## Tables of rows -/

namespace Source

/-- The cells of a row. -/
def cellsOf (row : Row) : Dict String Cell := row.mapValues Cell.holding

theorem cellsOf_get? (row : Row) (name : String) :
    ((cellsOf row).get? name).getD .null = .holding (row.value name) := by
  rw [cellsOf, Dict.get?_mapValues, Row.value]
  cases row.get? name <;> rfl

/-- The table that keeps the rows of an entity. -/
def tableOf (e : Entity) (rows : List Row) : Table :=
  .ofCells e.table (e.columnNames.map .plain) (rows.map cellsOf)

namespace Table

variable {e : Entity} {row : Row} {rows : List Row}

theorem foldlM_putField? {columns : List String} {fields : List (String × Value)} (d : Dict String Cell)
    (hcolumns : ∀ field ∈ fields, field.1 ∈ columns)
    (hvalues : ∀ field ∈ fields, Cell.ofValue? field.2 = some (.holding field.2)) :
    fields.foldlM (putField? columns) d =
      some ((fields.map fun field => (field.1, Cell.holding field.2)).foldl (fun d e => d.set e.1 e.2) d) := by
  induction fields generalizing d with
  | nil => rfl
  | cons field fields ih =>
    rw [List.foldlM_cons, putField?, if_pos (hcolumns field (by simp)), hvalues field (by simp)]
    exact ih _ (fun f hf => hcolumns f (by simp [hf])) fun f hf => hvalues f (by simp [hf])

theorem put_row (htabular : e.Tabular) (hfits : e.Fits row) :
    row.entries.foldlM (putField? e.columnNames) Dict.empty = some (cellsOf row) := by
  have hkeys : (cellsOf row).keys.Nodup := by
    rw [cellsOf, Dict.keys_mapValues, hfits.names_eq]
    exact htabular.nodup
  rw [foldlM_putField? Dict.empty]
  · exact congrArg (some ∘ Dict.mk) (Dict.entries_ofList hkeys)
  · exact fun field hfield => hfits.names_eq ▸ List.mem_map_of_mem hfield
  · intro field hfield
    obtain ⟨c, hc, -, haccepts⟩ := exists_of_forall₂_right hfits hfield
    exact (Cell.stores_holding (htabular.types c hc) haccepts).ofValue?_eq

theorem ofRows?_eq (htabular : e.Tabular) (hfits : ∀ row ∈ rows, e.Fits row) :
    ofRows? e.table (e.columns.map (·.name)) rows = some (tableOf e rows) := by
  have hcells : (rows.mapM fun row : Row => row.entries.foldlM (putField? e.columnNames) Dict.empty) =
      some (rows.map cellsOf) := by
    induction rows with
    | nil => rfl
    | cons row rows ih =>
      rw [List.mapM_cons, put_row htabular (hfits row (by simp)), ih fun r hr => hfits r (by simp [hr])]
      rfl
  exact congrArg (Option.map _) hcells

/-! ### Answers -/

theorem resolve_tableOf (htabular : e.Tabular) {name : String} (hname : name ∈ e.columnNames) :
    (tableOf e rows).resolve name = .column (.plain name) := by
  have hnodup : ((e.columnNames.map TableColumn.plain).map fun c => folded c.name).Nodup := by
    rw [List.map_map]
    exact htabular.columns
  have hfind := find?_of_nodup_map hnodup (List.mem_map_of_mem (f := TableColumn.plain) hname)
  unfold resolve
  split
  · rename_i c hc
    exact congrArg Reference.column (Option.some.inj (hc.symm.trans hfind))
  · rename_i hnone
    cases hnone.symm.trans hfind

/-- The row of the table keeps the cells of a row. -/
def Holds (row : Row) (stored : TableRow) : Prop := stored.cells = cellsOf row

theorem cell_of_holds {stored : TableRow} (h : Holds row stored) (htabular : e.Tabular) {name : String}
    (hname : name ∈ e.columnNames) :
    ((tableOf e rows).resolve name).cell stored = .holding (row.value name) := by
  rw [resolve_tableOf htabular hname, ← cellsOf_get?, ← h]
  rfl

theorem labelled_eq (htabular : e.Tabular) {stored : TableRow} (h : Holds row stored) {name : String}
    (hname : name ∈ e.columnNames) :
    (((tableOf e rows).labelled e.columnNames stored).get? name).getD .null =
      .holding (row.value name) := by
  have hpairs : (e.columnNames.map fun name => (((tableOf e rows).resolve name).label,
      ((tableOf e rows).resolve name).cell stored)) =
      e.columnNames.map fun name => (name, Cell.holding (row.value name)) := by
    refine List.map_congr_left fun name hname => ?_
    rw [cell_of_holds h htabular hname, resolve_tableOf htabular hname]
    rfl
  have hkeys : ((e.columnNames.map fun name => (name, Cell.holding (row.value name))).map (·.1)).Nodup := by
    rw [List.map_map]
    exact (List.map_id' _).symm ▸ htabular.nodup
  have hentries := Dict.entries_ofList hkeys
  have hget : (Dict.ofList (e.columnNames.map fun name => (name, Cell.holding (row.value name)))).get? name =
      some (.holding (row.value name)) := by
    refine (Dict.mem_entries_iff ?_).mp ?_
    · rwa [Dict.keys, hentries]
    · rw [hentries]
      exact List.mem_map_of_mem hname
  rw [labelled, hpairs, hget, Option.getD_some]

theorem decodeRow_eq (htabular : e.Tabular) (hfits : e.Fits row) {stored : TableRow} (h : Holds row stored) :
    (tableOf e rows).decodeRow e stored = .ok row := by
  have hkeys : row.keys.Nodup := hfits.names_eq ▸ htabular.nodup
  have hfields : List.Forall₂ (fun c field =>
      decodeColumn ((tableOf e rows).labelled e.columnNames stored) c = .ok field) e.columns row.entries := by
    have hmem := (List.forall₂_and_left _ _).mpr ⟨fun _ hc => hc, hfits⟩
    have hboth := (List.forall₂_and_left _ _).mpr ⟨fun _ hfield => hfield, hmem.flip⟩
    refine hboth.flip.imp fun c field ⟨hfield, hc, hname, _⟩ => ?_
    have hvalue : row.value c.name = field.2 := by
      rw [Row.value, ← hname, hfits.get?_eq htabular hfield, Option.getD_some]
    unfold decodeColumn
    rw [labelled_eq htabular h (List.mem_map_of_mem hc), (hfits.stores htabular hc).decode?_eq, hvalue,
      ← hname]
  unfold decodeRow
  rw [show e.columns.map (·.name) = e.columnNames from rfl]
  exact (congrArg (Except.map Dict.ofList) (mapM_eq_ok.mpr hfields)).trans
    (congrArg (Except.ok ∘ Dict.mk) (Dict.entries_ofList hkeys))

theorem equals_plain (name : String) (c : Cell) (parameter : SqlValue) :
    (TableColumn.plain name).affinity.equals c parameter = c.equals (.ofParameter parameter) := by
  simp [TableColumn.affinity, TableColumn.plain, Affinity.equals, Affinity.apply]

theorem keeps_eq (htabular : e.Tabular) (hfits : e.Fits row) {stored : TableRow} (h : Holds row stored)
    {filter : Option KeyFilter} (hfilter : e.Filters filter) :
    (tableOf e rows).keeps filter stored = filter.all (·.matches row) := by
  cases filter with
  | none => rfl
  | some f =>
    obtain ⟨hcolumn, hkeys⟩ := hfilter f rfl
    obtain ⟨c, hc, hname⟩ := List.mem_map.mp hcolumn
    have hstores := hfits.stores htabular hc
    rw [hname] at hstores
    have hequals : ∀ k ∈ f.keys, ((tableOf e rows).resolve f.column).affinity.equals
        (((tableOf e rows).resolve f.column).cell stored) k.toSql = true ↔
          (row.value f.column).asKey? = some k := by
      intro k hk
      rw [cell_of_holds h htabular hcolumn, resolve_tableOf htabular hcolumn, Reference.affinity, equals_plain,
        hstores.equals_toSql (hkeys k hk), decide_eq_true_iff]
    rw [Option.all_some, Bool.eq_iff_iff, KeyFilter.matches_iff, keeps, List.any_eq_true]
    exact exists_congr fun k => and_congr_right fun hk => hequals k hk

theorem forall₂_holds (e : Entity) (rows : List Row) :
    List.Forall₂ (fun stored row => Holds row stored) (tableOf e rows).rows rows := by
  have hcells : (tableOf e rows).rows.map (·.cells) = rows.map cellsOf := by
    simp [tableOf, ofCells, Function.comp_def]
  have hsame : List.Forall₂ (· = ·) ((tableOf e rows).rows.map (·.cells)) (rows.map cellsOf) := by
    rw [List.forall₂_eq_eq_eq]
    exact hcells
  exact List.forall₂_map_right_iff.mp (List.forall₂_map_left_iff.mp hsame)

/-- A select statement finds the rows that match, in their order. -/
theorem select_eq (htabular : e.Tabular) (hfits : ∀ row ∈ rows, e.Fits row) {filter : Option KeyFilter}
    (hfilter : e.Filters filter) :
    (tableOf e rows).select e filter = .ok (rows.filter fun row => filter.all (·.matches row)) := by
  refine mapM_filter_eq_ok ?_
  have hmem := (List.forall₂_and_left _ _).mpr ⟨fun _ hrow => hrow, (forall₂_holds e rows).flip⟩
  exact hmem.flip.imp fun stored row ⟨hrow, hholds⟩ =>
    ⟨keeps_eq htabular (hfits row hrow) hholds hfilter, decodeRow_eq htabular (hfits row hrow) hholds⟩

end Table

/-! ## Databases -/

namespace Memory

theorem matching_eq_filter (m : Memory) (entity : String) (filter : Option KeyFilter) :
    m.matching entity filter = (m.rows entity).filter fun row => filter.all (·.matches row) := by
  cases filter <;> simp [matching]

theorem tables_ofTables {tables : List (String × List Row)} (h : (tables.map (·.1)).Nodup) :
    (ofTables tables).tables = Dict.ofList tables := by
  induction tables using List.reverseRecOn with
  | nil => rfl
  | append_singleton tables t ih =>
    rw [List.map_append, List.nodup_append] at h
    obtain ⟨hnodup, -, hne⟩ := h
    have hnew : (Dict.ofList tables).get? t.1 = none := by
      rw [← Option.not_isSome_iff_eq_none, Dict.get?, Dict.lookup_isSome_iff, Dict.entries_ofList hnodup]
      exact fun hmem => hne _ hmem _ (by simp) rfl
    have hrows : (ofTables tables).rows t.1 = [] := by rw [rows, ih hnodup, hnew, Option.getD_none]
    have hlast : ofTables (tables ++ [t]) = (ofTables tables).insert t.1 t.2 := List.foldl_concat ..
    rw [hlast, insert, hrows, List.nil_append, ih hnodup, Dict.ofList, Dict.ofList, List.foldl_concat]

theorem rows_ofTables {tables : List (String × List Row)} (h : (tables.map (·.1)).Nodup) {name : String}
    {rows : List Row} (hrows : (name, rows) ∈ tables) : (ofTables tables).rows name = rows := by
  have hget : (Dict.ofList tables).get? name = some rows := by
    refine (Dict.mem_entries_iff ?_).mp ?_
    · rwa [Dict.keys, Dict.entries_ofList h]
    · rwa [Dict.entries_ofList h]
  rw [Memory.rows, tables_ofTables h, hget, Option.getD_some]

end Memory

namespace Database

variable {metadata : Metadata} {tables : List (String × List Row)}

theorem exists_ofTables? (htabular : metadata.Tabular) (hnodup : (tables.map (·.1)).Nodup)
    (hfits : ∀ t ∈ tables, ∃ e, metadata.entity? t.1 = some e ∧ ∀ row ∈ t.2, e.Fits row) :
    ∃ db, ofTables? metadata tables = some db ∧ ∀ name rows e, (name, rows) ∈ tables →
      metadata.entity? name = some e → db.tables.get? (Table.folded e.table) = some (tableOf e rows) := by
  induction tables using List.reverseRecOn with
  | nil => exact ⟨.empty, rfl, by simp⟩
  | append_singleton tables t ih =>
    rw [List.map_append, List.nodup_append] at hnodup
    obtain ⟨hnodup, -, hne⟩ := hnodup
    obtain ⟨db, hdb, htables⟩ := ih hnodup fun t ht => hfits t (by simp [ht])
    obtain ⟨e, he, hrows⟩ := hfits t (by simp)
    refine ⟨{ db with tables := db.tables.set (Table.folded e.table) (tableOf e t.2) }, ?_, ?_⟩
    · unfold ofTables? at hdb ⊢
      rw [List.foldlM_append, hdb, Option.bind_eq_bind, Option.bind_some, List.foldlM_cons, he, Option.bind_some,
        create?, Table.ofRows?_eq (htabular.entities _ _ he) hrows]
      rfl
    · intro name rows e' hmem he'
      dsimp only
      rcases List.mem_append.mp hmem with hmem | hmem
      -- Entities of one table are one, so the new table hides none of the earlier.
      · rw [Dict.get?_set_of_ne]
        · exact htables name rows e' hmem he'
        · intro hsame
          have hname := htabular.tables _ _ _ _ he he' hsame
          exact hne _ (List.mem_map_of_mem hmem) _ (by simp) hname.symm
      · obtain rfl := List.mem_singleton.mp hmem
        obtain rfl := Option.some.inj (he.symm.trans he')
        exact Dict.get?_set_self _ _ _

theorem select_eq {db : Database} {e : Entity} {rows : List Row}
    (htable : db.tables.get? (Table.folded e.table) = some (tableOf e rows))
    (htabular : e.Tabular) (hfits : ∀ row ∈ rows, e.Fits row) {filter : Option KeyFilter}
    (hfilter : e.Filters filter) (hreadable : readable e filter = true) :
    db.select e filter = .ok (rows.filter fun row => filter.all (·.matches row)) := by
  have hfound : db.table? e.table = some (tableOf e rows) := by rw [table?, htable]
  unfold select
  rw [if_pos hreadable, hfound]
  exact Table.select_eq htabular hfits hfilter

end Database

end Source

end EntityMapping
