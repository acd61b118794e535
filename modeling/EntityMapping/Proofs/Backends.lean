import EntityMapping.Proofs.Conformance
import EntityMapping.Proofs.Pass.Exchanging
import EntityMapping.Proofs.WaveBound

/-! # Passes on databases

A pass gives the same result whether its rows are kept in memory or in the tables of a database. What a
database cannot do is left out: it has no tables without columns, and it reads no statement with too many
parameters. Columns that no entity declares are left out as well, since a database knows some of its own.
-/

namespace EntityMapping

variable {C : Type}

/-! ## Statements that can be read -/

/-- A database can have a table for the entity, and statements can name what is in it. -/
structure Entity.Creatable (e : Entity) : Prop where
  columns_ne : e.columns ≠ []
  columns_le : e.columns.length ≤ Source.Database.columnLimit
  table : '\x00' ∉ e.table.toList
  names : ∀ name ∈ e.columnNames, '\x00' ∉ name.toList

/-- A load with no more keys than a statement can have parameters. -/
def LoadRecord.HasFewKeys (record : LoadRecord) : Prop :=
  ∀ f ∈ record.filter, f.keys.length ≤ Source.Database.parameterLimit

instance (record : LoadRecord) : Decidable record.HasFewKeys :=
  inferInstanceAs (Decidable (∀ f ∈ record.filter, _))

namespace Source

namespace Statement

theorem not_mem_separated {c : Char} (hcomma : c ≠ ',') (hblank : c ≠ ' ') {texts : List (List Char)}
    (h : ∀ text ∈ texts, c ∉ text) : c ∉ separated texts := by
  fun_induction separated texts with
  | case1 => simp
  | case2 text => exact h text (by simp)
  | case3 text rest _ ih =>
    have hrest := ih fun text htext => h text (List.mem_cons_of_mem _ htext)
    simp [h text (by simp), hcomma, hblank, hrest]

theorem not_mem_identifier {c : Char} (hquote : c ≠ '"') {name : String} (h : c ∉ name.toList) :
    c ∉ identifier name := by
  unfold identifier
  simp only [List.cons_append, List.mem_cons, List.mem_append, List.mem_flatMap, hquote, List.not_mem_nil,
    or_false, false_or, not_exists, not_and]
  intro c' hc'
  split
  · simp [hquote]
  · rw [List.mem_singleton]
    rintro rfl
    exact h hc'

theorem not_mem_sql {e : Entity} (h : e.Creatable) {filter : Option KeyFilter} (hfilter : e.Filters filter) :
    '\x00' ∉ (select .sqlite e filter).sql := by
  have hidentifier : ∀ name ∈ e.columnNames, '\x00' ∉ identifier name := fun name hname =>
    not_mem_identifier (by decide) (h.names name hname)
  have hcolumns : '\x00' ∉ separated (e.columns.map fun c => identifier c.name) := by
    refine not_mem_separated (by decide) (by decide) fun text htext => ?_
    obtain ⟨c, hc, rfl⟩ := List.mem_map.mp htext
    exact hidentifier c.name (List.mem_map_of_mem hc)
  -- What stands before the condition is the same with a filter and without.
  have hall : '\x00' ∉ selectWord ++ separated (e.columns.map fun c => identifier c.name) ++ fromWord ++
      identifier e.table := by
    simp only [List.mem_append, not_or]
    exact ⟨⟨⟨by decide, hcolumns⟩, by decide⟩, not_mem_identifier (by decide) h.table⟩
  cases filter with
  | none => exact hall
  | some f =>
    have hcondition : '\x00' ∉ condition .sqlite f := by
      unfold condition
      split
      · decide
      · have hplaces : '\x00' ∉ separated ((List.range f.keys.length).map fun i => placeholder .sqlite (i + 1)) := by
          refine not_mem_separated (by decide) (by decide) fun text htext => ?_
          obtain ⟨i, -, rfl⟩ := List.mem_map.mp htext
          simp [placeholder]
        simp only [List.mem_append, not_or]
        exact ⟨⟨⟨hidentifier f.column (hfilter f rfl).1, by decide⟩, hplaces⟩, by decide⟩
    unfold select
    simp only [List.mem_append, not_or] at hall ⊢
    exact ⟨⟨hall, by decide⟩, hcondition⟩

end Statement

theorem Database.readable_of_creatable {e : Entity} (h : e.Creatable) {filter : Option KeyFilter}
    (hfilter : e.Filters filter) (hfew : LoadRecord.HasFewKeys ⟨e.name, filter⟩) :
    readable e filter = true := by
  have hvalues : (Statement.select .sqlite e filter).values.length ≤ parameterLimit := by
    cases filter with
    | none => exact Nat.zero_le _
    | some f =>
      change (Statement.parameters f).length ≤ parameterLimit
      unfold Statement.parameters
      split
      · simp [parameterLimit]
      · rw [List.length_map]
        exact hfew f rfl
  have hcolumns := h.columns_ne
  have hle := h.columns_le
  have hsql := Statement.not_mem_sql h hfilter
  simp [readable, hcolumns, hle, hvalues, hsql]

end Source

/-! ## Declared columns -/

namespace Metadata

theorem Tabular.of_forall {entities : List Entity}
    (htables : ∀ e ∈ entities, ∀ e' ∈ entities,
      Source.Table.folded e.table = Source.Table.folded e'.table → e.name = e'.name)
    (hentities : ∀ e ∈ entities, e.Tabular)
    (hjoins : ∀ e ∈ entities, ∀ r ∈ e.relations, r.localColumn ∈ e.columnNames ∧
      ∀ target ∈ entities, target.name = r.target → r.remoteColumn ∈ target.columnNames) :
    (ofList entities).Tabular where
  tables name name' e e' he he' hsame := by
    obtain ⟨hmem, rfl⟩ := mem_of_entity? he
    obtain ⟨hmem', rfl⟩ := mem_of_entity? he'
    exact htables e hmem e' hmem' hsame
  entities name e he := hentities e (mem_of_entity? he).1
  joins name e he r hr := by
    obtain ⟨hlocal, hremote⟩ := hjoins e (mem_of_entity? he).1 r hr
    refine ⟨hlocal, fun target htarget => ?_⟩
    obtain ⟨hmem, hname⟩ := mem_of_entity? htarget
    exact hremote target hmem hname

theorem Stocks.of_forall {entities : List Entity} {tables : List (String × List Row)}
    (hnodup : (tables.map (·.1)).Nodup)
    (hfits : ∀ t ∈ tables, ∃ e, (ofList entities).entity? t.1 = some e ∧ ∀ row ∈ t.2, e.Fits row)
    (hcovers : ∀ e ∈ entities, e.name ∈ tables.map (·.1)) : (ofList entities).Stocks tables where
  nodup := hnodup
  fits := hfits
  covers name e he := by
    obtain ⟨hmem, rfl⟩ := mem_of_entity? he
    obtain ⟨t, ht, hname⟩ := List.mem_map.mp (hcovers e hmem)
    exact ⟨t.2, hname ▸ ht⟩

theorem Tabular.foreignKeysOn_subset {entities : List Entity} (h : (ofList entities).Tabular) {name : String}
    {e : Entity} (he : (ofList entities).entity? name = some e) {columns : List String}
    (hcolumns : (ofList entities).foreignKeysOn name = .ok columns) : columns ⊆ e.columnNames := by
  intro column hcolumn
  rcases (mem_foreignKeysOn he hcolumns).mp hcolumn with
    ⟨r, hr, hkind, rfl⟩ | ⟨owner, o, ho, r, hr, hkind, rfl, rfl⟩
  · have hlocal := (h.joins name e he r hr).1
    rwa [Relation.localColumn, hkind] at hlocal
  · have hremote := (h.joins owner o ho r hr).2 e he
    rwa [Relation.remoteColumn_eq hkind] at hremote

end Metadata

namespace Registry

theorem Built.fetchers_declared {entities : List Entity} (hkeys : ∀ e ∈ entities, e.primaryKey ⊆ e.columnNames)
    (htabular : (Metadata.ofList entities).Tabular) {config : Config} {declared : List (MapperDeclaration C)}
    {resolved : List (Mapper C)} {r : Registry C}
    (h : Built (Metadata.ofList entities) config declared resolved r) :
    r.fetchers.Declared (Metadata.ofList entities) := by
  constructor
  · intro key fetcher hget e he
    obtain ⟨hplan, e', he', hkey⟩ := h.supplied.entity key fetcher hget
    obtain ⟨a, ha, hakey, hplan⟩ := h.committed.get?_plansOf.mp hplan
    rw [← hplan, h.committed.key_eq ha, hakey] at he
    obtain rfl := Option.some.inj (he.symm.trans he')
    exact hkeys e (Metadata.mem_of_entity? he).1 (hkey ▸ List.mem_singleton_self _)
  · intro key fetcher hget e he
    obtain ⟨hplan, hcarrier, -⟩ := h.supplied.reverse key fetcher hget
    obtain ⟨a, ha, -, hplan⟩ := h.committed.get?_plansOf.mp hplan
    obtain ⟨front, back, -, -, hcommit⟩ := h.committed.exists_front ha
    obtain ⟨-, entity, foreignKeys, choices, hcommits⟩ := commit_eq_ok hcommit
    rw [← hplan, hcommits.key_eq] at he
    obtain rfl := Option.some.inj (he.symm.trans hcommits.entity_eq)
    -- The foreign key is a carrier of the mapper, so it is a key column or a foreign key of its entity.
    have hmem := List.mem_of_getElem? (carriers_of_carrierSlot hcarrier)
    rw [← hplan] at hmem
    rcases hcommits.mem_carriers hmem with hmem | ⟨columns, hcolumns, hmem⟩
    · exact hkeys e (Metadata.mem_of_entity? he).1 hmem
    · exact htabular.foreignKeysOn_subset he hcolumns hmem

end Registry

/-! ## Sources -/

/-- A load of declared columns by few keys gives the same rows from memory and from tables. -/
theorem Source.exchanges_tables {metadata : Metadata} (htabular : metadata.Tabular) (hnamed : metadata.Named)
    (hcreatable : ∀ name e, metadata.entity? name = some e → e.Creatable)
    {tables : List (String × List Row)} (hstocks : metadata.Stocks tables) {db : Database}
    (hdb : ∀ name rows e, (name, rows) ∈ tables → metadata.entity? name = some e →
      db.tables.get? (Table.folded e.table) = some (tableOf e rows)) :
    Exchanges metadata LoadRecord.HasFewKeys (Memory.ofTables tables).source db.source where
  rows_eq name e he filter hfilter hfew _ _ := by
    obtain ⟨rows, hrows⟩ := hstocks.covers name e he
    obtain ⟨e', he', hfits⟩ := hstocks.fits _ hrows
    obtain rfl := Option.some.inj (he.symm.trans he')
    have hreadable := Database.readable_of_creatable (hcreatable name e he) hfilter hfew
    have hselect := Database.select_eq (hdb name rows e hrows he) (htabular.entities name e he) hfits hfilter hreadable
    change .ok ((Memory.ofTables tables).matching e.name filter) = db.select e filter
    rw [hselect, Memory.matching_eq_filter, hnamed name e he, Memory.rows_ofTables hstocks.nodup hrows]

/-! ## Loads that fail -/

theorem Source.after_fetch_of_load_error {source : DataSource} {metadata : Metadata} {q : Query} {e : Entity}
    (he : metadata.entity? q.entity = some e) (hq : q.matchesNothing = false) {err : Error}
    (hload : ∀ history, (source.reply history e q.filter).rows = .error err) (l : Loading) :
    After (Source.fetch source metadata q) l fun result _ => result = .error err := by
  unfold Source.fetch
  rw [if_neg (by simp [hq]), requireEntity_eq_ok.mpr he]
  have hrows : After (source.load e q.filter) l fun result _ => result = .error err := hload l.journal.loads
  refine .ok_bind (After.bind_iff.mpr (hrows.mono fun result _ hresult => ?_))
  rw [hresult]
  rfl

theorem Registry.map_of_load_error {r : Registry C} {q : Query} {destination : String} {a : Registration C}
    (ha : r.find? ⟨q.entity, destination⟩ = some a) {e : Entity} (he : r.metadata.entity? q.entity = some e)
    (hq : q.matchesNothing = false) {source : DataSource} {err : Error}
    (hload : ∀ history, (source.reply history e q.filter).rows = .error err) (ambient : C) (heap : Heap) :
    (r.map q destination source ambient heap).1 = .error (.query a.plan.text err) := by
  have hmap : After (r.mapping q destination source ambient) (.initial heap) fun result _ =>
      result = .error (.query a.plan.text err) := by
    unfold mapping
    rw [require_eq_ok.mpr ha]
    refine .ok_bind ?_
    unfold mapBy materialize
    -- The plan adds includes to the query, and these are looked at after the first load.
    have hfetch := Source.after_fetch_of_load_error (q := q.withIncludes a.plan.includes) he hq hload
    rw [After.bind_iff, After.bind_iff, After.adapt_iff, PassM.loading_iff]
    refine (hfetch _).mono fun result _ hresult => ?_
    rw [hresult]
    rfl
  exact hmap

/-! ## Passes -/

namespace Registry

/-- Rows that fit their entities can be kept in tables, and a pass on the tables has the same result, the same
objects and the same statistics as a pass on the rows in memory, also when it fails. The database must be able
to have the tables, the columns of primary keys must be among theirs, and it must be able to read the statements: no
load of the pass may ask for more keys than a statement can have parameters. -/
theorem map_same_from_tables {entities : List Entity} (hkeys : ∀ e ∈ entities, e.primaryKey ⊆ e.columnNames)
    (htabular : (Metadata.ofList entities).Tabular)
    (hcreatable : ∀ name e, (Metadata.ofList entities).entity? name = some e → e.Creatable)
    {tables : List (String × List Row)} (hstocks : (Metadata.ofList entities).Stocks tables) :
    ∃ db, Source.Database.ofTables? (.ofList entities) tables = some db ∧
      ∀ {config : Config} {declared : List (MapperDeclaration C)} {logs : List LogRecord} {r : Registry C},
        ((build (.ofList entities) config declared).run.run logs).1 = .ok r → ∀ q : Query,
        (∀ e, (Metadata.ofList entities).entity? q.entity = some e → e.Filters q.filter) →
        ∀ (destination : String) (ambient : C) (heap : Heap),
          let inMemory := r.map q destination (Source.Memory.ofTables tables).source ambient heap
          let inTables := r.map q destination db.source ambient heap
          (∀ record ∈ inMemory.2.journal.loads, record.HasFewKeys) →
          inMemory.1 = inTables.1 ∧ inMemory.2.heap = inTables.2.heap ∧ inMemory.2.stats = inTables.2.stats := by
  obtain ⟨db, hdb, htables⟩ := Source.Database.exists_ofTables? htabular hstocks.nodup hstocks.fits
  refine ⟨db, hdb, ?_⟩
  intro config declared logs r hbuild q hfilter destination ambient heap inMemory inTables hfew
  obtain ⟨resolved, hbuilt⟩ := built_of_build hbuild
  have hexchanging : (r.setting (Source.Memory.ofTables tables).source ambient).Exchanging
      LoadRecord.HasFewKeys db.source := by
    refine ⟨?_, ?_, ?_⟩ <;> unfold setting <;> rw [hbuilt.metadata_eq]
    · exact htabular
    · exact Source.exchanges_tables htabular (Metadata.named_ofList entities) hcreatable hstocks htables
    · exact hbuilt.fetchers_declared hkeys htabular
  have hagree := agree_mapping hexchanging (hbuilt.metadata_eq ▸ hfilter) destination
  obtain ⟨-, hsame⟩ := hagree (.initial heap) (.initial heap) ⟨_, rfl⟩
    fun _ hr => absurd hr (by simp [PassState.initial])
  obtain ⟨-, hresult, j, hstate⟩ := hsame hfew
  exact ⟨hresult, congrArg (·.heap) hstate.symm, congrArg (·.stats) hstate.symm⟩

end Registry

/-! ## Orders in tables -/

namespace Sample

def tables : List (String × List Row) := [
  ("Customer", [⟨[("id", .int 1), ("name", .string "Ada")]⟩]),
  ("Order", [⟨[("id", .int 7), ("customer_id", .int 1)]⟩,
    ⟨[("id", .int 8), ("customer_id", .null)]⟩])]

def customer : Entity := ((Entity.new "Customer").withKey "id" .int).withColumn "name" .string

def order : Entity := (((Entity.new "Order").withKey "id" .int).withColumn "customer_id" .int).withRelation
  ⟨"customer", "Customer", .belongsTo, "customer_id", "id"⟩

theorem tabular : (Metadata.ofList [customer, order]).Tabular :=
  .of_forall (by decide) (by decide) (by decide)

theorem creatable : ∀ e ∈ [customer, order], e.Creatable := by
  rw [List.forall_mem_cons, List.forall_mem_singleton]
  exact ⟨⟨by decide, by decide, by decide, by decide⟩, ⟨by decide, by decide, by decide, by decide⟩⟩

theorem stocks : (Metadata.ofList [customer, order]).Stocks tables := by
  refine .of_forall (by decide) ?_ (by decide)
  unfold tables
  rw [List.forall_mem_cons, List.forall_mem_singleton]
  exact ⟨⟨customer, rfl, by decide⟩, ⟨order, rfl, by decide⟩⟩

/-- Two orders and the customer of one are mapped from tables as they are from memory. -/
theorem orders_same_from_tables : ∃ db r mapped,
    Source.Database.ofTables? metadata tables = some db ∧
      ((Registry.build metadata {} declared).run.run []).1 = .ok r ∧
      let q := (Query.all "Order").filterIn "id" [.int 7, .int 8]
      (r.map q "OrderView" (Source.Memory.ofTables tables).source () .empty).1 = .ok mapped ∧
        (r.map q "OrderView" db.source () .empty).1 = .ok mapped := by
  have hruns : (((Registry.build metadata {} declared).run.run []).1.toOption.any fun r =>
      let pass := r.map ((Query.all "Order").filterIn "id" [.int 7, .int 8]) "OrderView"
        (Source.Memory.ofTables tables).source () .empty
      pass.1.toOption.any fun _ => pass.2.journal.loads.all fun record => record.HasFewKeys) = true := by cbv
  obtain ⟨r, hbuild, hruns⟩ := exists_ok_of_any hruns
  obtain ⟨mapped, hmapped, hfew⟩ := exists_ok_of_any hruns
  have hfilter : ∀ e, metadata.entity? "Order" = some e →
      e.Filters (some ⟨"id", [.int 7, .int 8]⟩) := by
    rintro e he f hf
    obtain rfl := Option.some.inj hf
    obtain rfl : order = e := Option.some.inj he
    exact ⟨by decide, by simp [Key.IsSimple]⟩
  have hkeys : ∀ e ∈ [customer, order], e.primaryKey ⊆ e.columnNames := by decide
  obtain ⟨db, hdb, hsame⟩ := Registry.map_same_from_tables (C := Unit) hkeys tabular
    (fun _ e he => creatable e (Metadata.mem_of_entity? he).1) stocks
  obtain ⟨hresult, -⟩ := hsame hbuild ((Query.all "Order").filterIn "id" [.int 7, .int 8]) hfilter
    "OrderView" () .empty fun record hrecord => of_decide_eq_true (List.all_eq_true.mp hfew record hrecord)
  exact ⟨db, r, mapped, hdb, hbuild, hmapped, hresult.symm.trans hmapped⟩

/-! ## What tables fall short of -/

/-- A pass on rows in memory gives a result where a pass on the tables of these rows fails. -/
def FailsInTables (metadata : Metadata) (declared : List (MapperDeclaration Unit))
    (tables : List (String × List Row)) (q : Query) (destination : String) : Prop :=
  ∃ db r mapped e, Source.Database.ofTables? metadata tables = some db ∧
    ((Registry.build metadata {} declared).run.run []).1 = .ok r ∧
    (r.map q destination (Source.Memory.ofTables tables).source () .empty).1 = .ok mapped ∧
    (r.map q destination db.source () .empty).1 = .error e

/-- The pass on the tables fails when its first load does. -/
theorem FailsInTables.of_load {metadata : Metadata} {declared : List (MapperDeclaration Unit)}
    {tables : List (String × List Row)} {q : Query} {destination : String} (hq : q.matchesNothing = false)
    (hruns : (((Registry.build metadata {} declared).run.run []).1.toOption.any fun r =>
      (r.map q destination (Source.Memory.ofTables tables).source () .empty).1.toOption.any fun _ =>
        (r.find? ⟨q.entity, destination⟩).isSome) = true)
    {db : Source.Database} (hdb : Source.Database.ofTables? metadata tables = some db) {e : Entity}
    (he : metadata.entity? q.entity = some e) {err : Error} (hselect : db.select e q.filter = .error err) :
    FailsInTables metadata declared tables q destination := by
  obtain ⟨r, hbuild, hruns⟩ := exists_ok_of_any hruns
  obtain ⟨mapped, hmapped, hfind⟩ := exists_ok_of_any hruns
  obtain ⟨a, ha⟩ := Option.isSome_iff_exists.mp hfind
  obtain ⟨resolved, hbuilt⟩ := Registry.built_of_build hbuild
  exact ⟨db, r, mapped, _, hdb, hbuild, hmapped,
    Registry.map_of_load_error ha (hbuilt.metadata_eq ▸ he) hq (fun _ => hselect) () .empty⟩

/-- The customer with the key 1, which is asked for along with other keys. -/
def customersBy (rest : List Key) : Query := (Query.all "Customer").filterIn "id" (.int 1 :: rest)

theorem failsInTables_of_many_keys {rest : List Key} (hrest : Source.Database.parameterLimit ≤ rest.length) :
    FailsInTables metadata declared tables (customersBy rest) "CustomerView" := by
  obtain ⟨db, hdb, -⟩ := Source.Database.exists_ofTables? tabular stocks.nodup stocks.fits
  have hreadable : Source.Database.readable customer (customersBy rest).filter = false := by
    have hvalues : (Source.Statement.select .sqlite customer (customersBy rest).filter).values.length =
        rest.length + 1 := by simp [customersBy, Query.filterIn, Source.Statement.select, Source.Statement.parameters]
    have hmany : ¬ rest.length + 1 ≤ Source.Database.parameterLimit := by omega
    simp [Source.Database.readable, hvalues, hmany]
  have hselect : db.select customer (customersBy rest).filter = .error (.database "the statement cannot be read") :=
    if_neg (by simp [hreadable])
  exact .of_load rfl (by cbv) hdb (e := customer) rfl hselect

/-- Parties have one column, and it is another one that tells them apart. -/
def parties : List Entity := [customer, order,
  { ((Entity.new "Party").withColumn "id" .int) with primaryKey := ["rowid"] }]

/-- Orders fetch parties in the place of customers, and no party can be mapped. -/
def fetchingParties : List (MapperDeclaration Unit) := [
  ⟨⟨"Order", "OrderView"⟩,
    [{ destination := "customer", sourceShape := some (.entity "Party"), mapped := some "PartyView",
       style := some .fetch }], []⟩,
  ⟨⟨"Party", "PartyView"⟩,
    [{ destination := "id", transposer := some fun _ _ => .fail (.external "refused") }], []⟩]

def partyTables : List (String × List Row) := [
  ("Customer", []),
  ("Order", [⟨[("id", .int 7), ("customer_id", .int 1)]⟩]),
  ("Party", [⟨[("id", .int 5)]⟩])]

theorem tabular_parties : (Metadata.ofList parties).Tabular := .of_forall (by decide) (by decide) (by decide)

theorem stocks_parties : (Metadata.ofList parties).Stocks partyTables := by
  refine .of_forall (by decide) ?_ (by decide)
  unfold partyTables
  rw [List.forall_mem_cons, List.forall_mem_cons, List.forall_mem_singleton]
  exact ⟨⟨customer, rfl, by decide⟩, ⟨order, rfl, by decide⟩, ⟨_, rfl, by decide⟩⟩

/-- Rows in memory have no numbers, and in tables the first party has the number 1. -/
theorem failsInTables_of_row_numbers :
    FailsInTables (.ofList parties) fetchingParties partyTables (.all "Order") "OrderView" := by
  have hruns : ((Source.Database.ofTables? (.ofList parties) partyTables).any fun db =>
      ((Registry.build (.ofList parties) {} fetchingParties).run.run []).1.toOption.any fun r =>
        let inMemory := r.map (.all "Order") "OrderView" (Source.Memory.ofTables partyTables).source () .empty
        let inTables := r.map (.all "Order") "OrderView" db.source () .empty
        inMemory.1.toOption.any fun _ => inTables.1.toOption.isNone) = true := by cbv
  obtain ⟨db, hdb, hruns⟩ := (Option.any_eq_true _ _).mp hruns
  obtain ⟨r, hbuild, hruns⟩ := exists_ok_of_any hruns
  obtain ⟨mapped, hmapped, hnone⟩ := exists_ok_of_any hruns
  obtain ⟨e, hfailed⟩ := exists_error_of_isNone hnone
  exact ⟨db, r, mapped, e, hdb, hbuild, hmapped, hfailed⟩

/-- Memory without rows of an entity gives none, and a database has no such table. -/
theorem failsInTables_of_missing_table :
    FailsInTables metadata declared [("Order", [])] (.all "Customer") "CustomerView" := by
  have hselect : ((Source.Database.ofTables? metadata [("Order", [])]).any fun db =>
      (db.select customer none).toOption.isNone) = true := by decide +kernel
  obtain ⟨db, hdb, hnone⟩ := (Option.any_eq_true _ _).mp hselect
  obtain ⟨err, hselect⟩ := exists_error_of_isNone hnone
  exact .of_load rfl (by cbv) hdb (e := customer) rfl hselect

/-- What is asked of the tables and of the loads is needed. A database cannot read a statement with too many
keys, it knows row numbers where rows in memory have no such column, and it has only the tables that it was
given. -/
theorem tables_fall_short :
    (metadata.Tabular ∧ metadata.Stocks tables ∧
      customer.Filters (customersBy (List.replicate Source.Database.parameterLimit (.int 1))).filter ∧
      FailsInTables metadata declared tables (customersBy (List.replicate Source.Database.parameterLimit (.int 1)))
        "CustomerView") ∧
    ((Metadata.ofList parties).Tabular ∧ (Metadata.ofList parties).Stocks partyTables ∧
      FailsInTables (.ofList parties) fetchingParties partyTables (.all "Order") "OrderView") ∧
    FailsInTables metadata declared [("Order", [])] (.all "Customer") "CustomerView" := by
  refine ⟨⟨tabular, stocks, ?_, failsInTables_of_many_keys (List.length_replicate ..).ge⟩,
    ⟨tabular_parties, stocks_parties, failsInTables_of_row_numbers⟩, failsInTables_of_missing_table⟩
  rintro f hf
  obtain rfl := Option.some.inj hf
  refine ⟨by decide, fun k hk => ?_⟩
  rcases List.mem_cons.mp hk with rfl | hk
  · exact trivial
  · rw [List.eq_of_mem_replicate hk]
    exact trivial

end Sample

end EntityMapping
