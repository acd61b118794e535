import EntityMapping.Proofs.Evaluation
import EntityMapping.Proofs.Pass.Loads
import EntityMapping.Proofs.Projecting

/-! # Attached relations

The rows of a query are rows that the source answered with, and relations are attached to them as fields one
after the other. No other field changes, on any level of includes, so a column is read as it was loaded unless
a relation of its name was included.
-/

namespace EntityMapping

/-! ## Rows and what is attached to them -/

/-- The rows that a relation's field leads to. -/
def Value.rows : Value → List Row
  | .row related => [related]
  | .list items => items.filterMap fun
    | .row related => some related
    | _ => none
  | _ => []

theorem Source.mem_of_mem_rows {kind : RelationKind} {found : List Row} {related : Row}
    (h : related ∈ (relationValue kind found).rows) : related ∈ found := by
  cases kind with
  | hasMany =>
    unfold relationValue Value.rows at h
    obtain ⟨item, hitem, heq⟩ := List.mem_filterMap.mp h
    obtain ⟨next, hnext, rfl⟩ := List.mem_map.mp hitem
    exact Option.some.inj heq ▸ hnext
  | belongsTo | hasOne =>
    cases found with
    | nil => cases h
    | cons first rest =>
      unfold relationValue Value.rows at h
      exact List.mem_singleton.mp h ▸ List.mem_cons_self

/-- A row on some level of the includes of a query, with its entity and what is included on that level. A
relation that is included twice leads to the rows of its last include. -/
inductive Row.Reaches (metadata : Metadata) :
    (e : Entity) → List Include → Row → (target : Entity) → List Include → Row → Prop
  | here {e : Entity} {is : List Include} {row : Row} : Reaches metadata e is row e is row
  | along {e next target : Entity} {front back is : List Include} {i : Include} {r : Relation}
    {row related row' : Row} :
    i.relation ∉ back.map (·.relation) → e.relation? i.relation = some r →
    metadata.entity? r.target = some next → related ∈ (row.value i.relation).rows →
    Reaches metadata next i.nested related target is row' →
    Reaches metadata e (front ++ i :: back) row target is row'

/-- The row is the one before it, with the relations of includes attached to it one after the other. All rows
that it leads to come from rows in `gave` in the same way. -/
inductive Attached (gave : Entity → Row → Prop) (metadata : Metadata) :
    Entity → List Include → (before row : Row) → Prop
  | loaded {e : Entity} {row : Row} : gave e row → Attached gave metadata e [] row row
  | attach {e target : Entity} {front : List Include} {i : Include} {r : Relation} {before row : Row}
    {found : List Row} {origin : (next : Row) → next ∈ found → Row} :
    Attached gave metadata e front before row → e.relation? i.relation = some r →
    metadata.entity? r.target = some target →
    (∀ next hnext, Attached gave metadata target i.nested (origin next hnext) next) →
    Attached gave metadata e (front ++ [i]) before
      (row.set i.relation (Source.relationValue r.kind found))

namespace Attached

variable {gave : Entity → Row → Prop} {metadata : Metadata} {e : Entity} {is : List Include} {before row : Row}

theorem mono {gave' : Entity → Row → Prop} (h : Attached gave metadata e is before row)
    (himp : ∀ e row, gave e row → gave' e row) : Attached gave' metadata e is before row := by
  induction h with
  | loaded hgave => exact .loaded (himp _ _ hgave)
  | attach _ hr htarget _ ih ihfound => exact .attach ih hr htarget ihfound

theorem of_gave (h : Attached gave metadata e is before row) : gave e before := by
  induction h with
  | loaded hgave => exact hgave
  | attach _ _ _ _ ih _ => exact ih

/-- Only the fields of included relations are written. -/
theorem get?_eq (h : Attached gave metadata e is before row) {column : String}
    (hcolumn : column ∉ is.map (·.relation)) : row.get? column = before.get? column := by
  induction h with
  | loaded => rfl
  | attach _ _ _ _ ih _ =>
    rw [List.map_append, List.mem_append, not_or] at hcolumn
    rw [Dict.get?_set_of_ne _ _ fun heq => hcolumn.2 (by simp [heq]), ih hcolumn.1]

theorem exists_found (h : Attached gave metadata e is before row) {front back : List Include} {i : Include}
    (his : is = front ++ i :: back) (hlast : i.relation ∉ back.map (·.relation)) :
    ∃ r target found, e.relation? i.relation = some r ∧ metadata.entity? r.target = some target ∧
      row.value i.relation = Source.relationValue r.kind found ∧
      ∀ next ∈ found, ∃ origin, Attached gave metadata target i.nested origin next := by
  induction h generalizing back with
  | loaded => simp at his
  | @attach e target _ _ r before row found _ _ hr htarget hfound ih _ =>
    rcases List.eq_nil_or_concat back with rfl | ⟨back, j, rfl⟩
    · -- The include is the last one of all.
      obtain ⟨rfl, heq⟩ := List.append_inj' his rfl
      obtain rfl := List.singleton_inj.mp heq
      refine ⟨r, target, found, hr, htarget, ?_, fun next hnext => ⟨_, hfound next hnext⟩⟩
      rw [Row.value_set, if_pos rfl]
    · -- A later include writes another field.
      rw [List.concat_eq_append, ← List.cons_append, ← List.append_assoc] at his
      obtain ⟨rfl, heq⟩ := List.append_inj' his rfl
      obtain rfl := List.singleton_inj.mp heq
      rw [List.concat_eq_append, List.map_append, List.mem_append, not_or] at hlast
      rw [Row.value_set, if_neg fun heq => hlast.2 (by simp [heq])]
      exact ih rfl hlast.1

theorem exists_origin (h : Attached gave metadata e is before row) {front back : List Include} {i : Include}
    (his : is = front ++ i :: back) (hlast : i.relation ∉ back.map (·.relation)) {r : Relation}
    (hr : e.relation? i.relation = some r) {target : Entity} (htarget : metadata.entity? r.target = some target)
    {next : Row} (hnext : next ∈ (row.value i.relation).rows) :
    ∃ origin, Attached gave metadata target i.nested origin next := by
  obtain ⟨r', target', found, hr', htarget', hvalue, hfound⟩ := h.exists_found his hlast
  obtain rfl := Option.some.inj (hr.symm.trans hr')
  obtain rfl := Option.some.inj (htarget.symm.trans htarget')
  rw [hvalue] at hnext
  exact hfound next (Source.mem_of_mem_rows hnext)

/-- Every row that is reached comes from a row in `gave`, and differs from it by the fields of relations that
are included on its level only. -/
theorem of_reaches {target : Entity} {js : List Include} {row' : Row}
    (h : Attached gave metadata e is before row) (hreach : Row.Reaches metadata e is row target js row') :
    ∃ origin, Attached gave metadata target js origin row' := by
  induction hreach generalizing before with
  | here => exact ⟨before, h⟩
  | along hlast hr htarget hnext _ ih =>
    obtain ⟨origin, horigin⟩ := h.exists_origin rfl hlast hr htarget hnext
    exact ih horigin

end Attached

/-! ## Loading -/

/-- The source answered with the row when it was asked for rows of the entity between two states. -/
def DataSource.Gave (source : DataSource) (l l' : Loading) (e : Entity) (row : Row) : Prop :=
  ∃ history filter rows, l.journal.loads <+: history ∧
    history ++ [⟨e.name, filter⟩] <+: l'.journal.loads ∧
    (source.reply history e filter).rows = .ok rows ∧ row ∈ rows

theorem DataSource.Gave.mono {source : DataSource} {l l₁ l₂ l' : Loading} {e : Entity} {row : Row}
    (h : source.Gave l₁ l₂ e row) (hbefore : l.journal.loads <+: l₁.journal.loads)
    (hafter : l₂.journal.loads <+: l'.journal.loads) : source.Gave l l' e row := by
  obtain ⟨history, filter, rows, hfirst, hlast, hrows, hrow⟩ := h
  exact ⟨history, filter, rows, hbefore.trans hfirst, hlast.trans hafter, hrows, hrow⟩

theorem Loading.Made.loads_append {records : List LoadRecord} {l l' : Loading} (h : Made records l l') :
    l'.journal.loads = l.journal.loads ++ records := by
  rw [Journal.loads_eq, h.errands_eq, List.filterMap_append, ← Journal.loads_eq, List.filterMap_map]
  congr 1
  exact List.filterMap_some

theorem LoadsAtMost.grows {α : Type} {n : Nat} {x : LoadM α} (h : LoadsAtMost n x) (l : Loading) :
    After x l fun _ l' => l.journal.loads <+: l'.journal.loads :=
  (h l).mono fun _ _ ⟨_, hmade, _⟩ => hmade.loads_append ▸ List.prefix_append _ _

namespace Source

variable (source : DataSource) {metadata : Metadata}

theorem gave_load (e : Entity) (filter : Option KeyFilter) (l : Loading) :
    After (source.load e filter) l (either (fun rows l' =>
      (source.reply l.journal.loads e filter).rows = .ok rows ∧ ∀ row ∈ rows, source.Gave l l' e row)
      fun _ _ => True) := by
  have hmade : After (source.load e filter) l fun _ l' => l'.journal.loads = l.journal.loads ++ [⟨e.name, filter⟩] :=
    (made_load source e filter l).mono fun _ _ h => h.loads_append
  have hrows : After (source.load e filter) l fun r _ => r = (source.reply l.journal.loads e filter).rows := rfl
  apply (hmade.and hrows).mono
  rintro (err | rows) l' ⟨hloads, hreply⟩
  · trivial
  · rw [either_ok]
    exact ⟨hreply.symm, fun row hrow => ⟨_, filter, rows, List.prefix_rfl, hloads ▸ List.prefix_rfl,
      hreply.symm, hrow⟩⟩

theorem gave_loadByKeys (target : Entity) (column : String) (keys : List Key) (l : Loading) :
    After (loadByKeys source target column keys) l
      (either (fun rows l' => ∀ row ∈ rows, source.Gave l l' target row) fun _ _ => True) := by
  unfold loadByKeys
  split
  · rw [After.pure_iff, either_ok]
    simp
  · exact (gave_load source target _ l).imp (fun _ _ h => h.2) fun _ _ _ => trivial

theorem exists_joinRow (relation : Relation) (field : String) (related : List Row) (row : Row) :
    ∃ found ⊆ related, joinRow relation field (groupByColumn related relation.remoteColumn) row =
      row.set field (relationValue relation.kind found) := by
  unfold joinRow
  dsimp only
  refine ⟨_, ?_, rfl⟩
  split
  · rw [groupByColumn_eq, getD_collect, List.map_id]
    exact List.filter_subset_self _
  · exact List.nil_subset _

/-- Rows that relations are attached to, all of them loaded since `l`. -/
abbrev AttachedSince (source : DataSource) (metadata : Metadata) (l s : Loading) (e : Entity)
    (is : List Include) (loaded rows : List Row) : Prop :=
  List.Forall₂ (Attached (source.Gave l s) metadata e is) loaded rows

variable {source} {l : Loading}

theorem AttachedSince.mono {s s' : Loading} {e : Entity} {is : List Include} {loaded rows : List Row}
    (h : AttachedSince source metadata l s e is loaded rows) (hafter : s.journal.loads <+: s'.journal.loads) :
    AttachedSince source metadata l s' e is loaded rows :=
  h.imp fun _ _ hattached => hattached.mono fun _ _ hgave => hgave.mono List.prefix_rfl hafter

variable (source)

mutual

theorem attached_attach : ∀ (i : Include) (e : Entity) {front : List Include} {loaded rows : List Row}
    {s : Loading}, l.journal.loads <+: s.journal.loads →
    AttachedSince source metadata l s e front loaded rows →
    After (attach source metadata e rows i) s
      (either (fun rows' s' => AttachedSince source metadata l s' e (front ++ [i]) loaded rows')
        fun _ _ => True)
  | ⟨field, nested⟩, e, front, loaded, rows, s, hsince, hrows => by
    unfold attach
    refine After.ofExcept_bind (fun r hr => ?_) fun _ _ => trivial
    have hr := requireRelation_eq_ok.mp hr
    refine After.ofExcept_bind (fun target htarget => ?_) fun _ _ => trivial
    have htarget := requireEntity_eq_ok.mp htarget
    dsimp only
    generalize hkeys : columnKeys rows r.localColumn = keys
    have hload := (gave_loadByKeys source target r.remoteColumn keys s).and
      ((loadsAtMost_loadByKeys source target r.remoteColumn (hkeys ▸ Key.nodup_distinct _)).grows s)
    rw [After.bind_iff]
    apply hload.mono
    rintro (err | related) s₁ ⟨hgave, hgrown⟩
    · trivial
    rw [either_ok] at hgave ⊢
    -- Nothing is attached yet to what was loaded just now.
    have hrelated : AttachedSince source metadata l s₁ target [] related related :=
      List.forall₂_same.mpr fun row hrow => .loaded ((hgave row hrow).mono hsince List.prefix_rfl)
    have hnested := (attached_attachAll nested target (hsince.trans hgrown) hrelated).and
      ((loadsAtMost_attachAll source metadata target related nested).grows s₁)
    rw [After.bind_iff]
    apply hnested.mono
    rintro (err | related') s₂ ⟨hattached, hgrown₂⟩
    · trivial
    rw [either_ok] at hattached ⊢
    rw [After.pure_iff, either_ok, AttachedSince, List.forall₂_map_right_iff]
    refine (hrows.mono (hgrown.trans hgrown₂)).imp fun before row hrow => ?_
    obtain ⟨found, hsubset, heq⟩ := exists_joinRow r field related' row
    rw [heq]
    have horigin : ∀ next (_ : next ∈ found), ∃ origin,
        Attached (source.Gave l s₂) metadata target nested origin next := by
      intro next hnext
      obtain ⟨origin, -, horigin⟩ := exists_of_forall₂_right hattached (hsubset hnext)
      exact ⟨origin, horigin⟩
    choose origin horigin using horigin
    exact .attach hrow hr htarget horigin

theorem attached_attachAll : ∀ (is : List Include) (e : Entity) {front : List Include}
    {loaded rows : List Row} {s : Loading}, l.journal.loads <+: s.journal.loads →
    AttachedSince source metadata l s e front loaded rows →
    After (attachAll source metadata e rows is) s
      (either (fun rows' s' => AttachedSince source metadata l s' e (front ++ is) loaded rows')
        fun _ _ => True)
  | [], _, _, _, _, _, _, hrows => by
    unfold attachAll
    rw [After.pure_iff, either_ok, List.append_nil]
    exact hrows
  | i :: rest, e, front, loaded, rows, s, hsince, hrows => by
    unfold attachAll
    have hfirst := (attached_attach i e hsince hrows).and
      ((loadsAtMost_attach source metadata e rows i).grows s)
    rw [After.bind_iff]
    apply hfirst.mono
    rintro (err | rows') s₁ ⟨hattached, hgrown⟩
    · trivial
    rw [either_ok] at hattached ⊢
    rw [List.append_cons]
    exact attached_attachAll rest e (hsince.trans hgrown) hattached

end

/-- The rows of a query are those that the source answered with, with relations attached to them. -/
theorem attached_fetch (q : Query) (hsome : q.matchesNothing = false) (l : Loading) :
    After (fetch source metadata q) l (either (fun rows l' => ∃ e loaded,
      metadata.entity? q.entity = some e ∧ (source.reply l.journal.loads e q.filter).rows = .ok loaded ∧
        AttachedSince source metadata l l' e q.includes loaded rows) fun _ _ => True) := by
  unfold fetch
  rw [if_neg (by simp [hsome])]
  refine After.ofExcept_bind (fun e he => ?_) fun _ _ => trivial
  have hload := (gave_load source e q.filter l).and
    ((made_load source e q.filter l).mono fun _ _ h => h.loads_append ▸ List.prefix_append _ _)
  rw [After.bind_iff]
  apply hload.mono
  rintro (err | loaded) s ⟨hgave, hgrown⟩
  · trivial
  rw [either_ok] at hgave ⊢
  have hloaded : AttachedSince source metadata l s e [] loaded loaded :=
    List.forall₂_same.mpr fun row hrow => .loaded (hgave.2 row hrow)
  exact (attached_attachAll source q.includes e hgrown hloaded).imp
    (fun rows _ hrows => ⟨e, loaded, requireEntity_eq_ok.mp he, hgave.1, hrows⟩) fun _ _ _ => trivial

end Source

/-! ## Columns -/

/-- The column of a row is as it was before, in the row and in every transient that carries it. -/
def Row.Keeps (before row : Row) (column : String) : Prop :=
  row.get? column = before.get? column ∧
    ∀ {C : Type} (plan : Plan C) ambient t slot, plan.project row ambient = .ok t →
      plan.head.carriers[slot]? = some column → t.value slot = before.value column

theorem Attached.keeps {gave : Entity → Row → Prop} {metadata : Metadata} {e : Entity} {is : List Include}
    {before row : Row} (h : Attached gave metadata e is before row) {column : String}
    (hcolumn : column ∉ is.map (·.relation)) : before.Keeps row column := by
  have hkept := h.get?_eq hcolumn
  refine ⟨hkept, fun plan ambient t slot hproject hslot => ?_⟩
  rw [Plan.project_eq] at hproject
  obtain ⟨slots, -, rfl⟩ := map_eq_ok.mp hproject
  rw [value_carrier hslot]
  unfold Row.value
  rw [hkept]

namespace Source

/-- A query answers with the rows that the source loaded for it, and on every level of its includes with rows
that the source loaded meanwhile. They are as they were loaded, but for the relations included on their level:
whoever joins, groups or carries rows by a column reads the key that was loaded, unless a relation of the
column's name was included. -/
theorem fetch_keeps_loaded {source : DataSource} {metadata : Metadata} {q : Query} {l l' : Loading}
    {rows : List Row} (h : (fetch source metadata q).run.run l = (.ok rows, l')) :
    (q.matchesNothing = true ∧ rows = []) ∨
      ∃ e loaded, metadata.entity? q.entity = some e ∧
        (source.reply l.journal.loads e q.filter).rows = .ok loaded ∧
        List.Forall₂ (fun before row => ∀ column ∉ q.includes.map (·.relation), before.Keeps row column)
          loaded rows ∧
        ∀ row ∈ rows, ∀ target is next, Row.Reaches metadata e q.includes row target is next →
          ∃ before, source.Gave l l' target before ∧
            ∀ column ∉ is.map (·.relation), before.Keeps next column := by
  by_cases hnothing : q.matchesNothing = true
  · rw [fetch_of_matchesNothing hnothing] at h
    exact Or.inl ⟨hnothing, (Except.ok.inj (Prod.ext_iff.mp h).1).symm⟩
  · have hfetched : After (fetch source metadata q) l _ := attached_fetch source q (by simpa using hnothing) l
    unfold After at hfetched
    rw [h, either_ok] at hfetched
    obtain ⟨e, loaded, he, hloaded, hattached⟩ := hfetched
    refine Or.inr ⟨e, loaded, he, hloaded, hattached.imp fun _ _ hrow _ => hrow.keeps, ?_⟩
    intro row hrow target is next hreach
    obtain ⟨before, -, hbefore⟩ := exists_of_forall₂_right hattached hrow
    obtain ⟨origin, horigin⟩ := hbefore.of_reaches hreach
    exact ⟨origin, horigin.of_gave, fun _ => horigin.keeps⟩

/-- Orders keep the keys of their customers when the customers are included. -/
theorem fetch_orders_keeps_loaded : ∃ rows l',
    (fetch Sample.memory.source Sample.metadata ((Query.all "Order").including (.new "customer"))).run.run
      ⟨.empty, 0⟩ = (.ok rows, l') ∧
    rows.map (·.get? "customer_id") = (Sample.memory.rows "Order").map (·.get? "customer_id") := by
  have hran : ((fetch Sample.memory.source Sample.metadata
      ((Query.all "Order").including (.new "customer"))).run.run ⟨.empty, 0⟩).1.toOption.any
        (fun rows => rows.length = 2) = true := by cbv
  obtain ⟨rows, hrows, -⟩ := exists_ok_of_any hran
  refine ⟨rows, _, Prod.ext hrows rfl, ?_⟩
  obtain ⟨hnothing, -⟩ | ⟨e, loaded, he, hloaded, hkept, -⟩ := fetch_keeps_loaded (Prod.ext hrows rfl)
  · cases hnothing
  · have hname : e.name = "Order" := Metadata.named_ofList _ _ _ he
    obtain rfl := Except.ok.inj hloaded
    rw [hname] at hkept
    exact (map_eq_map_of_forall₂ (hkept.imp fun _ _ hrow => (hrow "customer_id" (by decide)).1.symm)).symm

end Source

/-! ## A relation that hides a column -/

namespace Sample

/-- Orders hold the key of their customer under the name of a relation. -/
def shadowed : Metadata := .ofList [
  ((Entity.new "Customer").withKey "id" .int).withColumn "name" .string,
  ((((Entity.new "Order").withKey "id" .int).withColumn "customer" .int).withRelation
    ⟨"customer", "Customer", .belongsTo, "customer", "id"⟩).withRelation
    ⟨"buyer", "Customer", .belongsTo, "customer", "id"⟩]

def shadowedDeclared : List (MapperDeclaration Unit) := [
  ⟨⟨"Order", "OrderView"⟩,
    [{ destination := "id" }, { destination := "buyer", mapped := some "CustomerView" }], []⟩,
  ⟨⟨"Customer", "CustomerView"⟩, [{ destination := "id" }, { destination := "name" }], []⟩]

def bought : Source.Memory := .ofTables [
  ("Customer", [⟨[("id", .int 1), ("name", .string "Ada")]⟩]),
  ("Order", [⟨[("id", .int 7), ("customer", .int 1)]⟩])]

/-- Once the relation `customer` is attached, the column `customer` no longer holds the key that was loaded,
and the relation that goes by it after that finds nobody. -/
theorem customer_hides_column :
    (∃ r : Registry Unit, ((Registry.build shadowed {} shadowedDeclared).run.run []).1 = .ok r) ∧
    (∃ e, shadowed.entity? "Order" = some e ∧ ⟨"customer", .int⟩ ∈ e.columns) ∧
    (bought.rows "Order").map (fun row => (row.value "customer").asKey?) = [some (.int 1)] ∧
    ∃ rows, ((Source.fetch bought.source shadowed ⟨"Order", none, [.new "customer", .new "buyer"]⟩).run.run
        ⟨.empty, 0⟩).1 = .ok rows ∧
      rows.map (fun row => (row.value "customer").asKey?) = [none] ∧
      rows.map (fun row => (row.value "buyer").isNull) = [true] := by
  have hbuild : ((Registry.build shadowed {} shadowedDeclared).run.run []).1.toOption.any
      (fun r => r.order.length = 2) = true := by cbv
  have hfetch : ((Source.fetch bought.source shadowed ⟨"Order", none, [.new "customer", .new "buyer"]⟩).run.run
      ⟨.empty, 0⟩).1.toOption.any (fun rows =>
        rows.map (fun row => (row.value "customer").asKey?) = [none] ∧
          rows.map (fun row => (row.value "buyer").isNull) = [true]) = true := by cbv
  obtain ⟨r, hr, -⟩ := exists_ok_of_any hbuild
  obtain ⟨rows, hrows, hhidden⟩ := exists_ok_of_any hfetch
  exact ⟨⟨r, hr⟩, ⟨_, rfl, by decide⟩, rfl, rows, hrows, of_decide_eq_true hhidden⟩

end Sample

end EntityMapping
