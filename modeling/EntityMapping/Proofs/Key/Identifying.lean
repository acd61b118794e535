import EntityMapping.Proofs.Fetching
import EntityMapping.Proofs.Sufficiency

/-! # Primary keys

A transient carries the primary key of its row, and a row keeps its key when relations are attached to it, unless
one of them has the name of a key column. A key tells the cells that it was made of, so two rows with one key hold
the same in all of its columns.
-/

namespace EntityMapping

variable {C : Type}

/-! ## Keys and cells -/

theorem Value.eq_toValue_of_asKey? {v : Value} {k : Key} (h : v.asKey? = some k) : v = k.toValue := by
  cases v <;> cases h <;> rfl

theorem Key.ofParts_inj {parts parts' : List Key} (hlength : parts.length = parts'.length) :
    ofParts parts = ofParts parts' ↔ parts = parts' := by
  refine ⟨fun h => ?_, congrArg ofParts⟩
  match parts, parts', hlength with
  | [], [], _ => rfl
  | [k], [k'], _ => exact congrArg ([·]) h
  | _ :: _ :: _, _ :: _ :: _, _ => exact Key.composite.inj h

namespace Row

variable {columns : List String} {row row' : Row}

theorem key_congr (h : ∀ column ∈ columns, row.value column = row'.value column) :
    row.key columns = row'.key columns := by
  have hparts : columns.mapM (fun column => (row.value column).asKey?) =
      columns.mapM fun column => (row'.value column).asKey? := by
    have hcells := congrArg (List.mapM fun v : Value => v.asKey?) (List.map_congr_left h)
    rwa [List.mapM_map, List.mapM_map] at hcells
  unfold key
  rw [hparts]

theorem exists_key (hne : columns ≠ []) (h : ∀ column ∈ columns, (row.value column).asKey?.isSome) :
    ∃ k, row.key columns = some k := by
  obtain ⟨parts, hparts⟩ := exists_forall₂ fun column hcolumn => Option.isSome_iff_exists.mp (h column hcolumn)
  refine ⟨_, key_eq_some.mpr ⟨parts, fun hnil => hne ?_, hparts, rfl⟩⟩
  exact List.forall₂_nil_right_iff.mp (hnil ▸ hparts)

theorem key_eq_key_iff (hne : columns ≠ []) :
    (∃ k, row.key columns = some k ∧ row'.key columns = some k) ↔
      ∀ column ∈ columns, (row.value column).asKey?.isSome ∧ row.value column = row'.value column := by
  constructor
  · rintro ⟨k, hk, hk'⟩ column hcolumn
    obtain ⟨parts, -, hparts, rfl⟩ := key_eq_some.mp hk
    obtain ⟨parts', -, hparts', heq⟩ := key_eq_some.mp hk'
    obtain rfl := (Key.ofParts_inj (hparts'.length_eq.symm.trans hparts.length_eq)).mp heq
    obtain ⟨n, hn, rfl⟩ := List.mem_iff_getElem.mp hcolumn
    have hn' : n < parts'.length := hparts.length_eq ▸ hn
    have hpart := hparts.get hn hn'
    have hpart' := hparts'.get hn hn'
    exact ⟨Option.isSome_iff_exists.mpr ⟨_, hpart⟩,
      (Value.eq_toValue_of_asKey? hpart).trans (Value.eq_toValue_of_asKey? hpart').symm⟩
  · intro hcells
    obtain ⟨k, hk⟩ := exists_key hne fun column hcolumn => (hcells column hcolumn).1
    exact ⟨k, hk, key_congr (fun column hcolumn => (hcells column hcolumn).2) ▸ hk⟩

end Row

/-! ## Attached relations -/

namespace Source

variable {source : DataSource} {metadata : Metadata} {e : Entity} {is : List Include} {rows attached : List Row}
  {l l' : Loading}

theorem value_of_attachAll (h : (attachAll source metadata e rows is).run.run l = (.ok attached, l')) :
    List.Forall₂ (fun row joined => ∀ column ∉ is.map (·.relation), joined.value column = row.value column)
      rows attached := by
  -- Each relation changes the column of its own name only.
  induction is generalizing rows l with
  | nil =>
    unfold attachAll at h
    obtain rfl := Except.ok.inj (Prod.mk.inj h).1
    exact List.forall₂_same.mpr fun _ _ _ _ => rfl
  | cons i rest ih =>
    unfold attachAll at h
    obtain ⟨rows₁, l₁, hfirst, hrest⟩ := After.run_bind_eq_ok.mp h
    obtain ⟨field, nested⟩ := i
    unfold attach at hfirst
    obtain ⟨relation, _, -, hfirst⟩ := After.run_bind_eq_ok.mp hfirst
    obtain ⟨target, _, -, hfirst⟩ := After.run_bind_eq_ok.mp hfirst
    obtain ⟨_, _, -, hfirst⟩ := After.run_bind_eq_ok.mp hfirst
    obtain ⟨related, _, -, hfirst⟩ := After.run_bind_eq_ok.mp hfirst
    obtain rfl := Except.ok.inj (Prod.mk.inj hfirst).1
    refine (List.forall₂_map_left_iff.mp (ih hrest)).imp fun row joined hkept column hcolumn => ?_
    rw [List.map_cons, List.mem_cons, not_or] at hcolumn
    rw [hkept column hcolumn.2, joinRow, Row.value_set, if_neg (Ne.symm hcolumn.1)]

/-- Rows have the primary key that they had before relations were attached to them. -/
theorem key_of_attachAll (hapart : metadata.KeysApart) {name : String} (he : metadata.entity? name = some e)
    (h : (attachAll source metadata e rows is).run.run l = (.ok attached, l')) :
    List.Forall₂ (fun row joined => joined.key e.primaryKey = row.key e.primaryKey) rows attached := by
  refine (value_of_attachAll h).imp fun row joined hkept => Row.key_congr fun column hcolumn => hkept column ?_
  intro hmem
  obtain ⟨i, hi, rfl⟩ := List.mem_map.mp hmem
  obtain ⟨relation, hrelation, hname⟩ := exists_relation_of_attachAll h hi
  exact hapart name e he relation hrelation (hname ▸ hcolumn)

end Source

/-! ## Carried keys -/

theorem Plan.keyOf_project {plan : Plan C} {row : Row} {ambient : C} {t : Transient}
    (h : plan.project row ambient = .ok t) : plan.head.keyOf t = row.key plan.head.primaryKey := by
  rw [Plan.project_eq] at h
  obtain ⟨slots, -, rfl⟩ := map_eq_ok.mp h
  exact keyOf_eq_key plan.head

namespace Mapper

/-- A committed mapper reads from its transients the primary keys of their rows, by the key columns of its entity.
They are those that the rows had before relations were attached to them. Rows have one key in given columns exactly
when all these columns hold keys, and the same in both rows, so a key is that of one tuple of cells only. -/
theorem commit_reads_primaryKey {m : Mapper C} {metadata : Metadata} {c : Commitments C} {plan : Plan C}
    (hcommit : m.commit metadata c = .ok plan) (hapart : metadata.KeysApart) :
    (∃ e, metadata.entity? m.key.source = some e ∧
      (∀ row ambient t, plan.project row ambient = .ok t → plan.head.keyOf t = row.key e.primaryKey) ∧
      ∀ source rows is l attached, ((Source.attachAll source metadata e rows is).run.run l).1 = .ok attached →
        List.Forall₂ (fun row joined => joined.key e.primaryKey = row.key e.primaryKey ∧
          ∀ ambient t, plan.project joined ambient = .ok t → plan.head.keyOf t = row.key e.primaryKey)
          rows attached) ∧
    ∀ columns, columns ≠ [] → ∀ row row' : Row,
      (∃ k, row.key columns = some k ∧ row'.key columns = some k) ↔
        ∀ column ∈ columns, (row.value column).asKey?.isSome ∧ row.value column = row'.value column := by
  obtain ⟨-, e, foreignKeys, choices, hcommits⟩ := commit_eq_ok hcommit
  have hprimary : plan.head.primaryKey = e.primaryKey := by rw [hcommits.head_eq]
  have hproject : ∀ row ambient t, plan.project row ambient = .ok t →
      plan.head.keyOf t = row.key e.primaryKey :=
    fun row ambient t ht => hprimary ▸ Plan.keyOf_project ht
  refine ⟨⟨e, hcommits.entity_eq, hproject, fun source rows is l attached hattach => ?_⟩,
    fun columns hne row row' => Row.key_eq_key_iff hne⟩
  refine (Source.key_of_attachAll hapart hcommits.entity_eq (Prod.ext hattach rfl)).imp fun row joined hkey => ?_
  exact ⟨hkey, fun ambient t ht => hkey ▸ hproject joined ambient t ht⟩

end Mapper

/-! ## Lines of orders -/

namespace Sample

/-- Lines go by their order and their number in it. -/
def invoicing : Metadata := .ofList [
  ((Entity.new "Order").withKey "id" .int).withColumn "note" .string,
  ((((Entity.new "Line").withKey "order_id" .int).withKey "number" .int).withColumn "product" .string).withRelation
    ⟨"order", "Order", .belongsTo, "order_id", "id"⟩]

def lineMapper : Mapper Unit := ⟨⟨"Line", "LineView"⟩, [{
  name := "note"
  source := .path ["order", "note"]
  sourceShape := .scalar
  destination := "note"
  destinationShape := .scalar .any
  expected := .scalar .any
  style := .inline
  transposer := none }], []⟩

/-- A line of the seventh order. -/
def line (number : Value) : Row := ⟨[("order_id", .int 7), ("number", number)]⟩

def invoiced : Source.Memory := .ofTables [
  ("Order", [⟨[("id", .int 7), ("note", .string "gift")]⟩]),
  ("Line", [line (.int 1), line (.int 2), line .null])]

/-- Lines that were joined with their order are projected with keys of their own. A line without a number has no
key. -/
theorem lines_keep_keys : ∃ (plan : Plan Unit) (attached : List Row) (transients : List Transient),
    lineMapper.commit invoicing ⟨[], .empty⟩ = .ok plan ∧ invoicing.KeysApart ∧
    (∃ e, invoicing.entity? "Line" = some e ∧ e.primaryKey = ["order_id", "number"] ∧
      ((Source.attachAll invoiced.source invoicing e (invoiced.rows "Line") plan.includes).run.run ⟨.empty, 0⟩).1 =
        .ok attached) ∧
    attached.mapM (fun joined => plan.project joined ()) = .ok transients ∧
    transients.map plan.head.keyOf =
      [some (.composite [.int 7, .int 1]), some (.composite [.int 7, .int 2]), none] ∧
    ¬ ∃ k, (line (.int 1)).key ["order_id", "number"] = some k ∧ (line (.int 2)).key ["order_id", "number"] = some k := by
  have hran : ((lineMapper.commit invoicing ⟨[], .empty⟩).toOption.any fun plan =>
      (invoicing.entity? "Line").any fun e =>
        ((Source.attachAll invoiced.source invoicing e (invoiced.rows "Line") plan.includes).run.run
          ⟨.empty, 0⟩).1.toOption.any fun attached =>
            (attached.mapM fun joined => plan.project joined ()).toOption.any fun _ => true) = true := by cbv
  obtain ⟨plan, hcommit, hran⟩ := exists_ok_of_any hran
  obtain ⟨e, he, hran⟩ := (Option.any_eq_true _ _).mp hran
  obtain ⟨attached, hattach, hran⟩ := exists_ok_of_any hran
  obtain ⟨transients, hproject, -⟩ := exists_ok_of_any hran
  have hapart : invoicing.KeysApart := Metadata.keysApart_of_entries (by decide)
  obtain ⟨⟨e', he', hcarries, hkept⟩, htells⟩ := Mapper.commit_reads_primaryKey hcommit hapart
  obtain rfl : e = e' := Option.some.inj (he.symm.trans he')
  have hcolumns : e.primaryKey = ["order_id", "number"] := by
    obtain rfl := Option.some.inj he
    rfl
  refine ⟨plan, attached, transients, hcommit, hapart, ⟨e, he, hcolumns, hattach⟩, hproject, ?_, fun hsame => ?_⟩
  · calc transients.map plan.head.keyOf
      _ = attached.map (·.key e.primaryKey) :=
        (map_eq_map_of_forall₂ ((mapM_eq_ok.mp hproject).imp fun _ _ ht => (hcarries _ _ _ ht).symm)).symm
      _ = (invoiced.rows "Line").map (·.key e.primaryKey) :=
        (map_eq_map_of_forall₂ ((hkept _ _ _ _ _ hattach).imp fun _ _ hkey => hkey.1.symm)).symm
      _ = _ := by rw [hcolumns]; rfl
  · have hnumber := ((htells _ (by simp) _ _).mp hsame "number" (by simp)).2
    exact absurd hnumber (by simp [line, Row.value, Dict.get?, Dict.lookup])

end Sample

end EntityMapping
