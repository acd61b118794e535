import EntityMapping.Proofs.Heights
import EntityMapping.Proofs.Projecting

/-! # Conforming transients

The schema of a committed mapper names every field once. What the mapper projects from a row has one slot for
each field, of the kind of the field, and what is nested in a slot conforms to the schema of the mapper that
the field names.
-/

namespace EntityMapping

variable {C : Type}

/-! ## Names -/

theorem addName_eq_ok {owner : MapperKey} {names names' : List String} {name : String}
    (h : Layout.addName owner names name = .ok names') : name ∉ names ∧ names' = names ++ [name] := by
  unfold Layout.addName at h
  split at h
  · cases h
  · rename_i hnew
    exact ⟨hnew, (Except.ok.inj h).symm⟩

/-- Fields were laid out behind those of `names`, and no name is there twice. -/
def Lengthened (names added names' : List String) : Prop :=
  names' = names ++ added ∧ (names.Nodup → names'.Nodup)

namespace Lengthened

variable {names added names' : List String}

theorem refl (names : List String) : Lengthened names [] names := ⟨by simp, id⟩

theorem concat (h : Lengthened names added names') {name : String} (hnew : name ∉ names') :
    Lengthened names (added ++ [name]) (names' ++ [name]) := by
  refine ⟨by rw [h.1, List.append_assoc], fun hnodup => ?_⟩
  rw [← List.concat_eq_append]
  exact (h.2 hnodup).concat hnew

end Lengthened

theorem names_addCarrier {owner : MapperKey} {columns : List String} {l l' : Layout C}
    (h : columns.foldlM (Layout.addCarrier owner) l = .ok l') :
    Lengthened l.names (columns.map carrierName) l'.names := by
  refine foldlM_induct (fun front l' => Lengthened l.names (front.map carrierName) l'.names) ?_
    (Lengthened.refl _) h
  intro front column l₁ l₂ hfront hadd
  unfold Layout.addCarrier at hadd
  obtain ⟨names, hnames, rfl⟩ := map_eq_ok.mp hadd
  obtain ⟨hnew, rfl⟩ := addName_eq_ok hnames
  rw [List.map_append]
  exact hfront.concat hnew

theorem names_addItem {owner : MapperKey} {metadata : Metadata} {c : Commitments C}
    {items : List (Item C)} {l l' : Layout C}
    (h : items.foldlM (Layout.addItem owner metadata c) l = .ok l') :
    Lengthened l.names (items.map (·.name)) l'.names := by
  refine foldlM_induct (fun front l' => Lengthened l.names (front.map (·.name)) l'.names) ?_
    (Lengthened.refl _) h
  intro front i l₁ l₂ hfront hadd
  unfold Layout.addItem at hadd
  obtain ⟨choice, -, hadd⟩ := bind_eq_ok.mp hadd
  obtain ⟨names, hnames, hadd⟩ := bind_eq_ok.mp hadd
  obtain rfl := Except.ok.inj hadd
  obtain ⟨hnew, rfl⟩ := addName_eq_ok hnames
  rw [List.map_append]
  exact hfront.concat hnew

theorem Commits.assignments_eq {metadata : Metadata} {c : Commitments C} {m : Mapper C} {entity : Entity}
    {foreignKeys : List String} {choices : List (Choice C)} {plan : Plan C}
    (h : Commits metadata c m entity foreignKeys choices plan) :
    plan.items.map (·.1) = m.items.map .ofItem :=
  (map_eq_map_of_forall₂ (h.forall₂_items.imp fun _ _ hpart => hpart.1.symm)).symm

theorem Plan.names_schema (p : Plan C) :
    p.schema.map (·.name) = p.head.carriers.map carrierName ++ (p.items.map (·.1)).map (·.item) := by
  unfold Plan.schema
  rw [List.map_append, List.map_map, List.map_map, List.map_map]
  rfl

theorem nodup_of_commit {m : Mapper C} {metadata : Metadata} {c : Commitments C} {plan : Plan C}
    (h : m.commit metadata c = .ok plan) : (plan.schema.map (·.name)).Nodup := by
  obtain ⟨-, entity, foreignKeys, choices, hcommits⟩ := commit_eq_ok h
  obtain ⟨-, entity', allKeys, l₁, l₂, l₃, -, -, hl₁, hl₂, hl₃, rfl⟩ := layouts_of_commit h
  have h₁ := names_addCarrier hl₁
  have h₂ := names_addCarrier hl₂
  have h₃ := names_addItem hl₃
  rw [Plan.names_schema, hcommits.assignments_eq, List.map_map]
  have hnames : l₃.names = (entity'.primaryKey ++ allKeys.filter (· ∉ entity'.primaryKey)).map carrierName ++
      m.items.map (·.name) := by
    rw [h₃.1, h₂.1, h₁.1, List.map_append]
    rfl
  have hnodup := h₃.2 (h₂.2 (h₁.2 List.nodup_nil))
  rw [hnames] at hnodup
  exact hnodup

/-! ## Slots -/

/-- The slot is of a kind. What is nested in it has one slot for every field of the schema of the mapper
that the kind names. -/
inductive Slot.Conforms (schemaOf : MapperKey → Option (List SchemaField)) : FieldKind → Slot → Prop
  | carrier (v : Value) : Slot.Conforms schemaOf .carrier (.value v)
  | scalar (v : Value) : Slot.Conforms schemaOf .scalar (.value v)
  | noRow (key : MapperKey) : Slot.Conforms schemaOf (.embedded key) (.embedded none)
  | row {key : MapperKey} {schema : List SchemaField} {t : List Slot} : schemaOf key = some schema →
    List.Forall₂ (fun field slot => Slot.Conforms schemaOf field.kind slot) schema t →
    Slot.Conforms schemaOf (.embedded key) (.embedded (some t))
  | noRows (key : MapperKey) : Slot.Conforms schemaOf (.sequence key) (.sequence none)
  | rows {key : MapperKey} {schema : List SchemaField} {ts : List (List Slot)} :
    schemaOf key = some schema →
    (∀ t ∈ ts, List.Forall₂ (fun field slot => Slot.Conforms schemaOf field.kind slot) schema t) →
    Slot.Conforms schemaOf (.sequence key) (.sequence (some ts))

/-- One slot for every field, of the kind of the field. -/
def Transient.Conforms (schemaOf : MapperKey → Option (List SchemaField)) (schema : List SchemaField)
    (t : Transient) : Prop :=
  List.Forall₂ (fun field slot => Slot.Conforms schemaOf field.kind slot) schema t

namespace Registry

/-- The schema of a registered mapper. -/
def schemaOf (r : Registry C) (key : MapperKey) : Option (List SchemaField) :=
  (r.find? key).map fun a => a.plan.schema

namespace Built

variable {metadata : Metadata} {config : Config} {declared : List (MapperDeclaration C)}
  {resolved : List (Mapper C)} {r : Registry C} (h : Built metadata config declared resolved r)
  {a b : Registration C}
include h

theorem find?_eq (ha : a ∈ r.registrations) : r.find? a.mapper.key = some a := by
  have hsome : (r.find? a.mapper.key).isSome := by
    unfold find?
    rw [List.find?_isSome]
    exact ⟨a, ha, decide_eq_true rfl⟩
  obtain ⟨b, hb⟩ := Option.isSome_iff_exists.mp hsome
  obtain ⟨hmem, hkey⟩ := mem_of_find? hb
  rw [hb, List.inj_on_of_nodup_map h.committed.nodup hmem ha hkey]

theorem schemaOf_eq (ha : a ∈ r.registrations) : r.schemaOf a.plan.key = some a.plan.schema := by
  unfold schemaOf
  rw [h.committed.key_eq ha, h.find?_eq ha]
  rfl

theorem after_eq (ha : a ∈ r.registrations) : a.plan.head.after = a.mapper.after := by
  obtain ⟨front, back, -, -, hcommit⟩ := h.committed.exists_front ha
  obtain ⟨-, entity, foreignKeys, choices, hcommits⟩ := commit_eq_ok hcommit
  rw [hcommits.head_eq]

theorem assignments_eq (ha : a ∈ r.registrations) : a.plan.items.map (·.1) = a.mapper.items.map .ofItem := by
  obtain ⟨front, back, -, -, hcommit⟩ := h.committed.exists_front ha
  obtain ⟨-, entity, foreignKeys, choices, hcommits⟩ := commit_eq_ok hcommit
  exact hcommits.assignments_eq

theorem names_eq (ha : a ∈ r.registrations) :
    a.plan.items.map (·.1.item) = a.mapper.items.map (·.name) := by
  have := congrArg (List.map (·.item)) (h.assignments_eq ha)
  rwa [List.map_map, List.map_map] at this

theorem fields_eq (ha : a ∈ r.registrations) :
    a.plan.items.map (·.1.field) = a.mapper.items.map (·.destination) := by
  have := congrArg (List.map (·.field)) (h.assignments_eq ha)
  rwa [List.map_map, List.map_map] at this

theorem nodup_destinations (ha : a ∈ r.registrations) : (a.mapper.items.map (·.destination)).Nodup := by
  obtain ⟨d, hd, hresolved⟩ := h.resolves.exists_declaration (h.mem a ha)
  obtain ⟨-, -, -, hnodup⟩ := resolveMapper_eq_ok hresolved
  exact hnodup

theorem exists_embedded (ha : a ∈ r.registrations) {p : Assignment C × Route C} (hp : p ∈ a.plan.items)
    {plan : Plan C} (hplan : p.2.embedded? = some plan) :
    ∃ b ∈ r.registrations, DependsOn r.mappers a.mapper.key b.mapper.key ∧ b.plan = plan := by
  obtain ⟨i, hi, -, -, hembedded⟩ := h.committed.route ha hp
  obtain ⟨b, hb, hneeds, hplan⟩ := hembedded plan hplan
  exact ⟨b, hb, ⟨a.mapper, List.mem_map_of_mem ha, rfl, i, hi, hneeds⟩, hplan⟩

end Built

end Registry

/-- A route fills a slot of the kind of its field, if the plan that is part of it does so. -/
theorem Route.conforms_project {schemaOf : MapperKey → Option (List SchemaField)} {route : Route C}
    {ambient : C} (hembedded : ∀ plan, route.embedded? = some plan →
      schemaOf plan.key = some plan.schema ∧
        ∀ row t, plan.project row ambient = .ok t → Transient.Conforms schemaOf plan.schema t)
    {name : String} {row : Row} {slot : Slot} (hslot : route.project name row ambient = .ok slot) :
    slot.Conforms schemaOf route.fieldKind := by
  cases route with
  | copy source | batch source =>
    obtain ⟨v, -, rfl⟩ := map_eq_ok.mp hslot
    exact .scalar v
  | fetchOne | fetchBack =>
    obtain rfl := Except.ok.inj hslot
    exact .scalar _
  | embed source plan =>
    obtain ⟨hschema, hplan⟩ := hembedded plan rfl
    obtain ⟨v, -, hslot⟩ := bind_eq_ok.mp hslot
    split at hslot
    · obtain rfl := Except.ok.inj hslot
      exact .noRow _
    · rename_i related
      obtain ⟨t, ht, hslot⟩ := bind_eq_ok.mp hslot
      obtain rfl := Except.ok.inj hslot
      exact .row hschema (hplan _ _ ht)
    · cases hslot
  | embedEach source plan =>
    obtain ⟨hschema, hplan⟩ := hembedded plan rfl
    obtain ⟨v, -, hslot⟩ := bind_eq_ok.mp hslot
    split at hslot
    · obtain rfl := Except.ok.inj hslot
      exact .noRows _
    · rename_i elements
      obtain ⟨ts, hts, hslot⟩ := bind_eq_ok.mp hslot
      obtain rfl := Except.ok.inj hslot
      refine .rows hschema fun t ht => ?_
      obtain ⟨element, -, helement⟩ := exists_of_forall₂_right (mapM_eq_ok.mp hts) ht
      split at helement
      · exact hplan _ _ helement
      · cases helement
    · cases hslot

namespace Registry.Built

variable {metadata : Metadata} {config : Config} {declared : List (MapperDeclaration C)}
  {resolved : List (Mapper C)} {r : Registry C} (h : Built metadata config declared resolved r)
  {a : Registration C} (ha : a ∈ r.registrations)
include h ha

theorem conforms {row : Row} {ambient : C} {t : Transient} (ht : a.plan.project row ambient = .ok t) :
    t.Conforms r.schemaOf a.plan.schema := by
  revert row t
  refine h.induct (P := fun a => ∀ {row t}, a.plan.project row ambient = .ok t →
    Transient.Conforms r.schemaOf a.plan.schema t) (fun a ha ih row t ht => ?_) ha
  rw [Plan.project_eq] at ht
  obtain ⟨slots, hslots, rfl⟩ := map_eq_ok.mp ht
  refine List.rel_append ?_ ?_
  · rw [List.forall₂_map_left_iff, List.forall₂_map_right_iff, List.forall₂_same]
    exact fun column _ => .carrier _
  · rw [List.forall₂_map_left_iff]
    have hparts := (List.forall₂_and_left _ _).mpr ⟨fun _ hp => hp, projectItems_eq_ok.mp hslots⟩
    refine hparts.imp ?_
    rintro p slot ⟨hp, hslot⟩
    refine Route.conforms_project (fun plan hplan => ?_) hslot
    obtain ⟨b, hb, hneeds, rfl⟩ := h.exists_embedded ha hp hplan
    exact ⟨h.schemaOf_eq hb, fun row t ht => ih b hb hneeds ht⟩

theorem nodup_names : (a.plan.schema.map (·.name)).Nodup := by
  obtain ⟨front, back, -, -, hcommit⟩ := h.committed.exists_front ha
  exact nodup_of_commit hcommit

end Registry.Built

/-! ## Places -/

/-- The slot is that of a carrier, and holds its column. -/
def Plan.Carries (p : Plan C) (slot : Nat) (column : String) : Prop :=
  p.schema[slot]? = some ⟨carrierName column, .carrier⟩ ∧
    ∀ row ambient t, p.project row ambient = .ok t → t[slot]? = some (.value (row.value column))

/-- The slot is that of an item, and holds what its route reads. -/
def Plan.Holds (p : Plan C) (slot : Nat) (name : String) (route : Route C) : Prop :=
  p.schema[slot]? = some ⟨name, route.fieldKind⟩ ∧
    ∀ row ambient t, p.project row ambient = .ok t →
      ∃ filled, t[slot]? = some filled ∧ route.project name row ambient = .ok filled

theorem Plan.carries_of_carriers {p : Plan C} {slot : Nat} {column : String}
    (h : p.head.carriers[slot]? = some column) : p.Carries slot column := by
  have hlt : slot < p.head.carriers.length := (List.getElem?_eq_some_iff.mp h).1
  refine ⟨?_, fun row ambient t ht => ?_⟩
  · unfold schema
    rw [List.getElem?_append_left (by simpa using hlt), List.getElem?_map, h]
    rfl
  · rw [Plan.project_eq] at ht
    obtain ⟨slots, -, rfl⟩ := map_eq_ok.mp ht
    rw [List.getElem?_append_left (by simpa using hlt), List.getElem?_map, h]
    rfl

theorem Plan.holds_of_items {p : Plan C} {place : Nat} {part : Assignment C × Route C}
    (h : p.items[place]? = some part) :
    p.Holds (p.head.carriers.length + place) part.1.item part.2 := by
  refine ⟨?_, fun row ambient t ht => ?_⟩
  · unfold schema
    rw [List.getElem?_append_right (by simp), List.length_map, Nat.add_sub_cancel_left,
      List.getElem?_map, h]
    rfl
  · rw [Plan.project_eq] at ht
    obtain ⟨slots, hslots, rfl⟩ := map_eq_ok.mp ht
    have hslots := projectItems_eq_ok.mp hslots
    obtain ⟨hlt, rfl⟩ := List.getElem?_eq_some_iff.mp h
    have hlt' : place < slots.length := hslots.length_eq ▸ hlt
    refine ⟨slots[place], ?_, hslots.get hlt hlt'⟩
    rw [List.getElem?_append_right (by simp), List.length_map, Nat.add_sub_cancel_left,
      List.getElem?_eq_getElem hlt']

/-- What the slots of a committed mapper's transients rest on. -/
structure Registry.LaidOut (r : Registry C) (a : Registration C) : Prop where
  names : (a.plan.schema.map (·.name)).Nodup
  length : a.plan.schema.length = a.plan.head.carriers.length + a.plan.items.length
  conforms : ∀ row ambient t, a.plan.project row ambient = .ok t →
    t.Conforms r.schemaOf a.plan.schema
  key : ∀ slot column, a.plan.head.primaryKey[slot]? = some column → a.plan.Carries slot column
  carrier : ∀ column slot, a.plan.head.carrierSlot column = .ok slot → a.plan.Carries slot column
  fetcher : ∀ key f, r.fetchers.reverse.get? key = some f → key.mapper = a.mapper.key →
    f.plan = a.plan ∧ a.plan.Carries f.carrier f.foreignKey
  item : ∀ place i, a.mapper.items[place]? = some i → ∃ route,
    a.plan.items[place]? = some (.ofItem i, route) ∧
      a.plan.Holds (a.plan.head.carriers.length + place) i.name route

theorem Registry.Built.laidOut {metadata : Metadata} {config : Config}
    {declared : List (MapperDeclaration C)} {resolved : List (Mapper C)} {r : Registry C}
    (h : Built metadata config declared resolved r) {a : Registration C} (ha : a ∈ r.registrations) :
    r.LaidOut a where
  names := h.nodup_names ha
  length := by simp [Plan.schema]
  conforms _ _ _ ht := h.conforms ha ht
  key slot column hcolumn := by
    apply Plan.carries_of_carriers
    unfold PlanHead.carriers
    rwa [List.getElem?_append_left (List.getElem?_eq_some_iff.mp hcolumn).1]
  carrier _ _ hslot := Plan.carries_of_carriers (carriers_of_carrierSlot hslot)
  fetcher key f hf hkey := by
    obtain ⟨hplan, hslot, -⟩ := h.supplied.reverse key f hf
    obtain ⟨b, hb, hbkey, hplan⟩ := h.committed.get?_plansOf.mp hplan
    obtain rfl := List.inj_on_of_nodup_map h.committed.nodup hb ha (hbkey.trans hkey)
    rw [← hplan] at hslot ⊢
    exact ⟨rfl, Plan.carries_of_carriers (carriers_of_carrierSlot hslot)⟩
  item place i hi := by
    obtain ⟨front, back, -, -, hcommit⟩ := h.committed.exists_front ha
    obtain ⟨-, entity, foreignKeys, choices, hcommits⟩ := commit_eq_ok hcommit
    obtain ⟨hlt, rfl⟩ := List.getElem?_eq_some_iff.mp hi
    have hitems := hcommits.forall₂_items
    have hlt' : place < a.plan.items.length := hitems.length_eq ▸ hlt
    have hpart : a.plan.items[place]? = some (.ofItem a.mapper.items[place], a.plan.items[place].2) := by
      rw [List.getElem?_eq_getElem hlt']
      exact congrArg some (Prod.ext (hitems.get hlt hlt').1 rfl)
    exact ⟨_, hpart, Plan.holds_of_items hpart⟩

end EntityMapping
