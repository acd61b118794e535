import EntityMapping.Heap.Json
import EntityMapping.Heap.Numbering
import EntityMapping.Proofs.Outcome
import EntityMapping.Proofs.Purity
import Mathlib.Logic.Relation

/-! # Unfolding object graphs

An object graph without cycles unfolds into a tree, in which an object stands in full wherever the graph holds
it. Rendering walks the graph with the objects around it in mind. The walk ends on every heap, gives the tree
when there is one, and fails when it comes to an object that reaches itself, and only then.
-/

namespace EntityMapping

namespace Heap

/-! ## Reaching objects -/

/-- A field of the first object holds the second one, directly or within lists and rows. -/
def Leads (h : Heap) (o p : ObjectRef) : Prop := p ∈ h.children o

/-- The object can be reached from a value through fields, lists and rows. -/
def Reaches (h : Heap) (v : Value) (o : ObjectRef) : Prop :=
  ∃ p ∈ v.objects, Relation.ReflTransGen h.Leads p o

/-- The object can be reached from its own fields. -/
def Loops (h : Heap) (o : ObjectRef) : Prop := ∃ p, Relation.TransGen h.Leads o p ∧ p.id = o.id

variable {h : Heap}

theorem Leads.of_id_eq {o p q : ObjectRef} (hlead : h.Leads o q) (hid : p.id = o.id) : h.Leads p q := by
  unfold Leads children fields at hlead ⊢
  rwa [hid]

theorem loops_of_id_eq {o p : ObjectRef} (hpath : Relation.TransGen h.Leads o p) (hid : p.id = o.id) :
    h.Loops p := by
  obtain ⟨q, hlead, hrest⟩ := Relation.TransGen.head'_iff.mp hpath
  exact ⟨p, .head' (hlead.of_id_eq hid) hrest, rfl⟩

/-- Some value of a list reaches the object. -/
def ReachesAny (h : Heap) (vs : List Value) (o : ObjectRef) : Prop := ∃ v ∈ vs, h.Reaches v o

theorem reachesAny_nil {o : ObjectRef} : ¬ h.ReachesAny [] o := by simp [ReachesAny]

theorem reachesAny_cons {v : Value} {vs : List Value} {o : ObjectRef} :
    h.ReachesAny (v :: vs) o ↔ h.Reaches v o ∨ h.ReachesAny vs o := by simp [ReachesAny]

theorem mem_itemObjects {vs : List Value} {o : ObjectRef} :
    o ∈ Value.itemObjects vs ↔ ∃ v ∈ vs, o ∈ v.objects := by
  induction vs with
  | nil => simp [Value.itemObjects]
  | cons v vs ih => simp [Value.itemObjects, ih]

theorem fieldObjects_eq (fields : List (String × Value)) :
    Value.fieldObjects fields = Value.itemObjects (fields.map (·.2)) := by
  induction fields with
  | nil => rfl
  | cons f fields ih =>
    rw [Value.fieldObjects, ih]
    rfl

theorem objects_row (fields : Dict String Value) :
    (Value.row fields).objects = Value.itemObjects fields.values := fieldObjects_eq fields.entries

theorem reaches_list {items : List Value} {o : ObjectRef} :
    h.Reaches (.list items) o ↔ h.ReachesAny items o := by
  unfold Reaches ReachesAny Value.objects
  simp only [mem_itemObjects, Reaches]
  grind

theorem reaches_row {fields : Dict String Value} {o : ObjectRef} :
    h.Reaches (.row fields) o ↔ h.ReachesAny fields.values o := by
  rw [← reaches_list]
  unfold Reaches
  rw [objects_row, Value.objects]

theorem reaches_object {o p : ObjectRef} :
    h.Reaches (.object o) p ↔ o = p ∨ h.ReachesAny (h.fields o).values p := by
  rw [← reaches_row]
  constructor
  · rintro ⟨q, hq, hpath⟩
    obtain rfl := List.mem_singleton.mp hq
    rcases Relation.ReflTransGen.cases_head hpath with rfl | ⟨r, hlead, hrest⟩
    · exact Or.inl rfl
    · exact Or.inr ⟨r, hlead, hrest⟩
  · rintro (rfl | ⟨q, hq, hpath⟩)
    · exact ⟨o, List.mem_singleton.mpr rfl, .refl⟩
    · exact ⟨o, List.mem_singleton.mpr rfl, .head hq hpath⟩

theorem transGen_of_fields {o p : ObjectRef} (hreach : h.ReachesAny (h.fields o).values p) :
    Relation.TransGen h.Leads o p := by
  obtain ⟨q, hq, hpath⟩ := reaches_row.mpr hreach
  exact .head' hq hpath

/-! ## Trees -/

mutual

/-- The JSON tree that a value unfolds into. Scalars stand as they are written; lists, rows and objects hold the
trees of what they hold. -/
inductive Unfolds (h : Heap) : Value → Json → Prop
  | null : Unfolds h .null .null
  | bool (b : Bool) : Unfolds h (.bool b) (.bool b)
  | int (n : Int64) : Unfolds h (.int n) (.int n.toInt)
  | float (x : Double) : Unfolds h (.float x) (Json.ofDouble x)
  | string (s : String) : Unfolds h (.string s) (.string s)
  | uuid (u : Uuid) : Unfolds h (.uuid u) (.string u.text)
  | dateTime (t : DateTime) : Unfolds h (.dateTime t) (.string t.text)
  | decimal (d : Decimal) : Unfolds h (.decimal d) (.string d.text)
  | json (j : Json) : Unfolds h (.json j) j
  | list {items : List Value} {js : List Json} : UnfoldsAll h items js →
    Unfolds h (.list items) (.array js)
  | row {fields : Dict String Value} {js : List Json} : UnfoldsAll h fields.values js →
    Unfolds h (.row fields) (.ofMembers (fields.keys.zip js))
  | object {o : ObjectRef} {js : List Json} : UnfoldsAll h (h.fields o).values js →
    Unfolds h (.object o) (.ofMembers ((h.fields o).keys.zip js))

inductive UnfoldsAll (h : Heap) : List Value → List Json → Prop
  | nil : UnfoldsAll h [] []
  | cons {v : Value} {j : Json} {vs : List Value} {js : List Json} : Unfolds h v j → UnfoldsAll h vs js →
    UnfoldsAll h (v :: vs) (j :: js)

end

theorem unfolds_object {o : ObjectRef} {j : Json} : h.Unfolds (.object o) j ↔ h.Unfolds (.row (h.fields o)) j :=
  ⟨fun | .object hfields => .row hfields, fun | .row hfields => .object hfields⟩

mutual

theorem Unfolds.unique : ∀ {v : Value} {j j' : Json}, h.Unfolds v j → h.Unfolds v j' → j = j'
  | _, _, _, .list hitems, .list hitems' => by rw [UnfoldsAll.unique hitems hitems']
  | _, _, _, .row hfields, .row hfields' => by rw [UnfoldsAll.unique hfields hfields']
  | _, _, _, .object hfields, .object hfields' => by rw [UnfoldsAll.unique hfields hfields']
  | _, _, _, .null, .null | _, _, _, .bool _, .bool _ | _, _, _, .int _, .int _
  | _, _, _, .float _, .float _ | _, _, _, .string _, .string _ | _, _, _, .uuid _, .uuid _
  | _, _, _, .dateTime _, .dateTime _ | _, _, _, .decimal _, .decimal _ | _, _, _, .json _, .json _ => rfl

theorem UnfoldsAll.unique : ∀ {vs : List Value} {js js' : List Json},
    h.UnfoldsAll vs js → h.UnfoldsAll vs js' → js = js'
  | _, _, _, .nil, .nil => rfl
  | _, _, _, .cons hv hvs, .cons hv' hvs' => by rw [hv.unique hv', hvs.unique hvs']

end

mutual

/-- Whatever a value with a tree reaches has a tree too, and does not reach itself. -/
theorem Unfolds.sound : ∀ {v : Value} {j : Json}, h.Unfolds v j → ∀ {o : ObjectRef}, h.Reaches v o →
    (∃ t, h.Unfolds (.object o) t) ∧ ¬ h.Loops o
  | _, _, .list hitems, _, hreach => hitems.sound (reaches_list.mp hreach)
  | _, _, .row hfields, _, hreach => hfields.sound (reaches_row.mp hreach)
  | _, _, .object (o := root) hfields, o, hreach => by
    have ih : ∀ {p}, h.ReachesAny (h.fields root).values p → (∃ t, h.Unfolds (.object p) t) ∧ ¬ h.Loops p :=
      fun hp => hfields.sound hp
    have htree : h.Unfolds (.object root) _ := .object hfields
    rcases reaches_object.mp hreach with heq | hbelow
    · -- An object that reaches itself has its own identity below one of its fields.
      subst heq
      refine ⟨⟨_, htree⟩, fun ⟨q, hpath, hid⟩ => ?_⟩
      obtain ⟨r, hlead, hrest⟩ := Relation.TransGen.head'_iff.mp hpath
      exact (ih (reaches_row.mp ⟨r, hlead, hrest⟩)).2 (loops_of_id_eq hpath hid)
    · exact ih hbelow
  | _, _, .null, _, hreach | _, _, .bool _, _, hreach | _, _, .int _, _, hreach
  | _, _, .float _, _, hreach | _, _, .string _, _, hreach | _, _, .uuid _, _, hreach
  | _, _, .dateTime _, _, hreach | _, _, .decimal _, _, hreach | _, _, .json _, _, hreach => by
    obtain ⟨_, hmem, -⟩ := hreach
    cases hmem

theorem UnfoldsAll.sound : ∀ {vs : List Value} {js : List Json}, h.UnfoldsAll vs js → ∀ {o : ObjectRef},
    h.ReachesAny vs o → (∃ t, h.Unfolds (.object o) t) ∧ ¬ h.Loops o
  | _, _, .nil, _, hreach => absurd hreach reachesAny_nil
  | _, _, .cons hv hvs, _, hreach => (reachesAny_cons.mp hreach).elim hv.sound hvs.sound

end

/-! ## The walk -/

mutual

/-- The walk that rendering makes, with the objects of `path` around the value. Nothing but the end of the walk
bounds it, so that it gives a result is a statement of its own. -/
inductive Walks (h : Heap) : List Nat → Value → Except Error Json → Prop
  | scalar {path : List Nat} {v : Value} {j : Json} : v.isScalar = true → h.Unfolds v j → Walks h path v (.ok j)
  | list {path : List Nat} {items : List Value} {r : Except Error (List Json)} : WalksAll h path items r →
    Walks h path (.list items) (r.map .array)
  | row {path : List Nat} {fields : Dict String Value} {r : Except Error (List Json)} :
    WalksAll h path fields.values r → Walks h path (.row fields) (r.map fun js => .ofMembers (fields.keys.zip js))
  | again {path : List Nat} {o : ObjectRef} : o.id ∈ path →
    Walks h path (.object o) (.error (.cyclicGraph o.typeName))
  | object {path : List Nat} {o : ObjectRef} {r : Except Error (List Json)} : o.id ∉ path →
    WalksAll h (o.id :: path) (h.fields o).values r →
    Walks h path (.object o) (r.map fun js => .ofMembers ((h.fields o).keys.zip js))

/-- One value after the other. The first failure is the one that is reported. -/
inductive WalksAll (h : Heap) : List Nat → List Value → Except Error (List Json) → Prop
  | nil {path : List Nat} : WalksAll h path [] (.ok [])
  | fail {path : List Nat} {v : Value} {vs : List Value} {e : Error} : Walks h path v (.error e) →
    WalksAll h path (v :: vs) (.error e)
  | cons {path : List Nat} {v : Value} {j : Json} {vs : List Value} {r : Except Error (List Json)} :
    Walks h path v (.ok j) → WalksAll h path vs r → WalksAll h path (v :: vs) (r.map (j :: ·))

end

section

variable {path : List Nat} {render : ObjectRef → Except Error Json}

theorem fieldsToJson_eq_map (fields : List (String × Value)) :
    Value.fieldsToJson render fields =
      (Value.itemsToJson render (fields.map (·.2))).map ((fields.map (·.1)).zip ·) := by
  induction fields with
  | nil => rfl
  | cons f fields ih =>
    obtain ⟨name, v⟩ := f
    rw [Value.fieldsToJson, List.map_cons, List.map_cons, Value.itemsToJson, ih]
    cases v.toJsonWith render with
    | error e => rfl
    | ok j => cases Value.itemsToJson render (fields.map (·.2)) <;> rfl

theorem toJsonWith_row (fields : Dict String Value) :
    (Value.row fields).toJsonWith render =
      (Value.itemsToJson render fields.values).map fun js => .ofMembers (fields.keys.zip js) := by
  change (Value.fieldsToJson render fields.entries).map Json.ofMembers = _
  rw [fieldsToJson_eq_map]
  unfold Dict.values
  cases Value.itemsToJson render (fields.entries.map (·.2)) <;> rfl

theorem walksAll_cons {v : Value} {vs : List Value} (hv : h.Walks path v (v.toJsonWith render))
    (hvs : h.WalksAll path vs (Value.itemsToJson render vs)) :
    h.WalksAll path (v :: vs) (Value.itemsToJson render (v :: vs)) := by
  rw [Value.itemsToJson]
  cases hr : v.toJsonWith render with
  | error e => exact .fail (hr ▸ hv)
  | ok j => exact .cons (hr ▸ hv) hvs

mutual

theorem walks_toJsonWith (hrender : ∀ o, h.Walks path (.object o) (render o)) :
    ∀ v : Value, h.Walks path v (v.toJsonWith render)
  | .list items => .list (walksAll_items hrender items)
  | .row ⟨fields⟩ => by
    rw [toJsonWith_row]
    exact .row (walksAll_fields hrender fields)
  | .object o => hrender o
  | .null => .scalar rfl .null
  | .bool b => .scalar rfl (.bool b)
  | .int n => .scalar rfl (.int n)
  | .float x => .scalar rfl (.float x)
  | .string s => .scalar rfl (.string s)
  | .uuid u => .scalar rfl (.uuid u)
  | .dateTime t => .scalar rfl (.dateTime t)
  | .decimal d => .scalar rfl (.decimal d)
  | .json j => .scalar rfl (.json j)

theorem walksAll_items (hrender : ∀ o, h.Walks path (.object o) (render o)) :
    ∀ vs : List Value, h.WalksAll path vs (Value.itemsToJson render vs)
  | [] => .nil
  | v :: vs => walksAll_cons (walks_toJsonWith hrender v) (walksAll_items hrender vs)

theorem walksAll_fields (hrender : ∀ o, h.Walks path (.object o) (render o)) :
    ∀ fields : List (String × Value),
      h.WalksAll path (fields.map (·.2)) (Value.itemsToJson render (fields.map (·.2)))
  | [] => .nil
  | (_, v) :: fields => walksAll_cons (walks_toJsonWith hrender v) (walksAll_fields hrender fields)

end

/-- A depth of more than the objects that are not around yet is never used up. An object outside the heap has no
fields, so the walk goes no further from it. -/
theorem walks_objectToJson {depth : Nat} (hdepth : unmet h.size path < depth) (o : ObjectRef) :
    h.Walks path (.object o) (h.objectToJson depth path o) := by
  induction depth generalizing path o with
  | zero => omega
  | succ depth ih =>
    unfold objectToJson
    by_cases hmem : o.id ∈ path
    · rw [if_pos hmem]
      exact .again hmem
    · rw [if_neg hmem]
      change h.Walks path (.object o) ((Value.row (h.fields o)).toJsonWith (h.objectToJson depth (o.id :: path)))
      rw [toJsonWith_row]
      refine .object hmem ?_
      by_cases hid : o.id < h.size
      -- The object joins the path, so fewer are left to meet.
      · have hfewer := unmet_cons hid hmem
        exact walksAll_items (ih (by omega)) _
      -- An object that is not on the heap has no fields.
      · have hempty : h.fields o = .empty := by
          simp only [fields, size] at hid ⊢
          rw [Array.getElem?_eq_none (by omega), Option.getD_none]
        rw [hempty]
        exact .nil

end

theorem walks_toJson (h : Heap) (v : Value) : h.Walks [] v (h.toJson v) := by
  have hempty := unmet_le h.size []
  exact walks_toJsonWith (fun o => walks_objectToJson (by omega) o) v

mutual

theorem Walks.unfolds : ∀ {path : List Nat} {v : Value} {r : Except Error Json}, h.Walks path v r →
    ∀ j, r = .ok j → h.Unfolds v j
  | _, _, _, .scalar _ htree, _, heq => by cases heq; exact htree
  | _, _, _, .list hitems, _, heq => by
    obtain ⟨js, hjs, rfl⟩ := map_eq_ok.mp heq
    exact .list (hitems.unfoldsAll js hjs)
  | _, _, _, .row hfields, _, heq => by
    obtain ⟨js, hjs, rfl⟩ := map_eq_ok.mp heq
    exact .row (hfields.unfoldsAll js hjs)
  | _, _, _, .again _, _, heq => by cases heq
  | _, _, _, .object _ hfields, _, heq => by
    obtain ⟨js, hjs, rfl⟩ := map_eq_ok.mp heq
    exact .object (hfields.unfoldsAll js hjs)

theorem WalksAll.unfoldsAll : ∀ {path : List Nat} {vs : List Value} {r : Except Error (List Json)},
    h.WalksAll path vs r → ∀ js, r = .ok js → h.UnfoldsAll vs js
  | _, _, _, .nil, _, heq => by cases heq; exact .nil
  | _, _, _, .fail _, _, heq => by cases heq
  | _, _, _, .cons hv hvs, _, heq => by
    obtain ⟨js, hjs, rfl⟩ := map_eq_ok.mp heq
    exact .cons (hv.unfolds _ rfl) (hvs.unfoldsAll js hjs)

end

mutual

/-- A walk that fails has met an object again that was around the value, or one that reaches itself. -/
theorem Walks.fails : ∀ {path : List Nat} {v : Value} {r : Except Error Json}, h.Walks path v r →
    ∀ e, r = .error e → ∃ o, h.Reaches v o ∧ e = .cyclicGraph o.typeName ∧ (o.id ∈ path ∨ h.Loops o)
  | _, _, _, .scalar _ _, _, heq => by cases heq
  | _, _, _, .list hitems, e, heq => by
    obtain ⟨o, hreach, hrest⟩ := hitems.fails e (map_eq_error.mp heq)
    exact ⟨o, reaches_list.mpr hreach, hrest⟩
  | _, _, _, .row hfields, e, heq => by
    obtain ⟨o, hreach, hrest⟩ := hfields.fails e (map_eq_error.mp heq)
    exact ⟨o, reaches_row.mpr hreach, hrest⟩
  | _, _, _, .again (o := o) hmem, _, heq =>
    ⟨o, reaches_object.mpr (.inl rfl), (Except.error.inj heq).symm, .inl hmem⟩
  | _, _, _, .object (o := o) _ hfields, e, heq => by
    obtain ⟨p, hreach, herror, hwhy⟩ := hfields.fails e (map_eq_error.mp heq)
    refine ⟨p, reaches_object.mpr (.inr hreach), herror, ?_⟩
    rcases hwhy with hmem | hloops
    · rcases List.mem_cons.mp hmem with hid | hmem
      · -- The object around the fields is met again below them.
        exact .inr (loops_of_id_eq (transGen_of_fields hreach) hid)
      · exact .inl hmem
    · exact .inr hloops

theorem WalksAll.fails : ∀ {path : List Nat} {vs : List Value} {r : Except Error (List Json)},
    h.WalksAll path vs r → ∀ e, r = .error e →
      ∃ o, h.ReachesAny vs o ∧ e = .cyclicGraph o.typeName ∧ (o.id ∈ path ∨ h.Loops o)
  | _, _, _, .nil, _, heq => by cases heq
  | _, _, _, .fail hv, _, heq => by
    obtain ⟨o, hreach, hrest⟩ := hv.fails _ (congrArg _ (Except.error.inj heq))
    exact ⟨o, reachesAny_cons.mpr (.inl hreach), hrest⟩
  | _, _, _, .cons _ hvs, e, heq => by
    obtain ⟨o, hreach, hrest⟩ := hvs.fails e (map_eq_error.mp heq)
    exact ⟨o, reachesAny_cons.mpr (.inr hreach), hrest⟩

end

/-! ## Rendering -/

variable {v : Value}

theorem toJson_eq_ok_iff {j : Json} : h.toJson v = .ok j ↔ h.Unfolds v j := by
  refine ⟨fun hok => (walks_toJson h v).unfolds j hok, fun htree => ?_⟩
  cases hr : h.toJson v with
  | ok j' => rw [((walks_toJson h v).unfolds j' hr).unique htree]
  | error e =>
    obtain ⟨o, hreach, -, hmem | hloops⟩ := (walks_toJson h v).fails e hr
    · cases hmem
    · exact absurd hloops (htree.sound hreach).2

mutual

theorem Unfolds.toJsonWith_eq {tree : ObjectRef → Json} : ∀ {v : Value} {j : Json}, h.Unfolds v j →
    (∀ o ∈ v.objects, h.Unfolds (.object o) (tree o)) → v.toJsonWith (fun o => .ok (tree o)) = .ok j
  | _, _, .list hitems, htree => by rw [Value.toJsonWith, hitems.itemsToJson_eq htree]; rfl
  | .row fields, _, .row hfields, htree => by
    rw [objects_row] at htree
    rw [toJsonWith_row, hfields.itemsToJson_eq htree]
    rfl
  | .object o, _, .object hfields, htree => by
    rw [Value.toJsonWith, (htree o (List.mem_singleton.mpr rfl)).unique (.object hfields)]
  | _, _, .null, _ | _, _, .bool _, _ | _, _, .int _, _ | _, _, .float _, _ | _, _, .string _, _
  | _, _, .uuid _, _ | _, _, .dateTime _, _ | _, _, .decimal _, _ | _, _, .json _, _ => rfl

theorem UnfoldsAll.itemsToJson_eq {tree : ObjectRef → Json} : ∀ {vs : List Value} {js : List Json},
    h.UnfoldsAll vs js → (∀ o ∈ Value.itemObjects vs, h.Unfolds (.object o) (tree o)) →
      Value.itemsToJson (fun o => .ok (tree o)) vs = .ok js
  | _, _, .nil, _ => rfl
  | _, _, .cons hv hvs, htree => by
    rw [Value.itemObjects, List.forall_mem_append] at htree
    rw [Value.itemsToJson, hv.toJsonWith_eq htree.1, hvs.itemsToJson_eq htree.2]
    rfl

end

/-- Rendering ends on every heap and value. It fails if and only if an object that the value reaches can reach
itself, and the error is then a cycle at such an object. Otherwise it gives the tree that the value unfolds into.
There is one tree for each object that the value reaches. That tree is the JSON of the object, it stands wherever
the object is met, and it is built from the trees of the objects below in the same way. -/
theorem toJson_unfolds_unless_looping (h : Heap) (v : Value) :
    h.Walks [] v (h.toJson v) ∧
    ((∃ e, h.toJson v = .error e) ↔ ∃ o, h.Reaches v o ∧ h.Loops o) ∧
    (∀ e, h.toJson v = .error e → ∃ o, h.Reaches v o ∧ h.Loops o ∧ e = .cyclicGraph o.typeName) ∧
    (∀ j, h.toJson v = .ok j ↔ h.Unfolds v j) ∧
    ∀ j, h.toJson v = .ok j → ∃ tree : ObjectRef → Json,
      v.toJsonWith (fun o => .ok (tree o)) = .ok j ∧
      ∀ o, h.Reaches v o → h.toJson (.object o) = .ok (tree o) ∧
        (Value.row (h.fields o)).toJsonWith (fun p => .ok (tree p)) = .ok (tree o) := by
  have herror : ∀ e, h.toJson v = .error e →
      ∃ o, h.Reaches v o ∧ h.Loops o ∧ e = .cyclicGraph o.typeName := by
    intro e he
    obtain ⟨o, hreach, heq, hmem | hloops⟩ := (walks_toJson h v).fails e he
    · cases hmem
    · exact ⟨o, hreach, hloops, heq⟩
  refine ⟨walks_toJson h v, ⟨fun ⟨e, he⟩ => ?_, fun ⟨o, hreach, hloops⟩ => ?_⟩, herror,
    fun j => toJson_eq_ok_iff, fun j hj => ?_⟩
  · obtain ⟨o, hreach, hloops, -⟩ := herror e he
    exact ⟨o, hreach, hloops⟩
  · cases hr : h.toJson v with
    | ok j => exact absurd hloops ((toJson_eq_ok_iff.mp hr).sound hreach).2
    | error e => exact ⟨e, rfl⟩
  · have hv := toJson_eq_ok_iff.mp hj
    -- Every object that is reached renders, so one map gives the trees of all.
    let tree (o : ObjectRef) : Json := (h.toJson (.object o)).toOption.getD .null
    have htree : ∀ {o}, h.Reaches v o → h.toJson (.object o) = .ok (tree o) := by
      intro o hreach
      obtain ⟨t, ht⟩ := (hv.sound hreach).1
      simp only [tree, toJson_eq_ok_iff.mpr ht]
      rfl
    refine ⟨tree, hv.toJsonWith_eq fun o ho => toJson_eq_ok_iff.mp (htree ⟨o, ho, .refl⟩),
      fun o hreach => ⟨htree hreach, ?_⟩⟩
    have hbelow : ∀ p ∈ (Value.row (h.fields o)).objects, h.Unfolds (.object p) (tree p) := by
      intro p hp
      obtain ⟨q, hq, hpath⟩ := hreach
      exact toJson_eq_ok_iff.mp (htree ⟨q, hq, hpath.tail hp⟩)
    exact (unfolds_object.mp (toJson_eq_ok_iff.mp (htree hreach))).toJsonWith_eq hbelow

/-- A cycle within a list is a cycle. -/
example : (Heap.mk #[⟨[("next", .list [.object ⟨0, "Node"⟩])]⟩]).toJson (.object ⟨0, "Node"⟩) =
    .error (.cyclicGraph "Node") := rfl

end Heap

end EntityMapping
