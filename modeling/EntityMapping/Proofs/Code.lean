import EntityMapping.Proofs.Conformance

/-! # Code of the declarations

Accessors, transposers, processors and hooks are code of the declarations. What it may raise is told of the code by
itself, and a registry that was built runs the code of its declarations only.
-/

namespace EntityMapping

variable {C α : Type}

namespace Script

/-- A script raises only errors of a kind, unless an application that it made failed with another one. -/
def Raises (P : Error → Prop) : {n : Nat} → Script n → Prop
  | _, .finish => True
  | _, .fail e => P e
  | _, .inspect next => ∀ heap, (next heap).Raises P
  | _, .set _ _ _ next => next.Raises P
  | _, .create _ _ next => ∀ o, (next o).Raises P
  | _, .note _ next => next.Raises P
  | _, .apply _ _ next => ∀ result, FailsOnly P result → (next result).Raises P

/-- A script that comes to its end has applied everything. -/
def Completes : {n : Nat} → Script n → Prop
  | n, .finish => n = 0
  | _, .fail _ => True
  | _, .inspect next => ∀ heap, (next heap).Completes
  | _, .set _ _ _ next => next.Completes
  | _, .create _ _ next => ∀ o, (next o).Completes
  | _, .note _ next => next.Completes
  | _, .apply _ _ next => ∀ result, (next result).Completes

/-- Whatever the script finds and is told, it does not finish. -/
def Fails : {n : Nat} → Script n → Prop
  | _, .finish => False
  | _, .fail _ => True
  | _, .inspect next => ∀ heap, (next heap).Fails
  | _, .set _ _ _ next => next.Fails
  | _, .create _ _ next => ∀ o, (next o).Fails
  | _, .note _ next => next.Fails
  | _, .apply _ _ next => ∀ result, (next result).Fails

/-- A script that is told of a failed assignment fails. -/
def PassesOn : {n : Nat} → Script n → Prop
  | _, .finish => True
  | _, .fail _ => True
  | _, .inspect next => ∀ heap, (next heap).PassesOn
  | _, .set _ _ _ next => next.PassesOn
  | _, .create _ _ next => ∀ o, (next o).PassesOn
  | _, .note _ next => next.PassesOn
  | _, .apply _ _ next => (next (.ok ())).PassesOn ∧ ∀ e, (next (.error e)).Fails

end Script

/-- What the processor leaves undone is an error of the kind, or it applies all that it is given. -/
def Processor.Serves (P : Error → Prop) (ambient : C) (p : Processor C) : Prop :=
  (∀ expected applied, P (.batchIncomplete p.name expected applied)) ∨
    ∀ keys, (p.process keys ambient).Completes

/-- The processor fails when an assignment fails. -/
def Processor.PassesOn (p : Processor C) (ambient : C) : Prop := ∀ keys, (p.process keys ambient).PassesOn

/-- All processors of a registry fail when an assignment fails. -/
def Registry.PassesOn (r : Registry C) (ambient : C) : Prop :=
  ∀ m ∈ r.mappers, ∀ i ∈ m.items, ∀ p, i.style = .batch p → p.PassesOn ambient

/-- An action raises only errors of a kind, whatever objects there are. -/
def Action.Raises (P : Error → Prop) (action : Action α) : Prop :=
  ∀ heap, FailsOnly P (action.run heap).result

/-- The code of a registry's declarations and a source raise only errors of a kind. -/
structure CodeRaises (P : Error → Prop) (r : Registry C) (source : DataSource) (ambient : C) : Prop where
  accessor : ∀ m ∈ r.mappers, ∀ i ∈ m.items, ∀ compute, i.source = .computed compute →
    ∀ row, FailsOnly P (compute row ambient)
  transposer : ∀ m ∈ r.mappers, ∀ i ∈ m.items, ∀ f, i.transposer = some f →
    ∀ v, (f v ambient).Raises P
  processor : ∀ m ∈ r.mappers, ∀ i ∈ m.items, ∀ p, i.style = .batch p →
    ∀ keys, (p.process keys ambient).Raises P
  hook : ∀ m ∈ r.mappers, ∀ hook ∈ m.after, ∀ o, (hook o ambient).Raises P
  source : ∀ history e filter, FailsOnly P (source.reply history e filter).rows

/-- The code of an item's declaration raises only errors of a kind. -/
structure Declaration.Raises (P : Error → Prop) (ambient : C) (d : Declaration C) : Prop where
  accessor : ∀ compute, d.accessor = .computed compute → ∀ row, FailsOnly P (compute row ambient)
  transposer : ∀ f, d.transposer = some f → ∀ v, (f v ambient).Raises P
  processor : ∀ p, d.style = some (.batch p) → ∀ keys, (p.process keys ambient).Raises P

namespace Registry

variable {metadata : Metadata} {config : Config} {declared : List (MapperDeclaration C)}
  {resolved : List (Mapper C)} {r : Registry C}

theorem Built.exists_declared (h : Built metadata config declared resolved r) {m : Mapper C} (hm : m ∈ r.mappers)
    {i : Item C} (hi : i ∈ m.items) : ∃ d ∈ declared, ∃ declaration ∈ d.items,
      i.source = declaration.accessor ∧ i.transposer = declaration.transposer ∧
        ∀ p, i.style = .batch p → declaration.style = some (.batch p) := by
  obtain ⟨a, ha, rfl⟩ := List.mem_map.mp hm
  obtain ⟨d, hd, -, declaration, hdeclaration, hresolved⟩ := h.resolves.exists_resolved (h.mem a ha) hi
  obtain ⟨component, sourceShape, destinationShape, -, -, rfl⟩ := Declaration.resolve_eq_ok hresolved
  refine ⟨d, hd, declaration, hdeclaration, rfl, rfl, fun p hp => ?_⟩
  cases hstyle : declaration.style with
  | none => simp [hstyle] at hp
  | some style => simpa [hstyle] using hp

theorem Built.after_declared (h : Built metadata config declared resolved r) {m : Mapper C} (hm : m ∈ r.mappers) :
    ∃ d ∈ declared, m.after = d.after := by
  obtain ⟨a, ha, rfl⟩ := List.mem_map.mp hm
  obtain ⟨d, hd, hresolved⟩ := h.resolves.exists_declaration (h.mem a ha)
  exact ⟨d, hd, (resolveMapper_eq_ok hresolved).2.1⟩

theorem Built.codeRaises (h : Built metadata config declared resolved r) {P : Error → Prop} {source : DataSource}
    {ambient : C} (hitems : ∀ d ∈ declared, ∀ i ∈ d.items, i.Raises P ambient)
    (hhooks : ∀ d ∈ declared, ∀ hook ∈ d.after, ∀ o, (hook o ambient).Raises P)
    (hsource : ∀ history e filter, FailsOnly P (source.reply history e filter).rows) :
    CodeRaises P r source ambient := by
  refine ⟨fun m hm i hi compute hcomputed => ?_, fun m hm i hi f hf => ?_, fun m hm i hi p hp => ?_,
    fun m hm hook hhook => ?_, hsource⟩
  · obtain ⟨d, hd, declaration, hdeclaration, hsame, -⟩ := h.exists_declared hm hi
    exact (hitems d hd declaration hdeclaration).accessor compute (hsame ▸ hcomputed)
  · obtain ⟨d, hd, declaration, hdeclaration, -, hsame, -⟩ := h.exists_declared hm hi
    exact (hitems d hd declaration hdeclaration).transposer f (hsame ▸ hf)
  · obtain ⟨d, hd, declaration, hdeclaration, -, -, hprocessor⟩ := h.exists_declared hm hi
    exact (hitems d hd declaration hdeclaration).processor p (hprocessor p hp)
  · obtain ⟨d, hd, hsame⟩ := h.after_declared hm
    exact hhooks d hd hook (hsame ▸ hhook)

theorem Built.passesOn (h : Built metadata config declared resolved r) {ambient : C}
    (hdeclared : ∀ d ∈ declared, ∀ i ∈ d.items, ∀ p, i.style = some (.batch p) → p.PassesOn ambient) :
    r.PassesOn ambient := by
  intro m hm i hi p hp
  obtain ⟨d, hd, declaration, hdeclaration, -, -, hprocessor⟩ := h.exists_declared hm hi
  exact hdeclared d hd declaration hdeclaration p (hprocessor p hp)

end Registry

/-! ## Assignments -/

theorem Assignment.run_assign (a : Assignment C) (v : Value) (o : ObjectRef) (ambient : C) (h : Heap) :
    (a.assign v o ambient).run h =
      match (a.transpose v ambient).run h with
      | ⟨.error e, h', notes⟩ => ⟨.error e, h', notes⟩
      | ⟨.ok w, h', notes⟩ =>
        if a.expected.accepts w then ⟨.ok (), h'.set o a.field w, notes⟩
        else ⟨.error (.assignment a.item w.typeName a.field a.expected.text), h', notes⟩ := by
  unfold assign
  rw [Action.run_andThen]
  generalize (a.transpose v ambient).run h = outcome
  obtain ⟨_ | w, h', notes⟩ := outcome
  · rfl
  · dsimp only
    unfold store
    split
    · exact congrArg (Action.Outcome.mk _ _) (List.append_nil notes)
    · exact congrArg (Action.Outcome.mk _ _) (List.append_nil notes)

/-! ## Routes -/

/-- A route reads what its item declares, and asks the processor of its style. -/
def Route.Follows (i : Item C) : Route C → Prop
  | .copy source => source = i.source
  | .batch source processor => source = i.source ∧ i.style = .batch processor
  | .embed source _ => source = i.source
  | .embedEach source _ => source = i.source
  | .fetchOne _ _ _ => True
  | .fetchBack _ _ _ => True

theorem Route.follows_choose {i : Item C} {owner : MapperKey} {metadata : Metadata} {c : Commitments C}
    {choice : Choice C} (h : i.choose owner metadata c = .ok choice) : choice.route.Follows i := by
  cases Item.chooses_of_choose h with
  | batch hstyle => exact ⟨rfl, hstyle⟩
  | copy => rfl
  | fetch _ _ _ hfetch =>
    obtain ⟨path, segment, root, declaring, relation, -, -, -, -, hfetches, -⟩ := Item.fetchRoute_eq_ok hfetch
    generalize choice.route = route at hfetches
    cases hfetches <;> trivial
  | embed =>
    unfold Item.embedRoute
    dsimp only
    split <;> rfl

theorem Committed.follows {metadata : Metadata} {registered : List MapperKey}
    {registrations : List (Registration C)} (h : Committed metadata registered registrations)
    {a : Registration C} (ha : a ∈ registrations) {p : Assignment C × Route C} (hp : p ∈ a.plan.items) :
    ∃ i ∈ a.mapper.items, p.1 = .ofItem i ∧ p.2.Follows i := by
  obtain ⟨front, back, -, -, hcommit⟩ := h.exists_front ha
  obtain ⟨-, entity, foreignKeys, choices, hcommits⟩ := commit_eq_ok hcommit
  obtain ⟨i, hi, hassignment, choice, hchoice, hroute⟩ := hcommits.exists_item hp
  exact ⟨i, hi, hassignment, hroute ▸ Route.follows_choose hchoice⟩

end EntityMapping
