import EntityMapping.Proofs.Conformance
import EntityMapping.Proofs.Identity
import Mathlib.Data.List.Duplicate

/-! # Names of destination fields

The fields of a transient are named by the destination fields in snake case, behind the carriers of the
keys. A field in snake case does not begin with an underscore, so no carrier is ever in its place. Two
destination fields clash when they read the same in snake case.
-/

namespace EntityMapping

/-! ## Snake case -/

namespace Text

/-- Letters and digits, and at least one of them. -/
def IsWord (w : List Char) : Prop := w ≠ [] ∧ ∀ c ∈ w, isNameChar c = true

theorem isWord_reverse {w : List Char} : IsWord w.reverse ↔ IsWord w := by simp [IsWord]

theorem isWord_runsGo {s run : List Char} (h : ∀ c ∈ run, isNameChar c = true) :
    ∀ w ∈ runs.go s run, IsWord w := by
  -- A run ends in one more word, unless nothing was read of it.
  have hclose : ∀ {run : List Char} {rest : List (List Char)}, (∀ c ∈ run, isNameChar c = true) →
      (∀ w ∈ rest, IsWord w) → ∀ w ∈ runs.close run rest, IsWord w := by
    intro run rest hrun hrest w hw
    unfold runs.close at hw
    split at hw
    · exact hrest w hw
    · rename_i hnonempty
      rcases List.mem_cons.mp hw with rfl | hw
      · exact isWord_reverse.mpr ⟨by simpa using hnonempty, hrun⟩
      · exact hrest w hw
  induction s generalizing run with
  | nil => exact hclose h (by simp)
  | cons c s ih =>
    unfold runs.go
    split
    · rename_i hc
      exact ih (List.forall_mem_cons.mpr ⟨hc, h⟩)
    · exact hclose h (ih (by simp))

/-- A word that is being read has begun once the case of a letter is known. -/
theorem isWord_wordsGo {k : LetterCase} {word run : List Char} (hk : k ≠ .unknown → word ≠ [])
    (hword : ∀ c ∈ word, isNameChar c = true) (hrun : ∀ c ∈ run, isNameChar c = true) :
    ∀ w ∈ words.go k word run, IsWord w := by
  fun_induction words.go k word run with
  | case1 k word hempty => simp
  | case2 k word hempty =>
    rw [List.forall_mem_singleton, isWord_reverse]
    exact ⟨by simpa using hempty, hword⟩
  | case3 k word c =>
    rw [List.forall_mem_singleton, isWord_reverse]
    exact ⟨by simp, List.forall_mem_cons.mpr ⟨hrun c (by simp), hword⟩⟩
  | case4 k word c next rest _ _ ih =>
    obtain ⟨hc, hrest⟩ := List.forall_mem_cons.mp hrun
    refine List.forall_mem_cons.mpr ⟨isWord_reverse.mpr ⟨by simp, ?_⟩, ih (by simp) (by simp) hrest⟩
    exact List.forall_mem_cons.mpr ⟨hc, hword⟩
  | case5 k word c next rest _ _ hupper ih =>
    obtain ⟨hc, hrest⟩ := List.forall_mem_cons.mp hrun
    -- In upper case one letter was read at least.
    have hbegun : k = .upper := by simp_all
    refine List.forall_mem_cons.mpr ⟨isWord_reverse.mpr ⟨hk (by simp [hbegun]), hword⟩, ?_⟩
    exact ih (by simp) (by simpa using hc) hrest
  | case6 k word c next rest _ _ _ ih =>
    obtain ⟨hc, hrest⟩ := List.forall_mem_cons.mp hrun
    exact ih (by simp) (List.forall_mem_cons.mpr ⟨hc, hword⟩) hrest

theorem toLower_ne_underscore {c : Char} (h : isNameChar c = true) : c.toLower ≠ '_' := by
  unfold Char.toLower
  split
  · rename_i hupper
    intro heq
    have hval := congrArg (fun c : Char => c.val.toNat) heq
    have hlow : 65 ≤ c.val.toNat := hupper.1
    have hhigh : c.val.toNat ≤ 90 := hupper.2
    simp only [UInt32.toNat_add] at hval
    change (c.val.toNat + 32) % 2 ^ 32 = 95 at hval
    omega
  · rintro rfl
    exact absurd h (by decide)

theorem snakeCase_head?_ne (s : String) : (snakeCase s).toList.head? ≠ some '_' := by
  have hwords : ∀ w ∈ (runs s.toList).flatMap words, IsWord w := by
    intro w hw
    obtain ⟨run, hrun, hw⟩ := List.mem_flatMap.mp hw
    exact isWord_wordsGo (by simp) (by simp) (isWord_runsGo (by simp) run hrun).2 w hw
  unfold snakeCase
  rw [String.toList_intercalate, List.map_map]
  cases hparts : (runs s.toList).flatMap words with
  | nil => simp
  | cons w rest =>
    -- The text begins with the first letter of the first word.
    obtain ⟨hnonempty, hchars⟩ := hwords w (by simp [hparts])
    obtain ⟨c, w, rfl⟩ := List.exists_cons_of_ne_nil hnonempty
    have hc := toLower_ne_underscore (hchars c (by simp))
    cases rest <;> simpa using hc

end Text

theorem carrierName_ne_snakeCase (column name : String) : carrierName column ≠ Text.snakeCase name := by
  intro heq
  refine Text.snakeCase_head?_ne name ?_
  rw [← heq, carrierName, String.toList_append]
  rfl

theorem carrierName_injective : Function.Injective carrierName := by
  intro a b h
  simpa [carrierName] using h

/-! ## The foreign keys of an entity -/

namespace Metadata

theorem nodup_addColumn {columns : List String} (h : columns.Nodup) (column : String) :
    (addColumn columns column).Nodup := by
  unfold addColumn
  split
  · exact h
  · rename_i hnew
    simpa using h.concat hnew

theorem nodup_foreignKeysOn {m : Metadata} {entity : String} {columns : List String}
    (h : m.foreignKeysOn entity = .ok columns) : columns.Nodup := by
  obtain ⟨e, -, rfl⟩ := map_eq_ok.mp h
  exact List.foldlRecOn (motive := List.Nodup) _ _ List.nodup_nil fun _ hcolumns column _ =>
    nodup_addColumn hcolumns column

end Metadata

/-! ## Clashes -/

/-- If the error tells of a destination field that is there twice, it is a field of `owner` and one of
`names` twice. -/
def Clash (owner : MapperKey) (names : List String) (e : Error) : Prop :=
  ∀ mapper field, e = .duplicateField mapper field → mapper = owner.text ∧ List.Duplicate field names

theorem Unclashing.clash {e : Error} (h : Unclashing e) (owner : MapperKey) (names : List String) :
    Clash owner names e := fun mapper field heq => absurd heq (h mapper field)

theorem duplicate_of_mem {α : Type} [DecidableEq α] {a : α} {front back : List α} (h : a ∈ front) :
    List.Duplicate a (front ++ a :: back) := by
  rw [List.duplicate_iff_two_le_count, List.count_append, List.count_cons_self]
  have := List.count_pos_iff.mpr h
  omega

section Clashes

variable {C : Type}

theorem addName_eq_error {owner : MapperKey} {names : List String} {name : String} {e : Error}
    (h : Layout.addName owner names name = .error e) :
    name ∈ names ∧ e = .duplicateField owner.text name := by
  unfold Layout.addName at h
  split at h
  · rename_i hmem
    exact ⟨hmem, (Except.error.inj h).symm⟩
  · cases h

theorem failsOnly_addCarrier {owner : MapperKey} {columns : List String} (l : Layout C)
    (hnodup : columns.Nodup) (hnew : ∀ column ∈ columns, carrierName column ∉ l.names) :
    FailsOnly (fun _ => False) (columns.foldlM (Layout.addCarrier owner) l) := by
  intro e h
  obtain ⟨front, column, back, l', rfl, hfront, hlast⟩ := foldlM_eq_error h
  unfold Layout.addCarrier at hlast
  obtain ⟨hmem, -⟩ := addName_eq_error (map_eq_error.mp hlast)
  rw [(names_addCarrier hfront).1, List.mem_append] at hmem
  rcases hmem with hmem | hmem
  · exact hnew column (by simp) hmem
  · rw [List.mem_map_of_injective carrierName_injective] at hmem
    exact (List.nodup_append.mp hnodup).2.2 column hmem column (by simp) rfl

theorem clash_addItem {owner : MapperKey} {metadata : Metadata} {c : Commitments C} {items : List (Item C)}
    {l : Layout C} (hl : ∀ name ∈ l.names, ∀ i ∈ items, i.name ≠ name) :
    FailsOnly (Clash owner (items.map (·.name))) (items.foldlM (Layout.addItem owner metadata c) l) := by
  intro e h
  obtain ⟨front, i, back, l', rfl, hfront, hlast⟩ := foldlM_eq_error h
  unfold Layout.addItem at hlast
  rcases bind_eq_error.mp hlast with hchoice | ⟨choice, -, hlast⟩
  · rcases Item.failsOnly_choose i owner metadata c e hchoice with he | ⟨key, -, -, rfl⟩
    · exact he.2.clash _ _
    · exact Unclashing.clash (by simp [Unclashing]) _ _
  · rcases bind_eq_error.mp hlast with hname | ⟨_, -, hlast⟩
    · obtain ⟨hmem, rfl⟩ := addName_eq_error hname
      rw [(names_addItem hfront).1, List.mem_append] at hmem
      rcases hmem with hmem | hmem
      · exact absurd rfl (hl i.name hmem i (by simp))
      · rintro mapper field ⟨⟩
        rw [List.map_append, List.map_cons]
        exact ⟨rfl, duplicate_of_mem hmem⟩
    · cases hlast

/-- The fields of a mapper clash only among themselves when its keys are different columns. -/
theorem clash_commit {m : Mapper C} {metadata : Metadata} (c : Commitments C)
    (hkeys : ∀ entity, metadata.entity? m.key.source = some entity → entity.primaryKey.Nodup)
    (hnames : ∀ i ∈ m.items, ∃ destination, i.name = Text.snakeCase destination) :
    FailsOnly (Clash m.key (m.items.map (·.name))) (m.commit metadata c) := by
  have hunclashing : ∀ e, Unclashing e → Clash m.key (m.items.map (·.name)) e :=
    fun e he => he.clash _ _
  unfold Mapper.commit
  split
  · exact (FailsOnly.error _).mpr (hunclashing _ (by simp [Unclashing]))
  · refine FailsOnly.bind ((misnamed_requireEntity _ _).unclashing.mono hunclashing) fun entity he => ?_
    have hprimary := hkeys entity (requireEntity_eq_ok.mp he)
    refine FailsOnly.bind ((failsOnly_addCarrier _ hprimary (by simp [Layout.empty])).mono
      fun _ h => h.elim) fun l₁ hl₁ => ?_
    refine FailsOnly.bind ((FailsOnly.map (misnamed_requireEntity _ _)).unclashing.mono hunclashing)
      fun allKeys hallKeys => ?_
    have hforeign := (Metadata.nodup_foreignKeysOn hallKeys).filter fun column =>
      decide (column ∉ entity.primaryKey)
    have hnames₁ : l₁.names = entity.primaryKey.map carrierName := (names_addCarrier hl₁).1
    have hnew : ∀ column ∈ allKeys.filter (· ∉ entity.primaryKey), carrierName column ∉ l₁.names := by
      intro column hcolumn
      rw [hnames₁, List.mem_map_of_injective carrierName_injective]
      exact of_decide_eq_true (List.mem_filter.mp hcolumn).2
    refine FailsOnly.bind ((failsOnly_addCarrier _ hforeign hnew).mono fun _ h => h.elim)
      fun l₂ hl₂ => ?_
    refine FailsOnly.bind (clash_addItem fun name hname i hi heq => ?_) fun _ _ => FailsOnly.ok _
    -- Only carriers are laid out before the items.
    rw [(names_addCarrier hl₂).1, hnames₁, ← List.map_append] at hname
    obtain ⟨column, -, rfl⟩ := List.mem_map.mp hname
    obtain ⟨destination, hdestination⟩ := hnames i hi
    exact carrierName_ne_snakeCase column destination (heq.symm.trans hdestination)

theorem clash_resolveMapper (metadata : Metadata) (registered : List MapperKey)
    (d : MapperDeclaration C) :
    FailsOnly (Clash d.key d.fields)
      (Registry.resolveMapper metadata registered d) := by
  unfold Registry.resolveMapper
  refine FailsOnly.map fun e h => ?_
  obtain ⟨front, declaration, back, items, hsplit, hfront, hlast⟩ := foldlM_eq_error h
  unfold Registry.resolveItem at hlast
  split at hlast
  · rename_i hany
    obtain rfl := Except.error.inj hlast
    obtain ⟨i, hi, heq⟩ := List.any_eq_true.mp hany
    -- The items so far are those of a mapper that resolves.
    have hresolved : Registry.resolveMapper metadata registered ⟨d.key, front, d.after⟩ =
        .ok ⟨d.key, items, d.after⟩ := map_eq_ok.mpr ⟨items, hfront, rfl⟩
    have hfields : items.map (·.destination) = front.map (·.destination) :=
      (Registry.names_of_resolved hresolved).2
    have hmem : declaration.destination ∈ front.map (·.destination) := by
      rw [← of_decide_eq_true heq, ← hfields]
      exact List.mem_map_of_mem hi
    rintro mapper field ⟨⟩
    rw [MapperDeclaration.fields, hsplit, List.map_append, List.map_cons]
    exact ⟨rfl, duplicate_of_mem hmem⟩
  · exact fun mapper field heq => absurd heq
      ((Declaration.misnamed_resolve _ _ _ _).unclashing e (map_eq_error.mp hlast) mapper field)

end Clashes

namespace Registry

variable {C : Type}

/-- If the error tells of a destination field that is there twice, two fields of one declaration have
the name, or have it in snake case. -/
def Clashing (declared : List (MapperDeclaration C)) (e : Error) : Prop :=
  ∀ mapper field, e = .duplicateField mapper field → ∃ d ∈ declared, d.key.text = mapper ∧
    (List.Duplicate field d.fields ∨ List.Duplicate field d.names)

theorem clashing_of_unclashing (declared : List (MapperDeclaration C)) (e : Error) (h : Unclashing e) :
    Clashing declared e :=
  fun mapper field heq => absurd heq (h mapper field)

theorem unclashing_demand (f : Fetchers C) (metadata : Metadata) (c : Commitments C) (route : Route C)
    (logs : List LogRecord) :
    After (f.demand metadata c route) logs (either (fun _ _ => True) fun e _ => Unclashing e) := by
  have hplan : ∀ key, FailsOnly Unclashing (c.requirePlan key) := fun key =>
    (uncommitted_requirePlan c key).mono fun _ he => he.2 ▸ by simp [Unclashing]
  cases route with
  | fetchOne path foreignKey target =>
    change After (f.demandEntity metadata c target) logs _
    unfold Fetchers.demandEntity
    split
    · trivial
    · refine After.ofExcept_bind (fun e _ => ?_) (misnamed_requireEntity _ _).unclashing
      refine After.ofExcept_bind (fun keyColumn _ => ?_) (misnamed_singlePrimaryKey e).unclashing
      exact After.ofExcept_bind (fun plan _ => trivial) (hplan target)
  | fetchBack path relation key =>
    change After (f.demandReverse c key relation.foreignKey) logs _
    unfold Fetchers.demandReverse
    split
    · trivial
    · refine After.ofExcept_bind (fun plan _ => ?_) (hplan key.mapper)
      exact After.ofExcept_bind (fun carrier _ => trivial) (misnamed_carrierSlot _ _).unclashing
  | copy | batch | embed | embedEach => trivial

theorem clashing_commitAll (metadata : Metadata)
    (declared : List (MapperDeclaration C)) (logs : List LogRecord)
    (hkeys : ∀ name entity, metadata.entity? name = some entity → entity.primaryKey.Nodup) :
    After (commitAll metadata declared) logs
      (either (fun _ _ => True) fun e _ => Clashing declared e) := by
  have hunclashing := clashing_of_unclashing declared
  unfold commitAll
  refine After.ofExcept_bind (fun keys hkeysOf => ?_)
    ((misnamed_declaredKeys _ _).unclashing.mono hunclashing)
  refine After.ofExcept_bind (fun mappers hmappers => ?_) ?_
  swap
  -- Resolving compares the fields of one mapper.
  · refine FailsOnly.mapM fun d hd => (clash_resolveMapper metadata keys d).mono ?_
    rintro e he mapper field rfl
    obtain ⟨rfl, hclash⟩ := he mapper field rfl
    exact ⟨d, hd, rfl, .inl hclash⟩
  refine After.ofExcept_bind (fun _ _ => ?_) ?_
  swap
  · unfold refuseCycle
    split
    · exact (FailsOnly.error _).mpr (hunclashing _ (by simp [Unclashing]))
    · exact FailsOnly.ok _
  refine After.bind (P := fun _ _ => True) (E := fun _ _ => False) ?_ (fun order logs _ => ?_) (by simp)
  · unfold commitOrder
    dsimp only
    split <;> trivial
  refine After.bind (E := fun e _ => Clashing declared e)
    (After.foldlM (fun _ _ _ => True) _ (fun m _ committed logs hm _ => ?_) trivial)
    (fun _ _ _ => trivial) fun _ _ h => h
  -- Committing compares the names that the items of one mapper have in its layout.
  obtain ⟨d, hd, hresolve⟩ := exists_of_forall₂_right (mapM_eq_ok.mp hmappers)
    (Resolves.mem_of_mem_arrange order hm)
  have hnamesOf := (names_of_resolved hresolve).1
  have hnames : ∀ i ∈ m.items, ∃ destination, i.name = Text.snakeCase destination := by
    intro i hi
    obtain ⟨declaration, -, heq⟩ := List.mem_map.mp (hnamesOf ▸ List.mem_map_of_mem hi)
    exact ⟨_, heq.symm⟩
  unfold commitNext
  refine After.bind (P := fun _ _ => True) (E := fun _ _ => False) trivial (fun _ s' _ => ?_) (by simp)
  refine After.ofExcept_bind (fun plan _ => trivial) ((clash_commit _ (hkeys _) hnames).mono ?_)
  rintro e he mapper field rfl
  obtain ⟨rfl, hclash⟩ := he mapper field rfl
  exact ⟨d, hd, by rw [(resolveMapper_eq_ok hresolve).1], .inr (hnamesOf ▸ hclash)⟩

theorem clashing_build (metadata : Metadata) (config : Config)
    (declared : List (MapperDeclaration C)) (logs : List LogRecord)
    (hkeys : ∀ name entity, metadata.entity? name = some entity → entity.primaryKey.Nodup) :
    After (build metadata config declared) logs
      (either (fun _ _ => True) fun e _ => Clashing declared e) := by
  unfold build
  refine After.bind (clashing_commitAll metadata declared logs hkeys) (fun c logs₁ _ => ?_) fun _ _ h => h
  unfold Commission.equip
  refine After.bind (P := fun _ _ => True) (E := fun e _ => Clashing declared e) ?_
    (fun _ _ _ => trivial) fun _ _ h => h
  refine After.foldlM (fun _ _ _ => True) _ (fun r _ f logs _ _ => ?_) trivial
  refine After.foldlM (fun _ _ _ => True) _ (fun i _ f logs _ _ => ?_) trivial
  exact (unclashing_demand f metadata _ i.2 logs).imp (fun _ _ _ => trivial)
    fun e _ he => clashing_of_unclashing declared e he

/-- Building refuses a destination field for being there twice only if two fields of one mapper have
its name, or have it in snake case. The carriers of keys are in the place of no field. -/
theorem build_refuses_only_clashes (metadata : Metadata) (config : Config)
    (declared : List (MapperDeclaration C)) (logs : List LogRecord)
    (hkeys : ∀ name entity, metadata.entity? name = some entity → entity.primaryKey.Nodup) :
    (∀ mapper field,
      ((build metadata config declared).run.run logs).1 = .error (.duplicateField mapper field) →
        ∃ d ∈ declared, d.key.text = mapper ∧
          (List.Duplicate field d.fields ∨ List.Duplicate field d.names)) ∧
      ∀ column destination, carrierName column ≠ Text.snakeCase destination := by
  refine ⟨fun mapper field hbuild => ?_, carrierName_ne_snakeCase⟩
  have h := clashing_build metadata config declared logs hkeys
  unfold After at h
  rw [hbuild] at h
  exact h mapper field rfl

/-! ## Two fields that read the same in snake case -/

namespace Sample

def customers : Metadata := .ofList [
  ((Entity.new "Customer").withKey "id" .int).withColumn "name" .string]

/-- A mapper with two fields that only snake case makes one. -/
def clashing : List (MapperDeclaration Unit) := [
  ⟨⟨"Customer", "CustomerView"⟩,
    [({ destination := "fullName" } : Declaration Unit).fromPath "name",
      ({ destination := "full_name" } : Declaration Unit).fromPath "name"], []⟩]

theorem nodup_primaryKey (name : String) (entity : Entity) (h : customers.entity? name = some entity) :
    entity.primaryKey.Nodup := by
  have hall : customers.entities.entries.all (fun e => decide e.2.primaryKey.Nodup) = true := by cbv
  exact of_decide_eq_true (List.all_eq_true.mp hall _ (Dict.mem_entries_of_get? h))

/-- The two fields have different names, and one of them is refused for being there twice. -/
theorem different_fields_refused :
    (∀ name entity, customers.entity? name = some entity → entity.primaryKey.Nodup) ∧
      (∀ d ∈ clashing, d.fields.Nodup) ∧
      ((build customers {} clashing).run.run []).1 =
        .error (.duplicateField "Customer -> CustomerView" "full_name") := by
  refine ⟨nodup_primaryKey, by decide, ?_⟩
  cbv

theorem clashes_refused :
    (∀ name entity, customers.entity? name = some entity → entity.primaryKey.Nodup) ∧
      ∃ d ∈ clashing, d.key.text = "Customer -> CustomerView" ∧
        (List.Duplicate "full_name" d.fields ∨ List.Duplicate "full_name" d.names) :=
  ⟨nodup_primaryKey, (build_refuses_only_clashes customers {} clashing [] nodup_primaryKey).1 _ _
    (by cbv)⟩

end Sample

end Registry

end EntityMapping
