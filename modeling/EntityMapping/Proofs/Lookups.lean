import EntityMapping.Proofs.Charting
import EntityMapping.Proofs.Pass.Answering
import EntityMapping.Proofs.Pass.Looking

/-! # Keyed processors

A keyed processor asks for the keys of all its requests at once and gives every request what was found for its
own. Collecting passes over what is no key, and a request is queued only if nothing in it is, so what is collected
and what is answered are the same keys. Nothing is left when the processor is done.
-/

namespace EntityMapping

variable {C : Type}

/-! ## Keys and answers -/

namespace Batch

/-- The keys that the value of a request consists of. -/
inductive Asks : Value → List Key → Prop
  | one {v : Value} {k : Key} : v.asKey? = some k → Asks v [k]
  | many {parts : List Value} {ks : List Key} :
    List.Forall₂ (fun part k => part.asKey? = some k) parts ks → Asks (.list parts) ks

/-- What is found for a key, or null. -/
def found (table : List (Key × Value)) (k : Key) : Value := (Dict.lookup k table).getD .null

/-- The answer to the value of a request: what is found for its key, or for each key in its list. -/
inductive Answers (table : List (Key × Value)) : Value → Value → Prop
  | one {v : Value} {k : Key} : v.asKey? = some k → Answers table v (found table k)
  | many {parts : List Value} {ks : List Key} :
    List.Forall₂ (fun part k => part.asKey? = some k) parts ks →
    Answers table (.list parts) (.list (ks.map (found table)))

theorem forM_eq_ok {α : Type} {f : α → Except Error Unit} {l : List α} :
    l.forM f = .ok () ↔ ∀ a ∈ l, f a = .ok () := by
  induction l with
  | nil => exact ⟨fun _ _ ha => (List.not_mem_nil ha).elim, fun _ => rfl⟩
  | cons a l ih =>
    change (f a >>= fun _ => l.forM f) = .ok () ↔ _
    rw [bind_eq_ok, List.forall_mem_cons, ← ih]
    exact ⟨fun ⟨_, ha, hl⟩ => ⟨ha, hl⟩, fun ⟨ha, hl⟩ => ⟨(), ha, hl⟩⟩

theorem exists_keys {item : String} {v : Value} (h : checkBatchKey item v = .ok ()) :
    (∃ k, v.asKey? = some k) ∨
      ∃ parts ks, v = .list parts ∧ List.Forall₂ (fun part k => part.asKey? = some k) parts ks := by
  have hkey : ∀ v, (fetchKey item v).map (fun _ => ()) = .ok () → ∃ k, v.asKey? = some k := by
    intro v hv
    obtain ⟨k, hk, -⟩ := map_eq_ok.mp hv
    exact ⟨k, (fetchKey_eq_ok.mp hk).1⟩
  unfold checkBatchKey at h
  split at h
  · rename_i parts
    obtain ⟨ks, hks⟩ := exists_forall₂ fun part hpart => hkey part (forM_eq_ok.mp h part hpart)
    exact .inr ⟨parts, ks, rfl, hks⟩
  · exact .inl (hkey v h)

theorem keysOf_eq_singleton {v : Value} {k : Key} (hk : v.asKey? = some k) : keysOf v = [k] := by
  unfold keysOf
  split
  · cases hk
  · rw [hk]
    rfl

theorem keysOf_list {parts : List Value} {ks : List Key}
    (h : List.Forall₂ (fun part k => part.asKey? = some k) parts ks) : keysOf (.list parts) = ks := by
  change parts.filterMap (·.asKey?) = ks
  induction h with
  | nil => rfl
  | cons hk _ ih => rw [List.filterMap_cons_some hk, ih]

theorem asks_keysOf {item : String} {v : Value} (h : checkBatchKey item v = .ok ()) : Asks v (keysOf v) := by
  rcases exists_keys h with ⟨k, hk⟩ | ⟨parts, ks, rfl, hks⟩
  · rw [keysOf_eq_singleton hk]
    exact .one hk
  · rw [keysOf_list hks]
    exact .many hks

theorem answers_resolved {item : String} {v : Value} (h : checkBatchKey item v = .ok ())
    (table : List (Key × Value)) : Answers table v (resolved table v) := by
  have hlookUp : ∀ {v : Value} {k : Key}, v.asKey? = some k → lookUp table v = found table k := by
    intro v k hk
    unfold lookUp
    rw [hk]
    rfl
  rcases exists_keys h with ⟨k, hk⟩ | ⟨parts, ks, rfl, hks⟩
  · rw [resolved_of_asKey? table hk]
    exact .one hk
  · have hanswers : parts.map (lookUp table) = ks.map (found table) :=
      map_eq_map_of_forall₂ (hks.imp fun _ _ hk => hlookUp hk)
    change Answers table (.list parts) (.list (parts.map (lookUp table)))
    rw [hanswers]
    exact .many hks

theorem distinct_eq_eraseDups (keys : List Key) : Key.distinct keys = keys.eraseDups := by
  -- The fold is taken from any list of keys seen so far.
  have hfold : ∀ seen : List Key, keys.foldl (fun seen k => if k ∈ seen then seen else seen ++ [k]) seen =
      seen ++ (keys.filter (· ∉ seen)).eraseDups := by
    induction keys with
    | nil => exact fun seen => (List.append_nil seen).symm
    | cons k keys ih =>
      intro seen
      rw [List.foldl_cons, ih]
      split
      · rename_i hmem
        rw [List.filter_cons_of_neg (by simpa using hmem)]
      · rename_i hnew
        rw [List.filter_cons_of_pos (by simpa using hnew), List.eraseDups_cons, List.filter_filter,
          List.append_assoc, List.singleton_append]
        congr 3
        refine List.filter_congr fun k' _ => ?_
        rw [Bool.eq_iff_iff]
        simp [and_comm]
  unfold Key.distinct
  rw [hfold]
  simp

end Batch

/-! ## Runs -/

theorem run_eq_of_after {α : Type} {x y : PassM C α} {s : PassState C}
    (h : ∀ Q, After x s Q ↔ After y s Q) : x.run.run s = y.run.run s :=
  (h fun result s' => (result, s') = y.run.run s).mpr rfl

theorem after_runScript_applyAll (setting : Setting C) (value : Value → Value) (requests : List (BatchRequest C))
    (hlength : requests.length = (requests.map (·.key)).length) {s : PassState C}
    {Q : Except Error Nat → PassState C → Prop} :
    After (runScript setting (Script.applyAll value (requests.map (·.key))) requests hlength) s Q ↔
      After (requests.forM fun r => deliver setting r.number r.delivery (value r.key)) s
        (either (fun _ s' => Q (.ok 0) s') fun e s' => Q (.error e) s') := by
  induction requests generalizing s with
  | nil => rfl
  | cons r requests ih =>
    change After (runScript setting (.applying 0 (value r.key) _) (r :: requests) hlength) s Q ↔
      After (deliver setting r.number r.delivery (value r.key) >>= fun _ => _) s _
    unfold Script.applying runScript
    rw [After.bind_iff, PassM.attempt_iff, After.bind_iff]
    refine iff_of_eq (congrArg (After _ s) (funext fun result => funext fun s' => propext ?_))
    cases result with
    | ok _ => exact ih _
    | error e => exact Iff.rfl

/-- What a keyed processor does with its requests: it looks their keys up once, and then delivers to each of them, in
order, what was found. -/
def lookingUp (setting : Setting C) (name : String) (load : List Key → C → Action (List (Key × Value)))
    (requests : List (BatchRequest C)) : PassM C Unit := do
  let keys := requests.map (·.key)
  let wanted := Batch.distinctKeys keys
  PassM.debug s!"{name}: resolving {wanted.length} keys for {keys.length} items"
  let table ← PassM.perform (load wanted setting.ambient)
  requests.forM fun r => deliver setting r.number r.delivery (Batch.resolved table r.key)

theorem run_resolveBatch_keyed (setting : Setting C) (id : Nat) (name : String)
    (load : List Key → C → Action (List (Key × Value))) (requests : List (BatchRequest C)) (s : PassState C) :
    (resolveBatch setting (Batch.keyed id name load) requests).run.run s =
      (lookingUp setting name load requests).run.run s := by
  refine run_eq_of_after fun Q => ?_
  unfold resolveBatch lookingUp
  rw [After.bind_iff]
  change After (PassM.debug _ >>= fun _ =>
    runScript setting (.performing (load _ setting.ambient) _) requests _) s _ ↔ _
  rw [After.bind_iff, After.bind_iff]
  refine iff_of_eq (congrArg (After _ s) (funext fun result => funext fun s' => propext ?_))
  cases result with
  | error e => exact Iff.rfl
  | ok _ =>
    unfold Script.performing
    rw [either_ok, either_ok, after_runScript_attempt, After.bind_iff, PassM.perform_iff]
    cases ((load (Batch.distinctKeys (requests.map (·.key))) setting.ambient).run s'.heap).result with
    | error e => exact Iff.rfl
    | ok table =>
      refine (after_runScript_applyAll setting (Batch.resolved table) requests _).trans ?_
      refine iff_of_eq (congrArg (After _ _) (funext fun result => funext fun s' => ?_))
      cases result <;> rfl

/-- Of one look-up, every request has what was found for it. -/
structure Batch.Served (ambient : C) (table : List (Key × Value)) (requests : List (BatchRequest C)) (looked : Heap)
    (s s' : PassState C) : Prop where
  /-- The requests were given their values once and in order. -/
  deliveries : s'.journal.deliveries =
    s.journal.deliveries ++ requests.map fun r => (r.number, Batch.resolved table r.key)
  /-- From the objects after the look-up on, what the transposers make of the values was stored. -/
  puts : PutsAll ambient (requests.map fun r => (r.delivery, Batch.resolved table r.key)) looked s'.heap
  /-- Where the transposers do no more than look at the objects, a field that one request goes to ends as its
  transposer has it. -/
  endsAs : ∀ front r back, requests = front ++ r :: back → r.delivery.object.id < looked.size →
    (∀ q ∈ requests, q.delivery.assignment.Spares ambient) → (∀ q ∈ front ++ back, q.delivery.Apart r.delivery) →
    r.delivery.EndsAs ambient (r.delivery.chosen (Batch.resolved table r.key)) looked s'.heap

theorem served_deliverEach (setting : Setting C) (table : List (Key × Value)) (requests : List (BatchRequest C))
    {s s₁ : PassState C} (hnone : s₁.journal.deliveries = s.journal.deliveries) :
    After (requests.forM fun r => deliver setting r.number r.delivery (Batch.resolved table r.key)) s₁ (either
      (fun _ s' => Batch.Served setting.ambient table requests s₁.heap s s')
      fun e _ => ∃ r ∈ requests, ∃ s₂,
        ((deliver setting r.number r.delivery (Batch.resolved table r.key)).run.run s₂).1 = .error e) := by
  apply (deliveries_deliverEach setting (fun r : BatchRequest C => r.number) (fun r => r.delivery)
    (fun r => Batch.resolved table r.key) requests s₁).keep.mono
  rintro (e | _) s' ⟨hran, hresult⟩
  · exact hresult
  · exact ⟨hnone ▸ hresult, putsAll_of_run hran,
      fun _ _ _ hsplit hobject hspares hapart => endsAs_of_run hsplit hspares hapart hobject hran⟩

theorem served_lookingUp (setting : Setting C) (name : String)
    {load : List Key → C → Action (List (Key × Value))} {requests : List (BatchRequest C)} {s : PassState C}
    {table : List (Key × Value)} {looked : Heap} {notes : List Note}
    (hlooked : (load (Batch.distinctKeys (requests.map (·.key))) setting.ambient).run s.heap =
      ⟨.ok table, looked, notes⟩) :
    After (lookingUp setting name load requests) s (either
      (fun _ s' => Batch.Served setting.ambient table requests looked s s')
      fun e _ => ∃ r ∈ requests, ∃ s₁,
        ((deliver setting r.number r.delivery (Batch.resolved table r.key)).run.run s₁).1 = .error e) := by
  unfold lookingUp PassM.debug
  rw [After.bind_iff, PassM.record_iff, either_ok, After.bind_iff, PassM.perform_iff]
  dsimp only
  rw [hlooked, either_ok]
  apply served_deliverEach
  -- Neither the line that is logged nor what the look-up notes is a delivery.
  exact (Journal.Quiet.addNotes _ _).deliveries_eq.trans ((Journal.deliveries_add _ _).trans (List.append_nil _))

theorem lookingUp_eq_error (setting : Setting C) (name : String)
    {load : List Key → C → Action (List (Key × Value))} {requests : List (BatchRequest C)} {s : PassState C}
    {e : Error} {looked : Heap} {notes : List Note}
    (he : (load (Batch.distinctKeys (requests.map (·.key))) setting.ambient).run s.heap = ⟨.error e, looked, notes⟩) :
    ((lookingUp setting name load requests).run.run s).1 = .error e := by
  have hran : After (lookingUp setting name load requests) s fun result _ => result = .error e := by
    unfold lookingUp PassM.debug
    rw [After.bind_iff, PassM.record_iff, either_ok, After.bind_iff, PassM.perform_iff]
    dsimp only
    rw [he]
    rfl
  exact hran

/-! ## Nothing is left -/

theorem Script.completes_attempt {α : Type} (action : Action α) {n : Nat} {next : Except Error α → Script n}
    (h : ∀ result, (next result).Completes) : (Script.attempt action next).Completes := by
  induction action with
  | done a => exact h _
  | fail e => exact h _
  | inspect more ih => exact fun heap => ih heap
  | set o field v more ih => exact ih
  | create typeName fields more ih => exact fun o => ih o
  | note entry more ih => exact ih

theorem Script.completes_applyAll (value : Value → Value) (keys : List Value) :
    (Script.applyAll value keys).Completes := by
  induction keys with
  | nil => rfl
  | cons key keys ih =>
    intro result
    cases result with
    | ok _ => exact ih
    | error e => trivial

theorem Script.raises_applyAll (P : Error → Prop) (value : Value → Value) (keys : List Value) :
    (Script.applyAll value keys).Raises P := by
  induction keys with
  | nil => trivial
  | cons key keys ih =>
    intro result hresult
    cases result with
    | ok _ => exact ih
    | error e => exact hresult e rfl

theorem Batch.completes_keyed (id : Nat) (name : String) (load : List Key → C → Action (List (Key × Value)))
    (keys : List Value) (ambient : C) : ((keyed id name load).process keys ambient).Completes := by
  refine Script.completes_attempt _ fun result => ?_
  cases result with
  | ok table => exact Script.completes_applyAll _ keys
  | error e => trivial

/-- A processor of this name left something undone. -/
def Error.isIncompleteOf (name : String) : Error → Bool
  | .batchIncomplete processor _ _ => processor = name
  | _ => false

/-- Whatever else the code of a declared item does, what its processors of this name do is look keys up. -/
def Declaration.Keyed (name : String) (d : Declaration C) : Prop :=
  ∀ p, d.style = some (.batch p) → p.name = name → ∃ id load, p = Batch.keyed id name load

namespace Registry

theorem Built.keyed {metadata : Metadata} {config : Config} {declared : List (MapperDeclaration C)}
    {resolved : List (Mapper C)} {r : Registry C} (h : Built metadata config declared resolved r) {name : String}
    (hkeyed : ∀ d ∈ declared, ∀ i ∈ d.items, i.Keyed name) {m : Mapper C} (hm : m ∈ r.mappers) {i : Item C}
    (hi : i ∈ m.items) {p : Processor C} (hp : i.style = .batch p) (hname : p.name = name) :
    ∃ id load, p = Batch.keyed id name load := by
  obtain ⟨d, hd, declaration, hdeclaration, -, -, hprocessor⟩ := h.exists_declared hm hi
  exact hkeyed d hd declaration hdeclaration p (hprocessor p hp) hname

/-- No pass of a registry fails because a processor of a name left something undone, if all processors of the name
look keys up and the code raises no such error. -/
theorem Built.failsOnly_of_keyed {metadata : Metadata} {config : Config} {declared : List (MapperDeclaration C)}
    {resolved : List (Mapper C)} {r : Registry C} (h : Built metadata config declared resolved r) {name : String}
    (hkeyed : ∀ d ∈ declared, ∀ i ∈ d.items, i.Keyed name) {P : Error → Prop}
    (hP : ∀ e : Error, e.isIncompleteOf name = false → (∀ cause, e.cause? = some cause → P cause) → P e)
    {source : DataSource} {ambient : C} (hcode : CodeRaises P r source ambient) (q : Query) (destination : String)
    (heap : Heap) : FailsOnly P (r.map q destination source ambient heap).1 := by
  have hmissing : ∀ e : Error, e.isMissing = true → P e := by
    intro e he
    cases e with
    | unknownEntity | relationNotFound => exact hP _ rfl fun _ hcause => by cases hcause
    | _ => cases he
  have hmild : Mild P := by
    intro e _ _ hunmet hcause
    refine hP e ?_ hcause
    cases e <;> first | rfl | cases hunmet
  have hloads : ∀ a ∈ r.registrations, ∀ q, r.Loads P source ambient a q := by
    intro a ha q l
    apply (failsOnly_fetch_of_missing hcode.source r.metadata hmissing _ l).mono
    refine fun loaded _ hloaded => ⟨hloaded, fun rows _ row _ => ?_⟩
    exact h.failsOnly_project hcode (fun _ _ _ => hP _ rfl fun _ hcause => by cases hcause) ha row
  have hserves : ∀ m ∈ r.mappers, ∀ i ∈ m.items, ∀ p, i.style = .batch p → p.Serves P ambient := by
    intro m hm i hi p hp
    -- The processors of this name are keyed, and those answer every request.
    by_cases hname : p.name = name
    · obtain ⟨id, load, rfl⟩ := h.keyed hkeyed hm hi hp hname
      exact .inr fun keys => Batch.completes_keyed id name load keys ambient
    · exact .inl fun _ _ => hP _ (decide_eq_false hname) fun _ hcause => by cases hcause
  exact Confined.failsOnly_map ⟨hmild, h, hcode, hserves, fun a ha q _ _ => hloads a ha q⟩
    (hP _ rfl fun _ hcause => by cases hcause) (fun a ha _ => hloads a ha q) heap

/-- A keyed processor looks up the different keys of its requests, in order of first occurrence, by one call. Of
what was let through to it nothing is passed over. Then it delivers to every request, once and in order, what
was found for its key, or the list of what was found for the keys in its list, with null for a key without a
value. It fails with the look-up or with a delivery, and else everything is delivered and stored. So no pass fails
because the processor left something undone, unless the code of the declarations or the source raises such an error. -/
theorem keyed_processor_answers_all (id : Nat) (name : String) (load : List Key → C → Action (List (Key × Value))) :
    (∀ (setting : Setting C) (requests : List (BatchRequest C)),
      (∀ r ∈ requests, checkBatchKey r.delivery.assignment.item r.key = .ok ()) →
      let wanted := Batch.distinctKeys (requests.map (·.key))
      wanted = (requests.flatMap fun r => Batch.keysOf r.key).eraseDups ∧ wanted.Nodup ∧
        (∀ r ∈ requests, Batch.Asks r.key (Batch.keysOf r.key)) ∧
        (∀ table, ∀ r ∈ requests, Batch.Answers table r.key (Batch.resolved table r.key)) ∧
        ∀ s, let ran := (resolveBatch setting (Batch.keyed id name load) requests).run.run s
          ran = (lookingUp setting name load requests).run.run s ∧
            match (load wanted setting.ambient).run s.heap with
            | ⟨.error e, _, _⟩ => ran.1 = .error e
            | ⟨.ok table, looked, _⟩ => either
              (fun _ s' => Batch.Served setting.ambient table requests looked s s')
              (fun e _ => ∃ r ∈ requests, ∃ s₁,
                ((deliver setting r.number r.delivery (Batch.resolved table r.key)).run.run s₁).1 = .error e)
              ran.1 ran.2) ∧
    ∀ {metadata : Metadata} {config : Config} {declared : List (MapperDeclaration C)} {logs : List LogRecord}
      {r : Registry C}, ((build metadata config declared).run.run logs).1 = .ok r →
      (∀ d ∈ declared, ∀ i ∈ d.items, i.Keyed name) →
      ∀ (q : Query) (destination : String) (source : DataSource) (ambient : C) (heap : Heap),
        (CodeRaises (fun e => e.isIncompleteOf name = false) r source ambient →
          FailsOnly (fun e => e.isIncompleteOf name = false) (r.map q destination source ambient heap).1) ∧
        (CodeRaises (fun e => e.innermost.isIncompleteOf name = false) r source ambient →
          FailsOnly (fun e => e.innermost.isIncompleteOf name = false)
            (r.map q destination source ambient heap).1) := by
  refine ⟨fun setting requests hvalid => ⟨?_, ?_, fun r hr => Batch.asks_keysOf (hvalid r hr),
    fun table r hr => Batch.answers_resolved (hvalid r hr) table, fun s => ?_⟩, ?_⟩
  · unfold Batch.distinctKeys
    rw [Batch.distinct_eq_eraseDups, List.flatMap_map]
  · exact Key.nodup_distinct _
  · dsimp only
    rw [run_resolveBatch_keyed]
    refine ⟨rfl, ?_⟩
    split
    · rename_i he
      exact lookingUp_eq_error setting name he
    · rename_i hlooked
      exact served_lookingUp setting name hlooked
  · intro metadata config declared logs r hbuild hkeyed q destination source ambient heap
    obtain ⟨resolved, hbuilt⟩ := built_of_build hbuild
    refine ⟨fun hcode => hbuilt.failsOnly_of_keyed hkeyed (fun _ he _ => he) hcode q destination heap,
      fun hcode => ?_⟩
    refine hbuilt.failsOnly_of_keyed hkeyed (fun e he hcause => ?_) hcode q destination heap
    exact Error.innermost_induct (P := fun e => e.isIncompleteOf name = false) he hcause

end Registry

/-! ## Names of customers -/

namespace Sample

/-- Only the customer with the key 1 has a name. -/
def nameTable (keys : List Key) (_ : Unit) : Action (List (Key × Value)) :=
  .done (keys.filterMap fun k => if k = .int 1 then some (k, .string "Ada") else none)

def named : List (MapperDeclaration Unit) := [
  ⟨⟨"Order", "OrderLabel"⟩, [{
    destination := "customer"
    source := some (.path ["customer_id"])
    style := some (.batch (Batch.keyed 0 "names" nameTable)) }], []⟩]

/-- A request of an order for the name of its customer, or for several names. -/
def nameRequest (number : Nat) (key : Value) : BatchRequest Unit :=
  ⟨number, key, ⟨⟨"customer", "customer", .null, .scalar .any, none⟩, ⟨number, "OrderLabel"⟩, false⟩⟩

def nameRequests : List (BatchRequest Unit) :=
  [nameRequest 0 (.int 1), nameRequest 1 (.list [.int 2, .int 1]), nameRequest 2 (.list [])]

theorem codeRaises_named {P : Error → Prop} {config : Config} {resolved : List (Mapper Unit)} {r : Registry Unit}
    (h : Registry.Built metadata config named resolved r) : CodeRaises P r memory.source () := by
  refine h.codeRaises (fun d hd i hi => ?_) (fun d hd hook hhook => ?_) fun _ _ _ => FailsOnly.ok _
  · obtain rfl := List.mem_singleton.mp hd
    obtain rfl := List.mem_singleton.mp hi
    refine ⟨nofun, nofun, fun p hp keys => ?_⟩
    obtain rfl := Style.batch.inj (Option.some.inj hp)
    exact Script.raises_applyAll P _ keys
  · obtain rfl := List.mem_singleton.mp hd
    cases hhook

/-- Three objects without names. -/
def unnamed : Heap := ⟨#[⟨[]⟩, ⟨[]⟩, ⟨[]⟩]⟩

/-- Two orders and a list of none are given their names, by one look-up of two keys. -/
theorem names_looked_up : ∃ (r : Registry Unit) (s' : PassState Unit),
    ((Registry.build metadata {} named).run.run []).1 = .ok r ∧
      Batch.distinctKeys (nameRequests.map (·.key)) = [.int 1, .int 2] ∧
      (resolveBatch (r.setting memory.source ()) (Batch.keyed 0 "names" nameTable) nameRequests).run.run
        (.initial unnamed) = (.ok (), s') ∧
      s'.journal.deliveries =
        [(0, .string "Ada"), (1, .list [.null, .string "Ada"]), (2, .list [])] ∧
      s'.heap.get ⟨0, "OrderLabel"⟩ "customer" = .string "Ada" ∧
      s'.heap.get ⟨1, "OrderLabel"⟩ "customer" = .list [.null, .string "Ada"] ∧
      FailsOnly (fun e => e.innermost.isIncompleteOf "names" = false)
        (r.map (Query.all "Order") "OrderLabel" memory.source () .empty).1 := by
  have hbuilds : (((Registry.build metadata {} named).run.run []).1.toOption.any fun _ => true) = true := by cbv
  obtain ⟨r, hbuild, -⟩ := exists_ok_of_any hbuilds
  obtain ⟨hanswers, hpasses⟩ := Registry.keyed_processor_answers_all 0 "names" nameTable
  have hvalid : ∀ r ∈ nameRequests, checkBatchKey r.delivery.assignment.item r.key = .ok () := by
    rintro r (_ | ⟨_, _ | ⟨_, _ | ⟨_, ⟨⟩⟩⟩⟩) <;> rfl
  obtain ⟨-, -, -, -, hdelivers⟩ := hanswers (r.setting memory.source ()) nameRequests hvalid
  obtain ⟨hran, hresult⟩ := hdelivers (.initial unnamed)
  have hok : ((resolveBatch (r.setting memory.source ()) (Batch.keyed 0 "names" nameTable) nameRequests).run.run
      (.initial unnamed)).1 = .ok () := by
    rw [hran]
    rfl
  rw [hok] at hresult
  have hserved : Batch.Served () [(.int 1, .string "Ada")] nameRequests unnamed (.initial unnamed) _ := hresult
  have hspares : ∀ q ∈ nameRequests, q.delivery.assignment.Spares () := by
    rintro q (_ | ⟨_, _ | ⟨_, _ | ⟨_, ⟨⟩⟩⟩⟩) <;> exact fun _ _ => rfl
  have hfirst := hserved.endsAs [] (nameRequest 0 (.int 1)) _ rfl (by decide) hspares
    (by simp [Delivery.Apart, nameRequest])
  have hsecond := hserved.endsAs [nameRequest 0 (.int 1)] (nameRequest 1 (.list [.int 2, .int 1])) _ rfl (by decide)
    hspares (by simp [Delivery.Apart, nameRequest])
  obtain ⟨_, _, hada, -, hfirst⟩ := hfirst
  obtain ⟨_, _, hnames, -, hsecond⟩ := hsecond
  obtain rfl := Except.ok.inj hada
  obtain rfl := Except.ok.inj hnames
  obtain ⟨resolved, hbuilt⟩ := Registry.built_of_build hbuild
  refine ⟨r, _, hbuild, by decide, Prod.ext hok rfl, hserved.deliveries, hfirst, hsecond, ?_⟩
  refine (hpasses hbuild ?_ (Query.all "Order") "OrderLabel" memory.source () .empty).2 (codeRaises_named hbuilt)
  intro d hd i hi p hp _
  obtain rfl := List.mem_singleton.mp hd
  obtain rfl := List.mem_singleton.mp hi
  exact ⟨0, nameTable, (Style.batch.inj (Option.some.inj hp)).symm⟩

end Sample

end EntityMapping
