import EntityMapping.Proofs.Pass.Answering
import EntityMapping.Proofs.Pass.Upholding
import EntityMapping.Proofs.Sparing

/-! # What the journal stands for

When a request is given its value, the value is assigned then and there: what the transposer makes of it is stored in
the field that waits for it. The field holds it until it is assigned again, unless code of the declarations sets
it. A value may be refused, and a processor that goes on after that makes the pass go on. When a hook is noted, it
is run.
-/

namespace EntityMapping

variable {C : Type}

/-! ## What becomes of a value -/

/-- A field is set to what the transposer makes of the value, or it is left alone since it may not hold that. -/
theorem PassM.after_assign (setting : Setting C) (a : Assignment C) (v : Value) (o : ObjectRef) (s : PassState C) :
    After (assign setting a v o) s
      (either
        (fun _ s' => ∃ (w : Value) (heap : Heap) (notes : List Note),
          (a.transpose v setting.ambient).run s.heap = ⟨.ok w, heap, notes⟩ ∧ a.expected.accepts w = true ∧
            s'.heap = heap.set o a.field w ∧ s'.entries = s.entries ++ (notes.map .note ++ [.assigned o a.field]))
        (fun _ s' => ∃ (result : Except Error Value) (notes : List Note),
          (a.transpose v setting.ambient).run s.heap = ⟨result, s'.heap, notes⟩ ∧
            (∀ w, result = .ok w → a.expected.accepts w = false) ∧ s'.entries = s.entries ++ notes.map .note)) := by
  unfold assign
  rw [After.bind_iff, perform_iff, Assignment.run_assign]
  generalize (a.transpose v setting.ambient).run s.heap = outcome
  obtain ⟨_ | w, heap, notes⟩ := outcome
  · refine ⟨_, notes, rfl, fun _ hw => ?_, Journal.toList_addNotes _ _⟩
    cases hw
  dsimp only
  split
  · rename_i haccepts
    refine ⟨w, heap, notes, rfl, haccepts, rfl, ?_⟩
    change (Journal.add _ _).toList = _
    rw [Journal.toList_add, Journal.toList_addNotes, List.append_assoc]
    rfl
  · rename_i hmisfit
    refine ⟨_, notes, rfl, fun w' hw' => ?_, Journal.toList_addNotes _ _⟩
    obtain rfl := Except.ok.inj hw'
    exact Bool.eq_false_iff.mpr hmisfit

/-- A value is passed over only where the first of many is asked for and there is none. -/
theorem Delivery.chosen_eq_none {d : Delivery C} {v : Value} :
    d.chosen v = none ↔ d.takesFirst = true ∧ (v = .null ∨ v = .list []) := by
  unfold chosen
  split
  · rename_i hfirst
    cases v with
    | list items => cases items <;> simp [hfirst]
    | _ => simp [hfirst]
  · rename_i hall
    simp [hall]

/-- How a request took a value: what was stored in its field, and what was written down meanwhile. Nothing is stored
if the first of many is asked for and there is none. A value that was refused is all the same to the pass only if it
was given to a request for a processor, and some processor goes on when an assignment fails. -/
inductive Request.Took (r : Registry C) (ambient : C) (q : Request C) (v : Value) : Option Value → List Entry → Prop
  | nothing : q.delivery.takesFirst = true → v = .null ∨ v = .list [] → Took r ambient q v none []
  | stored {chosen w : Value} {before after : Heap} {notes : List Note} : q.delivery.chosen v = some chosen →
    (q.delivery.assignment.transpose chosen ambient).run before = ⟨.ok w, after, notes⟩ →
    q.delivery.assignment.expected.accepts w = true →
    Took r ambient q v (some w) (notes.map .note ++ [.assigned q.delivery.object q.delivery.assignment.field])
  | refused {chosen : Value} {result : Except Error Value} {before after : Heap} {notes : List Note} :
    ¬ r.PassesOn ambient → (∃ id, q.group = .batch id) → q.delivery.chosen v = some chosen →
    (q.delivery.assignment.transpose chosen ambient).run before = ⟨result, after, notes⟩ →
    (∀ w, result = .ok w → q.delivery.assignment.expected.accepts w = false) →
    Took r ambient q v none (notes.map .note)

/-- The entry is a note, or tells of an assignment. -/
def Entry.IsEffect : Entry → Prop
  | .note _ | .assigned _ _ => True
  | _ => False

theorem Request.Took.isEffect {r : Registry C} {ambient : C} {q : Request C} {v : Value} {stored : Option Value}
    {trace : List Entry} (h : q.Took r ambient v stored trace) : ∀ e ∈ trace, e.IsEffect := by
  have hnotes : ∀ notes : List Note, ∀ e ∈ notes.map Entry.note, e.IsEffect := by
    intro notes e he
    obtain ⟨n, -, rfl⟩ := List.mem_map.mp he
    trivial
  cases h with
  | nothing => exact List.forall_mem_nil _
  | stored => exact List.forall_mem_append.mpr ⟨hnotes _, List.forall_mem_singleton.mpr trivial⟩
  | refused => exact hnotes _

/-- A request took the value that it was given after the entries in `front`. If the code of the declarations spares
declared fields, what was stored is there as long as the field is not assigned again. -/
def Registry.Takes (r : Registry C) (ambient : C) (heap : Heap) (front : List Entry) (number : Nat) (v : Value)
    (rest : List Entry) : Prop :=
  ∃ (q : Request C) (stored : Option Value) (trace later : List Entry), q.number = number ∧ q.Posted r front ∧
    q.Took r ambient v stored trace ∧ rest = trace ++ later ∧
    (CodeSpares r ambient → ∀ w ∈ stored,
      (∀ o : ObjectRef, o.id = q.delivery.object.id → .assigned o q.delivery.assignment.field ∉ later) →
        heap.get q.delivery.object q.delivery.assignment.field = w)

/-- A hook of the destination was run when the entries in `front` were written down, and `rest` begins with what it
noted. -/
def Registry.Runs (r : Registry C) (ambient : C) (front : List Entry) (o : ObjectRef) (place : Nat)
    (rest : List Entry) : Prop :=
  ∃ a ∈ r.registrations, IsDestination a o front ∧ ∃ hook, a.mapper.after[place]? = some hook ∧
    ∃ (before after : Heap) (notes : List Note) (later : List Entry),
      (hook o ambient).run before = ⟨.ok (), after, notes⟩ ∧ rest = notes.map .note ++ later

theorem Registry.Runs.append {r : Registry C} {ambient : C} {front rest : List Entry} {o : ObjectRef} {place : Nat}
    (h : r.Runs ambient front o place rest) (new : List Entry) : r.Runs ambient front o place (rest ++ new) := by
  obtain ⟨a, ha, ho, hook, hplace, before, after, notes, later, hran, rfl⟩ := h
  exact ⟨a, ha, ho, hook, hplace, before, after, notes, later ++ new, hran, List.append_assoc _ _ _⟩

/-! ## What happens since -/

theorem Heap.Spares.get_eq {P : String → Prop} {base : Nat} {h h' : Heap} (hspares : h.Spares P base h')
    {o : ObjectRef} (ho : o.id < base) {field : String} (hfield : P field) : h'.get o field = h.get o field :=
  congrArg (·.getD .null) (hspares.get?_eq o ho field hfield)

/-- Some entries were written down since. If the code of the declarations spares declared fields, those of the first
`base` objects hold what they held, but for the fields that were assigned. -/
structure Since (r : Registry C) (ambient : C) (base : Nat) (s s' : PassState C) (new : List Entry) : Prop where
  size : s.heap.size ≤ s'.heap.size
  entries : s'.entries = s.entries ++ new
  get_eq : CodeSpares r ambient → ∀ o : ObjectRef, o.id < base → ∀ field, r.Declares field →
    (∀ p : ObjectRef, p.id = o.id → .assigned p field ∉ new) → s'.heap.get o field = s.heap.get o field

namespace Since

variable {r : Registry C} {ambient : C} {base : Nat} {s s' : PassState C} {new : List Entry}

theorem of_spares (hsize : s.heap.size ≤ s'.heap.size) (hentries : s'.entries = s.entries ++ new)
    (hspares : CodeSpares r ambient → s.heap.Spares r.Declares base s'.heap) : Since r ambient base s s' new :=
  ⟨hsize, hentries, fun hcode _ ho _ hfield _ => (hspares hcode).get_eq ho hfield⟩

/-- A field is set that is noted as assigned. -/
theorem of_set {heap : Heap} {o : ObjectRef} {field : String} {v : Value} (hsize : s.heap.size ≤ heap.size)
    (hheap : s'.heap = heap.set o field v) (hentries : s'.entries = s.entries ++ new)
    (hassigned : .assigned o field ∈ new) (hspares : CodeSpares r ambient → s.heap.Spares r.Declares base heap) :
    Since r ambient base s s' new where
  size := by rwa [hheap, Heap.size_set]
  entries := hentries
  get_eq hcode p hp other hdeclared hnot := by
    have hne : o.id = p.id → field ≠ other := by
      rintro hid rfl
      exact hnot o hid hassigned
    rw [hheap, Heap.get_set_of_ne v hne, (hspares hcode).get_eq hp hdeclared]

theorem perform {α : Type} {action : Action α} (hspares : CodeSpares r ambient → action.Spares r.Declares)
    (hbase : base ≤ s.heap.size) :
    After (PassM.perform action) s fun _ s' => ∃ notes : List Note, Since r ambient base s s' (notes.map .note) := by
  rw [PassM.perform_iff]
  refine ⟨(action.run s.heap).notes, of_spares (action.extends_run s.heap).size (Journal.toList_addNotes _ _) ?_⟩
  exact fun hcode => (hspares hcode s.heap).mono hbase

theorem record (e : Entry) : After (PassM.record e) s fun _ s' => Since r ambient base s s' [e] := by
  rw [PassM.record_iff]
  exact of_spares (Nat.le_refl _) (Journal.toList_add _ _) fun _ => .refl _ _ _

end Since

theorem exists_of_append_eq {es new front rest : List Entry} {e : Entry} (h : es ++ new = front ++ e :: rest)
    (hnot : e ∉ new) : ∃ rest', es = front ++ e :: rest' ∧ rest = rest' ++ new := by
  rcases List.append_eq_append_iff.mp h with ⟨more, -, rfl⟩ | ⟨more, rfl, hmore⟩
  · exact absurd (List.mem_append_right _ (List.mem_cons_self ..)) hnot
  · cases more with
    | nil =>
      rw [List.nil_append] at hmore
      exact absurd (hmore ▸ List.mem_cons_self ..) hnot
    | cons e' more =>
      obtain ⟨rfl, rfl⟩ := List.cons.inj hmore
      exact ⟨more, rfl, rfl⟩

theorem eq_or_exists_of_append_eq {es new front rest : List Entry} {e e' : Entry}
    (h : es ++ e' :: new = front ++ e :: rest) (hnot : e ∉ new) :
    (es = front ∧ e' = e ∧ new = rest) ∨ ∃ rest', es = front ++ e :: rest' ∧ rest = rest' ++ e' :: new := by
  by_cases he : e = e'
  · subst he
    rcases List.append_eq_append_iff.mp h with ⟨more, rfl, hmore⟩ | ⟨more, rfl, hmore⟩
    · cases more with
      | nil => exact .inl ⟨(List.append_nil _).symm, rfl, (List.cons.inj hmore).2⟩
      | cons e' more =>
        obtain ⟨rfl, rfl⟩ := List.cons.inj hmore
        exact absurd (List.mem_append_right _ (List.mem_cons_self ..)) hnot
    · cases more with
      | nil => exact .inl ⟨List.append_nil _, rfl, (List.cons.inj hmore).2.symm⟩
      | cons e' more =>
        obtain ⟨rfl, rfl⟩ := List.cons.inj hmore
        exact .inr ⟨more, rfl, rfl⟩
  · exact .inr (exists_of_append_eq h (List.not_mem_cons_of_ne_of_not_mem he hnot))

theorem Request.Posted.declares {r : Registry C} {q : Request C} {es : List Entry} (h : q.Posted r es) :
    r.Declares q.delivery.assignment.field := by
  obtain ⟨-, a, ha, -, i, hi, hassignment, -⟩ := h
  rw [hassignment]
  exact ⟨a.mapper, List.mem_map_of_mem ha, i, hi, rfl⟩

/-! ## The account of effects -/

/-- The destinations are among the first `base` objects, a request took every value that was given, and every hook that
was noted ran. -/
structure Accounted (r : Registry C) (ambient : C) (base : Nat) (s : PassState C) : Prop where
  le : base ≤ s.heap.size
  lt : ∀ mapper key o, .allocated mapper key o ∈ s.entries → o.id < base
  takes : ∀ front number v rest, s.entries = front ++ .delivered number v :: rest →
    r.Takes ambient s.heap front number v rest
  runs : ∀ front o place rest, s.entries = front ++ .hooked o place :: rest → r.Runs ambient front o place rest

namespace Accounted

variable {r : Registry C} {source : DataSource} {ambient : C} {base : Nat} {s s' : PassState C}
  {new : List Entry}

theorem initial (r : Registry C) (ambient : C) (heap : Heap) :
    Accounted r ambient heap.size (.initial heap : PassState C) where
  le := Nat.le_refl _
  lt _ _ _ h := by cases h
  takes front _ _ _ h := by cases front <;> cases h
  runs front _ _ _ h := by cases front <;> cases h

theorem grow (h : Accounted r ambient base s) : Accounted r ambient s.heap.size s :=
  ⟨Nat.le_refl _, fun _ _ _ ho => Nat.lt_of_lt_of_le (h.lt _ _ _ ho) h.le, h.takes, h.runs⟩

theorem lt_of_posted (h : Accounted r ambient base s) {q : Request C} {es : List Entry} (hq : q.Posted r es)
    (hle : es ⊆ s.entries) : q.delivery.object.id < base := by
  obtain ⟨-, a, -, ⟨key, hallocated⟩, -⟩ := hq
  exact h.lt _ _ _ (hle hallocated)

/-- What was stored outlasts what leaves it alone. -/
theorem takes_since (h : Accounted r ambient base s) (hsince : Since r ambient base s s' new)
    {front rest : List Entry} {number : Nat} {v : Value} (hsplit : s.entries = front ++ .delivered number v :: rest) :
    r.Takes ambient s'.heap front number v (rest ++ new) := by
  obtain ⟨q, stored, trace, later, hnumber, hposted, htook, rfl, hheld⟩ := h.takes front number v rest hsplit
  refine ⟨q, stored, trace, later ++ new, hnumber, hposted, htook, List.append_assoc .., ?_⟩
  intro hcode w hw hnot
  have hobject := h.lt_of_posted hposted (hsplit ▸ List.subset_append_left _ _)
  rw [hsince.get_eq hcode _ hobject _ hposted.declares fun o ho hmem => hnot o ho (List.mem_append_right _ hmem)]
  exact hheld hcode w hw fun o ho hmem => hnot o ho (List.mem_append_left _ hmem)

theorem takes_of_append (h : Accounted r ambient base s) (hsince : Since r ambient base s s' new)
    (hdelivered : ∀ number v, .delivered number v ∉ new) {front rest : List Entry} {number : Nat} {v : Value}
    (hsplit : s'.entries = front ++ .delivered number v :: rest) : r.Takes ambient s'.heap front number v rest := by
  obtain ⟨rest', hbefore, rfl⟩ := exists_of_append_eq (hsince.entries ▸ hsplit) (hdelivered number v)
  exact h.takes_since hsince hbefore

theorem runs_of_append (h : Accounted r ambient base s) (hsince : Since r ambient base s s' new)
    (hhooked : ∀ o place, .hooked o place ∉ new) {front rest : List Entry} {o : ObjectRef} {place : Nat}
    (hsplit : s'.entries = front ++ .hooked o place :: rest) : r.Runs ambient front o place rest := by
  obtain ⟨rest', hbefore, rfl⟩ := exists_of_append_eq (hsince.entries ▸ hsplit) (hhooked o place)
  exact (h.runs front o place rest' hbefore).append new

theorem lt_of_append (h : Accounted r ambient base s) (hsince : Since r ambient base s s' new)
    (hallocated : ∀ mapper key o, .allocated mapper key o ∉ new) {mapper : MapperKey} {key : Option Key}
    {o : ObjectRef} (ho : .allocated mapper key o ∈ s'.entries) : o.id < base := by
  rw [hsince.entries] at ho
  exact h.lt _ _ _ ((List.mem_append.mp ho).resolve_right (hallocated _ _ _))

theorem since (h : Accounted r ambient base s) (hsince : Since r ambient base s s' new)
    (hallocated : ∀ mapper key o, .allocated mapper key o ∉ new) (hdelivered : ∀ number v, .delivered number v ∉ new)
    (hhooked : ∀ o place, .hooked o place ∉ new) : Accounted r ambient base s' where
  le := Nat.le_trans h.le hsince.size
  lt _ _ _ ho := h.lt_of_append hsince hallocated ho
  takes _ _ _ _ hsplit := h.takes_of_append hsince hdelivered hsplit
  runs _ _ _ _ hsplit := h.runs_of_append hsince hhooked hsplit

theorem since_notes (h : Accounted r ambient base s) (notes : List Note)
    (hsince : Since r ambient base s s' (notes.map .note)) : Accounted r ambient base s' :=
  h.since hsince (by simp) (by simp) (by simp)

theorem perform {α : Type} {action : Action α} (h : Accounted r ambient base s)
    (hspares : CodeSpares r ambient → action.Spares r.Declares) :
    After (PassM.perform action) s fun _ s' => Accounted r ambient base s' :=
  (Since.perform hspares h.le).mono fun _ _ ⟨notes, hsince⟩ => h.since_notes notes hsince

/-- A request is given a value, and takes it. -/
theorem given (h : Accounted r ambient base s) {q : Request C} (hq : q.Posted r s.entries) {v : Value}
    {stored : Option Value} {trace : List Entry} (htook : q.Took r ambient v stored trace)
    (hsince : Since r ambient base s s' (.delivered q.number v :: trace))
    (hheld : CodeSpares r ambient → ∀ w ∈ stored, s'.heap.get q.delivery.object q.delivery.assignment.field = w) :
    Accounted r ambient base s' where
  le := Nat.le_trans h.le hsince.size
  lt _ _ _ ho := by
    refine h.lt_of_append hsince (fun _ _ _ hmem => ?_) ho
    exact htook.isEffect _ ((List.mem_cons.mp hmem).resolve_left (by simp))
  takes front number v' rest hsplit := by
    rw [hsince.entries] at hsplit
    rcases eq_or_exists_of_append_eq hsplit fun hmem => htook.isEffect _ hmem with ⟨rfl, hlast, rfl⟩ | hbefore
    · obtain ⟨rfl, rfl⟩ := Entry.delivered.inj hlast
      exact ⟨q, stored, trace, [], rfl, hq, htook, (List.append_nil _).symm, fun hcode w hw _ => hheld hcode w hw⟩
    · obtain ⟨rest', hbefore, rfl⟩ := hbefore
      exact h.takes_since hsince hbefore
  runs _ _ _ _ hsplit := by
    refine h.runs_of_append hsince (fun _ _ hmem => ?_) hsplit
    exact htook.isEffect _ ((List.mem_cons.mp hmem).resolve_left (by simp))

/-- A value is transposed for an item that is declared. -/
theorem spares_of_transpose {a : Registration C} (ha : a ∈ r.registrations) {i : Item C} (hi : i ∈ a.mapper.items)
    {v : Value} {result : Except Error Value} {heap heap' : Heap} {notes : List Note} (hbase : base ≤ heap.size)
    (htransposed : ((Assignment.ofItem i).transpose v ambient).run heap = ⟨result, heap', notes⟩) :
    heap.size ≤ heap'.size ∧ (CodeSpares r ambient → heap.Spares r.Declares base heap') := by
  have hheap' : heap' = (((Assignment.ofItem i).transpose v ambient).run heap).heap := by rw [htransposed]
  rw [hheap']
  refine ⟨(Action.extends_run _ heap).size, fun hcode => .mono ?_ hbase⟩
  exact Assignment.spares_transpose (hcode.transposer a.mapper (List.mem_map_of_mem ha) i hi) v heap

theorem deliver (h : Accounted r ambient base s) {q : Request C} (hq : q.Posted r s.entries) (v : Value) :
    After (deliver (r.setting source ambient) q.number q.delivery v) s
      (either (fun _ s' => Accounted r ambient base s') fun _ s' =>
        ¬ r.PassesOn ambient → (∃ id, q.group = .batch id) → Accounted r ambient base s') := by
  unfold EntityMapping.deliver
  rw [After.bind_iff, PassM.record_iff, either_ok]
  split
  swap
  · rename_i hnothing
    obtain ⟨hfirst, hnone⟩ := Delivery.chosen_eq_none.mp hnothing
    refine h.given hq (.nothing hfirst hnone) (.of_spares (Nat.le_refl _) (Journal.toList_add _ _) fun _ => .refl _ _ _) ?_
    exact fun _ w hw => by cases hw
  rename_i chosen hchosen
  have hentries : ∀ trace : List Entry,
      (s.journal.add (.delivered q.number v)).toList ++ trace = s.entries ++ .delivered q.number v :: trace := by
    intro trace
    rw [Journal.toList_add, List.append_assoc]
    rfl
  have hposted := hq
  obtain ⟨-, a, ha, -, i, hi, hassignment, -⟩ := hposted
  apply (PassM.after_assign _ _ _ _ _).imp
  · rintro - s' ⟨w, heap, notes, htransposed, haccepts, hheap, hnew⟩
    obtain ⟨hsize, hspares⟩ := spares_of_transpose ha hi h.le (hassignment ▸ htransposed)
    refine h.given hq (.stored hchosen htransposed haccepts)
      (.of_set hsize hheap (hnew.trans (hentries _)) (by simp) hspares) ?_
    rintro - _ ⟨⟩
    have hlt := h.lt_of_posted hq (List.Subset.refl _)
    rw [hheap, Heap.get_set_self (Nat.lt_of_lt_of_le hlt (Nat.le_trans h.le hsize))]
  · rintro - s' ⟨result, notes, htransposed, hmisfit, hnew⟩ hgoes hbatch
    obtain ⟨hsize, hspares⟩ := spares_of_transpose ha hi h.le (hassignment ▸ htransposed)
    exact h.given hq (.refused hgoes hbatch hchosen htransposed hmisfit)
      (.of_spares hsize (hnew.trans (hentries _)) hspares) fun _ _ hw => by cases hw

/-! ## Scripts -/

theorem bind {α β : Type} {x : PassM C α} {f : α → PassM C β} (ha : Moves Aside x)
    (hx : After x s fun _ s' => Accounted r ambient base s')
    (hf : ∀ v s', Accounted r ambient base s' → s.entries ⊆ s'.entries →
      After (f v) s' (either (fun _ s' => Accounted r ambient base s') fun _ _ => True)) :
    After (x >>= f) s (either (fun _ s' => Accounted r ambient base s') fun _ _ => True) := by
  rw [After.bind_iff]
  apply ((ha s).and hx).mono
  rintro (e | v) s' ⟨haside, hs'⟩
  · trivial
  · exact hf v s' hs' haside.entries

end Accounted

theorem after_runScript_of_fails (setting : Setting C) {n : Nat} {script : Script n} (h : script.Fails)
    (pending : List (BatchRequest C)) (hlength : pending.length = n) (s : PassState C) :
    After (runScript setting script pending hlength) s (either (fun _ _ => False) fun _ _ => True) := by
  induction script generalizing pending s with
  | finish => exact h.elim
  | fail e => trivial
  | inspect next ih => exact After.bind_any (fun heap s' => ih heap (h heap) pending _ s') fun _ _ => trivial
  | set o field v next ih => exact After.bind_any (fun _ s' => ih h pending _ s') fun _ _ => trivial
  | create typeName fields next ih => exact After.bind_any (fun o s' => ih o (h o) pending _ s') fun _ _ => trivial
  | note entry next ih => exact After.bind_any (fun _ s' => ih h pending _ s') fun _ _ => trivial
  | apply i v next ih => exact After.bind_any (fun result s' => ih result (h result) _ _ s') fun _ _ => trivial

namespace Accounted

variable {r : Registry C} {source : DataSource} {ambient : C} {base : Nat} {s s' : PassState C}
  {new : List Entry}

theorem runScript {n : Nat} {script : Script n} (hpasses : r.PassesOn ambient → script.PassesOn)
    (hspares : CodeSpares r ambient → script.Spares r.Declares base) {pending : List (BatchRequest C)}
    (hlength : pending.length = n) (hpending : ∀ q ∈ pending, ∃ p, (Request.batch p q).Posted r s.entries)
    (h : Accounted r ambient base s) :
    After (runScript (r.setting source ambient) script pending hlength) s
      (either (fun _ s' => Accounted r ambient base s') fun _ _ => True) := by
  have hposted : ∀ {pending : List (BatchRequest C)} {s s' : PassState C}, s.entries ⊆ s'.entries →
      (∀ q ∈ pending, ∃ p, (Request.batch p q).Posted r s.entries) →
      ∀ q ∈ pending, ∃ p, (Request.batch p q).Posted r s'.entries :=
    fun hle hpending q hq => (hpending q hq).imp fun _ hq => hq.mono hle
  induction script generalizing pending s with
  | finish => exact h
  | fail e => trivial
  | inspect next ih =>
    refine bind (PassM.aside_perform _) (h.perform fun _ heap => .refl _ _ heap) fun heap s' hs' hle => ?_
    exact ih heap (fun hall => hpasses hall heap) (fun hcode => hspares hcode heap) hlength (hposted hle hpending) hs'
  | set o field v next ih =>
    have hset : After (PassM.perform (.setField o field v)) s fun _ s' => Accounted r ambient base s' :=
      h.since_notes [] (.of_spares (Nat.le_of_eq (Heap.size_set s.heap o field v).symm)
        (List.append_nil _).symm fun hcode => .set s.heap (hspares hcode).1 v)
    refine bind (PassM.aside_perform _) hset fun _ s' hs' hle => ?_
    exact ih hpasses (fun hcode => (hspares hcode).2) hlength (hposted hle hpending) hs'
  | create typeName fields next ih =>
    unfold EntityMapping.runScript
    rw [After.bind_iff, PassM.perform_iff]
    have hcreated : Accounted r ambient base { s with
        heap := (s.heap.create typeName fields).2
        journal := s.journal.addNotes [] } :=
      h.since_notes [] (.of_spares (by simp [Heap.size_create]) (List.append_nil _).symm
        fun _ => .create s.heap h.le typeName fields)
    have hnew : base ≤ (⟨s.heap.size, typeName⟩ : ObjectRef).id := h.le
    exact ih _ (fun hall => hpasses hall _) (fun hcode => hspares hcode _ hnew) hlength hpending hcreated
  | note entry next ih =>
    have hnoted : After (PassM.record (.note entry)) s fun _ s' => Accounted r ambient base s' :=
      (Since.record _).mono fun _ _ hsince => h.since_notes [entry] hsince
    refine bind (PassM.aside_record _) hnoted fun _ s' hs' hle => ?_
    exact ih hpasses hspares hlength (hposted hle hpending) hs'
  | apply i v next ih =>
    unfold EntityMapping.runScript
    dsimp only
    rw [After.bind_iff, PassM.attempt_iff]
    obtain ⟨p, hq⟩ := hpending _ (List.getElem_mem (i.isLt.trans_eq hlength.symm))
    apply ((aside_deliver _ _ _ _ s).and (h.deliver hq v)).mono
    rintro (e | _) s' ⟨haside, hs'⟩
    · by_cases hall : r.PassesOn ambient
      -- The script fails too, and nothing is claimed of what it does.
      · exact (after_runScript_of_fails _ ((hpasses hall).2 e) _ _ s').imp (fun _ _ h => h.elim) fun _ _ _ => trivial
      · refine ih (.error e) (fun h => absurd h hall) (fun hcode => hspares hcode _) _
          (hposted haside.entries fun q hq => ?_) (hs' hall ⟨p.id, rfl⟩)
        exact hpending q (List.mem_of_mem_eraseIdx hq)
    · refine ih (.ok ()) (fun hall => (hpasses hall).1) (fun hcode => hspares hcode _) _
        (hposted haside.entries fun q hq => ?_) hs'
      exact hpending q (List.mem_of_mem_eraseIdx hq)

/-! ## The steps of a pass -/

theorem allocated (h : Accounted r ambient s.heap.size s) {a : Registration C} {key : Option Key} {o : ObjectRef}
    (hmade : Allocated r a key a.plan.defaults s o s') : Accounted r ambient s'.heap.size s' := by
  have hsize := hmade.size_eq
  obtain ⟨hobject, hheap, hentries, -⟩ := hmade
  have hsince : Since r ambient s.heap.size s s' [.allocated a.mapper.key key o] :=
    .of_spares (by omega) hentries fun _ => hheap ▸ .create s.heap (Nat.le_refl _) _ _
  refine ⟨Nat.le_refl _, fun mapper key' p hp => ?_, fun _ _ _ _ => h.takes_of_append hsince (by simp),
    fun _ _ _ _ => h.runs_of_append hsince (by simp)⟩
  rw [hentries] at hp
  rcases List.mem_append.mp hp with hp | hp
  · exact Nat.lt_of_lt_of_le (h.lt _ _ _ hp) hsince.size
  · obtain ⟨-, -, rfl⟩ := Entry.allocated.inj (List.mem_singleton.mp hp)
    rw [hobject, hsize]
    exact Nat.lt_succ_self _

theorem assign (h : Accounted r ambient base s) {a : Registration C} (ha : a ∈ r.registrations) {i : Item C}
    (hi : i ∈ a.mapper.items) (o : ObjectRef) (v : Value) :
    After (PassM.assign (r.setting source ambient) (.ofItem i) v o) s
      (either (fun _ s' => Accounted r ambient base s') fun _ _ => True) := by
  apply (PassM.after_assign _ _ _ _ _).imp
  · rintro - s' ⟨w, heap, notes, htransposed, -, hheap, hentries⟩
    obtain ⟨hsize, hspares⟩ := spares_of_transpose ha hi h.le htransposed
    exact h.since (.of_set hsize hheap hentries (by simp) hspares) (by simp) (by simp) (by simp)
  · exact fun _ _ _ => trivial

/-- A hook is noted, and run. -/
theorem runHook (h : Accounted r ambient base s) {pending : PendingHook C} (hpending : pending.Posted r s.entries) :
    After (runHook (r.setting source ambient) pending) s
      (either (fun _ s' => Accounted r ambient base s') fun _ _ => True) := by
  obtain ⟨a, ha, ho, hplace⟩ := hpending
  unfold EntityMapping.runHook
  rw [After.bind_iff, PassM.record_iff, either_ok, PassM.perform_iff]
  have hsize := ((pending.hook pending.object ambient).extends_run s.heap).size
  have hspares := fun hcode : CodeSpares r ambient => (hcode.hook a.mapper (List.mem_map_of_mem ha) _
    (List.mem_of_getElem? hplace) pending.object s.heap).mono h.le
  change either _ _ ((pending.hook pending.object ambient).run s.heap).result
    { s with
      heap := ((pending.hook pending.object ambient).run s.heap).heap
      journal := (s.journal.add (.hooked pending.object pending.place)).addNotes
        ((pending.hook pending.object ambient).run s.heap).notes }
  generalize hran : (pending.hook pending.object ambient).run s.heap = outcome at hsize hspares
  obtain ⟨_ | _, heap, notes⟩ := outcome
  · trivial
  have hsince : Since r ambient base s { s with
      heap, journal := (s.journal.add (.hooked pending.object pending.place)).addNotes notes }
      (.hooked pending.object pending.place :: notes.map .note) := by
    refine .of_spares hsize ?_ hspares
    change (Journal.addNotes _ _).toList = _
    rw [Journal.toList_addNotes, Journal.toList_add, List.append_assoc]
    rfl
  refine ⟨Nat.le_trans h.le hsize, fun _ _ _ => h.lt_of_append hsince (by simp),
    fun _ _ _ _ => h.takes_of_append hsince (by simp), fun front o place rest hsplit => ?_⟩
  rw [hsince.entries] at hsplit
  rcases eq_or_exists_of_append_eq hsplit (by simp) with ⟨rfl, hlast, rfl⟩ | ⟨rest', hbefore, rfl⟩
  · obtain ⟨rfl, rfl⟩ := Entry.hooked.inj hlast
    exact ⟨a, ha, ho, _, hplace, s.heap, heap, notes, [], hran, (List.append_nil _).symm⟩
  · exact (h.runs front o place rest' hbefore).append _

theorem upholding (r : Registry C) (source : DataSource) (ambient : C) :
    Upholding r source ambient fun s => Accounted r ambient s.heap.size s where
  still s s' hstill h := by
    obtain ⟨new, hentries, hnew⟩ := hstill.entries
    rw [hstill.heap]
    refine h.since (.of_spares (Nat.le_of_eq (congrArg Heap.size hstill.heap.symm)) hentries ?_)
      (fun _ _ _ hmem => hnew _ hmem) (fun _ _ hmem => hnew _ hmem) fun _ _ hmem => hnew _ hmem
    exact fun _ => hstill.heap ▸ .refl _ _ _
  allocate a ha key o s s' hmade _ h := h.allocated hmade
  assign a ha i hi o s h _ v := (h.assign ha hi o v).imp (fun _ _ hs' => hs'.grow) fun _ _ _ => trivial
  enqueue request s _ h :=
    h.since (.of_spares (Nat.le_refl _) (PassM.entries_queueing request s) fun _ => .refl _ _ _)
      (by simp) (by simp) (by simp)
  deliver q s hq h v := (h.deliver hq v).imp (fun _ _ hs' => hs'.grow) fun _ _ _ => trivial
  script a ha i hi p hp requests s hrequests h := by
    have hmem := List.mem_map_of_mem (f := Registration.mapper) ha
    refine (h.runScript (fun hall => hall a.mapper hmem i hi p hp _) (fun hcode => ?_) (by simp) hrequests).imp
      (fun _ _ hs' => hs'.grow) fun _ _ _ => trivial
    exact hcode.processor a.mapper hmem i hi p hp _ _
  hook pending s hpending h := (h.runHook hpending).imp (fun _ _ hs' => hs'.grow) fun _ _ _ => trivial

end Accounted

end EntityMapping
