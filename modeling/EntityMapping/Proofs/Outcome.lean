import EntityMapping.Error
import Mathlib.Data.List.Forall2

/-! # Outcomes

Work that may fail gives a value or an error, and work on a state also leaves a state behind, whether
it failed or not. The rules here take such work apart step by step.
-/

namespace EntityMapping

variable {ε σ α β : Type}

/-! ## Results -/

theorem bind_eq_ok {x : Except ε α} {f : α → Except ε β} {b : β} :
    (x >>= f) = .ok b ↔ ∃ a, x = .ok a ∧ f a = .ok b := by
  cases x with
  | error e => simp [bind, Except.bind]
  | ok a => simp [bind, Except.bind]

theorem bind_eq_error {x : Except ε α} {f : α → Except ε β} {e : ε} :
    (x >>= f) = .error e ↔ x = .error e ∨ ∃ a, x = .ok a ∧ f a = .error e := by
  cases x with
  | error e => simp [bind, Except.bind]
  | ok a => simp [bind, Except.bind]

theorem map_eq_ok {x : Except ε α} {f : α → β} {b : β} :
    x.map f = .ok b ↔ ∃ a, x = .ok a ∧ f a = b := by
  cases x with
  | error e => simp [Except.map]
  | ok a => simp [Except.map]

theorem map_eq_error {x : Except ε α} {f : α → β} {e : ε} :
    x.map f = .error e ↔ x = .error e := by
  cases x with
  | error e => simp [Except.map]
  | ok a => simp [Except.map]

theorem exists_ok_of_any {x : Except ε α} {p : α → Bool} (h : x.toOption.any p = true) :
    ∃ a, x = .ok a ∧ p a = true := by
  cases x with
  | error e => cases h
  | ok a => exact ⟨a, rfl, h⟩

theorem exists_error_of_isNone {x : Except ε α} (h : x.toOption.isNone = true) : ∃ e, x = .error e := by
  cases x with
  | error e => exact ⟨e, rfl⟩
  | ok a => cases h

theorem mapM_eq_ok {f : α → Except ε β} {l : List α} {bs : List β} :
    l.mapM f = .ok bs ↔ List.Forall₂ (fun a b => f a = .ok b) l bs := by
  induction l generalizing bs with
  | nil =>
    rw [List.mapM_nil, List.forall₂_nil_left_iff]
    exact ⟨fun h => (Except.ok.inj h).symm, fun h => by rw [h]; rfl⟩
  | cons a l ih =>
    rw [List.mapM_cons, bind_eq_ok, List.forall₂_cons_left_iff]
    constructor
    · rintro ⟨b, hb, h⟩
      obtain ⟨rest, hrest, h⟩ := bind_eq_ok.mp h
      exact ⟨b, rest, hb, ih.mp hrest, (Except.ok.inj h).symm⟩
    · rintro ⟨b, rest, hb, hrest, rfl⟩
      exact ⟨b, hb, bind_eq_ok.mpr ⟨rest, ih.mpr hrest, rfl⟩⟩

theorem mapM_eq_some {f : α → Option β} {l : List α} {bs : List β} :
    l.mapM f = some bs ↔ List.Forall₂ (fun a b => f a = some b) l bs := by
  induction l generalizing bs with
  | nil =>
    rw [List.mapM_nil, List.forall₂_nil_left_iff]
    exact ⟨fun h => (Option.some.inj h).symm, fun h => by rw [h]; rfl⟩
  | cons a l ih =>
    rw [List.mapM_cons, List.forall₂_cons_left_iff]
    constructor
    · intro h
      obtain ⟨b, hb, h⟩ := Option.bind_eq_some_iff.mp h
      obtain ⟨rest, hrest, h⟩ := Option.bind_eq_some_iff.mp h
      exact ⟨b, rest, hb, ih.mp hrest, (Option.some.inj h).symm⟩
    · rintro ⟨b, rest, hb, hrest, rfl⟩
      rw [hb, ih.mpr hrest]
      rfl

theorem map_eq_map_of_forall₂ {γ : Type} {f : α → γ} {g : β → γ} {l : List α} {l' : List β}
    (h : List.Forall₂ (fun a b => f a = g b) l l') : l.map f = l'.map g := by
  induction h with
  | nil => rfl
  | cons heq _ ih => rw [List.map_cons, List.map_cons, heq, ih]

theorem mapM_eq_mapM_of_forall₂ {γ : Type} {f : α → Except ε γ} {g : β → Except ε γ} {l : List α} {l' : List β}
    (h : List.Forall₂ (fun a b => f a = g b) l l') : l.mapM f = l'.mapM g := by
  induction h with
  | nil => rfl
  | cons hab _ ih => rw [List.mapM_cons, List.mapM_cons, hab, ih]

theorem mapM_filter_eq_ok {f : α → Except ε β} {p : α → Bool} {p' : β → Bool} {l : List α} {l' : List β}
    (h : List.Forall₂ (fun a b => p a = p' b ∧ f a = .ok b) l l') :
    (l.filter p).mapM f = .ok (l'.filter p') := by
  induction h with
  | nil => rfl
  | @cons a b l l' hab _ ih =>
    obtain ⟨hp, hf⟩ := hab
    rw [List.filter_cons, List.filter_cons, hp]
    split
    · rw [List.mapM_cons, hf, ih]
      rfl
    · exact ih

theorem exists_of_forall₂_left {R : α → β → Prop} {l : List α} {l' : List β}
    (h : List.Forall₂ R l l') {a : α} (ha : a ∈ l) : ∃ b ∈ l', R a b := by
  induction h with
  | nil => simp at ha
  | @cons a' b l l' hab _ ih =>
    rcases List.mem_cons.mp ha with rfl | ha
    · exact ⟨b, by simp, hab⟩
    · obtain ⟨b', hb', hR⟩ := ih ha
      exact ⟨b', List.mem_cons_of_mem _ hb', hR⟩

theorem exists_of_forall₂_right {R : α → β → Prop} {l : List α} {l' : List β}
    (h : List.Forall₂ R l l') {b : β} (hb : b ∈ l') : ∃ a ∈ l, R a b :=
  exists_of_forall₂_left h.flip hb

theorem exists_forall₂ {R : α → β → Prop} {l : List α} (h : ∀ a ∈ l, ∃ b, R a b) :
    ∃ l', List.Forall₂ R l l' := by
  induction l with
  | nil => exact ⟨[], .nil⟩
  | cons a l ih =>
    obtain ⟨b, hb⟩ := h a (by simp)
    obtain ⟨l', hl'⟩ := ih fun a ha => h a (List.mem_cons_of_mem _ ha)
    exact ⟨b :: l', .cons hb hl'⟩

theorem foldlM_induct {f : β → α → Except ε β} {l : List α} (P : List α → β → Prop)
    (step : ∀ front a b b', P front b → f b a = .ok b' → P (front ++ [a]) b') {b b' : β}
    (hb : P [] b) (h : l.foldlM f b = .ok b') : P l b' := by
  suffices hall : ∀ (rest front : List α) (b : β), P front b → rest.foldlM f b = .ok b' →
      P (front ++ rest) b' from hall l [] b hb h
  intro rest
  induction rest with
  | nil =>
    intro front b hb h
    rw [List.append_nil]
    exact Except.ok.inj h ▸ hb
  | cons a rest ih =>
    intro front b hb h
    rw [List.foldlM_cons] at h
    obtain ⟨b₁, hb₁, h⟩ := bind_eq_ok.mp h
    have hnext := ih (front ++ [a]) b₁ (step front a b b₁ hb hb₁) h
    rwa [List.append_assoc, List.singleton_append] at hnext

theorem foldlM_congr {f g : β → α → Except ε β} {l : List α} (h : ∀ a ∈ l, ∀ b, f b a = g b a) (b : β) :
    l.foldlM f b = l.foldlM g b := by
  induction l generalizing b with
  | nil => rfl
  | cons a l ih =>
    rw [List.foldlM_cons, List.foldlM_cons, h a (by simp)]
    exact congrArg _ (funext fun b' => ih (fun a ha => h a (List.mem_cons_of_mem _ ha)) b')

/-- A loop that fails was fine up to one of its steps. -/
theorem foldlM_eq_error {f : β → α → Except ε β} {l : List α} {b : β} {e : ε}
    (h : l.foldlM f b = .error e) :
    ∃ front a back b', l = front ++ a :: back ∧ front.foldlM f b = .ok b' ∧ f b' a = .error e := by
  induction l generalizing b with
  | nil => exact absurd h (by simp [pure, Except.pure])
  | cons a l ih =>
    rw [List.foldlM_cons] at h
    rcases bind_eq_error.mp h with h | ⟨b₁, hb₁, h⟩
    · exact ⟨[], a, l, b, rfl, rfl, h⟩
    · obtain ⟨front, a', back, b', rfl, hfront, hlast⟩ := ih h
      exact ⟨a :: front, a', back, b', rfl, by rw [List.foldlM_cons, hb₁]; exact hfront, hlast⟩

/-! ## Errors of one kind -/

/-- If there is an error, it is one of these. -/
def FailsOnly (P : ε → Prop) (x : Except ε α) : Prop := ∀ e, x = .error e → P e

namespace FailsOnly

variable {P : ε → Prop}

@[simp] theorem ok (a : α) : FailsOnly P (.ok a) := fun _ h => absurd h (by simp)

@[simp] theorem error (e : ε) : FailsOnly P (.error e : Except ε α) ↔ P e := by
  simp [FailsOnly]

theorem mono {P' : ε → Prop} {x : Except ε α} (hx : FailsOnly P x) (h : ∀ e, P e → P' e) :
    FailsOnly P' x := fun e he => h e (hx e he)

theorem bind {x : Except ε α} {f : α → Except ε β} (hx : FailsOnly P x)
    (hf : ∀ a, x = .ok a → FailsOnly P (f a)) : FailsOnly P (x >>= f) := by
  intro e h
  rcases bind_eq_error.mp h with h | ⟨a, ha, h⟩
  · exact hx e h
  · exact hf a ha e h

theorem map {x : Except ε α} {f : α → β} (hx : FailsOnly P x) : FailsOnly P (x.map f) :=
  fun e h => hx e (map_eq_error.mp h)

theorem mapM {f : α → Except ε β} {l : List α} (h : ∀ a ∈ l, FailsOnly P (f a)) :
    FailsOnly P (l.mapM f) := by
  induction l with
  | nil => exact ok []
  | cons a l ih =>
    rw [List.mapM_cons]
    refine bind (h a (by simp)) fun b _ => ?_
    exact bind (ih fun a ha => h a (List.mem_cons_of_mem _ ha)) fun _ _ => ok _

theorem foldlM {f : β → α → Except ε β} {l : List α} (b : β)
    (h : ∀ a ∈ l, ∀ b, FailsOnly P (f b a)) : FailsOnly P (l.foldlM f b) := by
  induction l generalizing b with
  | nil => exact ok b
  | cons a l ih =>
    rw [List.foldlM_cons]
    exact bind (h a (by simp) b) fun b' _ => ih b' fun a ha => h a (List.mem_cons_of_mem _ ha)

end FailsOnly

/-! ## Work on a state -/

/-- What holds of the result and the state after some work that begins in `s`. -/
def After (x : ExceptT ε (StateM σ) α) (s : σ) (Q : Except ε α → σ → Prop) : Prop :=
  Q (x.run.run s).1 (x.run.run s).2

/-- What is said of the value and the state if there is a value, and of the state alone if there is an
error. -/
def either (P : α → σ → Prop) (E : ε → σ → Prop) : Except ε α → σ → Prop
  | .ok a, s => P a s
  | .error e, s => E e s

@[simp] theorem either_ok (P : α → σ → Prop) (E : ε → σ → Prop) (a : α) (s : σ) :
    either P E (.ok a) s ↔ P a s := Iff.rfl

@[simp] theorem either_error (P : α → σ → Prop) (E : ε → σ → Prop) (e : ε) (s : σ) :
    either P E (.error e) s ↔ E e s := Iff.rfl

namespace After

variable {s : σ} {x : ExceptT ε (StateM σ) α} {P : α → σ → Prop} {E : ε → σ → Prop}
  {Q Q' : Except ε α → σ → Prop}

theorem mono (h : After x s Q) (himp : ∀ r s', Q r s' → Q' r s') : After x s Q' := himp _ _ h

theorem imp {P' : α → σ → Prop} {E' : ε → σ → Prop} (h : After x s (either P E))
    (hok : ∀ a s', P a s' → P' a s') (herr : ∀ e s', E e s' → E' e s') :
    After x s (either P' E') := by
  apply h.mono
  rintro (e | a) s'
  · exact herr e s'
  · exact hok a s'

theorem and (h : After x s Q) (h' : After x s Q') : After x s fun r s' => Q r s' ∧ Q' r s' := ⟨h, h'⟩

/-- The run itself may be kept along with what holds after it. -/
theorem keep (h : After x s Q) : After x s fun r s' => x.run.run s = (r, s') ∧ Q r s' := ⟨rfl, h⟩

theorem exists_ok {P : α → σ → Prop} (h : After x s (either P fun _ _ => False)) :
    ∃ a, (x.run.run s).1 = .ok a ∧ P a (x.run.run s).2 := by
  unfold After at h
  cases hresult : (x.run.run s).1 with
  | error e =>
    rw [hresult] at h
    exact h.elim
  | ok a =>
    rw [hresult] at h
    exact ⟨a, rfl, h⟩

/-! ### Single steps -/

@[simp] theorem pure_iff {a : α} : After (pure a : ExceptT ε (StateM σ) α) s Q ↔ Q (.ok a) s :=
  Iff.rfl

@[simp] theorem throw_iff {e : ε} :
    After (throw e : ExceptT ε (StateM σ) α) s Q ↔ Q (.error e) s := Iff.rfl

@[simp] theorem ofExcept_iff {r : Except ε α} :
    After (ofExcept r : ExceptT ε (StateM σ) α) s Q ↔ Q r s := by
  cases r <;> exact Iff.rfl

@[simp] theorem get_iff {Q : Except ε σ → σ → Prop} :
    After (get : ExceptT ε (StateM σ) σ) s Q ↔ Q (.ok s) s := Iff.rfl

@[simp] theorem set_iff {s' : σ} {Q : Except ε PUnit → σ → Prop} :
    After (set s' : ExceptT ε (StateM σ) PUnit) s Q ↔ Q (.ok ()) s' := Iff.rfl

@[simp] theorem modify_iff {f : σ → σ} {Q : Except ε PUnit → σ → Prop} :
    After (modify f : ExceptT ε (StateM σ) PUnit) s Q ↔ Q (.ok ()) (f s) := Iff.rfl

theorem run_bind (x : ExceptT ε (StateM σ) α) (f : α → ExceptT ε (StateM σ) β) (s : σ) :
    (x >>= f).run.run s =
      match x.run.run s with
      | (.ok a, s') => (f a).run.run s'
      | (.error e, s') => (.error e, s') := by
  rw [ExceptT.run_bind]
  simp only [StateT.run_bind]
  split <;> simp_all <;> rfl

theorem bind_iff {f : α → ExceptT ε (StateM σ) β} {Q : Except ε β → σ → Prop} :
    After (x >>= f) s Q ↔
      After x s (either (fun a s' => After (f a) s' Q) fun e s' => Q (.error e) s') := by
  unfold After
  rw [run_bind]
  split <;> simp_all

theorem bind {f : α → ExceptT ε (StateM σ) β} {Q : Except ε β → σ → Prop}
    (hx : After x s (either P E)) (hf : ∀ a s', P a s' → After (f a) s' Q)
    (he : ∀ e s', E e s' → Q (.error e) s') : After (x >>= f) s Q :=
  bind_iff.mpr (hx.imp hf he)

/-- Nothing needs to be known of a first step, if what follows holds whatever it gives. -/
theorem bind_any {f : α → ExceptT ε (StateM σ) β} {Q : Except ε β → σ → Prop}
    (hf : ∀ a s', After (f a) s' Q) (he : ∀ e s', Q (.error e) s') : After (x >>= f) s Q := by
  rw [bind_iff]
  unfold After
  cases (x.run.run s).1 with
  | ok a => exact hf a _
  | error e => exact he e _

theorem ofExcept_bind {r : Except ε α} {f : α → ExceptT ε (StateM σ) β}
    {Q : Except ε β → σ → Prop} (hok : ∀ a, r = .ok a → After (f a) s Q)
    (herr : ∀ e, r = .error e → Q (.error e) s) : After (ofExcept r >>= f) s Q := by
  rw [bind_iff, ofExcept_iff]
  cases r with
  | ok a => exact hok a rfl
  | error e => exact herr e rfl

theorem ok_bind {a : α} {f : α → ExceptT ε (StateM σ) β} {Q : Except ε β → σ → Prop}
    (h : After (f a) s Q) : After (ofExcept (.ok a) >>= f) s Q := h

theorem map_iff {f : α → β} {Q : Except ε β → σ → Prop} :
    After (f <$> x) s Q ↔ After x s fun r s' => Q (r.map f) s' := by
  unfold After
  rw [ExceptT.run_map, StateT.run_map]
  rfl

theorem adapt_iff {f : ε → ε} :
    After (ExceptT.adapt f x) s Q ↔ After x s fun r s' => Q (r.mapError f) s' := by
  unfold After
  rw [ExceptT.run_adapt, StateT.run_map]
  rfl

/-! ### Loops -/

/-- Before each step of a loop, the invariant holds of what is left. -/
theorem forM {f : α → ExceptT ε (StateM σ) PUnit} (I : List α → σ → Prop) (l : List α)
    (step : ∀ a rest s, a ∈ l → I (a :: rest) s →
      After (f a) s (either (fun _ s' => I rest s') E)) (h : I l s) :
    After (l.forM f) s (either (fun _ s' => I [] s') E) := by
  induction l generalizing s with
  | nil => exact h
  | cons a l ih =>
    change After (f a >>= fun _ => l.forM f) s _
    refine bind (step a l s (by simp) h) (fun _ s' hs' => ?_) fun _ _ he => he
    exact ih (fun b rest s hb => step b rest s (List.mem_cons_of_mem _ hb)) hs'

theorem foldlM {f : β → α → ExceptT ε (StateM σ) β} (I : List α → β → σ → Prop) (l : List α) {b : β}
    (step : ∀ a rest b s, a ∈ l → I (a :: rest) b s →
      After (f b a) s (either (fun b' s' => I rest b' s') E)) (h : I l b s) :
    After (l.foldlM f b) s (either (fun b' s' => I [] b' s') E) := by
  induction l generalizing s b with
  | nil => exact h
  | cons a l ih =>
    rw [List.foldlM_cons]
    refine bind (step a l b s (by simp) h) (fun b' s' hs' => ?_) fun _ _ he => he
    exact ih (fun c rest b s hc => step c rest b s (List.mem_cons_of_mem _ hc)) hs'

/-! ### Runs that give a value -/

theorem run_bind_eq_ok {f : α → ExceptT ε (StateM σ) β} {b : β} {s' : σ} :
    (x >>= f).run.run s = (.ok b, s') ↔
      ∃ a s₁, x.run.run s = (.ok a, s₁) ∧ (f a).run.run s₁ = (.ok b, s') := by
  rw [run_bind]
  constructor
  · intro h
    split at h
    · exact ⟨_, _, ‹_›, h⟩
    · cases h
  · rintro ⟨a, s₁, hx, hf⟩
    rw [hx]
    exact hf

theorem run_ofExcept_eq_ok {r : Except ε α} {a : α} {s' : σ} :
    (ofExcept r : ExceptT ε (StateM σ) α).run.run s = (.ok a, s') ↔ r = .ok a ∧ s = s' := by
  have hrun : (ofExcept r : ExceptT ε (StateM σ) α).run.run s = (r, s) := by cases r <;> rfl
  rw [hrun, Prod.mk.injEq]

theorem of_run {Q : Except ε α → σ → Prop} (h : After x s Q) {r : Except ε α} {s' : σ}
    (hrun : x.run.run s = (r, s')) : Q r s' := by
  unfold After at h
  rwa [hrun] at h

theorem run_map_eq_ok {f : α → β} {b : β} {s' : σ} :
    (f <$> x).run.run s = (.ok b, s') ↔ ∃ a, x.run.run s = (.ok a, s') ∧ f a = b := by
  rw [map_eq_pure_bind, run_bind_eq_ok]
  constructor
  · rintro ⟨a, s₁, hx, h⟩
    obtain ⟨heq, rfl⟩ := Prod.mk.inj h
    exact ⟨a, hx, Except.ok.inj heq⟩
  · rintro ⟨a, hx, rfl⟩
    exact ⟨a, s', hx, rfl⟩

theorem run_adapt_eq_ok {f : ε → ε} {a : α} {s' : σ} :
    (ExceptT.adapt f x).run.run s = (.ok a, s') ↔ x.run.run s = (.ok a, s') := by
  rw [ExceptT.run_adapt, StateT.run_map]
  rcases x.run.run s with ⟨_ | b, s₁⟩
  · constructor <;> rintro ⟨⟩
  · exact Iff.rfl

theorem length_of_run_mapM {f : α → ExceptT ε (StateM σ) β} {l : List α} {bs : List β} {s' : σ}
    (h : (l.mapM f).run.run s = (.ok bs, s')) : bs.length = l.length := by
  induction l generalizing s bs with
  | nil =>
    rw [List.mapM_nil] at h
    exact congrArg List.length (Except.ok.inj (Prod.mk.inj h).1).symm
  | cons a l ih =>
    rw [List.mapM_cons] at h
    obtain ⟨b, s₁, -, h⟩ := run_bind_eq_ok.mp h
    obtain ⟨rest, s₂, hrest, h⟩ := run_bind_eq_ok.mp h
    obtain ⟨hbs, rfl⟩ := Prod.mk.inj h
    obtain rfl := Except.ok.inj hbs
    rw [List.length_cons, List.length_cons, ih hrest]

theorem run_forM_cons_eq_ok {f : α → ExceptT ε (StateM σ) PUnit} {a : α} {l : List α} {s' : σ} :
    ((a :: l).forM f).run.run s = (.ok (), s') ↔
      ∃ s₁, (f a).run.run s = (.ok (), s₁) ∧ (l.forM f).run.run s₁ = (.ok (), s') := by
  change (f a >>= fun _ => l.forM f).run.run s = _ ↔ _
  rw [run_bind_eq_ok]
  exact ⟨fun ⟨_, s₁, h⟩ => ⟨s₁, h⟩, fun ⟨s₁, h⟩ => ⟨(), s₁, h⟩⟩

end After

/-! ## Moves -/

/-- Whatever the outcome, the state moves along a relation. -/
def Moves (R : σ → σ → Prop) (x : ExceptT ε (StateM σ) α) : Prop :=
  ∀ s, After x s fun _ s' => R s s'

namespace Moves

variable {R : σ → σ → Prop} {x : ExceptT ε (StateM σ) α}

theorem imp {R' : σ → σ → Prop} (h : Moves R x) (himp : ∀ s s', R s s' → R' s s') : Moves R' x :=
  fun s => himp _ _ (h s)

theorem bind [IsTrans σ R] {f : α → ExceptT ε (StateM σ) β} (hx : Moves R x)
    (hf : ∀ a, Moves R (f a)) : Moves R (x >>= f) := by
  intro s
  rw [After.bind_iff]
  apply (hx s).mono
  rintro (e | a) s' hs'
  · exact hs'
  · exact (hf a s').mono fun _ s'' hs'' => IsTrans.trans s s' s'' hs' hs''

variable [Std.Refl R]

theorem pure (a : α) : Moves R (pure a : ExceptT ε (StateM σ) α) := fun s => Std.Refl.refl s

theorem throw (e : ε) : Moves R (throw e : ExceptT ε (StateM σ) α) := fun s => Std.Refl.refl s

theorem ofExcept (r : Except ε α) : Moves R (ofExcept r : ExceptT ε (StateM σ) α) := by
  intro s
  rw [After.ofExcept_iff]
  exact Std.Refl.refl s

variable [IsTrans σ R]

theorem forM {f : α → ExceptT ε (StateM σ) PUnit} (l : List α) (h : ∀ a ∈ l, Moves R (f a)) :
    Moves R (l.forM f) := by
  induction l with
  | nil => exact Moves.pure _
  | cons a l ih =>
    exact bind (h a (by simp)) fun _ => ih fun b hb => h b (List.mem_cons_of_mem _ hb)

theorem mapM {f : α → ExceptT ε (StateM σ) β} (l : List α) (h : ∀ a ∈ l, Moves R (f a)) :
    Moves R (l.mapM f) := by
  induction l with
  | nil => exact Moves.pure _
  | cons a l ih =>
    rw [List.mapM_cons]
    refine bind (h a (by simp)) fun b => ?_
    exact bind (ih fun c hc => h c (List.mem_cons_of_mem _ hc)) fun _ => Moves.pure _

end Moves

end EntityMapping
