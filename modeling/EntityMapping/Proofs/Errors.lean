import EntityMapping.Error

/-! # Kinds of errors

Some errors blame the engine itself: a mapper that is missing or not committed, a fetcher that nobody made, a
slot that is not there or of another kind. Other errors are told with the error that caused them.
-/

namespace EntityMapping

namespace Error

/-- The error blames the engine. -/
def isFault : Error → Bool
  | .notCommitted _ | .fetcherMissing _ | .mapperNotFound _ => true
  | .projection _ reason =>
    reason = "transient has no slot for this item" ∨ reason = "expected an embedded slot" ∨
      reason = "expected a sequence slot"
  | _ => false

/-- The error names an entity or a relation that is not known. -/
def isMissing : Error → Bool
  | .unknownEntity _ | .relationNotFound _ _ => true
  | _ => false

/-- The error tells that an item found no row, or that a processor left something undone. -/
def isUnmet : Error → Bool
  | .projection _ _ | .batchIncomplete _ _ _ => true
  | _ => false

/-- The error that another error is told with. -/
def cause? : Error → Option Error
  | .transpose _ _ _ _ cause => some cause
  | .query _ cause => some cause
  | _ => none

theorem innermost_of_cause? {e cause : Error} (h : e.cause? = some cause) :
    e.innermost = cause.innermost := by
  cases e with
  | transpose | query =>
    obtain rfl := Option.some.inj h
    rfl
  | _ => cases h

theorem innermost_of_cause?_eq_none {e : Error} (h : e.cause? = none) : e.innermost = e := by
  cases e with
  | transpose | query => cases h
  | _ => rfl

theorem innermost_induct {P : Error → Prop} {e : Error} (h : P e)
    (hcause : ∀ cause, e.cause? = some cause → P cause.innermost) : P e.innermost := by
  cases heq : e.cause? with
  | none => rwa [innermost_of_cause?_eq_none heq]
  | some cause => rw [innermost_of_cause? heq]; exact hcause cause heq

end Error

/-- The errors of a kind are all that are no faults and are not told with an error of another kind. -/
def Tolerant (P : Error → Prop) : Prop :=
  ∀ e : Error, e.isFault = false → (∀ cause, e.cause? = some cause → P cause) → P e

/-- The same of a kind that need not have the errors about what is not known. -/
def Lenient (P : Error → Prop) : Prop :=
  ∀ e : Error, e.isFault = false → e.isMissing = false → (∀ cause, e.cause? = some cause → P cause) → P e

/-- The same of a kind that need not have the errors about rows that are not there and work that is left, either. -/
def Mild (P : Error → Prop) : Prop :=
  ∀ e : Error, e.isFault = false → e.isMissing = false → e.isUnmet = false →
    (∀ cause, e.cause? = some cause → P cause) → P e

theorem Lenient.mild {P : Error → Prop} (h : Lenient P) : Mild P := fun e hfault hmissing _ => h e hfault hmissing

theorem Tolerant.lenient {P : Error → Prop} (h : Tolerant P) : Lenient P := fun e hfault _ => h e hfault

theorem tolerant_isFault : Tolerant fun e => e.isFault = false := fun _ h _ => h

theorem tolerant_innermost : Tolerant fun e => e.innermost.isFault = false :=
  fun _ h hcause => Error.innermost_induct (P := fun e => e.isFault = false) h hcause

theorem isFault_projection_found (item : String) {start : String} (found : String)
    (h : start = "expected a row, found " ∨ start = "expected a row element, found " ∨
      start = "expected a list of rows, found ") :
    (Error.projection item (start ++ found)).isFault = false := by
  have hne : ∀ text : String, (start.toList.isPrefixOf text.toList) = false → start ++ found ≠ text := by
    rintro text htext rfl
    rw [String.toList_append, List.isPrefixOf_iff_prefix.mpr (List.prefix_append _ _)] at htext
    cases htext
  unfold Error.isFault
  simp only [decide_eq_false_iff_not, not_or]
  rcases h with rfl | rfl | rfl <;>
    exact ⟨hne _ (by decide), hne _ (by decide), hne _ (by decide)⟩

end EntityMapping
