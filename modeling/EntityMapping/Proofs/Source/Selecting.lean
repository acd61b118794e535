import EntityMapping.Source.Select
import Mathlib.Data.List.Basic

/-! # Texts of select statements

Keys reach a statement by its parameters only. Outside of quoted names the text has a placeholder for every
parameter, and quoted names end where they seem to, whatever characters are in them. So the text tells which
table, which columns, which filter column and how many keys it was made for, and nothing else.
-/

namespace EntityMapping

/-- What of a filter is in the text of a statement: the column and the number of keys. Without keys it is only
that there is a filter. -/
def KeyFilter.outline (f : KeyFilter) : Option (String × Nat) :=
  if f.keys = [] then none else some (f.column, f.keys.length)

theorem KeyFilter.outline_congr {f f' : KeyFilter} (hcolumn : f.column = f'.column)
    (hlength : f.keys.length = f'.keys.length) : f.outline = f'.outline := by
  have hkeys : f.keys = [] ↔ f'.keys = [] := by
    rw [← List.length_eq_zero_iff, ← List.length_eq_zero_iff, hlength]
  simp only [outline, hkeys, hcolumn, hlength]

namespace Source

/-- The character that placeholders begin with. -/
def Dialect.mark : Dialect → Char
  | .sqlite => '?'
  | .postgres => '$'

theorem Dialect.mark_injective : Function.Injective Dialect.mark := by
  intro d d' h
  cases d <;> cases d' <;> first | rfl | exact absurd h (by decide)

namespace Statement

/-- The characters of a name as they stand between its quotes. -/
def doubled (name : List Char) : List Char := name.flatMap fun c => if c = '"' then ['"', '"'] else [c]

theorem doubled_cons_of_ne {c : Char} (h : c ≠ '"') (name : List Char) : doubled (c :: name) = c :: doubled name := by
  simp [doubled, h]

theorem doubled_quote (name : List Char) : doubled ('"' :: name) = '"' :: '"' :: doubled name := by
  simp [doubled]

theorem identifier_append (name : String) (rest : List Char) :
    identifier name ++ rest = '"' :: (doubled name.toList ++ '"' :: rest) := by
  simp [identifier, doubled]

/-! ## Placeholders -/

/-- The characters outside of quoted names. A quote that is written twice ends a name and begins it again at
once. -/
def unquoted (inside : Bool) : List Char → List Char
  | [] => []
  | c :: rest =>
    if c = '"' then unquoted (!inside) rest
    else if inside then unquoted inside rest
    else c :: unquoted inside rest

/-- The characters outside of quoted names that placeholders begin with. -/
def marks (text : List Char) : List Char := (unquoted false text).filter fun c => c = '?' || c = '$'

/-- Wherever the text stands outside of quoted names, it has these marks. -/
def Marked (text found : List Char) : Prop := ∀ rest, marks (text ++ rest) = found ++ marks rest

namespace Marked

variable {text text' found found' : List Char}

theorem marks_eq (h : Marked text found) : marks text = found := by
  simpa [marks, unquoted] using h []

theorem append (h : Marked text found) (h' : Marked text' found') :
    Marked (text ++ text') (found ++ found') := by
  intro rest
  rw [List.append_assoc, h, h', List.append_assoc]

theorem congr (h : Marked text found) (heq : found = found') : Marked text found' := heq ▸ h

theorem nil : Marked [] [] := fun _ => rfl

theorem of_unmarked (h : (text.all fun c => c ≠ '"' ∧ c ≠ '?' ∧ c ≠ '$') = true) : Marked text [] := by
  intro rest
  simp only [List.all_eq_true, decide_eq_true_eq] at h
  induction text with
  | nil => rfl
  | cons c text ih =>
    obtain ⟨⟨hquote, hquestion, hdollar⟩, htext⟩ := List.forall_mem_cons.mp h
    rw [List.cons_append, ← ih htext]
    simp [marks, unquoted, hquote, hquestion, hdollar]

theorem identifier (name : String) : Marked (Statement.identifier name) [] := by
  intro rest
  have hname : ∀ chars : List Char, unquoted true (doubled chars ++ '"' :: rest) = unquoted false rest := by
    intro chars
    induction chars with
    | nil => rfl
    | cons c chars ih =>
      by_cases hc : c = '"'
      · rw [hc, doubled_quote]
        exact ih
      · rw [doubled_cons_of_ne hc, List.cons_append, unquoted, if_neg hc, if_pos rfl, ih]
  rw [identifier_append, marks, unquoted, if_pos rfl, Bool.not_false, hname]
  rfl

theorem placeholder (d : Dialect) (place : Nat) : Marked (Statement.placeholder d place) [d.mark] := by
  cases d with
  | sqlite => exact fun rest => rfl
  | postgres =>
    have hdigits : Marked (Text.natDigits place) [] := by
      refine of_unmarked (List.all_eq_true.mpr fun c hc => decide_eq_true ?_)
      have hdigit := Nat.isDigit_of_mem_toDigits (by decide) (by decide) hc
      refine ⟨?_, ?_, ?_⟩ <;> rintro rfl <;> exact absurd hdigit (by decide)
    have hdollar : Marked ['$'] ['$'] := fun rest => rfl
    exact hdollar.append hdigits

theorem separated {α : Type} {write : α → List Char} {found : List Char} (h : ∀ a, Marked (write a) found)
    (as : List α) : Marked (Statement.separated (as.map write)) (as.flatMap fun _ => found) := by
  induction as with
  | nil => exact nil
  | cons a as ih =>
    cases as with
    | nil => simpa [Statement.separated] using h a
    | cons b as =>
      have hcomma : Marked [',', ' '] [] := of_unmarked (by decide)
      have hmarked := (h a).append (hcomma.append ih)
      simpa [Statement.separated] using hmarked

end Marked

example : marks (identifier "a\"?$1" ++ "?".toList) = ['?'] := by decide

/-- The text before the condition. -/
def lead (e : Entity) : List Char :=
  selectWord ++ separated (e.columns.map fun c => identifier c.name) ++ fromWord ++ identifier e.table

theorem marked_lead (e : Entity) : Marked (lead e) [] := by
  have hselect : Marked selectWord [] := .of_unmarked (by decide)
  have hcolumns := Marked.separated (fun c : Column => Marked.identifier c.name) e.columns
  have hfrom : Marked fromWord [] := .of_unmarked (by decide)
  exact (((hselect.append hcolumns).append hfrom).append (.identifier e.table)).congr (by simp)

theorem marked_condition (d : Dialect) (f : KeyFilter) :
    Marked (condition d f) (List.replicate (parameters f).length d.mark) := by
  unfold condition parameters
  split
  · have hequals : Marked equalsSign [] := .of_unmarked (by decide)
    exact ((Marked.placeholder d 1).append hequals).append (.placeholder d 2)
  · have hin : Marked inWord [] := .of_unmarked (by decide)
    have hplaces := Marked.separated (fun i => Marked.placeholder d (i + 1)) (List.range f.keys.length)
    have hclose : Marked [')'] [] := .of_unmarked (by decide)
    have hmarks : (List.range f.keys.length).flatMap (fun _ => [d.mark]) =
        List.replicate (f.keys.map Key.toSql).length d.mark := by
      rw [← List.map_eq_flatMap, List.map_const', List.length_range, List.length_map]
    exact ((((Marked.identifier f.column).append hin).append hplaces).append hclose).congr (by simp [hmarks])

/-! ## Names -/

theorem doubled_append_ne {c : Char} {name rest rest' : List Char} (hrest : rest.head? ≠ some '"') :
    '"' :: rest ≠ doubled (c :: name) ++ '"' :: rest' := by
  intro h
  by_cases hc : c = '"'
  · rw [hc, doubled_quote] at h
    exact hrest (congrArg List.head? (List.cons.inj h).2)
  · rw [doubled_cons_of_ne hc] at h
    exact hc (List.cons.inj h).1.symm

theorem doubled_append_inj {name name' rest rest' : List Char} (hrest : rest.head? ≠ some '"')
    (hrest' : rest'.head? ≠ some '"') (h : doubled name ++ '"' :: rest = doubled name' ++ '"' :: rest') :
    name = name' ∧ rest = rest' := by
  -- One name cannot end inside of the other: a quote in there is followed by a quote, the end of a name is not.
  induction name generalizing name' with
  | nil =>
    cases name' with
    | nil => exact ⟨rfl, (List.cons.inj h).2⟩
    | cons c' name' => exact absurd h (doubled_append_ne hrest)
  | cons c name ih =>
    cases name' with
    | nil => exact absurd h.symm (doubled_append_ne hrest')
    | cons c' name' =>
      by_cases hc : c = '"' <;> by_cases hc' : c' = '"'
      · rw [hc, hc', doubled_quote, doubled_quote] at h
        obtain ⟨rfl, hrest⟩ := ih (List.cons.inj (List.cons.inj h).2).2
        exact ⟨by rw [hc, hc'], hrest⟩
      · rw [hc, doubled_quote, doubled_cons_of_ne hc'] at h
        exact absurd (List.cons.inj h).1.symm hc'
      · rw [hc', doubled_quote, doubled_cons_of_ne hc] at h
        exact absurd (List.cons.inj h).1 hc
      · rw [doubled_cons_of_ne hc, doubled_cons_of_ne hc'] at h
        obtain ⟨rfl, htail⟩ := List.cons.inj h
        obtain ⟨rfl, hrest⟩ := ih htail
        exact ⟨rfl, hrest⟩

/-- A quoted name ends where no quote follows. -/
theorem identifier_append_inj {name name' : String} {rest rest' : List Char} (hrest : rest.head? ≠ some '"')
    (hrest' : rest'.head? ≠ some '"') (h : identifier name ++ rest = identifier name' ++ rest') :
    name = name' ∧ rest = rest' := by
  rw [identifier_append, identifier_append] at h
  obtain ⟨hname, hrest⟩ := doubled_append_inj hrest hrest' (List.cons.inj h).2
  exact ⟨String.toList_injective hname, hrest⟩

theorem separated_cons_append (name : String) (names : List String) (rest : List Char) :
    separated ((name :: names).map identifier) ++ ' ' :: rest = identifier name ++
      (if names = [] then [] else ',' :: ' ' :: separated (names.map identifier)) ++ ' ' :: rest := by
  cases names <;> simp [separated]

theorem separated_cons_append_ne (name : String) (names : List String) (rest rest' : List Char) :
    separated ((name :: names).map identifier) ++ ' ' :: rest ≠ ' ' :: rest' := by
  rw [separated_cons_append, List.append_assoc, identifier_append]
  exact fun h => absurd (List.cons.inj h).1 (by decide)

/-- Quoted names with commas between them end where a blank follows. -/
theorem separated_append_inj {names names' : List String} {rest rest' : List Char}
    (h : separated (names.map identifier) ++ ' ' :: rest = separated (names'.map identifier) ++ ' ' :: rest') :
    names = names' ∧ rest = rest' := by
  induction names generalizing names' with
  | nil =>
    cases names' with
    | nil => exact ⟨rfl, (List.cons.inj h).2⟩
    | cons name' names' => exact absurd h.symm (separated_cons_append_ne name' names' rest' rest)
  | cons name names ih =>
    cases names' with
    | nil => exact absurd h (separated_cons_append_ne name names rest rest')
    | cons name' names' =>
      rw [separated_cons_append, separated_cons_append, List.append_assoc, List.append_assoc] at h
      obtain ⟨rfl, hback⟩ := identifier_append_inj (by split <;> simp) (by split <;> simp) h
      -- The lists end together, as a comma is no blank.
      by_cases hend : names = [] <;> by_cases hend' : names' = []
      · rw [if_pos hend, if_pos hend'] at hback
        exact ⟨by rw [hend, hend'], (List.cons.inj hback).2⟩
      · rw [if_pos hend, if_neg hend'] at hback
        exact absurd (List.cons.inj hback).1 (by decide)
      · rw [if_neg hend, if_pos hend'] at hback
        exact absurd (List.cons.inj hback).1 (by decide)
      · rw [if_neg hend, if_neg hend'] at hback
        obtain ⟨rfl, hrest⟩ := ih (List.cons.inj (List.cons.inj hback).2).2
        exact ⟨rfl, hrest⟩

/-! ## Conditions -/

theorem condition_nil {d : Dialect} {f : KeyFilter} (h : f.keys = []) :
    condition d f = placeholder d 1 ++ equalsSign ++ placeholder d 2 := by
  rw [condition, h]

theorem condition_cons {d : Dialect} {f : KeyFilter} (h : f.keys ≠ []) :
    condition d f = identifier f.column ++ (inWord ++
      separated ((List.range f.keys.length).map fun i => placeholder d (i + 1)) ++ [')']) := by
  unfold condition
  split
  · contradiction
  · simp only [List.append_assoc]

theorem parameters_nil {f : KeyFilter} (h : f.keys = []) : parameters f = [.int (some 1), .int (some 2)] := by
  rw [parameters, h]

theorem parameters_cons {f : KeyFilter} (h : f.keys ≠ []) : parameters f = f.keys.map Key.toSql := by
  unfold parameters
  split
  · contradiction
  · rfl

theorem parameters_length_ne_zero (f : KeyFilter) : (parameters f).length ≠ 0 := by
  by_cases h : f.keys = []
  · simp [parameters_nil h]
  · simpa [parameters_cons h] using h

theorem condition_nil_ne {d d' : Dialect} {f f' : KeyFilter} (h : f.keys = []) (h' : f'.keys ≠ []) :
    condition d f ≠ condition d' f' := by
  rw [condition_nil h, condition_cons h', identifier_append]
  cases d <;> exact fun heq => absurd (List.cons.inj heq).1 (by decide)

theorem condition_congr (d : Dialect) {f f' : KeyFilter} (h : f.outline = f'.outline) :
    condition d f = condition d f' := by
  unfold KeyFilter.outline at h
  by_cases hf : f.keys = [] <;> by_cases hf' : f'.keys = []
  · rw [condition_nil hf, condition_nil hf']
  · simp [hf, hf'] at h
  · simp [hf, hf'] at h
  · rw [if_neg hf, if_neg hf'] at h
    obtain ⟨hcolumn, hlength⟩ := Prod.mk.inj (Option.some.inj h)
    rw [condition_cons hf, condition_cons hf', hcolumn, hlength]

theorem outline_eq_of_condition {d d' : Dialect} {f f' : KeyFilter} (h : condition d f = condition d' f') :
    d = d' ∧ f.outline = f'.outline := by
  -- The marks tell the dialect and the number of keys. Whether there are keys is told by the first character.
  have hmarks : List.replicate (parameters f).length d.mark = List.replicate (parameters f').length d'.mark := by
    rw [← (marked_condition d f).marks_eq, h, (marked_condition d' f').marks_eq]
  obtain ⟨hlength, hmark⟩ := List.replicate_inj.mp hmarks
  have hd : d = d' := Dialect.mark_injective (hmark.resolve_left (parameters_length_ne_zero f))
  refine ⟨hd, ?_⟩
  unfold KeyFilter.outline
  by_cases hf : f.keys = [] <;> by_cases hf' : f'.keys = []
  · rw [if_pos hf, if_pos hf']
  · exact absurd h (condition_nil_ne hf hf')
  · exact absurd h.symm (condition_nil_ne hf' hf)
  · rw [parameters_cons hf, parameters_cons hf', List.length_map, List.length_map] at hlength
    rw [condition_cons hf, condition_cons hf'] at h
    obtain ⟨hcolumn, -⟩ := identifier_append_inj (by simp [inWord]) (by simp [inWord]) h
    rw [if_neg hf, if_neg hf', hcolumn, hlength]

/-! ## Statements -/

theorem lead_eq (e : Entity) :
    lead e = selectWord ++ (separated ((e.columns.map (·.name)).map identifier) ++
      ' ' :: ("FROM ".toList ++ identifier e.table)) := by
  have hassoc : ∀ front names table : List Char, front ++ names ++ fromWord ++ table =
      front ++ (names ++ ' ' :: ("FROM ".toList ++ table)) := by
    intro front names table
    rw [List.append_assoc, List.append_assoc]
    rfl
  rw [List.map_map]
  exact hassoc selectWord _ _

theorem lead_congr {e e' : Entity} (htable : e.table = e'.table)
    (hcolumns : e.columns.map (·.name) = e'.columns.map (·.name)) : lead e = lead e' := by
  rw [lead_eq, lead_eq, htable, hcolumns]

theorem lead_append_inj {e e' : Entity} {rest rest' : List Char} (hrest : rest.head? ≠ some '"')
    (hrest' : rest'.head? ≠ some '"') (h : lead e ++ rest = lead e' ++ rest') :
    e.columns.map (·.name) = e'.columns.map (·.name) ∧ e.table = e'.table ∧ rest = rest' := by
  simp only [lead_eq, List.append_assoc, List.cons_append] at h
  obtain ⟨hcolumns, hback⟩ := separated_append_inj (List.append_cancel_left h)
  obtain ⟨htable, hrest⟩ := identifier_append_inj hrest hrest' (List.append_cancel_left hback)
  exact ⟨hcolumns, htable, hrest⟩

theorem marked_sql (d : Dialect) (e : Entity) (filter : Option KeyFilter) :
    Marked (select d e filter).sql (List.replicate (select d e filter).values.length d.mark) := by
  cases filter with
  | none => exact marked_lead e
  | some f =>
    have hwhere : Marked whereWord [] := .of_unmarked (by decide)
    exact ((marked_lead e).append hwhere).append (marked_condition d f)

/-- What follows the columns and the table. -/
def back (d : Dialect) : Option KeyFilter → List Char
  | none => []
  | some f => whereWord ++ condition d f

theorem sql_eq (d : Dialect) (e : Entity) (filter : Option KeyFilter) :
    (select d e filter).sql = lead e ++ back d filter := by
  cases filter with
  | none => exact (List.append_nil _).symm
  | some f => exact List.append_assoc ..

theorem back_some (d : Dialect) (f : KeyFilter) :
    back d (some f) = ' ' :: ("WHERE ".toList ++ condition d f) := rfl

theorem head?_back_ne (d : Dialect) (filter : Option KeyFilter) : (back d filter).head? ≠ some '"' := by
  cases filter with
  | none => exact Option.some_ne_none _ ∘ Eq.symm
  | some f =>
    rw [back_some, List.head?_cons]
    exact fun h => absurd (Option.some.inj h) (by decide)

theorem back_some_inj {d d' : Dialect} {f f' : KeyFilter} :
    back d (some f) = back d' (some f') ↔ f.outline = f'.outline ∧ d = d' := by
  constructor
  · intro h
    exact (outline_eq_of_condition (List.append_cancel_left h)).symm
  · rintro ⟨houtline, rfl⟩
    rw [back_some, back_some, condition_congr d houtline]

theorem back_eq_iff {d d' : Dialect} {filter filter' : Option KeyFilter} :
    back d filter = back d' filter' ↔
      filter.map (·.outline) = filter'.map (·.outline) ∧ (filter = none ∨ d = d') := by
  cases filter <;> cases filter'
  case none.none => exact iff_of_true rfl ⟨rfl, .inl rfl⟩
  case none.some f' => exact iff_of_false (List.cons_ne_nil _ _).symm (by simp)
  case some.none f => exact iff_of_false (List.cons_ne_nil _ _) (by simp)
  case some.some f f' => simp [back_some_inj]

/-- The text of a statement tells the table, the columns, the filter column and the number of keys, and with a
filter also the dialect. Nothing else plays a part in it. -/
theorem sql_eq_iff {d d' : Dialect} {e e' : Entity} {filter filter' : Option KeyFilter} :
    (select d e filter).sql = (select d' e' filter').sql ↔
      e.table = e'.table ∧ e.columns.map (·.name) = e'.columns.map (·.name) ∧
        filter.map (·.outline) = filter'.map (·.outline) ∧ (filter = none ∨ d = d') := by
  rw [sql_eq, sql_eq]
  constructor
  · intro h
    obtain ⟨hcolumns, htable, hback⟩ := lead_append_inj (head?_back_ne d filter) (head?_back_ne d' filter') h
    exact ⟨htable, hcolumns, back_eq_iff.mp hback⟩
  · rintro ⟨htable, hcolumns, hfilter⟩
    exact congrArg₂ (· ++ ·) (lead_congr htable hcolumns) (back_eq_iff.mpr hfilter)

/-- Keys are parameters in their order and the text has a placeholder for each of them, so the text is the same
for other keys of the same number, and it is the same for no other table, column or number of keys. -/
theorem keys_stay_out_of_text :
    (∀ d e, (select d e none).values = []) ∧
    (∀ d e f, (select d e (some f)).values =
      if f.keys = [] then [.int (some 1), .int (some 2)] else f.keys.map Key.toSql) ∧
    (∀ d e f, ∃ clause, (select d e (some f)).sql = (select d e none).sql ++ " WHERE ".toList ++ clause ∧
      marks clause = List.replicate (select d e (some f)).values.length d.mark) ∧
    (∀ d e filter, marks (select d e filter).sql = List.replicate (select d e filter).values.length d.mark) ∧
    (∀ d e column, ∀ keys keys' : List Key, keys.length = keys'.length →
      (select d e (some ⟨column, keys⟩)).sql = (select d e (some ⟨column, keys'⟩)).sql) ∧
    (∀ d d' e e' filter filter', (select d e filter).sql = (select d' e' filter').sql ↔
      e.table = e'.table ∧ e.columns.map (·.name) = e'.columns.map (·.name) ∧
        filter.map (·.outline) = filter'.map (·.outline) ∧ (filter = none ∨ d = d')) := by
  refine ⟨fun d e => rfl, fun d e f => ?_, fun d e f => ?_, fun d e filter => ?_, ?_, fun _ _ _ _ _ _ => sql_eq_iff⟩
  · by_cases h : f.keys = []
    · rw [if_pos h]
      exact parameters_nil h
    · rw [if_neg h]
      exact parameters_cons h
  · exact ⟨condition d f, rfl, (marked_condition d f).marks_eq⟩
  · exact (marked_sql d e filter).marks_eq
  · intro d e column keys keys' h
    have houtline : KeyFilter.outline ⟨column, keys⟩ = KeyFilter.outline ⟨column, keys'⟩ :=
      KeyFilter.outline_congr rfl h
    exact sql_eq_iff.mpr ⟨rfl, rfl, congrArg some houtline, .inr rfl⟩

end Statement

end Source

end EntityMapping
