import EntityMapping.Proofs.Key.Reading
import EntityMapping.Proofs.Source.Storing

/-! # Keys as parameters

Integers, strings and identifiers come back from the parameters that they are passed as. A tuple is passed as
its text, so it comes back as a string, and it is taken for every string and every tuple of that text. Tuples
without strings have texts of their own.
-/

namespace EntityMapping

/-! ## The punctuation of tuples -/

/-- The character is none that tuples put around their parts. -/
def IsPlain (c : Char) : Prop := c ≠ '(' ∧ c ≠ ')' ∧ c ≠ ','

instance (c : Char) : Decidable (IsPlain c) := inferInstanceAs (Decidable (_ ∧ _))

theorem isPlain_of_isDigit {c : Char} (h : c.isDigit = true) : IsPlain c := by
  refine ⟨?_, ?_, ?_⟩ <;> rintro rfl <;> exact absurd h (by decide)

theorem isPlain_of_isHexDigit {c : Char} {d : Fin 16} (h : Text.IsHexDigit c d) : IsPlain c := by
  rcases h with rfl | rfl <;> revert d <;> decide

theorem Text.WritesInt.isPlain {s : List Char} {n : Int} (h : WritesInt s n) : ∀ c ∈ s, IsPlain c := by
  cases h with
  | bare hdigits => exact fun c hc => isPlain_of_isDigit (hdigits.2 c hc)
  | plus hdigits | minus hdigits =>
    intro c hc
    rcases List.mem_cons.mp hc with rfl | hc
    · decide
    · exact isPlain_of_isDigit (hdigits.2 c hc)

theorem Uuid.Grouped.mem {lengths : List Nat} {s text : List Char} (h : Grouped lengths s text) :
    ∀ c ∈ s, c = '-' ∨ c ∈ text := by
  induction h with
  | last => exact fun c hc => .inr hc
  | cons _ _ ih =>
    intro c hc
    rw [List.mem_append, List.mem_cons] at hc
    rcases hc with hc | rfl | hc
    · exact .inr (List.mem_append_left _ hc)
    · exact .inl rfl
    · exact (ih c hc).imp_right (List.mem_append_right _)

theorem Uuid.Hyphenated.isPlain {u : Uuid} {s : List Char} (h : u.Hyphenated s) : ∀ c ∈ s, IsPlain c := by
  obtain ⟨text, hgrouped, hhex⟩ := h
  intro c hc
  rcases hgrouped.mem c hc with rfl | hc
  · decide
  · obtain ⟨d, -, hd⟩ := exists_of_forall₂_left hhex hc
    exact isPlain_of_isHexDigit hd

namespace Key

/-- An integer or an identifier. -/
def IsAtom : Key → Prop
  | .int _ | .uuid _ => True
  | .string _ | .composite _ => False

/-- No part of the key is a string, at any depth. -/
inductive Wordless : Key → Prop
  | atom {k : Key} : k.IsAtom → Wordless k
  | composite {parts : List Key} : (∀ k ∈ parts, Wordless k) → Wordless (.composite parts)

/-- The text is over, or goes on behind a part of a tuple. -/
def Stops (rest : List Char) : Prop := ∀ c ∈ rest.head?, ¬ IsPlain c

namespace IsAtom

variable {k k' : Key}

theorem isPlain (h : k.IsAtom) : ∀ c ∈ k.toChars, IsPlain c := by
  cases k with
  | int n => exact (Text.writesInt_toString n.toInt).isPlain
  | uuid u => exact u.hyphenated_toChars.isPlain
  | string | composite => exact h.elim

theorem parse?_text (h : k.IsAtom) : parse? k.text = some k := by
  cases k with
  | int n => exact parse?_int n
  | uuid u => exact parse?_uuid u
  | string | composite => exact h.elim

theorem eq_of_toChars (h : k.IsAtom) (h' : k'.IsAtom) (heq : k.toChars = k'.toChars) : k = k' := by
  have htext : k.text = k'.text := congrArg String.ofList heq
  exact Option.some.inj (h.parse?_text.symm.trans (htext ▸ h'.parse?_text))

theorem exists_cons (h : k.IsAtom) : ∃ c rest, k.toChars = c :: rest ∧ IsPlain c := by
  cases hchars : k.toChars with
  | nil =>
    have hparse := h.parse?_text
    rw [text, hchars] at hparse
    cases hparse
  | cons c rest => exact ⟨c, rest, rfl, h.isPlain c (hchars ▸ List.mem_cons_self)⟩

/-- The text of an atom ends where what follows stops. -/
theorem append_inj (h : k.IsAtom) (h' : k'.IsAtom) {rest rest' : List Char} (hrest : Stops rest)
    (hrest' : Stops rest') (heq : k.toChars ++ rest = k'.toChars ++ rest') : k = k' ∧ rest = rest' := by
  have hends : ∀ {j : Key} {r : List Char}, j.IsAtom → Stops r →
      (j.toChars ++ r).takeWhile (fun c => IsPlain c) = j.toChars := by
    intro j r hj hr
    rw [List.takeWhile_append_of_pos (fun c hc => decide_eq_true (hj.isPlain c hc))]
    cases r with
    | nil => simp
    | cons c r => simp [hr c rfl]
  have hchars : k.toChars = k'.toChars := by rw [← hends h hrest, heq, hends h' hrest']
  exact ⟨eq_of_toChars h h' hchars, List.append_cancel_left (hchars ▸ heq)⟩

end IsAtom

/-! ## Texts of tuples -/

theorem Wordless.exists_cons {k : Key} (h : k.Wordless) : ∃ c rest, k.toChars = c :: rest ∧ c ≠ ')' := by
  cases h with
  | atom hatom =>
    obtain ⟨c, rest, hchars, hplain⟩ := hatom.exists_cons
    exact ⟨c, rest, hchars, hplain.2.1⟩
  | composite => exact ⟨'(', _, by rw [toChars]; rfl, by decide⟩

/-- What follows the text of the key tells where it ends, so that no other key has the same text there. -/
def Legible (k : Key) : Prop :=
  ∀ (k' : Key) (rest rest' : List Char), k'.Wordless → Stops rest → Stops rest' →
    k.toChars ++ rest = k'.toChars ++ rest' → k = k' ∧ rest = rest'

theorem stops_partChars (parts : List Key) (rest : List Char) : Stops (partChars false parts ++ ')' :: rest) := by
  cases parts with
  | nil =>
    rintro _ ⟨⟩
    decide
  | cons k parts =>
    rw [partChars]
    rintro _ ⟨⟩
    decide

theorem partChars_cons_ne {k : Key} (h : k.Wordless) (first : Bool) (parts : List Key) (rest rest' : List Char) :
    partChars first (k :: parts) ++ rest ≠ ')' :: rest' := by
  obtain ⟨c, chars, hchars, hne⟩ := h.exists_cons
  intro heq
  rw [partChars, hchars] at heq
  cases first with
  | false => cases heq
  | true => exact hne (List.cons.inj heq).1

theorem partChars_append_inj {parts parts' : List Key} (hlegible : ∀ k ∈ parts, k.Wordless ∧ k.Legible)
    (hparts' : ∀ k ∈ parts', k.Wordless) (first : Bool) {rest rest' : List Char}
    (heq : partChars first parts ++ ')' :: rest = partChars first parts' ++ ')' :: rest') :
    parts = parts' ∧ rest = rest' := by
  induction parts generalizing parts' first with
  | nil =>
    cases parts' with
    | nil => exact ⟨rfl, (List.cons.inj heq).2⟩
    | cons k' parts' => exact absurd heq.symm (partChars_cons_ne (hparts' k' List.mem_cons_self) _ _ _ _)
  | cons k parts ih =>
    obtain ⟨⟨hk, hlegible⟩, hrest⟩ := List.forall_mem_cons.mp hlegible
    cases parts' with
    | nil => exact absurd heq (partChars_cons_ne hk _ _ _ _)
    | cons k' parts' =>
      obtain ⟨hk', hrest'⟩ := List.forall_mem_cons.mp hparts'
      simp only [partChars, List.append_assoc] at heq
      obtain ⟨rfl, hback⟩ := hlegible k' _ _ hk' (stops_partChars parts rest) (stops_partChars parts' rest')
        (List.append_cancel_left heq)
      obtain ⟨rfl, rfl⟩ := ih hrest hrest' false hback
      exact ⟨rfl, rfl⟩

theorem Wordless.legible {k : Key} (h : k.Wordless) : k.Legible := by
  induction h with
  | atom hatom =>
    intro k' rest rest' h' hrest hrest' heq
    cases h' with
    | atom hatom' => exact hatom.append_inj hatom' hrest hrest' heq
    | composite =>
      -- An atom does not begin as a composite key does.
      obtain ⟨c, chars, hchars, hplain⟩ := hatom.exists_cons
      rw [hchars, toChars] at heq
      exact absurd (List.cons.inj heq).1 hplain.1
  | composite hparts ih =>
    intro k' rest rest' h' hrest hrest' heq
    cases h' with
    | atom hatom' =>
      obtain ⟨c, chars, hchars, hplain⟩ := hatom'.exists_cons
      rw [hchars, toChars] at heq
      exact absurd (List.cons.inj heq).1.symm hplain.1
    | composite hparts' =>
      simp only [toChars, List.cons_append, List.append_assoc, List.nil_append, List.cons.injEq, true_and] at heq
      obtain ⟨rfl, rfl⟩ := partChars_append_inj (fun k hk => ⟨hparts k hk, ih k hk⟩) hparts' true heq
      exact ⟨rfl, rfl⟩

theorem Wordless.eq_of_text {k k' : Key} (h : k.Wordless) (h' : k'.Wordless) (heq : k.text = k'.text) :
    k = k' := by
  have hchars : k.toChars ++ [] = k'.toChars ++ [] := by simpa using String.ofList_injective heq
  have hstops : Stops [] := by simp [Stops]
  exact (h.legible k' [] [] h' hstops hstops hchars).1

/-! ## Parameters -/

/-- The key is passed as a text. -/
def IsTextual : Key → Prop
  | .string _ | .composite _ => True
  | .int _ | .uuid _ => False

/-- The two keys are passed as one text. -/
def ShareText (k k' : Key) : Prop := k.IsTextual ∧ k'.IsTextual ∧ k.text = k'.text

theorem toSql_of_isTextual {k : Key} (h : k.IsTextual) : k.toSql = .string (some k.text) := by
  cases k with
  | string s => rw [text_string, toSql]
  | composite parts => rfl
  | int | uuid => exact h.elim

theorem ofSql?_toSql {k : Key} (h : k.IsSimple) : ofSql? k.toSql = some k := by
  cases k with
  | composite => exact h.elim
  | _ => rfl

theorem toSql_eq_iff {k k' : Key} : k.toSql = k'.toSql ↔ k = k' ∨ k.ShareText k' := by
  constructor
  · intro h
    by_cases hk : k.IsTextual <;> by_cases hk' : k'.IsTextual
    · rw [toSql_of_isTextual hk, toSql_of_isTextual hk'] at h
      obtain htext := Option.some.inj (SqlValue.string.inj h)
      exact .inr ⟨hk, hk', htext⟩
    · rw [toSql_of_isTextual hk] at h
      cases k' <;> first | exact absurd trivial hk' | cases h
    · rw [toSql_of_isTextual hk'] at h
      cases k <;> first | exact absurd trivial hk | cases h
    -- Integers and identifiers are passed as what they are.
    · cases k <;> cases k' <;> first | exact absurd trivial hk | exact absurd trivial hk' | cases h
      all_goals exact .inl rfl
  · rintro (rfl | ⟨hk, hk', htext⟩)
    · rfl
    · rw [toSql_of_isTextual hk, toSql_of_isTextual hk', htext]

theorem Wordless.eq_of_toSql {k k' : Key} (h : k.Wordless) (h' : k'.Wordless) (heq : k.toSql = k'.toSql) :
    k = k' := by
  rcases toSql_eq_iff.mp heq with rfl | ⟨-, -, htext⟩
  · rfl
  · exact h.eq_of_text h' htext

theorem toSql_mem_parameters {f : KeyFilter} {k : Key} :
    k.toSql ∈ Source.Statement.parameters f ↔ ∃ k' ∈ f.keys, k'.toSql = k.toSql := by
  unfold Source.Statement.parameters
  split
  · rename_i hkeys
    rw [hkeys]
    cases k <;> simp [toSql]
  · exact List.mem_map

end Key

namespace Source

theorem Cell.equals_ofParameter {k k' : Key} :
    (Cell.ofParameter k.toSql).equals (.ofParameter k'.toSql) = true ↔ k.toSql = k'.toSql := by
  cases k <;> cases k' <;> simp [Cell.ofParameter, Cell.equals, Key.toSql]

theorem Table.keeps_iff {t : Table} {f : KeyFilter} {row : TableRow} {k : Key}
    (hplain : (t.resolve f.column).affinity = .none)
    (hcell : (t.resolve f.column).cell row = .ofParameter k.toSql) :
    t.keeps (some f) row = true ↔ ∃ k' ∈ f.keys, k'.toSql = k.toSql := by
  rw [keeps, hplain, hcell, List.any_eq_true]
  exact exists_congr fun k' => and_congr_right fun _ => Cell.equals_ofParameter.trans eq_comm

end Source

/-- Keys come back from the parameters that they are passed as, but tuples come back as strings, namely as their
texts. Two keys are passed as one parameter if they are the same, or strings or tuples of one text. So simple keys
are told apart, and so are keys without strings in them. A filter has the parameter of a key, and keeps the rows
whose cell holds it, if the key is one of its own or shares the text of one. -/
theorem Key.toSql_tells_apart :
    (∀ k : Key, k.IsSimple → ofSql? k.toSql = some k) ∧
    (∀ parts : List Key, ofSql? (composite parts).toSql = some (.string (composite parts).text)) ∧
    (∀ k k' : Key, k.toSql = k'.toSql ↔ k = k' ∨ k.ShareText k') ∧
    (∀ k k' : Key, k.IsSimple ∧ k'.IsSimple ∨ k.Wordless ∧ k'.Wordless → k.toSql = k'.toSql → k = k') ∧
    (∀ (f : KeyFilter) (k : Key), k.toSql ∈ Source.Statement.parameters f ↔
      k ∈ f.keys ∨ ∃ k' ∈ f.keys, k'.ShareText k) ∧
    ∀ (t : Source.Table) (f : KeyFilter) (row : Source.TableRow) (k : Key),
      (t.resolve f.column).affinity = .none → (t.resolve f.column).cell row = .ofParameter k.toSql →
      (t.keeps (some f) row = true ↔ k ∈ f.keys ∨ ∃ k' ∈ f.keys, k'.ShareText k) := by
  have hlisted : ∀ (f : KeyFilter) (k : Key), (∃ k' ∈ f.keys, k'.toSql = k.toSql) ↔
      k ∈ f.keys ∨ ∃ k' ∈ f.keys, k'.ShareText k := by
    intro f k
    simp only [toSql_eq_iff, and_or_left, exists_or, exists_eq_right]
  refine ⟨fun k hk => ofSql?_toSql hk, fun parts => rfl, fun k k' => toSql_eq_iff, ?_, ?_, ?_⟩
  · rintro k k' (⟨hk, hk'⟩ | ⟨hk, hk'⟩) heq
    · exact Option.some.inj ((ofSql?_toSql hk).symm.trans (heq ▸ ofSql?_toSql hk'))
    · exact hk.eq_of_toSql hk' heq
  · exact fun f k => toSql_mem_parameters.trans (hlisted f k)
  · exact fun t f row k hplain hcell => (Source.Table.keeps_iff hplain hcell).trans (hlisted f k)

namespace Sample

/-- A place of two parts, and the table of a place that is written as a text. -/
def place : Key := .composite [.int 1, .string "b"]

def places : Source.Table := ⟨"place", [.plain "code"], [⟨1, ⟨[("code", .text "(1, b)")]⟩⟩]⟩

/-- A tuple comes back as the string of its text. The two keys are passed as the same parameter, and a filter by
the tuple keeps the row of the string. -/
theorem tuple_passed_as_string :
    Key.ofSql? place.toSql = some (.string "(1, b)") ∧ Key.ofSql? place.toSql ≠ some place ∧
      place ≠ .string "(1, b)" ∧ place.toSql = (Key.string "(1, b)").toSql ∧
      places.rows.map (places.keeps (some ⟨"code", [place]⟩)) = [true] := by
  decide +kernel

end Sample

end EntityMapping
