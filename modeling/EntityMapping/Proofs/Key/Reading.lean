import EntityMapping.Key
import EntityMapping.Proofs.Outcome
import Mathlib.Tactic.IntervalCases

/-! # Reading keys

What a key is written as, by three grammars: decimal numbers of sixty-four bits, the four forms of an
identifier, and all other texts. Reading tries them in this order and accepts exactly what they say. A key
that was read is written in a form that is read as the same key again.
-/

namespace EntityMapping

namespace Text

/-! ## Decimal numbers -/

theorem digitValue?_eq (c : Char) :
    digitValue? c = if c.isDigit then some (c.toNat - '0'.toNat) else none := by
  have hdigit : ('0' ≤ c ∧ c ≤ '9') ↔ c.isDigit = true := by
    simp [Char.isDigit, Char.le_def, ge_iff_le]
  unfold digitValue?
  simp only [hdigit]

theorem digitsFrom?_eq (acc : Nat) (s : List Char) :
    digitsFrom? acc s = if s.all Char.isDigit then some (Nat.ofDigitChars 10 s acc) else none := by
  induction s generalizing acc with
  | nil => rfl
  | cons c rest ih =>
    rw [digitsFrom?, digitValue?_eq, List.all_cons, Nat.ofDigitChars_cons]
    cases c.isDigit with
    | false => rfl
    | true => exact ih _

/-- One or more decimal digits. -/
def IsDigits (s : List Char) : Prop := s ≠ [] ∧ ∀ c ∈ s, c.isDigit = true

theorem nat?_eq_some_iff {s : List Char} {n : Nat} :
    nat? s = some n ↔ IsDigits s ∧ Nat.ofDigitChars 10 s 0 = n := by
  cases s with
  | nil => simp [nat?, IsDigits]
  | cons c rest =>
    rw [nat?, digitsFrom?_eq, IsDigits, Option.ite_none_right_eq_some, List.all_eq_true]
    simp

/-- The text writes the number in decimal digits, with or without a sign. -/
inductive WritesInt : List Char → Int → Prop
  | bare {s : List Char} : IsDigits s → WritesInt s (Nat.ofDigitChars 10 s 0)
  | plus {s : List Char} : IsDigits s → WritesInt ('+' :: s) (Nat.ofDigitChars 10 s 0)
  | minus {s : List Char} : IsDigits s → WritesInt ('-' :: s) (-Nat.ofDigitChars 10 s 0)

theorem int?_of_isDigits {s : List Char} (h : IsDigits s) :
    int? s = some (Nat.ofDigitChars 10 s 0 : Int) := by
  obtain ⟨hne, hdigits⟩ := h
  cases s with
  | nil => exact absurd rfl hne
  | cons c rest =>
    have hc := hdigits c List.mem_cons_self
    have hread : nat? (c :: rest) = some (Nat.ofDigitChars 10 (c :: rest) 0) :=
      nat?_eq_some_iff.mpr ⟨⟨hne, hdigits⟩, rfl⟩
    unfold int?
    -- A digit is neither of the signs.
    split
    · rename_i heq
      cases heq
    · rename_i heq
      obtain ⟨rfl, -⟩ := List.cons.inj heq
      exact absurd hc (by decide)
    · rename_i heq
      obtain ⟨rfl, -⟩ := List.cons.inj heq
      exact absurd hc (by decide)
    · rename_i heq
      rw [← heq, hread]
      rfl

theorem int?_eq_some_iff {s : List Char} {n : Int} : int? s = some n ↔ WritesInt s n := by
  constructor
  · intro h
    unfold int? at h
    split at h
    · cases h
    all_goals
      obtain ⟨_, hm, rfl⟩ := Option.map_eq_some_iff.mp h
      obtain ⟨m, hread, hm⟩ := Option.bind_eq_some_iff.mp hm
      obtain rfl := Option.some.inj hm
      obtain ⟨hdigits, rfl⟩ := nat?_eq_some_iff.mp hread
    · exact .minus hdigits
    · exact .plus hdigits
    · exact .bare hdigits
  · intro h
    cases h with
    | bare hdigits => exact int?_of_isDigits hdigits
    | plus hdigits | minus hdigits =>
      rw [int?, nat?_eq_some_iff.mpr ⟨hdigits, rfl⟩]
      rfl

theorem isDigits_natDigits (n : Nat) : IsDigits (Nat.toDigits 10 n) :=
  ⟨Nat.toDigits_ne_nil, fun _ hc => Nat.isDigit_of_mem_toDigits (by decide) (by decide) hc⟩

theorem writesInt_toString (n : Int) : WritesInt (toString n).toList n := by
  cases n with
  | ofNat m =>
    have hwrites := WritesInt.bare (isDigits_natDigits m)
    rw [Nat.ofDigitChars_ten_toDigits] at hwrites
    have htext : (toString (Int.ofNat m)).toList = Nat.toDigits 10 m := Nat.toList_repr
    exact htext ▸ hwrites
  | negSucc m =>
    have hwrites := WritesInt.minus (isDigits_natDigits (m + 1))
    rw [Nat.ofDigitChars_ten_toDigits] at hwrites
    have htext : (toString (Int.negSucc m)).toList = '-' :: Nat.toDigits 10 (m + 1) := by
      change ("-" ++ Nat.repr (m + 1)).toList = _
      rw [String.toList_append, Nat.toList_repr]
      rfl
    exact htext ▸ hwrites

theorem WritesInt.ne_nil {s : List Char} {n : Int} (h : WritesInt s n) : s ≠ [] := by
  cases h with
  | bare hdigits => exact hdigits.1
  | plus | minus => exact List.cons_ne_nil _ _

theorem WritesInt.isDigit_of_mem_tail {s : List Char} {n : Int} (h : WritesInt s n) :
    ∀ c ∈ s.tail, c.isDigit = true := by
  cases h with
  | bare hdigits => exact fun c hc => hdigits.2 c (List.mem_of_mem_tail hc)
  | plus hdigits | minus hdigits => exact hdigits.2

/-! ## Hexadecimal digits -/

/-- The character is the digit in either case. -/
def IsHexDigit (c : Char) (d : Fin 16) : Prop := c = hexChar d ∨ c = (hexChar d).toUpper

instance (c : Char) (d : Fin 16) : Decidable (IsHexDigit c d) := inferInstanceAs (Decidable (_ ∨ _))

theorem hexValue?_eq_some_iff {c : Char} {d : Fin 16} : hexValue? c = some d ↔ IsHexDigit c d := by
  constructor
  · intro h
    have hc : c = Char.ofNat c.toNat := (Char.ofNat_toNat c).symm
    unfold hexValue? at h
    simp only [Char.le_def, UInt32.le_iff_toNat_le, Char.toNat_val] at h
    generalize c.toNat = n at h hc
    subst hc
    split_ifs at h with hrange hrange hrange
    -- Each of the three ranges is short enough to go through.
    all_goals
      obtain rfl := Option.some.inj h
      obtain ⟨hge, hle⟩ := hrange
    · change 48 ≤ n at hge
      change n ≤ 57 at hle
      interval_cases n <;> decide
    · change 97 ≤ n at hge
      change n ≤ 102 at hle
      interval_cases n <;> decide
    · change 65 ≤ n at hge
      change n ≤ 70 at hle
      interval_cases n <;> decide
  · rintro (rfl | rfl) <;> revert d <;> decide

/-- The text writes the digits, each in either case. -/
def IsHex (s : List Char) (digits : List (Fin 16)) : Prop := List.Forall₂ IsHexDigit s digits

theorem mapM_hexValue?_eq_some_iff {s : List Char} {digits : List (Fin 16)} :
    s.mapM hexValue? = some digits ↔ IsHex s digits := by
  unfold IsHex
  simp only [mapM_eq_some, hexValue?_eq_some_iff]

theorem isHex_map_hexChar (digits : List (Fin 16)) : IsHex (digits.map hexChar) digits := by
  rw [IsHex, List.forall₂_map_left_iff, List.forall₂_same]
  exact fun d _ => .inl rfl

end Text

/-! ## Identifiers -/

namespace Uuid

/-- The text in groups of the given lengths, with a hyphen between each two of them. -/
inductive Grouped : List Nat → (grouped text : List Char) → Prop
  | last {n : Nat} {text : List Char} : text.length = n → Grouped [n] text text
  | cons {n m : Nat} {rest : List Nat} {front grouped text : List Char} : front.length = n →
    Grouped (m :: rest) grouped text → Grouped (n :: m :: rest) (front ++ '-' :: grouped) (front ++ text)

theorem unhyphenate?_eq_some_iff {n : Nat} {lengths : List Nat} {s text : List Char} :
    unhyphenate? (n :: lengths) s = some text ↔ Grouped (n :: lengths) s text := by
  induction lengths generalizing n s text with
  | nil =>
    rw [unhyphenate?, Option.ite_none_right_eq_some]
    constructor
    · rintro ⟨hlength, heq⟩
      exact Option.some.inj heq ▸ .last hlength
    · rintro ⟨hlength⟩
      exact ⟨hlength, rfl⟩
  | cons m rest ih =>
    constructor
    · intro h
      unfold unhyphenate? at h
      split at h
      · rename_i tail hdrop
        obtain ⟨back, hback, rfl⟩ := Option.map_eq_some_iff.mp h
        -- Something is left behind the first `n`, so none of them is missing.
        have hlength : (s.take n).length = n := by
          have := congrArg List.length hdrop
          rw [List.length_drop, List.length_cons] at this
          rw [List.length_take]
          omega
        have hs : s.take n ++ '-' :: tail = s := hdrop ▸ List.take_append_drop n s
        have hgrouped := Grouped.cons hlength (ih.mp hback)
        rwa [hs] at hgrouped
      · cases h
    · intro h
      cases h with
      | cons hlength hgrouped =>
        simp [unhyphenate?, List.drop_left' hlength, List.take_left' hlength, ih.mpr hgrouped]

namespace Grouped

variable {lengths : List Nat} {s text : List Char}

theorem length_eq (h : Grouped lengths s text) : s.length + 1 = lengths.sum + lengths.length := by
  induction h with
  | last hlength => simpa using hlength
  | cons hlength _ ih =>
    simp only [List.length_append, List.length_cons, List.sum_cons, hlength] at ih ⊢
    omega

theorem hyphenate {n : Nat} (h : text.length = (n :: lengths).sum) :
    Grouped (n :: lengths) (Uuid.hyphenate (n :: lengths) text) text := by
  induction lengths generalizing n text with
  | nil =>
    obtain rfl : text.length = n := by simpa using h
    rw [Uuid.hyphenate, List.take_length]
    exact .last rfl
  | cons m rest ih =>
    rw [List.sum_cons] at h
    have hback : (text.drop n).length = (m :: rest).sum := by rw [List.length_drop]; omega
    have hgrouped := ih hback
    have hfront : (text.take n).length = n := by rw [List.length_take]; omega
    have := Grouped.cons hfront hgrouped
    rwa [List.take_append_drop] at this

end Grouped

theorem ofHex?_eq_some_iff {s : List Char} {u : Uuid} : ofHex? s = some u ↔ Text.IsHex s u.digits := by
  rw [← Text.mapM_hexValue?_eq_some_iff]
  unfold ofHex?
  constructor
  · intro h
    split at h
    · cases h
    · rename_i digits hdigits
      obtain ⟨hlength, heq⟩ := Option.dite_none_right_eq_some.mp h
      exact Option.some.inj heq ▸ hdigits
  · intro h
    rw [h]
    exact dif_pos u.length_eq

/-- The text writes the digits of the identifier in groups of eight, four, four, four and twelve. -/
def Hyphenated (u : Uuid) (s : List Char) : Prop :=
  ∃ text, Grouped [8, 4, 4, 4, 12] s text ∧ Text.IsHex text u.digits

theorem Hyphenated.length_eq {u : Uuid} {s : List Char} (h : u.Hyphenated s) : s.length = 36 := by
  obtain ⟨text, hgrouped, -⟩ := h
  simpa using hgrouped.length_eq

theorem hyphenated_toChars (u : Uuid) : u.Hyphenated u.toChars := by
  refine ⟨u.digits.map Text.hexChar, Grouped.hyphenate ?_, Text.isHex_map_hexChar u.digits⟩
  rw [List.length_map, u.length_eq]
  rfl

theorem ofHyphenated?_eq_some_iff {s : List Char} {u : Uuid} : ofHyphenated? s = some u ↔ u.Hyphenated s := by
  rw [ofHyphenated?, Option.bind_eq_some_iff]
  exact exists_congr fun text => and_congr unhyphenate?_eq_some_iff ofHex?_eq_some_iff

theorem ofHyphenated?_of_length {s : List Char} (h : s.length ≠ 36) : ofHyphenated? s = none := by
  refine Option.eq_none_iff_forall_ne_some.mpr fun u hu => h ?_
  exact (ofHyphenated?_eq_some_iff.mp hu).length_eq

/-- The text is one of the forms of the identifier: its digits in either case, in groups or not, and in groups
also between braces or behind its lead, which is read in either case, too. -/
inductive Written (u : Uuid) : List Char → Prop
  | bare {s : List Char} : Text.IsHex s u.digits → Written u s
  | hyphenated {s : List Char} : u.Hyphenated s → Written u s
  | braced {s : List Char} : u.Hyphenated s → Written u ('\x7b' :: s ++ ['\x7d'])
  | named {lead s : List Char} : lead.map Char.toLower = "urn:uuid:".toList → u.Hyphenated s →
    Written u (lead ++ s)

theorem Written.ne_nil {u : Uuid} {s : List Char} (h : u.Written s) : s ≠ [] := by
  cases h with
  | bare hhex =>
    rintro rfl
    simpa [u.length_eq] using hhex.length_eq
  | hyphenated hplain =>
    rintro rfl
    cases hplain.length_eq
  | braced => simp
  | named _ hinner =>
    intro hnil
    rw [(List.append_eq_nil_iff.mp hnil).2] at hinner
    cases hinner.length_eq

theorem unbrace?_eq_some_iff {s inner : List Char} :
    unbrace? s = some inner ↔ s = '\x7b' :: inner ++ ['\x7d'] := by
  constructor
  · intro h
    unfold unbrace? at h
    split at h
    · rename_i rest
      obtain ⟨hlast, heq⟩ := Option.ite_none_right_eq_some.mp h
      obtain rfl := Option.some.inj heq
      rw [List.cons_append, List.dropLast_append_getLast? _ hlast]
    · cases h
  · rintro rfl
    simp [unbrace?]

theorem unname?_eq_some_iff {s named : List Char} : unname? s = some named ↔
    ∃ lead, lead.map Char.toLower = "urn:uuid:".toList ∧ s = lead ++ named := by
  rw [unname?, Option.ite_none_right_eq_some]
  constructor
  · rintro ⟨hlead, heq⟩
    exact ⟨_, hlead, by rw [← Option.some.inj heq, List.take_append_drop]⟩
  · rintro ⟨lead, hlead, rfl⟩
    have hlength : lead.length = "urn:uuid:".toList.length := by rw [← hlead, List.length_map]
    rw [List.take_left' hlength, List.drop_left' hlength]
    exact ⟨hlead, rfl⟩

theorem unbrace?_of_lead {lead : List Char} (h : lead.map Char.toLower = "urn:uuid:".toList)
    (s : List Char) : unbrace? (lead ++ s) = none := by
  cases lead with
  | nil => cases h
  | cons c rest =>
    have hc : c.toLower = 'u' := (List.cons.inj h).1
    rw [List.cons_append]
    unfold unbrace?
    split
    · rename_i heq
      obtain ⟨rfl, -⟩ := List.cons.inj heq
      exact absurd hc (by decide)
    · rfl

theorem ofChars?_eq_some_iff {s : List Char} {u : Uuid} : ofChars? s = some u ↔ u.Written s := by
  unfold ofChars?
  constructor
  · intro h
    split at h
    · exact .bare (ofHex?_eq_some_iff.mp h)
    · simp only [Option.orElse_eq_or, Option.or_eq_some_iff, Option.bind_eq_some_iff,
        ofHyphenated?_eq_some_iff, unbrace?_eq_some_iff, unname?_eq_some_iff] at h
      rcases h with hplain | ⟨-, ⟨inner, rfl, hinner⟩ | ⟨-, inner, ⟨lead, hlead, rfl⟩, hinner⟩⟩
      · exact .hyphenated hplain
      · exact .braced hinner
      · exact .named hlead hinner
  · intro h
    -- The length of the text tells which of the forms it has.
    cases h with
    | bare hhex =>
      have hlength : s.length = 32 := hhex.length_eq.trans u.length_eq
      rw [if_pos hlength, ofHex?_eq_some_iff.mpr hhex]
    | hyphenated hplain =>
      rw [if_neg (by rw [hplain.length_eq]; decide), ofHyphenated?_eq_some_iff.mpr hplain]
      rfl
    | @braced inner hinner =>
      have hlength : ('\x7b' :: inner ++ ['\x7d']).length = 38 := by simp [hinner.length_eq]
      rw [if_neg (by omega), ofHyphenated?_of_length (by omega), unbrace?_eq_some_iff.mpr rfl, Option.bind_some,
        ofHyphenated?_eq_some_iff.mpr hinner]
      rfl
    | @named lead inner hlead hinner =>
      have hlength : lead.length = 9 := by simpa using congrArg List.length hlead
      have htotal : (lead ++ inner).length = 45 := by rw [List.length_append, hlength, hinner.length_eq]
      rw [if_neg (by omega), ofHyphenated?_of_length (by omega), unbrace?_of_lead hlead,
        unname?_eq_some_iff.mpr ⟨lead, hlead, rfl⟩, Option.bind_some, ofHyphenated?_eq_some_iff.mpr hinner]
      rfl

/-- The text is a form of an identifier. -/
def IsWritten (s : List Char) : Prop := ∃ u : Uuid, u.Written s

theorem parse?_eq_some_iff {s : String} {u : Uuid} : parse? s = some u ↔ u.Written s.toList :=
  ofChars?_eq_some_iff

theorem parse?_eq_none_iff {s : String} : parse? s = none ↔ ¬ IsWritten s.toList := by
  simp [Option.eq_none_iff_forall_ne_some, parse?_eq_some_iff, IsWritten]

/-- The hyphens of an identifier's text are not the first of its characters. -/
theorem hyphen_mem_tail_toChars (u : Uuid) : '-' ∈ u.toChars.tail := by
  obtain ⟨text, hgrouped, -⟩ := hyphenated_toChars u
  generalize u.toChars = s at hgrouped
  cases hgrouped with
  | @cons _ _ _ front _ _ hlength =>
    cases front with
    | nil => cases hlength
    | cons c front => simp

end Uuid

/-! ## Keys -/

namespace Key

theorem int64?_eq_some_iff {s : List Char} {n : Int64} : int64? s = some n ↔ Text.WritesInt s n.toInt := by
  rw [int64?, Option.bind_eq_some_iff, ← Text.int?_eq_some_iff]
  constructor
  · rintro ⟨m, hm, h⟩
    obtain ⟨⟨hge, hle⟩, heq⟩ := Option.ite_none_right_eq_some.mp h
    rw [Int64.toInt_minValue] at hge
    rw [Int64.toInt_maxValue] at hle
    obtain rfl := Option.some.inj heq
    rw [hm, Int64.toInt_ofInt_of_le hge (by omega)]
  · intro h
    have hrange := And.intro n.minValue_le_toInt n.toInt_le
    exact ⟨_, h, by rw [if_pos hrange, Int64.ofInt_toInt]⟩

/-- The text writes a number of sixty-four bits. -/
def IsInt64 (s : List Char) : Prop := ∃ n : Int64, Text.WritesInt s n.toInt

theorem int64?_eq_none_iff {s : List Char} : int64? s = none ↔ ¬ IsInt64 s := by
  simp [Option.eq_none_iff_forall_ne_some, int64?_eq_some_iff, IsInt64]

theorem int64?_toChars (u : Uuid) : int64? u.toChars = none := by
  rw [int64?_eq_none_iff]
  rintro ⟨n, hwrites⟩
  exact absurd (hwrites.isDigit_of_mem_tail '-' u.hyphen_mem_tail_toChars) (by decide)

/-- How a text is read: as a number if it writes one, else as an identifier if it is a form of one, else as
itself. The empty text is not read. -/
inductive Reads (s : String) : Key → Prop
  | int {n : Int64} : Text.WritesInt s.toList n.toInt → Reads s (.int n)
  | uuid {u : Uuid} : ¬ IsInt64 s.toList → u.Written s.toList → Reads s (.uuid u)
  | string : s ≠ "" → ¬ IsInt64 s.toList → ¬ Uuid.IsWritten s.toList → Reads s (.string s)

theorem Reads.ne_empty {s : String} {k : Key} (h : Reads s k) : s ≠ "" := by
  rintro rfl
  cases h with
  | int hwrites => exact absurd rfl hwrites.ne_nil
  | uuid _ hwritten => exact absurd rfl hwritten.ne_nil
  | string hne => exact absurd rfl hne

theorem parse?_eq_some_iff {s : String} {k : Key} : parse? s = some k ↔ Reads s k := by
  constructor
  · intro h
    unfold parse? at h
    split at h
    · cases h
    · rename_i hempty
      split at h
      · rename_i n hint
        obtain rfl := Option.some.inj h
        exact .int (int64?_eq_some_iff.mp hint)
      · rename_i hint
        have hint := int64?_eq_none_iff.mp hint
        split at h
        · rename_i u huuid
          obtain rfl := Option.some.inj h
          exact .uuid hint (Uuid.parse?_eq_some_iff.mp huuid)
        · rename_i huuid
          obtain rfl := Option.some.inj h
          exact .string (by simpa using hempty) hint (Uuid.parse?_eq_none_iff.mp huuid)
  · intro h
    have hempty : s.isEmpty = false := by simpa using h.ne_empty
    unfold parse?
    rw [hempty]
    cases h with
    | int hwrites => simp [int64?_eq_some_iff.mpr hwrites]
    | uuid hint hwritten =>
      simp [int64?_eq_none_iff.mpr hint, Uuid.parse?_eq_some_iff.mpr hwritten]
    | string _ hint huuid =>
      simp [int64?_eq_none_iff.mpr hint, Uuid.parse?_eq_none_iff.mpr huuid]

theorem parse?_int (n : Int64) : parse? (int n).text = some (.int n) := by
  rw [parse?_eq_some_iff]
  apply Reads.int
  rw [text, String.toList_ofList]
  exact Text.writesInt_toString n.toInt

theorem parse?_uuid (u : Uuid) : parse? (uuid u).text = some (.uuid u) := by
  rw [parse?_eq_some_iff]
  apply Reads.uuid
  · rw [text, String.toList_ofList, ← int64?_eq_none_iff]
    exact int64?_toChars u
  · rw [text, String.toList_ofList]
    exact .hyphenated u.hyphenated_toChars

theorem text_string (s : String) : (string s).text = s := String.ofList_toList

theorem parse?_string {s : String} : parse? s = some (.string s) ↔
    s ≠ "" ∧ ¬ IsInt64 s.toList ∧ ¬ Uuid.IsWritten s.toList := by
  rw [parse?_eq_some_iff]
  constructor
  · rintro ⟨⟩
    exact ⟨‹_›, ‹_›, ‹_›⟩
  · rintro ⟨hne, hint, huuid⟩
    exact .string hne hint huuid

/-- The text of a key is canonical. A key that was read from a text is read from its own text again, and only the
empty text is not read. Integers and identifiers are read from their texts. A string is read from its text if it
is not empty and neither writes a number of sixty-four bits nor is a form of an identifier. -/
theorem text_is_canonical :
    (∀ s k, parse? s = some k → parse? k.text = some k) ∧
    (∀ s, parse? s = none ↔ s = "") ∧
    (∀ n : Int64, parse? (int n).text = some (.int n)) ∧
    (∀ u : Uuid, parse? (uuid u).text = some (.uuid u)) ∧
    ∀ s, parse? (string s).text = some (.string s) ↔
      s ≠ "" ∧ ¬ IsInt64 s.toList ∧ ¬ Uuid.IsWritten s.toList := by
  refine ⟨fun s k h => ?_, fun s => ?_, parse?_int, parse?_uuid, fun s => ?_⟩
  · cases parse?_eq_some_iff.mp h with
    | int => exact parse?_int _
    | uuid => exact parse?_uuid _
    | string => rwa [text_string]
  · constructor
    · intro h
      unfold parse? at h
      split at h
      · rename_i hempty
        simpa using hempty
      · split at h
        · cases h
        · split at h <;> cases h
    · rintro rfl
      rfl
  · rw [text_string, parse?_string]

end Key

end EntityMapping
