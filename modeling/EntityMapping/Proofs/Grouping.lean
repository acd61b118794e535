import EntityMapping.Dict
import Mathlib.Data.List.Forall2
import Mathlib.Data.List.Induction
import Mathlib.Data.List.Nodup
import Mathlib.Data.List.Perm.Basic

/-! # Grouping by keys

Values collected under their keys, one after the other. The group of a key holds its values in the order in
which they came, and the groups together hold every value once.
-/

namespace EntityMapping

variable {κ α β : Type} [DecidableEq κ]

namespace Dict

/-! ## Entries -/

theorem nodup_keys_set {d : Dict κ α} (h : d.keys.Nodup) (k : κ) (v : α) : (d.set k v).keys.Nodup := by
  rw [keys_set]
  split
  · exact h
  · rename_i hk
    simpa using h.concat hk

theorem mem_entries_of_get? {d : Dict κ α} {k : κ} {v : α}
    (h : d.get? k = some v) : (k, v) ∈ d.entries := by
  obtain ⟨entries⟩ := d
  unfold get? at h
  dsimp only at h ⊢
  induction entries with
  | nil => cases h
  | cons e rest ih =>
    unfold lookup at h
    split at h
    · rename_i hk
      obtain rfl := Option.some.inj h
      exact hk ▸ List.mem_cons_self
    · exact List.mem_cons_of_mem _ (ih h)

theorem mem_entries_set {d : Dict κ α} {k : κ} {v : α} {e : κ × α} (h : e ∈ (d.set k v).entries) :
    e = (k, v) ∨ e ∈ d.entries := by
  obtain ⟨entries⟩ := d
  change e ∈ write k v entries at h
  induction entries with
  | nil => exact Or.inl (List.mem_singleton.mp h)
  | cons e' entries ih =>
    unfold write at h
    split at h
    · rcases List.mem_cons.mp h with h | h
      · exact Or.inl h
      · exact Or.inr (List.mem_cons_of_mem _ h)
    · rcases List.mem_cons.mp h with rfl | h
      · exact Or.inr (by simp)
      · exact (ih h).imp_right (List.mem_cons_of_mem _)

theorem mem_entries_iff {d : Dict κ α} (h : d.keys.Nodup) {k : κ} {v : α} :
    (k, v) ∈ d.entries ↔ d.get? k = some v := by
  obtain ⟨entries⟩ := d
  unfold keys at h
  unfold get?
  dsimp only at h ⊢
  induction entries with
  | nil => simp [lookup]
  | cons e rest ih =>
    rw [List.map_cons, List.nodup_cons] at h
    unfold lookup
    split
    · rename_i hk
      -- A key stands once, so the rest has no entry of it.
      have hrest : (k, v) ∉ rest := fun hmem => h.1 (hk ▸ List.mem_map_of_mem hmem)
      obtain ⟨k', v'⟩ := e
      obtain rfl : k' = k := hk
      simp [hrest, eq_comm]
    · rename_i hk
      rw [List.mem_cons, ih h.2, or_iff_right]
      rintro rfl
      exact hk rfl

theorem entries_set_of_not_mem {d : Dict κ α} {k : κ} (h : k ∉ d.keys) (v : α) :
    (d.set k v).entries = d.entries ++ [(k, v)] := by
  obtain ⟨entries⟩ := d
  unfold keys at h
  unfold set
  dsimp only at h ⊢
  induction entries with
  | nil => rfl
  | cons e rest ih =>
    rw [List.map_cons, List.mem_cons, not_or] at h
    rw [write, if_neg (Ne.symm h.1), ih h.2]
    rfl

theorem entries_ofList {l : List (κ × α)} (h : (l.map (·.1)).Nodup) : (ofList l).entries = l := by
  unfold ofList
  induction l using List.reverseRecOn with
  | nil => rfl
  | append_singleton l e ih =>
    rw [List.map_append, List.nodup_append] at h
    obtain ⟨hnodup, -, hne⟩ := h
    rw [List.foldl_concat, entries_set_of_not_mem, ih hnodup]
    unfold keys
    rw [ih hnodup]
    exact fun hmem => hne _ hmem _ (by simp) rfl

theorem forall₂_entries {ι : Type} {d : Dict κ α} {l : List ι} {f : ι → κ} (hkeys : d.keys = l.map f)
    (hnodup : d.keys.Nodup) {R : ι → α → Prop} (h : ∀ i ∈ l, ∃ v, d.get? (f i) = some v ∧ R i v) :
    List.Forall₂ (fun i e => e.1 = f i ∧ R i e.2) l d.entries := by
  have hsame : List.Forall₂ (fun i e => f i = e.1) l d.entries := by
    have heq : List.Forall₂ (· = ·) (l.map f) (d.entries.map (·.1)) := by
      rw [List.forall₂_eq_eq_eq]
      exact hkeys.symm
    exact List.forall₂_map_right_iff.mp (List.forall₂_map_left_iff.mp heq)
  have hmem : List.Forall₂ (fun i e => i ∈ l ∧ e ∈ d.entries ∧ f i = e.1) l d.entries := by
    have hleft := (List.forall₂_and_left _ _).mpr ⟨fun _ hi => hi, hsame⟩
    have hright := (List.forall₂_and_left _ _).mpr ⟨fun _ he => he, hleft.flip⟩
    exact hright.flip.imp fun i e h => ⟨h.2.1, h.1, h.2.2⟩
  refine hmem.imp ?_
  rintro i ⟨k, w⟩ ⟨hi, he, rfl⟩
  obtain ⟨v, hget, hv⟩ := h i hi
  rw [(mem_entries_iff hnodup).mp he] at hget
  exact ⟨rfl, Option.some.inj hget ▸ hv⟩

/-- The dictionary with every value changed. -/
def mapValues (f : α → β) (d : Dict κ α) : Dict κ β := ⟨d.entries.map fun e => (e.1, f e.2)⟩

theorem mapValues_set (f : α → β) (d : Dict κ α) (k : κ) (v : α) :
    (d.set k v).mapValues f = (d.mapValues f).set k (f v) := by
  obtain ⟨entries⟩ := d
  unfold mapValues set
  congr 1
  dsimp only
  induction entries with
  | nil => rfl
  | cons e rest ih =>
    simp only [write, List.map_cons]
    split
    · rfl
    · rw [List.map_cons, ih]

theorem get?_mapValues (f : α → β) (d : Dict κ α) (k : κ) :
    (d.mapValues f).get? k = (d.get? k).map f := by
  obtain ⟨entries⟩ := d
  unfold mapValues get?
  dsimp only
  induction entries with
  | nil => rfl
  | cons e rest ih =>
    simp only [List.map_cons, lookup]
    split
    · rfl
    · exact ih

omit [DecidableEq κ] in
theorem keys_mapValues (f : α → β) (d : Dict κ α) : (d.mapValues f).keys = d.keys := by
  simp [mapValues, keys]

end Dict

/-! ## Different keys -/

theorem mem_foldl_new {ks found : List κ} {k : κ} :
    k ∈ ks.foldl (fun found k => if k ∈ found then found else found ++ [k]) found ↔
      k ∈ found ∨ k ∈ ks := by
  induction ks generalizing found with
  | nil => simp
  | cons k' ks ih =>
    rw [List.foldl_cons, ih, List.mem_cons]
    split
    · rename_i hk
      constructor
      · rintro (h | h)
        · exact Or.inl h
        · exact Or.inr (Or.inr h)
      · rintro (h | rfl | h)
        · exact Or.inl h
        · exact Or.inl hk
        · exact Or.inr h
    · simp [or_assoc]

theorem find?_of_nodup_map {f : α → κ} {l : List α} (h : (l.map f).Nodup) {a : α} (ha : a ∈ l) :
    l.find? (f · = f a) = some a := by
  induction l with
  | nil => cases ha
  | cons b l ih =>
    rw [List.map_cons, List.nodup_cons] at h
    rcases List.mem_cons.mp ha with rfl | ha
    · simp
    · have hne : f b ≠ f a := fun heq => h.1 (heq ▸ List.mem_map_of_mem ha)
      rw [List.find?_cons_of_neg (by simpa using hne)]
      exact ih h.2 ha

/-! ## Groups -/

/-- The values with a key, in order. -/
def valuesOf (k : κ) (pairs : List (κ × α)) : List α := (pairs.filter (·.1 = k)).map (·.2)

theorem valuesOf_append (k : κ) (pairs pairs' : List (κ × α)) :
    valuesOf k (pairs ++ pairs') = valuesOf k pairs ++ valuesOf k pairs' := by
  simp [valuesOf]

theorem mem_valuesOf {k : κ} {pairs : List (κ × α)} {v : α} :
    v ∈ valuesOf k pairs ↔ (k, v) ∈ pairs := by
  simp [valuesOf]

/-- The dictionary holds the values of every key that has some. -/
structure Grouped (d : Dict κ (List α)) (pairs : List (κ × α)) : Prop where
  nodup : d.keys.Nodup
  get? : ∀ k vs, d.get? k = some vs ↔ vs = valuesOf k pairs ∧ vs ≠ []

namespace Grouped

theorem empty : Grouped (Dict.empty : Dict κ (List α)) [] where
  nodup := List.nodup_nil
  get? k vs := by
    rw [Dict.get?_empty]
    constructor
    · intro h
      simp at h
    · rintro ⟨rfl, hne⟩
      exact absurd rfl hne

theorem getD_eq {d : Dict κ (List α)} {pairs : List (κ × α)} (h : Grouped d pairs) (k : κ) :
    (d.get? k).getD [] = valuesOf k pairs := by
  cases hget : d.get? k with
  | none =>
    by_contra hne
    have := (h.get? k (valuesOf k pairs)).mpr ⟨rfl, fun heq => hne heq.symm⟩
    rw [hget] at this
    simp at this
  | some vs => exact ((h.get? k vs).mp hget).1

theorem append {d : Dict κ (List α)} {pairs : List (κ × α)} (h : Grouped d pairs) (k : κ) (v : α) :
    Grouped (d.append k v) (pairs ++ [(k, v)]) where
  nodup := Dict.nodup_keys_set h.nodup _ _
  get? k' vs := by
    unfold Dict.append
    rw [Dict.get?_set, h.getD_eq, valuesOf_append]
    by_cases hk : k = k'
    · subst hk
      have hone : valuesOf k [(k, v)] = [v] := by simp [valuesOf]
      rw [if_pos rfl, hone, Option.some.injEq]
      constructor
      · rintro rfl
        exact ⟨rfl, by simp⟩
      · exact fun heq => heq.1.symm
    · have hnone : valuesOf k' [(k, v)] = [] := by simp [valuesOf, hk]
      rw [if_neg hk, hnone, List.append_nil]
      exact h.get? k' vs

theorem mem_iff {d : Dict κ (List α)} {pairs : List (κ × α)} (h : Grouped d pairs) {k : κ} {v : α} :
    (k, v) ∈ pairs ↔ ∃ vs, (k, vs) ∈ d.entries ∧ v ∈ vs := by
  simp only [Dict.mem_entries_iff h.nodup, h.get?]
  rw [← mem_valuesOf]
  constructor
  · exact fun hv => ⟨_, ⟨rfl, List.ne_nil_of_mem hv⟩, hv⟩
  · rintro ⟨vs, ⟨rfl, -⟩, hv⟩
    exact hv

theorem ne_nil {d : Dict κ (List α)} {pairs : List (κ × α)} (h : Grouped d pairs) {k : κ} {vs : List α}
    (hvs : (k, vs) ∈ d.entries) : vs ≠ [] :=
  ((h.get? k vs).mp ((Dict.mem_entries_iff h.nodup).mp hvs)).2

end Grouped

/-- Collects values under the keys of what they are made of. What has no key is left out. -/
def collect (key : α → Option κ) (value : α → β) (l : List α) : Dict κ (List β) :=
  l.foldl
    (fun d a =>
      match key a with
      | some k => d.append k (value a)
      | none => d) .empty

theorem getD_collect (key : α → Option κ) (value : α → β) (l : List α) (k : κ) :
    ((collect key value l).get? k).getD [] = (l.filter (key · = some k)).map value := by
  unfold collect
  induction l using List.reverseRecOn with
  | nil => rfl
  | append_singleton l a ih =>
    rw [List.foldl_concat, List.filter_append, List.map_append]
    cases hkey : key a with
    | none => simp [hkey, ih]
    | some k' =>
      dsimp only
      rw [Dict.append, Dict.get?_set]
      by_cases hk : k' = k
      · subst hk
        rw [if_pos rfl, Option.getD_some, ih]
        simp [hkey]
      · rw [if_neg hk, ih]
        simp [hkey, hk]

/-! ## Partitions -/

theorem flatMap_filter_perm (f : α → κ) (ks : List κ) (l : List α) (hks : ks.Nodup)
    (hl : ∀ a ∈ l, f a ∈ ks) : (ks.flatMap fun k => l.filter (f · = k)).Perm l := by
  induction ks generalizing l with
  | nil =>
    rw [List.eq_nil_iff_forall_not_mem.mpr fun a ha => List.not_mem_nil (hl a ha)]
    exact List.Perm.refl _
  | cons k ks ih =>
    obtain ⟨hk, hks⟩ := List.nodup_cons.mp hks
    rw [List.flatMap_cons]
    -- The other parts are parts of what is left without the first part.
    have hrest : (ks.flatMap fun k' => l.filter (f · = k')) =
        ks.flatMap fun k' => (l.filter (f · ≠ k)).filter (f · = k') := by
      refine List.flatMap_congr fun k' hk' => ?_
      rw [List.filter_filter]
      refine List.filter_congr fun a _ => ?_
      have hne : k' ≠ k := fun heq => hk (heq ▸ hk')
      by_cases ha : f a = k' <;> simp [ha, hne]
    have hperm := ih (l.filter (f · ≠ k)) hks (by
      intro a ha
      obtain ⟨ha, hne⟩ := List.mem_filter.mp ha
      exact (List.mem_cons.mp (hl a ha)).resolve_left (by simpa using hne))
    rw [hrest]
    refine (hperm.append_left _).trans ?_
    simpa using List.filter_append_perm (fun a => decide (f a = k)) l

theorem Grouped.perm {d : Dict κ (List α)} {pairs : List (κ × α)} (h : Grouped d pairs) :
    (d.entries.flatMap (·.2)).Perm (pairs.map (·.2)) := by
  have hvalues : d.entries.flatMap (·.2) = (d.keys.flatMap fun k => pairs.filter (·.1 = k)).map (·.2) := by
    unfold Dict.keys
    rw [List.map_flatMap, List.flatMap_map]
    refine List.flatMap_congr fun e he => ?_
    exact ((h.get? e.1 e.2).mp ((Dict.mem_entries_iff h.nodup).mp he)).1
  rw [hvalues]
  apply List.Perm.map
  apply flatMap_filter_perm _ _ _ h.nodup
  rintro ⟨k, v⟩ hp
  obtain ⟨vs, hvs, -⟩ := h.mem_iff.mp hp
  exact List.mem_map_of_mem (f := fun e : κ × List α => e.1) hvs

end EntityMapping
