import EntityMapping.Pass.Waves
import EntityMapping.Proofs.Grouping
import EntityMapping.Proofs.Pass.Account
import Mathlib.Data.List.Dedup

/-! # The groups of a wave

A wave's requests fall into groups, one for each fetcher or processor that is asked, and every group
has its requests in the order in which they were queued.
-/

namespace EntityMapping

variable {C : Type}

/-- The numbers of the requests of a group. -/
def numbersOf (group : GroupKey) (requests : List (Request C)) : List Nat :=
  (requests.filter (·.group = group)).map (·.number)

/-! ## Requests by their kind -/

namespace Request

def reverse? : Request C → Option (ReverseKey × KeyedRequest C)
  | .reverse fetcher r => some (fetcher, r)
  | _ => none

def entity? : Request C → Option (MapperKey × KeyedRequest C)
  | .entity mapper r => some (mapper, r)
  | _ => none

def batch? : Request C → Option (Nat × BatchRequest C)
  | .batch processor r => some (processor.id, r)
  | _ => none

end Request

theorem numbers_valuesOf {κ ρ : Type} [DecidableEq κ] {select : Request C → Option (κ × ρ)}
    {wrap : κ → GroupKey} {number : ρ → Nat}
    (hgroup : ∀ r k, r.group = wrap k ↔ ∃ x, select r = some (k, x))
    (hnumber : ∀ r p, select r = some p → number p.2 = r.number) (k : κ)
    (requests : List (Request C)) :
    (valuesOf k (requests.filterMap select)).map number = numbersOf (wrap k) requests := by
  unfold valuesOf numbersOf
  induction requests with
  | nil => rfl
  | cons r requests ih =>
    by_cases h : r.group = wrap k
    · obtain ⟨x, hx⟩ := (hgroup r k).mp h
      rw [List.filterMap_cons_some hx, List.filter_cons_of_pos (by simp),
        List.filter_cons_of_pos (by simpa using h), List.map_cons, List.map_cons, List.map_cons, ih,
        hnumber r _ hx]
    · rw [List.filter_cons_of_neg (by simpa using h)]
      cases hx : select r with
      | none => rw [List.filterMap_cons_none hx, ih]
      | some p =>
        have hk : p.1 ≠ k := fun heq => h ((hgroup r k).mpr ⟨p.2, by rw [hx, ← heq]⟩)
        rw [List.filterMap_cons_some hx, List.filter_cons_of_neg (by simpa using hk), ih]

theorem numbers_reverse (fetcher : ReverseKey) (requests : List (Request C)) :
    (valuesOf fetcher (requests.filterMap Request.reverse?)).map (·.number) =
      numbersOf (.reverse fetcher) requests := by
  apply numbers_valuesOf
  · rintro (_ | _ | _) k <;> simp [Request.group, Request.reverse?]
  · rintro (_ | _ | _) p h <;> simp_all [Request.number, Request.reverse?, Prod.ext_iff]

theorem numbers_entity (mapper : MapperKey) (requests : List (Request C)) :
    (valuesOf mapper (requests.filterMap Request.entity?)).map (·.number) =
      numbersOf (.entity mapper) requests := by
  apply numbers_valuesOf
  · rintro (_ | _ | _) k <;> simp [Request.group, Request.entity?]
  · rintro (_ | _ | _) p h <;> simp_all [Request.number, Request.entity?, Prod.ext_iff]

theorem numbers_batch (id : Nat) (requests : List (Request C)) :
    (valuesOf id (requests.filterMap Request.batch?)).map (·.number) =
      numbersOf (.batch id) requests := by
  apply numbers_valuesOf
  · rintro (_ | _ | _) k <;> simp [Request.group, Request.batch?]
  · rintro (_ | _ | _) p h <;> simp_all [Request.number, Request.batch?, Prod.ext_iff]

namespace Groups

/-- What the groups of some requests hold. -/
structure Of (requests : List (Request C)) (g : Groups C) : Prop where
  reverse : Grouped g.reverse (requests.filterMap Request.reverse?)
  entity : Grouped g.entity (requests.filterMap Request.entity?)
  batch : Grouped (g.batch.mapValues (·.2)) (requests.filterMap Request.batch?)
  /-- Processors are found under their own numbers. -/
  processor : ∀ id p, g.batch.get? id = some p → p.1.id = id

theorem batch_add (g : Groups C) (processor : Processor C) (r : BatchRequest C) :
    g.add (.batch processor r) =
      { g with
        batch := g.batch.set processor.id
          (((g.batch.get? processor.id).map (·.1)).getD processor,
            ((g.batch.get? processor.id).map (·.2)).getD [] ++ [r]) } := by
  unfold add
  dsimp only
  split <;> rename_i hget <;> simp [hget]

theorem Of.add {requests : List (Request C)} {g : Groups C} (h : Of requests g) (r : Request C) :
    Of (requests ++ [r]) (g.add r) := by
  cases r with
  | reverse fetcher r =>
    refine ⟨?_, ?_, ?_, h.processor⟩
    · rw [List.filterMap_append]
      exact h.reverse.append fetcher r
    · rw [List.filterMap_append]
      exact (List.append_nil _).symm ▸ h.entity
    · rw [List.filterMap_append]
      exact (List.append_nil _).symm ▸ h.batch
  | entity mapper r =>
    refine ⟨?_, ?_, ?_, h.processor⟩
    · rw [List.filterMap_append]
      exact (List.append_nil _).symm ▸ h.reverse
    · rw [List.filterMap_append]
      exact h.entity.append mapper r
    · rw [List.filterMap_append]
      exact (List.append_nil _).symm ▸ h.batch
  | batch processor r =>
    rw [batch_add]
    refine ⟨?_, ?_, ?_, ?_⟩
    · rw [List.filterMap_append]
      exact (List.append_nil _).symm ▸ h.reverse
    · rw [List.filterMap_append]
      exact (List.append_nil _).symm ▸ h.entity
    · rw [List.filterMap_append, Dict.mapValues_set]
      dsimp only
      rw [← Dict.get?_mapValues]
      exact h.batch.append processor.id r
    -- Of the processors with one identifier the first is kept.
    · intro id p hget
      rw [Dict.get?_set] at hget
      split at hget
      · rename_i heq
        obtain rfl := Option.some.inj hget
        cases hfirst : g.batch.get? processor.id with
        | none => exact heq
        | some first => exact (h.processor _ _ hfirst).trans heq
      · exact h.processor id p hget

theorem of_ofList (requests : List (Request C)) : Of requests (ofList requests) := by
  induction requests using List.reverseRecOn with
  | nil => exact ⟨Grouped.empty, Grouped.empty, Grouped.empty, fun _ _ hget => by cases hget⟩
  | append_singleton requests r ih =>
    unfold ofList
    rw [List.foldl_concat]
    exact ih.add r

theorem exists_request {requests : List (Request C)} {id : Nat} {p : Processor C × List (BatchRequest C)}
    (h : (ofList requests).batch.get? id = some p) : ∃ r, .batch p.1 r ∈ requests := by
  induction requests using List.reverseRecOn generalizing p with
  | nil => cases h
  | append_singleton requests r ih =>
    unfold ofList at h
    rw [List.foldl_concat] at h
    cases r with
    | reverse fetcher r | entity mapper r =>
      obtain ⟨r', hr'⟩ := ih h
      exact ⟨r', List.mem_append_left _ hr'⟩
    | batch processor r =>
      rw [batch_add, Dict.get?_set] at h
      split at h
      · rename_i heq
        subst heq
        obtain rfl := Option.some.inj h
        cases hfirst : (ofList requests).batch.get? processor.id with
        | none =>
          unfold ofList at hfirst
          exact ⟨r, by simp [hfirst]⟩
        | some first =>
          obtain ⟨r', hr'⟩ := ih hfirst
          unfold ofList at hfirst
          exact ⟨r', by simpa [hfirst] using Or.inl hr'⟩
      · obtain ⟨r', hr'⟩ := ih h
        exact ⟨r', List.mem_append_left _ hr'⟩

/-- The groups with the numbers of their requests, in the order in which they are resolved. -/
def listed (g : Groups C) : List (GroupKey × List Nat) :=
  g.reverse.entries.map (fun e => (.reverse e.1, e.2.map (·.number))) ++
    (g.entity.entries.map (fun e => (.entity e.1, e.2.map (·.number))) ++
      g.batch.entries.map (fun e => (.batch e.1, e.2.2.map (·.number))))

end Groups

namespace Groups.Of

variable {requests : List (Request C)} {g : Groups C}

theorem nodup_listed (h : Of requests g) : (g.listed.map (·.1)).Nodup := by
  have hbatch := h.batch.nodup
  rw [Dict.keys_mapValues] at hbatch
  unfold listed
  simp only [List.map_append, List.map_map]
  -- Keys of one kind differ within their group, those of two kinds by their constructor.
  refine List.nodup_append.mpr ⟨?_, List.nodup_append.mpr ⟨?_, ?_, ?_⟩, ?_⟩
  · have := h.reverse.nodup.map (f := GroupKey.reverse) (fun _ _ heq => GroupKey.reverse.inj heq)
    simpa [Dict.keys, Function.comp_def] using this
  · have := h.entity.nodup.map (f := GroupKey.entity) (fun _ _ heq => GroupKey.entity.inj heq)
    simpa [Dict.keys, Function.comp_def] using this
  · have := hbatch.map (f := GroupKey.batch) (fun _ _ heq => GroupKey.batch.inj heq)
    simpa [Dict.keys, Function.comp_def] using this
  · intro a ha b hb
    obtain ⟨_, -, rfl⟩ := List.mem_map.mp ha
    obtain ⟨_, -, rfl⟩ := List.mem_map.mp hb
    simp
  · intro a ha b hb
    obtain ⟨_, -, rfl⟩ := List.mem_map.mp ha
    rcases List.mem_append.mp hb with hb | hb <;> obtain ⟨_, -, rfl⟩ := List.mem_map.mp hb <;> simp

theorem mem_iff_of_grouped {κ ρ : Type} [DecidableEq κ] {d : Dict κ (List ρ)} {pairs : List (κ × ρ)}
    (h : Grouped d pairs) (number : ρ → Nat) (k : κ) (numbers : List Nat) :
    (∃ rs, (k, rs) ∈ d.entries ∧ rs.map number = numbers) ↔
      numbers = (valuesOf k pairs).map number ∧ numbers ≠ [] := by
  simp only [Dict.mem_entries_iff h.nodup, h.get?]
  constructor
  · rintro ⟨rs, ⟨rfl, hne⟩, rfl⟩
    exact ⟨rfl, by simpa using hne⟩
  · rintro ⟨rfl, hne⟩
    exact ⟨_, ⟨rfl, by simpa using hne⟩, rfl⟩

theorem mem_listed (h : Of requests g) {group : GroupKey} {numbers : List Nat} :
    (group, numbers) ∈ g.listed ↔ numbers = numbersOf group requests ∧ numbers ≠ [] := by
  unfold listed
  simp only [List.mem_append, List.mem_map, Prod.mk.injEq, Prod.exists]
  cases group with
  | reverse k =>
    rw [← numbers_reverse, ← mem_iff_of_grouped h.reverse]
    simp
  | entity k =>
    rw [← numbers_entity, ← mem_iff_of_grouped h.entity]
    simp
  | batch id =>
    rw [← numbers_batch, ← mem_iff_of_grouped h.batch]
    simp only [Dict.mapValues, List.mem_map, reduceCtorEq, false_and, and_false, exists_false, false_or,
      GroupKey.batch.injEq, Prod.mk.injEq, Prod.exists]
    constructor
    · rintro ⟨_, p, rs, hmem, rfl, rfl⟩
      exact ⟨rs, ⟨_, p, rs, hmem, rfl, rfl⟩, rfl⟩
    · rintro ⟨_, ⟨_, p, rs, hmem, rfl, rfl⟩, rfl⟩
      exact ⟨_, p, rs, hmem, rfl, rfl⟩

theorem mem_groups (h : Of requests g) {group : GroupKey} :
    group ∈ g.listed.map (·.1) ↔ group ∈ requests.map (·.group) := by
  simp only [List.mem_map, Prod.exists, exists_and_right, exists_eq_right, h.mem_listed]
  unfold numbersOf
  constructor
  · rintro ⟨numbers, rfl, hne⟩
    obtain ⟨r, hr⟩ := List.exists_mem_of_ne_nil _ (List.map_eq_nil_iff.not.mp hne)
    obtain ⟨hr, hgroup⟩ := List.mem_filter.mp hr
    exact ⟨r, hr, by simpa using hgroup⟩
  · rintro ⟨r, hr, rfl⟩
    refine ⟨_, rfl, ?_⟩
    simp only [ne_eq, List.map_eq_nil_iff]
    exact List.ne_nil_of_mem (List.mem_filter.mpr ⟨hr, by simp⟩)

theorem length_listed (h : Of requests g) :
    g.listed.length = (requests.map (·.group)).dedup.length := by
  rw [← List.length_map (f := fun p : GroupKey × List Nat => p.1)]
  refine List.Perm.length_eq ?_
  rw [List.perm_ext_iff_of_nodup h.nodup_listed (List.nodup_dedup _)]
  intro group
  rw [List.mem_dedup]
  exact h.mem_groups

theorem flatMap_listed (h : Of requests g) :
    (g.listed.flatMap (·.2)).Perm (requests.map (·.number)) := by
  have hnumbers : g.listed.flatMap (·.2) =
      (g.listed.map (·.1)).flatMap fun group => numbersOf group requests := by
    rw [List.flatMap_map]
    refine List.flatMap_congr fun p hp => ?_
    exact (h.mem_listed.mp hp).1
  rw [hnumbers]
  unfold numbersOf
  rw [← List.map_flatMap]
  apply List.Perm.map
  apply flatMap_filter_perm _ _ _ h.nodup_listed
  intro r hr
  exact h.mem_groups.mpr (List.mem_map_of_mem hr)

end Groups.Of

namespace Groups

variable {requests : List (Request C)}

theorem Of.mem_reverse {g : Groups C} (h : Of requests g) {e : ReverseKey × List (KeyedRequest C)}
    (he : e ∈ g.reverse.entries) {r : KeyedRequest C} (hr : r ∈ e.2) : .reverse e.1 r ∈ requests := by
  obtain ⟨q, hq, heq⟩ := List.mem_filterMap.mp (h.reverse.mem_iff.mpr ⟨e.2, he, hr⟩)
  cases q with
  | reverse fetcher r' =>
    obtain ⟨rfl, rfl⟩ := Prod.mk.inj (Option.some.inj heq)
    exact hq
  | entity | batch => cases heq

theorem Of.mem_entity {g : Groups C} (h : Of requests g) {e : MapperKey × List (KeyedRequest C)}
    (he : e ∈ g.entity.entries) {r : KeyedRequest C} (hr : r ∈ e.2) : .entity e.1 r ∈ requests := by
  obtain ⟨q, hq, heq⟩ := List.mem_filterMap.mp (h.entity.mem_iff.mpr ⟨e.2, he, hr⟩)
  cases q with
  | entity mapper r' =>
    obtain ⟨rfl, rfl⟩ := Prod.mk.inj (Option.some.inj heq)
    exact hq
  | reverse | batch => cases heq

/-- A processor's group comes from requests: one that named the processor, and those that it holds. -/
structure FromRequests (requests : List (Request C)) (e : Nat × Processor C × List (BatchRequest C)) :
    Prop where
  processor : ∃ r, .batch e.2.1 r ∈ requests
  request : ∀ r ∈ e.2.2, ∃ p : Processor C, p.id = e.1 ∧ .batch p r ∈ requests

theorem FromRequests.mono {requests' : List (Request C)} {e : Nat × Processor C × List (BatchRequest C)}
    (h : FromRequests requests e) (hle : requests ⊆ requests') : FromRequests requests' e where
  processor := h.processor.imp fun _ hr => hle hr
  request r hr := (h.request r hr).imp fun _ hp => ⟨hp.1, hle hp.2⟩

theorem fromRequests_ofList (requests : List (Request C)) :
    ∀ e ∈ (ofList requests).batch.entries, FromRequests requests e := by
  induction requests using List.reverseRecOn with
  | nil => exact fun e he => absurd he (by simp [ofList, empty, Dict.empty])
  | append_singleton requests r ih =>
    have hle : requests ⊆ requests ++ [r] := List.subset_append_left _ _
    have hofList : ofList (requests ++ [r]) = (ofList requests).add r := by simp [ofList]
    rw [hofList]
    cases r with
    | reverse | entity => exact fun e he => (ih e he).mono hle
    | batch processor r =>
      have hr : .batch processor r ∈ requests ++ [.batch processor r] := by simp
      rw [batch_add]
      intro e he
      rcases Dict.mem_entries_set he with rfl | he
      swap
      · exact (ih e he).mono hle
      -- The processor is that of the first request with its identifier.
      cases hget : (ofList requests).batch.get? processor.id with
      | none => exact ⟨⟨r, hr⟩, fun q hq => ⟨processor, rfl, List.mem_singleton.mp hq ▸ hr⟩⟩
      | some first =>
        have hfirst := (ih _ (Dict.mem_entries_of_get? hget)).mono hle
        refine ⟨hfirst.processor, fun q hq => ?_⟩
        rcases List.mem_append.mp hq with hq | hq
        · exact hfirst.request q hq
        · exact ⟨processor, rfl, List.mem_singleton.mp hq ▸ hr⟩

end Groups

end EntityMapping
