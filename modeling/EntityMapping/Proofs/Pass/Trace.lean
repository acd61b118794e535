import EntityMapping.Proofs.Pass.Waves
import Mathlib.Algebra.GroupWithZero.Nat

/-! # The trace of a pass

The marks of a pass fall into segments: what happened before the first wave, and then each wave. A segment
tells which requests were queued in it, which were given their values, and how its groups were resolved.
-/

namespace EntityMapping

variable {C : Type}

/-! ## Reading marks -/

/-- The marks before the first wave, and those of each wave. -/
def waveSegments : List Mark → List (List Mark)
  | [] => [[]]
  | .wave :: marks => [] :: waveSegments marks
  | m :: marks => (waveSegments marks).modifyHead (m :: ·)

/-- The requests that were queued, with their groups. -/
def queuedIn (marks : List Mark) : List (Nat × GroupKey) :=
  marks.filterMap fun
    | .queued request group => some (request, group)
    | _ => none

/-- The requests that were given their values. -/
def deliveredIn (marks : List Mark) : List Nat :=
  marks.filterMap fun
    | .delivered request => some request
    | _ => none

/-- A group that was resolved, with its requests and those that were given their values since. -/
structure Resolution where
  group : GroupKey
  requests : List Nat
  delivered : List Nat

/-- Reads one more mark. The latest resolution comes first. -/
def Resolution.read : List Resolution → Mark → List Resolution
  | found, .resolving group requests => ⟨group, requests, []⟩ :: found
  | latest :: found, .delivered request =>
    ⟨latest.group, latest.requests, latest.delivered ++ [request]⟩ :: found
  | found, _ => found

/-- The groups that were resolved, the latest first. -/
def resolutions (marks : List Mark) : List Resolution := marks.foldl Resolution.read []

/-- A wave after what was queued before it: every request is given its value once, and every group is
resolved once, with all of its requests in the order in which they were queued. -/
structure WaveExact (before wave : List Mark) : Prop where
  delivered : (deliveredIn wave).Perm ((queuedIn before).map (·.1))
  once : ((resolutions wave).map (·.group)).Nodup
  groups : ∀ group, group ∈ (resolutions wave).map (·.group) ↔ group ∈ (queuedIn before).map (·.2)
  whole : ∀ resolution ∈ resolutions wave, resolution.requests =
    ((queuedIn before).filter (·.2 = resolution.group)).map (·.1)
  served : ∀ resolution ∈ resolutions wave, resolution.delivered.Perm resolution.requests
  inOrder : ∀ resolution ∈ resolutions wave, (∀ id, resolution.group ≠ .batch id) →
    resolution.delivered = resolution.requests

/-! ## Segments -/

theorem waveSegments_ne_nil (marks : List Mark) : waveSegments marks ≠ [] := by
  induction marks with
  | nil => simp [waveSegments]
  | cons m marks ih => cases m <;> simp [waveSegments, ih]

theorem waveSegments_append (marks marks' : List Mark) :
    waveSegments (marks ++ .wave :: marks') = waveSegments marks ++ waveSegments marks' := by
  induction marks with
  | nil => rfl
  | cons m marks ih =>
    cases m with
    | wave => simp only [List.cons_append, waveSegments, ih]
    | queued | resolving | delivered =>
      simp only [List.cons_append, waveSegments, ih]
      obtain ⟨first, rest, heq⟩ := List.exists_cons_of_ne_nil (waveSegments_ne_nil marks)
      rw [heq]
      rfl

theorem waveSegments_of_not_mem {marks : List Mark} (h : .wave ∉ marks) :
    waveSegments marks = [marks] := by
  induction marks with
  | nil => rfl
  | cons m marks ih =>
    rw [List.mem_cons, not_or] at h
    cases m with
    | wave => exact absurd rfl h.1
    | queued | resolving | delivered =>
      simp only [waveSegments, ih h.2]
      rfl

/-! ## Blocks -/

namespace Block

def resolution (b : Block C) : Resolution := ⟨b.group, b.requests, b.delivered⟩

end Block

theorem queuedIn_append (marks marks' : List Mark) :
    queuedIn (marks ++ marks') = queuedIn marks ++ queuedIn marks' := by simp [queuedIn]

theorem queuedIn_new (new : List (Request C)) :
    queuedIn (new.map (·.mark)) = new.map fun r => (r.number, r.group) := by
  simp [queuedIn, List.filterMap_map, Request.mark]

theorem queuedIn_block (b : Block C) : queuedIn b.marks = b.new.map fun r => (r.number, r.group) := by
  have hdelivered : queuedIn (b.delivered.map .delivered) = [] := by
    simp [queuedIn, List.filterMap_map]
  have happend := queuedIn_append (b.new.map (·.mark)) (b.delivered.map .delivered)
  rw [queuedIn_new, hdelivered, List.append_nil] at happend
  exact happend

theorem deliveredIn_append (marks marks' : List Mark) :
    deliveredIn (marks ++ marks') = deliveredIn marks ++ deliveredIn marks' := by simp [deliveredIn]

theorem deliveredIn_new (new : List (Request C)) : deliveredIn (new.map (·.mark)) = [] := by
  simp [deliveredIn, List.filterMap_map, Request.mark]

theorem deliveredIn_block (b : Block C) : deliveredIn b.marks = b.delivered := by
  have hdelivered : deliveredIn (b.delivered.map .delivered) = b.delivered := by
    simp [deliveredIn, List.filterMap_map]
  have happend := deliveredIn_append (b.new.map (·.mark)) (b.delivered.map .delivered)
  rw [deliveredIn_new, hdelivered, List.nil_append] at happend
  exact happend

theorem foldl_read_new (found : List Resolution) (new : List (Request C)) :
    (new.map (·.mark)).foldl Resolution.read found = found := by
  induction new with
  | nil => rfl
  | cons r new ih =>
    rw [List.map_cons, List.foldl_cons]
    cases found <;> exact ih

theorem foldl_read_delivered (latest : Resolution) (found : List Resolution) (numbers : List Nat) :
    (numbers.map .delivered).foldl Resolution.read (latest :: found) =
      ⟨latest.group, latest.requests, latest.delivered ++ numbers⟩ :: found := by
  induction numbers generalizing latest with
  | nil => simp
  | cons n numbers ih =>
    rw [List.map_cons, List.foldl_cons]
    exact (ih ⟨latest.group, latest.requests, latest.delivered ++ [n]⟩).trans (by simp)

theorem foldl_read_block (found : List Resolution) (b : Block C) :
    b.marks.foldl Resolution.read found = b.resolution :: found := by
  unfold Block.marks
  rw [List.foldl_cons, List.foldl_append, foldl_read_new]
  exact foldl_read_delivered ⟨b.group, b.requests, []⟩ found b.delivered

theorem foldl_read_blocks (found : List Resolution) (blocks : List (Block C)) :
    (blocks.flatMap (·.marks)).foldl Resolution.read found =
      (blocks.map (·.resolution)).reverse ++ found := by
  induction blocks generalizing found with
  | nil => rfl
  | cons b blocks ih =>
    rw [List.flatMap_cons, List.foldl_append, foldl_read_block, ih]
    simp

theorem queuedIn_blocks (blocks : List (Block C)) :
    queuedIn (blocks.flatMap (·.marks)) =
      (blocks.flatMap (·.new)).map fun r => (r.number, r.group) := by
  induction blocks with
  | nil => rfl
  | cons b blocks ih =>
    rw [List.flatMap_cons, queuedIn_append, queuedIn_block, ih, List.flatMap_cons, List.map_append]

theorem deliveredIn_blocks (blocks : List (Block C)) :
    deliveredIn (blocks.flatMap (·.marks)) = blocks.flatMap (·.delivered) := by
  induction blocks with
  | nil => rfl
  | cons b blocks ih =>
    rw [List.flatMap_cons, List.flatMap_cons, ← ih, ← deliveredIn_block b]
    exact deliveredIn_append _ _

theorem wave_not_mem_blocks (blocks : List (Block C)) : .wave ∉ blocks.flatMap (·.marks) := by
  simp [Block.marks, Request.mark]

/-! ## Histories -/

/-- How the account of a pass comes about when nothing fails: rows are mapped, and then every wave resolves
all groups of what was queued before it. -/
inductive History : Account C → Prop
  | start {new : List (Request C)} {hooks : List (PendingHook C)} : Numbered 0 new →
    History ⟨new, hooks, new.length, 0, 0, new.map (·.mark)⟩
  | wave {a : Account C} {blocks : List (Block C)} : History a →
    blocks.map (fun b => (b.group, b.requests)) = (Groups.ofList a.requests).listed →
    (∀ b ∈ blocks, b.Exact) → Numbered a.queued (blocks.flatMap (·.new)) →
    History (Account.resolvedAll { a with requests := [], hooks := [] }.opened blocks)

theorem waveExact_blocks {before : List Mark} {requests : List (Request C)}
    (hqueued : queuedIn before = requests.map fun r => (r.number, r.group)) {blocks : List (Block C)}
    (hgroups : blocks.map (fun b => (b.group, b.requests)) = (Groups.ofList requests).listed)
    (hexact : ∀ b ∈ blocks, b.Exact) : WaveExact before (blocks.flatMap (·.marks)) := by
  have hof := Groups.of_ofList requests
  have hresolutions : resolutions (blocks.flatMap (·.marks)) = (blocks.map (·.resolution)).reverse := by
    unfold resolutions
    rw [foldl_read_blocks, List.append_nil]
  have hmem : ∀ resolution ∈ resolutions (blocks.flatMap (·.marks)), ∃ b ∈ blocks,
      b.resolution = resolution := by
    intro resolution h
    rw [hresolutions, List.mem_reverse] at h
    exact List.mem_map.mp h
  have hnames : (resolutions (blocks.flatMap (·.marks))).map (·.group) =
      ((Groups.ofList requests).listed.map (·.1)).reverse := by
    rw [hresolutions, List.map_reverse, List.map_map, ← hgroups, List.map_map]
    rfl
  have hrequested : (queuedIn before).map (·.2) = requests.map (·.group) := by
    rw [hqueued, List.map_map]
    rfl
  refine ⟨?_, ?_, ?_, ?_, ?_, ?_⟩
  · rw [deliveredIn_blocks, hqueued, List.map_map]
    have hflat : (blocks.flatMap (·.requests)).Perm (requests.map (·.number)) := by
      have := hof.flatMap_listed
      rw [← hgroups, List.flatMap_map] at this
      exact this
    refine List.Perm.trans ?_ hflat
    exact List.Perm.flatMap_left _ fun b hb => (hexact b hb).perm
  · rw [hnames, List.nodup_reverse]
    exact hof.nodup_listed
  · intro group
    rw [hnames, List.mem_reverse, hrequested]
    exact hof.mem_groups
  · intro resolution h
    obtain ⟨b, hb, rfl⟩ := hmem resolution h
    have hlisted : (b.group, b.requests) ∈ (Groups.ofList requests).listed := by
      rw [← hgroups]
      exact List.mem_map_of_mem (f := fun b : Block C => (b.group, b.requests)) hb
    rw [hqueued, List.filter_map, List.map_map]
    exact (hof.mem_listed.mp hlisted).1
  · intro resolution h
    obtain ⟨b, hb, rfl⟩ := hmem resolution h
    exact (hexact b hb).perm
  · intro resolution h hbatch
    obtain ⟨b, hb, rfl⟩ := hmem resolution h
    have := hexact b hb
    unfold Block.Exact at this
    split at this
    · rename_i id hid
      exact absurd hid (hbatch id)
    · exact this

/-- What the marks of an account say when nothing failed. -/
structure Settled (a : Account C) (front : List (List Mark)) (last : List Mark) : Prop where
  segments_eq : waveSegments a.marks = front ++ [last]
  /-- The requests of the last segment are those that are still queued. -/
  queued_eq : queuedIn last = a.requests.map fun r => (r.number, r.group)
  chained : (front ++ [last]).IsChain WaveExact
  unserved : ∀ first ∈ (front ++ [last]).head?, deliveredIn first = [] ∧ resolutions first = []
  waves_eq : a.waves = front.length
  fetchGroups_eq :
    a.fetchGroups = (front.map fun segment => ((queuedIn segment).map (·.2)).dedup.length).sum
  numbered : (queuedIn a.marks).map (·.1) = List.range a.queued
  served : ∀ resolution ∈ resolutions a.marks, resolution.delivered.Perm resolution.requests

theorem History.settled {a : Account C} (h : History a) : ∃ front last, Settled a front last := by
  induction h with
  | @start new hooks hnumbered =>
    have hwave : .wave ∉ new.map (·.mark) := by simp [Request.mark]
    have hresolutions : resolutions (new.map (·.mark)) = [] := foldl_read_new [] new
    refine ⟨[], new.map (·.mark), ?_, queuedIn_new new, by simp, ?_, rfl, rfl, ?_,
      by simp [hresolutions]⟩
    · exact waveSegments_of_not_mem hwave
    · rintro first hfirst
      obtain rfl : new.map (·.mark) = first := by simpa using hfirst
      exact ⟨deliveredIn_new new, hresolutions⟩
    · rw [queuedIn_new, List.map_map, List.range_eq_range']
      exact hnumbered
  | @wave a blocks _ hgroups hexact hnumbered ih =>
    obtain ⟨front, last, h⟩ := ih
    have hmarks : (Account.resolvedAll { a with requests := [], hooks := [] }.opened blocks).marks =
        a.marks ++ .wave :: blocks.flatMap (·.marks) := by
      simp [Account.resolvedAll, Account.opened]
    refine ⟨front ++ [last], blocks.flatMap (·.marks), ?_, ?_, ?_, ?_, ?_, ?_, ?_, ?_⟩
    · rw [hmarks, waveSegments_append, h.segments_eq,
        waveSegments_of_not_mem (wave_not_mem_blocks blocks)]
    · exact queuedIn_blocks blocks
    · rw [List.isChain_append]
      refine ⟨h.chained, List.isChain_singleton _, ?_⟩
      simpa using waveExact_blocks h.queued_eq hgroups hexact
    · intro first hfirst
      apply h.unserved
      cases front <;> simpa using hfirst
    · rw [List.length_append, ← h.waves_eq]
      rfl
    -- The wave resolves one group for each kind of request that was queued.
    · have hcount : blocks.length = ((queuedIn last).map (·.2)).dedup.length := by
        have := (Groups.of_ofList a.requests).length_listed
        rw [← hgroups, List.length_map] at this
        rw [this, h.queued_eq, List.map_map]
        rfl
      rw [List.map_append, List.sum_append, ← h.fetchGroups_eq, List.map_singleton, List.sum_singleton,
        ← hcount]
      rfl
    · have hwave : queuedIn (.wave :: blocks.flatMap (·.marks)) =
          (blocks.flatMap (·.new)).map fun r => (r.number, r.group) := queuedIn_blocks blocks
      have hnew : (blocks.flatMap (·.new)).map (·.number) =
          List.range' a.queued (blocks.flatMap (·.new)).length := hnumbered
      rw [hmarks, queuedIn_append, List.map_append, h.numbered, hwave, List.map_map]
      refine (congrArg (List.range a.queued ++ ·) hnew).trans ?_
      have happend := @List.range'_append_1 0 a.queued (blocks.flatMap (·.new)).length
      rw [Nat.zero_add, ← List.range_eq_range', ← List.range_eq_range'] at happend
      exact happend
    · have hread : resolutions (a.marks ++ .wave :: blocks.flatMap (·.marks)) =
          (blocks.map (·.resolution)).reverse ++ resolutions a.marks := by
        unfold resolutions
        rw [List.foldl_append, List.foldl_cons]
        exact foldl_read_blocks (a.marks.foldl Resolution.read []) blocks
      intro resolution hresolution
      rw [hmarks, hread, List.mem_append, List.mem_reverse] at hresolution
      rcases hresolution with hresolution | hresolution
      · obtain ⟨b, hb, rfl⟩ := List.mem_map.mp hresolution
        exact (hexact b hb).perm
      · exact h.served resolution hresolution

end EntityMapping
