import EntityMapping.Proofs.Errors
import EntityMapping.Proofs.Paths

/-! # Loads that fail

Loading fails with what the source raises, and with what is not known when relations are looked up.
-/

namespace EntityMapping

/-- Only errors of the kind can come of looking up the relations on some paths: either what is not known is of
the kind, or all of them can be walked. -/
def Metadata.LooksUp (metadata : Metadata) (P : Error → Prop) (e : Entity) (paths : List (List String)) : Prop :=
  (∀ err : Error, err.isMissing = true → P err) ∨
    (metadata.Named ∧ metadata.entity? e.name = some e ∧ ∀ p ∈ paths, metadata.Walkable e.name p)

theorem isMissing_requireRelation (e : Entity) (name : String) :
    FailsOnly (fun err => err.isMissing = true) (e.requireRelation name) := by
  unfold Entity.requireRelation
  split
  · exact FailsOnly.ok _
  · exact (FailsOnly.error _).mpr rfl

theorem isMissing_requireEntity (metadata : Metadata) (name : String) :
    FailsOnly (fun err => err.isMissing = true) (metadata.requireEntity name) := by
  unfold Metadata.requireEntity
  split
  · exact FailsOnly.ok _
  · exact (FailsOnly.error _).mpr rfl

namespace Metadata.LooksUp

variable {metadata : Metadata} {P : Error → Prop} {e : Entity} {paths : List (List String)}

theorem mono {paths' : List (List String)} (h : metadata.LooksUp P e paths) (hsubset : paths' ⊆ paths) :
    metadata.LooksUp P e paths' :=
  h.imp_right fun ⟨hnamed, he, hwalk⟩ => ⟨hnamed, he, fun p hp => hwalk p (hsubset hp)⟩

variable {field : String} {nested : List Include} (h : metadata.LooksUp P e (Include.paths ⟨field, nested⟩))
include h

theorem requireRelation : FailsOnly P (e.requireRelation field) := by
  intro err herr
  obtain hmissing | ⟨-, he, hwalk⟩ := h
  · exact hmissing err (isMissing_requireRelation e field err herr)
  · obtain ⟨r, hr, -⟩ := hwalk [field] (Include.mem_paths.mpr (Or.inl rfl))
    rw [requireRelation_eq_ok.mpr ((Metadata.navigation_of_entity? he).mp hr)] at herr
    cases herr

theorem requireEntity {r : Relation} (hr : e.relation? field = some r) :
    FailsOnly P (metadata.requireEntity r.target) := by
  intro err herr
  obtain hmissing | ⟨-, he, hwalk⟩ := h
  · exact hmissing err (isMissing_requireEntity metadata _ err herr)
  · obtain ⟨r', hr', target, htarget⟩ := hwalk [field] (Include.mem_paths.mpr (Or.inl rfl))
    obtain rfl := Option.some.inj (hr.symm.trans ((Metadata.navigation_of_entity? he).mp hr'))
    rw [requireEntity_eq_ok.mpr htarget] at herr
    cases herr

theorem target {r : Relation} (hr : e.relation? field = some r) {target : Entity}
    (htarget : metadata.entity? r.target = some target) :
    metadata.LooksUp P target (Include.pathsOf nested) := by
  refine h.imp_right fun ⟨hnamed, he, hwalk⟩ => ?_
  have hname : target.name = r.target := hnamed _ _ htarget
  refine ⟨hnamed, hname ▸ htarget, fun p hp => ?_⟩
  obtain ⟨r', hr', hwalkable⟩ := hwalk (field :: p) (Include.mem_paths.mpr (Or.inr ⟨p, hp, rfl⟩))
  obtain rfl := Option.some.inj (hr.symm.trans ((Metadata.navigation_of_entity? he).mp hr'))
  exact hname ▸ hwalkable

end Metadata.LooksUp

section Loading

variable {P : Error → Prop} {source : DataSource}
  (hsource : ∀ history e filter, FailsOnly P (source.reply history e filter).rows) (metadata : Metadata)

include hsource in
theorem failsOnly_load (e : Entity) (filter : Option KeyFilter) (l : Loading) :
    After (source.load e filter) l fun result _ => FailsOnly P result :=
  hsource l.journal.loads e filter

include hsource in
theorem failsOnly_loadByKeys (target : Entity) (column : String) (keys : List Key) (l : Loading) :
    After (Source.loadByKeys source target column keys) l fun result _ => FailsOnly P result := by
  unfold Source.loadByKeys
  split
  · exact FailsOnly.ok _
  · exact failsOnly_load hsource target _ l

mutual

theorem failsOnly_attach (hsource : ∀ history e filter, FailsOnly P (source.reply history e filter).rows)
    (metadata : Metadata) : ∀ (i : Include) {e : Entity}, metadata.LooksUp P e i.paths →
    ∀ (rows : List Row) (l : Loading),
      After (Source.attach source metadata e rows i) l fun result _ => FailsOnly P result
  | ⟨field, nested⟩, e, hlooksUp, rows, l => by
    unfold Source.attach
    refine After.ofExcept_bind (fun relation hrelation => ?_) fun err herr =>
      (FailsOnly.error err).mpr (hlooksUp.requireRelation err herr)
    have hrelation := requireRelation_eq_ok.mp hrelation
    refine After.ofExcept_bind (fun target htarget => ?_) fun err herr =>
      (FailsOnly.error err).mpr (hlooksUp.requireEntity hrelation err herr)
    have hnested := hlooksUp.target hrelation (requireEntity_eq_ok.mp htarget)
    rw [After.bind_iff]
    apply (failsOnly_loadByKeys hsource target _ _ l).mono
    rintro (err | related) l₁ herr
    · exact (FailsOnly.error err).mpr (herr err rfl)
    rw [either_ok, After.bind_iff]
    apply (failsOnly_attachAll hsource metadata nested hnested related l₁).mono
    rintro (err | related) l₂ herr
    · exact (FailsOnly.error err).mpr (herr err rfl)
    · exact FailsOnly.ok _

theorem failsOnly_attachAll (hsource : ∀ history e filter, FailsOnly P (source.reply history e filter).rows)
    (metadata : Metadata) : ∀ (is : List Include) {e : Entity}, metadata.LooksUp P e (Include.pathsOf is) →
    ∀ (rows : List Row) (l : Loading),
      After (Source.attachAll source metadata e rows is) l fun result _ => FailsOnly P result
  | [], _, _, _, _ => FailsOnly.ok _
  | i :: rest, e, hlooksUp, rows, l => by
    unfold Source.attachAll
    rw [After.bind_iff]
    apply (failsOnly_attach hsource metadata i (hlooksUp.mono (List.subset_append_left _ _)) rows l).mono
    rintro (err | rows) l₁ herr
    · exact (FailsOnly.error err).mpr (herr err rfl)
    · exact failsOnly_attachAll hsource metadata rest (hlooksUp.mono (List.subset_append_right _ _)) rows l₁

end

include hsource in
theorem failsOnly_fetch {q : Query} (hroot : FailsOnly P (metadata.requireEntity q.entity))
    (hlooksUp : ∀ e, metadata.entity? q.entity = some e → metadata.LooksUp P e (Include.pathsOf q.includes))
    (l : Loading) : After (Source.fetch source metadata q) l fun result _ => FailsOnly P result := by
  unfold Source.fetch
  split
  · exact FailsOnly.ok _
  · refine After.ofExcept_bind (fun e he => ?_) fun err herr => (FailsOnly.error err).mpr (hroot err herr)
    rw [After.bind_iff]
    apply (failsOnly_load hsource e q.filter l).mono
    rintro (err | rows) l₁ herr
    · exact (FailsOnly.error err).mpr (herr err rfl)
    · exact failsOnly_attachAll hsource metadata q.includes (hlooksUp e (requireEntity_eq_ok.mp he)) rows l₁

include hsource in
theorem failsOnly_fetch_of_missing (hmissing : ∀ e : Error, e.isMissing = true → P e) (q : Query) (l : Loading) :
    After (Source.fetch source metadata q) l fun result _ => FailsOnly P result :=
  failsOnly_fetch hsource metadata (fun e he => hmissing e (isMissing_requireEntity _ _ e he))
    (fun _ _ => Or.inl hmissing) l

end Loading

end EntityMapping
