import FastapiTemplate.Convergence

/-!
What a resync recovers after calls to `publish_events` have failed. The mirror
is written by the same pipeline that fails, so a mutation whose events were
lost is as absent from it as from the channel.
-/
namespace FastapiTemplate

open Library.KeyedTable Library.LastWrite

namespace Deployment

variable {d₀ d d' : Deployment}

/-- No version that a commit writes is zero. -/
theorem Steps.version_pos (hinitial : d₀.Initial) (hrun : Steps d₀ d) {userId : Uuid} {v : ℕ}
    (h : lastWrite (Event.version userId) d.committed = some v) : 0 < v := by
  suffices hall : ∀ e ∈ d.committed, ∀ v, e.version userId = some v → 0 < v by
    obtain ⟨e, he, hv⟩ := exists_of_lastWrite h
    exact hall e he v hv
  clear h
  induction hrun with
  | refl => simp [hinitial.committed]
  | tail _ hstep ih =>
    cases hstep with
    | @commit db es c hpublished hflushes =>
      intro e he v hv
      rcases List.mem_append.mp he with hold | hnew
      · exact ih e hold v hv
      · obtain ⟨e', he', rfl⟩ := List.mem_map.mp hnew
        have hpublishes := Change.publishes hpublished hflushes
        rw [version_inRow_of_mem hpublishes he'] at hv
        exact (version_of_mem hpublishes he' hv).2
    | publish before es after _ => exact ih
    | lose before es after _ => exact ih
    | receive e channel _ _ => exact ih
    | resync => exact ih

/-! ### Recovery -/

/-- The cache denies what the database denies. -/
structure Recovered (d : Deployment) : Prop where
  user : ∀ userId u, d.db.users.get userId = some u → u.isActive = false →
    d.cache.isUserInactive userId = true
  tenant : ∀ tenantId x, d.db.tenants.get tenantId = some x → x.isActive = false →
    d.cache.isTenantInactive (some tenantId) = true
  version : ∀ userId u, d.db.users.get userId = some u → d.Bumped userId →
    ∀ v < u.permVersion, d.cache.isStale userId v = true

/-- For every inactive user and tenant, the last status published says so, or
none was published and the mirror said so at the start; for every user bumped,
the last version published, or the one of the mirror at the start when none was,
is not below the last one committed. -/
structure Heard (d₀ d : Deployment) : Prop where
  user : ∀ userId u, d.db.users.get userId = some u → u.isActive = false →
    (lastWrite (Event.userActive userId) d.published).or
      (statusIn d₀.mirror.inactiveUsers userId.str) = some false
  tenant : ∀ tenantId x, d.db.tenants.get tenantId = some x → x.isActive = false →
    (lastWrite (Event.tenantActive tenantId) d.published).or
      (statusIn d₀.mirror.inactiveTenants tenantId.str) = some false
  version : ∀ userId v, lastWrite (Event.version userId) d.committed = some v →
    ∃ n, (lastWrite (Event.version userId) d.published).or (d₀.mirror.version userId) = some n ∧
      v ≤ n

theorem isStale_iff {cache : AuthzCache} {userId : Uuid} {v : ℕ} :
    cache.isStale userId v = true ↔ ∃ n, cache.permVersion.lookup userId = some n ∧ v < n := by
  unfold AuthzCache.isStale
  rcases cache.permVersion.lookup userId with _ | n <;> simp

theorem isUserInactive_resyncOnce {cache : AuthzCache} {m : Mirror} (hm : m.Canonical)
    {userId : Uuid} : (cache.resyncOnce m).isUserInactive userId = true ↔
      statusIn m.inactiveUsers userId.str = some false := by
  rw [statusIn_eq_some_iff, AuthzCache.isUserInactive, decide_eq_true_iff,
    (cache.resyncOnce_of_canonical hm).2.1 userId]
  simp

theorem isTenantInactive_resyncOnce {cache : AuthzCache} {m : Mirror} (hm : m.Canonical)
    {tenantId : Uuid} : (cache.resyncOnce m).isTenantInactive (some tenantId) = true ↔
      statusIn m.inactiveTenants tenantId.str = some false := by
  rw [statusIn_eq_some_iff, AuthzCache.isTenantInactive, decide_eq_true_iff,
    (cache.resyncOnce_of_canonical hm).2.2 tenantId]
  simp

/-- The status of a user in the mirror after a run. -/
theorem mirror_user (hinitial : d₀.Initial) (hrun : Steps d₀ d) (userId : Uuid) :
    statusIn d.mirror.inactiveUsers userId.str =
      (lastWrite (Event.userActive userId) d.published).or
        (statusIn d₀.mirror.inactiveUsers userId.str) :=
  (Steps.follows (userRegister userId) hinitial hrun).mirror

theorem mirror_tenant (hinitial : d₀.Initial) (hrun : Steps d₀ d) (tenantId : Uuid) :
    statusIn d.mirror.inactiveTenants tenantId.str =
      (lastWrite (Event.tenantActive tenantId) d.published).or
        (statusIn d₀.mirror.inactiveTenants tenantId.str) :=
  (Steps.follows (tenantRegister tenantId) hinitial hrun).mirror

theorem mirror_version (hinitial : d₀.Initial) (hrun : Steps d₀ d) (userId : Uuid) :
    d.mirror.version userId =
      (lastWrite (Event.version userId) d.published).or (d₀.mirror.version userId) :=
  (Steps.follows (versionRegister userId) hinitial hrun).mirror

/-- The row of a user who was bumped has the last version committed. -/
theorem row_of_committed (hinitial : d₀.Initial) (hrun : Steps d₀ d) {userId : Uuid} {v : ℕ}
    (h : lastWrite (Event.version userId) d.committed = some v) :
    ∃ u, d.db.users.get userId = some u ∧ u.permVersion = v := by
  have hdb := (Steps.follows (versionRegister userId) hinitial hrun).db
  change (d.db.users.get userId).map User.permVersion =
    (lastWrite (Event.version userId) d.committed).or _ at hdb
  rw [h, Option.some_or] at hdb
  obtain ⟨u, hu, hversion⟩ := Option.map_eq_some_iff.mp hdb
  exact ⟨u, hu, hversion⟩

/-- Tokens of the versions below are stale after the resync when the mirror is
not behind. -/
theorem isStale_resync (hinitial : d₀.Initial) (hrun : Steps d₀ d) {userId : Uuid} {v : ℕ}
    (hv : 0 < v) : (∀ w < v, d.resync.cache.isStale userId w = true) ↔
      ∃ n, (lastWrite (Event.version userId) d.published).or (d₀.mirror.version userId) = some n ∧
        v ≤ n := by
  have hcanonical := (Steps.sound hrun hinitial.sound).canonical
  have hlookup : d.resync.cache.permVersion.lookup userId = d.mirror.version userId :=
    (d.cache.resyncOnce_of_canonical hcanonical).1 userId
  simp only [isStale_iff, hlookup, mirror_version hinitial hrun userId]
  constructor
  · intro hstale
    obtain ⟨n, hn, hlt⟩ := hstale (v - 1) (by omega)
    exact ⟨n, hn, by omega⟩
  · rintro ⟨n, hn, hle⟩ w hw
    exact ⟨n, hn, by omega⟩

theorem recovered_iff (hinitial : d₀.Initial) (hrun : Steps d₀ d) :
    d.resync.Recovered ↔ Heard d₀ d := by
  have hcanonical := (Steps.sound hrun hinitial.sound).canonical
  have huser : ∀ userId, d.resync.cache.isUserInactive userId = true ↔
      (lastWrite (Event.userActive userId) d.published).or
        (statusIn d₀.mirror.inactiveUsers userId.str) = some false := by
    intro userId
    rw [← mirror_user hinitial hrun userId]
    exact isUserInactive_resyncOnce hcanonical
  have htenant : ∀ tenantId, d.resync.cache.isTenantInactive (some tenantId) = true ↔
      (lastWrite (Event.tenantActive tenantId) d.published).or
        (statusIn d₀.mirror.inactiveTenants tenantId.str) = some false := by
    intro tenantId
    rw [← mirror_tenant hinitial hrun tenantId]
    exact isTenantInactive_resyncOnce hcanonical
  constructor
  · intro h
    refine ⟨?_, ?_, ?_⟩
    · intro userId u hu hinactive
      exact (huser userId).mp (h.user userId u hu hinactive)
    · intro tenantId x hx hinactive
      exact (htenant tenantId).mp (h.tenant tenantId x hx hinactive)
    · intro userId v hv
      obtain ⟨u, hu, rfl⟩ := row_of_committed hinitial hrun hv
      have hbumped : d.Bumped userId := bumped_iff.mpr (by rw [hv]; rfl)
      exact (isStale_resync hinitial hrun (Steps.version_pos hinitial hrun hv)).mp
        (h.version userId u hu hbumped)
  · intro h
    refine ⟨?_, ?_, ?_⟩
    · intro userId u hu hinactive
      exact (huser userId).mpr (h.user userId u hu hinactive)
    · intro tenantId x hx hinactive
      exact (htenant tenantId).mpr (h.tenant tenantId x hx hinactive)
    · intro userId u hu hbumped
      obtain ⟨v, hv⟩ := Option.isSome_iff_exists.mp (bumped_iff.mp hbumped)
      obtain ⟨u', hu', rfl⟩ := row_of_committed hinitial hrun hv
      obtain rfl := Option.some.inj (hu.symm.trans hu')
      exact (isStale_resync hinitial hrun (Steps.version_pos hinitial hrun hv)).mpr
        (h.version userId u.permVersion hv)

/-! The superuser is deactivated while Redis is unreachable. -/

/-- A commit whose call is lost. -/
theorem steps_lost {db db' : Db} {es : List Event} (c : Change) (hpublished : c.Published)
    (hflushes : c.Flushes db db' es) :
    Steps (calm db) (((calm db).commit db' es).lose es []) := by
  have hfirst : Step (calm db) ((calm db).commit db' es) := .commit c hpublished hflushes
  have hsecond := Step.lose (d := (calm db).commit db' es) [] es [] rfl
  exact .tail (.single hfirst) hsecond

theorem not_recovered_lost {db db' : Db} {es : List Event} {u : User}
    (hu : db'.users.get u.id = some u) (hinactive : u.isActive = false) :
    ¬ (((calm db).commit db' es).lose es []).resync.Recovered := by
  intro h
  have hdenied := of_decide_eq_true (h.user u.id u hu hinactive)
  have hmem := ((AuthzCache.resyncOnce_of_canonical .empty .empty).2.1 u.id).mp hdenied
  simp [Mirror.empty] at hmem

theorem rootInactive_deactivated : deactivated.users.get rootInactive.id = some rootInactive := by
  decide +kernel

theorem steps_lost_root : Steps (calm seeded)
    (((calm seeded).commit deactivated [.userStatus root.row.id.str false]).lose
      [.userStatus root.row.id.str false] []) :=
  steps_lost (.setUserActive root.row false) trivial deactivated_flushes

theorem recovered_iff_lost_root :
    ∃ d, Steps (calm seeded) d ∧ (d.resync.Recovered ↔ Heard (calm seeded) d) :=
  ⟨_, steps_lost_root, recovered_iff seeded_initial steps_lost_root⟩

theorem deactivation_not_recovered : Reachable seeded ∧ (calm seeded).Initial ∧
    ∃ d, Steps (calm seeded) d ∧ d.pending = [] ∧ ¬ d.resync.Recovered :=
  ⟨seeded_reachable, seeded_initial, _, steps_lost_root, rfl,
    not_recovered_lost rootInactive_deactivated rfl⟩

end Deployment
end FastapiTemplate
