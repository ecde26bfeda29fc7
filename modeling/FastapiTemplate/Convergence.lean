import FastapiTemplate.AuthzSync
import FastapiTemplate.System

/-!
Where the copies of the authorization state end up. The mirror keeps the last
published value of an entry and the database what the last commit has left in
its row, so the copies converge exactly when the last publish of every entry
carries that value. It does not when the calls overtake each other, nor when a
request has loaded a row before another one changed it.
-/
namespace FastapiTemplate

open Library.KeyedTable Library.LastWrite

variable {d₀ d : Deployment}

/-! ### Publish order -/

/-- The copies of an entry that is written, or agreed at the start, show the
value of the database when the last publish wrote it. -/
theorem entry_converged_iff {α : Type} {r : Register α} (h : r.Follows d₀ d)
    (hnone : lastWrite r.writes d.committed = none ↔ lastWrite r.writes d.published = none)
    (hreceived : d.channel = [])
    (hstart : lastWrite r.writes d.committed = none → ∀ a, r.inDb d₀.db = some a →
      r.inMirror d₀.mirror = some a ∧ r.inCache d₀.cache = some a) :
    (∀ a, r.inDb d.db = some a → r.inMirror d.mirror = some a ∧ r.inCache d.cache = some a) ↔
      lastWrite r.writes d.published = lastWrite r.writes d.committed := by
  have hdb := h.db
  have hmirror := h.mirror
  obtain ⟨a₀, ha₀, hcache⟩ := h.cache
  rw [hreceived, lastWrite_nil, Option.none_or] at hcache
  rcases hcommitted : lastWrite r.writes d.committed with _ | b
  · have hpublished := hnone.mp hcommitted
    rw [hcommitted, Option.none_or] at hdb
    rw [hpublished, Option.none_or] at hmirror hcache
    refine ⟨fun _ => hpublished, ?_⟩
    intro _ a ha
    rw [hdb] at ha
    obtain ⟨hinMirror, hinCache⟩ := hstart hcommitted a ha
    rw [hmirror, hcache]
    refine ⟨hinMirror, ?_⟩
    rcases ha₀ with rfl | rfl
    · exact hinCache
    · exact hinMirror
  · rw [hcommitted, Option.some_or] at hdb
    rcases hpublished : lastWrite r.writes d.published with _ | c
    · rw [hnone.mpr hpublished] at hcommitted
      cases hcommitted
    · rw [hpublished, Option.some_or] at hmirror hcache
      rw [hdb, hmirror, hcache]
      constructor
      · intro hvalue
        exact (hvalue b rfl).1
      · intro hsame a ha
        rw [hsame, ha]
        exact ⟨rfl, rfl⟩

theorem statusIn_eq_some_iff {α : Type} [DecidableEq α] {inactive : Finset α} {id : α}
    {isActive : Bool} :
    statusIn inactive id = some isActive ↔ (id ∈ inactive ↔ isActive = false) := by
  by_cases hid : id ∈ inactive <;> cases isActive <;> simp [statusIn, hid]

namespace Deployment

def Bumped (d : Deployment) (userId : Uuid) : Prop :=
  ∃ version, Event.permVersion userId.str version ∈ d.committed

structure Converged (d : Deployment) : Prop where
  version : ∀ userId, d.Bumped userId → ∃ u, d.db.users.get userId = some u ∧
    d.mirror.version userId = some u.permVersion ∧
    d.cache.permVersion.lookup userId = some u.permVersion
  status : d.StatusAgrees

/-- The last publish of every entry carries the value that the last commit of the
entry has left in its row. -/
structure PublishedLast (d : Deployment) : Prop where
  version : ∀ userId, lastWrite (Event.version userId) d.published =
    lastWrite (Event.version userId) d.committed
  user : ∀ userId, lastWrite (Event.userActive userId) d.published =
    lastWrite (Event.userActive userId) d.committed
  tenant : ∀ tenantId, lastWrite (Event.tenantActive tenantId) d.published =
    lastWrite (Event.tenantActive tenantId) d.committed

theorem bumped_iff {userId : Uuid} :
    d.Bumped userId ↔ (lastWrite (Event.version userId) d.committed).isSome := by
  constructor
  · rintro ⟨version, hmem⟩
    exact lastWrite_isSome_of_mem hmem (version_eq_some_iff.mpr rfl)
  · intro hsome
    obtain ⟨version, hversion⟩ := Option.isSome_iff_exists.mp hsome
    obtain ⟨e, he, hwrite⟩ := exists_of_lastWrite hversion
    rw [version_eq_some_iff.mp hwrite] at he
    exact ⟨version, he⟩

/-- With every call through, an entry is published when it is committed. -/
theorem Sound.lastWrite_eq_none_iff {α : Type} (h : d.Sound) (r : Register α)
    (hlost : d.lost = []) (hpending : d.pending = []) :
    lastWrite r.writes d.committed = none ↔ lastWrite r.writes d.published = none :=
  ⟨h.published_eq_none r, h.committed_eq_none r hlost hpending⟩

section Quiescent

variable (hinitial : d₀.Initial) (hrun : Steps d₀ d) (hlost : d.lost = [])
  (hpending : d.pending = []) (hreceived : d.channel = [])

include hinitial hrun hlost hpending hreceived

theorem version_converged_iff (userId : Uuid) :
    (d.Bumped userId → ∃ u, d.db.users.get userId = some u ∧
      d.mirror.version userId = some u.permVersion ∧
      d.cache.permVersion.lookup userId = some u.permVersion) ↔
    lastWrite (Event.version userId) d.published =
      lastWrite (Event.version userId) d.committed := by
  have hsound := Steps.sound hrun hinitial.sound
  have hnone := hsound.lastWrite_eq_none_iff (versionRegister userId) hlost hpending
  have hfollows := Steps.follows (versionRegister userId) hinitial hrun
  by_cases hbumped : d.Bumped userId
  · obtain ⟨b, hb⟩ := Option.isSome_iff_exists.mp (bumped_iff.mp hbumped)
    have hentry := entry_converged_iff hfollows hnone hreceived
      (fun hnone => absurd (hb.symm.trans hnone) (Option.some_ne_none b))
    refine Iff.trans ?_ hentry
    have hdb := hfollows.db
    change (d.db.users.get userId).map User.permVersion =
      (lastWrite (Event.version userId) d.committed).or _ at hdb
    rw [hb, Option.some_or] at hdb
    obtain ⟨u, hu, _⟩ := Option.map_eq_some_iff.mp hdb
    simp [hbumped, hu, versionRegister]
  · have hcommitted : lastWrite (Event.version userId) d.committed = none := by
      rw [bumped_iff, Option.not_isSome_iff_eq_none] at hbumped
      exact hbumped
    have hpublished : lastWrite (Event.version userId) d.published = none := hnone.mp hcommitted
    simp [hbumped, hcommitted, hpublished]

theorem user_converged_iff (userId : Uuid) :
    (∀ u, d.db.users.get userId = some u →
      (userId.str ∈ d.mirror.inactiveUsers ↔ u.isActive = false) ∧
        (userId ∈ d.cache.inactiveUserIds ↔ u.isActive = false)) ↔
    lastWrite (Event.userActive userId) d.published =
      lastWrite (Event.userActive userId) d.committed := by
  have hsound := Steps.sound hrun hinitial.sound
  have hfollows := Steps.follows (userRegister userId) hinitial hrun
  have hentry := entry_converged_iff hfollows
    (hsound.lastWrite_eq_none_iff _ hlost hpending) hreceived (fun _ => by
      simpa [userRegister, statusIn_eq_some_iff] using hinitial.status.user userId)
  simpa [userRegister, statusIn_eq_some_iff] using hentry

theorem tenant_converged_iff (tenantId : Uuid) :
    (∀ x, d.db.tenants.get tenantId = some x →
      (tenantId.str ∈ d.mirror.inactiveTenants ↔ x.isActive = false) ∧
        (tenantId ∈ d.cache.inactiveTenantIds ↔ x.isActive = false)) ↔
    lastWrite (Event.tenantActive tenantId) d.published =
      lastWrite (Event.tenantActive tenantId) d.committed := by
  have hsound := Steps.sound hrun hinitial.sound
  have hfollows := Steps.follows (tenantRegister tenantId) hinitial hrun
  have hentry := entry_converged_iff hfollows
    (hsound.lastWrite_eq_none_iff _ hlost hpending) hreceived (fun _ => by
      simpa [tenantRegister, statusIn_eq_some_iff] using hinitial.status.tenant tenantId)
  simpa [tenantRegister, statusIn_eq_some_iff] using hentry

theorem converged_iff : d.Converged ↔ d.PublishedLast := by
  have hversion := version_converged_iff hinitial hrun hlost hpending hreceived
  have huser := user_converged_iff hinitial hrun hlost hpending hreceived
  have htenant := tenant_converged_iff hinitial hrun hlost hpending hreceived
  constructor
  · intro h
    exact ⟨fun userId => (hversion userId).mp (h.version userId),
      fun userId => (huser userId).mp (h.status.user userId),
      fun tenantId => (htenant tenantId).mp (h.status.tenant tenantId)⟩
  · intro h
    exact ⟨fun userId => (hversion userId).mpr (h.version userId),
      fun userId => (huser userId).mpr (h.user userId),
      fun tenantId => (htenant tenantId).mpr (h.tenant tenantId)⟩

end Quiescent

/-- Before anything is published. -/
def calm (db : Db) : Deployment := ⟨db, Mirror.empty, AuthzCache.empty, [], [], [], [], []⟩

theorem calm_initial {db : Db} (husers : ∀ u ∈ db.users.rows, u.isActive = true)
    (htenants : ∀ x ∈ db.tenants.rows, x.isActive = true) : (calm db).Initial where
  canonical := Mirror.Canonical.empty
  channel := rfl
  pending := rfl
  committed := rfl
  published := rfl
  lost := rfl
  version := by simp [calm, Mirror.version, Mirror.empty]
  status := by
    refine ⟨?_, ?_⟩
    · intro userId u hu
      simp [calm, Mirror.empty, AuthzCache.empty, husers u (Table.mem_of_get hu)]
    · intro tenantId x hx
      simp [calm, Mirror.empty, AuthzCache.empty, htenants x (Table.mem_of_get hx)]

/-- Two commits with the call of the second ahead of the call of the first. -/
def overtaken (db db₁ db₂ : Db) (es₁ es₂ : List Event) : Deployment :=
  ((((calm db).commit db₁ es₁).commit db₂ es₂).publish es₂ [es₁]).publish es₁ []

theorem steps_overtaken {db db₁ db₂ : Db} {es₁ es₂ : List Event} (c₁ c₂ : Change)
    (hpublished₁ : c₁.Published) (hflushes₁ : c₁.Flushes db db₁ es₁)
    (hpublished₂ : c₂.Published) (hflushes₂ : c₂.Flushes db₁ db₂ es₂) :
    Steps (calm db) (overtaken db db₁ db₂ es₁ es₂) := by
  have hfirst : Step (calm db) ((calm db).commit db₁ es₁) := .commit c₁ hpublished₁ hflushes₁
  have hsecond := Step.commit (d := (calm db).commit db₁ es₁) c₂ hpublished₂ hflushes₂
  have hthird := Step.publish (d := ((calm db).commit db₁ es₁).commit db₂ es₂) [es₁] es₂ [] rfl
  have hfourth := Step.publish
    (d := (((calm db).commit db₁ es₁).commit db₂ es₂).publish es₂ [es₁]) [] es₁ [] rfl
  exact .tail (.tail (.tail (.single hfirst) hsecond) hthird) hfourth

/-- When the two deactivate and activate a user, the copies say inactive for good. -/
theorem overtaken_diverges {db db₁ db₂ : Db} {u : User} (hinitial : (calm db).Initial)
    (hsteps : Steps (calm db) (overtaken db db₁ db₂ [.userStatus u.id.str false]
      [.userStatus u.id.str true]))
    (hu : db₂.users.get u.id = some u) (hactive : u.isActive = true) :
    ∃ d, Steps (calm db) d ∧ d.lost = [] ∧ d.pending = [] ∧ d.channel = [] ∧
      ¬ d.Converged := by
  obtain ⟨cache, hdrain⟩ := (Steps.sound hsteps hinitial.sound).drain
  refine ⟨_, hsteps.trans hdrain, rfl, rfl, rfl, ?_⟩
  intro h
  have hagrees := (h.status.user u.id u hu).1
  have hmem : u.id.str ∈ ((overtaken db db₁ db₂ [.userStatus u.id.str false]
      [.userStatus u.id.str true]).receive cache []).mirror.inactiveUsers := by
    simp [overtaken, publish, receive, publishEvents, Mirror.write, Mirror.Canonical.mem_setStatus]
  rw [hagrees.mp hmem] at hactive
  cases hactive

/-- A request that sets the status it has loaded, on a row that says otherwise by
then, announces it and leaves the row. The copies diverge with the calls in the
order of the commits. -/
theorem stale_status_diverges (hinitial : d₀.Initial) (hrun : Steps d₀ d) (hlost : d.lost = [])
    (hpending : d.pending = []) {v u : User} {db₁ : Db} {es : List Event}
    (hu : d.db.users.get v.id = some u) (hstale : v.isActive ≠ u.isActive)
    (hcommit : (Change.setUserActive v v.isActive).Commits d.db db₁ es) :
    ∃ d', Steps d d' ∧ d'.lost = [] ∧ d'.pending = [] ∧ d'.channel = [] ∧ ¬ d'.Converged := by
  obtain ⟨a, hbody⟩ := hcommit
  obtain ⟨_, _, rfl⟩ := UserRepository.setActiveTx_eq_ok hbody
  have hflushes : (Change.setUserActive v v.isActive).Flushes d.db d.db
      [.userStatus v.id.str v.isActive] := ⟨db₁, ⟨a, hbody⟩, by simp [Change.flush]⟩
  have hfirst : Step d (d.commit d.db [.userStatus v.id.str v.isActive]) :=
    .commit (.setUserActive v v.isActive) trivial hflushes
  have hsecond := Step.publish (d := d.commit d.db [.userStatus v.id.str v.isActive]) []
    [.userStatus v.id.str v.isActive] [] (by simp [commit, hpending])
  have hsteps : Steps d _ := .tail (.single hfirst) hsecond
  obtain ⟨cache, hdrain⟩ := (Steps.sound (hrun.trans hsteps) hinitial.sound).drain
  refine ⟨_, hsteps.trans hdrain, hlost, rfl, rfl, ?_⟩
  intro h
  have hagrees := (h.status.user v.id u hu).1
  have hmem : v.id.str ∈ ((((d.commit d.db [.userStatus v.id.str v.isActive]).publish
      [.userStatus v.id.str v.isActive] []).receive cache []).mirror.inactiveUsers) ↔
      v.isActive = false := by
    simp [publish, receive, publishEvents, Mirror.write, Mirror.Canonical.mem_setStatus]
  rw [List.nil_append, hmem] at hagrees
  refine hstale ?_
  rw [Bool.eq_iff_iff, ← not_iff_not, Bool.not_eq_true, Bool.not_eq_true]
  exact hagrees

/-! The superuser is deactivated and activated again, and the second call to
`publish_events` overtakes the first. -/

def deactivated : Db := (UserRepository.setActive root.row false seeded).2.1

def rootInactive : User := { root.row with isActive := false }

def reactivated : Db := (UserRepository.setActive rootInactive true deactivated).2.1

theorem setActive_commits {user : User} {isActive : Bool} {db : Db}
    (h : (UserRepository.setActive user isActive db).1.isOk = true) :
    (Change.setUserActive user isActive).Commits db (UserRepository.setActive user isActive db).2.1
      [.userStatus user.id.str isActive] := by
  obtain ⟨a, hbody⟩ := commits_of_isOk h
  obtain ⟨_, _, hes⟩ := UserRepository.setActiveTx_eq_ok hbody
  rw [hes] at hbody
  exact ⟨a, hbody⟩

theorem seeded_initial : (calm seeded).Initial :=
  calm_initial (by decide +kernel) (by decide +kernel)

theorem deactivated_flushes : (Change.setUserActive root.row false).Flushes seeded deactivated
    [.userStatus root.row.id.str false] := by
  have hok : (UserRepository.setActive root.row false seeded).1.isOk = true := by decide +kernel
  have hrow : seeded.users.get root.row.id = some root.row := by decide +kernel
  exact Change.flushes hrow (setActive_commits hok)

theorem reactivated_flushes : (Change.setUserActive rootInactive true).Flushes deactivated
    reactivated [.userStatus root.row.id.str true] := by
  have hok : (UserRepository.setActive rootInactive true deactivated).1.isOk = true := by
    decide +kernel
  have hrow : deactivated.users.get rootInactive.id = some rootInactive := by decide +kernel
  exact Change.flushes hrow (setActive_commits hok)

theorem steps_overtaken_root : Steps (calm seeded) (overtaken seeded deactivated reactivated
    [.userStatus root.row.id.str false] [.userStatus root.row.id.str true]) :=
  steps_overtaken (.setUserActive root.row false) (.setUserActive rootInactive true) trivial
    deactivated_flushes trivial reactivated_flushes

theorem root_reactivated : reactivated.users.get root.row.id = some root.row := by
  decide +kernel

theorem converged_iff_overtaken_root :
    ∃ d, Steps (calm seeded) d ∧ (d.Converged ↔ d.PublishedLast) := by
  obtain ⟨cache, hdrain⟩ := (Steps.sound steps_overtaken_root seeded_initial.sound).drain
  have hsteps := steps_overtaken_root.trans hdrain
  exact ⟨_, hsteps, converged_iff seeded_initial hsteps rfl rfl rfl⟩

theorem reactivation_diverges : Reachable seeded ∧ (calm seeded).Initial ∧
    ∃ d, Steps (calm seeded) d ∧ d.lost = [] ∧ d.pending = [] ∧ d.channel = [] ∧
      ¬ d.Converged := by
  refine ⟨seeded_reachable, seeded_initial, ?_⟩
  exact overtaken_diverges seeded_initial steps_overtaken_root root_reactivated rfl

end Deployment
end FastapiTemplate
