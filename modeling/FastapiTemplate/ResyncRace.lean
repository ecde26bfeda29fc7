import FastapiTemplate.Outage

/-!
A resync among publishes and deliveries. `_resync_once` awaits three reads of
the mirror and then replaces the three structures, so the worker may publish
and receive between any two of them. All calls go through, in commit order. The
resync keeps what was delivered exactly when the snapshot it took is not older.
-/
namespace FastapiTemplate

open Library.KeyedTable Library.LastWrite

/-- The mirror as three reads have found it. -/
def Mirror.readInSteps (atVersions atUsers atTenants : Mirror) : Mirror :=
  ⟨atVersions.permVersions, atUsers.inactiveUsers, atTenants.inactiveTenants⟩

theorem Mirror.Canonical.readInSteps {m₁ m₂ m₃ : Mirror} (h₁ : m₁.Canonical) (h₂ : m₂.Canonical)
    (h₃ : m₃.Canonical) : (Mirror.readInSteps m₁ m₂ m₃).Canonical :=
  ⟨h₁.versions, h₂.users, h₃.tenants⟩

namespace Deployment

variable {d₀ d d' : Deployment}

/-- The events of the calls that wait are published first come, first served. -/
inductive InOrder : Deployment → Deployment → Prop
  | commit {d : Deployment} {db : Db} {es : List Event} (c : Change) : c.Published →
      c.Flushes d.db db es → InOrder d (d.commit db es)
  | publish {d : Deployment} (es : List Event) (pending : List (List Event)) :
      d.pending = es :: pending → InOrder d (d.publish es pending)
  | receive {d : Deployment} {cache : AuthzCache} (e : Event) (channel : List Event) :
      d.channel = e :: channel → d.cache.applyEvent e = some cache →
      InOrder d (d.receive cache channel)

theorem InOrder.step (h : InOrder d d') : Step d d' := by
  cases h with
  | commit c hpublished hflushes => exact .commit c hpublished hflushes
  | publish es pending hpending => exact .publish [] es pending hpending
  | receive e channel hchannel happly => exact .receive e channel hchannel happly

abbrev OrderedSteps : Deployment → Deployment → Prop := Relation.ReflTransGen InOrder

theorem OrderedSteps.steps (h : OrderedSteps d₀ d) : Steps d₀ d := by
  induction h with
  | refl => exact .refl
  | tail _ hstep ih => exact .tail ih hstep.step

/-- The messages that the worker has applied. -/
def received (d : Deployment) : List Event :=
  d.published.take (d.published.length - d.channel.length)

theorem Sound.received_append (h : d.Sound) : d.received ++ d.channel = d.published := by
  obtain ⟨received, hreceived⟩ := h.channel
  have hlength : d.published.length = received.length + d.channel.length := by
    rw [← hreceived, List.length_append]
  unfold Deployment.received
  rw [hlength, Nat.add_sub_cancel, ← hreceived, List.take_left]

theorem Step.published_prefix (h : Step d d') : d.published <+: d'.published := by
  cases h with
  | publish before es after _ => exact List.prefix_append _ _
  | _ => exact List.prefix_rfl

theorem Steps.published_prefix (h : Steps d d') : d.published <+: d'.published := by
  induction h with
  | refl => exact List.prefix_rfl
  | tail _ hstep ih => exact ih.trans hstep.published_prefix

/-! ### What the resync keeps -/

/-- The cache is not behind what the worker has been told. -/
structure Keeps (d : Deployment) (cache : AuthzCache) : Prop where
  version : ∀ userId, ∀ e ∈ d.received, ∀ v, e.version userId = some v →
    ∃ n, cache.permVersion.lookup userId = some n ∧ v ≤ n
  user : ∀ userId, lastWrite (Event.userActive userId) d.received = some false →
    cache.isUserInactive userId = true
  tenant : ∀ tenantId, lastWrite (Event.tenantActive tenantId) d.received = some false →
    cache.isTenantInactive (some tenantId) = true

/-- The last version of the user that was published by `d`, or the one of the
mirror at the start when none was, is not below `v`. -/
def Reads (d₀ d : Deployment) (userId : Uuid) (v : ℕ) : Prop :=
  ∃ n, (lastWrite (Event.version userId) d.published).or (d₀.mirror.version userId) = some n ∧
    v ≤ n

/-- The versions that the worker has received by the end are not above the last
one published before the versions were read; where the last status received
says inactive, so does the last one published before that set was read, or the
mirror at the start when none was. -/
structure ReadInTime (d₀ d₁ d₂ d₃ d₄ : Deployment) : Prop where
  version : ∀ userId, ∀ e ∈ d₄.received, ∀ v, e.version userId = some v → Reads d₀ d₁ userId v
  user : ∀ userId, lastWrite (Event.userActive userId) d₄.received = some false →
    (lastWrite (Event.userActive userId) d₂.published).or
      (statusIn d₀.mirror.inactiveUsers userId.str) = some false
  tenant : ∀ tenantId, lastWrite (Event.tenantActive tenantId) d₄.received = some false →
    (lastWrite (Event.tenantActive tenantId) d₃.published).or
      (statusIn d₀.mirror.inactiveTenants tenantId.str) = some false

/-- The versions published of the user rise from the one in the mirror at the start. -/
def Rises (d₀ d : Deployment) (userId : Uuid) : Prop :=
  ((d₀.mirror.version userId).toList ++
    d.published.filterMap (Event.version userId)).Pairwise (· < ·)

section Race

variable {d₁ d₂ d₃ d₄ : Deployment}

/-- Where the versions rise, a version that was received is read in time when its
event was published before. -/
theorem reads_iff (hinitial : d₀.Initial) (h₁ : OrderedSteps d₀ d₁)
    (h₄ : OrderedSteps d₁ d₄) {userId : Uuid} (hrises : Rises d₀ d₄ userId) {e : Event}
    (he : e ∈ d₄.received) {v : ℕ} (hv : e.version userId = some v) :
    Reads d₀ d₁ userId v ↔ e ∈ d₁.published := by
  have hsound := Steps.sound (OrderedSteps.steps (h₁.trans h₄)) hinitial.sound
  have hpublished : e ∈ d₄.published := by
    rw [← hsound.received_append]
    exact List.mem_append_left _ he
  obtain ⟨later, hlater⟩ := Steps.published_prefix (OrderedSteps.steps h₄)
  rw [Rises, ← hlater, List.filterMap_append, ← List.append_assoc, List.pairwise_append] at hrises
  obtain ⟨hbefore, _, hacross⟩ := hrises
  constructor
  · rintro ⟨n, hn, hvn⟩
    by_contra hnot
    have hmem : e ∈ later := by
      rw [← hlater, List.mem_append] at hpublished
      exact hpublished.resolve_left hnot
    have hn' : n ∈ (d₀.mirror.version userId).toList ++
        d₁.published.filterMap (Event.version userId) := by
      rw [List.mem_append, Option.mem_toList]
      rcases Option.or_eq_some_iff.mp hn with hlast | ⟨_, hstart⟩
      · obtain ⟨e', he', hw⟩ := exists_of_lastWrite hlast
        exact Or.inr (List.mem_filterMap.mpr ⟨e', he', hw⟩)
      · exact Or.inl hstart
    have hlt := hacross n hn' v (List.mem_filterMap.mpr ⟨e, hmem, hv⟩)
    omega
  · intro hmem
    obtain ⟨n, hn⟩ := Option.isSome_iff_exists.mp (lastWrite_isSome_of_mem hmem hv)
    refine ⟨n, by rw [hn]; rfl, ?_⟩
    refine le_lastWrite ?_ hmem hv hn
    exact (List.pairwise_append.mp hbefore).2.1.imp (fun hlt => le_of_lt hlt)

theorem resync_keeps_iff (hinitial : d₀.Initial) (h₁ : OrderedSteps d₀ d₁)
    (h₂ : OrderedSteps d₁ d₂) (h₃ : OrderedSteps d₂ d₃) (h₄ : OrderedSteps d₃ d₄) :
    (Keeps d₄ (d₄.cache.resyncOnce (Mirror.readInSteps d₁.mirror d₂.mirror d₃.mirror)) ↔
      ReadInTime d₀ d₁ d₂ d₃ d₄) ∧
    ∀ userId, Rises d₀ d₄ userId → ∀ e ∈ d₄.received, ∀ v, e.version userId = some v →
      (Reads d₀ d₁ userId v ↔ e ∈ d₁.published) := by
  have hcanonical : (Mirror.readInSteps d₁.mirror d₂.mirror d₃.mirror).Canonical := by
    have hsound₁ := Steps.sound (OrderedSteps.steps h₁) hinitial.sound
    have hsound₂ := Steps.sound (OrderedSteps.steps h₂) hsound₁
    have hsound₃ := Steps.sound (OrderedSteps.steps h₃) hsound₂
    exact hsound₁.canonical.readInSteps hsound₂.canonical hsound₃.canonical
  have hversion : ∀ userId, (d₄.cache.resyncOnce (Mirror.readInSteps d₁.mirror d₂.mirror
      d₃.mirror)).permVersion.lookup userId =
      (lastWrite (Event.version userId) d₁.published).or (d₀.mirror.version userId) := by
    intro userId
    rw [← mirror_version hinitial (OrderedSteps.steps h₁)]
    exact (d₄.cache.resyncOnce_of_canonical hcanonical).1 userId
  have huser : ∀ userId, (d₄.cache.resyncOnce
      (Mirror.readInSteps d₁.mirror d₂.mirror d₃.mirror)).isUserInactive userId = true ↔
      (lastWrite (Event.userActive userId) d₂.published).or
        (statusIn d₀.mirror.inactiveUsers userId.str) = some false := by
    intro userId
    rw [isUserInactive_resyncOnce hcanonical,
      ← mirror_user hinitial (OrderedSteps.steps (h₁.trans h₂)) userId]
    rfl
  have htenant : ∀ tenantId, (d₄.cache.resyncOnce
      (Mirror.readInSteps d₁.mirror d₂.mirror d₃.mirror)).isTenantInactive (some tenantId) =
        true ↔ (lastWrite (Event.tenantActive tenantId) d₃.published).or
        (statusIn d₀.mirror.inactiveTenants tenantId.str) = some false := by
    intro tenantId
    rw [isTenantInactive_resyncOnce hcanonical,
      ← mirror_tenant hinitial (OrderedSteps.steps ((h₁.trans h₂).trans h₃)) tenantId]
    rfl
  refine ⟨⟨?_, ?_⟩, fun userId hrises e he v hv =>
    reads_iff hinitial h₁ ((h₂.trans h₃).trans h₄) hrises he hv⟩
  · intro h
    refine ⟨?_, ?_, ?_⟩
    · intro userId e he v hv
      rw [Reads, ← hversion userId]
      exact h.version userId e he v hv
    · intro userId hlast
      exact (huser userId).mp (h.user userId hlast)
    · intro tenantId hlast
      exact (htenant tenantId).mp (h.tenant tenantId hlast)
  · intro h
    refine ⟨?_, ?_, ?_⟩
    · intro userId e he v hv
      rw [hversion userId]
      exact h.version userId e he v hv
    · intro userId hlast
      exact (huser userId).mpr (h.user userId hlast)
    · intro tenantId hlast
      exact (htenant tenantId).mpr (h.tenant tenantId hlast)

end Race

/-! The superuser is deactivated, and the worker told of it, after the three
reads and before the replacement. -/

/-- A commit whose message arrives. -/
theorem orderedSteps_delivered {db db' : Db} {e : Event} (he : e.Canonical) (c : Change)
    (hpublished : c.Published) (hflushes : c.Flushes db db' [e]) :
    ∃ cache, OrderedSteps (calm db)
      ((((calm db).commit db' [e]).publish [e] []).receive cache []) := by
  obtain ⟨cache, happly⟩ := AuthzCache.empty.applyEvent_isSome he
  have hfirst : InOrder (calm db) ((calm db).commit db' [e]) :=
    .commit c hpublished hflushes
  have hsecond := InOrder.publish (d := (calm db).commit db' [e]) [e] [] rfl
  have hthird := InOrder.receive (d := ((calm db).commit db' [e]).publish [e] []) e [] rfl happly
  exact ⟨cache, .tail (.tail (.single hfirst) hsecond) hthird⟩

theorem not_keeps_delivered {db db' : Db} {userId : Uuid} {cache : AuthzCache} :
    ¬ Keeps ((((calm db).commit db' [.userStatus userId.str false]).publish
      [.userStatus userId.str false] []).receive cache [])
      (cache.resyncOnce (Mirror.readInSteps Mirror.empty Mirror.empty Mirror.empty)) := by
  intro h
  have hdenied := h.user userId (by simp [received, receive, publish, commit, calm, Event.userActive])
  rw [isUserInactive_resyncOnce (Mirror.Canonical.empty.readInSteps .empty .empty)] at hdenied
  simp [Mirror.readInSteps, Mirror.empty, statusIn] at hdenied

theorem resync_keeps_iff_root : ∃ d, OrderedSteps (calm seeded) d ∧
    (Keeps d (d.cache.resyncOnce (Mirror.readInSteps Mirror.empty Mirror.empty Mirror.empty)) ↔
      ReadInTime (calm seeded) (calm seeded) (calm seeded) (calm seeded) d) ∧
    ∀ userId, Rises (calm seeded) d userId → ∀ e ∈ d.received, ∀ v, e.version userId = some v →
      (Reads (calm seeded) (calm seeded) userId v ↔ e ∈ (calm seeded).published) := by
  have hcanonical : (Event.userStatus root.row.id.str false).Canonical := ⟨root.row.id, rfl⟩
  obtain ⟨cache, hsteps⟩ := orderedSteps_delivered hcanonical
    (.setUserActive root.row false) trivial deactivated_flushes
  exact ⟨_, hsteps, resync_keeps_iff seeded_initial .refl .refl .refl hsteps⟩

theorem resync_readmits_root : Reachable seeded ∧ (calm seeded).Initial ∧
    ∃ d, OrderedSteps (calm seeded) d ∧
      ¬ Keeps d (d.cache.resyncOnce (Mirror.readInSteps (calm seeded).mirror
        (calm seeded).mirror (calm seeded).mirror)) := by
  have hcanonical : (Event.userStatus root.row.id.str false).Canonical := ⟨root.row.id, rfl⟩
  obtain ⟨cache, hsteps⟩ := orderedSteps_delivered hcanonical
    (.setUserActive root.row false) trivial deactivated_flushes
  exact ⟨seeded_reachable, seeded_initial, _, hsteps, not_keeps_delivered⟩

end Deployment
end FastapiTemplate
