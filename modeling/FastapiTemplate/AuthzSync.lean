import FastapiTemplate.AuthzEvents
import Mathlib.Logic.Relation

/-!
A worker beside the database and Redis. A mutation commits first and calls
`publish_events` afterwards, so between the two its events are pending; a call
that reaches Redis writes the mirror and puts the messages on the channel, a
call that does not loses them. A request may have loaded its objects long
before it commits, so an event need not say what its commit has left in the
row. The deployment keeps, besides what the program stores, the events in the
order in which they were published, and what the commits have left.
-/
namespace FastapiTemplate

open Library.LastWrite

structure Deployment where
  db : Db
  mirror : Mirror
  cache : AuthzCache
  /-- The messages that the worker has not received. -/
  channel : List Event
  /-- The mutations that have committed and not called `publish_events`. -/
  pending : List (List Event)
  /-- The events of the commits, with the values that these have left in the rows. -/
  committed : List Event
  published : List Event
  lost : List (List Event)

namespace Deployment

def commit (d : Deployment) (db : Db) (es : List Event) : Deployment :=
  { d with
    db := db
    pending := d.pending ++ [es]
    committed := d.committed ++ es.map (Event.inRow db.toTables) }

/-- A call to `publish_events` that goes through. -/
def publish (d : Deployment) (es : List Event) (pending : List (List Event)) : Deployment :=
  { d with
    mirror := (publishEvents es d.mirror).1
    channel := d.channel ++ (publishEvents es d.mirror).2
    pending := pending
    published := d.published ++ es }

/-- A call to `publish_events` that finds Redis unreachable: it logs and returns. -/
def lose (d : Deployment) (es : List Event) (pending : List (List Event)) : Deployment :=
  { d with pending := pending, lost := d.lost ++ [es] }

def receive (d : Deployment) (cache : AuthzCache) (channel : List Event) : Deployment :=
  { d with cache := cache, channel := channel }

def resync (d : Deployment) : Deployment := { d with cache := d.cache.resyncOnce d.mirror }

/-- The objects that a change is committed on are loaded at any time before, and
the calls to `publish_events` come in any order. -/
inductive Step : Deployment → Deployment → Prop
  | commit {d : Deployment} {db : Db} {es : List Event} (c : Change) : c.Published →
      c.Flushes d.db db es → Step d (d.commit db es)
  | publish {d : Deployment} (before : List (List Event)) (es : List Event)
      (after : List (List Event)) : d.pending = before ++ es :: after →
      Step d (d.publish es (before ++ after))
  | lose {d : Deployment} (before : List (List Event)) (es : List Event)
      (after : List (List Event)) : d.pending = before ++ es :: after →
      Step d (d.lose es (before ++ after))
  | receive {d : Deployment} {cache : AuthzCache} (e : Event) (channel : List Event) :
      d.channel = e :: channel → d.cache.applyEvent e = some cache →
      Step d (d.receive cache channel)
  | resync {d : Deployment} : Step d d.resync

abbrev Steps : Deployment → Deployment → Prop := Relation.ReflTransGen Step

/-- Membership in the four inactive sets is what the rows say. -/
structure StatusAgrees (d : Deployment) : Prop where
  user : ∀ userId u, d.db.users.get userId = some u →
    (userId.str ∈ d.mirror.inactiveUsers ↔ u.isActive = false) ∧
      (userId ∈ d.cache.inactiveUserIds ↔ u.isActive = false)
  tenant : ∀ tenantId x, d.db.tenants.get tenantId = some x →
    (tenantId.str ∈ d.mirror.inactiveTenants ↔ x.isActive = false) ∧
      (tenantId ∈ d.cache.inactiveTenantIds ↔ x.isActive = false)

/-- The mirror and the cache agree with the database, and nothing is on its way. -/
structure Initial (d : Deployment) : Prop where
  canonical : d.mirror.Canonical
  channel : d.channel = []
  pending : d.pending = []
  committed : d.committed = []
  published : d.published = []
  lost : d.lost = []
  version : ∀ userId version, d.mirror.version userId = some version →
    (d.db.users.get userId).map User.permVersion = some version
  status : d.StatusAgrees

end Deployment

/-! ### What holds along a run -/

/-- The events that were handed to `publish_events`. -/
def Deployment.announced (d : Deployment) : List Event :=
  d.published ++ d.lost.flatten ++ d.pending.flatten

/-- The texts are canonical, and the committed events are those announced, with
the values of their rows. -/
structure Deployment.Sound (d : Deployment) : Prop where
  canonical : d.mirror.Canonical
  texts : ∀ e ∈ d.announced, e.Canonical
  committed : ∀ e ∈ d.committed, ∃ e' ∈ d.announced, ∃ db : Db, e = e'.inRow db.toTables
  announced : ∀ e ∈ d.announced, ∃ db : Db, e.inRow db.toTables ∈ d.committed
  channel : d.channel <:+ d.published

/-- The three places of an entry after a run. Once the worker has received what
is on the channel, its cache shows the last published value. -/
structure Register.Follows {α : Type} (r : Register α) (d₀ d : Deployment) : Prop where
  db : r.inDb d.db = (lastWrite r.writes d.committed).or (r.inDb d₀.db)
  mirror : r.inMirror d.mirror = (lastWrite r.writes d.published).or (r.inMirror d₀.mirror)
  cache : ∃ a, (a = r.inCache d₀.cache ∨ a = r.inMirror d₀.mirror) ∧
    (lastWrite r.writes d.channel).or (r.inCache d.cache) =
      (lastWrite r.writes d.published).or a

namespace Deployment

variable {d₀ d d' : Deployment}

theorem Initial.sound (h : d.Initial) : d.Sound where
  canonical := h.canonical
  texts := by simp [announced, h.published, h.lost, h.pending]
  committed := by simp [h.committed]
  announced := by simp [announced, h.published, h.lost, h.pending]
  channel := by simp [h.channel]

theorem mem_announced_commit {db : Db} {es : List Event} {e : Event} :
    e ∈ (d.commit db es).announced ↔ e ∈ d.announced ∨ e ∈ es := by
  simp only [announced, commit, List.flatten_append, List.flatten_singleton, List.mem_append]
  tauto

/-- A call moves its batch from the pending ones to the published or the lost. -/
theorem mem_announced_publish {before after : List (List Event)} {es : List Event} {e : Event}
    (hpending : d.pending = before ++ es :: after) :
    e ∈ (d.publish es (before ++ after)).announced ↔ e ∈ d.announced := by
  simp only [announced, publish, hpending, List.flatten_append, List.flatten_cons,
    List.mem_append]
  tauto

theorem mem_announced_lose {before after : List (List Event)} {es : List Event} {e : Event}
    (hpending : d.pending = before ++ es :: after) :
    e ∈ (d.lose es (before ++ after)).announced ↔ e ∈ d.announced := by
  simp only [announced, lose, hpending, List.flatten_append, List.flatten_cons,
    List.flatten_nil, List.append_nil, List.mem_append]
  tauto

theorem Sound.canonical_of_pending (h : d.Sound) {before after : List (List Event)}
    {es : List Event} (hpending : d.pending = before ++ es :: after) :
    ∀ e ∈ es, e.Canonical := by
  intro e he
  refine h.texts e ?_
  simp [Deployment.announced, hpending, he]

theorem Sound.canonical_of_mem_channel (h : d.Sound) {e : Event} (he : e ∈ d.channel) :
    e.Canonical := by
  refine h.texts e ?_
  have hmem : e ∈ d.published := h.channel.subset he
  simp [Deployment.announced, hmem]

theorem Step.sound (h : Step d d') (hd : d.Sound) : d'.Sound := by
  cases h with
  | @commit db es c hpublished hflushes =>
    refine ⟨hd.canonical, ?_, ?_, ?_, hd.channel⟩
    · intro e he
      rcases mem_announced_commit.mp he with hold | hnew
      · exact hd.texts e hold
      · exact (Change.publishes hpublished hflushes).canonical e hnew
    · intro e he
      rcases List.mem_append.mp he with hold | hnew
      · obtain ⟨e', he', hrow⟩ := hd.committed e hold
        exact ⟨e', mem_announced_commit.mpr (Or.inl he'), hrow⟩
      · obtain ⟨e', he', rfl⟩ := List.mem_map.mp hnew
        exact ⟨e', mem_announced_commit.mpr (Or.inr he'), db, rfl⟩
    · intro e he
      rcases mem_announced_commit.mp he with hold | hnew
      · obtain ⟨db₀, hrow⟩ := hd.announced e hold
        exact ⟨db₀, List.mem_append_left _ hrow⟩
      · exact ⟨db, List.mem_append_right _ (List.mem_map_of_mem hnew)⟩
  | publish before es after hpending =>
    refine ⟨hd.canonical.foldl (hd.canonical_of_pending hpending), ?_, ?_, ?_, ?_⟩
    · exact fun e he => hd.texts e ((mem_announced_publish hpending).mp he)
    · intro e he
      obtain ⟨e', he', hrow⟩ := hd.committed e he
      exact ⟨e', (mem_announced_publish hpending).mpr he', hrow⟩
    · exact fun e he => hd.announced e ((mem_announced_publish hpending).mp he)
    · obtain ⟨received, hreceived⟩ := hd.channel
      exact ⟨received, by simp [Deployment.publish, publishEvents, ← hreceived]⟩
  | lose before es after hpending =>
    refine ⟨hd.canonical, ?_, ?_, ?_, hd.channel⟩
    · exact fun e he => hd.texts e ((mem_announced_lose hpending).mp he)
    · intro e he
      obtain ⟨e', he', hrow⟩ := hd.committed e he
      exact ⟨e', (mem_announced_lose hpending).mpr he', hrow⟩
    · exact fun e he => hd.announced e ((mem_announced_lose hpending).mp he)
  | receive e channel hchannel _ =>
    refine ⟨hd.canonical, hd.texts, hd.committed, hd.announced, ?_⟩
    have hsuffix := hd.channel
    rw [hchannel] at hsuffix
    exact (List.suffix_cons e channel).trans hsuffix
  | resync => exact ⟨hd.canonical, hd.texts, hd.committed, hd.announced, hd.channel⟩

/-- Nothing was announced of an entry of which nothing was committed. -/
theorem Sound.announced_eq_none {α : Type} (h : d.Sound) (r : Register α)
    (hnone : lastWrite r.writes d.committed = none) : ∀ e ∈ d.announced, r.writes e = none := by
  intro e he
  obtain ⟨db, hrow⟩ := h.announced e he
  have hwrite := lastWrite_eq_none_iff.mp hnone _ hrow
  rw [← Option.isNone_iff_eq_none, ← Option.not_isSome, r.isSome_inRow] at hwrite
  simpa using hwrite

theorem Sound.published_eq_none {α : Type} (h : d.Sound) (r : Register α)
    (hnone : lastWrite r.writes d.committed = none) : lastWrite r.writes d.published = none := by
  rw [lastWrite_eq_none_iff]
  intro e he
  refine h.announced_eq_none r hnone e ?_
  simp [Deployment.announced, he]

/-- With every call through, what is committed of an entry is published. -/
theorem Sound.committed_eq_none {α : Type} (h : d.Sound) (r : Register α) (hlost : d.lost = [])
    (hpending : d.pending = []) (hnone : lastWrite r.writes d.published = none) :
    lastWrite r.writes d.committed = none := by
  rw [lastWrite_eq_none_iff]
  intro e he
  obtain ⟨e', he', db, rfl⟩ := h.committed e he
  have hpublished : e' ∈ d.published := by
    simpa [Deployment.announced, hlost, hpending] using he'
  have hwrite := lastWrite_eq_none_iff.mp hnone e' hpublished
  rw [r.inRow, hwrite, Option.map_none]

theorem Step.follows {α : Type} {r : Register α} (h : Step d d') (hd : d.Sound)
    (hfollows : r.Follows d₀ d) : r.Follows d₀ d' := by
  obtain ⟨hdb, hmirror, a, ha, hcache⟩ := hfollows
  cases h with
  | @commit db es c hpublished hflushes =>
    refine ⟨?_, hmirror, a, ha, hcache⟩
    change r.inDb db = (lastWrite r.writes
      (d.committed ++ es.map (Event.inRow db.toTables))).or (r.inDb d₀.db)
    rw [r.committed (Change.publishes hpublished hflushes), hdb, lastWrite_append,
      Option.or_assoc]
  | publish before es after hpending =>
    refine ⟨hdb, ?_, a, ha, ?_⟩
    · change r.inMirror (es.foldl Mirror.write d.mirror) =
        (lastWrite r.writes (d.published ++ es)).or (r.inMirror d₀.mirror)
      rw [view_foldl r.written, hmirror, lastWrite_append, Option.or_assoc]
    · change (lastWrite r.writes (d.channel ++ es)).or (r.inCache d.cache) =
        (lastWrite r.writes (d.published ++ es)).or a
      rw [lastWrite_append, lastWrite_append, Option.or_assoc, hcache, Option.or_assoc]
  | lose before es after hpending => exact ⟨hdb, hmirror, a, ha, hcache⟩
  | @receive cache e channel hchannel happly =>
    refine ⟨hdb, hmirror, a, ha, ?_⟩
    have he := hd.canonical_of_mem_channel (e := e) (by simp [hchannel])
    have hsplit : d.channel = [e] ++ channel := hchannel
    rw [hsplit, lastWrite_append, lastWrite_singleton, Option.or_assoc,
      ← r.applied he happly] at hcache
    exact hcache
  | resync =>
    refine ⟨hdb, hmirror, _, Or.inr rfl, ?_⟩
    obtain ⟨received, hreceived⟩ := hd.channel
    change (lastWrite r.writes d.channel).or (r.inCache (d.cache.resyncOnce d.mirror)) =
      (lastWrite r.writes d.published).or (r.inMirror d₀.mirror)
    rw [r.resynced d.cache hd.canonical, hmirror, ← hreceived, lastWrite_append]
    rcases lastWrite r.writes d.channel with _ | b <;> simp

theorem Steps.sound (h : Steps d₀ d) (hd₀ : d₀.Sound) : d.Sound := by
  induction h with
  | refl => exact hd₀
  | tail _ hstep ih => exact hstep.sound ih

theorem Steps.follows {α : Type} (r : Register α) (hd₀ : d₀.Initial) (h : Steps d₀ d) :
    r.Follows d₀ d := by
  induction h with
  | refl =>
    refine ⟨?_, ?_, _, Or.inl rfl, ?_⟩
    · simp [hd₀.committed]
    · simp [hd₀.published]
    · simp [hd₀.channel, hd₀.published]
  | tail hsteps hstep ih => exact hstep.follows (Steps.sound hsteps hd₀.sound) ih

/-- The worker can receive everything on the channel. -/
theorem Sound.drain (h : d.Sound) : ∃ cache, Steps d (d.receive cache []) := by
  induction hchannel : d.channel generalizing d with
  | nil =>
    have hsame : d.receive d.cache [] = d := by rw [receive, ← hchannel]
    exact ⟨d.cache, by rw [hsame]⟩
  | cons e channel ih =>
    have he := h.canonical_of_mem_channel (e := e) (by simp [hchannel])
    obtain ⟨cache, happly⟩ := d.cache.applyEvent_isSome he
    have hstep : Step d (d.receive cache channel) := .receive e channel hchannel happly
    obtain ⟨drained, hdrain⟩ := ih (hstep.sound h) rfl
    exact ⟨drained, .head hstep hdrain⟩

end Deployment
end FastapiTemplate
