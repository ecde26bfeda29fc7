import FastapiTemplate.Registers

/-!
The messages of `core.authz_cache`. The repositories build each event as a
dictionary; `publish_events` dispatches on its type to write the mirror and
sends it as JSON, and `_apply_event` dispatches on the type again when the
message is decoded. Both dispatches compute what `Mirror.write` and
`AuthzCache.applyEvent` say of the event that the dictionary stands for, so a
worker that receives the messages and one that reads the mirror end up alike.
-/
namespace FastapiTemplate

open Library.LastWrite

inductive Value
  | str (s : String)
  | int (n : ℕ)
  | bool (b : Bool)
  deriving DecidableEq

/-- A dictionary with its keys in the order of insertion. -/
abbrev Dict := List (String × Value)

def Dict.get (event : Dict) (key : String) : Option Value := event.lookup key

def Value.truthy : Value → Bool
  | str s => s ≠ ""
  | int n => n ≠ 0
  | bool b => b

/-- What the Redis client sends for an argument; it refuses a flag. -/
def Value.encode : Value → Option String
  | str s => some s
  | int n => some n.repr
  | bool _ => none

/-- The dictionaries of the repositories. -/
def Event.toDict : Event → Dict
  | permVersion userId version =>
    [("type", .str "perm_version"), ("user_id", .str userId), ("version", .int version)]
  | userStatus userId isActive =>
    [("type", .str "user_status"), ("user_id", .str userId), ("is_active", .bool isActive)]
  | tenantStatus tenantId isActive =>
    [("type", .str "tenant_status"), ("tenant_id", .str tenantId), ("is_active", .bool isActive)]

/-- `json.dumps` and `json.loads` on dictionaries of texts, numbers and flags. -/
structure Json (Text : Type) where
  dumps : Dict → Text
  loads : Text → Option Dict
  loads_dumps : ∀ event, loads (dumps event) = some event

/-! ### The publisher -/

/-- The command that `publish_events` adds to the pipeline next to `PUBLISH`. -/
def Mirror.writeDict (m : Mirror) (event : Dict) : Option Mirror := do
  let eventType ← event.get "type"
  if eventType = .str "perm_version" then
    let userId ← (← event.get "user_id").encode
    let version ← (← event.get "version").encode
    return { m with permVersions := m.permVersions.insert userId version }
  else if eventType = .str "user_status" then
    let isActive ← event.get "is_active"
    let userId ← (← event.get "user_id").encode
    return { m with inactiveUsers := setStatus m.inactiveUsers userId isActive.truthy }
  else if eventType = .str "tenant_status" then
    let isActive ← event.get "is_active"
    let tenantId ← (← event.get "tenant_id").encode
    return { m with inactiveTenants := setStatus m.inactiveTenants tenantId isActive.truthy }
  else
    return m

/-- One pipeline: the mirror after it and the messages on the channel. -/
def publishDicts {Text : Type} (json : Json Text) (events : List Dict) (m : Mirror) :
    Option (Mirror × List Text) := do
  let m' ← events.foldlM Mirror.writeDict m
  return (m', events.map json.dumps)

/-- Calls to `publish_events` one after another. -/
def publishCalls {Text : Type} (json : Json Text) :
    List (List Dict) → Mirror → Option (Mirror × List Text)
  | [], m => some (m, [])
  | events :: calls, m => do
    let (m', sent) ← publishDicts json events m
    let (m'', rest) ← publishCalls json calls m'
    return (m'', sent ++ rest)

/-! ### The subscriber -/

/-- `uuid.UUID(value)`. -/
def Value.uuid : Value → Option Uuid
  | str s => Uuid.ofString s
  | _ => none

namespace AuthzCache

/-- `_apply_event` on a decoded message. -/
def applyDict (cache : AuthzCache) (event : Dict) : Option AuthzCache :=
  let eventType := event.get "type"
  if eventType = some (.str "perm_version") then do
    let userId ← (← event.get "user_id").uuid
    match ← event.get "version" with
    | .int version => return { cache with permVersion := cache.permVersion.insert userId version }
    | _ => none
  else if eventType = some (.str "user_status") then do
    let userId ← (← event.get "user_id").uuid
    let isActive ← event.get "is_active"
    return { cache with
      inactiveUserIds := setStatus cache.inactiveUserIds userId isActive.truthy }
  else if eventType = some (.str "tenant_status") then do
    let tenantId ← (← event.get "tenant_id").uuid
    let isActive ← event.get "is_active"
    return { cache with
      inactiveTenantIds := setStatus cache.inactiveTenantIds tenantId isActive.truthy }
  else
    some cache

/-- The body of the loop over the messages. -/
def receive {Text : Type} (json : Json Text) (cache : AuthzCache) (data : Text) :
    Option AuthzCache := do
  let event ← json.loads data
  cache.applyDict event

end AuthzCache

/-! ### Both dispatches follow the event -/

section Dispatch

variable {m : Mirror} {cache : AuthzCache} {Text : Type} (json : Json Text)

theorem writeDict_toDict (e : Event) : m.writeDict e.toDict = some (m.write e) := by
  cases e <;> rfl

theorem applyDict_toDict (e : Event) : cache.applyDict e.toDict = cache.applyEvent e := by
  cases e <;> rfl

theorem receive_dumps (e : Event) :
    cache.receive json (json.dumps e.toDict) = cache.applyEvent e := by
  rw [AuthzCache.receive, json.loads_dumps]
  exact applyDict_toDict e

theorem foldlM_writeDict (es : List Event) :
    (es.map Event.toDict).foldlM Mirror.writeDict m = some (es.foldl Mirror.write m) := by
  induction es generalizing m with
  | nil => rfl
  | cons e es ih =>
    rw [List.map_cons, List.foldlM_cons, writeDict_toDict]
    exact ih

theorem publishCalls_toDict (calls : List (List Event)) :
    publishCalls json (calls.map (List.map Event.toDict)) m =
      some (calls.flatten.foldl Mirror.write m,
        calls.flatten.map (fun e => json.dumps e.toDict)) := by
  induction calls generalizing m with
  | nil => rfl
  | cons es calls ih =>
    rw [List.map_cons, publishCalls, publishDicts, foldlM_writeDict]
    simp [ih]

end Dispatch

/-! ### The two paths -/

namespace AuthzCache

/-- Two caches that answer alike. -/
structure Same (cache cache' : AuthzCache) : Prop where
  version : ∀ userId, cache.permVersion.lookup userId = cache'.permVersion.lookup userId
  users : cache.inactiveUserIds = cache'.inactiveUserIds
  tenants : cache.inactiveTenantIds = cache'.inactiveTenantIds

/-- The cache has what the mirror has, entry by entry. -/
structure Holds (cache : AuthzCache) (m : Mirror) : Prop where
  version : ∀ userId, (versionRegister userId).inCache cache = (versionRegister userId).inMirror m
  user : ∀ userId, (userRegister userId).inCache cache = (userRegister userId).inMirror m
  tenant : ∀ tenantId, (tenantRegister tenantId).inCache cache =
    (tenantRegister tenantId).inMirror m

theorem statusIn_inj {α β : Type} [DecidableEq α] [DecidableEq β] {s : Finset α} {t : Finset β}
    {a : α} {b : β} : statusIn s a = statusIn t b ↔ (a ∈ s ↔ b ∈ t) := by
  by_cases ha : a ∈ s <;> by_cases hb : b ∈ t <;> simp [statusIn, ha, hb]

theorem holds_iff_same {cache : AuthzCache} (prior : AuthzCache) {m : Mirror}
    (hm : m.Canonical) : cache.Holds m ↔ cache.Same (prior.resyncOnce m) := by
  have hversion := fun userId => (versionRegister userId).resynced prior hm
  have huser := fun userId => (userRegister userId).resynced prior hm
  have htenant := fun tenantId => (tenantRegister tenantId).resynced prior hm
  constructor
  · intro h
    refine ⟨fun userId => (h.version userId).trans (hversion userId).symm, ?_, ?_⟩
    · ext userId
      exact statusIn_inj.mp ((h.user userId).trans (huser userId).symm)
    · ext tenantId
      exact statusIn_inj.mp ((h.tenant tenantId).trans (htenant tenantId).symm)
  · intro h
    refine ⟨fun userId => (h.version userId).trans (hversion userId), ?_, ?_⟩
    · intro userId
      rw [← huser userId]
      exact statusIn_inj.mpr (by rw [h.users])
    · intro tenantId
      rw [← htenant tenantId]
      exact statusIn_inj.mpr (by rw [h.tenants])

/-- Messages of canonical events are all applied, each entry taking its last write. -/
theorem receive_all {Text : Type} (json : Json Text) (cache : AuthzCache) {es : List Event}
    (hes : ∀ e ∈ es, e.Canonical) :
    ∃ cache', (es.map (fun e => json.dumps e.toDict)).foldlM (receive json) cache = some cache' ∧
      ∀ {α : Type} (r : Register α),
        r.inCache cache' = (lastWrite r.writes es).or (r.inCache cache) := by
  induction es generalizing cache with
  | nil => exact ⟨cache, rfl, fun r => rfl⟩
  | cons e es ih =>
    have he := hes e (by simp)
    obtain ⟨next, hnext⟩ := cache.applyEvent_isSome he
    obtain ⟨cache', hfold, hwrites⟩ := ih next (fun e he => hes e (by simp [he]))
    refine ⟨cache', ?_, ?_⟩
    · rw [List.map_cons, List.foldlM_cons, receive_dumps, hnext]
      exact hfold
    · intro α r
      have hsplit : e :: es = [e] ++ es := rfl
      rw [hwrites, r.applied he hnext, hsplit, lastWrite_append, lastWrite_singleton,
        Option.or_assoc]

end AuthzCache

theorem Mirror.Canonical.foldl {m : Mirror} {es : List Event} (hm : m.Canonical)
    (hes : ∀ e ∈ es, e.Canonical) : (es.foldl Mirror.write m).Canonical := by
  induction es generalizing m with
  | nil => exact hm
  | cons e es ih =>
    rw [List.foldl_cons]
    exact ih (hm.write (hes e (by simp))) (fun e he => hes e (by simp [he]))

open AuthzCache in
/-- A run of calls writes each event in the mirror and sends it, in their order.
The messages take a cache that holds the mirror to one that holds the mirror
afterwards, and so does a resync after losing any of them. -/
theorem messages_agree_with_resync {Text : Type} (json : Json Text) {calls : List (List Event)}
    {m : Mirror} {cache : AuthzCache} (hm : m.Canonical)
    (hcalls : ∀ es ∈ calls, ∀ e ∈ es, e.Canonical)
    (hcache : cache.Same (AuthzCache.empty.resyncOnce m)) :
    ∃ m' sent cache', publishCalls json (calls.map (List.map Event.toDict)) m = some (m', sent) ∧
      m' = calls.flatten.foldl Mirror.write m ∧
      sent = calls.flatten.map (fun e => json.dumps e.toDict) ∧
      sent.foldlM (receive json) cache = some cache' ∧
      (∀ prior : AuthzCache, cache'.Same (prior.resyncOnce m')) ∧
      ∀ kept : List Text, kept.Sublist sent →
        ∃ behind, kept.foldlM (receive json) cache = some behind ∧
          cache'.Same (behind.resyncOnce m') := by
  have hevents : ∀ e ∈ calls.flatten, e.Canonical := by
    intro e he
    obtain ⟨es, hes, hmem⟩ := List.mem_flatten.mp he
    exact hcalls es hes e hmem
  have hm' := hm.foldl hevents
  obtain ⟨cache', hreceived, hwrites⟩ := receive_all json cache hevents
  have hstart := (holds_iff_same AuthzCache.empty hm).mpr hcache
  have hholds : cache'.Holds (calls.flatten.foldl Mirror.write m) := by
    refine ⟨?_, ?_, ?_⟩
    · intro userId
      rw [hwrites, view_foldl (versionRegister userId).written, hstart.version userId]
    · intro userId
      rw [hwrites, view_foldl (userRegister userId).written, hstart.user userId]
    · intro tenantId
      rw [hwrites, view_foldl (tenantRegister tenantId).written, hstart.tenant tenantId]
  refine ⟨_, _, cache', publishCalls_toDict json calls, rfl, rfl, hreceived,
    fun prior => (holds_iff_same prior hm').mp hholds, ?_⟩
  intro kept hkept
  obtain ⟨es, hsub, rfl⟩ := List.sublist_map_iff.mp hkept
  obtain ⟨behind, hbehind, _⟩ :=
    receive_all json cache (fun e he => hevents e (hsub.subset he))
  exact ⟨behind, hbehind, (holds_iff_same behind hm').mp hholds⟩

/-- Messages that are sent as they are. -/
def plainJson : Json Dict := ⟨id, some, fun _ => rfl⟩

theorem messages_agree_with_resync_twoCalls :
    ∃ m' sent cache', publishCalls plainJson
        ([[.permVersion (1 : Uuid).str 2, .userStatus (1 : Uuid).str false],
          [.userStatus (1 : Uuid).str true]].map (List.map Event.toDict)) Mirror.empty =
          some (m', sent) ∧
      sent = [.permVersion (1 : Uuid).str 2, .userStatus (1 : Uuid).str false,
        .userStatus (1 : Uuid).str true].map Event.toDict ∧
      sent.foldlM (AuthzCache.receive plainJson) AuthzCache.empty = some cache' ∧
      ∀ prior : AuthzCache, cache'.Same (prior.resyncOnce m') := by
  have hcanonical : ∀ es ∈ [[.permVersion (1 : Uuid).str 2, .userStatus (1 : Uuid).str false],
      [Event.userStatus (1 : Uuid).str true]], ∀ e ∈ es, e.Canonical := by
    simp [Event.Canonical]
  have hempty : AuthzCache.empty.Same (AuthzCache.empty.resyncOnce Mirror.empty) :=
    ⟨fun _ => rfl, rfl, rfl⟩
  obtain ⟨m', sent, cache', hpublished, _, hsent, hreceived, hsame, _⟩ :=
    messages_agree_with_resync plainJson Mirror.Canonical.empty hcanonical hempty
  exact ⟨m', sent, cache', hpublished, hsent, hreceived, hsame⟩

end FastapiTemplate
