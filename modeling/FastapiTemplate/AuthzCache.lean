import FastapiTemplate.Models
import Mathlib.Data.List.AList
import Mathlib.Data.Finset.Option

/-!
`core.authz_cache`: the durable mirror in Redis that `publish_events` writes
and the in-process cache of one worker. An event overwrites its entry in both,
whatever the entry held before; the periodic resync replaces the cache by the
mirror.
-/
namespace FastapiTemplate

/-- `int(text)` on the texts that `str` gives natural numbers. -/
def parseInt (text : String) : Option ℕ :=
  if text.toList ≠ [] ∧ text.toList.all Char.isDigit then
    some (Nat.ofDigitChars 10 text.toList 0)
  else none

@[simp] theorem parseInt_repr (n : ℕ) : parseInt n.repr = some n := by
  have hdigits : n.repr.toList.all Char.isDigit = true := by
    rw [Nat.toList_repr, List.all_eq_true]
    exact fun c hc => Nat.isDigit_of_mem_toDigits (by omega) (by omega) hc
  unfold parseInt
  rw [if_pos ⟨by rw [Nat.toList_repr]; exact Nat.toDigits_ne_nil, hdigits⟩, Nat.toList_repr,
    Nat.ofDigitChars_toDigits (by omega) (by omega)]

/-- The keys of `channel`: the hash `authz:perm_versions` from identifiers to
the decimal texts of the versions, and the two sets of identifiers. -/
structure Mirror where
  permVersions : AList (fun _ : String => String)
  inactiveUsers : Finset String
  inactiveTenants : Finset String

def Mirror.empty : Mirror := ⟨∅, ∅, ∅⟩

/-- `SREM` for an active row, `SADD` for an inactive one. -/
def setStatus {α : Type} [DecidableEq α] (inactive : Finset α) (id : α) (isActive : Bool) :
    Finset α :=
  if isActive then inactive.erase id else insert id inactive

/-- The durable write of one event. -/
def Mirror.write (m : Mirror) : Event → Mirror
  | .permVersion userId version =>
    { m with permVersions := m.permVersions.insert userId version.repr }
  | .userStatus userId isActive =>
    { m with inactiveUsers := setStatus m.inactiveUsers userId isActive }
  | .tenantStatus tenantId isActive =>
    { m with inactiveTenants := setStatus m.inactiveTenants tenantId isActive }

/-- A pipeline that goes through: the writes, and the messages on the channel. -/
def publishEvents (events : List Event) (m : Mirror) : Mirror × List Event :=
  (events.foldl Mirror.write m, events)

structure AuthzCache where
  inactiveUserIds : Finset Uuid
  inactiveTenantIds : Finset Uuid
  permVersion : AList (fun _ : Uuid => ℕ)

namespace AuthzCache

def empty : AuthzCache := ⟨∅, ∅, ∅⟩

def isUserInactive (cache : AuthzCache) (userId : Uuid) : Bool := userId ∈ cache.inactiveUserIds

def isTenantInactive (cache : AuthzCache) (tenantId : Option Uuid) : Bool :=
  match tenantId with
  | none => false
  | some tenantId => tenantId ∈ cache.inactiveTenantIds

/-- A user the cache has not heard of is not stale. -/
def isStale (cache : AuthzCache) (userId : Uuid) (tokenPermVersion : ℕ) : Bool :=
  match cache.permVersion.lookup userId with
  | none => false
  | some current => tokenPermVersion < current

/-- `_apply_event`; a message whose identifier does not parse raises. -/
def applyEvent (cache : AuthzCache) : Event → Option AuthzCache
  | .permVersion userId version => do
    let userId ← Uuid.ofString userId
    return { cache with permVersion := cache.permVersion.insert userId version }
  | .userStatus userId isActive => do
    let userId ← Uuid.ofString userId
    return { cache with
      inactiveUserIds := setStatus cache.inactiveUserIds userId isActive }
  | .tenantStatus tenantId isActive => do
    let tenantId ← Uuid.ofString tenantId
    return { cache with
      inactiveTenantIds := setStatus cache.inactiveTenantIds tenantId isActive }

/-- `{uuid.UUID(k): int(v) for k, v in versions.items()}`. -/
def parseVersions (versions : AList (fun _ : String => String)) :
    Option (AList (fun _ : Uuid => ℕ)) :=
  versions.entries.foldlM (fun parsed entry => do
    let userId ← Uuid.ofString entry.1
    let version ← parseInt entry.2
    return parsed.insert userId version) ∅

/-- `{uuid.UUID(u) for u in ids}`. -/
def parseIds (ids : Finset String) : Option (Finset Uuid) :=
  if ∀ id ∈ ids, (Uuid.ofString id).isSome then
    some (ids.biUnion (fun id => (Uuid.ofString id).toFinset))
  else none

/-- `_resync_once` on a reachable Redis. The structures are replaced one after
another, and a text that does not parse leaves those from its own on as they were. -/
def resyncOnce (cache : AuthzCache) (m : Mirror) : AuthzCache :=
  match parseVersions m.permVersions with
  | none => cache
  | some permVersion =>
    match parseIds m.inactiveUsers with
    | none => { cache with permVersion := permVersion }
    | some inactiveUserIds =>
      match parseIds m.inactiveTenants with
      | none => { cache with permVersion := permVersion, inactiveUserIds := inactiveUserIds }
      | some inactiveTenantIds => ⟨inactiveUserIds, inactiveTenantIds, permVersion⟩

end AuthzCache

/-- The version that the mirror has for the user. -/
def Mirror.version (m : Mirror) (userId : Uuid) : Option ℕ :=
  (m.permVersions.lookup userId.str).bind parseInt

/-! ### Canonical texts

Every identifier in an event or a key is `str` of an identifier, every version
in the mirror `str` of a number, and parsing them gives them back. -/

def Event.Canonical : Event → Prop
  | permVersion id _ => ∃ userId : Uuid, id = userId.str
  | userStatus id _ => ∃ userId : Uuid, id = userId.str
  | tenantStatus id _ => ∃ tenantId : Uuid, id = tenantId.str

structure Mirror.Canonical (m : Mirror) : Prop where
  versions : ∀ entry ∈ m.permVersions.entries,
    (∃ userId : Uuid, entry.1 = userId.str) ∧ ∃ n : ℕ, entry.2 = n.repr
  users : ∀ id ∈ m.inactiveUsers, ∃ userId : Uuid, id = userId.str
  tenants : ∀ id ∈ m.inactiveTenants, ∃ tenantId : Uuid, id = tenantId.str

namespace Mirror.Canonical

variable {m : Mirror} {e : Event}

theorem empty : Mirror.empty.Canonical := by
  constructor <;> simp [Mirror.empty]

theorem mem_setStatus {α : Type} [DecidableEq α] {inactive : Finset α} {id x : α} {isActive : Bool} :
    x ∈ setStatus inactive id isActive ↔ if x = id then isActive = false else x ∈ inactive := by
  unfold setStatus
  by_cases hx : x = id <;> cases isActive <;> simp [hx]

theorem write (h : m.Canonical) (he : e.Canonical) : (m.write e).Canonical := by
  cases e with
  | permVersion userId version =>
    refine ⟨?_, h.users, h.tenants⟩
    intro entry hentry
    have hcons : entry ∈ ⟨userId, version.repr⟩ :: m.permVersions.entries.kerase userId := hentry
    rw [List.mem_cons] at hcons
    by_cases hnew : entry = ⟨userId, version.repr⟩
    · rw [hnew]
      exact ⟨he, version, rfl⟩
    · have hold := hcons.resolve_left hnew
      exact h.versions entry ((List.kerase_sublist _ _).subset hold)
  | userStatus userId isActive =>
    refine ⟨h.versions, ?_, h.tenants⟩
    intro id hid
    rw [Mirror.write, mem_setStatus] at hid
    split at hid
    · rename_i hsame
      rw [hsame]
      exact he
    · exact h.users id hid
  | tenantStatus tenantId isActive =>
    refine ⟨h.versions, h.users, ?_⟩
    intro id hid
    rw [Mirror.write, mem_setStatus] at hid
    split at hid
    · rename_i hsame
      rw [hsame]
      exact he
    · exact h.tenants id hid

end Mirror.Canonical

namespace AuthzCache

/-- The comprehension over canonical entries gives each identifier its version. -/
theorem parseEntries_eq_some (entries : List (Sigma (fun _ : String => String)))
    (hcanonical : ∀ entry ∈ entries,
      (∃ userId : Uuid, entry.1 = userId.str) ∧ ∃ n : ℕ, entry.2 = n.repr)
    (hnodup : entries.NodupKeys) (start : AList (fun _ : Uuid => ℕ)) :
    ∃ parsed, entries.foldlM (fun (parsed : AList (fun _ : Uuid => ℕ)) entry => do
        let userId ← Uuid.ofString entry.1
        let version ← parseInt entry.2
        return parsed.insert userId version) start = some parsed ∧
      ∀ userId : Uuid, parsed.lookup userId =
        ((entries.dlookup userId.str).bind parseInt).or (start.lookup userId) := by
  induction entries generalizing start with
  | nil => exact ⟨start, rfl, fun _ => rfl⟩
  | cons entry entries ih =>
    obtain ⟨id, text⟩ := entry
    obtain ⟨hfree, hrest⟩ := List.nodupKeys_cons.mp hnodup
    obtain ⟨⟨w, hid⟩, version, htext⟩ := hcanonical ⟨id, text⟩ (by simp)
    obtain rfl : id = w.str := hid
    obtain rfl : text = version.repr := htext
    obtain ⟨parsed, hparsed, hlookup⟩ :=
      ih (fun entry hentry => hcanonical entry (by simp [hentry])) hrest (start.insert w version)
    refine ⟨parsed, ?_, ?_⟩
    · rw [List.foldlM_cons, Uuid.ofString_str, parseInt_repr]
      exact hparsed
    · intro userId
      rw [hlookup]
      by_cases hsame : userId = w
      · have hnone : entries.dlookup w.str = none := List.dlookup_eq_none.mpr hfree
        rw [hsame, List.dlookup_cons_eq, AList.lookup_insert, hnone]
        simp
      · have hne : userId.str ≠ w.str := fun hstr => hsame (Uuid.str_injective hstr)
        have hskip : List.dlookup userId.str (⟨w.str, version.repr⟩ :: entries) =
            entries.dlookup userId.str := List.dlookup_cons_ne entries ⟨w.str, version.repr⟩ hne
        rw [hskip, AList.lookup_insert_ne hsame]

theorem parseIds_eq_some {ids : Finset String}
    (hcanonical : ∀ id ∈ ids, ∃ userId : Uuid, id = userId.str) :
    ∃ parsed, parseIds ids = some parsed ∧ ∀ userId : Uuid, userId ∈ parsed ↔ userId.str ∈ ids := by
  have hall : ∀ id ∈ ids, (Uuid.ofString id).isSome := by
    intro id hid
    obtain ⟨userId, rfl⟩ := hcanonical id hid
    rw [Uuid.ofString_str]
    rfl
  refine ⟨_, if_pos hall, ?_⟩
  intro userId
  simp only [Finset.mem_biUnion, Option.mem_toFinset, Option.mem_def]
  constructor
  · rintro ⟨id, hid, hparse⟩
    obtain ⟨w, rfl⟩ := hcanonical id hid
    rw [Uuid.ofString_str] at hparse
    rw [← Option.some.inj hparse]
    exact hid
  · exact fun hid => ⟨userId.str, hid, Uuid.ofString_str userId⟩

/-- A resync from a canonical mirror takes every entry over. -/
theorem resyncOnce_of_canonical (cache : AuthzCache) {m : Mirror} (h : m.Canonical) :
    (∀ userId : Uuid, (cache.resyncOnce m).permVersion.lookup userId = m.version userId) ∧
      (∀ userId : Uuid, userId ∈ (cache.resyncOnce m).inactiveUserIds ↔
        userId.str ∈ m.inactiveUsers) ∧
      ∀ tenantId : Uuid, tenantId ∈ (cache.resyncOnce m).inactiveTenantIds ↔
        tenantId.str ∈ m.inactiveTenants := by
  obtain ⟨versions, hversions, hlookup⟩ :=
    parseEntries_eq_some m.permVersions.entries h.versions m.permVersions.nodupKeys ∅
  obtain ⟨users, husers, hmemUsers⟩ := parseIds_eq_some h.users
  obtain ⟨tenants, htenants, hmemTenants⟩ := parseIds_eq_some h.tenants
  have hresync : cache.resyncOnce m = ⟨users, tenants, versions⟩ := by
    have hparse : parseVersions m.permVersions = some versions := hversions
    simp [resyncOnce, hparse, husers, htenants]
  rw [hresync]
  refine ⟨?_, hmemUsers, hmemTenants⟩
  intro userId
  rw [hlookup, AList.lookup_empty, Option.or_none]
  rfl

end AuthzCache
end FastapiTemplate
