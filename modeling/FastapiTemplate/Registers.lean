import FastapiTemplate.AuthzCache
import FastapiTemplate.Changes
import FastapiTemplate.Library.LastWrite

/-!
One entry of the authorization state and its copies. The version of a user, the
status of a user and the status of a tenant each live in the database, in the
Redis mirror and in the cache of a worker; a published event overwrites the
copies with its value. A register bundles the three places of an entry with the
laws of the steps that write them.
-/
namespace FastapiTemplate

open Library.KeyedTable Library.LastWrite

namespace Event

/-- The version that the event gives the user. -/
def version (userId : Uuid) : Event → Option ℕ
  | permVersion id version => if id = userId.str then some version else none
  | _ => none

/-- The status that the event gives the user. -/
def userActive (userId : Uuid) : Event → Option Bool
  | userStatus id isActive => if id = userId.str then some isActive else none
  | _ => none

/-- The status that the event gives the tenant. -/
def tenantActive (tenantId : Uuid) : Event → Option Bool
  | tenantStatus id isActive => if id = tenantId.str then some isActive else none
  | _ => none

end Event

/-! ### What a change publishes -/

/-- The changes that hand events to `publish_events`. -/
def Change.Published : Change → Prop
  | assignToUser _ _ => True
  | removeFromUser _ _ => True
  | addPermission _ _ => True
  | removePermission _ _ => True
  | syncRootTenantRole _ _ => True
  | grantPermission _ _ => True
  | revokePermission _ _ => True
  | setUserActive _ _ => True
  | setTenantActive _ _ => True
  | _ => False

/-- The tables after a change to objects that were loaded some time before, when
the transaction alone would leave `t'`. A column that is set to the value it was
loaded with is not in the `UPDATE`, whatever the row says by then. -/
def Change.flush (t t' : Tables) : Change → Tables
  | setUserActive user isActive => if user.isActive = isActive then t else t'
  | setTenantActive tenant isActive => if tenant.isActive = isActive then t else t'
  | addPermission role permission =>
    if RoleRepository.maskWith role.permissionMask permission = role.permissionMask then
      { t' with roles := t.roles } else t'
  | removePermission role permission =>
    if RoleRepository.maskWithout role.permissionMask permission = role.permissionMask then
      { t' with roles := t.roles } else t'
  | _ => t'

/-- A request commits the change on whatever objects it has loaded. -/
def Change.Flushes (c : Change) (db db' : Db) (es : List Event) : Prop :=
  ∃ db₁ : Db, c.Commits db db₁ es ∧ db'.toTables = c.flush db.toTables db₁.toTables

/-- What a commit does to the rows that its events are about: it counts the
versions on from the ones it has read, and sets a status or leaves it. -/
inductive Publishes (db db' : Db) (es : List Event) : Prop
  | versions (ids : Uuid → Bool) (read : ℕ → ℕ) :
      (∀ id, db'.users.get id = (db.users.get id).map (fun u =>
        if ids id then { u with permVersion := read u.permVersion + 1 } else u)) →
      db'.tenants = db.tenants →
      (∀ e, e ∈ es ↔ ∃ id u, db'.users.get id = some u ∧ ids id = true ∧
        e = .permVersion id.str u.permVersion) → Publishes db db' es
  | userStatus (userId : Uuid) (status : Bool → Bool) (isActive : Bool) :
      (db.users.get userId).isSome →
      (∀ id, db'.users.get id = (db.users.get id).map (fun u =>
        if id = userId then { u with isActive := status u.isActive } else u)) →
      db'.tenants = db.tenants → es = [.userStatus userId.str isActive] → Publishes db db' es
  | tenantStatus (tenantId : Uuid) (status : Bool → Bool) (isActive : Bool) :
      (db.tenants.get tenantId).isSome → db'.users = db.users →
      (∀ id, db'.tenants.get id = (db.tenants.get id).map (fun x =>
        if id = tenantId then { x with isActive := status x.isActive } else x)) →
      es = [.tenantStatus tenantId.str isActive] → Publishes db db' es

section Publishes

variable {c : Change} {db db' : Db} {es : List Event}

theorem publishes_nothing (husers : db'.users = db.users) (htenants : db'.tenants = db.tenants)
    (hes : es = []) : Publishes db db' es := by
  refine .versions (fun _ => false) id ?_ htenants ?_
  · intro id
    simp [husers]
  · simp [hes]

theorem publishes_bump {t t' : Tables} {ids : Uuid → Bool} (ht : t' = t.bumpPermVersion ids)
    (ht₀ : t.users = db.users) (htenants₀ : t.tenants = db.tenants)
    (hes : es = t'.versionEvents ids) (husers : db'.users = t'.users)
    (htenants : db'.tenants = t'.tenants) : Publishes db db' es := by
  refine .versions ids id ?_ ?_ ?_
  · intro id
    rw [husers, ht, Tables.get_bumpPermVersion, ht₀]
    rfl
  · rw [htenants, ht]
    exact htenants₀
  · intro e
    rw [hes, ht, Tables.mem_versionEvents, husers, ht]

/-- The version written is the loaded one plus one. -/
theorem publishes_write {v : User} (hsome : (db.users.get v.id).isSome)
    (husers : db'.users = db.users.update (fun u => u.id = v.id)
      (fun u => { u with permVersion := v.permVersion + 1 }) (fun _ => rfl))
    (htenants : db'.tenants = db.tenants)
    (hes : es = [.permVersion v.id.str (v.permVersion + 1)]) : Publishes db db' es := by
  have hget : ∀ id, db'.users.get id = (db.users.get id).map (fun u =>
      if decide (id = v.id) then { u with permVersion := v.permVersion + 1 } else u) := by
    intro id
    rw [husers, Table.get_update]
    rcases hu : db.users.get id with _ | u
    · rfl
    · obtain rfl := Table.key_of_get hu
      rfl
  obtain ⟨u, hu⟩ := Option.isSome_iff_exists.mp hsome
  have hrow : db'.users.get v.id = some { u with permVersion := v.permVersion + 1 } := by
    rw [hget, hu]
    simp
  refine .versions _ (fun _ => v.permVersion) hget htenants ?_
  intro e
  rw [hes, List.mem_singleton]
  constructor
  · rintro rfl
    exact ⟨v.id, _, hrow, by simp, rfl⟩
  · rintro ⟨id, u, hu, hid, rfl⟩
    obtain rfl : id = v.id := of_decide_eq_true hid
    rw [hrow] at hu
    rw [← Option.some.inj hu]

/-- The row of a user after a status that is written, or left when it is the
loaded one. -/
theorem get_flush_status {t t' : Tables} {v : User} {isActive : Bool}
    (husers : t'.users = t.users.update (fun u => u.id = v.id)
      (fun u => { u with isActive := isActive }) (fun _ => rfl)) (id : Uuid) :
    (if v.isActive = isActive then t else t').users.get id =
      (t.users.get id).map (fun u => if id = v.id then
        { u with isActive := if v.isActive = isActive then u.isActive else isActive } else u) := by
  split
  · simp
  · rw [husers, Table.get_update]
    rcases hu : t.users.get id with _ | u
    · rfl
    · obtain rfl := Table.key_of_get hu
      simp

theorem get_flush_tenantStatus {t t' : Tables} {y : Tenant} {isActive : Bool}
    (htenants : t'.tenants = t.tenants.update (fun x => x.id = y.id)
      (fun x => { x with isActive := isActive }) (fun _ => rfl)) (id : Uuid) :
    (if y.isActive = isActive then t else t').tenants.get id =
      (t.tenants.get id).map (fun x => if id = y.id then
        { x with isActive := if y.isActive = isActive then x.isActive else isActive } else x) := by
  split
  · simp
  · rw [htenants, Table.get_update]
    rcases hx : t.tenants.get id with _ | x
    · rfl
    · obtain rfl := Table.key_of_get hx
      simp

theorem Change.publishes (hpublished : c.Published) (h : c.Flushes db db' es) :
    Publishes db db' es := by
  obtain ⟨db₁, hcommit, hflush⟩ := h
  cases c with
  | assignToUser roleId userId =>
    obtain ⟨a, h⟩ := hcommit
    obtain ⟨_, ht, hes⟩ := RoleRepository.assignToUserTx_eq_ok h
    simp only [Change.flush] at hflush
    exact publishes_bump ht rfl rfl hes (by rw [hflush]) (by rw [hflush])
  | removeFromUser roleId userId =>
    obtain ⟨a, h⟩ := hcommit
    obtain ⟨ht, hes⟩ := RoleRepository.removeFromUserTx_eq_ok h
    simp only [Change.flush] at hflush
    exact publishes_bump ht rfl rfl hes (by rw [hflush]) (by rw [hflush])
  | addPermission role permission =>
    obtain ⟨a, h⟩ := hcommit
    obtain ⟨_, _, ht, hes, _⟩ := RoleRepository.addPermissionTx_eq_ok h
    simp only [Change.flush] at hflush
    refine publishes_bump ht rfl rfl hes ?_ ?_
    · rw [hflush]
      split <;> rfl
    · rw [hflush]
      split <;> rfl
  | removePermission role permission =>
    obtain ⟨a, h⟩ := hcommit
    obtain ⟨_, _, ht, hes, _⟩ := RoleRepository.removePermissionTx_eq_ok h
    simp only [Change.flush] at hflush
    refine publishes_bump ht rfl rfl hes ?_ ?_
    · rw [hflush]
      split <;> rfl
    · rw [hflush]
      split <;> rfl
  | syncRootTenantRole tenantId allowed =>
    obtain ⟨a, h⟩ := hcommit
    simp only [Change.flush] at hflush
    rcases RoleRepository.syncRootTenantRolePermissionsTx_eq_ok h with
      ⟨_, ht, hes⟩ | ⟨role, _, hsync⟩
    · exact publishes_nothing (by rw [hflush, ht]) (by rw [hflush, ht]) hes
    · obtain ⟨_, ht, hes⟩ := RoleRepository.resyncRole_eq_ok hsync
      exact publishes_bump ht rfl rfl hes (by rw [hflush]) (by rw [hflush])
  | grantPermission user permission =>
    obtain ⟨a, h⟩ := hcommit
    obtain ⟨hsome, _, ht, hes⟩ := UserRepository.grantPermissionTx_eq_ok h
    simp only [Change.flush, ht] at hflush
    exact publishes_write hsome (by rw [hflush]) (by rw [hflush]) hes
  | revokePermission user permission =>
    obtain ⟨a, h⟩ := hcommit
    obtain ⟨hsome, _, ht, hes⟩ := UserRepository.revokePermissionTx_eq_ok h
    simp only [Change.flush, ht] at hflush
    exact publishes_write hsome (by rw [hflush]) (by rw [hflush]) hes
  | setUserActive user isActive =>
    obtain ⟨a, h⟩ := hcommit
    obtain ⟨hsome, ht, hes⟩ := UserRepository.setActiveTx_eq_ok h
    simp only [Change.flush] at hflush
    refine .userStatus user.id (fun b => if user.isActive = isActive then b else isActive)
      isActive hsome ?_ ?_ hes
    · intro id
      rw [hflush]
      exact get_flush_status (by rw [ht]) id
    · rw [hflush, ht]
      split <;> rfl
  | setTenantActive tenant isActive =>
    obtain ⟨a, h⟩ := hcommit
    obtain ⟨hsome, ht, hes⟩ := TenantRepository.setActiveTx_eq_ok h
    simp only [Change.flush] at hflush
    refine .tenantStatus tenant.id (fun b => if tenant.isActive = isActive then b else isActive)
      isActive hsome ?_ ?_ hes
    · rw [hflush, ht]
      split <;> rfl
    · intro id
      rw [hflush]
      exact get_flush_tenantStatus (by rw [ht]) id
  | _ => exact hpublished.elim

/-- Setting the mask that the row of the loaded role has is no change. -/
theorem update_loaded_mask {t : Tables} {role : LoadedRole} {mask : ℕ}
    (hrole : RoleRepository.getById t role.id = some role) (hsame : mask = role.permissionMask) :
    t.roles.update (fun r => r.id = role.id) (fun r => { r with permissionMask := mask })
      (Role.id_setMask mask) = t.roles := by
  obtain ⟨hrow, _, _⟩ := RoleRepository.getById_eq_some hrole
  apply Table.update_eq_self
  intro r hr hid
  rw [Table.eq_of_get hr (of_decide_eq_true hid) hrow, hsame]

/-- On the rows that the request has loaded nothing is left out. -/
theorem Change.flush_of_current (hcur : c.Current db.toTables) (h : c.Commits db db' es) :
    c.flush db.toTables db'.toTables = db'.toTables := by
  cases c with
  | setUserActive user isActive =>
    obtain ⟨a, h⟩ := h
    obtain ⟨_, ht, _⟩ := UserRepository.setActiveTx_eq_ok h
    simp only [Change.flush]
    split
    · rename_i hsame
      rw [ht, Table.update_eq_self]
      intro u hu hid
      rw [Table.eq_of_get hu (of_decide_eq_true hid) hcur, ← hsame]
    · rfl
  | setTenantActive tenant isActive =>
    obtain ⟨a, h⟩ := h
    obtain ⟨_, ht, _⟩ := TenantRepository.setActiveTx_eq_ok h
    simp only [Change.flush]
    split
    · rename_i hsame
      rw [ht, Table.update_eq_self]
      intro x hx hid
      rw [Table.eq_of_get hx (of_decide_eq_true hid) hcur, ← hsame]
    · rfl
  | addPermission role permission =>
    obtain ⟨a, h⟩ := h
    obtain ⟨_, _, ht, _, _⟩ := RoleRepository.addPermissionTx_eq_ok h
    simp only [Change.flush]
    split
    · rename_i hsame
      rw [← update_loaded_mask hcur.1 hsame, ht]
      rfl
    · rfl
  | removePermission role permission =>
    obtain ⟨a, h⟩ := h
    obtain ⟨_, _, ht, _, _⟩ := RoleRepository.removePermissionTx_eq_ok h
    simp only [Change.flush]
    split
    · rename_i hsame
      rw [← update_loaded_mask hcur.1 hsame, ht]
      rfl
    · rfl
  | _ => rfl

theorem Change.flushes (hcur : c.Current db.toTables) (h : c.Commits db db' es) :
    c.Flushes db db' es :=
  ⟨db', h, (flush_of_current hcur h).symm⟩

theorem Publishes.canonical (h : Publishes db db' es) : ∀ e ∈ es, e.Canonical := by
  intro e he
  cases h with
  | versions ids read _ _ hes =>
    obtain ⟨id, u, _, _, rfl⟩ := (hes e).mp he
    exact ⟨id, rfl⟩
  | userStatus userId status isActive _ _ _ hes =>
    rw [hes, List.mem_singleton] at he
    rw [he]
    exact ⟨userId, rfl⟩
  | tenantStatus tenantId status isActive _ _ _ hes =>
    rw [hes, List.mem_singleton] at he
    rw [he]
    exact ⟨tenantId, rfl⟩

end Publishes

/-! ### Registers -/

/-- The event with the value that its row has by now. -/
def Event.inRow (t : Tables) : Event → Event
  | permVersion id version =>
    .permVersion id (((Uuid.ofString id).bind t.users.get).elim version User.permVersion)
  | userStatus id isActive =>
    .userStatus id (((Uuid.ofString id).bind t.users.get).elim isActive User.isActive)
  | tenantStatus id isActive =>
    .tenantStatus id (((Uuid.ofString id).bind t.tenants.get).elim isActive Tenant.isActive)

theorem Event.Canonical.inRow {e : Event} (he : e.Canonical) (t : Tables) :
    (e.inRow t).Canonical := by
  cases e <;> exact he

/-- An entry of the authorization state in its three places. -/
structure Register (α : Type) where
  writes : Event → Option α
  inDb : Db → Option α
  inMirror : Mirror → Option α
  inCache : AuthzCache → Option α
  inRow : ∀ (db : Db) (e : Event), writes (e.inRow db.toTables) = (writes e).map (inDb db).getD
  kept : ∀ {db db' : Db} {es : List Event}, Publishes db db' es →
    (∀ e ∈ es, writes e = none) → inDb db' = inDb db
  present : ∀ {db db' : Db} {es : List Event}, Publishes db db' es →
    ∀ e ∈ es, (writes e).isSome → (inDb db').isSome
  written : ∀ (m : Mirror) (e : Event), inMirror (m.write e) = (writes e).or (inMirror m)
  applied : ∀ {cache cache' : AuthzCache} {e : Event}, e.Canonical →
    cache.applyEvent e = some cache' → inCache cache' = (writes e).or (inCache cache)
  resynced : ∀ (cache : AuthzCache) {m : Mirror}, m.Canonical →
    inCache (cache.resyncOnce m) = inMirror m

/-- An event is about the same entry as before. -/
theorem Register.isSome_inRow {α : Type} (r : Register α) (db : Db) (e : Event) :
    (r.writes (e.inRow db.toTables)).isSome = (r.writes e).isSome := by
  rw [r.inRow, Option.isSome_map]

/-- The database has the value that the last event of the commit finds in its row. -/
theorem Register.committed {α : Type} (r : Register α) {db db' : Db} {es : List Event}
    (h : Publishes db db' es) :
    r.inDb db' = (lastWrite r.writes (es.map (Event.inRow db'.toTables))).or (r.inDb db) := by
  by_cases hwrites : ∃ e ∈ es, (r.writes e).isSome
  · obtain ⟨e, he, hsome⟩ := hwrites
    obtain ⟨b, hb⟩ := Option.isSome_iff_exists.mp (r.present h e he hsome)
    obtain ⟨a, ha⟩ := Option.isSome_iff_exists.mp hsome
    have hlast : lastWrite r.writes (es.map (Event.inRow db'.toTables)) = some b := by
      refine lastWrite_eq_some ⟨_, List.mem_map_of_mem he, ?_⟩ ?_
      · rw [r.inRow, ha, hb]
        rfl
      · intro e' he' c hc
        obtain ⟨e'', _, rfl⟩ := List.mem_map.mp he'
        rw [r.inRow, hb, Option.map_eq_some_iff] at hc
        obtain ⟨_, _, rfl⟩ := hc
        rfl
    rw [hlast, hb, Option.some_or]
  · have hnone : ∀ e ∈ es, r.writes e = none := by
      intro e he
      rw [← Option.not_isSome_iff_eq_none]
      exact fun hsome => hwrites ⟨e, he, hsome⟩
    have hlast : lastWrite r.writes (es.map (Event.inRow db'.toTables)) = none := by
      rw [lastWrite_eq_none_iff]
      intro e' he'
      obtain ⟨e, he, rfl⟩ := List.mem_map.mp he'
      rw [r.inRow, hnone e he]
      rfl
    rw [hlast, Option.none_or, r.kept h hnone]

section Versions

variable {userId id : Uuid} {db db' : Db} {es : List Event}

@[simp] theorem version_permVersion {version : ℕ} :
    (Event.permVersion id.str version).version userId =
      if id = userId then some version else none := by
  by_cases hsame : id = userId <;> simp [Event.version, hsame, Uuid.str_injective.eq_iff]

theorem version_eq_some_iff {e : Event} {version : ℕ} :
    e.version userId = some version ↔ e = .permVersion userId.str version := by
  cases e with
  | permVersion id n =>
    by_cases hid : id = userId.str <;> simp [Event.version, hid]
  | userStatus id isActive => simp [Event.version]
  | tenantStatus id isActive => simp [Event.version]

theorem version_inRow (db : Db) (e : Event) : (e.inRow db.toTables).version userId =
    (e.version userId).map ((db.users.get userId).map User.permVersion).getD := by
  cases e with
  | permVersion id n =>
    by_cases hid : id = userId.str
    · simp only [Event.inRow, Event.version, hid, Uuid.ofString_str, Option.bind_some, if_true,
        Option.map_some]
      rcases db.users.get userId with _ | u <;> rfl
    · simp [Event.inRow, Event.version, hid]
  | userStatus id isActive => rfl
  | tenantStatus id isActive => rfl

/-- A commit that announces no version of the user has left theirs alone. -/
theorem version_kept (h : Publishes db db' es) (hnone : ∀ e ∈ es, e.version userId = none) :
    (db'.users.get userId).map User.permVersion = (db.users.get userId).map User.permVersion := by
  cases h with
  | versions ids read husers _ hes =>
    rw [husers]
    rcases hu : db.users.get userId with _ | u
    · rfl
    · by_cases hids : ids userId = true
      · have hrow : db'.users.get userId =
            some { u with permVersion := read u.permVersion + 1 } := by
          rw [husers, hu, Option.map_some, if_pos hids]
        have hwrite := hnone _ ((hes _).mpr ⟨userId, _, hrow, hids, rfl⟩)
        simp at hwrite
      · rw [Option.map_some, if_neg hids]
  | userStatus statusId status isActive _ husers _ _ =>
    rw [husers]
    rcases db.users.get userId with _ | u
    · rfl
    · by_cases hid : userId = statusId <;> simp [hid]
  | tenantStatus tenantId status isActive _ husers _ _ => rw [husers]

/-- An event carries the version that the commit has left, which is not zero. -/
theorem version_of_mem (h : Publishes db db' es) {e : Event} (he : e ∈ es) {version : ℕ}
    (hversion : e.version userId = some version) :
    (db'.users.get userId).map User.permVersion = some version ∧ 0 < version := by
  cases h with
  | versions ids read husers _ hes =>
    obtain ⟨id, v, hv, hid, rfl⟩ := (hes e).mp he
    rw [version_permVersion] at hversion
    split at hversion
    · rename_i hsame
      rw [← hsame, hv]
      refine ⟨hversion, ?_⟩
      rw [husers] at hv
      obtain ⟨u, _, rfl⟩ := Option.map_eq_some_iff.mp hv
      rw [if_pos hid] at hversion
      rw [← Option.some.inj hversion]
      exact Nat.succ_pos _
    · cases hversion
  | userStatus statusId status isActive _ _ _ hes =>
    rw [hes, List.mem_singleton] at he
    rw [he] at hversion
    cases hversion
  | tenantStatus tenantId status isActive _ _ _ hes =>
    rw [hes, List.mem_singleton] at he
    rw [he] at hversion
    cases hversion

theorem version_inRow_of_mem (h : Publishes db db' es) {e : Event} (he : e ∈ es) :
    (e.inRow db'.toTables).version userId = e.version userId := by
  rw [version_inRow]
  rcases hversion : e.version userId with _ | version
  · rfl
  · rw [(version_of_mem h he hversion).1]
    rfl

end Versions

section Status

variable {userId tenantId : Uuid} {db db' : Db} {es : List Event}

theorem userActive_inRow (db : Db) (e : Event) : (e.inRow db.toTables).userActive userId =
    (e.userActive userId).map ((db.users.get userId).map User.isActive).getD := by
  cases e with
  | userStatus id isActive =>
    by_cases hid : id = userId.str
    · simp only [Event.inRow, Event.userActive, hid, Uuid.ofString_str, Option.bind_some, if_true,
        Option.map_some]
      rcases db.users.get userId with _ | u <;> rfl
    · simp [Event.inRow, Event.userActive, hid]
  | permVersion id version => rfl
  | tenantStatus id isActive => rfl

theorem tenantActive_inRow (db : Db) (e : Event) : (e.inRow db.toTables).tenantActive tenantId =
    (e.tenantActive tenantId).map ((db.tenants.get tenantId).map Tenant.isActive).getD := by
  cases e with
  | tenantStatus id isActive =>
    by_cases hid : id = tenantId.str
    · simp only [Event.inRow, Event.tenantActive, hid, Uuid.ofString_str, Option.bind_some,
        if_true, Option.map_some]
      rcases db.tenants.get tenantId with _ | x <;> rfl
    · simp [Event.inRow, Event.tenantActive, hid]
  | permVersion id version => rfl
  | userStatus id isActive => rfl

/-- A commit that announces no status of the user has left theirs alone. -/
theorem userActive_kept (h : Publishes db db' es) (hnone : ∀ e ∈ es, e.userActive userId = none) :
    (db'.users.get userId).map User.isActive = (db.users.get userId).map User.isActive := by
  cases h with
  | versions ids read husers _ _ =>
    rw [husers]
    rcases db.users.get userId with _ | u
    · rfl
    · by_cases hids : ids userId = true <;> simp [hids]
  | userStatus statusId status isActive _ husers _ hes =>
    have hne : userId ≠ statusId := by
      rintro rfl
      simp [Event.userActive, hes] at hnone
    rw [husers]
    rcases db.users.get userId with _ | u <;> simp [hne]
  | tenantStatus tenantId status isActive _ husers _ _ => rw [husers]

theorem tenantActive_kept (h : Publishes db db' es)
    (hnone : ∀ e ∈ es, e.tenantActive tenantId = none) :
    (db'.tenants.get tenantId).map Tenant.isActive =
      (db.tenants.get tenantId).map Tenant.isActive := by
  cases h with
  | versions ids read _ htenants _ => rw [htenants]
  | userStatus statusId status isActive _ _ htenants _ => rw [htenants]
  | tenantStatus statusId status isActive _ _ htenants hes =>
    have hne : tenantId ≠ statusId := by
      rintro rfl
      simp [Event.tenantActive, hes] at hnone
    rw [htenants]
    rcases db.tenants.get tenantId with _ | x <;> simp [hne]

/-- The row of a user whose status is announced is there. -/
theorem userActive_present (h : Publishes db db' es) (e : Event) (he : e ∈ es)
    (hsome : (e.userActive userId).isSome) : ((db'.users.get userId).map User.isActive).isSome := by
  cases h with
  | versions ids read _ _ hes =>
    obtain ⟨id, v, _, _, rfl⟩ := (hes e).mp he
    cases hsome
  | userStatus statusId status isActive hrow husers _ hes =>
    rw [hes, List.mem_singleton] at he
    rw [he] at hsome
    by_cases hid : statusId.str = userId.str
    · rw [husers, ← Uuid.str_injective hid]
      simpa using hrow
    · simp [Event.userActive, hid] at hsome
  | tenantStatus statusId status isActive _ _ _ hes =>
    rw [hes, List.mem_singleton] at he
    rw [he] at hsome
    cases hsome

theorem tenantActive_present (h : Publishes db db' es) (e : Event) (he : e ∈ es)
    (hsome : (e.tenantActive tenantId).isSome) :
    ((db'.tenants.get tenantId).map Tenant.isActive).isSome := by
  cases h with
  | versions ids read _ _ hes =>
    obtain ⟨id, v, _, _, rfl⟩ := (hes e).mp he
    cases hsome
  | userStatus statusId status isActive _ _ _ hes =>
    rw [hes, List.mem_singleton] at he
    rw [he] at hsome
    cases hsome
  | tenantStatus statusId status isActive hrow _ htenants hes =>
    rw [hes, List.mem_singleton] at he
    rw [he] at hsome
    by_cases hid : statusId.str = tenantId.str
    · rw [htenants, ← Uuid.str_injective hid]
      simpa using hrow
    · simp [Event.tenantActive, hid] at hsome

end Status

/-! ### The copies -/

/-- The status that membership in an inactive set stands for. -/
def statusIn {α : Type} [DecidableEq α] (inactive : Finset α) (id : α) : Option Bool :=
  some (decide (id ∉ inactive))

theorem statusIn_setStatus {α : Type} [DecidableEq α] {inactive : Finset α} {id x : α}
    {isActive : Bool} : statusIn (setStatus inactive id isActive) x =
      (if id = x then some isActive else none).or (statusIn inactive x) := by
  by_cases hx : id = x <;> cases isActive <;>
    simp [statusIn, setStatus, hx, eq_comm, Finset.mem_insert, Finset.mem_erase]

theorem lookup_insert_or {α β : Type} [DecidableEq α] {d : AList (fun _ : α => β)} {id x : α}
    {version : β} : (d.insert id version).lookup x =
      (if id = x then some version else none).or (d.lookup x) := by
  by_cases hx : id = x
  · simp [hx]
  · have hne : x ≠ id := fun hsame => hx hsame.symm
    simp [hx, AList.lookup_insert_ne hne]

/-- The write of an event in the mirror, entry by entry. -/
theorem Mirror.views_write (m : Mirror) (e : Event) :
    (∀ userId : Uuid, (m.write e).version userId = (e.version userId).or (m.version userId)) ∧
      (∀ userId : Uuid, statusIn (m.write e).inactiveUsers userId.str =
        (e.userActive userId).or (statusIn m.inactiveUsers userId.str)) ∧
      ∀ tenantId : Uuid, statusIn (m.write e).inactiveTenants tenantId.str =
        (e.tenantActive tenantId).or (statusIn m.inactiveTenants tenantId.str) := by
  cases e with
  | permVersion id version =>
    refine ⟨?_, fun _ => rfl, fun _ => rfl⟩
    intro userId
    simp only [Mirror.version, Mirror.write, lookup_insert_or, Event.version]
    by_cases hid : id = userId.str <;> simp [hid]
  | userStatus id isActive => exact ⟨fun _ => rfl, fun _ => statusIn_setStatus, fun _ => rfl⟩
  | tenantStatus id isActive => exact ⟨fun _ => rfl, fun _ => rfl, fun _ => statusIn_setStatus⟩

/-- The same for a message and the cache. -/
theorem AuthzCache.views_applyEvent {cache cache' : AuthzCache} {e : Event} (he : e.Canonical)
    (h : cache.applyEvent e = some cache') :
    (∀ userId : Uuid, cache'.permVersion.lookup userId =
        (e.version userId).or (cache.permVersion.lookup userId)) ∧
      (∀ userId : Uuid, statusIn cache'.inactiveUserIds userId =
        (e.userActive userId).or (statusIn cache.inactiveUserIds userId)) ∧
      ∀ tenantId : Uuid, statusIn cache'.inactiveTenantIds tenantId =
        (e.tenantActive tenantId).or (statusIn cache.inactiveTenantIds tenantId) := by
  cases e with
  | permVersion id version =>
    obtain ⟨w, rfl⟩ := he
    simp only [AuthzCache.applyEvent, Uuid.ofString_str] at h
    obtain rfl := Option.some.inj h
    refine ⟨?_, fun _ => rfl, fun _ => rfl⟩
    intro userId
    simp only [Event.version, Uuid.str_injective.eq_iff]
    exact lookup_insert_or
  | userStatus id isActive =>
    obtain ⟨w, rfl⟩ := he
    simp only [AuthzCache.applyEvent, Uuid.ofString_str] at h
    obtain rfl := Option.some.inj h
    refine ⟨fun _ => rfl, ?_, fun _ => rfl⟩
    intro userId
    simp only [Event.userActive, Uuid.str_injective.eq_iff]
    exact statusIn_setStatus
  | tenantStatus id isActive =>
    obtain ⟨w, rfl⟩ := he
    simp only [AuthzCache.applyEvent, Uuid.ofString_str] at h
    obtain rfl := Option.some.inj h
    refine ⟨fun _ => rfl, fun _ => rfl, ?_⟩
    intro tenantId
    simp only [Event.tenantActive, Uuid.str_injective.eq_iff]
    exact statusIn_setStatus

/-- A canonical event can always be applied. -/
theorem AuthzCache.applyEvent_isSome (cache : AuthzCache) {e : Event} (he : e.Canonical) :
    ∃ cache', cache.applyEvent e = some cache' := by
  cases e with
  | permVersion id version =>
    obtain ⟨w, rfl⟩ := he
    exact ⟨_, by rw [AuthzCache.applyEvent, Uuid.ofString_str]; rfl⟩
  | userStatus id isActive =>
    obtain ⟨w, rfl⟩ := he
    exact ⟨_, by rw [AuthzCache.applyEvent, Uuid.ofString_str]; rfl⟩
  | tenantStatus id isActive =>
    obtain ⟨w, rfl⟩ := he
    exact ⟨_, by rw [AuthzCache.applyEvent, Uuid.ofString_str]; rfl⟩

/-- `perm_version` of a user. -/
def versionRegister (userId : Uuid) : Register ℕ where
  writes := Event.version userId
  inDb db := (db.users.get userId).map User.permVersion
  inMirror m := m.version userId
  inCache cache := cache.permVersion.lookup userId
  inRow := version_inRow
  kept := version_kept
  present h e he hsome := by
    obtain ⟨version, hversion⟩ := Option.isSome_iff_exists.mp hsome
    rw [(version_of_mem h he hversion).1]
    rfl
  written m e := (m.views_write e).1 userId
  applied he h := (AuthzCache.views_applyEvent he h).1 userId
  resynced cache _ hm := (cache.resyncOnce_of_canonical hm).1 userId

/-- `is_active` of a user. -/
def userRegister (userId : Uuid) : Register Bool where
  writes := Event.userActive userId
  inDb db := (db.users.get userId).map User.isActive
  inMirror m := statusIn m.inactiveUsers userId.str
  inCache cache := statusIn cache.inactiveUserIds userId
  inRow := userActive_inRow
  kept := userActive_kept
  present := userActive_present
  written m e := (m.views_write e).2.1 userId
  applied he h := (AuthzCache.views_applyEvent he h).2.1 userId
  resynced cache _ hm := by
    simp only [statusIn, (cache.resyncOnce_of_canonical hm).2.1 userId]

/-- `is_active` of a tenant. -/
def tenantRegister (tenantId : Uuid) : Register Bool where
  writes := Event.tenantActive tenantId
  inDb db := (db.tenants.get tenantId).map Tenant.isActive
  inMirror m := statusIn m.inactiveTenants tenantId.str
  inCache cache := statusIn cache.inactiveTenantIds tenantId
  inRow := tenantActive_inRow
  kept := tenantActive_kept
  present := tenantActive_present
  written m e := (m.views_write e).2.2 tenantId
  applied he h := (AuthzCache.views_applyEvent he h).2.2 tenantId
  resynced cache _ hm := by
    simp only [statusIn, (cache.resyncOnce_of_canonical hm).2.2 tenantId]

end FastapiTemplate
