import FastapiTemplate.Calls

/-!
The rules that follow a service method through its checks. `Performed` relates
the states around one committed transaction of an operation: the transaction
is a change that the operation may make, its loaded objects are current, and it
is authorized unless the actor is a superuser. Each rule takes one kind of
step and hands what the step has checked to the rest of the method.
-/
namespace FastapiTemplate

open Library.KeyedTable Library.Committing Library.BitMask RoleService

/-- One committed transaction of an operation. -/
def Performed (actor : User) (call : Call) (db db' : Db) (es : List Event) : Prop :=
  ∃ c : Change, call.Performs c ∧ c.Current db.toTables ∧
    (actor.isSuperuser = false → c.Authorized actor db.toTables) ∧ c.Commits db db' es

/-- The actor was loaded from these tables. -/
def Tables.Loaded (t : Tables) (actor : LoadedUser) : Prop :=
  UserRepository.getByIdWithGrants t actor.id = some actor

section Loaded

variable {t : Tables} {actor : LoadedUser}

theorem Tables.Loaded.eq (h : t.Loaded actor) : actor = t.loadUser actor.toUser :=
  (UserRepository.getByIdWithGrants_eq_some h).2.1

theorem Tables.Loaded.row (h : t.Loaded actor) : t.users.get actor.id = some actor.toUser :=
  (UserRepository.getByIdWithGrants_eq_some h).1

theorem Tables.Loaded.held (h : t.Loaded actor) {roleId : RoleId} (hrole : roleId ∈ actor.roleIds) :
    (actor.id, roleId) ∈ t.userRoles := by
  obtain ⟨r, hr, rfl⟩ := List.mem_map.mp hrole
  rw [h.eq] at hr
  obtain ⟨role, _, hheld, rfl⟩ := Tables.mem_rolesOf.mp hr
  exact hheld

theorem Tables.Loaded.tenant (h : t.Loaded actor) {i : Uuid} (hi : actor.tenantId = some i) :
    actor.tenant = t.tenants.get i := by
  rw [h.eq]
  change actor.tenantId.bind t.tenants.get = _
  rw [hi]
  rfl

theorem Tables.Loaded.delegatesRole (h : t.Loaded actor) {roleId : RoleId}
    (hrole : roleId ∈ RoleRepository.getGrantableRoleIds t actor.roleIds) :
    t.DelegatesRole actor.id roleId := by
  obtain ⟨⟨held, grantable⟩, hlink, rfl⟩ := Finset.mem_image.mp hrole
  obtain ⟨hlink, hheld⟩ := Finset.mem_filter.mp hlink
  exact ⟨held, h.held hheld, hlink⟩

theorem Tables.Loaded.delegatesPermission (h : t.Loaded actor) {permissionId : PermissionId}
    (hperm : permissionId ∈ RoleRepository.getGrantablePermissionIds t actor.roleIds) :
    t.DelegatesPermission actor.id permissionId := by
  obtain ⟨⟨held, grantable⟩, hlink, rfl⟩ := Finset.mem_image.mp hperm
  obtain ⟨hlink, hheld⟩ := Finset.mem_filter.mp hlink
  exact ⟨held, h.held hheld, hlink⟩

theorem Tables.Loaded.canGrantRole (h : t.Loaded actor) {roleId : RoleId}
    (hcan : FastapiTemplate.canGrantRole t actor roleId = true)
    (hactor : actor.isSuperuser = false) : t.DelegatesRole actor.id roleId := by
  unfold FastapiTemplate.canGrantRole at hcan
  rw [hactor] at hcan
  split at hcan
  · contradiction
  · split at hcan
    · cases hcan
    · exact h.delegatesRole (of_decide_eq_true hcan)

theorem Tables.Loaded.canGrantPermission (h : t.Loaded actor) {permissionId : PermissionId}
    (hcan : FastapiTemplate.canGrantPermission t actor permissionId = true)
    (hactor : actor.isSuperuser = false) : t.DelegatesPermission actor.id permissionId := by
  unfold FastapiTemplate.canGrantPermission at hcan
  rw [hactor] at hcan
  split at hcan
  · contradiction
  · split at hcan
    · cases hcan
    · exact h.delegatesPermission (of_decide_eq_true hcan)

end Loaded

/-! ### Rules for the shared steps -/

variable {S : Db → Db → List Event → Prop} {db : Db} {actor : LoadedUser} {call : Call}

theorem does_query {α β : Type} {g : Tables → α} {f : α → Service β} {Q : β → Db → Prop}
    (h : Does S (f (g db.toTables)) db Q) : Does S (query g >>= f) db Q :=
  Does.read_bind h

theorem does_discard {α : Type} {m : Service α} {Q : α → Db → Prop} (h : Does S m db Q) :
    Does S (discard m) db (fun _ _ => True) :=
  Does.bind h (fun _ _ _ => Does.pure trivial)

/-- A check that only an actor without superuser rights has to pass. -/
theorem does_check {β : Type} {b : Bool} {m : Service Unit} {P : Prop} {f : Unit → Service β}
    {Q : β → Db → Prop} (hm : Does S m db (fun _ db' => db' = db ∧ P))
    (hf : (b = false → P) → Does S (f ()) db Q) : Does S (unlessSuperuser b m >>= f) db Q := by
  have hcheck : Does S (unlessSuperuser b m) db (fun _ db' => db' = db ∧ (b = false → P)) := by
    unfold unlessSuperuser
    refine Does.ite ?_ ?_
    · intro hb
      exact Does.pure ⟨rfl, fun hb' => by rw [hb] at hb'; cases hb'⟩
    · intro _
      exact hm.weaken (fun _ _ hpost => ⟨hpost.1, fun _ => hpost.2⟩)
  refine Does.bind hcheck ?_
  rintro _ _ ⟨rfl, hP⟩
  exact hf hP

theorem does_getRole {β : Type} {roleId : RoleId} {scope : Scope} {f : LoadedRole → Service β}
    {Q : β → Db → Prop}
    (h : ∀ role, RoleRepository.getById db.toTables roleId = some role →
      (scope.isSuperuser = false → InScope scope.tenantId role.toRole) → Does S (f role) db Q) :
    Does S (getRole roleId scope >>= f) db Q := by
  have hget : Does S (getRole roleId scope) db (fun role db' => db' = db ∧
      RoleRepository.getById db.toTables roleId = some role ∧
      (scope.isSuperuser = false → InScope scope.tenantId role.toRole)) := by
    unfold getRole
    refine does_query (Does.require_bind ?_)
    intro role hrole
    refine does_check (Does.ensure (fun hscope => ⟨rfl, hscope⟩)) ?_
    intro hscope
    exact Does.pure ⟨rfl, hrole, hscope⟩
  refine Does.bind hget ?_
  rintro role _ ⟨rfl, hrole, hscope⟩
  exact h role hrole hscope

theorem does_ensureSameTenant {β : Type} {target : User} {scope : Scope} {f : Unit → Service β}
    {Q : β → Db → Prop}
    (h : (scope.isSuperuser = false → target.tenantId = scope.tenantId) → Does S (f ()) db Q) :
    Does S (UserManagementService.ensureSameTenant target scope >>= f) db Q := by
  refine Does.ensure_bind ?_
  intro htenant
  refine h ?_
  intro hscope
  rcases htenant with hsuper | htenant
  · rw [hscope] at hsuper
    cases hsuper
  · exact htenant

/-- A transaction that is one of the changes of the operation, with what else
holds around it. -/
theorem does_change_and {α : Type} {body : Tx α} {Q : α → Db → Prop} {E : Db → Db → Prop}
    {user : User} (c : Change) (hbody : c.Commits = Commits body) (hperforms : call.Performs c)
    (hcurrent : c.Current db.toTables)
    (hauthorized : user.isSuperuser = false → c.Authorized user db.toTables)
    (hpost : ∀ a db' es, body db.toTables = .ok (a, db'.toTables, es) → E db db' ∧ Q a db') :
    Does (fun s s' es => Performed user call s s' es ∧ E s s') (transaction body) db Q := by
  refine does_transaction ?_
  intro a db' es hcommit
  obtain ⟨hE, hQ⟩ := hpost a db' es hcommit
  refine ⟨⟨⟨c, hperforms, hcurrent, hauthorized, ?_⟩, hE⟩, hQ⟩
  rw [hbody]
  exact ⟨a, hcommit⟩

theorem does_change {α : Type} {body : Tx α} {Q : α → Db → Prop} {user : User} (c : Change)
    (hbody : c.Commits = Commits body) (hperforms : call.Performs c)
    (hcurrent : c.Current db.toTables)
    (hauthorized : user.isSuperuser = false → c.Authorized user db.toTables)
    (hpost : ∀ a db' es, body db.toTables = .ok (a, db'.toTables, es) → Q a db') :
    Does (Performed user call) (transaction body) db Q :=
  (does_change_and (E := fun _ _ => True) c hbody hperforms hcurrent hauthorized
    (fun a db' es hcommit => ⟨trivial, hpost a db' es hcommit⟩)).mono (fun _ _ _ h => h.1)

/-- The grantable mask is under the ceiling of the actor's tenant. -/
theorem does_grantableMaskFor {β : Type} {f : ℕ → Service β} {Q : β → Db → Prop}
    (hactor : db.toTables.Loaded actor)
    (h : ∀ mask, db.toTables.UnderCeiling actor.tenantId mask → Does S (f mask) db Q) :
    Does S (grantableMaskFor actor >>= f) db Q := by
  have hmask : Does S (grantableMaskFor actor) db (fun mask db' => db' = db ∧
      db.toTables.UnderCeiling actor.tenantId mask) := by
    unfold grantableMaskFor
    refine does_query ?_
    split
    · rename_i hnone
      refine Does.pure ⟨rfl, ?_⟩
      intro i hi tenant htenant
      rw [← hactor.tenant hi, hnone] at htenant
      cases htenant
    · rename_i tenant hsome
      refine Does.pure ⟨rfl, ?_⟩
      intro i hi tenant' htenant'
      rw [← hactor.tenant hi, hsome] at htenant'
      obtain rfl := Option.some.inj htenant'
      exact ((within_and_iff _ _ _).mp (Within.refl _)).2
  refine Does.bind hmask ?_
  rintro mask _ ⟨rfl, hceiling⟩
  exact h mask hceiling

theorem Tables.UnderCeiling.mono {t : Tables} {tenantId : Option Uuid} {mask mask' : ℕ}
    (h : t.UnderCeiling tenantId mask) (hmask : Within mask' mask) :
    t.UnderCeiling tenantId mask' :=
  fun i hi tenant htenant => hmask.trans (h i hi tenant htenant)

/-- The last statement of an operation, when its result does not matter. -/
theorem does_last {α : Type} {body : Tx α} {user : User} (c : Change)
    (hbody : c.Commits = Commits body) (hperforms : call.Performs c)
    (hcurrent : c.Current db.toTables)
    (hauthorized : user.isSuperuser = false → c.Authorized user db.toTables) :
    Does (Performed user call) (transaction body) db (fun _ _ => True) :=
  does_change c hbody hperforms hcurrent hauthorized (fun _ _ _ _ => trivial)

theorem RoleRepository.getById_id {t : Tables} {roleId : RoleId} {role : LoadedRole}
    (h : RoleRepository.getById t roleId = some role) : role.id = roleId :=
  (RoleRepository.getById_eq_some h).2.2

end FastapiTemplate
