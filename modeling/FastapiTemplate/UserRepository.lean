import FastapiTemplate.Statements

/-!
`UserRepository` and `RefreshTokenRepository`. `grant_permission` and
`revoke_permission` compute the new version from the loaded user and write it
as a value, unlike the increments of the role repository that the database
evaluates.
-/
namespace FastapiTemplate

open Library.KeyedTable Library.Committing

namespace UserRepository

def existsByUsername (t : Tables) (username : String) : Bool :=
  t.users.rows.any (fun u => u.username = username)

def existsByEmail (t : Tables) (email : String) : Bool :=
  t.users.rows.any (fun u => u.email = email)

def getByUsername (t : Tables) (username : String) : Option User :=
  t.users.rows.find? (fun u => u.username = username)

def getByEmail (t : Tables) (email : String) : Option User :=
  t.users.rows.find? (fun u => u.email = email)

def getById (t : Tables) (userId : Uuid) : Option User := t.users.get userId

def getByIdWithGrants (t : Tables) (userId : Uuid) : Option LoadedUser :=
  (t.users.get userId).map t.loadUser

def hasPermission (t : Tables) (userId : Uuid) (permissionId : PermissionId) : Bool :=
  (userId, permissionId) ∈ t.userPermissions

/-- A user of a list page, with the roles but not their permissions. -/
structure ListedUser extends User where
  roles : List Role

def listed (t : Tables) (user : User) : ListedUser :=
  ⟨user, t.roles.rows.filter (fun r => (user.id, r.id) ∈ t.userRoles)⟩

def page (t : Tables) (users : List User) (skip limit : ℕ) : List ListedUser :=
  (((users.mergeSort (fun a b => a.username ≤ b.username)).drop skip).take limit).map (listed t)

def listAll (t : Tables) (skip limit : ℕ) : List ListedUser := page t t.users.rows skip limit

/-- Comparing the column with `None` selects the users without a tenant. -/
def usersOf (t : Tables) (tenantId : Option Uuid) : List User :=
  t.users.rows.filter (fun u => u.tenantId = tenantId)

def listByTenant (t : Tables) (tenantId : Option Uuid) (skip limit : ℕ) : List ListedUser :=
  page t (usersOf t tenantId) skip limit

def countAll (t : Tables) : ℕ := t.users.rows.length

def countByTenant (t : Tables) (tenantId : Option Uuid) : ℕ := (usersOf t tenantId).length

/-- The keyword arguments of `create`; the row starts active at version one. -/
structure NewUser where
  id : Uuid
  username : String
  email : String
  password : Option String
  isVerified : Bool := false
  isSuperuser : Bool := false
  createdById : Option Uuid := none
  tenantId : Option Uuid := none

def NewUser.row (data : NewUser) : User where
  id := data.id
  username := data.username
  email := data.email
  password := data.password
  isVerified := data.isVerified
  isSuperuser := data.isSuperuser
  isActive := true
  createdById := data.createdById
  tenantId := data.tenantId
  permVersion := 1

def createTx (data : NewUser) : Tx User := fun t => do
  let t₁ ← t.insertUser data.row
  return (data.row, t₁, [])

def create (data : NewUser) : Service User := transaction (createTx data)

def setVerifiedTx (user : User) : Tx Unit := fun t => do
  let t₁ ← t.updateUser user.id (fun u => { u with isVerified := true }) User.id_setVerified
  return ((), t₁, [])

def setVerified (user : User) : Service Unit := transaction (setVerifiedTx user)

def setPasswordTx (user : User) (hashedPassword : String) : Tx Unit := fun t => do
  let t₁ ← t.updateUser user.id (fun u => { u with password := some hashedPassword })
    (User.id_setPassword hashedPassword)
  return ((), t₁, [])

def setPassword (user : User) (hashedPassword : String) : Service Unit :=
  transaction (setPasswordTx user hashedPassword)

/-- The version written and published is the loaded one plus one. -/
def grantPermissionTx (user : LoadedUser) (permission : Permission) : Tx Unit := fun t => do
  let version := user.permVersion + 1
  let t₁ ← t.setPermVersion user.id version
  let userPermissions ← Tables.insertLink t₁.userPermissions (user.id, permission.id)
  return ((), { t₁ with userPermissions := userPermissions }, [.permVersion user.id.str version])

def grantPermission (user : LoadedUser) (permission : Permission) : Service Unit :=
  transaction (grantPermissionTx user permission)

def revokePermissionTx (user : LoadedUser) (permission : Permission) : Tx Unit := fun t => do
  if permission.id ∉ user.permissions.map Permission.id then throw .valueError
  let version := user.permVersion + 1
  let t₁ ← t.setPermVersion user.id version
  let userPermissions ← Tables.deleteLink t₁.userPermissions (user.id, permission.id)
  return ((), { t₁ with userPermissions := userPermissions }, [.permVersion user.id.str version])

def revokePermission (user : LoadedUser) (permission : Permission) : Service Unit :=
  transaction (revokePermissionTx user permission)

def setActiveTx (user : User) (isActive : Bool) : Tx Unit := fun t => do
  let t₁ ← t.updateUser user.id (fun u => { u with isActive := isActive })
    (User.id_setActive isActive)
  return ((), t₁, [.userStatus user.id.str isActive])

def setActive (user : User) (isActive : Bool) : Service Unit :=
  transaction (setActiveTx user isActive)

/-! ### What a committed transaction has changed -/

theorem getByIdWithGrants_eq_some {t : Tables} {userId : Uuid} {user : LoadedUser}
    (h : getByIdWithGrants t userId = some user) :
    t.users.get userId = some user.toUser ∧ user = t.loadUser user.toUser ∧ user.id = userId := by
  obtain ⟨row, hrow, rfl⟩ := Option.map_eq_some_iff.mp h
  exact ⟨hrow, rfl, Table.key_of_get hrow⟩

theorem createTx_eq_ok {data : NewUser} {t t' : Tables} {user : User} {es : List Event}
    (h : createTx data t = .ok (user, t', es)) :
    ∃ users, t.users.insert? data.row = some users ∧ t' = { t with users := users } ∧
      user = data.row ∧ es = [] := by
  obtain ⟨t₁, hinsert, h⟩ := bind_eq_ok h
  obtain ⟨users, husers, rfl⟩ := Tables.insertUser_eq_ok hinsert
  cases h
  exact ⟨users, husers, rfl, rfl, rfl⟩

theorem setVerifiedTx_eq_ok {user : User} {t t' : Tables} {a : Unit} {es : List Event}
    (h : setVerifiedTx user t = .ok (a, t', es)) :
    t' = { t with
      users := t.users.update (fun u => u.id = user.id) (fun u => { u with isVerified := true })
        (fun _ => rfl) } ∧ es = [] := by
  obtain ⟨t₁, hupdate, h⟩ := bind_eq_ok h
  obtain ⟨_, rfl⟩ := Tables.updateUser_eq_ok hupdate
  cases h
  exact ⟨rfl, rfl⟩

theorem setPasswordTx_eq_ok {user : User} {password : String} {t t' : Tables} {a : Unit}
    {es : List Event} (h : setPasswordTx user password t = .ok (a, t', es)) :
    t' = { t with
      users := t.users.update (fun u => u.id = user.id)
        (fun u => { u with password := some password }) (fun _ => rfl) } ∧ es = [] := by
  obtain ⟨t₁, hupdate, h⟩ := bind_eq_ok h
  obtain ⟨_, rfl⟩ := Tables.updateUser_eq_ok hupdate
  cases h
  exact ⟨rfl, rfl⟩

theorem grantPermissionTx_eq_ok {user : LoadedUser} {permission : Permission} {t t' : Tables}
    {a : Unit} {es : List Event} (h : grantPermissionTx user permission t = .ok (a, t', es)) :
    (t.users.get user.id).isSome ∧ (user.id, permission.id) ∉ t.userPermissions ∧
      t' = { t with
        users := t.users.update (fun u => u.id = user.id)
          (fun u => { u with permVersion := user.permVersion + 1 }) (fun _ => rfl)
        userPermissions := insert (user.id, permission.id) t.userPermissions } ∧
      es = [.permVersion user.id.str (user.permVersion + 1)] := by
  obtain ⟨t₁, hversion, h⟩ := bind_eq_ok h
  obtain ⟨hsome, rfl⟩ := Tables.updateUser_eq_ok hversion
  obtain ⟨links, hlink, h⟩ := bind_eq_ok h
  obtain ⟨hfree, rfl⟩ := Tables.insertLink_eq_ok hlink
  cases h
  exact ⟨hsome, hfree, rfl, rfl⟩

theorem revokePermissionTx_eq_ok {user : LoadedUser} {permission : Permission} {t t' : Tables}
    {a : Unit} {es : List Event} (h : revokePermissionTx user permission t = .ok (a, t', es)) :
    (t.users.get user.id).isSome ∧ (user.id, permission.id) ∈ t.userPermissions ∧
      t' = { t with
        users := t.users.update (fun u => u.id = user.id)
          (fun u => { u with permVersion := user.permVersion + 1 }) (fun _ => rfl)
        userPermissions := t.userPermissions.erase (user.id, permission.id) } ∧
      es = [.permVersion user.id.str (user.permVersion + 1)] := by
  unfold revokePermissionTx at h
  split at h
  · cases h
  · obtain ⟨t₁, hversion, h⟩ := bind_eq_ok h
    obtain ⟨hsome, rfl⟩ := Tables.updateUser_eq_ok hversion
    obtain ⟨links, hlink, h⟩ := bind_eq_ok h
    obtain ⟨hmem, rfl⟩ := Tables.deleteLink_eq_ok hlink
    cases h
    exact ⟨hsome, hmem, rfl, rfl⟩

theorem setActiveTx_eq_ok {user : User} {isActive : Bool} {t t' : Tables} {a : Unit}
    {es : List Event} (h : setActiveTx user isActive t = .ok (a, t', es)) :
    (t.users.get user.id).isSome ∧
      t' = { t with
        users := t.users.update (fun u => u.id = user.id)
          (fun u => { u with isActive := isActive }) (fun _ => rfl) } ∧
      es = [.userStatus user.id.str isActive] := by
  obtain ⟨t₁, hupdate, h⟩ := bind_eq_ok h
  obtain ⟨hsome, rfl⟩ := Tables.updateUser_eq_ok hupdate
  cases h
  exact ⟨hsome, rfl, rfl⟩

end UserRepository

namespace RefreshTokenRepository

def getByToken (t : Tables) (token : String) : Option RefreshToken := t.refreshTokens.get token

def createTx (token : String) (userId : Uuid) (expiresAt : ℤ) : Tx RefreshToken := fun t =>
  match t.refreshTokens.insert? ⟨token, userId, expiresAt, false⟩ with
  | none => .error .integrityError
  | some refreshTokens =>
    .ok (⟨token, userId, expiresAt, false⟩, { t with refreshTokens := refreshTokens }, [])

def deleteByTokenTx (token : String) : Tx Unit := fun t =>
  .ok ((), { t with refreshTokens := t.refreshTokens.delete (fun k => k.token = token) }, [])

def deleteAllForUserTx (userId : Uuid) : Tx Unit := fun t =>
  .ok ((), { t with refreshTokens := t.refreshTokens.delete (fun k => k.userId = userId) }, [])

/-- The flush expects the row of the loaded token to be there still. -/
def revokeTx (row : RefreshToken) : Tx Unit := fun t =>
  if (t.refreshTokens.get row.token).isSome then
    .ok ((), { t with
      refreshTokens := t.refreshTokens.update (fun k => k.token = row.token)
        (fun k => { k with isRevoked := true }) RefreshToken.token_setRevoked }, [])
  else .error .staleDataError

/-- Deleting a row that is gone only warns. -/
def deleteInstanceTx (row : RefreshToken) : Tx Unit := deleteByTokenTx row.token

/-- The statement of `cleanup_expired_tokens`. -/
def deleteExpiredOrRevokedTx (now : ℤ) : Tx Unit := fun t =>
  .ok ((), { t with
    refreshTokens := t.refreshTokens.delete (fun k => k.expiresAt < now ∨ k.isRevoked) }, [])

theorem createTx_eq_ok {token : String} {userId : Uuid} {expiresAt : ℤ} {t t' : Tables}
    {row : RefreshToken} {es : List Event}
    (h : createTx token userId expiresAt t = .ok (row, t', es)) :
    ∃ refreshTokens, t.refreshTokens.insert? ⟨token, userId, expiresAt, false⟩ =
        some refreshTokens ∧
      t' = { t with refreshTokens := refreshTokens } ∧
      row = ⟨token, userId, expiresAt, false⟩ ∧ es = [] := by
  unfold createTx at h
  split at h
  · cases h
  · rename_i refreshTokens hinsert
    cases h
    exact ⟨refreshTokens, hinsert, rfl, rfl, rfl⟩

theorem deleteByTokenTx_eq_ok {token : String} {t t' : Tables} {a : Unit} {es : List Event}
    (h : deleteByTokenTx token t = .ok (a, t', es)) :
    t' = { t with refreshTokens := t.refreshTokens.delete (fun k => k.token = token) } ∧
      es = [] := by
  cases h
  exact ⟨rfl, rfl⟩

theorem deleteAllForUserTx_eq_ok {userId : Uuid} {t t' : Tables} {a : Unit} {es : List Event}
    (h : deleteAllForUserTx userId t = .ok (a, t', es)) :
    t' = { t with refreshTokens := t.refreshTokens.delete (fun k => k.userId = userId) } ∧
      es = [] := by
  cases h
  exact ⟨rfl, rfl⟩

theorem revokeTx_eq_ok {row : RefreshToken} {t t' : Tables} {a : Unit} {es : List Event}
    (h : revokeTx row t = .ok (a, t', es)) :
    (t.refreshTokens.get row.token).isSome ∧
      t' = { t with
        refreshTokens := t.refreshTokens.update (fun k => k.token = row.token)
          (fun k => { k with isRevoked := true }) (fun _ => rfl) } ∧ es = [] := by
  unfold revokeTx at h
  split at h
  · rename_i hsome
    cases h
    exact ⟨hsome, rfl, rfl⟩
  · cases h

end RefreshTokenRepository
end FastapiTemplate
