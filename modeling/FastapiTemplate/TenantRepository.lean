import FastapiTemplate.Statements

/-!
`TenantRepository`, `PermissionRepository` and the startup synchronisation
that mirrors the permission catalogue into its table.
-/
namespace FastapiTemplate

open Library.KeyedTable Library.Committing

namespace TenantRepository

def getById (t : Tables) (tenantId : Uuid) : Option Tenant := t.tenants.get tenantId

def getByName (t : Tables) (name : String) : Option Tenant :=
  t.tenants.rows.find? (fun x => x.name = name)

def createTx (tenantId : Uuid) (name : String) (allowedPermissionMask : ℕ) : Tx Tenant :=
  fun t => do
    let tenant : Tenant := ⟨tenantId, name, true, allowedPermissionMask⟩
    let t₁ ← t.insertTenant tenant
    return (tenant, t₁, [])

def create (tenantId : Uuid) (name : String) (allowedPermissionMask : ℕ) : Service Tenant :=
  transaction (createTx tenantId name allowedPermissionMask)

def setAllowedPermissionMaskTx (tenant : Tenant) (mask : ℕ) : Tx Tenant := fun t => do
  let t₁ ← t.updateTenant tenant.id (fun x => { x with allowedPermissionMask := mask })
    (Tenant.id_setMask mask)
  return ({ tenant with allowedPermissionMask := mask }, t₁, [])

def setAllowedPermissionMask (tenant : Tenant) (mask : ℕ) : Service Tenant :=
  transaction (setAllowedPermissionMaskTx tenant mask)

def setActiveTx (tenant : Tenant) (isActive : Bool) : Tx Tenant := fun t => do
  let t₁ ← t.updateTenant tenant.id (fun x => { x with isActive := isActive })
    (Tenant.id_setActive isActive)
  return ({ tenant with isActive := isActive }, t₁, [.tenantStatus tenant.id.str isActive])

def setActive (tenant : Tenant) (isActive : Bool) : Service Tenant :=
  transaction (setActiveTx tenant isActive)

theorem createTx_eq_ok {tenantId : Uuid} {name : String} {mask : ℕ} {t t' : Tables}
    {tenant : Tenant} {es : List Event}
    (h : createTx tenantId name mask t = .ok (tenant, t', es)) :
    ∃ tenants, t.tenants.insert? ⟨tenantId, name, true, mask⟩ = some tenants ∧
      t' = { t with tenants := tenants } ∧ tenant = ⟨tenantId, name, true, mask⟩ ∧ es = [] := by
  obtain ⟨t₁, hinsert, h⟩ := bind_eq_ok h
  obtain ⟨tenants, htenants, rfl⟩ := Tables.insertTenant_eq_ok hinsert
  cases h
  exact ⟨tenants, htenants, rfl, rfl, rfl⟩

theorem setAllowedPermissionMaskTx_eq_ok {tenant tenant' : Tenant} {mask : ℕ} {t t' : Tables}
    {es : List Event} (h : setAllowedPermissionMaskTx tenant mask t = .ok (tenant', t', es)) :
    t' = { t with
      tenants := t.tenants.update (fun x => x.id = tenant.id)
        (fun x => { x with allowedPermissionMask := mask }) (fun _ => rfl) } ∧
      tenant' = { tenant with allowedPermissionMask := mask } ∧ es = [] := by
  obtain ⟨t₁, hupdate, h⟩ := bind_eq_ok h
  obtain ⟨_, rfl⟩ := Tables.updateTenant_eq_ok hupdate
  cases h
  exact ⟨rfl, rfl, rfl⟩

theorem setActiveTx_eq_ok {tenant tenant' : Tenant} {isActive : Bool} {t t' : Tables}
    {es : List Event} (h : setActiveTx tenant isActive t = .ok (tenant', t', es)) :
    (t.tenants.get tenant.id).isSome ∧
      t' = { t with
        tenants := t.tenants.update (fun x => x.id = tenant.id)
          (fun x => { x with isActive := isActive }) (fun _ => rfl) } ∧
      es = [.tenantStatus tenant.id.str isActive] := by
  obtain ⟨t₁, hupdate, h⟩ := bind_eq_ok h
  obtain ⟨hsome, rfl⟩ := Tables.updateTenant_eq_ok hupdate
  cases h
  exact ⟨hsome, rfl, rfl⟩

end TenantRepository

namespace PermissionRepository

def getByName (t : Tables) (name : String) : Option Permission :=
  t.permissions.rows.find? (fun p => p.name = name)

def getByNames (t : Tables) (names : List String) : List Permission :=
  t.permissions.rows.filter (fun p => p.name ∈ names)

def getByIds (t : Tables) (permissionIds : Finset PermissionId) : List Permission :=
  t.permissions.rows.filter (fun p => p.id ∈ permissionIds)

def listAll (t : Tables) (skip limit : ℕ) : List Permission :=
  (t.permissions.rows.drop skip).take limit

def createWithBitTx (name : String) (bitPosition : ℕ) : Tx Permission := fun t => do
  let permission : Permission := ⟨t.permissionsIdSeq, name, some bitPosition⟩
  let t₁ ← t.insertPermission permission
  return (permission, t₁, [])

def createWithBit (name : String) (bitPosition : ℕ) : Service Permission :=
  transaction (createWithBitTx name bitPosition)

theorem createWithBitTx_eq_ok {name : String} {b : ℕ} {t t' : Tables} {permission : Permission}
    {es : List Event} (h : createWithBitTx name b t = .ok (permission, t', es)) :
    ∃ permissions, t.permissions.insert? ⟨t.permissionsIdSeq, name, some b⟩ = some permissions ∧
      t' = { t with
        permissions := permissions
        permissionsIdSeq := t.permissionsIdSeq + 1 } ∧
      permission = ⟨t.permissionsIdSeq, name, some b⟩ ∧ es = [] := by
  obtain ⟨t₁, hinsert, h⟩ := bind_eq_ok h
  obtain ⟨permissions, hpermissions, rfl⟩ := Tables.insertPermission_eq_ok hinsert
  cases h
  exact ⟨permissions, hpermissions, rfl, rfl, rfl⟩

end PermissionRepository

namespace SyncPermissions

/-- `str` of a bit position. -/
def bitText : Option ℕ → String
  | none => "None"
  | some b => toString b

def mismatch (name : String) (stored : Option ℕ) (bit : ℕ) : String :=
  s!"Permission registry mismatch for '{name}': " ++
    s!"db bit_position={bitText stored}, code bit_position={bit}. " ++
    "Never edit an existing PERMISSION_REGISTRY value — see registry.py."

/-- One round of the loop: verify the row of the name, or create it. -/
def syncEntry (entry : String × ℕ) : Service Unit := do
  match ← query (PermissionRepository.getByName · entry.1) with
  | some existing =>
    Action.ensure (existing.bitPosition = some entry.2)
      (.runtimeError (mismatch entry.1 existing.bitPosition entry.2))
  | none => do
    let _ ← PermissionRepository.createWithBit entry.1 entry.2
    return ()

/-- `_sync_with_session` over a registry. -/
def syncWithSession (registry : Registry) : Service Unit := ForM.forM registry syncEntry

end SyncPermissions
end FastapiTemplate
