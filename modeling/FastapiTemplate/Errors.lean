import FastapiTemplate.Uuid

/-!
The exceptions that the modelled code raises. The first constructors are the
domain exceptions with their arguments; `message` and `errorCode` give the
texts their classes build. The last ones are the errors of the layers below:
a violated database constraint, a value that does not fit its column, a row
that an update expected and did not find, the built-in errors, and the plain
HTTP errors.
-/
namespace FastapiTemplate

/-- `Role.id` and `Permission.id`, integer columns. -/
abbrev RoleId := ℤ
abbrev PermissionId := ℤ

inductive Err
  | roleNotFound (roleId : RoleId)
  | roleExists (name : String)
  | permissionNotFound (permissionId : PermissionId)
  | grantNotAllowed (message : String)
  | permissionAlreadyGranted (message : String)
  | permissionNotGranted (message : String)
  | roleAlreadyAssigned (message : String)
  | roleNotAssigned (message : String)
  | unknownPermission (name : String)
  | superuserRequired
  | tenantNotFound (tenantId : Uuid)
  | tenantExists (name : String)
  | usernameExist (username : String)
  | userMailExist (email : String)
  | userNotFound (username : String)
  | userUnauthenticated
  | userNotVerified
  | userDeactivated
  | tenantInactive
  | invalidToken
  | staleToken
  | rateLimit (message : String) (retryAfter : String)
  | integrityError
  | overflowError
  | staleDataError
  | valueError
  | runtimeError (message : String)
  | keyError (key : String)
  | attributeError (message : String)
  | httpException (statusCode : ℕ) (detail : String)
  deriving DecidableEq, Repr

namespace Err

def message : Err → String
  | roleNotFound roleId => s!"Role {roleId} not found"
  | roleExists name => s!"Role '{name}' already exists"
  | permissionNotFound permissionId => s!"Permission {permissionId} not found"
  | grantNotAllowed text => text
  | permissionAlreadyGranted text => text
  | permissionNotGranted text => text
  | roleAlreadyAssigned text => text
  | roleNotAssigned text => text
  | unknownPermission name => s!"'{name}' is not a recognized permission"
  | superuserRequired => "This operation requires superuser privileges"
  | tenantNotFound tenantId => s!"Tenant {tenantId.str} not found"
  | tenantExists name => s!"Tenant '{name}' already exists"
  | usernameExist username => s!"User with this username: {username} already exists"
  | userMailExist email => s!"User with this email:{email} already exists"
  | userNotFound username => s!"User {username} not found"
  | userUnauthenticated => "Invalid username or password"
  | userNotVerified => "User Not Verified"
  | userDeactivated => "This account has been deactivated"
  | tenantInactive => "This organization has been deactivated"
  | invalidToken => "Invalid or expired authentication token"
  | staleToken => "Your permissions have changed; please refresh your session"
  | rateLimit text _ => text
  | integrityError | overflowError | staleDataError | valueError => ""
  | runtimeError text => text
  | keyError key => key
  | attributeError text => text
  | httpException _ detail => detail

/-- The `error_code` of a domain exception; none for the errors below them. -/
def errorCode : Err → Option String
  | roleNotFound _ => "role_not_found"
  | roleExists _ => "role_exists"
  | permissionNotFound _ => "permission_not_found"
  | grantNotAllowed _ => "grant_not_allowed"
  | permissionAlreadyGranted _ => "permission_already_granted"
  | permissionNotGranted _ => "permission_not_granted"
  | roleAlreadyAssigned _ => "role_already_assigned"
  | roleNotAssigned _ => "role_not_assigned"
  | unknownPermission _ => "unknown_permission"
  | superuserRequired => "superuser_required"
  | tenantNotFound _ => "tenant_not_found"
  | tenantExists _ => "tenant_exists"
  | usernameExist _ => "user_exists"
  | userMailExist _ => "email_exists"
  | userNotFound _ => "user_not_found"
  | userUnauthenticated => "user_unauthenticated"
  | userNotVerified => "user_not_verified"
  | userDeactivated => "user_deactivated"
  | tenantInactive => "tenant_inactive"
  | invalidToken => "invalid_token"
  | staleToken => "stale_token"
  | rateLimit _ _ => "rate_limit"
  | integrityError | overflowError | staleDataError | valueError | runtimeError _ => none
  | keyError _ | attributeError _ | httpException _ _ => none

end Err
end FastapiTemplate
