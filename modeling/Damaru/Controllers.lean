import Damaru.Services.Users
import Damaru.Services.Auth
import Damaru.Signaling

/-!
# Controllers

The requests the server answers under a verified token, each with the guard
that admits it and the service call it makes. Bodies are passed on as they
came, since no validation pipe is installed; of the endpoints that touch none
of the tables only `check` stands here.
-/

namespace Damaru

open Async

/-- A file that has been received and stored. -/
structure UploadedFile where
  originalname : String
  filename : String
  path : String

/-- A request to a method that `JwtAuthGuard` protects. -/
inductive HttpRequest where
  | users_findAll
  | users_create (createUserDto : Json)
  | users_update (id : String) (updateUserDto : Json)
  | users_delete (id : String)
  | accounts_findAll
  | accounts_findOne (id : String)
  | accounts_create (createAccountDto : Json)
  | accounts_update (id : String) (updateAccountDto : Json)
  | accounts_delete (id : String)
  | emulators_findAll
  | emulators_findLinkAccounts (deviceId : JsVal)
  | emulators_create (createUserDto : Json)
  | emulators_uploadFile (deviceId : String) (file : Option UploadedFile)
  | emulators_update (id : String) (updateUserDto : Json)
  | emulators_delete (id : String)
  | emulators_linkEmulator (emulatorLinkDto : Json)
  | emulators_unlinkEmulator (emulatorLinkDto : Json)
  | emulators_extendExpiry (extendExpiryDto : Json)
  | emulators_connectionLog (accountId deviceId : JsVal)
  | emulators_assignEmulator (emulatorLinkDto : Json)
  | emulators_assignEmulatorsToAccount (emulatorLinkDto : Json)
  | emulators_unAssignEmulatorsToAccount (emulatorLinkDto : Json)
  | emulators_restartEmulator (deviceName : String)
  | emulators_unAssignEmulatorFromAccounts (emulatorLinkDto : Json)
  | activityLogs_findAll
  | activityLogs_create (createActivityLogDto : Json)
  | activityLogs_update (id : String) (updateAccountDto : Json)
  | activityLogs_delete (id : String)
  | auth_check

/-- The data of a response. -/
inductive Data where
  | none
  | users (l : List UsersService.UserItem)
  | user (u : Option (Users × List Account)) (password : JsVal)
  | accounts (l : List Account)
  | account (id : String) (dto : CreateAccountDto)
  | devices (l : List AccountsService.DeviceItem)
  | emulators (l : List EmulatorService.EmulatorItem)
  | linkedAccounts (l : List EmulatorService.LinkedAccount)
  | connectionLog (l : List (EmulatorService.LoadedConnection × List EmulatorService.Template))
  | activityLogs (l : List ActivityLog)
  | text (t : String)
  | file (file : UploadedFile) (link : Option String)
  | token (t : JwtToken)

structure DamaruResponse where
  message : Option String
  data : Data

namespace HttpRequest

/-- The guard of each method; `none` where any verified token will do. -/
def guard : HttpRequest → Option Guard
  | users_findAll => some SuperAdmin
  | users_create _ => some SuperAdmin
  | users_update _ _ => some SuperAdmin
  | users_delete _ => some SuperAdmin
  | accounts_findAll => some AndroidUsers
  | accounts_findOne _ => some AndroidAdmin
  | accounts_create _ => some AndroidAdmin
  | accounts_update _ _ => some AndroidUsers
  | accounts_delete _ => some AndroidUsers
  | emulators_findAll => some EmulatorUsers
  | emulators_findLinkAccounts _ => some AndroidAdmin
  | emulators_create _ => some EmulatorAdmin
  | emulators_uploadFile _ _ => some EmulatorAdmin
  | emulators_update _ _ => some AndroidAdmin
  | emulators_delete _ => some EmulatorAdmin
  | emulators_linkEmulator _ => some SuperAdmin
  | emulators_unlinkEmulator _ => some SuperAdmin
  | emulators_extendExpiry _ => some SuperAdmin
  | emulators_connectionLog _ _ => some AndroidAdmin
  | emulators_assignEmulator _ => some AndroidAdmin
  | emulators_assignEmulatorsToAccount _ => some AndroidAdmin
  | emulators_unAssignEmulatorsToAccount _ => some AndroidAdmin
  | emulators_restartEmulator _ => none
  | emulators_unAssignEmulatorFromAccounts _ => some AndroidAdmin
  | activityLogs_findAll => some AndroidAdmin
  | activityLogs_create _ => some SuperAdmin
  | activityLogs_update _ _ => some SuperAdmin
  | activityLogs_delete _ => some SuperAdmin
  | auth_check => none

/-- The token passes the guard of the method. -/
def admits (req : HttpRequest) (user : JwtToken) : Bool := req.guard.all fun g => g.isAuthorized user

def createAccountDto (j : Json) : CreateAccountDto :=
  ⟨j.get? "account_name", j.get? "userId", j.get? "pin", j.get? "is_admin"⟩

def multiDevicesLinkDto (j : Json) : MultiDevicesLinkDto := ⟨j.get? "deviceIds", j.get? "userId"⟩

def multiDevicesAccountLinkDto (j : Json) : MultiDevicesAccountLinkDto :=
  ⟨multiDevicesLinkDto j, j.get? "accountId"⟩

def multiAccountsLinkDto (j : Json) : MultiAccountsLinkDto :=
  ⟨j.get? "deviceId", j.get? "accountIds", j.get? "userId"⟩

def extendExpiryDto (j : Json) : ExtendExpiryDto := ⟨j.get? "deviceId", j.get? "userId", j.get? "days"⟩

/-- A body whose first read property is `property`. -/
def reading (property : String) (body : Json) (k : Svc DamaruResponse) : Svc DamaruResponse :=
  if body.isNull then throw (cannotRead property) else k

def said (message : String) : DamaruResponse := ⟨some message, .none⟩

def shown (data : Data) : DamaruResponse := ⟨none, data⟩

/-- The text of a value in a template literal. -/
def inTemplate (v : JsVal) : String := (v.map Json.toText).getD "undefined"

/-- What the method does once its guards have passed. -/
def run (user : JwtToken) : HttpRequest → Svc DamaruResponse
  | users_findAll => do return shown (.users (← UsersService.findAll))
  | users_create dto => reading "role" dto do
    let role := ((dto.get? "role").orElse (some (.str Roles.AndroidUser.text))).getD .null
    let (created, password) ← UsersService.create (dto.spreadWith "role" role)
    return ⟨some "User has been created", .user created password⟩
  | users_update id dto => do
    UsersService.update id dto
    return said "User details has been updated"
  | users_delete id => do
    UsersService.remove id
    return said "User deleted"
  | accounts_findAll => do return shown (.accounts (← AccountsService.findAll user))
  | accounts_findOne id => do return shown (.devices (← AccountsService.findOne id user))
  | accounts_create dto => do
    let (id, account) ← AccountsService.create
      { createAccountDto dto with userId := some (.str user.sub) }
    return shown (.account id account)
  | accounts_update id dto => do
    AccountsService.update id dto user
    return said "Account updated"
  | accounts_delete id => do
    AccountsService.remove id user
    return said "Account Deleted"
  | emulators_findAll => do return shown (.emulators (← EmulatorService.findAll user))
  | emulators_findLinkAccounts deviceId => do
    return shown (.linkedAccounts (← EmulatorService.findLinkedDevices deviceId))
  | emulators_create dto => do
    if ← EmulatorService.create dto then return said "New device has been added"
    else return said "Device already exist"
  | emulators_uploadFile deviceId file => do
    let emulator ← EmulatorService.linkScreenshot deviceId
    -- The row has been saved before the file is looked at.
    let some file := file
      | throw (.typeError "Cannot read properties of undefined (reading 'originalname')")
    return ⟨some "File uploaded successfully", .file file emulator.screenshot⟩
  | emulators_update id dto => do
    if ← EmulatorService.update (some (.str id)) dto (some user) then
      return shown (.text "Emulator has been updated")
    else return shown (.text "Emulator has not been updated")
  | emulators_delete id => do
    EmulatorService.remove id
    return said "Emulator has been deleted"
  | emulators_linkEmulator dto => reading "deviceIds" dto do
    EmulatorService.linkEmulator (multiDevicesLinkDto dto)
    return said ("Device linked with userId: " ++ inTemplate (dto.get? "userId"))
  | emulators_unlinkEmulator dto => reading "deviceIds" dto do
    EmulatorService.unlinkEmulator (multiDevicesLinkDto dto)
    return said ("Device unlinked with userId: " ++ inTemplate (dto.get? "userId"))
  | emulators_extendExpiry dto => reading "deviceId" dto do
    EmulatorService.extend (extendExpiryDto dto)
    return said "Extended emulator expiry date"
  | emulators_connectionLog accountId deviceId => do
    return shown (.connectionLog (← EmulatorService.connectionLog accountId deviceId))
  | emulators_assignEmulator dto => reading "userId" dto do
    EmulatorService.assignEmulator (multiAccountsLinkDto dto) user
    return said "Device has been assigned to multiple accounts"
  | emulators_assignEmulatorsToAccount dto => reading "userId" dto do
    EmulatorService.assignEmulatorsToAccount (multiDevicesAccountLinkDto dto) user
    return said "Devices have been assigned to an account"
  | emulators_unAssignEmulatorsToAccount dto => reading "userId" dto do
    EmulatorService.unassignEmulatorsToAccount (multiDevicesAccountLinkDto dto) user
    return said "Devices have been unassigned to an account"
  | emulators_restartEmulator deviceName => do
    EmulatorService.restart deviceName
    return said "Restarting emulator"
  | emulators_unAssignEmulatorFromAccounts dto => reading "deviceId" dto do
    EmulatorService.unassignEmulatorFromAccounts (multiAccountsLinkDto dto)
    return said "Device have been unassigned from accounts"
  | activityLogs_findAll => do return shown (.activityLogs (← ActivityLogService.findAll))
  | activityLogs_create dto => reading "action" dto do
    ActivityLogService.log (dto.get? "action") (dto.get? "metadata")
    return said "Activity logged successfully"
  | activityLogs_update id dto => do
    ActivityLogService.update id dto
    return said "Activity log updated"
  | activityLogs_delete id => do
    ActivityLogService.remove id
    return said "Activity log deleted"
  | auth_check => return ⟨some "User is authenticated", .token user⟩

/-- Answers a request under a verified token. -/
def handle (user : JwtToken) (req : HttpRequest) : Svc DamaruResponse := do
  if let some g := req.guard then g.authorized .http user
  req.run user

end HttpRequest

end Damaru
