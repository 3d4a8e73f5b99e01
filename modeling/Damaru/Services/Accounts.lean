import Damaru.Common.Utils
import Damaru.Repository

/-!
# AccountsService
-/

namespace Damaru

open Async Table

structure CreateAccountDto where
  account_name : JsVal
  userId : JsVal
  pin : JsVal
  is_admin : JsVal

namespace AccountsService

/-- The row of an account that is inserted: absent columns take their
defaults, and a null is rejected. -/
def row (id : String) (account_name pin userId is_admin first_login : JsVal) :
    Except Rejection Account :=
  match account_name.bound, pin.bound, is_admin.booleanOr false, first_login.booleanOr true with
  | some account_name, some pin, some is_admin, some first_login =>
    .ok { id, user := userId.bound, account_name, first_login, is_admin, pin, last_login := none }
  | _, _, _, _ => .error .query

/-- Creates an account, unless it would be a second admin account of the user. -/
def create (dto : CreateAccountDto) : Svc (String × CreateAccountDto) := do
  if dto.is_admin.truthy then
    let existingAdminAccounts ← accountRepository.find
      (fun _ a => a.is_admin && dto.userId.selects a.user) fun _ a => a
    if existingAdminAccounts.length > 0 then
      throw (.http .FOUND "Admin account already found for this user")
  let draws ← random
  let account := { dto with
    pin := dto.pin.orElse (some (.str (StringUtils.generateRandomNumeric 5 draws))) }
  let id ← accountRepository.insert fun x s =>
    row (x.fresh s) account.account_name account.pin
      account.userId account.is_admin account.is_admin
  return (id, account)

/-- The account with the key of its user. -/
def findUserByAccount (accountId : String) : Svc (Option Account) :=
  accountRepository.findRow fun _ a => a.id = accountId

def update (id : String) (dto : Json) (jwt : JwtToken) : Svc Unit := do
  let some accountBelongToUser ← findUserByAccount id
    | throw (.http .NOT_FOUND "Account not found")
  if jwt.role = .SuperAdmin ∨
      (accountBelongToUser.user = some jwt.sub ∧ jwt.subRole = some .AndroidAdmin) then
    if dto.isNull then throw (cannotRead "account_name")
    let account_name := dto.get? "account_name"
    let pin := dto.get? "pin"
    if pin.truthy then
      let pinExist ← accountRepository.findRow fun _ a =>
        (accountBelongToUser.user.all fun u => a.user = some u) && pin.selects (some a.pin)
      if pinExist.isSome then
        throw (.http .BAD_REQUEST
          "This PIN is already in use by another account. Please choose a different PIN.")
    let _ ← accountRepository.set (some (.str id)) fun _ a =>
      { a with
        account_name := if account_name.truthy then account_name.bound.getD a.account_name
          else a.account_name
        pin := if pin.truthy then pin.bound.getD a.pin else a.pin
        first_login := if pin.truthy then false else a.first_login }
  else
    throw (.http .UNAUTHORIZED "You cannot update an account you do not own")

def findAll (jwtPayload : JwtToken) : Svc (List Account) :=
  if jwtPayload.subRole = some .AndroidAdmin then
    accountRepository.find (fun _ a => a.user = some jwtPayload.sub) fun _ a => a
  else if jwtPayload.role = .SuperAdmin then
    accountRepository.find (fun _ _ => true) fun _ a => a
  else
    accountRepository.find
      (fun _ a => a.user = some jwtPayload.sub && jwtPayload.accountId.all fun i => a.id = i)
      fun _ a => a

/-- A device as the details of an account list it. -/
structure DeviceItem where
  device : Emulator
  expires_at : Int

/-- What the query of `findOne` loads: the account, its user, and its devices
each with its link and device. -/
structure Details where
  account : Account
  user : Option Users
  devices : List (AccountEmulators × Option (UserEmulators × Option Emulator))

def Details.of (rank : String → Nat) (t : Tables) (a : Account) : Details where
  account := a
  user := t.user? a.user
  devices := (Table.scan rank AccountEmulators.id
    (t.accountEmulators.filter fun d => d.account = some a.id)).map fun d =>
      (d, (t.userEmulator? d.userEmulator).map fun l => (l, t.emulator? l.device))

def deviceItem (url : Option String) (today : Date) :
    AccountEmulators × Option (UserEmulators × Option Emulator) → Except Rejection (Option DeviceItem)
  | (_, none) => .error (cannotRead "unlinked_at")
  | (_, some (l, device)) =>
    if l.unlinked_at.isSome then .ok none
    else match device with
      | none => .error (cannotRead "screenshot")
      | some e => .ok (some
        ⟨{ e with screenshot := some (e.screenshot.getD (Utils.getDefaultScreenShot url "default.png")) },
          DateUtils.diffInDays l.expires_at today⟩)

/-- The devices of an account, for the account's user or a super admin. -/
def findOne (id : String) (token : JwtToken) : Svc (List DeviceItem) := do
  let some accountDetails ← query fun x s => .ok
      ((accountRepository.scan (fun _ a => a.id = id) x s.tables).head?.map
        (Details.of x.rank s.tables))
    | throw (.http .NOT_FOUND "Account not found")
  if token.role ≠ .SuperAdmin then
    match accountDetails.user with
    | none => throw (cannotRead "id")
    | some user =>
      if token.sub ≠ user.id then
        throw (.http .UNAUTHORIZED "You are not authorized to view this account")
  let items ← query fun x s => accountDetails.devices.mapM (deviceItem s.platform.SCREENSHOT_URL x.now)
  return items.filterMap fun i => i

def findRootAccount (userId : JsVal) : Svc (Option Account) :=
  accountRepository.findRow fun _ a => userId.selects a.user && a.is_admin

def remove (id : String) (payload : JwtToken) : Svc Unit := do
  let some accountUser ← findUserByAccount id
    | throw (.http .NOT_FOUND "Account not found")
  if payload.role = .SuperAdmin ∨ (accountUser.user = some payload.sub ∧
      (payload.subRole = some .AndroidAdmin ∨ payload.accountId = some id)) then
    accountRepository.deleteById id
  else
    throw (.http .UNAUTHORIZED "You cannot delete an account you do not own")

end AccountsService

end Damaru
