import Damaru.Services.Accounts
import Damaru.Services.ActivityLogs

/-!
# UsersService
-/

namespace Damaru

open Async Table

namespace UsersService

/-- The id of a row that is inserted with a body: a new one, unless the body
gives one. -/
def givenId (user : Json) (id : String) : Option String :=
  match user.get? "id" with
  | none => some id
  | some given => JsVal.uuid (some given)

/-- The row that `insert({...user, password, role})` stores, dates aside. -/
def row (p : Platform) (id : String) (user : Json) (password role : String) : Except Rejection Users :=
  if p.refusesDates user then .error .query
  else
    match givenId user id, (user.get? "email").bound.filter storable,
      (user.get? "name").bound.filter storable with
    | some id, some email, some name => .ok { id, email, name, password, role := some role }
    | _, _, _ => .error .query

/-- The user with its accounts. -/
def findOne (id : String) : Svc (Option (Users × List Account)) :=
  query fun x s => .ok ((usersRepository.scan (fun _ u => u.id = id) x s.tables).head?.map fun u =>
    (u, Table.scan x.rank Account.id (s.tables.accounts.filter fun a => a.user = some u.id)))

/-- Creates a user, and for an Android user its admin account. -/
def create (user : Json) : Svc (Option (Users × List Account) × JsVal) := do
  let role := user.get? "role"
  let some roleName := role.bind fun j => if j.isNull then none else some j.toText
    | throw (cannotRead "toString")
  let roleEntity ← roleRepository.findRow fun _ r => r.name = roleName
  let draws ← random
  let newPassword := (user.get? "password").orElse
    (some (.str (StringUtils.generateRandomAlphaNumeric 8 draws)))
  let password ← HashUtils.hash newPassword
  let some roleEntity := roleEntity | throw (cannotRead "id")
  let userId ← usersRepository.insert fun x s =>
    row s.platform (x.fresh s) user password roleEntity.id
  ActivityLogService.log (some (.str Actions.CREATE_USER.text)) (some user)
  if role.isStr Roles.AndroidUser.text then
    let draws ← random
    let pin := StringUtils.generateRandomNumeric 5 draws
    let _ ← AccountsService.create
      { account_name := user.get? "name", userId := some (.str userId), pin := some (.str pin)
        is_admin := some (.bool true) }
    ActivityLogService.log (some (.str Actions.CREATE_ACCOUNT.text)) (some (.obj
      [("userId", .str userId), ("account_name", (user.get? "name").getD .null),
        ("pin", .str pin), ("is_admin", .bool true), ("last_login", .null)]))
  let created ← findOne userId
  return (created, newPassword)

/-- Changes the fields of a user that the body names; the role is not one. -/
def update (id : String) (user : Json) : Svc Unit := do
  if user.isNull then throw (cannotRead "role")
  if (user.get? "role").truthy then throw (.http .BAD_REQUEST "Role cannot be updated")
  let given := fun k => (user.get? k).filter Json.truthy
  let password ← match given "password" with
    | none => pure none
    | some password => some <$> HashUtils.hash (some password)
  let updatedUser := [("password", password.map Json.str), ("name", given "name"),
    ("email", given "email")]
  ActivityLogService.log (some (.str Actions.UPDATE_USER.text))
    (some (.obj (updatedUser.filterMap fun p => p.2.map fun v => (p.1, v))))
  let _ ← usersRepository.set (some (.str id)) fun _ u =>
    { u with
      password := password.getD u.password
      name := ((given "name").bind Json.bound).getD u.name
      email := ((given "email").bind Json.bound).getD u.email }

/-- A user as the list shows it. -/
structure UserItem where
  id : String
  name : String
  email : String
  pin : Option String
  accountsCount : Nat
  emulatorsCount : Nat
  role : String

def userItem (rank : String → Nat) (t : Tables) (u : Users) : Option UserItem :=
  match t.role? u.role with
  | none => none
  | some role =>
    if role.name = Roles.SuperAdmin.text ∨ role.name = Roles.EmulatorAdmin.text then none
    else
      let accounts := Table.scan rank Account.id (t.accounts.filter fun a => a.user = some u.id)
      some
        { id := u.id, name := u.name, email := u.email
          pin := (accounts.filter Account.is_admin).head?.map Account.pin
          accountsCount := accounts.length
          emulatorsCount := (t.userEmulators.filter fun l => l.user = some u.id && l.active).length
          role := role.name }

def findAll : Svc (List UserItem) :=
  query fun x s =>
    .ok ((usersRepository.scan (fun _ _ => true) x s.tables).filterMap (userItem x.rank s.tables))

/-- Deletes a user. The devices linked to it are made available by updates
that nothing awaits. -/
def remove (id : String) : Svc Unit := do
  let devices ← query fun x s => .ok ((userEmulatorRepository.scan
    (fun _ l => l.user = some id && l.active) x s.tables).map UserEmulators.device)
  ActivityLogService.log (some (.str Actions.DELETE_USER.text)) (some (.obj [("id", .str id)]))
  forM devices fun device => Prog.detach (do
    let some device_id := device | throw (cannotRead "device_id")
    let _ ← emulatorRepository.set (some (.str device_id)) fun _ e => { e with state := .AVAILABLE })
  usersRepository.deleteById id

end UsersService

end Damaru
