import Damaru.Common.Equality
import Damaru.Common.Utils
import Damaru.Repository

/-!
# AuthService
-/

namespace Damaru.AuthService

open Async Table

/-- The token of an account of an Android user. -/
def accountPayload (user : Users) (account : Account) : JwtToken where
  sub := user.id
  accountName := some account.account_name
  email := user.email
  role := .AndroidUser
  accountId := some account.id
  subRole := some (if account.is_admin then .AndroidAdmin else .AndroidAccount)

/-- The accounts whose PIN the value equals. Comparing throws if the value has
no text. -/
def matchingAccounts (pin : JsVal) (accounts : List Account) : Except Rejection (List Account) :=
  if accounts.isEmpty || pin.all Json.hasText then .ok (accounts.filter fun a => pin.looselyEquals a.pin)
  else .error (.typeError "Cannot convert object to primitive value")

/-- `password && user && await compareHash(password, user.password)`. -/
def passwordMatches (password : JsVal) : Option Users → Svc Bool
  | none => pure false
  | some user =>
    if password.truthy then HashUtils.compareHash password user.password else pure false

/-- Checks the credentials and answers the payload of the token. An Android
user names one of its accounts by its PIN; every account with the PIN has its
last login written by an update that nothing awaits, and the last one counts. -/
def validateUser (loginDto : Json) : Svc (JwtToken × Bool) := do
  if loginDto.isNull then throw (cannotRead "email")
  let user ← query fun x s => .ok ((usersRepository.scan
    (fun _ u => (loginDto.get? "email").selects (some u.email)) x s.tables).head?.map fun u =>
      (u, s.tables.role? u.role,
        Table.scan x.rank Account.id (s.tables.accounts.filter fun a => a.user = some u.id)))
  let valid ← passwordMatches (loginDto.get? "password") (user.map Prod.fst)
  match user with
  | some (user, role, accounts) =>
    if valid then
      let some role := role | throw (cannotRead "name")
      if role.name = Roles.AndroidUser.text then
        let matching ← ofResult (matchingAccounts (loginDto.get? "pin") accounts)
        forM matching fun account => Prog.detach (do
          let _ ← accountRepository.set (some (.str account.id)) fun x a =>
            { a with last_login := some x.now })
        match matching.getLast? with
        | none => throw (.http .UNAUTHORIZED "Invalid account or pin")
        | some account =>
          if account.account_name = "" then
            throw (.http .UNAUTHORIZED "Invalid account or pin")
          return (accountPayload user account, account.first_login)
      else
        return (⟨user.id, user.email, Roles.ofText role.name, none, none, none⟩, false)
    else throw (.http .UNAUTHORIZED "Invalid credentials")
  | none => throw (.http .UNAUTHORIZED "Invalid credentials")

end Damaru.AuthService
