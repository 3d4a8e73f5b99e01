import Damaru.Async.Points
import Damaru.Common.Utils
import Damaru.Core.Encryption
import Damaru.Repository

/-!
# CoreDataSeederService

What the server puts into the database before it listens: the roles, the two
administrators of the configuration, and the flag of the encryption.
-/

namespace Damaru

open Async

/-- What the database stores, the table with the flag included. -/
structure Stored where
  server : Server
  encryption : List Encryption

def Stored.tables (s : Stored) : Tables := s.server.tables

def Stored.onServer : Part Stored Server where
  get := Stored.server
  put t s := { s with server := t }
  get_put _ _ := rfl
  put_get _ := rfl
  put_put _ _ _ := rfl

def Stored.onEncryption : Part Stored (List Encryption) where
  get := Stored.encryption
  put t s := { s with encryption := t }
  get_put _ _ := rfl
  put_get _ := rfl
  put_put _ _ _ := rfl

/-- The credentials of an administrator in the configuration. -/
structure Credentials where
  EMAIL : String
  NAME : Option String
  PASSWORD : Option String

structure SeedConfig where
  SUPER_ADMIN : Credentials
  EMULATOR_USER : Credentials

namespace CoreDataSeederService

/-- `save` of a new role. -/
def saveRole (name : String) : Svc Unit := do
  let _ ← roleRepository.insert fun x s =>
    .ok ⟨Table.fresh x.uuid (s.used ++ s.tables.roles.map Role.id), name⟩

/-- `save` of a new user. -/
def saveUser (name : Option String) (email password role : String) : Svc Unit := do
  let _ ← usersRepository.insert fun x s =>
    match name with
    | none => .error .query
    | some name => .ok ⟨x.fresh s, email, name, password, some role⟩

/-- The user of the configuration, with the role of that name. -/
def createUser (config : Credentials) (roleName : Roles) : Svc Unit := do
  let role ← roleRepository.findRow fun _ r => r.name = roleName.text
  let password ← HashUtils.hash (config.PASSWORD.map Json.str)
  match role with
  | none => throw (cannotRead "id")
  | some role => saveUser config.NAME config.EMAIL password role.id

def seedEmulatorUser (config : SeedConfig) : Svc Unit := do
  let emulatorUser ← usersRepository.findRow fun _ u => u.email = config.EMULATOR_USER.EMAIL
  if emulatorUser.isNone then createUser config.EMULATOR_USER .EmulatorAdmin

def seedSuperAdmin (config : SeedConfig) : Svc Unit := do
  let superAdmin ← usersRepository.findRow fun _ u => u.email = config.SUPER_ADMIN.EMAIL
  if superAdmin.isNone then createUser config.SUPER_ADMIN .SuperAdmin
  seedEmulatorUser config

def seedRoles (config : SeedConfig) : Svc Unit := do
  forM [Roles.EmulatorAdmin, .SuperAdmin, .AndroidUser] fun roleName => do
    let existingRole ← roleRepository.findRow fun _ r => r.name = roleName.text
    if existingRole.isNone then saveRole roleName.text
  seedSuperAdmin config

def seedEncryption : Prog Ext (List Encryption) Rejection Unit := do
  let encryptionEnabled ← Prog.op fun _ rows => (.ok (rows.find? fun r => r.id = "1"), rows)
  if encryptionEnabled.isNone then
    Prog.op fun _ rows =>
      if rows.any fun r => r.id = "1" then (.error .query, rows)
      else (.ok (), rows ++ [⟨"1", true⟩])

/-- What `bootstrap` runs before it listens. -/
def seed (config : SeedConfig) : Prog Ext Stored Rejection Unit := do
  (seedRoles config).within Stored.onServer
  seedEncryption.within Stored.onEncryption

end CoreDataSeederService

end Damaru
