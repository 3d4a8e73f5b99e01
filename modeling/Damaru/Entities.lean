import Damaru.Common.Js

/-!
# Entities

The rows of the tables, under the entities' own field names, and the tokens a
login issues. A `ManyToOne` column is nullable and holds the key of the row it
refers to. The stamps `created_at` and `updated_at` are left out: the database
fills them and no handler reads them.
-/

namespace Damaru

/-- Milliseconds since the epoch. -/
abbrev Date := Int

/-- A token carries its role as text: the name of a row of `roles`, which
seeding fills with the first three. -/
inductive Roles where
  | EmulatorAdmin
  | SuperAdmin
  | AndroidUser
  | other (name : String)
  deriving DecidableEq, Repr

def Roles.ofText (t : String) : Roles :=
  if t = "EmulatorAdmin" then .EmulatorAdmin
  else if t = "SuperAdmin" then .SuperAdmin
  else if t = "AndroidUser" then .AndroidUser
  else .other t

def Roles.text : Roles → String
  | EmulatorAdmin => "EmulatorAdmin"
  | SuperAdmin => "SuperAdmin"
  | AndroidUser => "AndroidUser"
  | other t => t

inductive SubRoles where
  | AndroidAdmin
  | AndroidAccount
  deriving DecidableEq, Repr

/-- The payload of a verified token. -/
structure JwtToken where
  sub : String
  email : String
  role : Roles
  subRole : Option SubRoles
  accountName : Option String
  accountId : Option String
  deriving DecidableEq, Repr

inductive Actions where
  | CREATE_USER
  | UPDATE_USER
  | DELETE_USER
  | CREATE_ACCOUNT
  deriving DecidableEq, Repr

def Actions.text : Actions → String
  | CREATE_USER => "CREATE_USER"
  | UPDATE_USER => "UPDATE_USER"
  | DELETE_USER => "DELETE_USER"
  | CREATE_ACCOUNT => "CREATE_ACCOUNT"

/-- The column holds the enumeration as text, and a body that is not validated
can put any `other` text there. -/
inductive EmulatorState where
  | AVAILABLE
  | REGISTERED
  | other (text : String)
  deriving DecidableEq, Repr

def EmulatorState.ofText (t : String) : EmulatorState :=
  if t = "AVAILABLE" then .AVAILABLE else if t = "REGISTERED" then .REGISTERED else .other t

def EmulatorState.text : EmulatorState → String
  | AVAILABLE => "AVAILABLE"
  | REGISTERED => "REGISTERED"
  | other t => t

inductive EmulatorStatus where
  | online
  | offline
  | other (text : String)
  deriving DecidableEq, Repr

def EmulatorStatus.ofText (t : String) : EmulatorStatus :=
  if t = "online" then .online else if t = "offline" then .offline else .other t

def EmulatorStatus.text : EmulatorStatus → String
  | online => "online"
  | offline => "offline"
  | other t => t

inductive AccountStatus where
  | ACTIVE
  | BLOCKED
  | INACTIVE
  deriving DecidableEq, Repr

structure Role where
  id : String
  name : String
  deriving DecidableEq, Repr

structure Users where
  id : String
  email : String
  name : String
  password : String
  role : Option String
  deriving DecidableEq, Repr

structure Account where
  id : String
  user : Option String
  account_name : String
  first_login : Bool
  is_admin : Bool
  pin : String
  last_login : Option Date
  deriving DecidableEq, Repr

structure Emulator where
  device_id : String
  device_name : Option String
  status : EmulatorStatus
  state : EmulatorState
  screenshot : Option String
  details : Option String
  deriving DecidableEq, Repr

/-- A link of a device to a user. Unlinking sets `unlinked_at` and keeps the
row as history. -/
structure UserEmulators where
  id : String
  user : Option String
  device : Option String
  expires_at : Date
  linked_at : Date
  unlinked_at : Option Date
  deriving DecidableEq, Repr

/-- The link is the one in force. -/
def UserEmulators.active (l : UserEmulators) : Bool := l.unlinked_at.isNone

/-- An account's access to a link. -/
structure AccountEmulators where
  id : String
  account : Option String
  userEmulator : Option String
  status : AccountStatus
  deriving DecidableEq, Repr

/-- The pair the unique constraint is on; a null never collides. -/
def AccountEmulators.pair (a : AccountEmulators) : Option (String × String) :=
  a.account.bind fun i => a.userEmulator.map fun l => (i, l)

theorem AccountEmulators.pair_link {a : AccountEmulators} {k : String × String}
    (h : a.pair = some k) : a.userEmulator = some k.2 := by
  obtain ⟨i, -, hpair⟩ := Option.bind_eq_some_iff.1 h
  obtain ⟨l, hl, heq⟩ := Option.map_eq_some_iff.1 hpair
  rw [hl, ← heq]

theorem AccountEmulators.pair_account {a : AccountEmulators} {k : String × String}
    (h : a.pair = some k) : a.account = some k.1 := by
  obtain ⟨i, hi, hpair⟩ := Option.bind_eq_some_iff.1 h
  obtain ⟨l, -, heq⟩ := Option.map_eq_some_iff.1 hpair
  rw [hi, ← heq]

structure EmulatorConnections where
  id : String
  accountEmulators : Option String
  connected_at : Date
  disconnected_at : Option Date
  deriving DecidableEq, Repr

structure ActivityLog where
  id : String
  action : String
  timestamp : Date
  metadata : Json

end Damaru
