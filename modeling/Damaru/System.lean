import Damaru.Async.Trace
import Damaru.Controllers

/-!
# The system

What reaches the server, one event at a time, and the calls of the services
that the events are made of. A step runs one event alone, with everything it
forked, to its end.
-/

namespace Damaru

open Async

/-- A request under a verified token, a message of a client, the end of a
client's connection, or a login. -/
inductive Event where
  | http (user : JwtToken) (req : HttpRequest)
  | message (client : Socket) (user : JwtToken) (event : SignalingServerGateway.Event) (body : Json)
  | disconnect (client : Socket)
  | login (loginDto : Json)

def Event.prog : Event → Svc Unit
  | http user req => do let _ ← req.handle user
  | message client user event body => SignalingServerGateway.handle client user event body
  | disconnect client => SignalingServerGateway.handleDisconnect client
  | login loginDto => do let _ ← AuthService.validateUser loginDto

/-- The server handles an event, whatever comes of it. -/
def Step (s : Server) (e : Event) (s' : Server) : Prop :=
  Pool.Settles (fun _ => True) e.prog s s'

/-- The tables as seeding leaves them: the roles, and no users but the two
whose credentials the configuration holds. -/
structure Seeded (t : Tables) : Prop where
  roles : (t.roles.map Role.name).Perm
    [Roles.EmulatorAdmin.text, Roles.SuperAdmin.text, Roles.AndroidUser.text]
  users : t.users.length = 2 ∧ ∀ u ∈ t.users, ∃ r ∈ t.roles, u.role = some r.id ∧
    r.name ≠ Roles.AndroidUser.text
  accounts : t.accounts = []
  emulators : t.emulators = []
  userEmulators : t.userEmulators = []
  accountEmulators : t.accountEmulators = []
  emulatorConnections : t.emulatorConnections = []
  activityLogs : t.activityLogs = []

/-- The states that a sequence of events leads to from a seeded database. -/
def Reachable (s : Server) : Prop :=
  ∃ s₀ l, Seeded s₀.tables ∧ s₀.connections = [] ∧ s₀.emitted = [] ∧ Trace Step s₀ l s

/-! ## Playing events -/

/-- Handles an event on the inputs of `xs`, if it forks nothing. -/
def Event.play (e : Event) (xs : List Ext) (s : Server) : Option Server :=
  (e.prog.run xs s).map Prod.snd

/-- Handles one event after another. -/
def playAll : List (Event × List Ext) → Server → Option Server
  | [], s => some s
  | (e, xs) :: l, s => (e.play xs s).bind (playAll l)

theorem Event.step_of_play {e : Event} {xs : List Ext} {s s' : Server} (h : e.play xs s = some s') :
    Step s e s' := by
  obtain ⟨o, ho, rfl⟩ := Option.map_eq_some_iff.1 h
  exact .of_ends (Prog.ends_of_run ho) fun _ _ => trivial

theorem trace_of_playAll {l : List (Event × List Ext)} {s₀ s s' : Server}
    {steps : List (Server × Event × Server)} (hs : Trace Step s₀ steps s)
    (h : playAll l s = some s') : ∃ steps', Trace Step s₀ steps' s' := by
  induction l generalizing s steps with
  | nil =>
    cases h
    exact ⟨steps, hs⟩
  | cons exs l ih =>
    obtain ⟨e, xs⟩ := exs
    obtain ⟨t, ht, h⟩ := Option.bind_eq_some_iff.1 h
    exact ih (hs.snoc (Event.step_of_play ht)) h

/-! ## A small deployment

Two Android users, each with a root account and an ordinary one. One device is
free, the other is linked to the second user and assigned to both its
accounts. -/

namespace Sample

def platform : Platform where
  DEFAULT_DAYS := none
  SCREENSHOT_URL := none
  compare _ _ := false
  amount _ := none
  date _ := none

def tables : Tables where
  roles := [⟨"r1", "SuperAdmin"⟩, ⟨"r2", "EmulatorAdmin"⟩, ⟨"r3", "AndroidUser"⟩]
  users := [⟨"u", "u@x", "U", "hash", some "r3"⟩, ⟨"v", "v@x", "V", "hash", some "r3"⟩]
  accounts :=
    [⟨"u-root", some "u", "root", true, true, "1", none⟩,
      ⟨"u-one", some "u", "one", false, false, "2", none⟩,
      ⟨"v-root", some "v", "root", true, true, "3", none⟩,
      ⟨"v-one", some "v", "one", false, false, "4", none⟩]
  emulators :=
    [⟨"d", some "D", .offline, .AVAILABLE, none, none⟩,
      ⟨"e", some "E", .offline, .REGISTERED, none, none⟩]
  userEmulators := [⟨"link", some "v", some "e", 100, 0, none⟩]
  accountEmulators :=
    [⟨"a1", some "v-root", some "link", .ACTIVE⟩, ⟨"a2", some "v-one", some "link", .ACTIVE⟩]
  emulatorConnections := []
  activityLogs := []

def server : Server where
  platform := platform
  db := ⟨tables, by decide⟩
  issued := []
  connections := []
  emitted := []

/-- An input whose generated id is `id`. -/
def input (id : String) : Ext := { (default : Ext) with uuid := id }

/-- The token of an administrator, and those of the accounts of users. -/
def superAdmin : JwtToken := ⟨"s", "s@x", .SuperAdmin, none, none, none⟩

def emulatorAdmin : JwtToken := ⟨"m", "m@x", .EmulatorAdmin, none, none, none⟩

def androidAdmin (user account : String) : JwtToken :=
  ⟨user, user ++ "@x", .AndroidUser, some .AndroidAdmin, some "root", some account⟩

def androidAccount (user account : String) : JwtToken :=
  ⟨user, user ++ "@x", .AndroidUser, some .AndroidAccount, some "one", some account⟩

def seeded : Server where
  platform := platform
  db := ⟨{ tables with
    users := [⟨"s", "s@x", "S", "hash", some "r1"⟩, ⟨"m", "m@x", "M", "hash", some "r2"⟩]
    accounts := []
    emulators := []
    userEmulators := []
    accountEmulators := [] }, by decide⟩
  issued := []
  connections := []
  emitted := []

theorem seeded_tables : Seeded seeded.tables where
  roles := by decide
  users := by decide
  accounts := rfl
  emulators := rfl
  userEmulators := rfl
  accountEmulators := rfl
  emulatorConnections := rfl
  activityLogs := rfl

def userBody (name : String) : Json :=
  .obj [("email", .str (name ++ "@x")), ("name", .str name), ("password", .str "p")]

def linkBody (user : String) (devices : List String) : Json :=
  .obj [("userId", .str user), ("deviceIds", .arr (devices.map .str))]

def assignBody (user device : String) (accounts : List String) : Json :=
  .obj [("userId", .str user), ("deviceId", .str device), ("accountIds", .arr (accounts.map .str))]

/-- The events that lead from the seeded database to two users, each with its
root account, and two devices, of which one is linked to the second user and
assigned to both its accounts. -/
def history : List (Event × List Ext) :=
  [(.http superAdmin (.users_create (userBody "u")),
      ["", "", "", "u", "g1", "", "", "", "u-root", "g2", ""].map input),
    (.http superAdmin (.users_create (userBody "v")),
      ["", "", "", "v", "g3", "", "", "", "v-root", "g4", ""].map input),
    (.http superAdmin (.emulators_create (.obj [("device_id", .str "d"), ("device_name", .str "D")])),
      ["", ""].map input),
    (.http superAdmin (.emulators_create (.obj [("device_id", .str "e"), ("device_name", .str "E")])),
      ["", ""].map input),
    (.http superAdmin (.emulators_linkEmulator (linkBody "v" ["e"])),
      ["", "link", "", "a1", ""].map input),
    (.http (androidAdmin "v" "v-root") (.accounts_create (.obj [("account_name", .str "one")])),
      ["", "v-one"].map input),
    (.http (androidAdmin "v" "v-root") (.emulators_assignEmulator (assignBody "v" "e" ["v-one"])),
      ["", "a2"].map input)]

end Sample

/-- The state that the history and what follows it lead to is reachable. -/
theorem Sample.reachable {l : List (Event × List Ext)} {s : Server}
    (h : playAll (history ++ l) seeded = some s) : Reachable s := by
  obtain ⟨steps, hsteps⟩ := trace_of_playAll .nil h
  exact ⟨seeded, steps, seeded_tables, rfl, rfl, hsteps⟩

end Damaru
