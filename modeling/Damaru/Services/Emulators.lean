import Damaru.Services.Accounts

/-!
# EmulatorService
-/

namespace Damaru

open Async Table

structure MultiDevicesLinkDto where
  deviceIds : JsVal
  userId : JsVal

structure MultiDevicesAccountLinkDto extends MultiDevicesLinkDto where
  accountId : JsVal

structure MultiAccountsLinkDto where
  deviceId : JsVal
  accountIds : JsVal
  userId : JsVal

structure ExtendExpiryDto where
  deviceId : JsVal
  userId : JsVal
  days : JsVal

namespace EmulatorService

/-! ## Devices -/

/-- The row that `insert({...emulator, state, status})` stores, dates aside. -/
def row (p : Platform) (emulator : Json) : Except Rejection Emulator :=
  if p.refusesDates emulator then .error .query
  else
    match (emulator.get? "device_id").bound with
    | none => .error .query
    | some device_id => .ok
      { device_id
        device_name := (emulator.get? "device_name").bound
        status := .offline
        state := .AVAILABLE
        screenshot := (emulator.get? "screenshot").bound
        details := (emulator.get? "details").bound }

/-- Adds a device, unless one has its id; answers whether it did. -/
def create (emulator : Json) : Svc Bool := do
  if emulator.isNull then throw (cannotRead "device_id")
  let exist ← emulatorRepository.findRow fun _ e =>
    (emulator.get? "device_id").selects (some e.device_id)
  if exist.isSome then return false
  let _ ← emulatorRepository.insert fun _ s => row s.platform emulator
  return true

/-- The columns of `Emulator`. -/
def columnNames : List String :=
  ["device_id", "device_name", "status", "state", "created_at", "updated_at", "screenshot",
    "details"]

/-- The columns that must not be null. -/
def requiredNames : List String := ["device_id", "status", "state", "created_at", "updated_at"]

/-- What the update with a body as its values does to a row. -/
def columns (emulator : Json) (e : Emulator) : Emulator :=
  { device_id := (emulator.get? "device_id").bound.getD e.device_id
    device_name := match emulator.get? "device_name" with
      | none => e.device_name
      | some j => j.bound
    status := ((emulator.get? "status").bound.map EmulatorStatus.ofText).getD e.status
    state := ((emulator.get? "state").bound.map EmulatorState.ofText).getD e.state
    screenshot := match emulator.get? "screenshot" with
      | none => e.screenshot
      | some j => j.bound
    details := match emulator.get? "details" with
      | none => e.details
      | some j => j.bound }

/-- The values of an update: any column may be named, nothing else, and
`none` stands for a null that the column does not take. -/
def values (p : Platform) (emulator : Json) : Except Rejection (Option (Emulator → Emulator)) :=
  if emulator.isNull then .error (.typeError "Cannot convert undefined or null to object")
  else if emulator.keys.all (· ∈ columnNames) then
    if requiredNames.any fun k => (emulator.get? k).any Json.isNull then .ok none
    else if ["created_at", "updated_at"].any fun k =>
        (emulator.get? k).bound.any fun t => (p.date t).isNone then .error .query
    else .ok (some (columns emulator))
  else .error (.library "Property was not found in \"Emulator\".")

/-- Updates a device with the values of a body; answers whether a row was
affected. Under an Android admin's token the device must be linked to its
user. -/
def update (id : JsVal) (emulator : Json) (user : Option JwtToken) : Svc Bool := do
  if let some user := user then
    if user.role = .AndroidUser ∧ user.subRole = some .AndroidAdmin then
      let userEmulators ← userEmulatorRepository.findRow fun _ l =>
        id.selects l.device && l.user = some user.sub && l.active
      if userEmulators.isNone then
        throw (.http .UNAUTHORIZED "You are not authorized to update this emulator")
  let affected ← emulatorRepository.update id fun _ s => values s.platform emulator
  return affected > 0

/-- A device with the links that the query loaded for it. -/
abbrev LoadedEmulator := Emulator × List (UserEmulators × Option Users)

/-- A device as the list shows it; `userEmulators` is `none` once deleted. -/
structure EmulatorItem where
  emulator : Emulator
  userEmulators : Option (List (UserEmulators × Option Users))
  email : Option String
  userId : Option String
  expires_at : Option Int

def mapAvailableEmulators (e : Emulator) : EmulatorItem := ⟨e, none, none, none, none⟩

/-- The item of a device that is not available. Every active link writes its
user over the last one. -/
def mapRegisteredEmulators (today : Date) (e : LoadedEmulator) : Except Rejection EmulatorItem :=
  if e.2.length > 0 then
    (e.2.filter fun l => l.1.active).foldlM
      (fun item l => match l.2 with
        | none => .error (cannotRead "email")
        | some user => .ok { item with
          email := some user.email
          userId := some user.id
          expires_at := some (DateUtils.diffInDays l.1.expires_at today) })
      ⟨e.1, none, none, none, none⟩
  else .ok ⟨e.1, some [], none, none, none⟩

def emulatorResponseMapper (url : Option String) (today : Date) (e : LoadedEmulator) :
    Except Rejection EmulatorItem :=
  let emulator := { e.1 with
    screenshot := some (e.1.screenshot.getD (Utils.getDefaultScreenShot url "default.png")) }
  if emulator.state = .AVAILABLE then .ok (mapAvailableEmulators emulator)
  else mapRegisteredEmulators today (emulator, e.2)

/-- The links of a device that a query loads, with their users. -/
def loaded (p : Tables → UserEmulators → Bool) (rank : String → Nat) (t : Tables) (e : Emulator) :
    LoadedEmulator :=
  (e, (Table.scan rank UserEmulators.id
    (t.userEmulators.filter fun l => l.device = some e.device_id && p t l)).map fun l =>
      (l, t.user? l.user))

/-- Which links of a device the token's query loads. -/
def visible (jwt : JwtToken) (t : Tables) (l : UserEmulators) : Bool :=
  if jwt.role = .SuperAdmin then true
  else if jwt.role = .AndroidUser ∧ jwt.subRole = some .AndroidAdmin then
    l.user = some jwt.sub && l.active
  else
    l.user = some jwt.sub && l.active && jwt.accountId.all fun i => t.accountEmulators.any fun a =>
      a.userEmulator = some l.id && a.account = some i

/-- Which devices the token's query returns. -/
def listed (jwt : JwtToken) (t : Tables) (e : Emulator) : Bool :=
  if jwt.role = .SuperAdmin then true
  else (t.userEmulators.any fun l => l.device = some e.device_id && visible jwt t l) &&
    (if jwt.role = .AndroidUser ∧ jwt.subRole = some .AndroidAdmin then e.state = .REGISTERED
      else true)

def findAll (jwt : JwtToken) : Svc (List EmulatorItem) := do
  let emulators ← query fun x s => .ok ((emulatorRepository.scan (listed jwt) x s.tables).map
    (loaded (visible jwt) x.rank s.tables))
  query fun x s => emulators.mapM (emulatorResponseMapper s.platform.SCREENSHOT_URL x.now)

def remove (id : String) : Svc Unit := emulatorRepository.deleteById id

/-- `save`: reloads the row, inserts it if it has gone, and else writes the
columns that differ from the reloaded ones. -/
def save (emulator : Emulator) : Svc Unit := do
  let reloaded ← emulatorRepository.findRow fun _ e => e.device_id = emulator.device_id
  match reloaded with
  | none =>
    let _ ← emulatorRepository.insert fun _ _ => .ok emulator
  | some old =>
    if old ≠ emulator then
      emulatorRepository.write emulator.device_id fun e =>
        { e with
          device_name := if emulator.device_name ≠ old.device_name then emulator.device_name
            else e.device_name
          status := if emulator.status ≠ old.status then emulator.status else e.status
          state := if emulator.state ≠ old.state then emulator.state else e.state
          screenshot := if emulator.screenshot ≠ old.screenshot then emulator.screenshot
            else e.screenshot
          details := if emulator.details ≠ old.details then emulator.details else e.details }

def linkScreenshot (deviceId : String) : Svc Emulator := do
  let emulator ← query fun x s => .ok
    ((emulatorRepository.scan (fun _ e => e.device_id = deviceId) x s.tables).head?.map fun e =>
      { e with
        screenshot :=
          some (Utils.getDefaultScreenShot s.platform.SCREENSHOT_URL (deviceId ++ ".png")) })
  let some emulator := emulator
    | throw (.http .NOT_FOUND ("Device with id " ++ deviceId ++ " not found"))
  save emulator
  return emulator

/-! ## Assignments -/

def checkSuperAdminOrSelf (userId : JsVal) (user : JwtToken) : Bool :=
  user.role = .SuperAdmin || userId.isStr user.sub

/-- The link of a device to a user that an assignment is made to. -/
def findUserEmulator (deviceId userId : JsVal) : Svc (Option UserEmulators) :=
  userEmulatorRepository.findRow fun _ l => deviceId.selects l.device && userId.selects l.user

/-- `upsert` of an assignment whose failure is only logged. -/
def tryAssign (account : JsVal) (userEmulator : UserEmulators) : Svc Unit :=
  (accountEmulatorRepository.upsert account.bound userEmulator.id).tryCatch fun _ => pure ()

/-- `delete` of assignments whose failure is only logged. The criterion
refuses an account id that is not truthy. -/
def tryUnassign (account : JsVal) (userEmulator : UserEmulators) (p : AccountEmulators → Bool) :
    Svc Unit :=
  (if account.truthy then
    accountEmulatorRepository.delete fun a =>
      a.userEmulator = some userEmulator.id && a.account = account.bound && p a
  else throw (.library "Cannot find alias for relation at account")).tryCatch fun _ => pure ()

def assignEmulatorsToAccount (dto : MultiDevicesAccountLinkDto) (user : JwtToken) : Svc Unit :=
  if checkSuperAdminOrSelf dto.userId user then
    forOf "emulatorAssignedDto.deviceIds" dto.deviceIds fun deviceId => do
      if let some userEmulator ← findUserEmulator deviceId dto.userId then
        tryAssign dto.accountId userEmulator
  else pure ()

def unassignEmulatorsToAccount (dto : MultiDevicesAccountLinkDto) (user : JwtToken) : Svc Unit :=
  if checkSuperAdminOrSelf dto.userId user then
    forOf "emulatorAssignedDto.deviceIds" dto.deviceIds fun deviceId => do
      if let some userEmulator ← findUserEmulator deviceId dto.userId then
        tryUnassign dto.accountId userEmulator fun _ => true
  else pure ()

/-- The one of the four that does not look at the token. -/
def unassignEmulatorFromAccounts (dto : MultiAccountsLinkDto) : Svc Unit := do
  if let some userEmulator ← findUserEmulator dto.deviceId dto.userId then
    forOf "emulatorAssignedDto.accountIds" dto.accountIds fun account =>
      tryUnassign account userEmulator fun a => a.status = .ACTIVE

def assignEmulator (dto : MultiAccountsLinkDto) (user : JwtToken) : Svc Unit :=
  if checkSuperAdminOrSelf dto.userId user then do
    if let some userEmulator ← findUserEmulator dto.deviceId dto.userId then
      forOf "emulatorAssignedDto.accountIds" dto.accountIds fun account =>
        tryAssign account userEmulator
  else pure ()

/-! ## Links -/

def findEmulatorByDeviceId (deviceId : JsVal) (state : EmulatorState) : Svc (Option Emulator) :=
  emulatorRepository.findRow fun _ e => deviceId.selects (some e.device_id) && e.state = state

def extend (dto : ExtendExpiryDto) : Svc Unit := do
  if let some exist ← findUserEmulator dto.deviceId dto.userId then
    let _ ← userEmulatorRepository.update (some (.str exist.id)) fun _ s =>
      match (DateUtils.amount s.platform dto.days).bind fun days => DateUtils.add days exist.expires_at with
      | none => .error .query
      | some expires_at => .ok (some fun l => { l with expires_at })

/-- `configService.get('DEFAULT_DAYS') || 30`. -/
def defaultDays (p : Platform) : Int := p.DEFAULT_DAYS.getD 30

def insertLink (userId device_id : JsVal) : Svc String :=
  userEmulatorRepository.insert fun x s => .ok
    { id := x.fresh s
      user := userId.bound
      device := device_id.bound
      expires_at := DateUtils.shift (defaultDays s.platform) x.now
      linked_at := x.now
      unlinked_at := none }

def insertAssignment (userEmulator account : String) : Svc String :=
  accountEmulatorRepository.insert fun x s => .ok
    { id := x.fresh s
      account := some account
      userEmulator := some userEmulator
      status := .ACTIVE }

def setState (device_id : JsVal) (state : EmulatorState) : Svc Unit := do
  let _ ← emulatorRepository.set device_id fun _ e => { e with state }

/-- One turn of the loop of `linkEmulator`. -/
def linkDevice (userId device_id : JsVal) : Svc Unit := do
  let alreadyLinked ← findEmulatorByDeviceId device_id .REGISTERED
  if alreadyLinked.isNone then
    let newLink ← insertLink userId device_id
    let some adminAccount ← AccountsService.findRootAccount userId | throw (cannotRead "id")
    let _ ← insertAssignment newLink adminAccount.id
    setState device_id .REGISTERED
  else
    throw (.http .NOT_ACCEPTABLE "This device has already been linked")

def linkEmulator (dto : MultiDevicesLinkDto) : Svc Unit :=
  forOf "emulatorLinkDto.deviceIds" dto.deviceIds (linkDevice dto.userId)

/-- One turn of the loop of `unlinkEmulator`. -/
def unlinkDevice (userId device_id : JsVal) : Svc Unit := do
  let linkedEmulator ← userEmulatorRepository.findRow fun _ l =>
    userId.selects l.user && device_id.selects l.device && l.active
  if let some linkedEmulator := linkedEmulator then
    let _ ← userEmulatorRepository.set (some (.str linkedEmulator.id)) fun x l =>
      { l with unlinked_at := some x.now }
    accountEmulatorRepository.delete fun a => a.userEmulator = some linkedEmulator.id
    setState device_id .AVAILABLE

def unlinkEmulator (dto : MultiDevicesLinkDto) : Svc Unit :=
  forOf "emulatorLinkDto.deviceIds" dto.deviceIds (unlinkDevice dto.userId)

/-- An account that a device is assigned to, as the list shows it. -/
structure LinkedAccount where
  id : String
  account_name : String
  pin : String

def linkedAccount : AccountEmulators × Option Account → Except Rejection (Option LinkedAccount)
  | (_, none) => .error (cannotRead "is_admin")
  | (_, some a) => .ok (if a.is_admin then none else some ⟨a.id, a.account_name, a.pin⟩)

def findLinkedDevices (deviceId : JsVal) : Svc (List LinkedAccount) := do
  let accountEmulators ← accountEmulatorRepository.find
    (fun t a => (t.userEmulator? a.userEmulator).all UserEmulators.active &&
      deviceId.selects ((t.userEmulator? a.userEmulator).bind UserEmulators.device))
    fun t a => (a, t.account? a.account)
  let items ← ofResult (accountEmulators.mapM linkedAccount)
  return items.filterMap fun i => i

/-! ## Connections -/

structure Template where
  description : String
  date : Date

def connectedTemplate (accountName deviceName : String) (connectedDate : Date)
    (disConnectedDate : Option Date) : List Template :=
  ⟨"<b>" ++ accountName ++ "</b> connected to <b>" ++ deviceName ++ "</b>", connectedDate⟩ ::
    match disConnectedDate with
    | none => []
    | some date =>
      [⟨"<b>" ++ accountName ++ "</b> disconnected to <b>" ++ deviceName ++ "</b>(" ++
        toString (DateUtils.diffInSeconds date connectedDate) ++ "s)", date⟩]

/-- A row of `EmulatorConnections` with the account and the device it joins. -/
structure LoadedConnection where
  connection : EmulatorConnections
  accountEmulators : Option (AccountEmulators × Option Account × Option (UserEmulators × Option Emulator))

def LoadedConnection.of (t : Tables) (c : EmulatorConnections) : LoadedConnection :=
  ⟨c, (t.accountEmulator? c.accountEmulators).map fun a =>
    (a, t.account? a.account, (t.userEmulator? a.userEmulator).map fun l => (l, t.emulator? l.device))⟩

/-- The entries of one connection. -/
def LoadedConnection.templates (c : LoadedConnection) : Except Rejection (List Template) :=
  match c.accountEmulators with
  | none => .error (cannotRead "account")
  | some (_, none, _) => .error (cannotRead "account_name")
  | some (_, some _, none) => .error (cannotRead "device")
  | some (_, some _, some (_, none)) => .error (cannotRead "device_name")
  | some (_, some account, some (_, some device)) =>
    .ok (connectedTemplate account.account_name (device.device_name.getD "null")
      c.connection.connected_at c.connection.disconnected_at)

/-- The connection log: the entries of each matching connection. The rows are
kept beside their entries; the response sends the entries only. -/
def connectionLog (accountId deviceId : JsVal) : Svc (List (LoadedConnection × List Template)) := do
  let emulatorConnections ← emulatorConnectionsRepository.find
    (fun t c =>
      let a := t.accountEmulator? c.accountEmulators
      accountId.selects (a.bind AccountEmulators.account) &&
        deviceId.selects (a.bind fun a => (t.userEmulator? a.userEmulator).bind UserEmulators.device))
    LoadedConnection.of
  ofResult (emulatorConnections.mapM fun c => c.templates.map fun l => (c, l))

def connectEmulator (clientId deviceId : JsVal) : Svc Unit := do
  let accountEmulatorId ← accountEmulatorRepository.findRow fun t a =>
    deviceId.selects ((t.userEmulator? a.userEmulator).bind UserEmulators.device) &&
      clientId.selects a.account
  let some accountEmulatorId := accountEmulatorId | throw (cannotRead "id")
  let _ ← emulatorConnectionsRepository.insert fun x s => .ok
    { id := x.fresh s
      accountEmulators := some accountEmulatorId.id
      connected_at := x.now
      disconnected_at := none }

/-- `SignalingServerGateway.restartConnection`. -/
def restartConnection (deviceName : JsVal) : Svc Unit :=
  sync fun s => (.ok (), { s with
    emitted := s.emitted ++ [⟨.room "emulatorAdmin", "restart", [("deviceName", deviceName)]⟩] })

/-- Notes that a session has ended. Its key is looked up among the devices, whose
keys are texts, and then among the accounts, whose keys are uuids. -/
def disconnectEmulator (clientId : JsVal) : Svc Unit := do
  let emulator ← emulatorRepository.findReadable (fun s => clientId.bound.all s.takesText)
    fun _ e => clientId.selects (some e.device_id)
  match emulator with
  | some emulator =>
    let _ ← emulatorRepository.set clientId fun _ e => { e with status := .offline }
    restartConnection (some ((emulator.device_name.map Json.str).getD .null))
  | none =>
    let emulatorConnection ← emulatorConnectionsRepository.findReadable
      (fun s => clientId.bound.all s.readsId) fun t c =>
        clientId.selects ((t.accountEmulator? c.accountEmulators).bind AccountEmulators.account) &&
          c.disconnected_at.isNone
    if let some emulatorConnection := emulatorConnection then
      let _ ← emulatorConnectionsRepository.set (some (.str emulatorConnection.id)) fun x c =>
        { c with disconnected_at := some x.now }

def restart (deviceName : String) : Svc Unit := restartConnection (some (.str deviceName))

end EmulatorService

end Damaru
