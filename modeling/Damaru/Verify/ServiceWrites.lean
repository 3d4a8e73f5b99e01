import Damaru.Verify.Writes

/-!
# The writes of each service call

The kinds of statements that each call of the services issues, and from them
those of each request, message and login.
-/

namespace Damaru

open Async Table

variable {ks : List Kind}

/-! ## AccountsService -/

namespace AccountsService

theorem each_create {dto : CreateAccountDto} (h : Kind.newAccount ∈ ks) :
    (create dto).Each (Writes ks) := by
  have hrest : ∀ dto : CreateAccountDto, (do
      let draws ← random
      let account := { dto with
        pin := dto.pin.orElse (some (.str (StringUtils.generateRandomNumeric 5 draws))) }
      let id ← accountRepository.insert fun x s =>
        row (x.fresh s) account.account_name account.pin
          account.userId account.is_admin account.is_admin
      return (id, account) : Svc (String × CreateAccountDto)).Each (Writes ks) := fun dto =>
    (each_query (Writes.refl ks)).bind fun _ =>
      (Repository.each_insert (Writes.refl ks) fun x s a _ hi => .commit h hi (.newAccount a)).bind
        fun _ => trivial
  unfold create
  dsimp only
  split
  · refine (Repository.each_find (Writes.refl ks)).bind fun l => ?_
    split
    · exact trivial
    · exact hrest dto
  · exact hrest dto

theorem each_update {id : String} {dto : Json} {jwt : JwtToken} (h : Kind.accountFields ∈ ks) :
    (update id dto jwt).Each (Writes ks) := by
  have hset : ∀ f : Account → Account,
      (∀ a, (f a).id = a.id ∧ (f a).user = a.user ∧ (f a).is_admin = a.is_admin) →
      (do let _ ← accountRepository.set (some (.str id)) fun _ a => f a : Svc Unit).Each (Writes ks) :=
    fun f hf => (Repository.each_update (Writes.refl ks)
      (fun x s f' hf' hi => .commit h hi (.accountFields _ f' (by cases hf'; exact hf)))
      fun _ hi => .kept hi).bind fun _ => trivial
  unfold update findUserByAccount
  refine (Repository.each_findRow (Writes.refl ks)).bind fun found => ?_
  cases found with
  | none => exact trivial
  | some a =>
    dsimp only
    split
    · split
      · exact trivial
      · split
        · refine (Repository.each_findRow (Writes.refl ks)).bind fun taken => ?_
          split
          · exact trivial
          · exact hset _ fun _ => ⟨rfl, rfl, rfl⟩
        · exact hset _ fun _ => ⟨rfl, rfl, rfl⟩
    · exact trivial

theorem each_remove {id : String} {payload : JwtToken} (h : Kind.deleteAccount ∈ ks) :
    (remove id payload).Each (Writes ks) := by
  unfold remove findUserByAccount
  refine (Repository.each_findRow (Writes.refl ks)).bind fun found => ?_
  cases found with
  | none => exact trivial
  | some a =>
    dsimp only
    split
    · exact Repository.each_deleteById (Writes.refl ks) fun s hi => .commit h hi (.deleteAccount _)
    · exact trivial

theorem each_findAll {jwt : JwtToken} : (findAll jwt).Each (Writes ks) := by
  unfold findAll
  split
  · exact Repository.each_find (Writes.refl ks)
  · split <;> exact Repository.each_find (Writes.refl ks)

theorem each_findOne {id : String} {token : JwtToken} : (findOne id token).Each (Writes ks) := by
  have hdevices : ∀ details : Details, (do
      let items ← query fun x s =>
        details.devices.mapM (deviceItem s.platform.SCREENSHOT_URL x.now)
      return items.filterMap fun i => i : Svc (List DeviceItem)).Each (Writes ks) :=
    fun _ => (each_query (Writes.refl ks)).bind fun _ => trivial
  unfold findOne
  refine (each_query (Writes.refl ks)).bind fun details => ?_
  cases details with
  | none => exact trivial
  | some details =>
    dsimp only
    split
    · split
      · exact trivial
      · split
        · exact trivial
        · exact hdevices details
    · exact hdevices details

end AccountsService

/-! ## ActivityLogService -/

namespace ActivityLogService

theorem each_log {action metadata : JsVal} (h : Kind.activityLogs ∈ ks) :
    (log action metadata).Each (Writes ks) := by
  unfold log
  split
  · exact trivial
  · exact trivial
  · exact (Repository.each_insert (Writes.refl ks) fun x s a _ hi =>
      .commit h hi (.activityLogs _)).bind fun _ => trivial

theorem each_update {id : String} {log : Json} (h : Kind.activityLogs ∈ ks) :
    (update id log).Each (Writes ks) :=
  (Repository.each_update (Writes.refl ks) (fun _ _ _ _ hi => .commit h hi (.activityLogs _))
    fun _ hi => .kept hi).bind fun _ => trivial

theorem each_remove {id : String} (h : Kind.activityLogs ∈ ks) : (remove id).Each (Writes ks) := by
  refine Repository.each_deleteById (Writes.refl ks) fun s hi => ?_
  refine .commit h hi ?_
  have hsame : ∀ l, ({ s.tables with activityLogs := l } : Tables).cascade =
      { s.tables with activityLogs := l } := fun l =>
    Tables.References.cascade_eq ⟨s.integrity.role, s.integrity.account_user, s.integrity.link_user,
      s.integrity.link_device, s.integrity.account, s.integrity.link, s.integrity.assignment⟩
  exact hsame _ ▸ .activityLogs _

end ActivityLogService

/-! ## UsersService -/

namespace UsersService

theorem each_create {user : Json} (hl : Kind.activityLogs ∈ ks) (hu : Kind.newUser ∈ ks)
    (ha : Kind.newAccount ∈ ks) : (create user).Each (Writes ks) := by
  have hfind : ∀ (id : String) (p : JsVal), (do
      let created ← findOne id
      return (created, p) : Svc (Option (Users × List Account) × JsVal)).Each (Writes ks) :=
    fun _ _ => (each_query (Writes.refl ks)).bind fun _ => trivial
  unfold create
  dsimp only
  split
  · refine (Repository.each_findRow (Writes.refl ks)).bind fun role => ?_
    refine (each_query (Writes.refl ks)).bind fun draws => ?_
    refine Prog.Each.bind ?_ fun password => ?_
    · unfold HashUtils.hash
      split
      · exact each_query (Writes.refl ks)
      · exact trivial
    · cases role with
      | none => exact trivial
      | some role =>
        refine (Repository.each_insert (Writes.refl ks) fun x s a _ hi =>
          .commit hu hi (.newUser a)).bind fun id => ?_
        refine (ActivityLogService.each_log hl).bind fun _ => ?_
        split
        · refine (each_query (Writes.refl ks)).bind fun _ => ?_
          refine (AccountsService.each_create ha).bind fun _ => ?_
          exact (ActivityLogService.each_log hl).bind fun _ => hfind id _
        · exact hfind id _
  · exact trivial

theorem each_update {id : String} {user : Json} (hl : Kind.activityLogs ∈ ks)
    (hu : Kind.userFields ∈ ks) : (update id user).Each (Writes ks) := by
  have hset : ∀ password : Option String, (do
      ActivityLogService.log (some (.str Actions.UPDATE_USER.text))
        (some (.obj ([("password", password.map Json.str),
          ("name", (user.get? "name").filter Json.truthy),
          ("email", (user.get? "email").filter Json.truthy)].filterMap fun p =>
            p.2.map fun v => (p.1, v))))
      let _ ← usersRepository.set (some (.str id)) fun _ u =>
        { u with
          password := password.getD u.password
          name := (((user.get? "name").filter Json.truthy).bind Json.bound).getD u.name
          email := (((user.get? "email").filter Json.truthy).bind Json.bound).getD u.email } :
        Svc Unit).Each (Writes ks) := by
    intro password
    refine (ActivityLogService.each_log hl).bind fun _ => ?_
    exact (Repository.each_update (Writes.refl ks)
      (fun x s f hf hi => .commit hu hi (.userFields _ f (by cases hf; exact fun _ => ⟨rfl, rfl⟩)))
      fun _ hi => .kept hi).bind fun _ => trivial
  unfold update
  dsimp only
  split
  · exact trivial
  · split
    · exact trivial
    · split
      · exact hset none
      · refine Prog.Each.bind ?_ hset
        unfold HashUtils.hash
        split
        · exact each_query (Writes.refl ks)
        · exact trivial

theorem each_remove {id : String} (hl : Kind.activityLogs ∈ ks) (hs : Kind.state ∈ ks)
    (hu : Kind.deleteUser ∈ ks) : (remove id).Each (Writes ks) := by
  unfold remove
  refine (each_query (Writes.refl ks)).bind fun devices => ?_
  refine (ActivityLogService.each_log hl).bind fun _ => ?_
  refine (Prog.Each.forM (fun device => Prog.Each.detach ?_) _).bind fun _ => ?_
  · cases device with
    | none => exact trivial
    | some d =>
      exact (Repository.each_update (Writes.refl ks)
        (fun x s f hf hi => .commit hs hi (by cases hf; exact .state _ _))
        fun _ hi => .kept hi).bind fun _ => trivial
  · exact Repository.each_deleteById (Writes.refl ks) fun s hi => .commit hu hi (.deleteUser _)

theorem each_findAll : findAll.Each (Writes ks) := each_query (Writes.refl ks)

end UsersService

/-! ## EmulatorService -/

namespace EmulatorService

/-- A new device has the key that the body gives, and is available. -/
theorem row_fields {p : Platform} {emulator : Json} {e : Emulator} (h : row p emulator = .ok e) :
    (emulator.get? "device_id").bound = some e.device_id ∧ e.state = .AVAILABLE := by
  unfold row at h
  split at h
  · cases h
  · split at h
    · cases h
    · rename_i hid
      cases h
      exact ⟨hid, rfl⟩

theorem each_create {emulator : Json} (h : Kind.newEmulator ∈ ks) :
    (create emulator).Each (Writes ks) := by
  unfold create
  dsimp only
  split
  · exact trivial
  · refine (Repository.each_findRow (Writes.refl ks)).bind fun exist => ?_
    split
    · exact trivial
    · exact (Repository.each_insert (Writes.refl ks) fun x s e he hi =>
        .commit h hi (.newEmulator e (row_fields he).2)).bind fun _ => trivial

theorem columns_state {emulator : Json} (h : emulator.get? "state" = none)
    (e : Emulator) : (columns emulator e).state = e.state := by
  unfold columns
  rw [h]
  rfl

/-- The key that a body gives is the same for every device. -/
theorem columns_device_id (emulator : Json) :
    (∀ e, (columns emulator e).device_id = e.device_id) ∨
      ∃ d, ∀ e, (columns emulator e).device_id = d := by
  unfold columns
  cases (emulator.get? "device_id").bound with
  | none => exact .inl fun _ => rfl
  | some d => exact .inr ⟨d, fun _ => rfl⟩

theorem values_columns {p : Platform} {emulator : Json} {f : Emulator → Emulator}
    (h : values p emulator = .ok (some f)) : f = columns emulator := by
  unfold values at h
  split at h
  · cases h
  · split at h
    · split at h
      · cases h
      · split at h
        · cases h
        · exact (Option.some.inj (Except.ok.inj h)).symm
    · cases h

theorem forkFree_update (id : JsVal) (emulator : Json) (user : Option JwtToken) :
    (update id emulator user).ForkFree := by
  unfold update
  dsimp only
  split
  · split
    · refine Prog.forkFree_op.bind fun found => ?_
      split
      · exact trivial
      · exact Prog.forkFree_op.bind fun _ => trivial
    · exact Prog.forkFree_op.bind fun _ => trivial
  · exact Prog.forkFree_op.bind fun _ => trivial

theorem each_update {id : JsVal} {emulator : Json} {user : Option JwtToken}
    (h : Kind.columns emulator ∈ ks) : (update id emulator user).Each (Writes ks) := by
  have hset : (do
      let affected ← emulatorRepository.update id fun _ s => values s.platform emulator
      return decide (affected > 0) : Svc Bool).Each (Writes ks) :=
    (Repository.each_update (Writes.refl ks)
      (fun x s f hf hi => .commit h hi (by rw [values_columns hf]; exact .columns emulator _))
      fun _ hi => .kept hi).bind fun _ => trivial
  unfold update
  dsimp only
  split
  · split
    · refine (Repository.each_findRow (Writes.refl ks)).bind fun link => ?_
      split
      · exact trivial
      · exact hset
    · exact hset
  · exact hset

theorem each_findAll {jwt : JwtToken} : (findAll jwt).Each (Writes ks) :=
  (each_query (Writes.refl ks)).bind fun _ => each_query (Writes.refl ks)

theorem each_remove {id : String} (h : Kind.deleteEmulator ∈ ks) : (remove id).Each (Writes ks) :=
  Repository.each_deleteById (Writes.refl ks) fun _ hi => .commit h hi (.deleteEmulator _)

/-- A statement that sets columns of devices other than the key and the state. -/
theorem each_setFields {criterion : JsVal} {f : Ext → Emulator → Emulator}
    (hf : ∀ x e, (f x e).device_id = e.device_id ∧ (f x e).state = e.state)
    (h : Kind.emulatorFields ∈ ks) : (emulatorRepository.set criterion f).Each (Writes ks) :=
  Repository.each_update (Writes.refl ks)
    (fun x _ _ hf' hi => .commit h hi (.emulatorFields _ _ (by cases hf'; exact hf x)))
    fun _ hi => .kept hi

theorem each_setState {device_id : JsVal} {st : EmulatorState} (h : Kind.state ∈ ks) :
    (setState device_id st).Each (Writes ks) :=
  (Repository.each_update (Writes.refl ks)
    (fun _ _ _ hf hi => .commit h hi (by cases hf; exact .state _ st))
    fun _ hi => .kept hi).bind fun _ => trivial

/-- Deleting assignments takes with them their connections only. -/
theorem each_deleteAssignments {p : AccountEmulators → Bool} (h : Kind.assignments ∈ ks) :
    (accountEmulatorRepository.delete p).Each (Writes ks) := by
  refine Repository.each_delete (Writes.refl ks) fun s hi => .commit h hi ?_
  have hcascade := s.integrity.toReferences.cascade_accountEmulators
    (l := s.tables.accountEmulators.filter fun a => !p a) fun a ha => (List.mem_filter.1 ha).1
  exact hcascade ▸ .assignments _ _

theorem each_upsert {account : Option String} {userEmulator : String} (h : Kind.assignments ∈ ks) :
    (accountEmulatorRepository.upsert account userEmulator).Each (Writes ks) := by
  refine each_statement (Writes.refl ks) fun x s a t hf hi => .commit h hi ?_
  dsimp only at hf
  split at hf
  · cases hf
    exact .assignments _ _
  · cases hf
    exact .assignments _ _

theorem each_tryAssign {account : JsVal} {l : UserEmulators} (h : Kind.assignments ∈ ks) :
    (tryAssign account l).Each (Writes ks) := (each_upsert h).tryCatch fun _ => trivial

theorem each_tryUnassign {account : JsVal} {l : UserEmulators} {p : AccountEmulators → Bool}
    (h : Kind.assignments ∈ ks) : (tryUnassign account l p).Each (Writes ks) := by
  refine Prog.Each.tryCatch ?_ fun _ => trivial
  split
  · exact each_deleteAssignments h
  · exact trivial

/-- Looking up a link, and going on with it if there is one. -/
theorem each_withLink {R : Server → Server → Prop} (hrefl : ∀ s, R s s) {deviceId userId : JsVal}
    {g : UserEmulators → Svc Unit} (hg : ∀ l, (g l).Each R) :
    (do if let some userEmulator ← findUserEmulator deviceId userId then g userEmulator :
      Svc Unit).Each R := by
  refine (Repository.each_findRow hrefl).bind fun found => ?_
  cases found with
  | none => exact trivial
  | some l => exact hg l

theorem each_assignEmulatorsToAccount {dto : MultiDevicesAccountLinkDto} {user : JwtToken}
    (h : Kind.assignments ∈ ks) : (assignEmulatorsToAccount dto user).Each (Writes ks) := by
  unfold assignEmulatorsToAccount
  split
  · exact each_forOf fun _ => each_withLink (Writes.refl ks) fun _ => each_tryAssign h
  · exact trivial

theorem each_unassignEmulatorsToAccount {dto : MultiDevicesAccountLinkDto} {user : JwtToken}
    (h : Kind.assignments ∈ ks) : (unassignEmulatorsToAccount dto user).Each (Writes ks) := by
  unfold unassignEmulatorsToAccount
  split
  · exact each_forOf fun _ => each_withLink (Writes.refl ks) fun _ => each_tryUnassign h
  · exact trivial

theorem each_unassignEmulatorFromAccounts {dto : MultiAccountsLinkDto} (h : Kind.assignments ∈ ks) :
    (unassignEmulatorFromAccounts dto).Each (Writes ks) :=
  each_withLink (Writes.refl ks) fun _ => each_forOf fun _ => each_tryUnassign h

theorem each_assignEmulator {dto : MultiAccountsLinkDto} {user : JwtToken}
    (h : Kind.assignments ∈ ks) : (assignEmulator dto user).Each (Writes ks) := by
  unfold assignEmulator
  split
  · exact each_withLink (Writes.refl ks) fun _ => each_forOf fun _ => each_tryAssign h
  · exact trivial

theorem each_extend {dto : ExtendExpiryDto} (h : Kind.expiry ∈ ks) :
    (extend dto).Each (Writes ks) := by
  refine each_withLink (Writes.refl ks) fun l => ?_
  refine (Repository.each_update (Writes.refl ks) (fun x s f hf hi => .commit h hi ?_)
    fun _ hi => .kept hi).bind fun _ => trivial
  split at hf
  · cases hf
  · cases hf
    exact .expiry _ _

theorem each_linkDevice {userId device_id : JsVal} (hl : Kind.newLink ∈ ks)
    (ha : Kind.assignments ∈ ks) (hs : Kind.state ∈ ks) :
    (linkDevice userId device_id).Each (Writes ks) := by
  unfold linkDevice findEmulatorByDeviceId
  refine (Repository.each_findRow (Writes.refl ks)).bind fun found => ?_
  split
  · refine (Repository.each_insert (Writes.refl ks) fun x s l _ hi =>
      .commit hl hi (.newLink l)).bind fun link => ?_
    refine (Repository.each_findRow (Writes.refl ks)).bind fun root => ?_
    cases root with
    | none => exact trivial
    | some a =>
      exact (Repository.each_insert (Writes.refl ks) fun x s a _ hi =>
        .commit ha hi (.assignments _ _)).bind fun _ => each_setState hs
  · exact trivial

theorem each_linkEmulator {dto : MultiDevicesLinkDto} (hl : Kind.newLink ∈ ks)
    (ha : Kind.assignments ∈ ks) (hs : Kind.state ∈ ks) : (linkEmulator dto).Each (Writes ks) :=
  each_forOf fun _ => each_linkDevice hl ha hs

theorem each_unlinkEmulator {dto : MultiDevicesLinkDto} (hl : Kind.endLink ∈ ks)
    (ha : Kind.assignments ∈ ks) (hs : Kind.state ∈ ks) : (unlinkEmulator dto).Each (Writes ks) := by
  refine each_forOf fun device_id => ?_
  refine (Repository.each_findRow (Writes.refl ks)).bind fun found => ?_
  cases found with
  | none => exact trivial
  | some l =>
    refine (Repository.each_update (Writes.refl ks)
      (fun x s f hf hi => .commit hl hi (by cases hf; exact .endLink _ x.now))
      fun _ hi => .kept hi).bind fun _ => ?_
    exact (each_deleteAssignments ha).bind fun _ => each_setState hs

theorem each_linkScreenshot {deviceId : String} (h : Kind.saveEmulator ∈ ks) :
    (linkScreenshot deviceId).Each (Writes ks) := by
  unfold linkScreenshot save
  refine (each_query (Writes.refl ks)).bind fun found => ?_
  cases found with
  | none => exact trivial
  | some e =>
    refine Prog.Each.bind ?_ fun _ => trivial
    refine (Repository.each_findRow (Writes.refl ks)).bind fun reloaded => ?_
    cases reloaded with
    | none =>
      exact (Repository.each_insert (Writes.refl ks) fun x s e _ hi =>
        .commit h hi (.saveEmulator _)).bind fun _ => trivial
    | some old =>
      dsimp only
      split
      · exact Repository.each_write (Writes.refl ks) fun _ hi => .commit h hi (.saveEmulator _)
      · exact trivial

theorem each_findLinkedDevices {deviceId : JsVal} : (findLinkedDevices deviceId).Each (Writes ks) :=
  (Repository.each_find (Writes.refl ks)).bind fun _ =>
    (Prog.each_ofExcept _).bind fun _ => trivial

theorem each_connectionLog {accountId deviceId : JsVal} :
    (connectionLog accountId deviceId).Each (Writes ks) :=
  (Repository.each_find (Writes.refl ks)).bind fun _ => Prog.each_ofExcept _

theorem each_connectEmulator {clientId deviceId : JsVal} (h : Kind.connections ∈ ks) :
    (connectEmulator clientId deviceId).Each (Writes ks) := by
  refine (Repository.each_findRow (Writes.refl ks)).bind fun found => ?_
  cases found with
  | none => exact trivial
  | some a =>
    exact (Repository.each_insert (Writes.refl ks) fun x s c _ hi =>
      .commit h hi (.connections _)).bind fun _ => trivial

theorem each_restartConnection {deviceName : JsVal} (h : Kind.emissions ∈ ks) :
    (restartConnection deviceName).Each (Writes ks) :=
  each_sync fun _ => ⟨.inl rfl, .inl rfl, _, rfl, .inr h⟩

theorem each_disconnectEmulator {clientId : JsVal} (he : Kind.emulatorFields ∈ ks)
    (hc : Kind.connections ∈ ks) (hr : Kind.emissions ∈ ks) :
    (disconnectEmulator clientId).Each (Writes ks) := by
  refine (Repository.each_findReadable (Writes.refl ks)).bind fun found => ?_
  cases found with
  | some e =>
    exact Prog.Each.bind (each_setFields (fun _ _ => ⟨rfl, rfl⟩) he) fun _ =>
      each_restartConnection hr
  | none =>
    refine (Repository.each_findReadable (Writes.refl ks)).bind fun connection => ?_
    cases connection with
    | none => exact trivial
    | some c =>
      exact (Repository.each_update (Writes.refl ks)
        (fun _ _ _ _ hi => .commit hc hi (.connections _)) fun _ hi => .kept hi).bind fun _ => trivial

end EmulatorService

end Damaru
