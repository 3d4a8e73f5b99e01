import Damaru.Async.Clean
import Damaru.Verify.EventWrites

/-!
# Requests that are rejected

A request that writes with one statement, or catches the failures of those that
it makes, is rejected without a trace, whatever others write between its steps.
Those that can leave a part of their work behind are the ones on users, the
linking and unlinking of devices, the assigning and unassigning of several devices
at once or of accounts that are not given as texts, and an upload that carries no
file.
-/

namespace Damaru

open Async Table

/-- Nothing at all is changed. -/
def Unchanged (s s' : Server) : Prop := s' = s

/-- An account of the list is not given as a text. -/
def ListsOther (dto : Json) : Prop :=
  ∃ accounts, (dto.get? "accountIds").iterate = some accounts ∧ ∃ j ∈ accounts, ∀ t, j ≠ .str t

/-- The requests that can fail after a first statement. A list of devices is looked
up one by one, outside the `try` around each change, and the line that a failed
change of an account prints can itself fail on an object. An upload reads its file
after it has saved the link to the screenshot. -/
def HttpRequest.Composite : HttpRequest → Prop
  | users_create _ => True
  | users_update _ _ => True
  | users_delete _ => True
  | emulators_linkEmulator _ => True
  | emulators_unlinkEmulator _ => True
  | emulators_assignEmulatorsToAccount _ => True
  | emulators_unAssignEmulatorsToAccount _ => True
  | emulators_assignEmulator dto => ListsOther dto
  | emulators_unAssignEmulatorFromAccounts dto => ListsOther dto
  | emulators_uploadFile _ none => True
  | _ => False

/-! ## Calls -/

section Calls

variable {α β : Type}

theorem clean_query {f : Ext → Server → Except Rejection α} : (query f).Clean Unchanged :=
  Prog.clean_op fun _ _ => .inr rfl

theorem clean_query_bind {f : Ext → Server → Except Rejection α} {g : α → Svc β}
    (hg : ∀ a, (g a).Clean Unchanged) : (query f >>= g).Clean Unchanged :=
  Prog.Clean.bind_of_each (each_query (R := Unchanged) fun _ => rfl) forkFree_query hg

/-- A statement that is not committed leaves everything. -/
theorem clean_statement {f : Ext → Server → Except Rejection (α × Tables)} :
    (statement f).Clean Unchanged := by
  refine Prog.clean_op fun x s => ?_
  split
  · exact .inr rfl
  · split
    · exact .inl ⟨_, rfl⟩
    · exact .inr rfl

/-- A statement whose answer is all that is left to give. -/
theorem clean_statement_bind {f : Ext → Server → Except Rejection (α × Tables)} {g : α → β} :
    (statement f >>= fun a => pure (g a)).Clean Unchanged := clean_statement.bind fun _ => trivial

theorem clean_reading {property : String} {body : Json} {k : Svc DamaruResponse}
    (hk : k.Clean Unchanged) : (HttpRequest.reading property body k).Clean Unchanged := by
  unfold HttpRequest.reading
  split
  · exact trivial
  · exact hk

/-- A loop whose turns are never rejected. -/
theorem clean_forOf {what : String} {v : JsVal} {body : JsVal → Svc Unit} (h : ∀ j, (body j).Safe) :
    (forOf what v body).Clean Unchanged := by
  unfold forOf
  split
  · exact trivial
  · exact Prog.Safe.clean (Prog.Safe.forM (fun j => h (some j)) _)

theorem clean_deleteById {repo : Repository α} {id : String} : (repo.deleteById id).Clean Unchanged := by
  unfold Repository.deleteById
  split
  · exact trivial
  · exact clean_statement

end Calls

/-! ## AccountsService -/

namespace AccountsService

theorem clean_create (dto : CreateAccountDto) : (create dto).Clean Unchanged := by
  have hinsert : ∀ dto : CreateAccountDto, (do
      let draws ← random
      let account := { dto with
        pin := dto.pin.orElse (some (.str (StringUtils.generateRandomNumeric 5 draws))) }
      let id ← accountRepository.insert fun x s =>
        row (x.fresh s) account.account_name account.pin
          account.userId account.is_admin account.is_admin
      return (id, account) : Svc (String × CreateAccountDto)).Clean Unchanged := fun dto =>
    clean_query_bind fun _ => clean_statement_bind
  unfold create
  dsimp only
  split
  · refine clean_query_bind fun l => ?_
    split
    · exact trivial
    · exact hinsert dto
  · exact hinsert dto

theorem clean_update (id : String) (dto : Json) (jwt : JwtToken) : (update id dto jwt).Clean Unchanged := by
  unfold update findUserByAccount
  refine clean_query_bind fun found => ?_
  cases found with
  | none => exact trivial
  | some a =>
    dsimp only
    split
    · split
      · exact trivial
      · split
        · refine clean_query_bind fun taken => ?_
          split
          · exact trivial
          · exact clean_statement_bind
        · exact clean_statement_bind
    · exact trivial

theorem clean_remove (id : String) (payload : JwtToken) : (remove id payload).Clean Unchanged := by
  unfold remove findUserByAccount
  refine clean_query_bind fun found => ?_
  cases found with
  | none => exact trivial
  | some a =>
    dsimp only
    split
    · exact clean_deleteById
    · exact trivial

theorem clean_findAll (jwt : JwtToken) : (findAll jwt).Clean Unchanged := by
  unfold findAll
  split
  · exact clean_query
  · split <;> exact clean_query

theorem clean_findOne (id : String) (token : JwtToken) : (findOne id token).Clean Unchanged := by
  have hitems : ∀ details : Details, (do
      let items ← query fun x s =>
        details.devices.mapM (deviceItem s.platform.SCREENSHOT_URL x.now)
      return items.filterMap fun i => i : Svc (List DeviceItem)).Clean Unchanged :=
    fun _ => clean_query_bind fun _ => trivial
  unfold findOne
  refine clean_query_bind fun details => ?_
  cases details with
  | none => exact trivial
  | some details =>
    dsimp only
    split
    · split
      · exact trivial
      · split
        · exact trivial
        · exact hitems details
    · exact hitems details

end AccountsService

/-! ## ActivityLogService -/

theorem ActivityLogService.clean_log (action metadata : JsVal) : (log action metadata).Clean Unchanged := by
  unfold log
  split
  · exact trivial
  · exact trivial
  · exact clean_statement_bind

/-! ## EmulatorService -/

namespace EmulatorService

theorem clean_create (emulator : Json) : (create emulator).Clean Unchanged := by
  unfold create
  dsimp only
  split
  · exact trivial
  · refine clean_query_bind fun exist => ?_
    split
    · exact trivial
    · exact clean_statement_bind

theorem clean_update (id : JsVal) (emulator : Json) (user : Option JwtToken) :
    (update id emulator user).Clean Unchanged := by
  unfold update
  dsimp only
  split
  · split
    · refine clean_query_bind fun link => ?_
      split
      · exact trivial
      · exact clean_statement_bind
    · exact clean_statement_bind
  · exact clean_statement_bind

theorem clean_linkScreenshot (deviceId : String) : (linkScreenshot deviceId).Clean Unchanged := by
  unfold linkScreenshot save
  refine clean_query_bind fun found => ?_
  cases found with
  | none => exact trivial
  | some e =>
    refine Prog.Clean.bind (clean_query_bind fun reloaded => ?_) fun _ => trivial
    cases reloaded with
    | none => exact clean_statement_bind
    | some old =>
      dsimp only
      split
      · exact clean_statement
      · exact trivial

/-- Looking up a link, and going on with it. -/
theorem clean_findUserEmulator {deviceId userId : JsVal} {g : UserEmulators → Svc Unit}
    (hg : ∀ l, (g l).Clean Unchanged) :
    (do if let some userEmulator ← findUserEmulator deviceId userId then g userEmulator :
      Svc Unit).Clean Unchanged := by
  refine clean_query_bind fun found => ?_
  cases found with
  | none => exact trivial
  | some l => exact hg l

theorem safe_tryAssign (account : JsVal) (l : UserEmulators) : (tryAssign account l).Safe :=
  Prog.safe_tryCatch forkFree_statement fun _ => trivial

theorem safe_tryUnassign (account : JsVal) (l : UserEmulators) (p : AccountEmulators → Bool) :
    (tryUnassign account l p).Safe := by
  refine Prog.safe_tryCatch ?_ fun _ => trivial
  split
  · exact forkFree_statement
  · exact trivial

theorem clean_unassignEmulatorFromAccounts (dto : MultiAccountsLinkDto) :
    (unassignEmulatorFromAccounts dto).Clean Unchanged :=
  clean_findUserEmulator fun l => clean_forOf fun _ => safe_tryUnassign _ l _

theorem clean_assignEmulator (dto : MultiAccountsLinkDto) (user : JwtToken) :
    (assignEmulator dto user).Clean Unchanged := by
  unfold assignEmulator
  split
  · exact clean_findUserEmulator fun l => clean_forOf fun _ => safe_tryAssign _ l
  · exact trivial

theorem clean_extend (dto : ExtendExpiryDto) : (extend dto).Clean Unchanged :=
  clean_findUserEmulator fun _ => clean_statement_bind

theorem clean_findAll (jwt : JwtToken) : (findAll jwt).Clean Unchanged :=
  clean_query_bind fun _ => clean_query

theorem clean_findLinkedDevices (deviceId : JsVal) : (findLinkedDevices deviceId).Clean Unchanged :=
  clean_query_bind fun _ => Prog.Clean.bind (Prog.clean_ofExcept _) fun _ => trivial

theorem clean_connectionLog (accountId deviceId : JsVal) : (connectionLog accountId deviceId).Clean Unchanged :=
  clean_query_bind fun _ => Prog.clean_ofExcept _

end EmulatorService

/-! ## Requests -/

namespace HttpRequest

theorem clean_run {req : HttpRequest} (h : ¬ req.Composite) (user : JwtToken) :
    (req.run user).Clean Unchanged := by
  cases req with
  | users_findAll => exact clean_query_bind fun _ => trivial
  | users_create dto => exact absurd trivial h
  | users_update id dto => exact absurd trivial h
  | users_delete id => exact absurd trivial h
  | accounts_findAll => exact (AccountsService.clean_findAll user).bind fun _ => trivial
  | accounts_findOne id => exact (AccountsService.clean_findOne id user).bind fun _ => trivial
  | accounts_create dto => exact (AccountsService.clean_create _).bind fun _ => trivial
  | accounts_update id dto => exact (AccountsService.clean_update id dto user).bind fun _ => trivial
  | accounts_delete id => exact (AccountsService.clean_remove id user).bind fun _ => trivial
  | emulators_findAll => exact (EmulatorService.clean_findAll user).bind fun _ => trivial
  | emulators_findLinkAccounts d => exact (EmulatorService.clean_findLinkedDevices d).bind fun _ => trivial
  | emulators_create dto =>
    refine (EmulatorService.clean_create dto).bind fun added => ?_
    split <;> exact trivial
  | emulators_uploadFile d file =>
    cases file with
    | none => exact absurd trivial h
    | some file => exact (EmulatorService.clean_linkScreenshot d).bind fun _ => trivial
  | emulators_update id dto =>
    refine (EmulatorService.clean_update _ dto _).bind fun updated => ?_
    split <;> exact trivial
  | emulators_delete id => exact clean_deleteById.bind fun _ => trivial
  | emulators_linkEmulator dto => exact absurd trivial h
  | emulators_unlinkEmulator dto => exact absurd trivial h
  | emulators_extendExpiry dto =>
    exact clean_reading ((EmulatorService.clean_extend _).bind fun _ => trivial)
  | emulators_connectionLog a d => exact (EmulatorService.clean_connectionLog a d).bind fun _ => trivial
  | emulators_assignEmulator dto =>
    exact clean_reading ((EmulatorService.clean_assignEmulator _ user).bind fun _ => trivial)
  | emulators_assignEmulatorsToAccount dto => exact absurd trivial h
  | emulators_unAssignEmulatorsToAccount dto => exact absurd trivial h
  | emulators_restartEmulator d =>
    exact Prog.Safe.clean (Prog.Safe.bind (Prog.safe_op fun x s => ⟨_, rfl⟩) fun _ => trivial)
  | emulators_unAssignEmulatorFromAccounts dto =>
    exact clean_reading ((EmulatorService.clean_unassignEmulatorFromAccounts _).bind fun _ => trivial)
  | activityLogs_findAll => exact clean_query_bind fun _ => trivial
  | activityLogs_create dto =>
    exact clean_reading ((ActivityLogService.clean_log _ _).bind fun _ => trivial)
  | activityLogs_update id dto =>
    exact Prog.Clean.bind clean_statement_bind fun _ => trivial
  | activityLogs_delete id => exact clean_deleteById.bind fun _ => trivial
  | auth_check => exact trivial

theorem clean_handle {req : HttpRequest} (h : ¬ req.Composite) (user : JwtToken) :
    (req.handle user).Clean Unchanged := by
  cases hadmits : req.admits user with
  | true =>
    rw [handle_of_admits hadmits]
    exact clean_run h user
  | false =>
    rw [handle_of_not_admits hadmits]
    exact trivial

/-- **Rejected without a trace.** A request that is rejected has changed nothing
in any of its steps, whatever others have done between them, unless it creates,
changes or deletes a user, links or unlinks devices, assigns or unassigns a list of
devices or accounts that are no texts, or uploads no file. -/
theorem rejected_unchanged {req : HttpRequest} (h : ¬ req.Composite) (user : JwtToken) :
    (∀ l e, (req.handle user).Takes l (.error e) → ∀ y ∈ l, y.2 = y.1) ∧
      ∀ s e s', (req.handle user).Ends s (.error e) s' → s' = s :=
  ⟨fun _ _ htakes => (clean_handle h user).of_takes htakes,
    fun _ _ _ hends => (clean_handle h user).of_ends (fun _ => rfl) (fun _ _ _ h h' => h'.trans h) hends⟩

end HttpRequest

/-- Another root account. -/
def Sample.secondRoot : HttpRequest :=
  .accounts_create (.obj [("account_name", .str "two"), ("is_admin", .bool true)])

/-- A second root account is refused after a look at the accounts. -/
theorem rejected_unchanged_sample : ∃ l e, l ≠ [] ∧
    (Sample.secondRoot.handle (Sample.androidAdmin "u" "u-root")).Takes l (.error e) ∧ ∀ y ∈ l, y.2 = y.1 := by
  have hrun : ((Sample.secondRoot.handle (Sample.androidAdmin "u" "u-root")).run [Sample.input ""]
      Sample.server).any (fun o => o.1.toOption.isNone) = true := by decide +kernel
  obtain ⟨⟨r, s'⟩, ho, hr⟩ := (Option.any_eq_true _ _).1 hrun
  have hcomposite : ¬ Sample.secondRoot.Composite := not_false
  cases r with
  | ok a => cases hr
  | error e =>
    obtain ⟨l, htakes⟩ := (Prog.ends_of_run ho).takes
    refine ⟨l, e, ?_, htakes, (HttpRequest.rejected_unchanged hcomposite _).1 l e htakes⟩
    rintro rfl
    cases htakes

end Damaru
