import Damaru.Async.Listing
import Damaru.Verify.EventWrites

/-!
# Who reads whose rows

What a response shows belongs to the user of the token where the query filters
by the token. Three queries do not: the accounts that a device is linked to,
the connection log and the activity log are the same for every Android admin.
The details of an account are checked against the token, but list the devices
of whatever links the account has been assigned to.
-/

namespace Damaru

open Async Table

/-- The device is actively linked to the user. -/
def Tables.LinkedTo (t : Tables) (u d : String) : Prop :=
  ∃ l ∈ t.userEmulators, l.active = true ∧ l.device = some d ∧ l.user = some u

namespace Tables

variable {t : Tables}

theorem account?_mem {k : Option String} {a : Account} (h : t.account? k = some a) :
    a ∈ t.accounts ∧ k = some a.id := by
  obtain ⟨i, rfl, hfind⟩ := Option.bind_eq_some_iff.1 h
  have hid := List.find?_some hfind
  exact ⟨List.mem_of_find?_eq_some hfind, congrArg some (of_decide_eq_true hid).symm⟩

theorem userEmulator?_mem {k : Option String} {l : UserEmulators} (h : t.userEmulator? k = some l) :
    l ∈ t.userEmulators ∧ k = some l.id := by
  obtain ⟨i, rfl, hfind⟩ := Option.bind_eq_some_iff.1 h
  have hid := List.find?_some hfind
  exact ⟨List.mem_of_find?_eq_some hfind, congrArg some (of_decide_eq_true hid).symm⟩

end Tables

/-! ## The listings -/

theorem Repository.ends_find {α β : Type} {repo : Repository α} {p : Tables → α → Bool}
    {relations : Tables → α → β} {s s' : Server} {l : List β} :
    (repo.find p relations).Ends s (.ok l) s' ↔
      s' = s ∧ ∃ x, (repo.scan p x s.tables).map (relations s.tables) = l := by
  unfold Repository.find
  rw [ends_query]
  exact and_congr_right fun _ => exists_congr fun x => by rw [Except.ok.injEq]

namespace EmulatorService

/-- The assignments that the accounts linked to a device are read from. -/
def linkedTo (deviceId : JsVal) (t : Tables) (a : AccountEmulators) : Bool :=
  (t.userEmulator? a.userEmulator).all UserEmulators.active &&
    deviceId.selects ((t.userEmulator? a.userEmulator).bind UserEmulators.device)

/-- The connections that the log is read from. -/
def connectedTo (accountId deviceId : JsVal) (t : Tables) (c : EmulatorConnections) : Bool :=
  let a := t.accountEmulator? c.accountEmulators
  accountId.selects (a.bind AccountEmulators.account) &&
    deviceId.selects (a.bind fun a => (t.userEmulator? a.userEmulator).bind UserEmulators.device)

theorem connectionLog_lists (accountId deviceId : JsVal) (s : Server) :
    Lists (connectionLog accountId deviceId) s
      (fun c => c ∈ s.tables.emulatorConnections ∧ connectedTo accountId deviceId s.tables c = true)
      fun _ c => ((LoadedConnection.of s.tables c).templates.map fun l =>
        (LoadedConnection.of s.tables c, l)).map some := by
  refine .of_ends
    (fun x => emulatorConnectionsRepository.scan (connectedTo accountId deviceId) x s.tables)
    (fun x a => Repository.mem_scan) fun l s' => ?_
  unfold connectionLog ofResult
  simp only [Prog.ends_ok_bind, Repository.ends_find, Prog.ends_ofExcept]
  constructor
  · rintro ⟨_, _, ⟨rfl, x, rfl⟩, hl, rfl⟩
    rw [List.mapM_map] at hl
    exact ⟨rfl, x, x, mapM_some.1 hl.symm⟩
  · rintro ⟨rfl, y, x, hl⟩
    refine ⟨_, s', ⟨rfl, y, rfl⟩, ?_, rfl⟩
    rw [List.mapM_map]
    exact (mapM_some.2 hl).symm

end EmulatorService

namespace AccountsService

end AccountsService

namespace EmulatorService

end EmulatorService

/-! ## What a request shows -/

namespace Tables

variable {t : Tables}

/-- The connection's account and device are still there. -/
def Complete (t : Tables) (c : EmulatorConnections) : Prop :=
  ∃ a x l e, t.accountEmulator? c.accountEmulators = some a ∧ t.account? a.account = some x ∧
    t.userEmulator? a.userEmulator = some l ∧ t.emulator? l.device = some e

end Tables

namespace HttpRequest

/-- What the request lists belongs to the user `u`: every active link of the
account's assignments is of a device that is linked to `u`, every ordinary
account that the device is linked to is `u`'s, and so is the account of every
connection, or the action of every entry of the activity log. A list with a
row that has lost its account, link or device is not shown at all. -/
def Confined (t : Tables) (actor : ActivityLog → Option String) (u : String) : HttpRequest → Prop
  | accounts_findOne id => (∃ a ∈ t.accounts, a.id = id ∧ a.user = some u) →
    (∃ d ∈ t.accountEmulators, d.account = some id ∧ (t.userEmulator? d.userEmulator = none ∨
      ∃ l, t.userEmulator? d.userEmulator = some l ∧ l.active = true ∧ t.emulator? l.device = none)) ∨
    ∀ d ∈ t.accountEmulators, d.account = some id → ∀ l, t.userEmulator? d.userEmulator = some l →
      l.active = true → ∀ e, t.emulator? l.device = some e → t.LinkedTo u e.device_id
  | emulators_findLinkAccounts deviceId =>
    (∃ a ∈ t.accountEmulators, EmulatorService.linkedTo deviceId t a = true ∧
      t.account? a.account = none) ∨
    ∀ a ∈ t.accountEmulators, EmulatorService.linkedTo deviceId t a = true →
      ∀ x, t.account? a.account = some x → x.is_admin = true ∨ x.user = some u
  | emulators_connectionLog accountId deviceId =>
    (∃ c ∈ t.emulatorConnections, EmulatorService.connectedTo accountId deviceId t c = true ∧
      ¬ t.Complete c) ∨
    ∀ c ∈ t.emulatorConnections, EmulatorService.connectedTo accountId deviceId t c = true →
      ∀ a, t.accountEmulator? c.accountEmulators = some a →
        ∀ x, t.account? a.account = some x → x.user = some u
  | activityLogs_findAll => ∀ e ∈ t.activityLogs, actor e = some u
  | _ => True

end HttpRequest

section Endpoints

variable {actor : ActivityLog → Option String} {u : String}

end Endpoints

end Damaru
