import Damaru.Server
import Damaru.Table.Rows

/-!
# Repositories

The calls of the ORM's repositories that the services make. A `where` is a
predicate on a row and on the tables it joins; `relations` is what the query
returns for a row. `update` refuses an empty criterion before it reaches the
database, and `delete` takes with the rows what refers to them.
-/

namespace Damaru

open Async Table

variable {α β : Type}

/-- A table as a repository sees it. -/
structure Repository (α : Type) where
  rows : Tables → List α
  put : List α → Tables → Tables
  key : α → String

def roleRepository : Repository Role := ⟨Tables.roles, fun l t => { t with roles := l }, Role.id⟩

def usersRepository : Repository Users := ⟨Tables.users, fun l t => { t with users := l }, Users.id⟩

def accountRepository : Repository Account :=
  ⟨Tables.accounts, fun l t => { t with accounts := l }, Account.id⟩

def emulatorRepository : Repository Emulator :=
  ⟨Tables.emulators, fun l t => { t with emulators := l }, Emulator.device_id⟩

def userEmulatorRepository : Repository UserEmulators :=
  ⟨Tables.userEmulators, fun l t => { t with userEmulators := l }, UserEmulators.id⟩

def accountEmulatorRepository : Repository AccountEmulators :=
  ⟨Tables.accountEmulators, fun l t => { t with accountEmulators := l }, AccountEmulators.id⟩

def emulatorConnectionsRepository : Repository EmulatorConnections :=
  ⟨Tables.emulatorConnections, fun l t => { t with emulatorConnections := l },
    EmulatorConnections.id⟩

def activityLogRepository : Repository ActivityLog :=
  ⟨Tables.activityLogs, fun l t => { t with activityLogs := l }, ActivityLog.id⟩

/-- The criteria that `update` and `delete` refuse. -/
def emptyCriterion : JsVal → Bool
  | none => true
  | some .null => true
  | some (.str s) => s = ""
  | some (.arr l) => l.isEmpty
  | _ => false

/-- Whether a criterion selects the row with this key. -/
def selected (x : Ext) : JsVal → String → Bool
  | some (.str s), k => k = s
  | some (.int n), k => k = toString n
  | some (.frac t), k => k = t
  | _, k => x.criterion k

@[simp] theorem selected_str {x : Ext} {s k : String} :
    selected x (some (.str s)) k = true ↔ k = s := by simp [selected]

namespace Repository

variable (repo : Repository α)

/-- The rows that `p` selects, in the order of the scan. -/
def scan (p : Tables → α → Bool) (x : Ext) (t : Tables) : List α :=
  Table.scan x.rank repo.key ((repo.rows t).filter (p t))

variable {repo} in
theorem mem_scan {p : Tables → α → Bool} {x : Ext} {t : Tables} {a : α} :
    a ∈ repo.scan p x t ↔ a ∈ repo.rows t ∧ p t a = true := by
  unfold Repository.scan
  rw [Table.mem_scan, List.mem_filter]

variable {repo} in
/-- The row that an unordered `findOne` returns is one that it selects. -/
theorem of_scan_head {p : Tables → α → Bool} {x : Ext} {t : Tables} {a : α}
    (h : (repo.scan p x t).head? = some a) : a ∈ repo.rows t ∧ p t a = true :=
  mem_scan.1 (List.mem_of_mem_head? h)

variable {repo} in
theorem scan_head_none {p : Tables → α → Bool} {x : Ext} {t : Tables}
    (h : (repo.scan p x t).head? = none) {a : α} (ha : a ∈ repo.rows t) : p t a = false := by
  unfold Repository.scan at h
  rw [Table.scan_head_eq_none, List.filter_eq_nil_iff] at h
  exact Bool.eq_false_iff.2 (h a ha)

variable {repo} in
/-- An unordered `findOne` can return any row that it selects. -/
theorem exists_scan_head {p : Tables → α → Bool} {t : Tables}
    (hkey : ((repo.rows t).map repo.key).Nodup) {a : α} (ha : a ∈ repo.rows t) (hp : p t a = true)
    (x : Ext) : ∃ rank, (repo.scan p { x with rank } t).head? = some a :=
  Table.exists_scan_head (nodup_map_sublist hkey List.filter_sublist) (List.mem_filter.2 ⟨ha, hp⟩)

def find (p : Tables → α → Bool) (relations : Tables → α → β) : Svc (List β) :=
  query fun x s => .ok ((repo.scan p x s.tables).map (relations s.tables))

def findOne (p : Tables → α → Bool) (relations : Tables → α → β) : Svc (Option β) :=
  query fun x s => .ok ((repo.scan p x s.tables).head?.map (relations s.tables))

/-- A `findOne` that loads no relation. -/
def findRow (p : Tables → α → Bool) : Svc (Option α) := repo.findOne p fun _ a => a

/-- A `findRow` with a value in its condition that the database may not be able
to read. -/
def findReadable (readable : Server → Bool) (p : Tables → α → Bool) : Svc (Option α) :=
  query fun x s => if readable s then .ok (repo.scan p x s.tables).head? else .error .query

/-- Inserts one row and answers its key. -/
def insert (values : Ext → Server → Except Rejection α) : Svc String :=
  statement fun x s =>
    match values x s with
    | .error e => .error e
    | .ok a => .ok (repo.key a, repo.put (repo.rows s.tables ++ [a]) s.tables)

/-- Updates the selected rows and answers how many there are. `fields` is
`none` when it sets a column to null that must not be null. -/
def update (criterion : JsVal) (fields : Ext → Server → Except Rejection (Option (α → α))) :
    Svc Nat :=
  statement fun x s =>
    if emptyCriterion criterion then
      .error (.library "Empty criteria(s) are not allowed for the update method.")
    else
      let sel := fun a => selected x criterion (repo.key a)
      let affected := (repo.rows s.tables).countP sel
      match fields x s with
      | .error e => .error e
      | .ok none => if affected = 0 then .ok (0, s.tables) else .error .query
      | .ok (some f) => .ok (affected, repo.put (updateWhere sel f (repo.rows s.tables)) s.tables)

/-- An update that sets columns to values they can hold. -/
def set (criterion : JsVal) (f : Ext → α → α) : Svc Nat :=
  repo.update criterion fun x _ => .ok (some (f x))

theorem set_str {k : String} {f : Ext → α → α} : repo.set (some (.str k)) f = statement fun x s =>
    if k = "" then .error (.library "Empty criteria(s) are not allowed for the update method.")
    else .ok ((repo.rows s.tables).countP (fun a => decide (repo.key a = k)),
      repo.put (updateWhere (fun a => decide (repo.key a = k)) (f x) (repo.rows s.tables)) s.tables) := by
  unfold Repository.set Repository.update
  refine congrArg statement (funext fun x => funext fun s => ?_)
  simp [emptyCriterion, selected]

/-- The update that `save` makes of the row with a key, which may be empty. -/
def write (k : String) (f : α → α) : Svc Unit :=
  statement fun _ s =>
    .ok ((), repo.put (updateWhere (fun a => decide (repo.key a = k)) f (repo.rows s.tables)) s.tables)

/-- Deletes the selected rows and what refers to them. -/
def delete (p : α → Bool) : Svc Unit :=
  statement fun _ s =>
    .ok ((), (repo.put ((repo.rows s.tables).filter fun a => !p a) s.tables).cascade)

/-- `delete(id)`. -/
def deleteById (id : String) : Svc Unit :=
  if id = "" then throw (.library "Empty criteria(s) are not allowed for the delete method.")
  else repo.delete fun a => repo.key a = id

end Repository

/-- Inserts an assignment of `account` to the link `userEmulator`, or makes
the one that holds the pair ACTIVE. A null never holds a pair. -/
def accountEmulatorRepository.upsert (account : Option String) (userEmulator : String) : Svc Unit :=
  statement fun x s =>
    let t := s.tables
    let p := fun a : AccountEmulators =>
      account.isSome && (a.account = account && a.userEmulator = some userEmulator)
    if t.accountEmulators.any p then
      .ok ((), { t with
        accountEmulators := updateWhere p (fun a => { a with status := .ACTIVE }) t.accountEmulators })
    else
      let id := x.fresh s
      .ok ((), { t with
        accountEmulators := t.accountEmulators ++ [⟨id, account, some userEmulator, .ACTIVE⟩] })

end Damaru
