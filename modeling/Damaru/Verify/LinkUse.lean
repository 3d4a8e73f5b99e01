import Damaru.System
import Damaru.Verify.AssignmentSpecs
import Damaru.Verify.Operations

/-!
# Acting on the active link

Unlinking keeps the row of a link, so a user can own several rows of one
device, and only one of them is active. The assignment endpoints and the
extension look a row up by the user and the device alone. They act on the
active link exactly if no other row is there to be found, or finding it makes
no difference.
-/

namespace Damaru

open Async Table

namespace Tables

/-- A link of the user to the device, active or not. -/
def LinkOf (t : Tables) (userId deviceId : String) (l : UserEmulators) : Prop :=
  l ∈ t.userEmulators ∧ l.user = some userId ∧ l.device = some deviceId

/-- The account is assigned to the link. -/
def Assigned (t : Tables) (account : String) (l : UserEmulators) : Prop :=
  ∃ a ∈ t.accountEmulators, a.account = some account ∧ a.userEmulator = some l.id

end Tables

/-- A call of one of the assignment endpoints, or of the extension. -/
inductive LinkUse where
  | assignEmulatorsToAccount (userId accountId : String) (deviceIds : List String) (user : JwtToken)
  | unassignEmulatorsToAccount (userId accountId : String) (deviceIds : List String) (user : JwtToken)
  | unassignEmulatorFromAccounts (userId deviceId : String) (accountIds : List String)
  | assignEmulator (userId deviceId : String) (accountIds : List String) (user : JwtToken)
  | extend (userId deviceId : String) (days : JsVal)

namespace LinkUse

def userId : LinkUse → String
  | assignEmulatorsToAccount userId _ _ _ => userId
  | unassignEmulatorsToAccount userId _ _ _ => userId
  | unassignEmulatorFromAccounts userId _ _ => userId
  | assignEmulator userId _ _ _ => userId
  | extend userId _ _ => userId

def deviceIds : LinkUse → List String
  | assignEmulatorsToAccount _ _ deviceIds _ => deviceIds
  | unassignEmulatorsToAccount _ _ deviceIds _ => deviceIds
  | unassignEmulatorFromAccounts _ deviceId _ => [deviceId]
  | assignEmulator _ deviceId _ _ => [deviceId]
  | extend _ deviceId _ => [deviceId]

/-- The token may act for the user; two of the calls do not see one. -/
def Authorised : LinkUse → Prop
  | assignEmulatorsToAccount userId _ _ user => user.role = .SuperAdmin ∨ userId = user.sub
  | unassignEmulatorsToAccount userId _ _ user => user.role = .SuperAdmin ∨ userId = user.sub
  | unassignEmulatorFromAccounts _ _ _ => True
  | assignEmulator userId _ _ user => user.role = .SuperAdmin ∨ userId = user.sub
  | extend _ _ _ => True

/-! ## What the calls should do -/

/-- Every account that exists is assigned to the link. -/
def AssignsTo (accountIds : List String) (s s' : Server) (l : UserEmulators) : Prop :=
  ∀ a ∈ accountIds, a ∈ s.tables.accounts.map Account.id → s'.tables.Assigned a l

/-- No account is assigned to the link. -/
def UnassignsFrom (accountIds : List String) (s' : Server) (l : UserEmulators) : Prop :=
  ∀ a ∈ accountIds, ¬ s'.tables.Assigned a l

/-- The call has done to the active link what it is for. -/
def Done (s s' : Server) (l : UserEmulators) : LinkUse → Prop
  | assignEmulatorsToAccount _ accountId _ _ => AssignsTo [accountId] s s' l
  | unassignEmulatorsToAccount _ accountId _ _ => UnassignsFrom [accountId] s' l
  | unassignEmulatorFromAccounts _ _ accountIds => UnassignsFrom accountIds s' l
  | assignEmulator _ _ accountIds _ => AssignsTo accountIds s s' l
  | extend _ _ days => ∀ n, DateUtils.amount s.platform days = some n →
    { l with expires_at := DateUtils.shift n l.expires_at } ∈ s'.tables.userEmulators

/-- The links of the user to the device, and their assignments, are as before. -/
def Untouched (userId deviceId : String) (t t' : Tables) : Prop :=
  (∀ l, t'.LinkOf userId deviceId l ↔ t.LinkOf userId deviceId l) ∧
    ∀ l, t.LinkOf userId deviceId l → ∀ a : AccountEmulators, a.userEmulator = some l.id →
      (a ∈ t'.accountEmulators ↔ a ∈ t.accountEmulators)

/-- The call acts on active links. -/
structure ActsOnActive (op : LinkUse) (s s' : Server) : Prop where
  done : ∀ d ∈ op.deviceIds, ∀ l, s.tables.LinkOf op.userId d l → l.active = true → op.Done s s' l
  ended : ∀ l ∈ s.tables.userEmulators, l.active = false → l ∈ s'.tables.userEmulators ∧
    ∀ a ∈ s'.tables.accountEmulators, a.userEmulator = some l.id → a ∈ s.tables.accountEmulators
  untouched : ∀ d ∈ op.deviceIds, (∀ l, s.tables.LinkOf op.userId d l → l.active = false) →
    Untouched op.userId d s.tables s'.tables
  nothing : (∀ d ∈ op.deviceIds, ∀ l, s.tables.LinkOf op.userId d l → l.active = false) →
    s'.tables = s.tables

/-! ## When they do -/

/-- Assigning to `l` is as good as assigning to the active links of the
device. -/
def AssignHarmless (accountIds : List String) (t : Tables) (userId deviceId : String)
    (l : UserEmulators) : Prop :=
  ∀ a ∈ accountIds, a ∈ t.accounts.map Account.id →
    (l.active = false → ∃ x ∈ t.accountEmulators, x.account = some a ∧
      x.userEmulator = some l.id ∧ x.status = .ACTIVE) ∧
    ∀ l', t.LinkOf userId deviceId l' → l'.active = true → l' ≠ l → t.Assigned a l'

/-- Unassigning deletes the row once it has found its link. -/
def Deletes (onlyActive : Bool) (a : String) (x : AccountEmulators) : Prop :=
  a ≠ "" ∧ (onlyActive = true → x.status = .ACTIVE)

/-- Unassigning from `l` is as good as unassigning from the active links of
the device. -/
def UnassignHarmless (onlyActive : Bool) (accountIds : List String) (t : Tables)
    (userId deviceId : String) (l : UserEmulators) : Prop :=
  ∀ a ∈ accountIds, ∀ x ∈ t.accountEmulators, x.account = some a →
    (∀ l', t.LinkOf userId deviceId l' → l'.active = true → x.userEmulator = some l'.id →
      l' = l ∧ Deletes onlyActive a x) ∧
    ((∀ l', t.LinkOf userId deviceId l' → l'.active = false) → x.userEmulator = some l.id →
      ¬ Deletes onlyActive a x)

/-- Extending `l` writes: the key is not empty, and there is a date that many
days later. -/
def Extendable (n : Int) (l : UserEmulators) : Prop :=
  l.id ≠ "" ∧ DateUtils.isDate (DateUtils.shift n l.expires_at) = true

/-- Extending `l` is as good as extending the active links of the device. -/
def ExtendHarmless (n : Int) (t : Tables) (userId deviceId : String) (l : UserEmulators) : Prop :=
  n = 0 ∨ ((∀ l', t.LinkOf userId deviceId l' → l'.active = true → l' = l ∧ Extendable n l) ∧
    (l.active = false → ¬ Extendable n l))

def Harmless (s : Server) (d : String) (l : UserEmulators) : LinkUse → Prop
  | assignEmulatorsToAccount userId accountId _ _ => AssignHarmless [accountId] s.tables userId d l
  | unassignEmulatorsToAccount userId accountId _ _ =>
    UnassignHarmless false [accountId] s.tables userId d l
  | unassignEmulatorFromAccounts userId _ accountIds =>
    UnassignHarmless true accountIds s.tables userId d l
  | assignEmulator userId _ accountIds _ => AssignHarmless accountIds s.tables userId d l
  | extend userId _ days =>
    ∀ n, DateUtils.amount s.platform days = some n → ExtendHarmless n s.tables userId d l

end LinkUse

/-! ## The endpoints as visits -/

namespace EmulatorService

def assign (a : String) (l : UserEmulators) : Svc Unit := tryAssign (some (.str a)) l

def unassign (onlyActive : Bool) (a : String) (l : UserEmulators) : Svc Unit :=
  tryUnassign (some (.str a)) l fun x => !onlyActive || x.status = .ACTIVE

/-- The answer is one that the lookup for the device can give. -/
def Answers (t : Tables) (userId deviceId : String) : Option UserEmulators → Prop
  | some l => t.LinkOf userId deviceId l
  | none => ∀ l, ¬ t.LinkOf userId deviceId l

section Visits

variable {find : String → Svc (Option UserEmulators)} {deviceIds accountIds : List String}
  {act : String → UserEmulators → Svc Unit} {C : String → UserEmulators → Prop}
  {I J : Server → Prop} {s : Server}

end Visits

end EmulatorService

namespace LinkUse

open EmulatorService

variable {userId d a : String} {deviceIds accountIds : List String} {s₀ s : Server}
  {l l' : UserEmulators}

/-- A call that changes nothing acts on active links if it need not do
anything to them. -/
theorem ActsOnActive.of_eq {op : LinkUse} {s' : Server} (h : s'.tables = s.tables)
    (hdone : ∀ d ∈ op.deviceIds, ∀ l, s.tables.LinkOf op.userId d l → l.active = true →
      op.Done s s' l) : op.ActsOnActive s s' := by
  refine ⟨hdone, fun l hl _ => ?_, fun d _ _ => ?_, fun _ => h⟩
  · rw [h]
    exact ⟨hl, fun _ ha _ => ha⟩
  · rw [h]
    exact ⟨fun _ => Iff.rfl, fun _ _ _ _ => Iff.rfl⟩

section Acts

variable {days : JsVal} {n : Int} {s' : Server}

end Acts

/-! ## The claim -/

variable {op : LinkUse}

end LinkUse

end Damaru
