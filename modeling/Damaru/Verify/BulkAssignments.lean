import Damaru.Async.Under
import Damaru.Verify.AssignmentSpecs
import Damaru.Verify.AssignmentStatus

/-!
# Assigning in bulk

One device to many accounts, or many devices to one account: four loops over
the same two items, the assignment and the unassignment of a pair. Each loop
comes to one set of pairs, whatever the order of its list, and the set of all
assignments grows or shrinks by it.
-/

namespace Damaru

open Async Table

/-- An assignment less its key: account, link and status. -/
abbrev AssignmentRow := Option String × Option String × AccountStatus

def Tables.assignments (t : Tables) : Set AssignmentRow :=
  {row | ∃ a ∈ t.accountEmulators, (a.account, a.userEmulator, a.status) = row}

/-- Scans meet the rows in a fixed order. -/
def Ext.scanning (rank : String → Nat) (x : Ext) : Ext := { x with rank := rank }

/-! ## Sets of pairs -/

inductive Verb where
  | assign
  | unassign

namespace Verb

/-- The rows that a pair of an account and a link stands for: one to be there,
if the account exists, or all that have to go. -/
def rows (t : Tables) : Verb → String × String → Set AssignmentRow
  | assign, q => {row | row = (some q.1, some q.2, .ACTIVE) ∧ q.1 ∈ t.accounts.map Account.id}
  | unassign, q => {row | row.1 = some q.1 ∧ row.2.1 = some q.2 ∧ q.1 ≠ ""}

/-- What assigning, or unassigning, a set of pairs makes of the assignments. -/
def result (t : Tables) (A : Set AssignmentRow) (P : Set (String × String)) : Verb → Set AssignmentRow
  | assign => {row | row ∈ A ∨ ∃ q ∈ P, row ∈ assign.rows t q}
  | unassign => {row | row ∈ A ∧ ¬ ∃ q ∈ P, row ∈ unassign.rows t q}

variable {v : Verb} {t t' : Tables} {A : Set AssignmentRow} {P Q : Set (String × String)}

theorem result_empty : v.result t A ∅ = A := by
  cases v <;> simp [result]

theorem result_result : v.result t (v.result t A P) Q = v.result t A (P ∪ Q) := by
  ext row
  cases v with
  | assign =>
    simp only [result, Set.mem_ofPred_eq, Set.mem_union, or_assoc, or_and_right, exists_or]
  | unassign =>
    simp only [result, Set.mem_ofPred_eq, Set.mem_union, and_assoc, or_and_right, exists_or, not_or]

theorem rows_congr (h : t'.accounts = t.accounts) (q : String × String) : v.rows t' q = v.rows t q := by
  cases v with
  | assign =>
    unfold rows
    rw [h]
  | unassign => rfl

theorem result_congr (h : t'.accounts = t.accounts) : v.result t' A P = v.result t A P := by
  cases v with
  | assign => simp only [result, rows_congr h]
  | unassign => rfl

/-- A set of pairs of which nothing is made has no part of which something is. -/
theorem result_eq_of_subset (h : v.result t A Q = A) (hsub : P ⊆ Q) : v.result t A P = A := by
  ext row
  cases v with
  | assign =>
    refine ⟨fun hrow => ?_, .inl⟩
    rw [← h]
    exact hrow.imp_right fun ⟨q, hq, hrow⟩ => ⟨q, hsub hq, hrow⟩
  | unassign =>
    refine ⟨And.left, fun hrow => ⟨hrow, ?_⟩⟩
    rintro ⟨q, hq, hrows⟩
    rw [← h] at hrow
    exact hrow.2 ⟨q, hsub hq, hrows⟩

/-- The rows that no pair of one set but not of the other stands for. -/
theorem mem_result_congr {row : AssignmentRow}
    (h : (∃ q ∈ P, row ∈ v.rows t q) ↔ ∃ q ∈ Q, row ∈ v.rows t q) :
    row ∈ v.result t A P ↔ row ∈ v.result t A Q := by
  cases v with
  | assign => exact or_congr Iff.rfl h
  | unassign => exact and_congr Iff.rfl (not_congr h)

end Verb

/-! ## One pair -/

/-- Since `s`, nothing but the assignments has changed of what the calls read,
and these are what the verb makes of them by a set of pairs. -/
structure Came (v : Verb) (s : Server) (P : Set (String × String)) (s' : Server) : Prop where
  accounts : s'.tables.accounts = s.tables.accounts
  links : s'.tables.userEmulators = s.tables.userEmulators
  active : s'.tables.AllActive
  assignments : s'.tables.assignments = v.result s.tables s.tables.assignments P

namespace Came

variable {v : Verb} {s s' s'' : Server} {P Q : Set (String × String)}

theorem refl (h : s.tables.AllActive) : Came v s ∅ s := ⟨rfl, rfl, h, Verb.result_empty.symm⟩

theorem trans (h : Came v s P s') (h' : Came v s' Q s'') : Came v s (P ∪ Q) s'' where
  accounts := h'.accounts.trans h.accounts
  links := h'.links.trans h.links
  active := h'.active
  assignments := by
    rw [h'.assignments, Verb.result_congr h.accounts, h.assignments, Verb.result_result]

end Came

namespace EmulatorService

/-- What a bulk call does for one account and one link. -/
def item (p : AccountEmulators → Bool) : Verb → JsVal → UserEmulators → Svc Unit
  | .assign, account, l => tryAssign account l
  | .unassign, account, l => tryUnassign account l p

variable {p : AccountEmulators → Bool} {v : Verb} {s : Server}

theorem tryAssign_came {account : String} {l : UserEmulators} (hl : l ∈ s.tables.userEmulators)
    (hs : s.tables.AllActive) : (tryAssign (some (.str account)) l).Post s fun r s' =>
      r = .ok () ∧ Came .assign s {(account, l.id)} s' ∧
        (Verb.assign.result s.tables s.tables.assignments {(account, l.id)} = s.tables.assignments →
          s'.tables = s.tables) := by
  refine ((tryAssign_post (some (.str account)) l s).and ((keepsActive_tryAssign _ l).post KeepsActive.refl
    fun _ _ _ => KeepsActive.trans)).mono fun r s' h => ?_
  obtain ⟨⟨hr, h⟩, hkeeps⟩ := h
  have hactive := hkeeps hs
  refine ⟨hr, ?_⟩
  rcases h with h | ⟨rfl, hfails⟩
  · obtain ⟨-, haccounts, hlinks, -⟩ := h.others
    obtain ⟨a, ha, haccount, hlink, hstatus⟩ := h.assigned
    have hmem : account ∈ s.tables.accounts.map Account.id := by
      have href := s'.integrity.account a ha
      rwa [haccount, haccounts, JsVal.bound_str, refers_some] at href
    refine ⟨⟨haccounts, hlinks, hactive, Set.ext fun row => ⟨?_, ?_⟩⟩, fun hsame => ?_⟩
    · rintro ⟨b, hb, rfl⟩
      rcases h.origin hb with hold | ⟨hba, hbl⟩
      · exact .inl ⟨b, hold, rfl⟩
      · refine .inr ⟨_, rfl, ?_, hmem⟩
        rw [hba, hbl, hactive b hb]
        rfl
    · rintro (⟨b, hb, rfl⟩ | ⟨_, rfl, rfl, -⟩)
      · obtain ⟨c, hc, -, -, hcb⟩ := h.mono hb
        exact ⟨c, hc, by rw [hcb (hs b hb)]⟩
      · exact ⟨a, ha, by rw [haccount, hlink, hstatus]; rfl⟩
    · have hthere : ((some account, some l.id, AccountStatus.ACTIVE) : AssignmentRow) ∈ s.tables.assignments := by
        rw [← hsame]
        exact .inr ⟨_, rfl, rfl, hmem⟩
      obtain ⟨b, hb, hrow⟩ := hthere
      obtain ⟨hba, hbl, hbs⟩ : b.account = some account ∧ b.userEmulator = some l.id ∧ b.status = .ACTIVE := by
        simpa using hrow
      exact h.eq_self s.integrity hb hba hbl hbs
  · have hnone : account ∉ s'.tables.accounts.map Account.id := fun hmem =>
      hfails ⟨refers_some.2 hmem, hl⟩
    refine ⟨⟨rfl, rfl, hs, Set.ext fun row => ⟨.inl, ?_⟩⟩, fun _ => rfl⟩
    rintro (hrow | ⟨_, rfl, -, hmem⟩)
    · exact hrow
    · exact absurd hmem hnone

theorem tryUnassign_came {account : String} {l : UserEmulators} (hp : ∀ a, a.status = .ACTIVE → p a = true)
    (hs : s.tables.AllActive) : (tryUnassign (some (.str account)) l p).Post s fun r s' =>
      r = .ok () ∧ Came .unassign s {(account, l.id)} s' ∧
        (Verb.unassign.result s.tables s.tables.assignments {(account, l.id)} = s.tables.assignments →
          s'.tables = s.tables) := by
  have hsel : ∀ a ∈ s.tables.accountEmulators, ((JsVal.truthy (some (.str account)) &&
      (a.userEmulator = some l.id && a.account = JsVal.bound (some (.str account)) && p a)) = true ↔
        (a.account, a.userEmulator, a.status) ∈ Verb.unassign.rows s.tables (account, l.id)) := by
    intro a ha
    have htruthy : JsVal.truthy (some (.str account)) = decide (account ≠ "") := rfl
    rw [htruthy, hp a (hs a ha), JsVal.bound_str]
    simp only [Bool.and_eq_true, decide_eq_true_eq, and_true]
    exact ⟨fun ⟨hne, hlink, haccount⟩ => ⟨haccount, hlink, hne⟩,
      fun ⟨haccount, hlink, hne⟩ => ⟨hne, hlink, haccount⟩⟩
  have hcame : (tryUnassign (some (.str account)) l p).Post s fun r s' =>
      r = .ok () ∧ Came .unassign s {(account, l.id)} s' := by
    refine ((tryUnassign_post (some (.str account)) l p s).and ((keepsActive_tryUnassign _ l p).post
      KeepsActive.refl fun _ _ _ => KeepsActive.trans)).mono fun r s' h => ?_
    obtain ⟨⟨hr, c, htables⟩, hkeeps⟩ := h
    refine ⟨hr, by rw [htables], by rw [htables], hkeeps hs, Set.ext fun row => ?_⟩
    unfold Tables.assignments
    rw [htables]
    constructor
    · rintro ⟨a, ha, rfl⟩
      obtain ⟨ha, hnot⟩ := List.mem_filter.1 ha
      refine ⟨⟨a, ha, rfl⟩, ?_⟩
      rintro ⟨_, rfl, hrow⟩
      rw [(hsel a ha).2 hrow] at hnot
      cases hnot
    · rintro ⟨⟨a, ha, rfl⟩, hnot⟩
      refine ⟨a, List.mem_filter.2 ⟨ha, ?_⟩, rfl⟩
      rw [Bool.not_eq_true', Bool.eq_false_iff]
      exact fun htrue => hnot ⟨_, rfl, (hsel a ha).1 htrue⟩
  by_cases hsame : Verb.unassign.result s.tables s.tables.assignments {(account, l.id)} = s.tables.assignments
  · have hidle : ∀ a ∈ s.tables.accountEmulators, ((JsVal.truthy (some (.str account)) &&
        (a.userEmulator = some l.id && a.account = JsVal.bound (some (.str account)) && p a)) = false) := by
      intro a ha
      refine Bool.eq_false_iff.2 fun htrue => ?_
      have hrow : (a.account, a.userEmulator, a.status) ∈ s.tables.assignments := ⟨a, ha, rfl⟩
      rw [← hsame] at hrow
      exact hrow.2 ⟨_, rfl, (hsel a ha).1 htrue⟩
    exact (hcame.and (tryUnassign_idle hidle)).mono fun r s' h => ⟨h.1.1, h.1.2, fun _ => h.2.2⟩
  · exact hcame.mono fun r s' h => ⟨h.1, h.2, fun hno => absurd hno hsame⟩

/-- The item lemma: what it makes of the assignments, and that it changes
nothing where it makes nothing of them. -/
theorem item_came {account : String} {l : UserEmulators} (hp : ∀ a, a.status = .ACTIVE → p a = true)
    (hl : l ∈ s.tables.userEmulators) (hs : s.tables.AllActive) :
    (item p v (some (.str account)) l).Post s fun r s' => r = .ok () ∧ Came v s {(account, l.id)} s' ∧
      (v.result s.tables s.tables.assignments {(account, l.id)} = s.tables.assignments →
        s'.tables = s.tables) := by
  cases v with
  | assign => exact tryAssign_came hl hs
  | unassign => exact tryUnassign_came hp hs

/-! ## The loops -/

/-- The link that a lookup returns when scans meet the rows in a fixed order. -/
def linkOf (rank : String → Nat) (t : Tables) (deviceId userId : String) : Option UserEmulators :=
  (Table.scan rank UserEmulators.id (t.userEmulators.filter fun l =>
    JsVal.selects (some (.str deviceId)) l.device && JsVal.selects (some (.str userId)) l.user)).head?

theorem linkOf_mem {rank : String → Nat} {t : Tables} {d u : String} {l : UserEmulators}
    (h : linkOf rank t d u = some l) : l ∈ t.userEmulators ∧ l.device = some d := by
  have hmem := mem_scan.1 (List.mem_of_mem_head? h)
  obtain ⟨hl, hsel⟩ := List.mem_filter.1 hmem
  rw [Bool.and_eq_true, JsVal.selects_str] at hsel
  exact ⟨hl, hsel.1⟩

/-- The pairs that a loop over some items is about. -/
def pairs (pair : String → Option (String × String)) (items : List String) : Set (String × String) :=
  {q | ∃ i ∈ items, pair i = some q}

variable {rank : String → Nat}

theorem withLink_scanning {d u : String} {g : UserEmulators → Svc Unit}
    {Q : Except Rejection Unit → Server → Prop}
    (hsome : ∀ l, linkOf rank s.tables d u = some l → ((g l).under (Ext.scanning rank)).Post s Q)
    (hnone : linkOf rank s.tables d u = none → Q (.ok ()) s) :
    ((do if let some l ← findUserEmulator (some (.str d)) (some (.str u)) then g l : Svc Unit).under
      (Ext.scanning rank)).Post s Q := by
  rw [Prog.under_bind]
  unfold findUserEmulator Repository.findRow Repository.findOne query
  rw [Prog.under_op]
  refine .bind (.op fun x => ?_)
  have hscan : ((userEmulatorRepository.scan (fun _ l => JsVal.selects (some (.str d)) l.device &&
      JsVal.selects (some (.str u)) l.user) (Ext.scanning rank x) s.tables).head?.map fun a => a) =
      linkOf rank s.tables d u := Option.map_id'
  dsimp only
  rw [hscan]
  cases hlink : linkOf rank s.tables d u with
  | none => exact .pure (hnone hlink)
  | some l => exact hsome l hlink

/-- What a bulk call comes to: a set of pairs, and nothing if nothing is made
of it. -/
def Comes (v : Verb) (s : Server) (P : Set (String × String)) (r : Except Rejection Unit) (s' : Server) : Prop :=
  r = .ok () ∧ Came v s P s' ∧
    (v.result s.tables s.tables.assignments P = s.tables.assignments → s'.tables = s.tables)

/-- The loop lemma. -/
theorem forM_comes {pair : String → Option (String × String)} {f : String → Svc Unit} (items : List String)
    (hs : s.tables.AllActive) (hbody : ∀ i s', s'.tables.userEmulators = s.tables.userEmulators →
      s'.tables.AllActive → (f i).Post s' (Comes v s' {q | pair i = some q})) :
    (forM items f).Post s (Comes v s (pairs pair items)) := by
  refine (Prog.Post.forM_done (I := fun done s' => Came v s (pairs pair done) s' ∧
    (v.result s.tables s.tables.assignments (pairs pair done) = s.tables.assignments →
      s'.tables = s.tables)) (fun done i s₁ h₁ => ?_) ?_).mono fun r s' h => h
  · obtain ⟨hcame, hidle⟩ := h₁
    refine (hbody i s₁ hcame.links hcame.active).mono fun r s' h => ?_
    obtain ⟨hr, hcame', hidle'⟩ := h
    have hpairs : pairs pair (done ++ [i]) = pairs pair done ∪ {q | pair i = some q} := by
      ext q
      simp [pairs, or_and_right, exists_or]
    refine ⟨hr, hpairs ▸ hcame.trans hcame', fun hsame => ?_⟩
    rw [hpairs] at hsame
    have hbefore := hidle (Verb.result_eq_of_subset hsame Set.subset_union_left)
    rw [hidle' ?_, hbefore]
    rw [hbefore]
    exact Verb.result_eq_of_subset hsame Set.subset_union_right
  · have hempty : pairs pair [] = ∅ := by
      ext q
      simp [pairs]
    rw [hempty]
    exact ⟨.refl hs, fun _ => rfl⟩

/-- One device, many accounts. -/
theorem byAccounts_comes {d u what : String} (ids : List String) (hp : ∀ a, a.status = .ACTIVE → p a = true)
    (hs : s.tables.AllActive) :
    ((do if let some l ← findUserEmulator (some (.str d)) (some (.str u)) then
        forOf what (some (.arr (ids.map .str))) fun account => item p v account l : Svc Unit).under
      (Ext.scanning rank)).Post s
      (Comes v s (pairs (fun a => (linkOf rank s.tables d u).map fun l => (a, l.id)) ids)) := by
  refine withLink_scanning (fun l hl => ?_) fun hnone => ?_
  · show ((forM (ids.map Json.str) fun j => item p v (some j) l).under _).Post s _
    rw [List.forM_map, Prog.under_forM, hl]
    refine forM_comes ids hs fun a s' hlinks hs' => .under ?_
    have hset : {q | Option.map (fun l : UserEmulators => (a, l.id)) (some l) = some q} = {(a, l.id)} := by
      ext q
      simp [eq_comm]
    rw [hset]
    exact item_came hp (hlinks ▸ (linkOf_mem hl).1) hs'
  · have hempty : pairs (fun a => (linkOf rank s.tables d u).map fun l => (a, l.id)) ids = ∅ := by
      ext q
      simp [pairs, hnone]
    rw [hempty]
    exact ⟨rfl, .refl hs, fun _ => rfl⟩

/-- Many devices, one account. -/
theorem byDevices_comes {a u what : String} (ds : List String) (hp : ∀ a, a.status = .ACTIVE → p a = true)
    (hs : s.tables.AllActive) :
    ((forOf what (some (.arr (ds.map .str))) fun deviceId => do
        if let some l ← findUserEmulator deviceId (some (.str u)) then item p v (some (.str a)) l :
          Svc Unit).under (Ext.scanning rank)).Post s
      (Comes v s (pairs (fun d => (linkOf rank s.tables d u).map fun l => (a, l.id)) ds)) := by
  show ((forM (ds.map Json.str) fun j => do
    if let some l ← findUserEmulator (some j) (some (.str u)) then item p v (some (.str a)) l).under _).Post s _
  rw [List.forM_map, Prog.under_forM]
  refine forM_comes ds hs fun d s' hlinks hs' => ?_
  have hlink : linkOf rank s.tables d u = linkOf rank s'.tables d u := by
    unfold linkOf
    rw [hlinks]
  rw [hlink]
  refine withLink_scanning (fun l hl => ?_) fun hnone => ?_
  · have hset : {q | (linkOf rank s'.tables d u).map (fun l => (a, l.id)) = some q} = {(a, l.id)} := by
      ext q
      simp [hl, eq_comm]
    rw [hset]
    exact (item_came hp (linkOf_mem hl).1 hs').under
  · have hset : {q | (linkOf rank s'.tables d u).map (fun l => (a, l.id)) = some q} = ∅ := by
      ext q
      simp [hnone]
    rw [hset]
    exact ⟨rfl, .refl hs', fun _ => rfl⟩

end EmulatorService

/-! ## The four calls -/

/-- A bulk call of one device or of one account, for a list of accounts or of
devices. -/
inductive BulkCall where
  | assignEmulator (deviceId : String)
  | unassignEmulatorFromAccounts (deviceId : String)
  | assignEmulatorsToAccount (accountId : String)
  | unassignEmulatorsToAccount (accountId : String)

namespace BulkCall

def prog (user : JwtToken) (userId : String) (ids : List String) : BulkCall → Svc Unit
  | assignEmulator d => EmulatorService.assignEmulator
    ⟨some (.str d), some (.arr (ids.map .str)), some (.str userId)⟩ user
  | unassignEmulatorFromAccounts d => EmulatorService.unassignEmulatorFromAccounts
    ⟨some (.str d), some (.arr (ids.map .str)), some (.str userId)⟩
  | assignEmulatorsToAccount a => EmulatorService.assignEmulatorsToAccount
    ⟨⟨some (.arr (ids.map .str)), some (.str userId)⟩, some (.str a)⟩ user
  | unassignEmulatorsToAccount a => EmulatorService.unassignEmulatorsToAccount
    ⟨⟨some (.arr (ids.map .str)), some (.str userId)⟩, some (.str a)⟩ user

/-- The row is one of the pair that the call makes of the id `i`: its account
is `i`, or its link is one of the device `i`. -/
def Concerns (t : Tables) (i : String) (row : AssignmentRow) : BulkCall → Prop
  | assignEmulator _ => row.1 = some i
  | unassignEmulatorFromAccounts _ => row.1 = some i
  | assignEmulatorsToAccount _ => ∃ l ∈ t.userEmulators, l.device = some i ∧ row.2.1 = some l.id
  | unassignEmulatorsToAccount _ => ∃ l ∈ t.userEmulators, l.device = some i ∧ row.2.1 = some l.id

def verb : BulkCall → Verb
  | assignEmulator _ => .assign
  | unassignEmulatorFromAccounts _ => .unassign
  | assignEmulatorsToAccount _ => .assign
  | unassignEmulatorsToAccount _ => .unassign

/-- The pair that the call makes of an id. -/
def pair (rank : String → Nat) (t : Tables) (userId : String) (i : String) : BulkCall → Option (String × String)
  | assignEmulator d => (EmulatorService.linkOf rank t d userId).map fun l => (i, l.id)
  | unassignEmulatorFromAccounts d => (EmulatorService.linkOf rank t d userId).map fun l => (i, l.id)
  | assignEmulatorsToAccount a => (EmulatorService.linkOf rank t i userId).map fun l => (a, l.id)
  | unassignEmulatorsToAccount a => (EmulatorService.linkOf rank t i userId).map fun l => (a, l.id)

/-- The caller is a super admin or the user itself. -/
def Authorised (user : JwtToken) (userId : String) : Prop := user.role = .SuperAdmin ∨ user.sub = userId

theorem Authorised.check {user : JwtToken} {userId : String} (h : Authorised user userId) :
    EmulatorService.checkSuperAdminOrSelf (some (.str userId)) user = true := by
  unfold EmulatorService.checkSuperAdminOrSelf
  rcases h with h | h
  · rw [h]
    rfl
  · rw [Bool.or_eq_true, JsVal.isStr_iff, h]
    exact .inr rfl

variable {user : JwtToken} {userId : String} {rank : String → Nat} {s : Server}

theorem prog_comes (c : BulkCall) (rank : String → Nat) (hauth : Authorised user userId) (hs : s.tables.AllActive) (ids : List String) :
    ((c.prog user userId ids).under (Ext.scanning rank)).Post s
      (EmulatorService.Comes c.verb s (EmulatorService.pairs (fun i => c.pair rank s.tables userId i) ids)) := by
  have htrue : ∀ a : AccountEmulators, a.status = .ACTIVE → (fun _ => true) a = true := fun _ _ => rfl
  cases c with
  | assignEmulator d =>
    show ((EmulatorService.assignEmulator _ user).under _).Post s _
    unfold EmulatorService.assignEmulator
    rw [if_pos hauth.check]
    exact EmulatorService.byAccounts_comes (v := .assign) ids htrue hs
  | unassignEmulatorFromAccounts d =>
    exact EmulatorService.byAccounts_comes (v := .unassign) ids (fun _ h => decide_eq_true h) hs
  | assignEmulatorsToAccount a =>
    show ((EmulatorService.assignEmulatorsToAccount _ user).under _).Post s _
    unfold EmulatorService.assignEmulatorsToAccount
    rw [if_pos hauth.check]
    exact EmulatorService.byDevices_comes (v := .assign) ids htrue hs
  | unassignEmulatorsToAccount a =>
    show ((EmulatorService.unassignEmulatorsToAccount _ user).under _).Post s _
    unfold EmulatorService.unassignEmulatorsToAccount
    rw [if_pos hauth.check]
    exact EmulatorService.byDevices_comes (v := .unassign) ids htrue hs

/-- On scans in a fixed order, two programs leave the same assignments. -/
def SameAssignments (rank : String → Nat) (s : Server) (p q : Svc Unit) : Prop :=
  ∀ r s₁ r' s₂, (p.under (Ext.scanning rank)).Ends s r s₁ → (q.under (Ext.scanning rank)).Ends s r' s₂ →
    s₁.tables.assignments = s₂.tables.assignments

/-- What the bulk calls of a caller for a user have in common: the two
directions agree, the list of ids counts as a set, a call that is repeated
changes nothing, and an id affects no pair but its own. -/
structure Agree (s : Server) (rank : String → Nat) (user : JwtToken) (userId : String) : Prop where
  assign : ∀ d ids (calls : List String), (∀ a, a ∈ calls ↔ a ∈ ids) →
    SameAssignments rank s ((assignEmulator d).prog user userId ids)
      (forM calls fun a => (assignEmulatorsToAccount a).prog user userId [d])
  unassign : ∀ d ids (calls : List String), (∀ a, a ∈ calls ↔ a ∈ ids) →
    SameAssignments rank s ((unassignEmulatorFromAccounts d).prog user userId ids)
      (forM calls fun a => (unassignEmulatorsToAccount a).prog user userId [d])
  asSet : ∀ (c : BulkCall) (ids ids' : List String), (∀ i, i ∈ ids ↔ i ∈ ids') →
    SameAssignments rank s (c.prog user userId ids) (c.prog user userId ids')
  repeated : ∀ (c : BulkCall) ids r s₁ r' s₂,
    ((c.prog user userId ids).under (Ext.scanning rank)).Ends s r s₁ →
    ((c.prog user userId ids).under (Ext.scanning rank)).Ends s₁ r' s₂ → s₂.tables = s₁.tables
  returns : ∀ (c : BulkCall) ids r s₁,
    ((c.prog user userId ids).under (Ext.scanning rank)).Ends s r s₁ → r = .ok ()
  apart : ∀ (c : BulkCall) ids i r s₁ r' s₂,
    ((c.prog user userId ids).under (Ext.scanning rank)).Ends s r s₁ →
    ((c.prog user userId (ids.filter (· ≠ i))).under (Ext.scanning rank)).Ends s r' s₂ →
    ∀ row, ¬ c.Concerns s.tables i row → (row ∈ s₁.tables.assignments ↔ row ∈ s₂.tables.assignments)

open EmulatorService in
theorem pairs_congr {f : String → Option (String × String)} {ids ids' : List String}
    (h : ∀ i, i ∈ ids ↔ i ∈ ids') : pairs f ids = pairs f ids' := by
  ext q
  simp [pairs, h]

/-- Calls for one account after another, each with the one device. -/
theorem forM_calls_comes {v : Verb} {d : String} (call : String → BulkCall) (hverb : ∀ a, (call a).verb = v)
    (hpair : ∀ t a, (call a).pair rank t userId d =
      (EmulatorService.linkOf rank t d userId).map fun l => (a, l.id))
    (hauth : Authorised user userId) (hs : s.tables.AllActive) (calls : List String) :
    ((forM calls fun a => (call a).prog user userId [d]).under (Ext.scanning rank)).Post s
      (EmulatorService.Comes v s (EmulatorService.pairs (fun a =>
        (EmulatorService.linkOf rank s.tables d userId).map fun l => (a, l.id)) calls)) := by
  rw [Prog.under_forM]
  refine EmulatorService.forM_comes calls hs fun a s' hlinks hs' => ?_
  have hlink : EmulatorService.linkOf rank s'.tables d userId = EmulatorService.linkOf rank s.tables d userId := by
    unfold EmulatorService.linkOf
    rw [hlinks]
  have hone := prog_comes (call a) rank hauth hs' [d]
  have hset : EmulatorService.pairs (fun i => (call a).pair rank s'.tables userId i) [d] =
      {q | (EmulatorService.linkOf rank s.tables d userId).map (fun l => (a, l.id)) = some q} := by
    ext q
    simp [EmulatorService.pairs, hpair, hlink]
  rwa [hset, hverb] at hone

theorem pair_congr {t t' : Tables} (h : t'.userEmulators = t.userEmulators) (c : BulkCall) (i : String) :
    c.pair rank t' userId i = c.pair rank t userId i := by
  cases c <;> simp only [pair, EmulatorService.linkOf, h]

/-- A row of the pair that a call makes of an id concerns the id. -/
theorem concerns_of_pair {c : BulkCall} {t : Tables} {i : String} {q : String × String} {row : AssignmentRow}
    (hq : c.pair rank t userId i = some q) (hrow : row.1 = some q.1 ∧ row.2.1 = some q.2) :
    c.Concerns t i row := by
  cases c with
  | assignEmulator d =>
    obtain ⟨l, -, rfl⟩ := Option.map_eq_some_iff.1 hq
    exact hrow.1
  | unassignEmulatorFromAccounts d =>
    obtain ⟨l, -, rfl⟩ := Option.map_eq_some_iff.1 hq
    exact hrow.1
  | assignEmulatorsToAccount a =>
    obtain ⟨l, hl, rfl⟩ := Option.map_eq_some_iff.1 hq
    exact ⟨l, (EmulatorService.linkOf_mem hl).1, (EmulatorService.linkOf_mem hl).2, hrow.2⟩
  | unassignEmulatorsToAccount a =>
    obtain ⟨l, hl, rfl⟩ := Option.map_eq_some_iff.1 hq
    exact ⟨l, (EmulatorService.linkOf_mem hl).1, (EmulatorService.linkOf_mem hl).2, hrow.2⟩

theorem mem_rows {v : Verb} {t : Tables} {q : String × String} {row : AssignmentRow}
    (h : row ∈ v.rows t q) : row.1 = some q.1 ∧ row.2.1 = some q.2 := by
  cases v with
  | assign =>
    obtain ⟨rfl, -⟩ := h
    exact ⟨rfl, rfl⟩
  | unassign => exact ⟨h.1, h.2.1⟩

/-- **Bulk assignments.** In every reachable state the bulk calls of a caller
who is authorised for a user agree. -/
theorem bulk_calls_agree (hs : Reachable s) (hauth : Authorised user userId) (rank : String → Nat) :
    Agree s rank user userId where
  assign d ids calls hcalls r s₁ r' s₂ h₁ h₂ := by
    obtain ⟨-, hcame, -⟩ := prog_comes (assignEmulator d) rank hauth hs.allActive ids r s₁ h₁
    obtain ⟨-, hcame', -⟩ := forM_calls_comes assignEmulatorsToAccount (fun _ => rfl)
      (fun _ _ => rfl) hauth hs.allActive calls r' s₂ h₂
    rw [hcame.assignments, hcame'.assignments, pairs_congr hcalls]
    rfl
  unassign d ids calls hcalls r s₁ r' s₂ h₁ h₂ := by
    obtain ⟨-, hcame, -⟩ := prog_comes (unassignEmulatorFromAccounts d) rank hauth hs.allActive ids r s₁ h₁
    obtain ⟨-, hcame', -⟩ := forM_calls_comes unassignEmulatorsToAccount (fun _ => rfl)
      (fun _ _ => rfl) hauth hs.allActive calls r' s₂ h₂
    rw [hcame.assignments, hcame'.assignments, pairs_congr hcalls]
    rfl
  asSet c ids ids' hids r s₁ r' s₂ h₁ h₂ := by
    obtain ⟨-, hcame, -⟩ := prog_comes c rank hauth hs.allActive ids r s₁ h₁
    obtain ⟨-, hcame', -⟩ := prog_comes c rank hauth hs.allActive ids' r' s₂ h₂
    rw [hcame.assignments, hcame'.assignments, pairs_congr hids]
  repeated c ids r s₁ r' s₂ h₁ h₂ := by
    obtain ⟨-, hcame, -⟩ := prog_comes c rank hauth hs.allActive ids r s₁ h₁
    obtain ⟨-, -, hidle⟩ := prog_comes c rank hauth hcame.active ids r' s₂ h₂
    refine hidle ?_
    simp only [pair_congr hcame.links]
    rw [Verb.result_congr hcame.accounts, hcame.assignments, Verb.result_result, Set.union_self]
  returns c ids r s₁ h₁ := (prog_comes c rank hauth hs.allActive ids r s₁ h₁).1
  apart c ids i r s₁ r' s₂ h₁ h₂ row hrow := by
    obtain ⟨-, hcame, -⟩ := prog_comes c rank hauth hs.allActive ids r s₁ h₁
    obtain ⟨-, hcame', -⟩ := prog_comes c rank hauth hs.allActive _ r' s₂ h₂
    rw [hcame.assignments, hcame'.assignments]
    refine Verb.mem_result_congr ⟨?_, ?_⟩
    · rintro ⟨q, ⟨j, hj, hq⟩, hin⟩
      refine ⟨q, ⟨j, List.mem_filter.2 ⟨hj, decide_eq_true ?_⟩, hq⟩, hin⟩
      rintro rfl
      exact hrow (concerns_of_pair hq (mem_rows hin))
    · rintro ⟨q, ⟨j, hj, hq⟩, hin⟩
      exact ⟨q, ⟨j, (List.mem_filter.1 hj).1, hq⟩, hin⟩

end BulkCall

theorem bulk_calls_agree_linked : ∃ s, Reachable s ∧
    BulkCall.Agree s (fun _ => 0) (Sample.androidAdmin "v" "v-root") "v" := by
  have hplay : (playAll (Sample.history ++ []) Sample.seeded).isSome = true := by decide +kernel
  obtain ⟨s, hs⟩ := Option.isSome_iff_exists.1 hplay
  exact ⟨s, Sample.reachable hs,
    BulkCall.bulk_calls_agree (Sample.reachable hs) (.inr rfl) fun _ => 0⟩

end Damaru
