import Damaru.Services.Emulators
import Damaru.Verify.Outcomes

/-!
# Making and ending one assignment

What the `upsert` and the `delete` of the assignment endpoints come to, run
alone. A failure of either is only logged, so both always return.
-/

namespace Damaru

open Async Table

/-- The row holds the pair. A null never does. -/
def AccountEmulators.holds (a : AccountEmulators) (account : Option String) (link : String) : Bool :=
  account.isSome && (a.account = account && a.userEmulator = some link)

/-- The tables after an `upsert`: the row of the pair is ACTIVE, or a new one
has been added. -/
inductive Upserted (account : Option String) (link : String) (t : Tables) : Tables → Prop
  | kept : (∃ a ∈ t.accountEmulators, a.holds account link = true) → Upserted account link t
      { t with
        accountEmulators := updateWhere (fun a => a.holds account link)
          (fun a => { a with status := .ACTIVE }) t.accountEmulators }
  | added (id : String) : (∀ a ∈ t.accountEmulators, a.holds account link = false) →
      Upserted account link t
        { t with accountEmulators := t.accountEmulators ++ [⟨id, account, some link, .ACTIVE⟩] }

namespace Upserted

variable {account : Option String} {link : String} {t t' : Tables}

theorem others (h : Upserted account link t t') : t'.users = t.users ∧ t'.accounts = t.accounts ∧
    t'.userEmulators = t.userEmulators ∧ t'.emulators = t.emulators := by
  cases h with
  | kept _ => exact ⟨rfl, rfl, rfl, rfl⟩
  | added _ _ => exact ⟨rfl, rfl, rfl, rfl⟩

/-- The pair is assigned. -/
theorem assigned (h : Upserted account link t t') :
    ∃ a ∈ t'.accountEmulators, a.account = account ∧ a.userEmulator = some link ∧
      a.status = .ACTIVE := by
  cases h with
  | kept hex =>
    obtain ⟨a, ha, hp⟩ := hex
    have hpair := hp
    simp only [AccountEmulators.holds, Bool.and_eq_true, decide_eq_true_eq] at hpair
    exact ⟨_, mem_updateWhere.2 (.inl ⟨a, ha, hp, rfl⟩), hpair.2.1, hpair.2.2, rfl⟩
  | added id _ =>
    exact ⟨_, List.mem_append_right _ (List.mem_singleton.2 rfl), rfl, rfl, rfl⟩

/-- Rows of other links are left alone. -/
theorem keeps (h : Upserted account link t t') {a : AccountEmulators} (ha : a ∈ t.accountEmulators)
    (hne : a.userEmulator ≠ some link) : a ∈ t'.accountEmulators := by
  cases h with
  | kept _ =>
    refine mem_updateWhere.2 (.inr ⟨ha, ?_⟩)
    simp [AccountEmulators.holds, hne]
  | added id _ => exact List.mem_append_left _ ha

/-- Every row is one of before, made ACTIVE at most, or one of the pair. -/
theorem origin (h : Upserted account link t t') {a : AccountEmulators} (ha : a ∈ t'.accountEmulators) :
    a ∈ t.accountEmulators ∨ (a.account = account ∧ a.userEmulator = some link) := by
  cases h with
  | kept _ =>
    rcases mem_updateWhere.1 ha with ⟨b, hb, hp, rfl⟩ | ⟨ha, -⟩
    · simp only [AccountEmulators.holds, Bool.and_eq_true, decide_eq_true_eq] at hp
      exact .inr hp.2
    · exact .inl ha
  | added id _ =>
    rcases List.mem_append.1 ha with ha | ha
    · exact .inl ha
    · rw [List.mem_singleton.1 ha]
      exact .inr ⟨rfl, rfl⟩

/-- Every row stays, made ACTIVE at most. -/
theorem mono (h : Upserted account link t t') {a : AccountEmulators} (ha : a ∈ t.accountEmulators) :
    ∃ b ∈ t'.accountEmulators, b.account = a.account ∧ b.userEmulator = a.userEmulator ∧
      (a.status = .ACTIVE → b = a) := by
  cases h with
  | kept _ =>
    by_cases hp : a.holds account link = true
    · refine ⟨_, mem_updateWhere.2 (.inl ⟨a, ha, hp, rfl⟩), rfl, rfl, fun hactive => ?_⟩
      rw [← hactive]
    · exact ⟨a, mem_updateWhere.2 (.inr ⟨ha, Bool.eq_false_iff.2 hp⟩), rfl, rfl, fun _ => rfl⟩
  | added id _ => exact ⟨a, List.mem_append_left _ ha, rfl, rfl, fun _ => rfl⟩

/-- A pair that has an ACTIVE row is left as it is. -/
theorem eq_self {account : String} (h : Upserted (some account) link t t') (hi : t.Integrity)
    {a : AccountEmulators} (ha : a ∈ t.accountEmulators) (haccount : a.account = some account)
    (hlink : a.userEmulator = some link) (hactive : a.status = .ACTIVE) : t' = t := by
  have hholds : a.holds (some account) link = true := by
    simp [AccountEmulators.holds, haccount, hlink]
  cases h with
  | kept _ =>
    have hsame : updateWhere (fun a => a.holds (some account) link)
        (fun a => { a with status := .ACTIVE }) t.accountEmulators = t.accountEmulators := by
      refine updateWhere_eq_self fun b hb hp => ?_
      simp only [AccountEmulators.holds, Bool.and_eq_true, decide_eq_true_eq] at hp
      have hpair : b.pair = some (account, link) := by simp [AccountEmulators.pair, hp.2]
      have hpair' : a.pair = some (account, link) := by
        simp [AccountEmulators.pair, haccount, hlink]
      rw [eq_of_unique hi.pairs hb ha hpair hpair', ← hactive]
    rw [hsame]
  | added id hnone =>
    rw [hnone a ha] at hholds
    cases hholds

end Upserted

namespace EmulatorService

/-- Assigning an existing account to an existing link succeeds. -/
theorem tryAssign_post (account : JsVal) (l : UserEmulators) (s : Server) :
    (tryAssign account l).Post s fun r s' => r = .ok () ∧
      (Upserted account.bound l.id s.tables s'.tables ∨
        (s' = s ∧ ¬ (refers (s.tables.accounts.map Account.id) account.bound = true ∧
          l ∈ s.tables.userEmulators))) := by
  refine .tryCatch ?_
  unfold accountEmulatorRepository.upsert
  rw [← bind_pure (statement _)]
  refine post_statement_bind (fun x a t hf hi => .pure ?_) fun x e he => .pure ⟨rfl, .inr ⟨rfl, ?_⟩⟩
  · dsimp only at hf
    split at hf
    · rename_i hany
      cases hf
      exact ⟨rfl, .inl (.kept (List.any_eq_true.1 hany))⟩
    · rename_i hany
      cases hf
      refine ⟨rfl, .inl (.added _ fun a ha => ?_)⟩
      exact Bool.eq_false_iff.2 fun hp => hany (List.any_eq_true.2 ⟨a, ha, hp⟩)
  · rintro ⟨haccount, hl⟩
    rcases he with he | ⟨-, a, t, ht, hnot⟩
    · dsimp only at he
      split at he <;> cases he
    · dsimp only at ht
      split at ht
      · cases ht
        exact hnot (s.integrity.set_status _)
      · rename_i hany
        cases ht
        refine hnot (s.integrity.append_assignment ?_ haccount ?_ ?_)
        · exact fun hmem => x.fresh_not_used s (Server.mem_used_of_mem_ids hmem)
        · rw [refers_some]
          exact List.mem_map_of_mem hl
        · intro k hk hmem
          obtain ⟨b, hb, hbk⟩ := List.mem_filterMap.1 hmem
          refine hany (List.any_eq_true.2 ⟨b, hb, ?_⟩)
          obtain ⟨i, hi, -⟩ := Option.bind_eq_some_iff.1 hk
          have hi' : account.bound = some i := hi
          have hkl := AccountEmulators.pair_link hk
          have hka := AccountEmulators.pair_account hk
          simp only at hkl hka
          rw [AccountEmulators.pair_link hbk, AccountEmulators.pair_account hbk, hkl, hka]
          simp

/-- Unassigning deletes the rows of the pair that `p` selects, and their
connections. -/
theorem tryUnassign_post (account : JsVal) (l : UserEmulators) (p : AccountEmulators → Bool)
    (s : Server) :
    (tryUnassign account l p).Post s fun r s' => r = .ok () ∧
      ∃ c, s'.tables = { s.tables with
        accountEmulators := s.tables.accountEmulators.filter fun a =>
          !(account.truthy && (a.userEmulator = some l.id && a.account = account.bound && p a))
        emulatorConnections := c } := by
  refine .tryCatch ?_
  split
  · rename_i htruthy
    have hcascade := s.integrity.toReferences.cascade_accountEmulators
      (l := s.tables.accountEmulators.filter fun a =>
        !(a.userEmulator = some l.id && a.account = account.bound && p a))
      fun a ha => (List.mem_filter.1 ha).1
    refine Repository.post_delete (fun hi => ⟨rfl, ?_⟩) fun hnot => ?_
    · simp only [htruthy, Bool.true_and]
      exact ⟨_, hcascade⟩
    · exact (hnot (s.integrity.toKeys.filter_accountEmulators _).cascade_integrity).elim
  · rename_i htruthy
    refine .throw (.pure ⟨rfl, s.tables.emulatorConnections, ?_⟩)
    have hall : s.tables.accountEmulators.filter (fun a => !(account.truthy &&
        (a.userEmulator = some l.id && a.account = account.bound && p a))) =
        s.tables.accountEmulators :=
      List.filter_eq_self.2 fun a _ => by rw [Bool.eq_false_iff.2 htruthy]; rfl
    rw [hall]

/-- Unassigning where no row is selected changes nothing. -/
theorem tryUnassign_idle {account : JsVal} {l : UserEmulators} {p : AccountEmulators → Bool}
    {s : Server} (hnone : ∀ a ∈ s.tables.accountEmulators, (account.truthy &&
      (a.userEmulator = some l.id && a.account = account.bound && p a)) = false) :
    (tryUnassign account l p).Post s fun r s' => r = .ok () ∧ s'.tables = s.tables := by
  refine .tryCatch ?_
  split
  · rename_i htruthy
    have hall : s.tables.accountEmulators.filter (fun a =>
        !(a.userEmulator = some l.id && a.account = account.bound && p a)) =
        s.tables.accountEmulators := by
      refine List.filter_eq_self.2 fun a ha => ?_
      have hsel := hnone a ha
      rw [htruthy, Bool.true_and] at hsel
      rw [hsel]
      rfl
    refine Repository.post_delete (fun hi => ⟨rfl, ?_⟩) fun hnot => ?_
    · show (accountEmulatorRepository.put _ s.tables).cascade = _
      simp only [accountEmulatorRepository, hall]
      exact s.integrity.toReferences.cascade_eq
    · exact (hnot (s.integrity.toKeys.filter_accountEmulators _).cascade_integrity).elim
  · exact .throw (.pure ⟨rfl, rfl⟩)

/-- Unassigning one account after another. -/
theorem unassignAll_post (items : List Json) (l : UserEmulators) (p : AccountEmulators → Bool)
    (s : Server) :
    (forM items fun j => tryUnassign (some j) l p).Post s fun r s' => r = .ok () ∧
      ∃ c, s'.tables = { s.tables with
        accountEmulators := s.tables.accountEmulators.filter fun a => !(items.any fun j =>
          j.truthy && (a.userEmulator = some l.id && a.account = j.bound && p a))
        emulatorConnections := c } := by
  induction items generalizing s with
  | nil =>
    rw [List.forM_nil]
    refine .pure ⟨rfl, s.tables.emulatorConnections, ?_⟩
    simp
  | cons j items ih =>
    rw [List.forM_cons]
    refine .bind ((tryUnassign_post (some j) l p s).mono fun r s₁ h => ?_)
    obtain ⟨rfl, c, h⟩ := h
    refine (ih s₁).mono fun r s' h' => ?_
    obtain ⟨hr, c', h'⟩ := h'
    refine ⟨hr, c', ?_⟩
    rw [h', h]
    simp only [List.filter_filter, List.any_cons, Bool.not_or]
    refine congrArg (fun rows => ({ s.tables with
      accountEmulators := rows, emulatorConnections := c' } : Tables)) ?_
    refine List.filter_congr fun a _ => ?_
    rw [Bool.and_comm]
    rfl

/-- Looking up a link, and going on with it if there is one. -/
theorem withLink_post {deviceId userId : JsVal} {g : UserEmulators → Svc Unit} {s : Server}
    {Q : Except Rejection Unit → Server → Prop}
    (hsome : ∀ l ∈ s.tables.userEmulators, deviceId.selects l.device = true →
      userId.selects l.user = true → (g l).Post s Q)
    (hnone : (∀ l ∈ s.tables.userEmulators,
      (deviceId.selects l.device && userId.selects l.user) = false) → Q (.ok ()) s) :
    (do if let some userEmulator ← findUserEmulator deviceId userId then g userEmulator :
      Svc Unit).Post s Q := by
  refine Repository.post_findRow_bind (fun l hl hp => ?_) fun hall => .pure (hnone hall)
  obtain ⟨hd, hu⟩ := Bool.and_eq_true_iff.1 hp
  exact hsome l hl hd hu

theorem check_self {userId : JsVal} {user : JwtToken} (h : checkSuperAdminOrSelf userId user = true)
    (hrole : user.role ≠ .SuperAdmin) : userId = some (.str user.sub) := by
  rcases Bool.or_eq_true_iff.1 h with h | h
  · exact absurd (of_decide_eq_true h) hrole
  · exact JsVal.isStr_iff.1 h

end EmulatorService

/-- The rule for loops over a value of a body. -/
theorem forOf_post {what : String} {v : JsVal} {body : JsVal → Svc Unit} {I : Server → Prop}
    {s : Server} (hbody : ∀ items, v.iterate = some items → ∀ j ∈ items, ∀ s, I s →
      (body (some j)).Post s fun _ => I) (hs : I s) : (forOf what v body).Post s fun _ => I := by
  unfold forOf
  split
  · exact .throw hs
  · rename_i items hitems
    exact .forM (fun j hj s hs => hbody items hitems j hj s hs) hs

/-! ## The endpoints run alone -/

theorem forkFree_forOf {what : String} {v : JsVal} {body : JsVal → Svc Unit}
    (h : ∀ j, (body j).ForkFree) : (forOf what v body).ForkFree := by
  unfold forOf
  split
  · exact trivial
  · exact .forM (fun j => h (some j)) _

namespace EmulatorService

theorem forkFree_tryAssign (account : JsVal) (l : UserEmulators) : (tryAssign account l).ForkFree :=
  Prog.forkFree_op.tryCatch fun _ => trivial

theorem forkFree_tryUnassign (account : JsVal) (l : UserEmulators) (p : AccountEmulators → Bool) :
    (tryUnassign account l p).ForkFree := by
  refine Prog.ForkFree.tryCatch ?_ fun _ => trivial
  split
  · exact Prog.forkFree_op
  · exact trivial

theorem forkFree_withLink {deviceId userId : JsVal} {g : UserEmulators → Svc Unit}
    (h : ∀ l, (g l).ForkFree) :
    (do if let some userEmulator ← findUserEmulator deviceId userId then g userEmulator :
      Svc Unit).ForkFree := by
  refine Prog.forkFree_op.bind fun found => ?_
  cases found with
  | none => exact trivial
  | some l => exact h l

theorem forkFree_assignEmulatorsToAccount (dto : MultiDevicesAccountLinkDto) (user : JwtToken) :
    (assignEmulatorsToAccount dto user).ForkFree := by
  unfold assignEmulatorsToAccount
  split
  · exact forkFree_forOf fun _ => forkFree_withLink fun _ => forkFree_tryAssign _ _
  · exact trivial

theorem forkFree_unassignEmulatorsToAccount (dto : MultiDevicesAccountLinkDto) (user : JwtToken) :
    (unassignEmulatorsToAccount dto user).ForkFree := by
  unfold unassignEmulatorsToAccount
  split
  · exact forkFree_forOf fun _ => forkFree_withLink fun _ => forkFree_tryUnassign _ _ _
  · exact trivial

theorem forkFree_unassignEmulatorFromAccounts (dto : MultiAccountsLinkDto) :
    (unassignEmulatorFromAccounts dto).ForkFree :=
  forkFree_withLink fun _ => forkFree_forOf fun _ => forkFree_tryUnassign _ _ _

theorem forkFree_assignEmulator (dto : MultiAccountsLinkDto) (user : JwtToken) :
    (assignEmulator dto user).ForkFree := by
  unfold assignEmulator
  split
  · exact forkFree_withLink fun _ => forkFree_forOf fun _ => forkFree_tryAssign _ _
  · exact trivial

theorem forkFree_linkEmulator (dto : MultiDevicesLinkDto) : (linkEmulator dto).ForkFree := by
  refine forkFree_forOf fun device_id => Prog.forkFree_op.bind fun found => ?_
  cases found with
  | some e => exact trivial
  | none =>
    refine Prog.forkFree_op.bind fun newLink => Prog.forkFree_op.bind fun adminAccount => ?_
    cases adminAccount with
    | none => exact trivial
    | some a => exact Prog.forkFree_op.bind fun _ => Prog.forkFree_op.bind fun _ => trivial

end EmulatorService

end Damaru
