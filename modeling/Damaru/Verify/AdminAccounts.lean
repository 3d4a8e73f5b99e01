import Damaru.Async.Serial
import Damaru.Verify.Pins
import Damaru.Verify.RootAccounts
import Damaru.Verify.Threads

/-!
# Admin accounts under concurrency

Nothing in the database keeps a user from having two admin accounts: `create`
looks for one and then inserts. Requests that are not disturbed between the two
leave one at most; two that both look before either inserts leave two.
-/

namespace Damaru

open Async Table Async.Pool

namespace AccountsService

/-- How many admin accounts the user has. -/
def adminCount (u : String) (s : Server) : Nat := (s.tables.admins u).length

/-- The step in which a request inserts an admin account, if it ever does:
the third, after the lookup and the draw. -/
def insertsAdmin (dto : CreateAccountDto) : Option Nat :=
  if dto.is_admin.booleanOr false = some true ∧ dto.account_name.bound.isSome = true then some 2 else none

/-- Concurrent requests to create accounts. -/
def creations (dtos : List CreateAccountDto) : Pool (Turn CreateAccountDto Nat) Ext Server Rejection :=
  dtos.map fun dto => (⟨dto, 0, 0⟩, (create dto).toTask)

/-- What `create` does once it has drawn a PIN. -/
def storeAccount (dto : CreateAccountDto) (draws : Nat → Nat) : Svc (String × CreateAccountDto) := do
  let account := { dto with
    pin := dto.pin.orElse (some (.str (StringUtils.generateRandomNumeric 5 draws))) }
  let id ← accountRepository.insert fun x s =>
    row (x.fresh s) account.account_name account.pin
      account.userId account.is_admin account.is_admin
  return (id, account)

theorem insertAccount_eq (dto : CreateAccountDto) : insertAccount dto = random >>= storeAccount dto := rfl

/-- Where a request for an account of the user stands. One that gives a flag
is past its lookup only if it saw no admin account. -/
def CreateStage (u : String) (k : Turn CreateAccountDto Nat) (t : Task Ext Server Rejection) : Prop :=
  k.request.userId.bound = some u ∧
    ((k.taken = 0 ∧ t = (create k.request).toTask) ∨
      (k.taken = 1 ∧ k.seen = 0 ∧ k.request.is_admin.truthy = true ∧ t = (insertAccount k.request).toTask) ∨
      ∃ draws, (k.request.is_admin.truthy = true → k.taken = 2 ∧ k.seen = 0) ∧
        t = (storeAccount k.request draws).toTask)

/-- A creation adds an admin account where there was none, or none. -/
def CreateEffect (v v' : Nat) : Prop := v' = v ∨ (v = 0 ∧ v' = 1)

variable {user : String} {k : Turn CreateAccountDto Nat} {u : Ext → Server → Server}
  {n : Ext → Server → Task Ext Server Rejection} {s : Server}

/-- What a step of a request at a stage does. -/
def Goes (user : String) (k : Turn CreateAccountDto Nat) (s s' : Server) (t : Task Ext Server Rejection) : Prop :=
  (adminCount user s' = adminCount user s ∧ ∃ u' n', t = .await u' n' ∧
      CreateStage user (k.next (adminCount user) s) (.await u' n')) ∨
    (isEnded t = true ∧ CreateEffect (adminCount user s) (adminCount user s'))

/-- No admin account is found exactly if there is none. -/
theorem adminCount_of_scan {v : JsVal} (hv : v.bound = some user) {x : Ext}
    (h : accountRepository.scan (fun _ a => a.is_admin && v.selects a.user) x s.tables = []) :
    adminCount user s = 0 := by
  unfold adminCount
  rw [List.length_eq_zero_iff, List.eq_nil_iff_forall_not_mem]
  intro a ha
  obtain ⟨ha, hau, hadmin⟩ := Tables.mem_admins.1 ha
  have hmem : a ∈ accountRepository.scan (fun _ a => a.is_admin && v.selects a.user) x s.tables := by
    refine Repository.mem_scan.2 ⟨ha, ?_⟩
    unfold JsVal.selects
    rw [hv, hau, hadmin]
    exact decide_eq_true rfl
  rw [h] at hmem
  cases hmem

/-- The draw. -/
theorem insertAccount_step {seen taken : Nat} (hk : k.next (adminCount user) s = ⟨k.request, taken, seen⟩)
    (huser : k.request.userId.bound = some user)
    (hseen : k.request.is_admin.truthy = true → taken = 2 ∧ seen = 0)
    (h : (insertAccount k.request).toTask = .await u n) (x : Ext) : Goes user k s (u x s) (n x s) := by
  rw [insertAccount_eq] at h
  obtain ⟨hu, ⟨draws, -, hn⟩ | ⟨e, he, -⟩⟩ := query_step h x s
  · rw [hu]
    refine .inl ⟨rfl, _, _, hn, ?_⟩
    rw [hk]
    exact ⟨huser, .inr (.inr ⟨draws, hseen, rfl⟩)⟩
  · cases he

/-- The lookup: a request that gives a flag goes on if it sees no admin account. -/
theorem create_step (htaken : k.taken = 0) (huser : k.request.userId.bound = some user)
    (h : (create k.request).toTask = .await u n) (x : Ext) : Goes user k s (u x s) (n x s) := by
  have hnext : k.next (adminCount user) s = ⟨k.request, 1, adminCount user s⟩ := by
    rw [Turn.next, htaken]
    rfl
  rw [create_eq] at h
  cases hadmin : k.request.is_admin.truthy with
  | false =>
    rw [hadmin, if_neg Bool.false_ne_true] at h
    exact insertAccount_step hnext huser (fun htrue => by rw [hadmin] at htrue; cases htrue) h x
  | true =>
    rw [hadmin, if_pos rfl] at h
    obtain ⟨hu, ⟨l, hl, hn⟩ | ⟨e, he, -⟩⟩ := query_step h x s
    · rw [hu]
      obtain rfl := Except.ok.inj hl
      dsimp only at hn
      rw [List.length_map] at hn
      by_cases hlen : (accountRepository.scan
          (fun _ a => a.is_admin && k.request.userId.selects a.user) x s.tables).length > 0
      · rw [if_pos hlen] at hn
        exact .inr ⟨by rw [hn]; rfl, .inl rfl⟩
      · rw [if_neg hlen] at hn
        have hzero := adminCount_of_scan huser (List.length_eq_zero_iff.1 (Nat.eq_zero_of_not_pos hlen))
        refine .inl ⟨rfl, _, _, hn, ?_⟩
        rw [hnext, hzero]
        exact ⟨huser, .inr (.inl ⟨rfl, rfl, hadmin, rfl⟩)⟩
    · cases he

/-- The insert: an admin account is added where the request saw none. -/
theorem storeAccount_step {draws : Nat → Nat} (huser : k.request.userId.bound = some user)
    (hseen : k.request.is_admin.truthy = true → k.taken = 2 ∧ k.seen = 0)
    (hundisturbed : k.Undisturbed (adminCount user) insertsAdmin s)
    (h : (storeAccount k.request draws).toTask = .await u n) (x : Ext) :
    Goes user k s (u x s) (n x s) := by
  refine .inr ?_
  rcases Repository.insert_step h x s with ⟨a, ha, hn, hi, hu⟩ | ⟨hu, e, hn, -⟩
  · refine ⟨by rw [hn]; rfl, ?_⟩
    obtain ⟨hname, -, -⟩ := row_ok_iff.1 ⟨a, ha⟩
    obtain ⟨hau, hflag⟩ := row_eq ha
    rw [huser] at hau
    have hcount : adminCount user (u x s) = adminCount user s + if a.is_admin then 1 else 0 := by
      rw [hu]
      unfold adminCount
      rw [Tables.admins_append rfl, List.length_append]
      cases hadmin : a.is_admin <;> simp [hau, hadmin]
    cases hadmin : a.is_admin with
    | false =>
      rw [hadmin] at hcount
      exact .inl hcount
    | true =>
      rw [hadmin] at hflag hcount
      obtain ⟨htaken, hzero⟩ := hseen (truthy_of_boolean hflag)
      have hview := hundisturbed (by rw [insertsAdmin, if_pos ⟨hflag, hname⟩, htaken])
      rw [hzero] at hview
      exact .inr ⟨hview, by rw [hcount, hview]; rfl⟩
  · rw [hu]
    exact ⟨by rw [hn]; rfl, .inl rfl⟩

/-- **One admin account.** A user with one admin account at most has one at most
in every state of a run in which no admin account is inserted for the user
between the lookup of a request and its own insert. -/
theorem one_admin_account {dtos : List CreateAccountDto} {s s' : Server}
    {ts : Pool (Turn CreateAccountDto Nat) Ext Server Rejection}
    (hdtos : ∀ dto ∈ dtos, dto.userId.bound = some user) (hone : (s.tables.admins user).length ≤ 1)
    (hrun : Runs (Turn.next (adminCount user))
      (fun _ k s => k.Undisturbed (adminCount user) insertsAdmin s) (creations dtos) s ts s') :
    (s'.tables.admins user).length ≤ 1 := by
  have hstart : ∀ th ∈ creations dtos, isEnded th.2 = true ∨ CreateStage user th.1 th.2 := by
    intro th hth
    obtain ⟨dto, hdto, rfl⟩ := List.mem_map.1 hth
    exact .inr ⟨hdtos dto hdto, .inl ⟨rfl, rfl⟩⟩
  obtain ⟨-, -, l, hserial, -⟩ := hrun.serial (I := fun _ => True) (fun _ => CreateEffect)
    (fun k u n x s _ hstage hundisturbed => by
      refine ⟨trivial, ?_⟩
      obtain ⟨huser, ⟨htaken, htask⟩ | ⟨htaken, hzero, -, htask⟩ | ⟨draws, hseen, htask⟩⟩ := hstage
      · exact create_step htaken huser htask.symm x
      · exact insertAccount_step (by rw [Turn.next, htaken]; rfl) huser (fun _ => ⟨rfl, hzero⟩) htask.symm x
      · exact storeAccount_step huser hseen hundisturbed htask.symm x) trivial hstart
  refine hserial.invariant (I := fun v => v ≤ 1) (fun _ _ v v' heffect hv => ?_) hone
  rcases heffect with rfl | ⟨-, rfl⟩
  · exact hv
  · exact Nat.le_refl 1

end AccountsService

/-- An admin account of the user `s`, who has none. -/
def Sample.adminDto (name : String) : CreateAccountDto :=
  ⟨some (.str name), some (.str "s"), some (.str "7"), some (.bool true)⟩

namespace AccountsService

/-- A request alone, and one that comes after it and finds the account. -/
theorem one_admin_account_alone : ∃ s' ts,
    Runs (Turn.next (adminCount "s")) (fun _ k s => k.Undisturbed (adminCount "s") insertsAdmin s)
      (creations [Sample.adminDto "one", Sample.adminDto "two"]) Sample.seeded ts s' ∧
    Finished (fun _ => True) ts ∧ (s'.tables.admins "s").length ≤ 1 := by
  have hexec : (execIf (Turn.next (adminCount "s"))
      (fun _ k s => decide (k.Undisturbed (adminCount "s") insertsAdmin s))
      [(0, default), (0, default), (0, Sample.input "a"), (1, default)]
      (creations [Sample.adminDto "one", Sample.adminDto "two"]) Sample.seeded).any
        (fun o => o.1.all fun t => isEnded t.2) = true := by
    decide +kernel
  obtain ⟨o, ho, hend⟩ := (Option.any_eq_true _ _).1 hexec
  have hrun : Runs (Turn.next (adminCount "s"))
      (fun _ k s => k.Undisturbed (adminCount "s") insertsAdmin s)
      (creations [Sample.adminDto "one", Sample.adminDto "two"]) Sample.seeded o.1 o.2 :=
    runs_of_execIf (fun _ _ _ => of_decide_eq_true) ho
  refine ⟨o.2, o.1, hrun, finished_iff_isEnded.2 hend, one_admin_account ?_ (by decide) hrun⟩
  intro dto hdto
  rcases List.mem_pair.1 hdto with rfl | rfl <;> rfl

/-- Two requests look for an admin account before either inserts one. -/
theorem two_admin_accounts : ¬ ∀ (user : String) (dtos : List CreateAccountDto) (s s' : Server)
    (ts : Pool (Turn CreateAccountDto Nat) Ext Server Rejection),
    (∀ dto ∈ dtos, dto.userId.bound = some user) → (s.tables.admins user).length ≤ 1 →
    Runs (Turn.next (adminCount user)) (fun _ _ _ => True) (creations dtos) s ts s' →
    (s'.tables.admins user).length ≤ 1 := by
  intro hall
  have hexec : (exec (Turn.next (adminCount "s"))
      [(0, default), (1, default), (0, default), (1, default), (0, Sample.input "a"), (1, Sample.input "b")]
      (creations [Sample.adminDto "one", Sample.adminDto "two"]) Sample.seeded).any
        (fun o => decide ((o.2.tables.admins "s").length = 2)) = true := by
    decide +kernel
  obtain ⟨o, ho, htwo⟩ := (Option.any_eq_true _ _).1 hexec
  have hone := hall "s" [Sample.adminDto "one", Sample.adminDto "two"] Sample.seeded o.2 o.1 (by
    intro dto hdto
    rcases List.mem_pair.1 hdto with rfl | rfl <;> rfl) (by decide) (runs_of_exec ho)
  rw [of_decide_eq_true htwo] at hone
  exact absurd hone (by decide)

end AccountsService

end Damaru
