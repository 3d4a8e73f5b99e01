import Damaru.Async.Trace
import Damaru.Verify.AccountUpdates

/-!
# The first login

`first_login` asks the owner of an account for a new PIN. A creation sets it to
the flag it is given for `is_admin`, and an update that gives a PIN clears it;
so it tells an admin account whose PIN nobody has changed. Where `is_admin` is
left out, each of the two columns takes its own default.
-/

namespace Damaru

open Async Table

/-- The calls that create accounts, change them or let them log in. -/
inductive AccountCall where
  | users_create (user : Json)
  | accounts_create (dto : CreateAccountDto)
  | accounts_update (id : String) (dto : Json) (jwt : JwtToken)
  | login (loginDto : Json)

namespace AccountCall

def prog : AccountCall → Svc Unit
  | users_create user => do let _ ← UsersService.create user
  | accounts_create dto => do let _ ← AccountsService.create dto
  | accounts_update id dto jwt => AccountsService.update id dto jwt
  | login loginDto => do let _ ← AuthService.validateUser loginDto

/-- The call is run alone to its end, whatever comes of it. -/
def Runs (s : Server) (c : AccountCall) (s' : Server) : Prop :=
  Pool.Settles (fun _ => True) c.prog s s'

/-- The step is a call of `update` that gives the account another PIN. -/
def ChangesPin (x : Server × AccountCall × Server) (id : String) : Prop :=
  (∃ i dto jwt, x.2.1 = accounts_update i dto jwt) ∧
    ∃ a ∈ x.1.tables.accounts, ∃ b ∈ x.2.2.tables.accounts, a.id = id ∧ b.id = id ∧ a.pin ≠ b.pin

/-- After these steps, `first_login` is set for the admin accounts whose PIN no
update has changed, and for no others. -/
def FirstLogins (steps : List (Server × AccountCall × Server)) (s : Server) : Prop :=
  ∀ a ∈ s.tables.accounts, a.first_login = true ↔
    a.is_admin = true ∧ ∀ x ∈ steps, ¬ ChangesPin x a.id

/-- The call creates an account and leaves `is_admin` out. -/
def OmitsFlag (t : Tables) : AccountCall → Prop
  | accounts_create dto => dto.is_admin = none ∧ dto.account_name.bound.isSome = true ∧
      refers (t.users.map Users.id) dto.userId.bound = true
  | _ => False

end AccountCall

/-! ## What the calls do to accounts -/

theorem Server.used_subset_used_commit (s : Server) (t : Tables) (h : t.Integrity) :
    s.used ⊆ (s.commit t h).used := List.subset_append_left _ _

/-- Accounts that satisfy `Q` have been added under new ids, if any. -/
def NewAccounts (Q : Account → Prop) (s s' : Server) : Prop :=
  s.used ⊆ s'.used ∧ ∃ l, s'.tables.accounts = s.tables.accounts ++ l ∧ ∀ a ∈ l, a.id ∉ s.used ∧ Q a

namespace NewAccounts

variable {Q : Account → Prop}

theorem refl (s : Server) : NewAccounts Q s s :=
  ⟨List.Subset.refl _, [], (List.append_nil _).symm, fun _ ha => (List.not_mem_nil ha).elim⟩

theorem trans {s₁ s₂ s₃ : Server} (h : NewAccounts Q s₁ s₂) (h' : NewAccounts Q s₂ s₃) : NewAccounts Q s₁ s₃ := by
  obtain ⟨hused, l, hl, hnew⟩ := h
  obtain ⟨hused', l', hl', hnew'⟩ := h'
  refine ⟨List.Subset.trans hused hused', l ++ l', by rw [hl', hl, List.append_assoc], fun a ha => ?_⟩
  rcases List.mem_append.1 ha with ha | ha
  · exact hnew a ha
  · exact ⟨fun hmem => (hnew' a ha).1 (hused hmem), (hnew' a ha).2⟩

theorem of_accounts {s : Server} {t : Tables} {h : t.Integrity} (heq : t.accounts = s.tables.accounts) :
    NewAccounts Q s (s.commit t h) :=
  ⟨s.used_subset_used_commit t h, [], by rw [List.append_nil]; exact heq,
    fun _ ha => (List.not_mem_nil ha).elim⟩

end NewAccounts

theorem ActivityLogService.newAccounts_log {Q : Account → Prop} (action metadata : JsVal) :
    (log action metadata).Each (NewAccounts Q) := by
  unfold log
  split
  · exact trivial
  · exact trivial
  · exact (Repository.each_insert NewAccounts.refl fun _ _ _ _ _ => .of_accounts (by rfl)).bind fun _ => trivial

namespace AccountsService

/-- The flags of an account that is created with `is_admin`. -/
def Flags (is_admin : JsVal) (a : Account) : Prop :=
  is_admin.booleanOr false = some a.is_admin ∧ is_admin.booleanOr true = some a.first_login

theorem row_flags {id : String} {name pin user admin : JsVal} {a : Account}
    (h : row id name pin user admin admin = .ok a) : Flags admin a := by
  unfold row at h
  split at h
  · cases h
    exact ⟨by assumption, by assumption⟩
  · cases h

/-- A flag that is given is the value of both columns. -/
theorem Flags.first_login {j : Json} {a : Account} (h : Flags (some j) a) : a.first_login = a.is_admin :=
  Option.some.inj (h.2.symm.trans ((JsVal.booleanOr_some true false j).trans h.1))

theorem newAccounts_insertAccount (dto : CreateAccountDto) : (insertAccount dto).Each (NewAccounts (Flags dto.is_admin)) := by
  refine (each_query NewAccounts.refl).bind fun draws => Prog.Each.bind ?_ fun _ => trivial
  refine Repository.each_insert NewAccounts.refl fun x s a ha hi => ?_
  refine ⟨s.used_subset_used_commit _ hi, [a], rfl, fun b hb => ?_⟩
  rw [List.mem_singleton.1 hb, (row_fields ha).1]
  exact ⟨x.fresh_not_used s, row_flags ha⟩

theorem newAccounts_create (dto : CreateAccountDto) : (create dto).Each (NewAccounts (Flags dto.is_admin)) := by
  rw [create_eq]
  split
  · refine (Repository.each_find NewAccounts.refl).bind fun l => ?_
    split
    · exact trivial
    · exact newAccounts_insertAccount dto
  · exact newAccounts_insertAccount dto

/-- Without a flag, the account is added if its columns can be stored. -/
theorem create_omitted {dto : CreateAccountDto} (hadmin : dto.is_admin = none) (s : Server) :
    (create dto).Post s fun _ s' =>
      ((dto.account_name.bound.isSome = true ∧
          refers (s.tables.users.map Users.id) dto.userId.bound = true) ∧
        ∃ a, a ∈ s'.tables.accounts ∧ a.is_admin = false ∧ a.first_login = true) ∨
      (¬ (dto.account_name.bound.isSome = true ∧
          refers (s.tables.users.map Users.id) dto.userId.bound = true) ∧ s' = s) := by
  have hfalse : ¬ dto.is_admin.truthy = true := by
    rw [hadmin]
    exact Bool.false_ne_true
  have hpin : ∀ t : String, (dto.pin.orElse (some (.str t))).bound.isSome = true := by
    intro t
    cases dto.pin with
    | none => rfl
    | some j => cases j <;> rfl
  rw [create_eq, if_neg hfalse]
  unfold insertAccount
  refine post_read_bind fun x => ?_
  refine Repository.post_insert_bind (fun y a ha hi => .pure (.inl ⟨⟨?_, ?_⟩, a, ?_, ?_, ?_⟩)) fun y e he => ?_
  · exact (row_ok_iff.1 ⟨a, ha⟩).1
  · rw [← (row_fields ha).2.1]
    exact hi.account_user a (List.mem_append_right _ (List.mem_singleton.2 rfl))
  · exact List.mem_append_right _ (List.mem_singleton.2 rfl)
  · have hflag := (row_flags ha).1
    rw [hadmin] at hflag
    exact (Option.some.inj hflag).symm
  · have hflag := (row_flags ha).2
    rw [hadmin] at hflag
    exact (Option.some.inj hflag).symm
  · refine .inr ⟨fun ⟨hname, href⟩ => ?_, rfl⟩
    obtain ⟨a, ha⟩ := (@row_ok_iff (y.fresh s) _ _ dto.userId _).2
      ⟨hname, hpin (StringUtils.generateRandomNumeric 5 x.draws),
        (show Flag dto.is_admin by rw [hadmin]; rfl)⟩
    rcases he with he | ⟨-, a', ha', hnot⟩
    · rw [ha] at he
      cases he
    · rw [ha] at ha'
      cases ha'
      obtain ⟨hid, huser, -⟩ := row_fields ha
      refine hnot (append_account s.integrity ?_ ?_)
      · rw [hid]
        exact fun hmem => y.fresh_not_used s (Server.mem_used_of_mem_ids hmem)
      · rw [huser]
        exact href

end AccountsService

theorem UsersService.newAccounts_create (user : Json) :
    (create user).Each (NewAccounts fun a => a.first_login = a.is_admin) := by
  have hlog := @ActivityLogService.newAccounts_log fun a => a.first_login = a.is_admin
  cases hrole : roleText user with
  | none =>
    rw [create_eq_throw hrole]
    exact trivial
  | some roleName =>
    rw [create_eq hrole]
    refine (Repository.each_findRow NewAccounts.refl).bind fun role => ?_
    refine (each_query NewAccounts.refl).bind fun draws => Prog.Each.bind ?_ fun password => ?_
    · unfold HashUtils.hash
      split
      · exact each_query NewAccounts.refl
      · exact trivial
    · cases role with
      | none => exact trivial
      | some role =>
        refine (Repository.each_insert NewAccounts.refl fun _ _ _ _ _ => .of_accounts (by rfl)).bind fun id => ?_
        unfold afterInsert
        refine (hlog _ _).bind fun _ => ?_
        dsimp only
        split
        · refine (each_query NewAccounts.refl).bind fun _ => Prog.Each.bind ?_ fun _ => ?_
          · refine (AccountsService.newAccounts_create _).mono fun s s' h => ?_
            obtain ⟨hused, l, hl, hnew⟩ := h
            exact ⟨hused, l, hl, fun a ha => ⟨(hnew a ha).1, (hnew a ha).2.first_login⟩⟩
          · exact (hlog _ _).bind fun _ => (each_query NewAccounts.refl).bind fun _ => trivial
        · exact (each_query NewAccounts.refl).bind fun _ => trivial

namespace AccountsService

/-- An update that succeeds gives a PIN that the account does not have. -/
theorem update_effect (id : String) (dto : Json) (jwt : JwtToken) (s : Server) :
    (update id dto jwt).Post s fun _ s' => s' = s ∨ (s.used ⊆ s'.used ∧
      s'.tables.accounts = updateWhere (fun a => decide (a.id = id)) (updated dto) s.tables.accounts ∧
      ∀ a ∈ s.tables.accounts, a.id = id → given dto "pin" ≠ some a.pin) := by
  unfold update findUserByAccount
  refine Repository.post_findRow_bind (fun b hb hid => ?_) fun _ => .throw (.inl rfl)
  have hrow : ∀ a ∈ s.tables.accounts, a.id = id → a = b := fun a ha haid =>
    eq_of_key s.integrity.accounts ha hb (haid.trans (of_decide_eq_true hid).symm)
  have hset : given dto "pin" ≠ some b.pin →
      (do let _ ← accountRepository.set (some (.str id)) fun _ a => updated dto a : Svc Unit).Post s
        fun _ s' => s' = s ∨ (s.used ⊆ s'.used ∧
          s'.tables.accounts = updateWhere (fun a => decide (a.id = id)) (updated dto) s.tables.accounts ∧
          ∀ a ∈ s.tables.accounts, a.id = id → given dto "pin" ≠ some a.pin) := by
    intro hne
    refine Repository.post_set_bind (fun _ hi _ => .pure (.inr ⟨?_, rfl, fun a ha haid => ?_⟩))
      fun _ _ _ _ => .inl rfl
    · exact s.used_subset_used_commit _ hi
    · rw [hrow a ha haid]
      exact hne
  dsimp only
  split
  · split
    · exact .throw (.inl rfl)
    · simp only [updated_eq]
      split
      · rename_i hpin
        obtain ⟨k, hk, hgiven⟩ := given_of_truthy hpin
        refine Repository.post_findRow_bind (fun _ _ _ => .throw (.inl rfl)) fun hnone => hset fun hsame => ?_
        have hfree := hnone b hb
        rw [hgiven] at hsame
        unfold JsVal.selects at hfree
        rw [hk] at hfree
        cases hu : b.user <;> simp [hu, Option.some.inj hsame] at hfree
      · rename_i hpin
        refine hset ?_
        rw [given_of_not_truthy hpin]
        exact nofun
  · exact .throw (.inl rfl)

end AccountsService

/-- What the calls tell of an account: a login changes none of it. -/
def Account.core (a : Account) : String × Bool × Bool × String := (a.id, a.is_admin, a.first_login, a.pin)

def SameCores (s s' : Server) : Prop :=
  s.used ⊆ s'.used ∧ s'.tables.accounts.map Account.core = s.tables.accounts.map Account.core

theorem SameCores.refl (s : Server) : SameCores s s := ⟨List.Subset.refl _, rfl⟩

theorem AuthService.sameCores_validateUser (loginDto : Json) :
    (validateUser loginDto).Each SameCores := by
  refine each_validateUser_of SameCores.refl (fun account => ?_) loginDto
  refine Repository.each_update SameCores.refl (fun x s f hf hi => ?_) fun s hi => ?_
  · cases hf
    exact ⟨s.used_subset_used_commit _ hi, map_updateWhere fun _ _ => rfl⟩
  · exact ⟨s.used_subset_used_commit _ hi, rfl⟩

/-! ## Runs -/

namespace AccountCall

theorem changesPin_snoc {steps : List (Server × AccountCall × Server)}
    {x : Server × AccountCall × Server} {id : String} :
    (∀ y ∈ steps ++ [x], ¬ ChangesPin y id) ↔ (∀ y ∈ steps, ¬ ChangesPin y id) ∧ ¬ ChangesPin x id := by
  rw [List.forall_mem_append, List.forall_mem_singleton]

/-- What holds after the steps of a run: `first_login` tells its history, and
the history is one of ids that have been given out. -/
def Told (steps : List (Server × AccountCall × Server)) (s : Server) : Prop :=
  FirstLogins steps s ∧ ∀ x ∈ steps, ∀ id, ChangesPin x id → id ∈ s.used

variable {steps : List (Server × AccountCall × Server)} {s s' : Server} {c : AccountCall}

/-- A call that changes no PIN keeps what `first_login` tells if the accounts are
as they were, or new with one flag for both columns. -/
theorem Told.other (h : Told steps s) (hnot : ∀ id, ¬ ChangesPin (s, c, s') id)
    (hused : s.used ⊆ s'.used)
    (haccounts : ∀ a ∈ s'.tables.accounts, (∃ b ∈ s.tables.accounts, a.core = b.core) ∨
      (a.id ∉ s.used ∧ a.first_login = a.is_admin)) : Told (steps ++ [(s, c, s')]) s' := by
  refine ⟨fun a ha => ?_, fun x hx id hid => ?_⟩
  · rw [changesPin_snoc, and_iff_left (hnot _)]
    rcases haccounts a ha with ⟨b, hb, hcore⟩ | ⟨hnew, hflag⟩
    · have hiff := h.1 b hb
      simp only [Account.core, Prod.mk.injEq] at hcore
      obtain ⟨hid, hadmin, hfirst, -⟩ := hcore
      rwa [hid, hadmin, hfirst]
    · rw [hflag]
      refine ⟨fun hadmin => ⟨hadmin, fun x hx hchange => hnew (h.2 x hx _ hchange)⟩, And.left⟩
  · rcases List.mem_append.1 hx with hx | hx
    · exact hused (h.2 x hx id hid)
    · rw [List.mem_singleton.1 hx] at hid
      exact (hnot id hid).elim

/-- An update clears `first_login` exactly if it changes the PIN. -/
theorem Told.update (h : Told steps s) {id : String} {dto : Json} {jwt : JwtToken}
    (hused : s.used ⊆ s'.used)
    (haccounts : s'.tables.accounts =
      updateWhere (fun a => decide (a.id = id)) (AccountsService.updated dto) s.tables.accounts)
    (hpin : ∀ a ∈ s.tables.accounts, a.id = id → AccountsService.given dto "pin" ≠ some a.pin) :
    Told (steps ++ [(s, accounts_update id dto jwt, s')]) s' := by
  have hchange : ∀ a ∈ s'.tables.accounts, ∀ b ∈ s.tables.accounts, b.id = a.id →
      (ChangesPin (s, accounts_update id dto jwt, s') a.id ↔ b.pin ≠ a.pin) := by
    intro a ha b hb hba
    constructor
    · rintro ⟨-, b', hb', a', ha', hb'a, ha'a, hne⟩
      rwa [eq_of_key s.integrity.accounts hb hb' (hba.trans hb'a.symm),
        eq_of_key s'.integrity.accounts ha ha' ha'a.symm]
    · exact fun hne => ⟨⟨id, dto, jwt, rfl⟩, b, hb, a, ha, hba, rfl, hne⟩
  refine ⟨fun a ha => ?_, fun x hx i hi => ?_⟩
  · rw [changesPin_snoc]
    have hmem := ha
    rw [haccounts] at hmem
    rcases mem_updateWhere.1 hmem with ⟨b, hb, hbid, hab⟩ | ⟨hb, -⟩
    · have hid : b.id = a.id := by rw [← hab]; rfl
      have hadmin : b.is_admin = a.is_admin := by rw [← hab]; rfl
      have hfirst : a.first_login = (b.first_login && (AccountsService.given dto "pin").isNone) := by
        rw [← hab]
        rfl
      have hnew : a.pin = (AccountsService.given dto "pin").getD b.pin := by
        rw [← hab]
        rfl
      have hbefore := h.1 b hb
      rw [hid, hadmin] at hbefore
      rw [hchange a ha b hb hid, hfirst, hnew, Bool.and_eq_true, hbefore]
      cases hgiven : AccountsService.given dto "pin" with
      | none => simp
      | some k =>
        have hne : b.pin ≠ k := fun heq => hpin b hb (of_decide_eq_true hbid) (hgiven.trans (heq ▸ rfl))
        simp [hne]
    · rw [hchange a ha a hb rfl, h.1 a hb]
      simp
  · rcases List.mem_append.1 hx with hx | hx
    · exact hused (h.2 x hx i hi)
    · rw [List.mem_singleton.1 hx] at hi
      obtain ⟨-, -, -, b, hb, -, hid, -⟩ := hi
      exact hid ▸ Server.mem_used_of_mem_ids (Tables.account_id_mem hb)

theorem Told.newAccounts {Q : Account → Prop} (h : Told steps s) (hnot : ∀ id, ¬ ChangesPin (s, c, s') id)
    (hnew : NewAccounts Q s s') (hQ : ∀ a, Q a → a.first_login = a.is_admin) :
    Told (steps ++ [(s, c, s')]) s' := by
  obtain ⟨hused, l, hl, hadded⟩ := hnew
  refine h.other hnot hused fun a ha => ?_
  rw [hl] at ha
  rcases List.mem_append.1 ha with ha | ha
  · exact .inl ⟨a, ha, rfl⟩
  · exact .inr ⟨(hadded a ha).1, hQ a (hadded a ha).2⟩

/-- Nothing that is left as it was has another PIN. -/
theorem not_changesPin_same (id : String) : ¬ ChangesPin (s, c, s) id := by
  rintro ⟨-, a, ha, b, hb, haid, hbid, hne⟩
  exact hne (by rw [eq_of_key s.integrity.accounts ha hb (haid.trans hbid.symm)])

/-- The step lemma. -/
theorem told_step (hrun : Runs s c s') (h : Told steps s) :
    (FirstLogins (steps ++ [(s, c, s')]) s' → ¬ OmitsFlag s.tables c) ∧
      (¬ OmitsFlag s.tables c → Told (steps ++ [(s, c, s')]) s') := by
  have hnot : (∀ i dto jwt, c ≠ accounts_update i dto jwt) → ∀ id, ¬ ChangesPin (s, c, s') id := by
    rintro hc id ⟨⟨i, dto, jwt, hcall⟩, -⟩
    exact hc i dto jwt hcall
  have hadds : ∀ {Q : Account → Prop}, c.prog.Each (NewAccounts Q) → NewAccounts Q s s' := fun heach =>
    Pool.Settles.each NewAccounts.refl (fun _ _ _ => .trans) hrun heach
  cases c with
  | users_create user =>
    have hnew := hadds ((UsersService.newAccounts_create user).bind fun _ => trivial)
    exact ⟨fun _ => id, fun _ => h.newAccounts (hnot nofun) hnew fun _ => id⟩
  | accounts_create dto =>
    cases hadmin : dto.is_admin with
    | some j =>
      have hnew := hadds ((AccountsService.newAccounts_create dto).bind fun _ => trivial)
      rw [hadmin] at hnew
      refine ⟨fun _ homits => ?_, fun _ => h.newAccounts (hnot nofun) hnew fun _ hflags => hflags.first_login⟩
      have hnone := homits.1
      rw [hadmin] at hnone
      cases hnone
    | none =>
      have hpost := (AccountsService.create_omitted hadmin s).andThen
        (f := fun _ => (pure () : Svc Unit)) fun _ => ⟨.ok (), rfl⟩
      have hend := Prog.Post.settles (hpost.mono fun _ _ h _ => h)
        ((AccountsService.forkFree_create dto).bind fun _ => Prog.forkFree_pure) hrun
      rcases hend with ⟨hstored, a, ha, hflag, hfirst⟩ | ⟨hstored, hsame⟩
      · refine ⟨fun htells => ?_, fun homits => (homits ⟨hadmin, hstored⟩).elim⟩
        have hadmin' := ((htells a ha).1 hfirst).1
        rw [hflag] at hadmin'
        cases hadmin'
      · refine ⟨fun _ homits => hstored homits.2, fun _ => h.other (hnot nofun) ?_ fun a ha => ?_⟩
        · rw [hsame]
          exact List.Subset.refl _
        · rw [hsame] at ha
          exact .inl ⟨a, ha, rfl⟩
  | accounts_update id dto jwt =>
    refine ⟨fun _ => False.elim, fun _ => ?_⟩
    have hend := Prog.Post.settles ((AccountsService.update_effect id dto jwt s).mono fun _ _ h _ => h)
      (AccountsService.forkFree_update id dto jwt) hrun
    rcases hend with hsame | ⟨hused, haccounts, hpin⟩
    · rw [hsame]
      exact h.other not_changesPin_same (List.Subset.refl _) fun a ha => .inl ⟨a, ha, rfl⟩
    · exact h.update hused haccounts hpin
  | login loginDto =>
    refine ⟨fun _ => False.elim, fun _ => ?_⟩
    have hcores : SameCores s s' := by
      refine Pool.Settles.each SameCores.refl (fun _ _ _ h h' => ?_) hrun
        ((AuthService.sameCores_validateUser loginDto).bind fun _ => trivial)
      exact ⟨List.Subset.trans h.1 h'.1, h'.2.trans h.2⟩
    refine h.other (hnot nofun) hcores.1 fun a ha => .inl ?_
    have hmem := List.mem_map_of_mem (f := Account.core) ha
    rw [hcores.2] at hmem
    obtain ⟨b, hb, heq⟩ := List.mem_map.1 hmem
    exact ⟨b, hb, heq.symm⟩

/-- **First logins.** From a seeded database, `first_login` tells in every
state of a run the admin accounts whose PIN no update has changed, if and only
if no call of the run creates an account and leaves `is_admin` out. -/
theorem first_logins_iff {s₀ s : Server} (hstart : Seeded s₀.tables) (hrun : Trace Runs s₀ steps s) :
    (∀ l₁ x l₂, steps = l₁ ++ x :: l₂ → FirstLogins (l₁ ++ [x]) x.2.2) ↔
      ∀ x ∈ steps, ¬ OmitsFlag x.1.tables x.2.1 := by
  refine hrun.forall_histories_iff (I := Told) (C := fun x => ¬ OmitsFlag x.1.tables x.2.1)
    (fun l t c t' hstep h => told_step hstep h) (fun _ _ h => h.1) ⟨fun a ha => ?_, fun x hx => ?_⟩
  · rw [hstart.accounts] at ha
    cases ha
  · cases hx

end AccountCall

namespace Sample

def createAndroidUser : AccountCall :=
  .users_create ((userBody "u").spreadWith "role" (.str Roles.AndroidUser.text))

/-- A second account of the user, for which nothing says whether it is an admin
account. -/
def createOrdinary : AccountCall :=
  .accounts_create ⟨some (.str "one"), some (.str "u"), some (.str "7"), none⟩

end Sample

theorem first_logins_created : ∃ steps s, Trace AccountCall.Runs Sample.seeded steps s ∧
    steps.map (fun x => x.2.1) = [Sample.createAndroidUser] ∧
    ((∀ l₁ x l₂, steps = l₁ ++ x :: l₂ → AccountCall.FirstLogins (l₁ ++ [x]) x.2.2) ↔
      ∀ x ∈ steps, ¬ AccountCall.OmitsFlag x.1.tables x.2.1) := by
  have hplay : (Sample.createAndroidUser.prog.run
      (["", "", "", "u", "g1", "", "", "", "u-root", "g2", ""].map Sample.input) Sample.seeded).isSome = true := by
    decide +kernel
  obtain ⟨o, ho⟩ := Option.isSome_iff_exists.1 hplay
  have hruns : AccountCall.Runs Sample.seeded Sample.createAndroidUser o.2 :=
    .of_ends (Prog.ends_of_run ho) fun _ _ => trivial
  have htrace := Trace.snoc .nil hruns
  exact ⟨_, _, htrace, rfl, AccountCall.first_logins_iff Sample.seeded_tables htrace⟩

/-- An ordinary account asks for a new PIN at its first login. -/
theorem first_login_of_ordinary : ∃ steps s, Seeded Sample.seeded.tables ∧
    Trace AccountCall.Runs Sample.seeded steps s ∧
    steps.map (fun x => x.2.1) = [Sample.createAndroidUser, Sample.createOrdinary] ∧
    ¬ AccountCall.FirstLogins steps s := by
  have hplay : (Sample.createAndroidUser.prog.run
      (["", "", "", "u", "g1", "", "", "", "u-root", "g2", ""].map Sample.input) Sample.seeded).any (fun o =>
        (Sample.createOrdinary.prog.run (["", "one"].map Sample.input) o.2).any fun o' =>
          o'.2.tables.accounts.any fun a => a.first_login && !a.is_admin) = true := by
    decide +kernel
  obtain ⟨o, ho, hplay⟩ := (Option.any_eq_true _ _).1 hplay
  obtain ⟨o', ho', hplay⟩ := (Option.any_eq_true _ _).1 hplay
  obtain ⟨a, ha, hflags⟩ := List.any_eq_true.1 hplay
  obtain ⟨hfirst, hadmin⟩ := Bool.and_eq_true_iff.1 hflags
  have hruns : AccountCall.Runs Sample.seeded Sample.createAndroidUser o.2 :=
    .of_ends (Prog.ends_of_run ho) fun _ _ => trivial
  have hruns' : AccountCall.Runs o.2 Sample.createOrdinary o'.2 :=
    .of_ends (Prog.ends_of_run ho') fun _ _ => trivial
  refine ⟨_, _, Sample.seeded_tables, .snoc (.snoc .nil hruns) hruns', rfl, fun htells => ?_⟩
  rw [((htells a ha).1 hfirst).1] at hadmin
  cases hadmin

end Damaru
