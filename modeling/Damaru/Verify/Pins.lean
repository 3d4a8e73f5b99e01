import Damaru.Verify.Operations
import Damaru.Verify.Privileges

/-!
# PINs

At login the PIN alone tells the accounts of a user apart. An update refuses a
PIN that another account of the user has; the creation of an account takes the
PIN it is given, or draws one, and looks at no other account.
-/

namespace Damaru

open Async Table

/-- No two accounts of one user have one PIN. -/
def Tables.PinsDistinct (t : Tables) : Prop :=
  ∀ u, ∀ a ∈ t.accounts, ∀ b ∈ t.accounts, a.user = some u → b.user = some u → a.pin = b.pin → a = b

namespace Tables.PinsDistinct

theorem of_subset {t t' : Tables} (h : t.PinsDistinct) (hsub : t'.accounts ⊆ t.accounts) :
    t'.PinsDistinct :=
  fun u a ha b hb => h u a (hsub ha) b (hsub hb)

theorem of_eq {t t' : Tables} (h : t.PinsDistinct) (heq : t'.accounts = t.accounts) :
    t'.PinsDistinct := h.of_subset (heq ▸ List.Subset.refl _)

/-- One account more keeps the PINs distinct exactly if no other account of its
user has its PIN. -/
theorem append_iff {t t' : Tables} {a : Account} (h : t.PinsDistinct)
    (heq : t'.accounts = t.accounts ++ [a]) (hnew : a ∉ t.accounts) :
    t'.PinsDistinct ↔ ∀ b ∈ t.accounts, ∀ u, a.user = some u → b.user = some u → b.pin ≠ a.pin := by
  have hlast : a ∈ t'.accounts := by
    rw [heq]
    exact List.mem_append_right _ (List.mem_singleton.2 rfl)
  constructor
  · intro h' b hb u hau hbu hpin
    have hb' : b ∈ t'.accounts := by
      rw [heq]
      exact List.mem_append_left _ hb
    apply hnew
    rw [← h' u b hb' a hlast hbu hau hpin]
    exact hb
  · intro hne u x hx y hy hxu hyu hpin
    rw [heq] at hx hy
    rcases List.mem_append.1 hx with hx | hx <;> rcases List.mem_append.1 hy with hy | hy
    · exact h u x hx y hy hxu hyu hpin
    · rw [List.mem_singleton.1 hy] at hyu hpin
      exact absurd hpin (hne x hx u hyu hxu)
    · rw [List.mem_singleton.1 hx] at hxu hpin
      exact absurd hpin.symm (hne y hy u hxu hyu)
    · rw [List.mem_singleton.1 hx, List.mem_singleton.1 hy]

/-- Giving one account a PIN that no account of its user has. -/
theorem update {t t' : Tables} {id : String} {f : Account → Account} (h : t.PinsDistinct)
    (hkeys : (t.accounts.map Account.id).Nodup)
    (heq : t'.accounts = updateWhere (fun a => decide (a.id = id)) f t.accounts)
    (huser : ∀ a, (f a).user = a.user)
    (hpin : ∀ a ∈ t.accounts, a.id = id → (f a).pin = a.pin ∨
      ∀ b ∈ t.accounts, ∀ u, a.user = some u → b.user = some u → b.pin ≠ (f a).pin) :
    t'.PinsDistinct := by
  intro u x hx y hy hxu hyu hxy
  rw [heq] at hx hy
  rcases mem_updateWhere.1 hx with ⟨a, ha, haid, rfl⟩ | ⟨hx, hxid⟩ <;>
    rcases mem_updateWhere.1 hy with ⟨b, hb, hbid, rfl⟩ | ⟨hy, hyid⟩
  · rw [eq_of_key hkeys ha hb ((of_decide_eq_true haid).trans (of_decide_eq_true hbid).symm)]
  · rw [huser] at hxu
    rcases hpin a ha (of_decide_eq_true haid) with hsame | hfree
    · have hay := h u a ha y hy hxu hyu (hsame ▸ hxy)
      exact absurd (hay ▸ of_decide_eq_true haid) (of_decide_eq_false hyid)
    · exact absurd hxy.symm (hfree y hy u hxu hyu)
  · rw [huser] at hyu
    rcases hpin b hb (of_decide_eq_true hbid) with hsame | hfree
    · have hbx := h u b hb x hx hyu hxu (hsame ▸ hxy.symm)
      exact absurd (hbx ▸ of_decide_eq_true hbid) (of_decide_eq_false hxid)
    · exact absurd hxy (hfree x hx u hyu hxu)
  · exact h u x hx y hy hxu hyu hxy

end Tables.PinsDistinct

namespace AccountsService

/-- What `create` does once no admin account stands against it. -/
def insertAccount (dto : CreateAccountDto) : Svc (String × CreateAccountDto) := do
  let draws ← random
  let account := { dto with
    pin := dto.pin.orElse (some (.str (StringUtils.generateRandomNumeric 5 draws))) }
  let id ← accountRepository.insert fun x s =>
    row (x.fresh s) account.account_name account.pin
      account.userId account.is_admin account.is_admin
  return (id, account)

/-- The PIN that the call gives on its inputs: the one it is given, or the one
it draws. -/
def pin (dto : CreateAccountDto) (x : Ext) : JsVal :=
  dto.pin.orElse (some (.str (StringUtils.generateRandomNumeric 5 x.draws)))

theorem create_eq (dto : CreateAccountDto) : create dto =
    if dto.is_admin.truthy then do
      let existingAdminAccounts ← accountRepository.find
        (fun _ a => a.is_admin && dto.userId.selects a.user) fun _ a => a
      if existingAdminAccounts.length > 0 then
        throw (.http .FOUND "Admin account already found for this user")
      insertAccount dto
    else insertAccount dto := by
  unfold create insertAccount
  dsimp only

/-- The value is one that the boolean columns take. -/
def Flag (admin : JsVal) : Prop := (admin.booleanOr false).isSome = true

theorem flag_iff {admin : JsVal} : Flag admin ↔ (admin.booleanOr true).isSome = true :=
  JsVal.booleanOr_isSome.trans JsVal.booleanOr_isSome.symm

/-- The row of an account, if there is one. -/
theorem row_ok_iff {id : String} {name pin user admin : JsVal} :
    (∃ a, row id name pin user admin admin = .ok a) ↔
      name.bound.isSome = true ∧ pin.bound.isSome = true ∧ Flag admin := by
  have hflag := @flag_iff admin
  unfold Flag at hflag ⊢
  unfold row
  cases name.bound with
  | none => simp
  | some name =>
    cases pin.bound with
    | none => simp
    | some pin =>
      cases hf : admin.booleanOr false with
      | none => simp
      | some b =>
        rw [hf] at hflag
        obtain ⟨c, hc⟩ := Option.isSome_iff_exists.1 (hflag.1 rfl)
        simp [hc]

theorem row_fields {id : String} {name pin user admin : JsVal} {a : Account}
    (h : row id name pin user admin admin = .ok a) :
    a.id = id ∧ a.user = user.bound ∧ pin.bound = some a.pin := by
  unfold row at h
  split at h
  · cases h
    exact ⟨rfl, rfl, by assumption⟩
  · cases h

/-- The account can be stored: its columns are not null, the flag is a boolean,
and its user, if it names one, exists. -/
def Storable (t : Tables) (dto : CreateAccountDto) (pin : JsVal) : Prop :=
  dto.account_name.bound.isSome = true ∧ pin.bound.isSome = true ∧ Flag dto.is_admin ∧
    refers (t.users.map Users.id) dto.userId.bound = true

/-- The account that the call adds. -/
def Adds (t t' : Tables) (dto : CreateAccountDto) (pin : JsVal) : Prop :=
  ∃ a : Account, a ∉ t.accounts ∧ t'.accounts = t.accounts ++ [a] ∧ a.user = dto.userId.bound ∧
    pin.bound = some a.pin

/-- On given inputs the account is added if it can be stored, and else nothing
changes. -/
theorem insertAccount_run {dto : CreateAccountDto} {xs : List Ext} {s : Server}
    {o : Except Rejection (String × CreateAccountDto) × Server}
    (h : (insertAccount dto).run xs s = some o) : ∃ x ys, xs = x :: ys ∧
      ((Storable s.tables dto (pin dto x) ∧ Adds s.tables o.2.tables dto (pin dto x)) ∨
        (¬ Storable s.tables dto (pin dto x) ∧ o.2.tables = s.tables)) := by
  unfold insertAccount random query at h
  cases xs with
  | nil => cases h
  | cons x ys =>
    refine ⟨x, ys, rfl, ?_⟩
    rw [Prog.run_op_bind] at h
    dsimp only at h
    cases ys with
    | nil => cases h
    | cons y zs =>
      cases hrow : row (y.fresh s) dto.account_name (pin dto x) dto.userId dto.is_admin
          dto.is_admin with
      | error e =>
        rw [Repository.run_insert_bind_error hrow] at h
        cases h
        refine .inr ⟨fun hst => ?_, rfl⟩
        obtain ⟨a, ha⟩ := (@row_ok_iff (y.fresh s) _ _ dto.userId _).2
          ⟨hst.1, hst.2.1, hst.2.2.1⟩
        rw [hrow] at ha
        cases ha
      | ok a =>
        obtain ⟨hid, huser, hpin⟩ := row_fields hrow
        obtain ⟨hname, hsome, hadmin⟩ := row_ok_iff.1 ⟨a, hrow⟩
        have hfresh : a.id ∉ s.tables.ids := by
          rw [hid]
          exact fun hmem => y.fresh_not_used s (Server.mem_used_of_mem_ids hmem)
        by_cases hi : (accountRepository.put (accountRepository.rows s.tables ++ [a]) s.tables).Integrity
        · rw [Repository.run_insert_bind hrow hi] at h
          cases h
          have href := hi.account_user a (List.mem_append_right _ (List.mem_singleton.2 rfl))
          rw [huser] at href
          refine .inl ⟨⟨hname, hsome, hadmin, href⟩, a, ?_, rfl, huser, hpin⟩
          exact fun hmem => hfresh (Tables.account_id_mem hmem)
        · rw [Repository.run_insert_bind_refused hrow hi] at h
          cases h
          refine .inr ⟨fun hst => hi (append_account s.integrity hfresh ?_), rfl⟩
          rw [huser]
          exact hst.2.2.2

/-- No admin account of the user stands against an admin account. -/
def Unopposed (t : Tables) (dto : CreateAccountDto) : Prop :=
  dto.is_admin.truthy = true → ∀ b ∈ t.accounts, b.is_admin = true → dto.userId.selects b.user = false

/-- The input from which the call draws, after the one for its query. -/
def drawn (dto : CreateAccountDto) (xs : List Ext) : Ext :=
  xs.getD (if dto.is_admin.truthy then 1 else 0) default

theorem create_run {dto : CreateAccountDto} {xs : List Ext} {s : Server}
    {o : Except Rejection (String × CreateAccountDto) × Server} (h : (create dto).run xs s = some o) :
    (Unopposed s.tables dto ∧ Storable s.tables dto (pin dto (drawn dto xs)) ∧
        Adds s.tables o.2.tables dto (pin dto (drawn dto xs))) ∨
      (¬ (Unopposed s.tables dto ∧ Storable s.tables dto (pin dto (drawn dto xs))) ∧
        o.2.tables = s.tables) := by
  rw [create_eq] at h
  unfold drawn
  cases hadmin : dto.is_admin.truthy with
  | false =>
    rw [hadmin, if_neg Bool.false_ne_true] at h
    have hfree : Unopposed s.tables dto := fun htrue => by rw [hadmin] at htrue; cases htrue
    obtain ⟨x, ys, rfl, hst | hst⟩ := insertAccount_run h
    · exact .inl ⟨hfree, hst⟩
    · exact .inr ⟨fun hboth => hst.1 hboth.2, hst.2⟩
  | true =>
    rw [hadmin, if_pos rfl] at h
    unfold Repository.find query at h
    cases xs with
    | nil => cases h
    | cons x ys =>
      rw [Prog.run_op_bind] at h
      dsimp only at h
      rw [List.length_map] at h
      by_cases hlen : (accountRepository.scan
          (fun _ a => a.is_admin && dto.userId.selects a.user) x s.tables).length > 0
      · rw [if_pos hlen] at h
        cases h
        refine .inr ⟨fun hboth => ?_, rfl⟩
        obtain ⟨b, hb⟩ := List.exists_mem_of_length_pos hlen
        obtain ⟨hmem, hsel⟩ := Repository.mem_scan.1 hb
        obtain ⟨hisAdmin, hsel⟩ := Bool.and_eq_true_iff.1 hsel
        rw [hboth.1 hadmin b hmem hisAdmin] at hsel
        cases hsel
      · rw [if_neg hlen] at h
        have hfree : Unopposed s.tables dto := by
          intro _ b hb hisAdmin
          rw [Bool.eq_false_iff]
          intro hsel
          apply hlen
          exact List.length_pos_of_mem (Repository.mem_scan.2 ⟨hb, by rw [hisAdmin, hsel]; rfl⟩)
        have hrun : (insertAccount dto).run ys s = some o := h
        obtain ⟨z, zs, rfl, hst | hst⟩ := insertAccount_run hrun
        · exact .inl ⟨hfree, hst⟩
        · exact .inr ⟨fun hboth => hst.1 hboth.2, hst.2⟩

/-- The call adds an account with the PIN of another account of its user. -/
def Collides (t : Tables) (dto : CreateAccountDto) (xs : List Ext) : Prop :=
  (Unopposed t dto ∧ Storable t dto (pin dto (drawn dto xs))) ∧
    ∃ b ∈ t.accounts, ∃ u, dto.userId.bound = some u ∧ b.user = some u ∧
      (pin dto (drawn dto xs)).bound = some b.pin

theorem create_pins {dto : CreateAccountDto} {xs : List Ext} {s : Server}
    {o : Except Rejection (String × CreateAccountDto) × Server} (h : (create dto).run xs s = some o)
    (hs : s.tables.PinsDistinct) : o.2.tables.PinsDistinct ↔ ¬ Collides s.tables dto xs := by
  rcases create_run h with ⟨hfree, hst, a, hnew, hadds, huser, hpin⟩ | ⟨hnot, htables⟩
  · rw [hs.append_iff hadds hnew]
    constructor
    · rintro hne ⟨-, b, hb, u, hau, hbu, hsame⟩
      rw [hpin] at hsame
      exact hne b hb u (huser.trans hau) hbu (Option.some.inj hsame).symm
    · intro hnone b hb u hau hbu hsame
      rw [huser] at hau
      exact hnone ⟨⟨hfree, hst⟩, b, hb, u, hau, hbu, by rw [hpin, hsame]⟩
  · rw [htables]
    exact iff_of_true hs fun hcollides => hnot hcollides.1

theorem update_pins {id : String} {dto : Json} {jwt : JwtToken} {s s' : Server}
    {r : Except Rejection Unit} (h : (update id dto jwt).Ends s r s') (hs : s.tables.PinsDistinct) :
    s'.tables.PinsDistinct := by
  have hpost : (update id dto jwt).Post s fun _ s' => s'.tables.PinsDistinct := by
    unfold update findUserByAccount
    refine Repository.post_findRow_bind (fun b hb hid => ?_) fun _ => .throw hs
    have hid' : b.id = id := of_decide_eq_true hid
    dsimp only
    split
    · split
      · exact .throw hs
      · split
        · rename_i hpin
          refine Repository.post_findRow_bind (fun _ _ _ => .throw hs) fun hnone => ?_
          refine Repository.post_set_bind (fun _ hi _ => .pure ?_) fun _ _ _ _ => hs
          refine hs.update s.integrity.accounts rfl (fun _ => rfl) fun a ha haid => .inr ?_
          intro c hc u hau hcu hsame
          have hab : a = b := eq_of_key s.integrity.accounts ha hb (haid.trans hid'.symm)
          have hfalse := hnone c hc
          rw [← hab, hau, Option.all_some, hcu, decide_eq_true rfl, Bool.true_and] at hfalse
          unfold JsVal.selects at hfalse
          split at hfalse
          · cases hfalse
          · rename_i t ht
            have hsame' : c.pin = (dto.get? "pin").bound.getD a.pin := hsame
            rw [ht] at hsame'
            exact of_decide_eq_false hfalse (congrArg some hsame')
        · refine Repository.post_set_bind (fun _ hi _ => .pure ?_) fun _ _ _ _ => hs
          exact hs.update s.integrity.accounts rfl (fun _ => rfl) fun a ha haid => .inl rfl
    · exact .throw hs
  exact hpost r s' h

theorem remove_pins {id : String} {payload : JwtToken} {s s' : Server} {r : Except Rejection Unit}
    (h : (remove id payload).Ends s r s') (hs : s.tables.PinsDistinct) : s'.tables.PinsDistinct := by
  rcases remove_post id payload s r s' h with ⟨-, htables⟩ | ⟨-, htables⟩
  · apply hs.of_subset
    rw [htables]
    exact List.Subset.trans (List.filter_subset_self _) (List.filter_subset_self _)
  · rw [htables]
    exact hs

end AccountsService

theorem UsersService.create_pins {user : Json} {s s' : Server}
    {r : Except Rejection (Option (Users × List Account) × JsVal)}
    (h : (UsersService.create user).Ends s r s') (hs : s.tables.PinsDistinct) :
    s'.tables.PinsDistinct := by
  rcases UsersService.create_ofNewUser user s r s' h with haccounts | ⟨a, haccounts, u, hau, hnone⟩
  · exact hs.of_eq haccounts
  · refine (hs.append_iff haccounts fun ha => hnone a ha hau).2 fun b hb v hav hbv => ?_
    rw [hau] at hav
    cases hav
    exact absurd hbv (hnone b hb)

/-! ## Runs -/

namespace Operation

/-- The calls that write accounts. -/
def OnAccounts : Operation → Prop
  | users_create _ => True
  | accounts_create _ => True
  | accounts_update _ _ _ => True
  | accounts_remove _ _ => True
  | _ => False

/-- The call runs alone on its inputs: what the clock, the random draws and
the scans give it. -/
def Plays (s : Server) (call : Operation × List Ext) (s' : Server) : Prop :=
  ∃ r, call.1.prog.run call.2 s = some (r, s')

/-- The call creates an account with the PIN of another account of its user. -/
def TakesPin (s : Server) (call : Operation × List Ext) : Prop :=
  ∃ dto, call.1 = accounts_create dto ∧ AccountsService.Collides s.tables dto call.2

/-- The step lemma. -/
theorem pins_step {s s' : Server} {call : Operation × List Ext} (h : Plays s call s')
    (hcall : call.1.OnAccounts) (hs : s.tables.PinsDistinct) :
    s'.tables.PinsDistinct ↔ ¬ TakesPin s call := by
  obtain ⟨r, hrun⟩ := h
  obtain ⟨op, xs⟩ := call
  have hother : (∀ dto, op ≠ accounts_create dto) → ¬ TakesPin s (op, xs) := by
    rintro hne ⟨dto, hop, -⟩
    exact hne dto hop
  cases op with
  | accounts_create dto =>
    have hrun' : ((AccountsService.create dto >>= fun _ => pure ()) : Svc Unit).run xs s =
      some (r, s') := hrun
    rw [Prog.run_bind_unit] at hrun'
    obtain ⟨o, ho, heq⟩ := Option.map_eq_some_iff.1 hrun'
    have hpins := AccountsService.create_pins ho hs
    have hstate : o.2 = s' := (Prod.mk.inj heq).2
    rw [hstate] at hpins
    rw [hpins, not_iff_not]
    constructor
    · exact fun hc => ⟨dto, rfl, hc⟩
    · rintro ⟨dto', hop, hc⟩
      cases hop
      exact hc
  | users_create user =>
    refine iff_of_true ?_ (hother fun _ h => by cases h)
    rcases Prog.ends_bind.1 (Prog.ends_of_run hrun) with ⟨e, -, hend⟩ | ⟨a, t, hend, hpure⟩
    · exact UsersService.create_pins hend hs
    · have hstate : s' = t := (Prog.ends_pure.1 hpure).2
      rw [hstate]
      exact UsersService.create_pins hend hs
  | accounts_update id dto jwt =>
    exact iff_of_true (AccountsService.update_pins (Prog.ends_of_run hrun) hs)
      (hother fun _ h => by cases h)
  | accounts_remove id payload =>
    exact iff_of_true (AccountsService.remove_pins (Prog.ends_of_run hrun) hs)
      (hother fun _ h => by cases h)
  | _ => exact hcall.elim

/-- **PINs.** From a seeded database, the PINs of the accounts of every user
are distinct in all states of a run if and only if no call of the run creates
an account with the PIN of another account of its user. -/
theorem pins_distinct_iff {s₀ s : Server} {steps : List (Server × (Operation × List Ext) × Server)}
    (hstart : Seeded s₀.tables) (hrun : Trace Plays s₀ steps s)
    (hcalls : ∀ x ∈ steps, x.2.1.1.OnAccounts) :
    (∀ x ∈ steps, x.2.2.tables.PinsDistinct) ↔ ∀ x ∈ steps, ¬ TakesPin x.1 x.2.1 := by
  refine hrun.forall_states_iff (I := fun s => s.tables.PinsDistinct)
    (C := fun x => ¬ TakesPin x.1 x.2.1) ?_ ?_
  · intro x hx hstep hs
    exact pins_step hstep (hcalls x hx) hs
  · intro u a ha
    rw [hstart.accounts] at ha
    cases ha

theorem plays_of_playAll {l : List (Operation × List Ext)} {s₀ s s' : Server}
    {steps : List (Server × (Operation × List Ext) × Server)} (hs : Trace Plays s₀ steps s)
    (h : playAll l s = some s') :
    ∃ steps', Trace Plays s₀ (steps ++ steps') s' ∧ steps'.map (fun x => x.2.1) = l := by
  induction l generalizing s steps with
  | nil =>
    cases h
    exact ⟨[], by rwa [List.append_nil], rfl⟩
  | cons call l ih =>
    obtain ⟨o, ho, h⟩ := Option.bind_eq_some_iff.1 h
    obtain ⟨steps', hsteps, hcalls⟩ := ih (hs.snoc ⟨o.1, ho⟩) h
    exact ⟨(s, call, o.2) :: steps', by simpa using hsteps, by simp [hcalls]⟩

end Operation

namespace Sample

def createAccount (name pin : String) : Operation × List Ext :=
  (.accounts_create ⟨some (.str name), some (.str "u"), some (.str pin), none⟩, ["", name].map input)

end Sample

theorem pins_distinct_alone : ∃ steps s, Trace Operation.Plays Sample.seeded steps s ∧
    steps.map (fun x => x.2.1) = [Sample.createUser, Sample.createAccount "one" "7"] ∧
    ((∀ x ∈ steps, x.2.2.tables.PinsDistinct) ↔ ∀ x ∈ steps, ¬ Operation.TakesPin x.1 x.2.1) := by
  have hplay : (Operation.playAll [Sample.createUser, Sample.createAccount "one" "7"]
      Sample.seeded).isSome = true := by decide +kernel
  obtain ⟨s, hs⟩ := Option.isSome_iff_exists.1 hplay
  obtain ⟨steps, hrun, hcalls⟩ := Operation.plays_of_playAll .nil hs
  refine ⟨steps, s, hrun, hcalls, Operation.pins_distinct_iff Sample.seeded_tables hrun ?_⟩
  intro x hx
  have hmem : x.2.1 ∈ [Sample.createUser, Sample.createAccount "one" "7"] := by
    rw [← hcalls]
    exact List.mem_map_of_mem hx
  rcases List.mem_cons.1 hmem with h | h
  · rw [h]
    trivial
  · rw [List.mem_singleton.1 h]
    trivial

/-- Two accounts of a user are created with one PIN. -/
theorem pins_not_distinct : ∃ steps s, Seeded Sample.seeded.tables ∧
    Trace Operation.Plays Sample.seeded steps s ∧
    steps.map (fun x => x.2.1) =
      [Sample.createUser, Sample.createAccount "one" "7", Sample.createAccount "two" "7"] ∧
    ¬ s.tables.PinsDistinct := by
  have hplay : (Operation.playAll
      [Sample.createUser, Sample.createAccount "one" "7", Sample.createAccount "two" "7"]
      Sample.seeded).any (fun s =>
        decide (⟨"one", some "u", "one", true, false, "7", none⟩ ∈ s.tables.accounts) &&
          decide (⟨"two", some "u", "two", true, false, "7", none⟩ ∈ s.tables.accounts)) = true := by
    decide +kernel
  obtain ⟨s, hs, hplay⟩ := (Option.any_eq_true _ _).1 hplay
  obtain ⟨hone, htwo⟩ := Bool.and_eq_true_iff.1 hplay
  obtain ⟨steps, hrun, hcalls⟩ := Operation.plays_of_playAll .nil hs
  refine ⟨steps, s, Sample.seeded_tables, hrun, hcalls, fun hdistinct => ?_⟩
  have hsame := hdistinct "u" _ (of_decide_eq_true hone) _ (of_decide_eq_true htwo) rfl rfl rfl
  simp at hsame

end Damaru
