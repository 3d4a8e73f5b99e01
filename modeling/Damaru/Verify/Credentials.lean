import Damaru.Verify.Attribution
import Damaru.Verify.Login
import Damaru.Verify.UserRetry

/-!
# Credentials that were handed out

What the creation of a user answers are credentials: later, however the threads
of the events that come take turns, they log that user in, unless one of the
events has changed or deleted the user or the account.
-/

namespace Damaru

open Async Table

/-- The user is there, an Android user, and has an account with the name and the
PIN of `a`. -/
structure Tables.Knows (t : Tables) (u : Users) (a : Account) : Prop where
  user : u ∈ t.users
  android : t.IsAndroid u
  account : ∃ b ∈ t.accounts, b.id = a.id ∧ b.user = some u.id ∧ b.account_name = a.account_name ∧
    b.pin = a.pin

theorem Tables.Knows.mono {t t' : Tables} {u : Users} {a : Account} (h : t.Knows u a)
    (hr : t'.roles = t.roles) (hu : t.users ⊆ t'.users) (ha : t.accounts ⊆ t'.accounts) : t'.Knows u a := by
  obtain ⟨b, hb, hsame⟩ := h.account
  obtain ⟨r, hmem, hrole⟩ := h.android
  exact ⟨hu h.user, ⟨r, hr ▸ hmem, hrole⟩, b, ha hb, hsame⟩

/-- An admitted request to change or to delete the user or the account. -/
def Event.Alters (u : Users) (a : Account) : Event → Prop
  | http user (.users_update id dto) => HttpRequest.admits (.users_update id dto) user = true ∧ id = u.id
  | http user (.users_delete id) => HttpRequest.admits (.users_delete id) user = true ∧ id = u.id
  | http user (.accounts_update id dto) =>
    HttpRequest.admits (.accounts_update id dto) user = true ∧ id = a.id
  | http user (.accounts_delete id) => HttpRequest.admits (.accounts_delete id) user = true ∧ id = a.id
  | _ => False

/-- The step leaves the user and its account known. -/
def Keeps (u : Users) (a : Account) (s s' : Server) : Prop :=
  s.tables.Knows u a → s'.tables.Knows u a

theorem Keeps.refl (u : Users) (a : Account) (s : Server) : Keeps u a s s := fun h => h

/-! ## What keeps credentials -/

/-- The kinds of writes that only add users and accounts. -/
def Kind.Spares : Kind → Prop
  | .userFields => False
  | .deleteUser => False
  | .accountFields => False
  | .deleteAccount => False
  | _ => True

theorem Writes.keeps {ks : List Kind} (hks : ∀ k ∈ ks, k.Spares) {u : Users} {a : Account} {s s' : Server}
    (hw : Writes ks s s') : Keeps u a s s' := by
  intro h
  rcases hw.tables with ht | ⟨k, hk, hw⟩
  · exact ht ▸ h
  · have hi := s.integrity
    have hk := hks k hk
    generalize s'.tables = t' at hw
    cases hw with
    | newUser v => exact h.mono rfl (List.subset_append_left _ _) (List.Subset.refl _)
    | newAccount b => exact h.mono rfl (List.Subset.refl _) (List.subset_append_left _ _)
    | deleteEmulator p =>
      obtain ⟨hu, ha, -⟩ := hi.toReferences.cascade_emulators (s.tables.emulators.filter p)
      exact h.mono rfl (by rw [hu]; exact List.Subset.refl _) (by rw [ha]; exact List.Subset.refl _)
    | userFields p f hf => exact hk.elim
    | deleteUser p => exact hk.elim
    | accountFields p f hf => exact hk.elim
    | deleteAccount p => exact hk.elim
    | _ => exact h.mono rfl (List.Subset.refl _) (List.Subset.refl _)

/-- No call writes roles. -/
theorem Writes.roles {ks : List Kind} {s s' : Server} (hw : Writes ks s s') :
    s'.tables.roles = s.tables.roles := by
  rcases hw.tables with ht | ⟨k, -, hw⟩
  · rw [ht]
  · exact (hw.same s.integrity .role).resolve_right (by cases k <;> simp [Kind.entities])

variable {u : Users} {a : Account}

/-- An update of accounts that spares the account, or its name and its PIN. -/
theorem keeps_accounts {p : Account → Bool} {f : Account → Account} {s : Server}
    {hi : ({ s.tables with accounts := updateWhere p f s.tables.accounts } : Tables).Integrity}
    (h : ∀ b, p b = true → b.id = a.id → (f b).id = b.id ∧ (f b).user = b.user ∧
      (f b).account_name = b.account_name ∧ (f b).pin = b.pin) : Keeps u a s (s.commit _ hi) := by
  intro hknows
  obtain ⟨b, hb, hid, huser, hname, hpin⟩ := hknows.account
  refine ⟨hknows.user, hknows.android, ?_⟩
  cases hp : p b with
  | true =>
    obtain ⟨hfid, hfuser, hfname, hfpin⟩ := h b hp hid
    exact ⟨f b, mem_updateWhere.2 (.inl ⟨b, hb, hp, rfl⟩), hfid.trans hid, hfuser.trans huser,
      hfname.trans hname, hfpin.trans hpin⟩
  | false => exact ⟨b, mem_updateWhere.2 (.inr ⟨hb, hp⟩), hid, huser, hname, hpin⟩

namespace UsersService

theorem keeps_log (action metadata : JsVal) : (ActivityLogService.log action metadata).Each (Keeps u a) := by
  have hlog : (ActivityLogService.log action metadata).Each (Writes [.activityLogs]) :=
    ActivityLogService.each_log List.mem_cons_self
  exact hlog.mono fun _ _ hw => hw.keeps (by simp [Kind.Spares])

theorem keeps_update {id : String} (hid : id ≠ u.id) (user : Json) : (update id user).Each (Keeps u a) := by
  have hwrite : ∀ password, (writeUpdate id user password).Each (Keeps u a) := by
    refine fun password => (keeps_log _ _).bind fun _ => ?_
    refine (Repository.each_update (Keeps.refl u a) (fun x s f hf hi hknows => ?_)
      fun s _ => Keeps.refl u a s).bind fun _ => trivial
    refine ⟨mem_updateWhere.2 (.inr ⟨hknows.user, ?_⟩), hknows.android, hknows.account⟩
    exact Bool.eq_false_iff.2 fun hsel => hid (selected_str.1 hsel).symm
  rcases update_cases id user with ⟨e, h⟩ | h
  · rw [h]
    exact trivial
  · rw [h]
    exact (each_hashGiven (Keeps.refl u a) user).bind hwrite

theorem keeps_remove {id : String} (hid : id ≠ u.id) : (remove id).Each (Keeps u a) := by
  unfold remove
  refine (each_query (Keeps.refl u a)).bind fun devices => (keeps_log _ _).bind fun _ => ?_
  refine (Prog.Each.forM (fun device => Prog.Each.detach ?_) _).bind fun _ => ?_
  · cases device with
    | none => exact trivial
    | some d =>
      have hset : (do
          let _ ← emulatorRepository.set (some (.str d)) fun _ e => { e with state := .AVAILABLE } :
          Svc Unit).Each (Writes [.state]) := EmulatorService.each_setState List.mem_cons_self
      exact hset.mono fun _ _ hw => hw.keeps (by simp [Kind.Spares])
  · refine Repository.each_deleteById (Keeps.refl u a) fun s hi hknows => ?_
    have hkept : (!decide (u.id = id)) = true := by rw [decide_eq_false hid.symm]; rfl
    have hu : u ∈ ({ s.tables with users := s.tables.users.filter fun v => !decide (v.id = id) } :
        Tables).cascade.users :=
      List.mem_filter.2 ⟨List.mem_filter.2 ⟨hknows.user, hkept⟩, s.integrity.role u hknows.user⟩
    obtain ⟨b, hb, hbid, hbuser, hsame⟩ := hknows.account
    refine ⟨hu, hknows.android, b, List.mem_filter.2 ⟨hb, ?_⟩, hbid, hbuser, hsame⟩
    rw [hbuser, refers_some]
    exact List.mem_map_of_mem hu

end UsersService

namespace AccountsService

theorem keeps_update {id : String} (hid : id ≠ a.id) (dto : Json) (jwt : JwtToken) :
    (update id dto jwt).Each (Keeps u a) := by
  have hset : ∀ f : Account → Account, (do
      let _ ← accountRepository.set (some (.str id)) fun _ a => f a : Svc Unit).Each (Keeps u a) := by
    intro f
    refine (Repository.each_update (Keeps.refl u a) (fun x s f hf hi => ?_)
      fun s _ => Keeps.refl u a s).bind fun _ => trivial
    exact keeps_accounts fun b hsel hb => absurd ((selected_str.1 hsel).symm.trans hb) hid
  unfold update findUserByAccount
  refine (Repository.each_findRow (Keeps.refl u a)).bind fun found => ?_
  cases found with
  | none => exact trivial
  | some a =>
    dsimp only
    split
    · split
      · exact trivial
      · split
        · refine (Repository.each_findRow (Keeps.refl _ _)).bind fun taken => ?_
          split
          · exact trivial
          · exact hset _
        · exact hset _
    · exact trivial

theorem keeps_remove {id : String} (hid : id ≠ a.id) (payload : JwtToken) :
    (remove id payload).Each (Keeps u a) := by
  unfold remove findUserByAccount
  refine (Repository.each_findRow (Keeps.refl u a)).bind fun found => ?_
  cases found with
  | none => exact trivial
  | some c =>
    dsimp only
    split
    · refine Repository.each_deleteById (Keeps.refl u a) fun s hi hknows => ?_
      obtain ⟨hu, ha, -⟩ := s.integrity.toReferences.cascade_accounts
        (l := s.tables.accounts.filter fun b => !decide (b.id = id)) fun b hb => (List.mem_filter.1 hb).1
      obtain ⟨b, hb, hbid, hsame⟩ := hknows.account
      have hkept : (!decide (b.id = id)) = true := by
        rw [decide_eq_false fun h => hid (h.symm.trans hbid)]
        rfl
      refine ⟨hu.symm ▸ hknows.user, hknows.android, b, ?_, hbid, hsame⟩
      exact ha.symm ▸ List.mem_filter.2 ⟨hb, hkept⟩
    · exact trivial

end AccountsService

theorem AuthService.keeps_validateUser (loginDto : Json) : (validateUser loginDto).Each (Keeps u a) := by
  refine each_validateUser_of (Keeps.refl u a) (fun account => ?_) loginDto
  refine Repository.each_update (Keeps.refl u a) (fun x s f hf hi => ?_) fun s _ => Keeps.refl u a s
  cases hf
  exact keeps_accounts fun b _ _ => ⟨rfl, rfl, rfl, rfl⟩

/-- The code of an event that does not alter the user or the account. -/
theorem Event.each_keeps {e : Event} (he : ¬ e.Alters u a) : e.prog.Each (Keeps u a) := by
  have hkinds : (∀ k ∈ e.kinds, k.Spares) → e.prog.Each (Keeps u a) :=
    fun hks => e.each_prog.mono fun _ _ hw => hw.keeps hks
  cases e with
  | http user req =>
    cases hadmits : req.admits user with
    | false =>
      refine hkinds fun k hk => ?_
      rw [(kinds_http hk).1] at hadmits
      cases hadmits
    | true =>
      have hrun : (req.run user).Each (Keeps u a) → (http user req).prog.Each (Keeps u a) := by
        refine fun h => Prog.Each.bind ?_ fun _ => trivial
        rw [HttpRequest.handle_of_admits hadmits]
        exact h
      cases req with
      | users_update id dto =>
        exact hrun ((UsersService.keeps_update (fun hid => he ⟨hadmits, hid⟩) dto).bind fun _ => trivial)
      | users_delete id =>
        exact hrun ((UsersService.keeps_remove fun hid => he ⟨hadmits, hid⟩).bind fun _ => trivial)
      | accounts_update id dto =>
        exact hrun ((AccountsService.keeps_update (fun hid => he ⟨hadmits, hid⟩) dto user).bind
          fun _ => trivial)
      | accounts_delete id =>
        exact hrun ((AccountsService.keeps_remove (fun hid => he ⟨hadmits, hid⟩) user).bind
          fun _ => trivial)
      | _ =>
        refine hkinds fun k hk => (?_ : ∀ k ∈ HttpRequest.kinds _, k.Spares) k (kinds_http hk).2
        simp [HttpRequest.kinds, Kind.Spares]
  | message client user event body =>
    refine hkinds ?_
    cases event <;> simp [kinds, SignalingServerGateway.Event.kinds, Kind.Spares]
  | disconnect client => exact hkinds (by simp [kinds, Kind.Spares])
  | login dto => exact (AuthService.keeps_validateUser dto).bind fun _ => trivial

/-- However the threads take turns, what is known stays known. -/
theorem knows_run {w₀ w : Gateway} {steps : List (Gateway × Live.Move Event Ext Server Rejection × Gateway)}
    (hstart : w₀.threads = []) (hrun : Trace (Live.Step serving) w₀ steps w)
    (hevents : ∀ x ∈ steps, ∀ e, x.2.1.event? = some e → ¬ e.Alters u a)
    (hknows : w₀.state.tables.Knows u a) : w.state.tables.Knows u a := by
  have hall := Live.each_run (C := fun e => ¬ e.Alters u a) (R := fun _ => Keeps u a)
    (fun e x s he => Event.each_start (Keeps.refl u a) (Event.each_keeps he) x s) hrun hstart hevents
  refine hrun.invariant_of_mem (I := fun w => w.state.tables.Knows u a) (fun x hx _ h => ?_) hknows
  obtain ⟨e, he⟩ := exists_author hrun x hx
  exact (hall x hx e he).2 h

/-! ## Logging in -/

namespace AuthService

/-- Logging in with the body succeeds, at any time, for an account of the user
that has the PIN. -/
def LetsIn (s : Server) (body : Json) (u : Users) (pin : String) : Prop :=
  ∀ now, (∃ r s', ((validateUser body).under (Ext.at now)).Yields [] s r s') ∧
    ∀ r s', ((validateUser body).under (Ext.at now)).Yields [] s r s' →
      ∃ b ∈ s.tables.accounts, b.user = some u.id ∧ b.pin = pin ∧
        r = .ok (accountPayload u b, b.first_login)

/-- The accounts that a PIN picks. -/
theorem mem_matching_pin {s : Server} {body : Json} {pin : String} (hpin : body.get? "pin" = some (.str pin))
    {x : Ext} {c : Account} : c ∈ matching body (loaded x s.tables u).2.2 ↔
      c ∈ s.tables.accounts ∧ c.user = some u.id ∧ c.pin = pin := by
  rw [mem_matching, hpin, JsVal.looselyEquals_str, @eq_comm _ pin]

/-- A login with the email, the password and the PIN of an Android user whose
account is known. Of several accounts with the PIN any may be taken. -/
theorem letsIn_of_knows {s : Server} (hknows : s.tables.Knows u a) {body : Json}
    (hemail : body.get? "email" = some (.str u.email)) (hopens : Opens s body u)
    (hpin : body.get? "pin" = some (.str a.pin))
    (hnames : ∀ b ∈ s.tables.accounts, b.user = some u.id → b.pin = a.pin → b.account_name ≠ "") :
    LetsIn s body u a.pin := by
  have hnull : body.isNull = false := by
    cases body with
    | null => cases hemail
    | _ => rfl
  have hsel : ∀ v : Users, (body.get? "email").selects (some v.email) = true ↔ v.email = u.email := by
    intro v
    rw [hemail, JsVal.selects_str]
    exact ⟨Option.some.inj, congrArg some⟩
  obtain ⟨k, hk, hrole, hname⟩ := hknows.android
  have hloaded : s.tables.role? u.role = some k := by
    rw [hrole]
    exact find?_key s.integrity.roles hk
  obtain ⟨b, hb, -, hbuser, -, hbpin⟩ := hknows.account
  refine fun now => ⟨?_, fun r s' h => ?_⟩
  · obtain ⟨x, henter⟩ := exists_entered hknows.user ((hsel u).2 rfl) hopens hloaded
    obtain ⟨-, s', hyields, -⟩ := exists_yields_stamp now s ((mem_matching_pin hpin).2 ⟨hb, hbuser, hbpin⟩)
      (entered body u (loaded x s.tables u).2.2)
    exact ⟨_, s', henter now _ s' ((yields_enter_android hname).2 hyields)⟩
  · obtain ⟨x, hsign⟩ := (yields_validateUser hnull).1 h
    -- The email is that of no other user.
    have hfound : (usersRepository.scan (fun _ u => (body.get? "email").selects (some u.email))
        (Ext.at now x) s.tables).head? = some u := by
      cases hhead : (usersRepository.scan (fun _ u => (body.get? "email").selects (some u.email))
          (Ext.at now x) s.tables).head? with
      | none =>
        have hnot := Repository.scan_head_none hhead hknows.user
        rw [(hsel u).2 rfl] at hnot
        cases hnot
      | some v =>
        obtain ⟨hv, hvsel⟩ := Repository.of_scan_head hhead
        rw [eq_of_key s.integrity.emails hv hknows.user ((hsel v).1 hvsel)]
    rw [hfound] at hsign
    have henter := (yields_signIn hopens).1 hsign
    rw [hloaded, yields_enter_android hname] at henter
    obtain ⟨c, hlast⟩ :
        ∃ c, (matching body (loaded (Ext.at now x) s.tables u).2.2).getLast? = some c := by
      refine Option.ne_none_iff_exists'.1 fun hlast => ?_
      have hb' := (mem_matching_pin (x := Ext.at now x) hpin).2 ⟨hb, hbuser, hbpin⟩
      rw [List.getLast?_eq_none_iff.1 hlast] at hb'
      cases hb'
    have hmem := List.mem_of_getLast? hlast
    obtain ⟨hc, hcuser, hcpin⟩ := (mem_matching_pin hpin).1 hmem
    refine ⟨c, hc, hcuser, hcpin, henter.answer.trans ((entered_of_mem hmem).trans ?_)⟩
    unfold answer
    rw [hlast]
    exact if_neg (hnames c hc hcuser hcpin)

end AuthService

/-! ## What a creation answers -/

namespace UsersService

/-- The answer is the user that has been inserted, with its accounts and the
password. Only an Android user has one. -/
theorem afterInsert_answer {user : Json} {newPassword : JsVal} {userId : String} {s : Server}
    (hnone : ∀ b ∈ s.tables.accounts, b.user ≠ some userId) :
    (afterInsert user newPassword userId).Post s fun r s' => ∀ v accounts password,
      r = .ok (some (v, accounts), password) → password = newPassword ∧ v ∈ s'.tables.users ∧
        v.id = userId ∧ ∀ a ∈ accounts, a ∈ s'.tables.accounts ∧ a.user = some v.id ∧
          (user.get? "role").isStr Roles.AndroidUser.text = true := by
  have hfind : ∀ t : Server, (do
      let created ← findOne userId
      return (created, newPassword) : Svc (Option (Users × List Account) × JsVal)).Post t fun r s' =>
        ∀ v accounts password, r = .ok (some (v, accounts), password) → password = newPassword ∧
          v ∈ s'.tables.users ∧ v.id = userId ∧ ∀ a ∈ accounts, a ∈ s'.tables.accounts ∧
            a.user = some v.id ∧ s' = t := by
    refine fun t => post_read_bind fun x => .pure fun v accounts password hr => ?_
    obtain ⟨hfound, rfl⟩ := Prod.mk.inj (Except.ok.inj hr)
    obtain ⟨w, hw, heq⟩ := Option.map_eq_some_iff.1 hfound
    obtain ⟨rfl, rfl⟩ := Prod.mk.inj heq
    obtain ⟨hmem, hid⟩ := Repository.of_scan_head hw
    refine ⟨rfl, hmem, of_decide_eq_true hid, fun a ha => ?_⟩
    obtain ⟨ha, huser⟩ := List.mem_filter.1 (mem_scan.1 ha)
    exact ⟨ha, of_decide_eq_true huser, rfl⟩
  have hlog : (ActivityLogService.log (some (.str Actions.CREATE_USER.text)) (some user)).Each
      fun s s' => s'.tables.accounts = s.tables.accounts := by
    unfold ActivityLogService.log
    refine Prog.Each.bind (Repository.each_insert (fun _ => ?_) fun _ _ _ _ _ => ?_) fun _ => trivial
    · rfl
    · rfl
  have haccounts := hlog.post (s := s) (fun _ => rfl) fun _ _ _ h h' => h'.trans h
  unfold afterInsert
  refine .bind (haccounts.mono fun r t ht => ?_)
  cases r with
  | error e => exact fun _ _ _ h => by cases h
  | ok _ =>
    dsimp only
    split
    · rename_i handroid
      refine post_read_bind fun x => .bind fun r t' _ => ?_
      cases r with
      | error e => exact fun _ _ _ h => by cases h
      | ok _ =>
        refine .bind fun r t'' _ => ?_
        cases r with
        | error e => exact fun _ _ _ h => by cases h
        | ok _ =>
          refine (hfind t'').mono fun r s' h v accounts password hr => ?_
          obtain ⟨hp, hv, hid, has⟩ := h v accounts password hr
          exact ⟨hp, hv, hid, fun a ha => ⟨(has a ha).1, (has a ha).2.1, handroid⟩⟩
    · refine (hfind t).mono fun r s' h v accounts password hr => ?_
      obtain ⟨hp, hv, hid, has⟩ := h v accounts password hr
      refine ⟨hp, hv, hid, fun a ha => ?_⟩
      obtain ⟨hmem, huser, rfl⟩ := has a ha
      exact absurd (hid ▸ huser) (hnone a (ht ▸ hmem))

theorem create_answer (user : Json) (s : Server) :
    (create user).Post s fun r s' => ∀ v accounts password,
      r = .ok (some (v, accounts), password) →
        (∃ p x, password = some (.str p) ∧ v.password = Ext.hash x p) ∧
        ∀ a ∈ accounts, s'.tables.Knows v a := by
  cases hrole : roleText user with
  | none =>
    rw [create_eq_throw hrole]
    exact .throw fun _ _ _ h => by cases h
  | some roleName =>
    rw [create_eq hrole]
    refine post_read_bind fun x => post_read_bind fun y => ?_
    generalize (user.get? "password").orElse
      (some (Json.str (StringUtils.generateRandomAlphaNumeric 8 y.draws))) = newPassword
    by_cases hp : ∃ p, newPassword = some (.str p)
    · obtain ⟨p, rfl⟩ := hp
      refine post_read_bind fun z => ?_
      cases hfound : (roleRepository.scan (fun _ r => r.name = roleName) x s.tables).head?.map fun r => r with
      | none => exact .throw fun _ _ _ h => by cases h
      | some role =>
        obtain ⟨role, hhead, rfl⟩ := Option.map_eq_some_iff.1 hfound
        obtain ⟨hmem, hname⟩ := Repository.of_scan_head hhead
        refine Repository.post_insert_bind (fun w u hu hi => ?_) fun _ _ _ => fun _ _ _ h => by cases h
        obtain ⟨-, -, hpassword, hurole⟩ := row_fields hu
        have hnone := s.integrity.no_account fun v hv => new_of_nodup hi.users hv
        have hkept : (afterInsert user (some (.str p)) u.id).Each fun s s' =>
            s'.tables.users = s.tables.users ∧ s'.tables.roles = s.tables.roles :=
          each_afterInsert.mono fun s s' hw => ⟨users_eq_of_writes hw, hw.roles⟩
        have hanswer : (afterInsert user (some (.str p)) u.id).Post (s.commit _ hi) _ := afterInsert_answer hnone
        refine (hanswer.and (hkept.post (fun _ => ⟨rfl, rfl⟩)
          fun _ _ _ h h' => ⟨h'.1.trans h.1, h'.2.trans h.2⟩)).mono fun r s' h => ?_
        intro v accounts password hr
        obtain ⟨hanswer, husers, hroles⟩ := h
        obtain ⟨rfl, hv, hid, haccounts⟩ := hanswer v accounts password hr
        obtain rfl : v = u :=
          eq_of_key s'.integrity.users hv (husers ▸ List.mem_append_right _ List.mem_cons_self) hid
        refine ⟨⟨p, z, rfl, hpassword⟩, fun a ha => ?_⟩
        obtain ⟨hmem', huser, hstr⟩ := haccounts a ha
        refine ⟨hv, ⟨role, hroles ▸ hmem, hurole, ?_⟩, a, hmem', rfl, huser, rfl, rfl⟩
        unfold roleText at hrole
        rw [JsVal.isStr_iff.1 hstr] at hrole
        exact (of_decide_eq_true hname).trans (Option.some.inj hrole).symm
    · have hthrow : HashUtils.hash newPassword = throw (.library "data must be a string or Buffer") := by
        unfold HashUtils.hash
        split
        · exact absurd ⟨_, rfl⟩ hp
        · rfl
      dsimp only
      rw [hthrow]
      exact .throw fun _ _ _ h => by cases h

end UsersService

/-- **Credentials last.** The creation of an Android user answers a password
whose hash it has stored. If `bcrypt` accepts the password for this hash, then
the email, the password and the PIN of the account log the user in at any later
time, however the threads of the events since then have taken turns, unless one
of these was admitted to change or to delete the user or the account, or gave
the user an account with the same PIN and without a name. -/
theorem credentials_last {s s' : Server} {user : Json} {accounts : List Account} {password : JsVal}
    (hcreate : (UsersService.create user).Ends s (.ok (some (u, accounts), password)) s') (ha : a ∈ accounts)
    {w₀ w : Gateway} {steps : List (Gateway × Live.Move Event Ext Server Rejection × Gateway)}
    (hstate : w₀.state = s') (hstart : w₀.threads = []) (hrun : Trace (Live.Step serving) w₀ steps w)
    (hevents : ∀ x ∈ steps, ∀ e, x.2.1.event? = some e → ¬ e.Alters u a)
    (hnames : ∀ b ∈ w.state.tables.accounts, b.user = some u.id → b.pin = a.pin → b.account_name ≠ "") :
    ∃ p x, password = some (.str p) ∧ u.password = Ext.hash x p ∧ ∀ body : Json,
      body.get? "email" = some (.str u.email) → body.get? "password" = some (.str p) → p ≠ "" →
      body.get? "pin" = some (.str a.pin) → w.state.platform.compare p (x.hash p) = true →
      AuthService.LetsIn w.state body u a.pin := by
  obtain ⟨⟨p, x, hp, hhash⟩, hknows⟩ := UsersService.create_answer user s _ _ hcreate u accounts password rfl
  have hknows := knows_run hstart hrun hevents (hstate ▸ hknows a ha)
  refine ⟨p, x, hp, hhash, fun body hemail hpassword hne hpin hcompare => ?_⟩
  refine AuthService.letsIn_of_knows hknows hemail ⟨p, hpassword, hne, ?_⟩ hpin hnames
  rw [hhash]
  exact hcompare

namespace Sample

/-- A server whose passwords are their own hashes. -/
def plain : Server := { seeded with platform := { platform with compare := fun p h => p = h } }

def loginBody : Json := .obj [("email", .str "u@x"), ("password", .str "p"), ("pin", .str "00000")]

def creation : Option (Except Rejection (Option (Users × List Account) × JsVal) × Server) :=
  (UsersService.create androidBody).run
    (["", "", "", "u", "g1", "", "", "", "u-root", "g2", ""].map input) plain

/-- The new user adds an account, and logs in. -/
def firstDay : List (Live.Choice Event Ext) :=
  [.arrive (.http (androidAdmin "u" "u-root") (.accounts_create (.obj [("account_name", .str "one")])))
      (input ""),
    .arrive (.login loginBody) (input ""), .turn 0 (input ""), .turn 1 (input ""),
    .turn 0 (input "u-one"), .turn 1 (input "")]

theorem firstDay_keeps (u : Users) (a : Account) {e : Event}
    (he : e ∈ firstDay.filterMap Live.Choice.event?) : ¬ e.Alters u a := by
  rcases List.mem_cons.1 he with rfl | he
  · exact not_false
  · rw [List.mem_singleton.1 he]
    exact not_false

end Sample

theorem credentials_last_sample : ∃ (w : Gateway) (u : Users), u.email = "u@x" ∧
    w.state.tables.accounts.length = 2 ∧ AuthService.LetsIn w.state Sample.loginBody u "00000" := by
  have hplay : Sample.creation.any (fun o => o.1.toOption.any fun q => q.1.any fun c => c.2.any fun a =>
      (q.2.isStr "p" && decide (c.1.email = "u@x" ∧ a.pin = "00000" ∧ c.1.password = "p")) &&
        (Live.play serving (fun _ _ => true) Sample.firstDay ⟨[], o.2, ⟨[], []⟩⟩).any fun w =>
          decide (w.state.tables.accounts.length = 2 ∧
            (∀ b ∈ w.state.tables.accounts, b.account_name ≠ "") ∧
            w.state.platform.compare "p" "p" = true)) = true := by decide +kernel
  obtain ⟨⟨r, s'⟩, ho, hanswer⟩ := (Option.any_eq_true _ _).1 hplay
  have hends := Prog.ends_of_run ho
  cases r with
  | error e => cases hanswer
  | ok q =>
    obtain ⟨⟨created, password⟩, hq, hsome⟩ := (Option.any_eq_true _ _).1 hanswer
    cases hq
    obtain ⟨⟨u, accounts⟩, hcreated, haccounts⟩ := (Option.any_eq_true _ _).1 hsome
    obtain ⟨a, ha, hcheck⟩ := List.any_eq_true.1 haccounts
    obtain ⟨hanswered, hrest⟩ := Bool.and_eq_true_iff.1 hcheck
    obtain ⟨hpassword, hfields⟩ := Bool.and_eq_true_iff.1 hanswered
    obtain ⟨hemail, hpin, hhash⟩ := of_decide_eq_true hfields
    have hcreate : (UsersService.create Sample.androidBody).Ends Sample.plain
        (.ok (some (u, accounts), some (.str "p"))) s' := by
      rw [← hcreated, ← JsVal.isStr_iff.1 hpassword]
      exact hends
    obtain ⟨w, hw, hw'⟩ := (Option.any_eq_true _ _).1 hrest
    obtain ⟨hlength, hnames, hcompare⟩ := of_decide_eq_true hw'
    obtain ⟨steps, hrun, hevents, -⟩ := Live.trace_of_play .nil hw
    refine ⟨w, u, hemail, hlength, ?_⟩
    have hkept : ∀ y ∈ steps, ∀ e, y.2.1.event? = some e → ¬ e.Alters u a := by
      intro y hy e he
      exact Sample.firstDay_keeps u a (hevents ▸ List.mem_filterMap.2 ⟨y, hy, he⟩)
    obtain ⟨p, x, hp, hx, hlogin⟩ := credentials_last hcreate ha rfl rfl hrun hkept
      fun b hb _ _ => hnames b hb
    cases hp
    rw [← hpin]
    refine hlogin Sample.loginBody (by rw [hemail]; rfl) rfl (by decide) (by rw [hpin]; rfl) ?_
    rw [← hx, hhash]
    exact hcompare

end Damaru
