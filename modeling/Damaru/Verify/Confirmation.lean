import Damaru.Verify.Authority
import Damaru.Verify.Privileges

/-!
# What a token says, the tables confirm

The guards go by the payload of a token, and never look into the tables. They
do not have to: no request changes the role of a user, the user of an account
or whether it is an admin account. From the login on, the tables confirm the
payload until a request deletes the user or the account.
-/

namespace Damaru

open Async Table

/-- The tables confirm a payload: its user has its role and, if that is an
Android user, its account is the user's, and an admin account as the sub-role
says. -/
structure Tables.Confirms (t : Tables) (p : JwtToken) : Prop where
  role : ∃ u ∈ t.users, u.id = p.sub ∧ ∃ k ∈ t.roles, u.role = some k.id ∧ Roles.ofText k.name = p.role
  account : p.role = .AndroidUser → ∃ a ∈ t.accounts, p.accountId = some a.id ∧ a.user = some p.sub ∧
    p.subRole = some (if a.is_admin then .AndroidAdmin else .AndroidAccount)

/-- The user of the payload, or its account, has been deleted. -/
def Tables.Drops (t t' : Tables) (p : JwtToken) : Prop :=
  (∃ u ∈ t.users, u.id = p.sub ∧ ∀ v ∈ t'.users, v.id ≠ p.sub) ∨
    ∃ a ∈ t.accounts, p.accountId = some a.id ∧ ∀ b ∈ t'.accounts, b.id ≠ a.id

theorem Roles.ofText_eq_androidUser {t : String} :
    Roles.ofText t = .AndroidUser ↔ t = Roles.AndroidUser.text := by
  unfold Roles.ofText
  constructor
  · intro h
    split at h
    · cases h
    · split at h
      · cases h
      · split at h
        · assumption
        · cases h
  · rintro rfl
    decide

/-- What a login vouches for, the tables confirm. -/
theorem AuthService.Vouches.confirms {s : Server} {body : Json} {p : JwtToken} (h : Vouches s body p) :
    s.tables.Confirms p := by
  obtain ⟨u, hu, k, hk, huk, -, -, ⟨hname, a, ha, hau, -, rfl⟩ | ⟨hname, rfl⟩⟩ := h
  · exact ⟨⟨u, hu, rfl, k, hk, huk, Roles.ofText_eq_androidUser.2 hname⟩, fun _ => ⟨a, ha, rfl, hau, rfl⟩⟩
  · exact ⟨⟨u, hu, rfl, k, hk, huk, rfl⟩, fun hrole => absurd (Roles.ofText_eq_androidUser.1 hrole) hname⟩

namespace Tables

/-- The users with their roles and the accounts with their users and admin
flags are among the others, and the roles are the same. -/
structure Keeps (t t' : Tables) : Prop where
  users : t.userRoles ⊆ t'.userRoles
  accounts : (t.accounts.map fun a => (a.id, a.user, a.is_admin)) ⊆
    t'.accounts.map fun a => (a.id, a.user, a.is_admin)
  roles : t'.roles = t.roles

namespace Keeps

theorem refl (t : Tables) : Keeps t t := ⟨List.Subset.refl _, List.Subset.refl _, rfl⟩

theorem trans {t₁ t₂ t₃ : Tables} (h : Keeps t₁ t₂) (h' : Keeps t₂ t₃) : Keeps t₁ t₃ :=
  ⟨List.Subset.trans h.1 h'.1, List.Subset.trans h.2 h'.2, h'.3.trans h.3⟩

theorem of_subset {t t' : Tables} (hu : t.users ⊆ t'.users) (ha : t.accounts ⊆ t'.accounts)
    (hr : t'.roles = t.roles) : Keeps t t' := ⟨List.map_subset _ hu, List.map_subset _ ha, hr⟩

theorem of_eq {t t' : Tables} (hu : t'.users = t.users) (ha : t'.accounts = t.accounts)
    (hr : t'.roles = t.roles) : Keeps t t' := of_subset (fun _ h => hu ▸ h) (fun _ h => ha ▸ h) hr

theorem confirms {t t' : Tables} (h : Keeps t t') {p : JwtToken} (hp : t.Confirms p) : t'.Confirms p := by
  constructor
  · obtain ⟨u, hu, hid, k, hk, huk, hname⟩ := hp.role
    obtain ⟨v, hv, heq⟩ := List.mem_map.1 (h.users (List.mem_map_of_mem hu))
    obtain ⟨hvid, hvrole⟩ := Prod.mk.inj heq
    exact ⟨v, hv, hvid.trans hid, k, h.roles.symm ▸ hk, hvrole.trans huk, hname⟩
  · intro hrole
    obtain ⟨a, ha, hid, hau, hsub⟩ := hp.account hrole
    obtain ⟨b, hb, heq⟩ := List.mem_map.1 (h.accounts (List.mem_map_of_mem ha))
    obtain ⟨hbid, heq⟩ := Prod.mk.inj heq
    obtain ⟨hbu, hbadmin⟩ := Prod.mk.inj heq
    exact ⟨b, hb, hid.trans (congrArg some hbid.symm), hbu.trans hau, hbadmin.symm ▸ hsub⟩

/-- Where rows have been deleted, a payload is still confirmed, or its rows are
among those. -/
theorem confirms_or_drops {t t' : Tables} (h : Keeps t' t) (hi : t.Integrity) {p : JwtToken}
    (hp : t.Confirms p) : t'.Confirms p ∨ t.Drops t' p := by
  obtain ⟨u, hu, hid, k, hk, huk, hname⟩ := hp.role
  by_cases huser : ∃ v ∈ t'.users, v.id = p.sub
  · obtain ⟨v, hv, hvid⟩ := huser
    obtain ⟨u', hu', heq⟩ := List.mem_map.1 (h.users (List.mem_map_of_mem hv))
    obtain ⟨huid, hurole⟩ := Prod.mk.inj heq
    obtain rfl := eq_of_key hi.users hu hu' (hid.trans (hvid.symm.trans huid.symm))
    have hrole : ∃ u ∈ t'.users, u.id = p.sub ∧ ∃ k ∈ t'.roles, u.role = some k.id ∧
        Roles.ofText k.name = p.role :=
      ⟨v, hv, hvid, k, h.roles ▸ hk, hurole.symm.trans huk, hname⟩
    by_cases hlost : ∃ a ∈ t.accounts, p.accountId = some a.id ∧ ∀ b ∈ t'.accounts, b.id ≠ a.id
    · exact .inr (.inr hlost)
    · refine .inl ⟨hrole, fun hrole => ?_⟩
      obtain ⟨a, ha, haid, hau, hsub⟩ := hp.account hrole
      have hkept : ∃ b ∈ t'.accounts, b.id = a.id := by
        refine by_contra fun hnone => hlost ⟨a, ha, haid, fun b hb hba => hnone ⟨b, hb, hba⟩⟩
      obtain ⟨b, hb, hba⟩ := hkept
      obtain ⟨a', ha', heq⟩ := List.mem_map.1 (h.accounts (List.mem_map_of_mem hb))
      obtain ⟨haid', heq⟩ := Prod.mk.inj heq
      obtain ⟨hau', hadmin'⟩ := Prod.mk.inj heq
      obtain rfl := eq_of_key hi.accounts ha ha' (hba.symm.trans haid'.symm)
      exact ⟨b, hb, hba ▸ haid, hau'.symm.trans hau, hadmin' ▸ hsub⟩
  · exact .inr (.inl ⟨u, hu, hid, fun v hv hvid => huser ⟨v, hv, hvid⟩⟩)

end Keeps

end Tables

/-- The kinds of writes that delete users or accounts. -/
def Kind.Drops : Kind → Prop
  | .deleteUser => True
  | .deleteAccount => True
  | _ => False

theorem Write.keeps {t t' : Tables} {k : Kind} (hw : Write t k t') (hk : ¬ k.Drops) (hi : t.Integrity) :
    t.Keeps t' := by
  cases hw with
  | newAccount a => exact .of_subset (List.Subset.refl _) (List.subset_append_left _ _) rfl
  | newUser u => exact .of_subset (List.subset_append_left _ _) (List.Subset.refl _) rfl
  | accountFields p f hf =>
    refine ⟨List.Subset.refl _, ?_, rfl⟩
    rw [map_updateWhere fun a _ => by rw [(hf a).1, (hf a).2.1, (hf a).2.2]]
    exact List.Subset.refl _
  | userFields p f hf =>
    have hroles : ({ t with users := updateWhere p f t.users } : Tables).userRoles = t.userRoles :=
      Tables.userRoles_updateWhere hf rfl
    exact ⟨hroles.symm ▸ List.Subset.refl _, List.Subset.refl _, rfl⟩
  | deleteAccount p => exact (hk trivial).elim
  | deleteUser p => exact (hk trivial).elim
  | deleteEmulator p =>
    obtain ⟨hu, ha, -⟩ := hi.toReferences.cascade_emulators (t.emulators.filter p)
    exact .of_eq hu ha rfl
  | _ => exact .of_eq rfl rfl rfl

theorem Write.keeps_back {t t' : Tables} {k : Kind} (hw : Write t k t') (hk : k.Shrinks) : t'.Keeps t := by
  cases hw with
  | newAccount a => exact hk.elim
  | newUser u => exact hk.elim
  | accountFields p f hf =>
    refine ⟨List.Subset.refl _, ?_, rfl⟩
    rw [map_updateWhere fun a _ => by rw [(hf a).1, (hf a).2.1, (hf a).2.2]]
    exact List.Subset.refl _
  | userFields p f hf =>
    have hroles : ({ t with users := updateWhere p f t.users } : Tables).userRoles = t.userRoles :=
      Tables.userRoles_updateWhere hf rfl
    exact ⟨hroles ▸ List.Subset.refl _, List.Subset.refl _, rfl⟩
  | deleteAccount p =>
    obtain ⟨hu, ha, -⟩ := Tables.cascade_subset { t with accounts := t.accounts.filter p }
    exact .of_subset hu (List.Subset.trans ha (List.filter_subset_self _)) rfl
  | deleteUser p =>
    obtain ⟨hu, ha, -⟩ := Tables.cascade_subset { t with users := t.users.filter p }
    exact .of_subset (List.Subset.trans hu (List.filter_subset_self _)) ha rfl
  | deleteEmulator p =>
    obtain ⟨hu, ha, -⟩ := Tables.cascade_subset { t with emulators := t.emulators.filter p }
    exact .of_subset hu ha rfl
  | _ => exact .of_eq rfl rfl rfl

/-- The request deletes a user or an account. -/
def HttpRequest.Drops : HttpRequest → Prop
  | users_delete _ => True
  | accounts_delete _ => True
  | _ => False

theorem HttpRequest.not_drops_of_kinds {req : HttpRequest} (h : ¬ req.Drops) :
    ∀ k ∈ req.kinds, ¬ k.Drops := by
  cases req with
  | users_delete => exact (h trivial).elim
  | accounts_delete => exact (h trivial).elim
  | _ => simp [kinds, Kind.Drops]

theorem Event.not_drops_of_kinds {e : Event}
    (h : ¬ ∃ user req, e = .http user req ∧ req.admits user = true ∧ req.Drops) :
    ∀ k ∈ e.kinds, ¬ k.Drops := by
  cases e with
  | http user req =>
    intro k hk
    obtain ⟨hadmits, hk⟩ := kinds_http hk
    exact HttpRequest.not_drops_of_kinds (fun hreq => h ⟨user, req, rfl, hadmits, hreq⟩) k hk
  | message client user event body =>
    cases event <;> simp [kinds, SignalingServerGateway.Event.kinds, Kind.Drops]
  | disconnect client => simp [kinds, Kind.Drops]
  | login dto => simp [kinds, Kind.Drops]

theorem HttpRequest.Drops.shrinks {req : HttpRequest} (h : req.Drops) : ∀ k ∈ req.kinds, k.Shrinks := by
  cases req with
  | users_delete id => simp [kinds, Kind.Shrinks]
  | accounts_delete id => simp [kinds, Kind.Shrinks]
  | _ => exact h.elim

/-- A payload that the tables confirm they confirm after the step, unless it is
an admitted request that deletes the payload's user or account. -/
theorem Step.confirms {s s' : Server} {e : Event} (h : Step s e s') {p : JwtToken}
    (hp : s.tables.Confirms p) : s'.tables.Confirms p ∨
      (s.tables.Drops s'.tables p ∧ ∃ user req, e = .http user req ∧ req.admits user = true ∧ req.Drops) := by
  by_cases hdrops : ∃ user req, e = .http user req ∧ req.admits user = true ∧ req.Drops
  · obtain ⟨user, req, rfl, hadmits, hreq⟩ := hdrops
    have hback : s'.tables.Keeps s.tables :=
      Event.respects (R := fun t t' => t'.Keeps t) .refl (fun _ _ _ h h' => h'.trans h)
        (fun k hk _ _ _ _ hw => hw.keeps_back (hreq.shrinks k (Event.kinds_http hk).2)) h
    exact (hback.confirms_or_drops s.integrity hp).imp_right fun hd =>
      ⟨hd, user, req, rfl, hadmits, hreq⟩
  · have hkeeps : s.tables.Keeps s'.tables :=
      Event.respects .refl (fun _ _ _ => .trans)
        (fun k hk _ _ hi _ hw => hw.keeps (Event.not_drops_of_kinds hdrops k hk) hi) h
    exact .inl (hkeeps.confirms hp)

namespace World

variable {jwt : JwtService} {w w' : World} {x : Exchange}

/-- The arrival is an admitted request that deletes the payload's user or
account. -/
def Revokes (jwt : JwtService) (p : JwtToken) (x : World × Exchange × World) : Prop :=
  x.1.server.tables.Drops x.2.2.server.tables p ∧ ∃ user req,
    x.1.event jwt x.2.1 = some (.http user req) ∧ req.admits user = true ∧ req.Drops

theorem Step.confirms (h : Step jwt w x w') (hw : w.Sound) {p : JwtToken}
    (hp : w.server.tables.Confirms p) : w'.server.tables.Confirms p ∨ Revokes jwt p (w, x, w') := by
  rcases h.refines hw with ⟨e, he, hstep, -⟩ | ⟨-, hserver, -⟩
  · refine (hstep.confirms hp).imp_right fun hdrops => ?_
    obtain ⟨hd, user, req, rfl, hreq⟩ := hdrops
    exact ⟨hd, user, req, he, hreq⟩
  · exact .inl (hserver ▸ hp)

theorem sound_run {w₀ : World} {steps : List (World × Exchange × World)}
    (hrun : Trace (Step jwt) w₀ steps w) (hw₀ : w₀.Sound) : w.Sound :=
  hrun.invariant (fun _ _ _ h => h.sound) hw₀

/-- The run lemma. -/
theorem confirms_run {w₀ : World} {steps : List (World × Exchange × World)}
    (hrun : Trace (Step jwt) w₀ steps w) (hw₀ : w₀.Sound) {p : JwtToken}
    (hp : w₀.server.tables.Confirms p) :
    w.server.tables.Confirms p ∨ ∃ z ∈ steps, Revokes jwt p z := by
  induction hrun with
  | nil => exact .inl hp
  | snoc hprefix hlast ih =>
    rcases ih with hp | ⟨z, hz, hrevokes⟩
    · refine (hlast.confirms (sound_run hprefix hw₀) hp).imp_right fun hrevokes => ?_
      exact ⟨_, List.mem_append_right _ (List.mem_singleton.2 rfl), hrevokes⟩
    · exact .inr ⟨z, List.mem_append_left _ hz, hrevokes⟩

/-- **Authority is earned and current.** Whatever is done under a token, a
login has checked the credentials of the token's user for exactly this payload;
and unless an admitted request has deleted that user or account since, the
tables still give the user the role and the account that the token claims. -/
theorem acts_with_authority {w₀ : World} {steps : List (World × Exchange × World)} (hjwt : jwt.Lawful)
    (hw₀ : w₀.Sound) (hrun : Trace (Step jwt) w₀ steps w) (hunforged : Unforged jwt steps)
    {l l' : List (World × Exchange × World)} {x : World × Exchange × World} (hl : steps = l ++ x :: l')
    {e : Event} {user : JwtToken} (he : x.1.event jwt x.2.1 = some e) (hactor : e.actor = some user) :
    ∃ l₁ y l₂ loginDto, l = l₁ ++ y :: l₂ ∧ y.2.1.arrival = .login loginDto ∧
      AuthService.Vouches y.1.server loginDto user ∧
      (x.1.server.tables.Confirms user ∨ ∃ z ∈ l₂, Revokes jwt user z) := by
  obtain ⟨l₁, y, l₂, loginDto, rfl, harrival, hvouches⟩ :=
    exists_login hjwt hrun hunforged hl (shown_of_event he hactor)
  refine ⟨l₁, y, l₂, loginDto, rfl, harrival, hvouches, ?_⟩
  rw [hl, List.append_assoc, List.cons_append] at hrun
  obtain ⟨w₁, hbefore, hrest⟩ := hrun.of_append
  obtain ⟨heq, hlogin, hrest⟩ := hrest.of_cons
  obtain ⟨w₂, hbetween, hafter⟩ := hrest.of_append
  obtain ⟨hx, -⟩ := hafter.of_cons
  have hsound : y.1.Sound := heq ▸ sound_run hbefore hw₀
  rw [hx]
  rcases hlogin.confirms hsound hvouches.confirms with hp | ⟨-, user', req, hevent, -⟩
  · exact confirms_run hbetween (hlogin.sound hsound) hp
  · unfold event at hevent
    rw [harrival] at hevent
    cases hevent

theorem acts_with_authority_admitted : ∃ l x l' w, Trace (Step Sample.tokens) Sample.gate (l ++ x :: l') w ∧
    x.1.event Sample.tokens x.2.1 = some (.http Sample.superAdmin (.emulators_create Sample.device)) ∧
    ∃ l₁ y l₂ loginDto, l = l₁ ++ y :: l₂ ∧ y.2.1.arrival = .login loginDto ∧
      AuthService.Vouches y.1.server loginDto Sample.superAdmin ∧
      (x.1.server.tables.Confirms Sample.superAdmin ∨ ∃ z ∈ l₂, Revokes Sample.tokens Sample.superAdmin z) := by
  obtain ⟨l, x, l', w, hrun, hunforged, hevent, -⟩ := Sample.admitted
  exact ⟨l, x, l', w, hrun, hevent,
    acts_with_authority Sample.tokens_lawful Sample.gate_start.sound hrun hunforged rfl hevent rfl⟩

end World

end Damaru
