import Damaru.Verify.EventWrites
import Damaru.Verify.UserSpecs

/-!
# Privileges

No request changes the role of a user or makes an account that exists an admin
account, whatever its body holds: the routes either copy chosen fields or
insert a row. Users are written under a super admin's token only, and an admin
account is added only for a user who has none.
-/

namespace Damaru

open Async Table

/-- No privilege is gained or lost by a step. -/
structure PrivilegesKept (t : Tables) (e : Event) (t' : Tables) : Prop where
  role : ∀ u ∈ t.users, ∀ u' ∈ t'.users, u'.id = u.id → u'.role = u.role
  is_admin : ∀ a ∈ t.accounts, ∀ a' ∈ t'.accounts, a'.id = a.id → a'.is_admin = a.is_admin
  users : t'.users = t.users ∨ ∃ user req, e = .http user req ∧ user.role = .SuperAdmin
  newAdmin : ∀ a ∈ t'.accounts, a.is_admin = true → (∀ b ∈ t.accounts, b.id ≠ a.id) →
    (∃ user req, e = .http user req ∧ (user.role = .SuperAdmin ∨
      (user.role = .AndroidUser ∧ user.subRole = some .AndroidAdmin))) ∧
    ∃ u, a.user = some u ∧ ∀ b ∈ t.accounts, b.is_admin = true → b.user ≠ some u

/-! ## Rows that stay what they are -/

/-- The privileges of users and accounts, by their ids. -/
def Tables.userRoles (t : Tables) : List (String × Option String) := t.users.map fun u => (u.id, u.role)

def Tables.adminFlags (t : Tables) : List (String × Bool) := t.accounts.map fun a => (a.id, a.is_admin)

/-- Rows have been added at most. -/
def Grown (t t' : Tables) : Prop := t.userRoles ⊆ t'.userRoles ∧ t.adminFlags ⊆ t'.adminFlags

/-- The kinds of writes that delete no user and no account. -/
def Kind.Grows : Kind → Prop
  | .deleteAccount => False
  | .deleteUser => False
  | .deleteEmulator => False
  | _ => True

/-- The kinds of writes that add no user and no account. -/
def Kind.Shrinks : Kind → Prop
  | .newUser => False
  | .newAccount => False
  | _ => True

namespace Grown

theorem refl (t : Tables) : Grown t t := ⟨List.Subset.refl _, List.Subset.refl _⟩

theorem trans {t₁ t₂ t₃ : Tables} (h : Grown t₁ t₂) (h' : Grown t₂ t₃) : Grown t₁ t₃ :=
  ⟨List.Subset.trans h.1 h'.1, List.Subset.trans h.2 h'.2⟩

theorem of_eq {t t' : Tables} (hu : t'.userRoles = t.userRoles) (ha : t'.adminFlags = t.adminFlags) :
    Grown t t' := ⟨fun _ h => hu ▸ h, fun _ h => ha ▸ h⟩

/-- Two tables of which one has grown agree on the rows that both have. -/
theorem agree {t t' : Tables} (h : Grown t t') (hi' : t'.Integrity) :
    (∀ u ∈ t.users, ∀ u' ∈ t'.users, u'.id = u.id → u'.role = u.role) ∧
      ∀ a ∈ t.accounts, ∀ a' ∈ t'.accounts, a'.id = a.id → a'.is_admin = a.is_admin := by
  constructor
  · intro u hu u' hu' hid
    obtain ⟨v, hv, heq⟩ := List.mem_map.1 (h.1 (List.mem_map_of_mem hu))
    obtain ⟨hvid, hvrole⟩ := Prod.mk.inj heq
    rw [eq_of_key hi'.users hu' hv (hid.trans hvid.symm), hvrole]
  · intro a ha a' ha' hid
    obtain ⟨b, hb, heq⟩ := List.mem_map.1 (h.2 (List.mem_map_of_mem ha))
    obtain ⟨hbid, hbadmin⟩ := Prod.mk.inj heq
    rw [eq_of_key hi'.accounts ha' hb (hid.trans hbid.symm), hbadmin]

end Grown

theorem Tables.userRoles_updateWhere {t t' : Tables} {p : Users → Bool} {f : Users → Users}
    (hf : ∀ u, (f u).id = u.id ∧ (f u).role = u.role) (h : t'.users = updateWhere p f t.users) :
    t'.userRoles = t.userRoles := by
  unfold userRoles
  rw [h, map_updateWhere fun u _ => by rw [(hf u).1, (hf u).2]]

theorem Tables.adminFlags_updateWhere {t t' : Tables} {p : Account → Bool} {f : Account → Account}
    (hf : ∀ a, (f a).id = a.id ∧ (f a).user = a.user ∧ (f a).is_admin = a.is_admin)
    (h : t'.accounts = updateWhere p f t.accounts) : t'.adminFlags = t.adminFlags := by
  unfold adminFlags
  rw [h, map_updateWhere fun a _ => by rw [(hf a).1, (hf a).2.2]]

/-- A cascade deletes at most. -/
theorem grown_cascade (t : Tables) : Grown t.cascade t :=
  ⟨List.map_subset _ t.cascade_subset.1, List.map_subset _ t.cascade_subset.2.1⟩

theorem Write.grown {t t' : Tables} {k : Kind} (hw : Write t k t') (hk : k.Grows) : Grown t t' := by
  cases hw with
  | newAccount a => exact ⟨List.Subset.refl _, List.map_subset _ (List.subset_append_left _ _)⟩
  | newUser u => exact ⟨List.map_subset _ (List.subset_append_left _ _), List.Subset.refl _⟩
  | accountFields p f hf => exact .of_eq rfl (Tables.adminFlags_updateWhere hf rfl)
  | userFields p f hf => exact .of_eq (Tables.userRoles_updateWhere hf rfl) rfl
  | deleteAccount p => exact hk.elim
  | deleteUser p => exact hk.elim
  | deleteEmulator p => exact hk.elim
  | _ => exact .refl _

theorem Write.shrunk {t t' : Tables} {k : Kind} (hw : Write t k t') (hk : k.Shrinks) : Grown t' t := by
  cases hw with
  | newAccount a => exact hk.elim
  | newUser u => exact hk.elim
  | accountFields p f hf => exact .of_eq rfl (Tables.adminFlags_updateWhere hf rfl).symm
  | userFields p f hf => exact .of_eq (Tables.userRoles_updateWhere hf rfl).symm rfl
  | deleteAccount p =>
    exact (grown_cascade _).trans ⟨List.Subset.refl _, List.map_subset _ (List.filter_subset_self _)⟩
  | deleteUser p =>
    exact (grown_cascade _).trans ⟨List.map_subset _ (List.filter_subset_self _), List.Subset.refl _⟩
  | deleteEmulator p => exact grown_cascade _
  | _ => exact .refl _

/-- An event adds rows or deletes rows, but not both. -/
theorem Event.grows_or_shrinks (e : Event) :
    (∀ k ∈ e.kinds, k.Grows) ∨ ∀ k ∈ e.kinds, k.Shrinks := by
  cases e with
  | http user req =>
    have hreq : (∀ k ∈ req.kinds, k.Grows) ∨ ∀ k ∈ req.kinds, k.Shrinks := by
      cases req <;> simp [HttpRequest.kinds, Kind.Grows, Kind.Shrinks]
    exact hreq.imp (fun h k hk => h k (kinds_http hk).2) fun h k hk => h k (kinds_http hk).2
  | message client user event body =>
    refine .inl ?_
    cases event <;> simp [kinds, SignalingServerGateway.Event.kinds, Kind.Grows]
  | disconnect client => exact .inl (by simp [kinds, Kind.Grows])
  | login dto => exact .inl (by simp [kinds, Kind.Grows])

/-- Users keep their roles, and accounts their admin flags. -/
theorem Step.privileges {e : Event} {s s' : Server} (h : Step s e s') :
    Grown s.tables s'.tables ∨ Grown s'.tables s.tables := by
  rcases e.grows_or_shrinks with hk | hk
  · exact .inl (Event.respects .refl (fun _ _ _ => .trans)
      (fun k hmem _ _ _ _ hw => hw.grown (hk k hmem)) h)
  · exact .inr (Event.respects (R := fun t t' => Grown t' t) .refl (fun _ _ _ h h' => h'.trans h)
      (fun k hmem _ _ _ _ hw => hw.shrunk (hk k hmem)) h)

/-! ## Who writes users -/

/-- The kinds of writes that change no user. -/
def Kind.KeepsUsers : Kind → Prop
  | .newUser => False
  | .userFields => False
  | .deleteUser => False
  | _ => True

theorem Write.users {t t' : Tables} {k : Kind} (hw : Write t k t') (hk : k.KeepsUsers)
    (hi : t.Integrity) : t'.users = t.users := by
  cases hw with
  | deleteAccount p =>
    exact (hi.toReferences.cascade_accounts (l := t.accounts.filter p)
      fun a ha => (List.mem_filter.1 ha).1).1
  | deleteEmulator p => exact (hi.toReferences.cascade_emulators _).1
  | newUser u => exact hk.elim
  | userFields p f hf => exact hk.elim
  | deleteUser p => exact hk.elim
  | _ => rfl

/-- The guard of the users' methods admits super admins only. -/
theorem SuperAdmin_isAuthorized {user : JwtToken} (h : SuperAdmin.isAuthorized user = true) :
    user.role = .SuperAdmin := by
  simp only [Guard.isAuthorized, SuperAdmin, List.any_cons, List.any_nil, Bool.or_false,
    Bool.or_eq_true, Bool.and_eq_true, decide_eq_true_eq] at h
  exact h.elim id And.left

theorem HttpRequest.keepsUsers {req : HttpRequest} {user : JwtToken}
    (hadmits : req.admits user = true) (hrole : user.role ≠ .SuperAdmin) :
    ∀ k ∈ req.kinds, k.KeepsUsers := by
  cases req with
  | users_create dto => exact absurd (SuperAdmin_isAuthorized hadmits) hrole
  | users_update id dto => exact absurd (SuperAdmin_isAuthorized hadmits) hrole
  | users_delete id => exact absurd (SuperAdmin_isAuthorized hadmits) hrole
  | _ => simp [kinds, Kind.KeepsUsers]

/-- What an event other than a super admin's request writes keeps the users. -/
theorem Event.keepsUsers {e : Event}
    (h : ∀ user req, e = .http user req → user.role ≠ .SuperAdmin) :
    ∀ k ∈ e.kinds, k.KeepsUsers := by
  cases e with
  | http user req =>
    intro k hk
    obtain ⟨hadmits, hk⟩ := kinds_http hk
    exact req.keepsUsers hadmits (h user req rfl) k hk
  | message client user event body =>
    cases event <;> simp [kinds, SignalingServerGateway.Event.kinds, Kind.KeepsUsers]
  | disconnect client => simp [kinds, Kind.KeepsUsers]
  | login dto => simp [kinds, Kind.KeepsUsers]

theorem Step.users {e : Event} {s s' : Server} (h : Step s e s') :
    s'.tables.users = s.tables.users ∨
      ∃ user req, e = .http user req ∧ user.role = .SuperAdmin := by
  by_cases hsuper : ∃ user req, e = .http user req ∧ user.role = .SuperAdmin
  · exact .inr hsuper
  · refine .inl (Event.respects (R := fun t t' => t'.users = t.users) (fun _ => rfl)
      (fun _ _ _ h h' => h'.trans h) ?_ h)
    intro k hk t t' hi _ hw
    exact hw.users (Event.keepsUsers (fun user req he hrole => hsuper ⟨user, req, he, hrole⟩) k hk) hi

/-! ## Who makes admin accounts -/

namespace UsersService

/-- The accounts of the tables, and at most one more, the first admin account
of its user. -/
def FirstAdmin (t t' : Tables) : Prop :=
  t'.accounts = t.accounts ∨ ∃ a : Account, t'.accounts = t.accounts ++ [a] ∧
    (a.is_admin = true → ∃ u, a.user = some u ∧ ∀ b ∈ t.accounts, b.is_admin = true → b.user ≠ some u)

/-- The accounts of the tables, and at most one more, of a user who has none
there. -/
def OfNewUser (t t' : Tables) : Prop :=
  t'.accounts = t.accounts ∨ ∃ a : Account, t'.accounts = t.accounts ++ [a] ∧
    ∃ u, a.user = some u ∧ ∀ b ∈ t.accounts, b.user ≠ some u

theorem OfNewUser.firstAdmin {t t' : Tables} (h : OfNewUser t t') : FirstAdmin t t' := by
  rcases h with h | ⟨a, h, u, hu, hnone⟩
  · exact .inl h
  · exact .inr ⟨a, h, fun _ => ⟨u, hu, fun b hb _ => hnone b hb⟩⟩

/-- Creating a user adds an account at most, the first of its user. -/
theorem create_ofNewUser (user : Json) (s : Server) :
    (create user).Post s fun _ s' => OfNewUser s.tables s'.tables := by
  refine (create_post user s).mono fun r s' h => ?_
  rcases h with ⟨-, -, u, role, -, -, -, hnew, as, l, htables, has⟩ | ⟨-, -, htables⟩
  · rw [htables]
    split at has
    · obtain ⟨a, rfl, hauser, -⟩ := has
      exact .inr ⟨a, rfl, u.id, hauser, s.integrity.no_account hnew⟩
    · rw [has]
      exact .inl (List.append_nil _)
  · exact .inl (by rw [htables])

end UsersService

/-- The token may make admin accounts. -/
def JwtToken.MakesAdmins (user : JwtToken) : Prop :=
  user.role = .SuperAdmin ∨ (user.role = .AndroidUser ∧ user.subRole = some .AndroidAdmin)

theorem AndroidAdmin_isAuthorized {user : JwtToken} (h : AndroidAdmin.isAuthorized user = true) :
    user.MakesAdmins := by
  unfold JwtToken.MakesAdmins
  simpa [Guard.isAuthorized, AndroidAdmin] using h

/-- An event adds no account, or it is a request that adds the first admin
account of a user at most. -/
theorem Step.accounts {e : Event} {s s' : Server} (h : Step s e s') :
    Grown s'.tables s.tables ∨ (UsersService.FirstAdmin s.tables s'.tables ∧
      ∃ user req, e = .http user req ∧ user.MakesAdmins) := by
  have hshrinks : (∀ k ∈ e.kinds, k.Shrinks) → Grown s'.tables s.tables := fun hk =>
    Event.respects (R := fun t t' => Grown t' t) .refl (fun _ _ _ h h' => h'.trans h)
      (fun k hmem _ _ _ _ hw => hw.shrunk (hk k hmem)) h
  cases e with
  | http user req =>
    cases hadmits : req.admits user with
    | false => exact .inl (hshrinks fun k hk => by rw [(Event.kinds_http hk).1] at hadmits; cases hadmits)
    | true =>
      have hkinds : (∀ k ∈ req.kinds, k.Shrinks) → Grown s'.tables s.tables := fun hk =>
        hshrinks fun k hmem => hk k (Event.kinds_http hmem).2
      cases req with
      | users_create dto =>
        refine .inr ⟨?_, user, _, rfl, .inl (SuperAdmin_isAuthorized hadmits)⟩
        refine h.of_post (I := fun s' => UsersService.FirstAdmin s.tables s'.tables) hadmits ?_ ?_
        · exact HttpRequest.forkFree_reading
            ((UsersService.forkFree_create _).bind fun _ => Prog.forkFree_pure)
        · exact HttpRequest.reading_post (fun _ => .inl rfl)
            (((UsersService.create_ofNewUser _ s).mono fun _ _ h => h.firstAdmin).andThen
              (I := fun s' : Server => UsersService.FirstAdmin s.tables s'.tables)
              fun _ => ⟨.ok _, rfl⟩)
      | accounts_create dto =>
        refine .inr ⟨?_, user, _, rfl, AndroidAdmin_isAuthorized hadmits⟩
        refine h.of_post (I := fun s' => UsersService.FirstAdmin s.tables s'.tables) hadmits ?_ ?_
        · exact (AccountsService.forkFree_create _).bind fun _ => Prog.forkFree_pure
        · refine Prog.Post.andThen
            (I := fun s' : Server => UsersService.FirstAdmin s.tables s'.tables)
            ((AccountsService.create_post _ s).mono fun r s' h => ?_) fun _ => ⟨.ok _, rfl⟩
          rcases h with h | ⟨⟨a, h, hauser, hadmin⟩, hnone⟩
          · exact .inl (by rw [h])
          · refine .inr ⟨a, by rw [h], fun ha => ⟨user.sub, hauser, fun b hb hbadmin hbuser => ?_⟩⟩
            have hnot := hnone (hadmin.trans (congrArg some ha)) b hb hbadmin
            rw [hbuser] at hnot
            simp [JsVal.selects] at hnot
      | _ => exact .inl (hkinds (by simp [HttpRequest.kinds, Kind.Shrinks]))
  | message client user event body =>
    refine .inl (hshrinks ?_)
    cases event <;> simp [Event.kinds, SignalingServerGateway.Event.kinds, Kind.Shrinks]
  | disconnect client => exact .inl (hshrinks (by simp [Event.kinds, Kind.Shrinks]))
  | login dto => exact .inl (hshrinks (by simp [Event.kinds, Kind.Shrinks]))

/-! ## The claim on a run -/

/-- The step lemma. -/
theorem Step.privilegesKept {e : Event} {s s' : Server} (h : Step s e s') :
    PrivilegesKept s.tables e s'.tables := by
  have hagree : (∀ u ∈ s.tables.users, ∀ u' ∈ s'.tables.users, u'.id = u.id → u'.role = u.role) ∧
      ∀ a ∈ s.tables.accounts, ∀ a' ∈ s'.tables.accounts, a'.id = a.id → a'.is_admin = a.is_admin := by
    rcases h.privileges with hgrown | hgrown
    · exact hgrown.agree s'.integrity
    · have hback := hgrown.agree s.integrity
      exact ⟨fun u hu u' hu' hid => (hback.1 u' hu' u hu hid.symm).symm,
        fun a ha a' ha' hid => (hback.2 a' ha' a ha hid.symm).symm⟩
  refine ⟨hagree.1, hagree.2, h.users, fun a ha hadmin hnew => ?_⟩
  rcases h.accounts with hgrown | ⟨hfirst, hwho⟩
  · obtain ⟨b, hb, heq⟩ := List.mem_map.1 (hgrown.2 (List.mem_map_of_mem ha))
    exact absurd (Prod.mk.inj heq).1 (hnew b hb)
  · refine ⟨hwho, ?_⟩
    rcases hfirst with hsame | ⟨a', hadded, hfirst⟩
    · exact absurd rfl (hnew a (hsame ▸ ha))
    · rw [hadded] at ha
      rcases List.mem_append.1 ha with ha | ha
      · exact absurd rfl (hnew a ha)
      · rw [List.mem_singleton.1 ha] at hadmin ⊢
        exact hfirst hadmin

/-- **Privilege integrity.** No step of any run of events, under any tokens
and with any bodies, gains or loses a privilege. -/
theorem privileges_kept {s s' : Server} {steps : List (Server × Event × Server)}
    (hrun : Trace Step s steps s') : ∀ x ∈ steps, PrivilegesKept x.1.tables x.2.1 x.2.2.tables :=
  hrun.forall_steps fun _ _ _ h => h.privilegesKept

/-- The history of the small deployment creates two users and their admin
accounts. -/
theorem privileges_kept_history : ∃ steps s, Trace Step Sample.seeded steps s ∧
    (s.tables.accounts.filter Account.is_admin).length = 2 ∧
    ∀ x ∈ steps, PrivilegesKept x.1.tables x.2.1 x.2.2.tables := by
  have hrun : (playAll (Sample.history ++ []) Sample.seeded).any (fun s =>
      decide ((s.tables.accounts.filter Account.is_admin).length = 2)) = true := by
    decide +kernel
  obtain ⟨s, hs, htwo⟩ := (Option.any_eq_true _ _).1 hrun
  obtain ⟨steps, hsteps⟩ := trace_of_playAll .nil hs
  exact ⟨steps, s, hsteps, of_decide_eq_true htwo, privileges_kept hsteps⟩

end Damaru
