import Damaru.Verify.Operations
import Damaru.Verify.UserSpecs

/-!
# Root accounts

An Android user is created with a root account, and no second one is ever
added. Linking a device dereferences the root account of the user; but the
deletion of an account does not spare it, and a role that is named by an array
makes a user without one.
-/

namespace Damaru

open Async Table

namespace Tables

/-- The admin accounts of a user. -/
def admins (t : Tables) (u : String) : List Account :=
  t.accounts.filter fun a => a.user = some u && a.is_admin

/-- Every Android user has exactly one root account. -/
def OneRoot (t : Tables) : Prop := ∀ u ∈ t.users, t.IsAndroid u → (t.admins u.id).length = 1

theorem mem_admins {t : Tables} {u : String} {a : Account} :
    a ∈ t.admins u ↔ a ∈ t.accounts ∧ a.user = some u ∧ a.is_admin = true := by
  unfold admins
  rw [List.mem_filter, Bool.and_eq_true, decide_eq_true_eq]

theorem admins_append {t t' : Tables} {as : List Account} (h : t'.accounts = t.accounts ++ as) (u : String) :
    t'.admins u = t.admins u ++ as.filter fun a => a.user = some u && a.is_admin := by
  unfold admins
  rw [h, List.filter_append]

/-- Roles as before, users that were there before, and as many admin accounts
of the Android users. -/
theorem OneRoot.of_users {t t' : Tables} (h : t.OneRoot) (hroles : t'.roles = t.roles)
    (hadmins : ∀ u ∈ t'.users, t'.IsAndroid u → (t'.admins u.id).length = (t.admins u.id).length)
    (husers : ∀ u ∈ t'.users, ∃ v ∈ t.users, v.id = u.id ∧ v.role = u.role) : t'.OneRoot := by
  intro u hu handroid
  obtain ⟨v, hv, hid, hrole⟩ := husers u hu
  rw [hadmins u hu handroid, ← hid]
  obtain ⟨r, hr, hur, hname⟩ := handroid
  exact h v hv ⟨r, hroles ▸ hr, hrole.trans hur, hname⟩

theorem OneRoot.congr {t t' : Tables} (h : t.OneRoot) (hroles : t'.roles = t.roles)
    (husers : t'.users = t.users) (haccounts : t'.accounts = t.accounts) : t'.OneRoot := by
  refine h.of_users hroles (fun u _ _ => ?_) fun u hu => ⟨u, husers ▸ hu, rfl, rfl⟩
  unfold admins
  rw [haccounts]

end Tables

/-- The kinds of writes that leave the root accounts by themselves. -/
def Kind.KeepsRoots : Kind → Prop
  | .newAccount => False
  | .deleteAccount => False
  | .newUser => False
  | _ => True

theorem Write.oneRoot {t t' : Tables} {k : Kind} (hw : Write t k t') (hk : k.KeepsRoots)
    (hi : t.Integrity) (h : t.OneRoot) : t'.OneRoot := by
  cases hw with
  | accountFields p f hf =>
    refine h.of_users rfl (fun u _ _ => ?_) fun u hu => ⟨u, hu, rfl, rfl⟩
    unfold Tables.admins
    rw [filter_updateWhere fun a _ => by rw [(hf a).2.1, (hf a).2.2]]
    exact List.length_map _
  | userFields p f hf =>
    refine h.of_users rfl (fun u hu _ => rfl) fun u hu => ?_
    rcases mem_updateWhere.1 hu with ⟨v, hv, -, rfl⟩ | ⟨hu, -⟩
    · exact ⟨v, hv, (hf v).1.symm, (hf v).2.symm⟩
    · exact ⟨u, hu, rfl, rfl⟩
  | deleteUser p =>
    refine h.of_users rfl (fun u hu _ => ?_) fun u hu => ⟨u, Tables.cascade_subset _ |>.1 hu |> List.filter_subset_self _, rfl, rfl⟩
    unfold Tables.admins Tables.cascade
    rw [List.filter_filter]
    refine congrArg List.length (List.filter_congr fun a _ => ?_)
    by_cases hau : a.user = some u.id
    · have href := refers_some.2 (List.mem_map_of_mem (f := Users.id) hu)
      rw [hau]
      exact (congrArg _ href).trans (Bool.and_true _)
    · simp [hau]
  | deleteEmulator p =>
    have hcascade := hi.toReferences.cascade_emulators (t.emulators.filter p)
    exact h.congr rfl hcascade.1 hcascade.2.1
  | newAccount a => exact hk.elim
  | deleteAccount p => exact hk.elim
  | newUser u => exact hk.elim
  | _ => exact h.congr rfl rfl rfl

/-! ## Accounts -/

/-- A new account of a user who has an admin account is not one. -/
theorem AccountsService.Created.oneRoot {dto : CreateAccountDto} {t t' : Tables}
    (h : t.OneRoot) (hc : Created dto t t') (hfirst : dto.is_admin.booleanOr false = some true →
      ∀ b ∈ t.accounts, b.is_admin = true → dto.userId.selects b.user = false) : t'.OneRoot := by
  obtain ⟨a, rfl, huser, hadmin⟩ := hc
  intro u hu handroid
  have hone := h u hu handroid
  rw [Tables.admins_append rfl, List.length_append, hone]
  suffices hnot : ¬ (a.user = some u.id ∧ a.is_admin = true) by simpa [List.filter_cons] using hnot
  rintro ⟨hau, hadmin'⟩
  obtain ⟨b, hb⟩ := List.length_pos_iff_exists_mem.1 (Nat.lt_of_lt_of_eq Nat.one_pos hone.symm)
  obtain ⟨hb, hbu, hbadmin⟩ := Tables.mem_admins.1 hb
  have hsel := hfirst (hadmin.trans (congrArg some hadmin')) b hb hbadmin
  rw [hau] at huser
  unfold JsVal.selects at hsel
  rw [← huser] at hsel
  exact of_decide_eq_false hsel hbu

/-- The deletion of an account keeps one root account exactly if it is not
the one of an Android user. -/
theorem Tables.Integrity.oneRoot_deleteAccount {t t' : Tables} {id : String} (hi : t.Integrity)
    (h : t.OneRoot)
    (heq : t' = ({ t with accounts := t.accounts.filter fun a => !decide (a.id = id) } : Tables).cascade) :
    t'.OneRoot ↔ ¬ ∃ a ∈ t.accounts, a.id = id ∧ a.is_admin = true ∧
      ∃ u ∈ t.users, a.user = some u.id ∧ t.IsAndroid u := by
  obtain ⟨husers, haccounts, -⟩ := hi.toReferences.cascade_accounts
    (List.filter_subset_self (p := fun a : Account => !decide (a.id = id)) (l := t.accounts))
  rw [← heq] at husers haccounts
  have hroles : t'.roles = t.roles := by
    rw [heq]
    rfl
  have hadmins : ∀ u, t'.admins u = (t.admins u).filter fun a => !decide (a.id = id) := by
    intro u
    unfold Tables.admins
    rw [haccounts, List.filter_filter, List.filter_filter]
    exact List.filter_congr fun a _ => Bool.and_comm _ _
  constructor
  · rintro h' ⟨a, ha, hid, hadmin, u, hu, hau, r, hr, hur, hname⟩
    have hone' := h' u (husers ▸ hu) ⟨r, hroles ▸ hr, hur, hname⟩
    obtain ⟨b, hb⟩ := List.length_eq_one_iff.1 (h u hu ⟨r, hr, hur, hname⟩)
    have hmem := Tables.mem_admins.2 ⟨ha, hau, hadmin⟩
    rw [hb, List.mem_singleton] at hmem
    rw [hadmins, hb, ← hmem] at hone'
    simp [hid] at hone'
  · intro hnot
    refine h.of_users hroles (fun u hu handroid => ?_) fun u hu => ⟨u, husers ▸ hu, rfl, rfl⟩
    rw [hadmins]
    refine congrArg List.length (List.filter_eq_self.2 fun a ha => ?_)
    obtain ⟨ha, hau, hadmin⟩ := Tables.mem_admins.1 ha
    obtain ⟨r, hr, hur, hname⟩ := handroid
    refine Bool.not_eq_true' _ ▸ decide_eq_false fun hid => hnot ?_
    exact ⟨a, ha, hid, hadmin, u, husers ▸ hu, hau, r, hroles ▸ hr, hur, hname⟩

/-! ## Users -/

namespace UsersService

/-- A new user comes with its root account, unless its role is Android without
being given as that text. -/
theorem Joins.oneRoot_iff {user : Json} {t t' : Tables} (hi : t.Integrity) (hi' : t'.Integrity)
    (h : t.OneRoot) (hj : Joins user t t') :
    t'.OneRoot ↔ ¬ (roleText user = some Roles.AndroidUser.text ∧
      (user.get? "role").isStr Roles.AndroidUser.text = false) := by
  obtain ⟨u, r, hr, hur, hrole, hnew, as, l, rfl, has⟩ := hj
  have hold : ∀ v ∈ t.users, (as.filter fun a => a.user = some v.id && a.is_admin) = [] := by
    intro v hv
    split at has
    · obtain ⟨a, rfl, hau, -⟩ := has
      simp [hau, Ne.symm (hnew v hv)]
    · rw [has]
      rfl
  have hnone : t.admins u.id = [] := by
    refine List.filter_eq_nil_iff.2 fun a ha => ?_
    simp [hi.no_account hnew a ha]
  have hmem : u ∈ t.users ++ [u] := List.mem_append_right _ (List.mem_singleton.2 rfl)
  have hiff := hi'.isAndroid_iff (u := u) hr hur
  constructor
  · rintro h' ⟨hname, hstr⟩
    rw [hrole] at hname
    rw [if_neg (by rw [hstr]; exact Bool.false_ne_true)] at has
    have hone := h' u hmem (hiff.2 (Option.some.inj hname))
    rw [Tables.admins_append rfl, hnone, has] at hone
    cases hone
  · intro hnot v hv handroid
    rw [Tables.admins_append rfl]
    rcases List.mem_append.1 hv with hv | hv
    · rw [hold v hv, List.append_nil]
      exact h v hv handroid
    · cases List.mem_singleton.1 hv
      have hname := hiff.1 handroid
      have hstr : (user.get? "role").isStr Roles.AndroidUser.text = true := by
        refine Bool.not_eq_false _ ▸ fun hstr => hnot ⟨hrole.trans (congrArg some hname), hstr⟩
      rw [if_pos hstr] at has
      obtain ⟨a, rfl, hau, hadmin⟩ := has
      rw [hnone]
      simp [hau, hadmin]

end UsersService

/-! ## Runs -/

namespace Operation

/-- The call deletes the root account of an Android user, or creates an Android
user by a role that is not the text of it. -/
def LosesRoot (s : Server) : Operation → Prop
  | accounts_remove id payload => AccountsService.Removable s.tables id payload ∧
      ∃ a ∈ s.tables.accounts, a.id = id ∧ a.is_admin = true ∧
        ∃ u ∈ s.tables.users, a.user = some u.id ∧ s.tables.IsAndroid u
  | users_create user => UsersService.Creatable s user ∧
      UsersService.roleText user = some Roles.AndroidUser.text ∧
        (user.get? "role").isStr Roles.AndroidUser.text = false
  | _ => False

/-- What comes of a call that forks nothing, and whose answer is dropped. -/
theorem Runs.of_post {α : Type} {op : Operation} {p : Svc α} {s s' : Server} {I : Server → Prop}
    (h : Runs s op s') (hop : op.prog = p >>= fun _ => pure ()) (hp : p.ForkFree)
    (hpost : p.Post s fun _ => I) : I s' := by
  unfold Runs at h
  rw [hop] at h
  refine Prog.Post.settles (I := I) ?_ (hp.bind fun _ => Prog.forkFree_pure) h
  exact (hpost.andThen fun _ => ⟨.ok (), rfl⟩).mono fun r t ht _ => ht

/-- The step lemma. -/
theorem oneRoot_step {s s' : Server} {op : Operation} (h : Runs s op s') (hs : s.tables.OneRoot) :
    s'.tables.OneRoot ↔ ¬ LosesRoot s op := by
  have hkeeps : (∀ k ∈ op.kinds, k.KeepsRoots) → s'.tables.OneRoot := fun hk =>
    preserves (fun k hk' t t' hi _ hw => hw.oneRoot (hk k hk') hi) h hs
  cases op with
  | accounts_create dto =>
    refine iff_of_true (h.of_post (I := fun s' => s'.tables.OneRoot) rfl
      (AccountsService.forkFree_create dto) ?_) id
    refine (AccountsService.create_post dto s).mono fun r t ht => ?_
    rcases ht with ht | ⟨hc, hfirst⟩
    · rw [ht]
      exact hs
    · exact hc.oneRoot hs hfirst
  | accounts_remove id payload =>
    refine Prog.Post.settles (I := fun s' => s'.tables.OneRoot ↔ ¬ LosesRoot s _) ?_
      (AccountsService.forkFree_remove id payload) h
    refine (AccountsService.remove_post id payload s).mono fun r t ht _ => ?_
    rcases ht with ⟨hrem, ht⟩ | ⟨hrem, ht⟩
    · rw [s.integrity.oneRoot_deleteAccount hs ht, not_iff_not]
      exact ⟨fun hroot => ⟨hrem, hroot⟩, And.right⟩
    · rw [ht]
      exact iff_of_true hs fun h => hrem h.1
  | users_create user =>
    refine h.of_post (I := fun s' => s'.tables.OneRoot ↔ ¬ LosesRoot s _) rfl
      (UsersService.forkFree_create user) ?_
    refine (UsersService.create_post user s).mono fun r t ht => ?_
    rcases ht with ⟨hc, -, hj⟩ | ⟨hc, -, ht⟩
    · rw [hj.oneRoot_iff s.integrity t.integrity hs, not_iff_not]
      exact ⟨fun hrole => ⟨hc, hrole⟩, And.right⟩
    · rw [ht]
      exact iff_of_true hs fun h => hc h.1
  | link r =>
    refine iff_of_true (hkeeps ?_) fun h => h
    cases r <;> simp [kinds, Kind.KeepsRoots]
  | _ => exact iff_of_true (hkeeps (by simp [kinds, Kind.KeepsRoots])) fun h => h

/-- **Root accounts.** From a seeded database, every Android user has exactly
one root account in all states of a run if and only if no call of the run
deletes such an account or names the role of an Android user otherwise than by
its text. -/
theorem one_root_iff {s₀ s : Server} {steps : List (Server × Operation × Server)}
    (hstart : Seeded s₀.tables) (hrun : Trace Runs s₀ steps s) :
    (∀ x ∈ steps, x.2.2.tables.OneRoot) ↔ ∀ x ∈ steps, ¬ LosesRoot x.1 x.2.1 := by
  refine hrun.forall_states_iff (I := fun s => s.tables.OneRoot)
    (C := fun x => ¬ LosesRoot x.1 x.2.1) (fun x _ hstep hs => oneRoot_step hstep hs) ?_
  intro u hu handroid
  obtain ⟨r, hr, hur, hname⟩ := hstart.users.2 u hu
  exact absurd ((s₀.integrity.isAndroid_iff hr hur).1 handroid) hname

end Operation

/-- The root account of a user is deleted. -/
def Sample.removeRoot : Operation × List Ext :=
  (.accounts_remove "u-root" superAdmin, ["", ""].map input)

theorem one_root_created : ∃ steps s, Trace Operation.Runs Sample.seeded steps s ∧
    Sample.createUser.1 ∈ steps.map (fun x => x.2.1) ∧
    ((∀ x ∈ steps, x.2.2.tables.OneRoot) ↔ ∀ x ∈ steps, ¬ Operation.LosesRoot x.1 x.2.1) := by
  have hplay : (Sample.createUser.1.prog.run Sample.createUser.2 Sample.seeded).isSome = true := by
    decide +kernel
  obtain ⟨o, ho⟩ := Option.isSome_iff_exists.1 hplay
  have hruns : Operation.Runs Sample.seeded Sample.createUser.1 o.2 :=
    .of_ends (Prog.ends_of_run ho) fun _ _ => trivial
  have htrace := Trace.snoc .nil hruns
  exact ⟨_, _, htrace, List.mem_singleton.2 rfl,
    Operation.one_root_iff Sample.seeded_tables htrace⟩

/-- A super admin deletes the root account of a user. -/
theorem root_lost : ∃ steps s, Seeded Sample.seeded.tables ∧
    Trace Operation.Runs Sample.seeded steps s ∧
    (∀ x ∈ steps, x.2.1 ∈ [Sample.createUser.1, Sample.removeRoot.1]) ∧ ¬ s.tables.OneRoot := by
  have hplay : (Operation.playAll [Sample.createUser, Sample.removeRoot] Sample.seeded).any (fun s =>
      decide (⟨"u", "u@x", "u", "p", some "r3"⟩ ∈ s.tables.users) &&
        decide (⟨"r3", Roles.AndroidUser.text⟩ ∈ s.tables.roles) &&
        decide (s.tables.accounts = [])) = true := by
    decide +kernel
  obtain ⟨s, hs, hplay⟩ := (Option.any_eq_true _ _).1 hplay
  simp only [Bool.and_eq_true, decide_eq_true_eq] at hplay
  obtain ⟨⟨hu, hr⟩, hnone⟩ := hplay
  obtain ⟨steps, hrun, hcalls⟩ := Operation.trace_of_playAll .nil hs
  refine ⟨steps, s, Sample.seeded_tables, hrun, fun x hx => ?_, fun hone => ?_⟩
  · exact (hcalls x hx).resolve_left List.not_mem_nil
  · have hadmins := hone _ hu ⟨_, hr, rfl, rfl⟩
    unfold Tables.admins at hadmins
    rw [hnone] at hadmins
    cases hadmins

end Damaru
