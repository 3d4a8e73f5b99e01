import Damaru.Async.Ensure
import Damaru.Core.CoreDataSeeder
import Damaru.System
import Damaru.Verify.Outcomes
import Damaru.Verify.UserSpecs

/-!
# Seeding the database

`seed` provides for three roles, two users and a flag, in this order, each by a
lookup and one insert.
-/

namespace Damaru

open Async Table

/-- The tables that seeding does not write. -/
def Tables.unseeded (t : Tables) : Tables := { t with roles := [], users := [] }

/-- A role with a key and a name of its own can be inserted. -/
theorem Tables.Integrity.insert_role {t : Tables} (h : t.Integrity) {r : Role}
    (hid : ∀ r' ∈ t.roles, r'.id ≠ r.id) (hname : ∀ r' ∈ t.roles, r'.name ≠ r.name) :
    ({ t with roles := t.roles ++ [r] } : Tables).Integrity where
  toKeys := { h.toKeys with
    roles := nodup_append_of_new h.roles hid
    roleNames := nodup_append_of_new h.roleNames hname }
  toReferences := { h.toReferences with
    role := fun u hu => by
      have hrole := h.role u hu
      cases hk : u.role with
      | none => rfl
      | some k =>
        rw [hk, refers_some] at hrole
        rw [refers_some, List.map_append]
        exact List.mem_append_left _ hrole }

/-- A user made from credentials of the configuration. -/
structure MadeFrom (config : Credentials) (roleName : Roles) (t : Tables) (u : Users) : Prop where
  email : u.email = config.EMAIL
  name : config.NAME = some u.name
  role : ∃ r ∈ t.roles, u.role = some r.id ∧ r.name = roleName.text
  password : ∃ p, config.PASSWORD = some p ∧ ∃ x : Ext, u.password = x.hash p

theorem MadeFrom.mono {config : Credentials} {roleName : Roles} {t t' : Tables} {u : Users}
    (h : MadeFrom config roleName t u) (hroles : t.roles ⊆ t'.roles) : MadeFrom config roleName t' u where
  email := h.email
  name := h.name
  role := by
    obtain ⟨r, hr, hrest⟩ := h.role
    exact ⟨r, hroles hr, hrest⟩
  password := h.password

/-- The user can be made: its columns are given, and its role exists. -/
def Seedable (config : Credentials) (roleName : Roles) (t : Tables) : Prop :=
  config.NAME.isSome = true ∧ config.PASSWORD.isSome = true ∧ ∃ r ∈ t.roles, r.name = roleName.text

namespace CoreDataSeederService

variable {config : Credentials} {roleName : Roles} {s : Server}

theorem saveRole_post (name : String) (s : Server) : (saveRole name).Post s fun r s' =>
    (r = .ok () ∧ ∃ id hi, s' = s.commit { s.tables with roles := s.tables.roles ++ [⟨id, name⟩] } hi) ∨
      ((∃ e, r = .error e) ∧ s' = s ∧ ∃ r ∈ s.tables.roles, r.name = name) := by
  unfold saveRole
  refine Repository.post_insert_bind (fun x a ha hi => ?_) fun x e he => ?_
  · cases ha
    exact .pure (.inl ⟨rfl, _, hi, rfl⟩)
  · refine .inr ⟨⟨e, rfl⟩, rfl, ?_⟩
    rcases he with he | ⟨-, a, ha, hnot⟩
    · cases he
    · cases ha
      by_contra hnone
      refine hnot (s.integrity.insert_role (fun r hr hid => ?_) fun r hr hname => hnone ⟨r, hr, hname⟩)
      have hmem : r.id ∈ s.used ++ s.tables.roles.map Role.id :=
        List.mem_append_right _ (List.mem_map_of_mem hr)
      rw [hid] at hmem
      exact Table.fresh_not_mem _ _ hmem

/-- The hash of a text of the configuration, if there is one. -/
theorem hash_config_post (password : Option String) (s : Server) :
    (HashUtils.hash (password.map Json.str)).Post s fun r s' => s' = s ∧
      ((∃ p, password = some p ∧ ∃ x : Ext, r = .ok (x.hash p)) ∨ password = none ∧ ∃ e, r = .error e) := by
  cases password with
  | none => exact .throw ⟨rfl, .inr ⟨rfl, _, rfl⟩⟩
  | some p => exact .op fun x => ⟨rfl, .inl ⟨p, rfl, x, rfl⟩⟩

/-- A user is inserted, unless its email is taken or it cannot be made. -/
theorem saveUser_post {role : Role} {password : String} (hmem : role ∈ s.tables.roles)
    (hname : role.name = roleName.text)
    (hpassword : ∃ p, config.PASSWORD = some p ∧ ∃ x : Ext, password = x.hash p) :
    (saveUser config.NAME config.EMAIL password role.id).Post s fun r s' =>
      (r = .ok () ∧ Seedable config roleName s.tables ∧ ∃ u hi, MadeFrom config roleName s.tables u ∧
        s' = s.commit { s.tables with users := s.tables.users ++ [u] } hi) ∨
        ((∃ e, r = .error e) ∧ s' = s ∧
          ((∀ u ∈ s.tables.users, u.email ≠ config.EMAIL) → ¬ Seedable config roleName s.tables)) := by
  unfold saveUser
  have hgiven : config.PASSWORD.isSome = true := by
    obtain ⟨p, hp, -⟩ := hpassword
    rw [hp]
    rfl
  cases hn : config.NAME with
  | none =>
    refine Repository.post_insert_bind (fun x a ha hi => by cases ha) fun x e he => ?_
    refine .inr ⟨⟨e, rfl⟩, rfl, fun _ hseed => ?_⟩
    rw [Seedable, hn] at hseed
    cases hseed.1
  | some name =>
    refine Repository.post_insert_bind (fun x u hu hi => .pure (.inl ?_)) fun x e he => .inr ?_
    · cases hu
      exact ⟨rfl, ⟨by rw [hn]; rfl, hgiven, role, hmem, hname⟩, _, hi,
        ⟨rfl, hn, ⟨role, hmem, rfl, hname⟩, hpassword⟩, rfl⟩
    · refine ⟨⟨e, rfl⟩, rfl, fun hfree _ => ?_⟩
      rcases he with he | ⟨-, u, hu, hnot⟩
      · cases he
      · cases hu
        refine hnot (s.integrity.insert_user (fun v hv hid => ?_) hfree ?_)
        · refine x.fresh_not_used s (Server.mem_used_of_mem_ids ?_)
          exact List.mem_append_left _ (List.mem_map.2 ⟨v, hv, hid⟩)
        · rw [refers_some]
          exact List.mem_map_of_mem hmem

theorem createUser_post (config : Credentials) (roleName : Roles) (s : Server) :
    (createUser config roleName).Post s fun r s' =>
      (r = .ok () ∧ Seedable config roleName s.tables ∧ ∃ u hi, MadeFrom config roleName s.tables u ∧
        s' = s.commit { s.tables with users := s.tables.users ++ [u] } hi) ∨
        ((∃ e, r = .error e) ∧ s' = s ∧
          ((∀ u ∈ s.tables.users, u.email ≠ config.EMAIL) → ¬ Seedable config roleName s.tables)) := by
  unfold createUser
  refine Repository.post_findRow_bind (fun role hmem hname => ?_) fun hnone => ?_
  · refine .bind ((hash_config_post config.PASSWORD s).mono fun r t ht => ?_)
    obtain ⟨rfl, ⟨p, hp, x, rfl⟩ | ⟨hp, e, rfl⟩⟩ := ht
    · exact saveUser_post hmem (of_decide_eq_true hname) ⟨p, hp, x, rfl⟩
    · refine .inr ⟨⟨e, rfl⟩, rfl, fun _ hseed => ?_⟩
      rw [Seedable, hp] at hseed
      cases hseed.2.1
  · refine .bind ((hash_config_post config.PASSWORD s).mono fun r t ht => ?_)
    have hno : ¬ Seedable config roleName s.tables := by
      rintro ⟨-, -, r, hr, hname⟩
      exact of_decide_eq_false (hnone r hr) hname
    obtain ⟨rfl, ⟨p, hp, x, rfl⟩ | ⟨hp, e, rfl⟩⟩ := ht
    · exact .throw (.inr ⟨⟨_, rfl⟩, rfl, fun _ => hno⟩)
    · exact .inr ⟨⟨e, rfl⟩, rfl, fun _ => hno⟩

/-! ## The goals -/

def roleGoal (roleName : Roles) : Goal Ext Stored Rejection where
  present s := s.tables.roles.any fun r => r.name = roleName.text
  make := (saveRole roleName.text).within Stored.onServer

def userGoal (config : Credentials) (roleName : Roles) : Goal Ext Stored Rejection where
  present s := s.tables.users.any fun u => u.email = config.EMAIL
  make := (createUser config roleName).within Stored.onServer

def flagGoal : Goal Ext Stored Rejection where
  present s := s.encryption.any fun r => r.id = "1"
  make := (Prog.op fun _ rows =>
    if rows.any fun r => r.id = "1" then (.error .query, rows)
    else (.ok (), rows ++ [⟨"1", true⟩])).within Stored.onEncryption

def goals (config : SeedConfig) : List (Goal Ext Stored Rejection) :=
  [roleGoal .EmulatorAdmin, roleGoal .SuperAdmin, roleGoal .AndroidUser,
    userGoal config.SUPER_ADMIN .SuperAdmin, userGoal config.EMULATOR_USER .EmulatorAdmin, flagGoal]

/-- Looking for a row, and making it if there is none. -/
theorem ensure_findRow {α : Type} {repo : Repository α} {p : Tables → α → Bool} {make : Svc Unit}
    {g : Goal Ext Stored Rejection} (hmake : g.make = make.within Stored.onServer)
    (hpresent : ∀ s : Stored, g.present s = (repo.rows s.tables).any (p s.tables)) :
    (repo.findRow p >>= fun found => if found.isNone then make else pure ()).within Stored.onServer =
      g.ensure := by
  have hfind : ∀ (x : Ext) (s : Stored),
      ((repo.scan p x s.tables).head?.map fun a => a).isSome = g.present s := by
    intro x s
    rw [hpresent, Option.map_id', Bool.eq_iff_iff, List.any_eq_true]
    constructor
    · intro hsome
      obtain ⟨a, ha⟩ := Option.isSome_iff_exists.1 hsome
      exact ⟨a, Repository.of_scan_head ha⟩
    · rintro ⟨a, ha, hp⟩
      by_contra hnone
      rw [Bool.not_eq_true, Option.isSome_eq_false_iff, Option.isNone_iff_eq_none] at hnone
      rw [Repository.scan_head_none hnone ha] at hp
      cases hp
  rw [← Goal.ensure_eq hfind, Prog.within_bind]
  congr 1
  funext found
  rw [hmake]
  cases found <;> rfl

theorem ensure_flag : seedEncryption.within Stored.onEncryption = flagGoal.ensure := by
  have hfind : ∀ (_ : Ext) (s : Stored),
      (s.encryption.find? fun r => decide (r.id = "1")).isSome = flagGoal.present s := fun _ s => by
    rw [Bool.eq_iff_iff, List.find?_isSome]
    simp [flagGoal]
  rw [← Goal.ensure_eq hfind]
  unfold seedEncryption
  rw [Prog.within_bind]
  congr 1
  funext found
  cases found <;> rfl

theorem seedEmulatorUser_eq (config : SeedConfig) : (seedEmulatorUser config).within Stored.onServer =
    (userGoal config.EMULATOR_USER .EmulatorAdmin).ensure := ensure_findRow rfl fun _ => rfl

theorem seedSuperAdmin_eq (config : SeedConfig) : (seedSuperAdmin config).within Stored.onServer =
    (userGoal config.SUPER_ADMIN .SuperAdmin).ensure >>= fun _ =>
      (userGoal config.EMULATOR_USER .EmulatorAdmin).ensure := by
  have hseq : seedSuperAdmin config = (usersRepository.findRow
      (fun _ u => decide (u.email = config.SUPER_ADMIN.EMAIL)) >>= fun superAdmin =>
        if superAdmin.isNone then createUser config.SUPER_ADMIN .SuperAdmin else pure ()) >>=
      fun _ => seedEmulatorUser config := by
    unfold seedSuperAdmin
    rw [bind_assoc]
    congr 1
    funext superAdmin
    cases superAdmin <;> rfl
  rw [hseq, Prog.within_bind, seedEmulatorUser_eq]
  congr 1
  exact ensure_findRow rfl fun _ => rfl

/-- **`seed` provides for its goals**, one after another. -/
theorem seed_eq (config : SeedConfig) : seed config = Goal.ensureAll (goals config) := by
  unfold seed seedRoles goals
  rw [Prog.within_bind, seedSuperAdmin_eq, ensure_flag]
  generalize hbody : (fun roleName : Roles => (roleRepository.findRow
    (fun _ r => decide (r.name = roleName.text)) >>= fun existingRole =>
      if existingRole.isNone = true then saveRole roleName.text else pure () : Svc Unit)) = body
  have hrole : ∀ roleName, (body roleName).within Stored.onServer = (roleGoal roleName).ensure := by
    intro roleName
    rw [← hbody]
    exact ensure_findRow rfl fun _ => rfl
  simp only [List.forM_cons, List.forM_nil, Prog.within_bind, hrole, Goal.ensureAll, bind_assoc,
    bind_pure_unit]

theorem forall_goals {P : Goal Ext Stored Rejection → Prop} (hrole : ∀ r, P (roleGoal r))
    (huser : ∀ c r, P (userGoal c r)) (hflag : P flagGoal) (config : SeedConfig) :
    ∀ g ∈ goals config, P g := by
  simp only [goals, List.forall_mem_cons]
  exact ⟨hrole _, hrole _, hrole _, huser _ _, huser _ _, hflag, fun g hg => (List.not_mem_nil hg).elim⟩

/-! ## Making a goal -/

section Makes

variable {s s' : Stored} {r : Except Rejection Unit} {c : Credentials}

theorem roleGoal_ends (h : (roleGoal roleName).make.Ends s r s') :
    (r = .ok () ∧ (∃ id, s'.tables = { s.tables with roles := s.tables.roles ++ [⟨id, roleName.text⟩] }) ∧
      s'.encryption = s.encryption) ∨
      ((∃ e, r = .error e) ∧ s' = s ∧ (roleGoal roleName).present s = true) := by
  obtain ⟨t, hend, rfl⟩ := (Prog.ends_within _).1 h
  rcases saveRole_post _ _ _ _ hend with ⟨rfl, id, hi, rfl⟩ | ⟨he, rfl, role, hmem, hname⟩
  · exact .inl ⟨rfl, ⟨id, rfl⟩, rfl⟩
  · exact .inr ⟨he, rfl, List.any_eq_true.2 ⟨role, hmem, decide_eq_true hname⟩⟩

theorem userGoal_ends (h : (userGoal c roleName).make.Ends s r s') :
    (r = .ok () ∧ Seedable c roleName s.tables ∧ (∃ u, MadeFrom c roleName s.tables u ∧
      s'.tables = { s.tables with users := s.tables.users ++ [u] }) ∧ s'.encryption = s.encryption) ∨
      ((∃ e, r = .error e) ∧ s' = s ∧
        ((userGoal c roleName).present s = false → ¬ Seedable c roleName s.tables)) := by
  obtain ⟨t, hend, rfl⟩ := (Prog.ends_within _).1 h
  rcases createUser_post _ _ _ _ _ hend with ⟨rfl, hseed, u, hi, hu, rfl⟩ | ⟨he, rfl, hno⟩
  · exact .inl ⟨rfl, hseed, ⟨u, hu, rfl⟩, rfl⟩
  · refine .inr ⟨he, rfl, fun habsent => hno fun u hu hemail => ?_⟩
    exact List.any_eq_false.1 habsent u hu (decide_eq_true hemail)

theorem flagGoal_ends (h : flagGoal.make.Ends s r s') :
    (r = .ok () ∧ s'.server = s.server ∧ s'.encryption = s.encryption ++ [⟨"1", true⟩]) ∨
      ((∃ e, r = .error e) ∧ s' = s ∧ flagGoal.present s = true) := by
  obtain ⟨t, hend, rfl⟩ := (Prog.ends_within _).1 h
  obtain ⟨x, hx⟩ := Prog.ends_op.1 hend
  by_cases hp : flagGoal.present s = true
  · have hany : (s.encryption.any fun r => decide (r.id = "1")) = true := hp
    simp only [Stored.onEncryption, hany, if_true, Prod.mk.injEq] at hx
    obtain ⟨rfl, rfl⟩ := hx
    exact .inr ⟨⟨_, rfl⟩, rfl, hp⟩
  · have hany : (s.encryption.any fun r => decide (r.id = "1")) = false := Bool.eq_false_iff.2 hp
    simp only [Stored.onEncryption, hany, Bool.false_eq_true, if_false, Prod.mk.injEq] at hx
    obtain ⟨rfl, rfl⟩ := hx
    exact .inl ⟨rfl, rfl, rfl⟩

theorem forkFree_make (config : SeedConfig) : ∀ g ∈ goals config, g.make.ForkFree := by
  refine forall_goals (fun roleName => ?_) (fun c roleName => ?_) ?_ config
  · exact .within Stored.onServer (Prog.forkFree_op.bind fun _ => trivial)
  · refine .within Stored.onServer (Prog.forkFree_op.bind fun role => ?_)
    refine (UsersService.forkFree_hash _).bind fun password => ?_
    cases role with
    | none => exact trivial
    | some role => exact Prog.forkFree_op.bind fun _ => trivial
  · exact .within Stored.onEncryption Prog.forkFree_op

/-- What was there is still there, unchanged. -/
structure Keeps (s s' : Stored) : Prop where
  roles : s.tables.roles <+: s'.tables.roles
  users : s.tables.users <+: s'.tables.users
  others : s'.tables.unseeded = s.tables.unseeded
  encryption : s.encryption <+: s'.encryption

theorem Keeps.refl (s : Stored) : Keeps s s :=
  ⟨List.prefix_rfl, List.prefix_rfl, rfl, List.prefix_rfl⟩

theorem Keeps.trans {a b d : Stored} (h : Keeps a b) (h' : Keeps b d) : Keeps a d :=
  ⟨h.roles.trans h'.roles, h.users.trans h'.users, h'.others.trans h.others,
    h.encryption.trans h'.encryption⟩

theorem keeps_make (config : SeedConfig) : ∀ g ∈ goals config, ∀ s r s', g.make.Ends s r s' → Keeps s s' := by
  refine forall_goals (fun roleName s r s' h => ?_) (fun c roleName s r s' h => ?_) (fun s r s' h => ?_) config
  · rcases roleGoal_ends h with ⟨-, ⟨id, ht⟩, he⟩ | ⟨-, rfl, -⟩
    · exact ⟨ht ▸ List.prefix_append _ _, ht ▸ List.prefix_rfl, ht ▸ rfl, he ▸ List.prefix_rfl⟩
    · exact .refl s'
  · rcases userGoal_ends h with ⟨-, -, ⟨u, -, ht⟩, he⟩ | ⟨-, rfl, -⟩
    · exact ⟨ht ▸ List.prefix_rfl, ht ▸ List.prefix_append _ _, ht ▸ rfl, he ▸ List.prefix_rfl⟩
    · exact .refl s'
  · rcases flagGoal_ends h with ⟨-, hs, he⟩ | ⟨-, rfl, -⟩
    · have ht : s'.tables = s.tables := congrArg Server.tables hs
      exact ⟨ht ▸ List.prefix_rfl, ht ▸ List.prefix_rfl, ht ▸ rfl, he ▸ List.prefix_append _ _⟩
    · exact .refl s'

/-- A goal that is there stays there. -/
theorem Keeps.present (config : SeedConfig) : ∀ g ∈ goals config, ∀ s s', Keeps s s' →
    g.present s = true → g.present s' = true := by
  have hany : ∀ {α : Type} {p : α → Bool} {l l' : List α}, l <+: l' → l.any p = true → l'.any p = true := by
    intro α p l l' hl hp
    obtain ⟨a, ha, hpa⟩ := List.any_eq_true.1 hp
    exact List.any_eq_true.2 ⟨a, hl.subset ha, hpa⟩
  exact forall_goals (fun _ _ _ h => hany h.roles) (fun _ _ _ _ h => hany h.users)
    (fun _ _ h => hany h.encryption) config

theorem saveRole_writesLast (name : String) : (saveRole name).WritesLast :=
  Prog.WritesLast.op.bind_pure

theorem createUser_writesLast (c : Credentials) (roleName : Roles) : (createUser c roleName).WritesLast := by
  unfold createUser
  refine .read_bind fun role => ?_
  cases c.PASSWORD with
  | none => exact .throw
  | some p =>
    refine .read_bind fun password => ?_
    cases role with
    | none => exact .throw
    | some role => exact Prog.WritesLast.op.bind_pure

theorem flagGoal_writesLast : flagGoal.make.WritesLast := by
  refine Prog.WritesLast.within (P := Stored.onEncryption) ?_
  exact .op

/-- The goals of `seed` are made by one insert each. -/
theorem lawful (config : SeedConfig) : Goal.Lawful (goals config) where
  last := forall_goals (fun _ => (saveRole_writesLast _).within)
    (fun _ _ => (createUser_writesLast _ _).within) flagGoal_writesLast config
  made := by
    refine forall_goals (fun roleName s s' h => ?_) (fun c roleName s s' h => ?_) (fun s s' h => ?_) config
    · rcases roleGoal_ends h with ⟨-, ⟨id, ht⟩, -⟩ | ⟨⟨e, he⟩, -⟩
      · simp [roleGoal, ht]
      · cases he
    · rcases userGoal_ends h with ⟨-, -, ⟨u, hu, ht⟩, -⟩ | ⟨⟨e, he⟩, -⟩
      · simp [userGoal, ht, hu.email]
      · cases he
    · rcases flagGoal_ends h with ⟨-, -, he⟩ | ⟨⟨e, he⟩, -⟩
      · simp [flagGoal, he]
      · cases he
  rejected := by
    refine forall_goals (fun roleName s e s' h => ?_) (fun c roleName s e s' h => ?_)
      (fun s e s' h => ?_) config
    · rcases roleGoal_ends h with ⟨hr, -⟩ | ⟨-, hs, -⟩
      · cases hr
      · exact hs
    · rcases userGoal_ends h with ⟨hr, -⟩ | ⟨-, hs, -⟩
      · cases hr
      · exact hs
    · rcases flagGoal_ends h with ⟨hr, -⟩ | ⟨-, hs, -⟩
      · cases hr
      · exact hs
  keeps g hg h hh s r s' hend hp := Keeps.present config h hh s s' (keeps_make config g hg s r s' hend) hp
  decided := by
    refine forall_goals (fun roleName s e s' s'' hp h h' => ?_) (fun c roleName s e s' s'' hp h h' => ?_)
      (fun s e s' s'' hp h h' => ?_) config
    · rcases roleGoal_ends h with ⟨hr, -⟩ | ⟨-, -, hthere⟩
      · cases hr
      · rw [hp] at hthere
        cases hthere
    · rcases userGoal_ends h with ⟨hr, -⟩ | ⟨-, -, hno⟩
      · cases hr
      · rcases userGoal_ends h' with ⟨-, hseed, -⟩ | ⟨⟨e', he'⟩, -⟩
        · exact hno hp hseed
        · cases he'
    · rcases flagGoal_ends h with ⟨hr, -⟩ | ⟨-, -, hthere⟩
      · cases hr
      · rw [hp] at hthere
        cases hthere

/-! ## The same up to ids and salts -/

/-- Two users made from the same credentials. -/
def SameUser (t t' : Tables) (u u' : Users) : Prop :=
  ∃ c roleName, MadeFrom c roleName t u ∧ MadeFrom c roleName t' u'

/-- Two states that have grown out of `s` and are the same up to the ids of the
new rows and the salts of the new passwords. -/
structure SameSeeds (s a b : Stored) : Prop where
  roles : ∃ ra rb, a.tables.roles = s.tables.roles ++ ra ∧ b.tables.roles = s.tables.roles ++ rb ∧
    ra.map Role.name = rb.map Role.name
  users : ∃ ua ub, a.tables.users = s.tables.users ++ ua ∧ b.tables.users = s.tables.users ++ ub ∧
    List.Forall₂ (SameUser a.tables b.tables) ua ub
  others : a.tables.unseeded = b.tables.unseeded
  encryption : a.encryption = b.encryption

theorem SameSeeds.refl (s : Stored) : SameSeeds s s s where
  roles := ⟨[], [], (List.append_nil _).symm, (List.append_nil _).symm, rfl⟩
  users := ⟨[], [], (List.append_nil _).symm, (List.append_nil _).symm, .nil⟩
  others := rfl
  encryption := rfl

variable {a b a' b' : Stored} {r' : Except Rejection Unit}

theorem SameSeeds.names (h : SameSeeds s a b) :
    a.tables.roles.map Role.name = b.tables.roles.map Role.name := by
  obtain ⟨ra, rb, ha, hb, hnames⟩ := h.roles
  rw [ha, hb, List.map_append, List.map_append, hnames]

theorem SameSeeds.emails (h : SameSeeds s a b) :
    a.tables.users.map Users.email = b.tables.users.map Users.email := by
  obtain ⟨ua, ub, ha, hb, hsame⟩ := h.users
  rw [ha, hb, List.map_append, List.map_append]
  congr 1
  refine List.forall₂_eq_eq_eq ▸ (List.forall₂_map_left_iff.2 (List.forall₂_map_right_iff.2 ?_))
  refine hsame.imp fun u u' huu' => ?_
  obtain ⟨c, roleName, hu, hu'⟩ := huu'
  exact hu.email.trans hu'.email.symm

/-- The role of a name is in both. -/
theorem SameSeeds.role_iff (h : SameSeeds s a b) {name : String} :
    (∃ r ∈ a.tables.roles, r.name = name) ↔ ∃ r ∈ b.tables.roles, r.name = name := by
  have hmem : ∀ t : Tables, (∃ r ∈ t.roles, r.name = name) ↔ name ∈ t.roles.map Role.name := by
    intro t
    rw [List.mem_map]
  rw [hmem, hmem, h.names]

theorem SameSeeds.present (h : SameSeeds s a b) (config : SeedConfig) :
    ∀ g ∈ goals config, g.present a = g.present b := by
  have hany : ∀ (l : List String) (k : String), l.any (fun n => decide (n = k)) = decide (k ∈ l) := by
    intro l k
    rw [Bool.eq_iff_iff]
    simp
  refine forall_goals (fun roleName => ?_) (fun c roleName => ?_) ?_ config
  · have hrole : ∀ t : Stored, (roleGoal roleName).present t =
        decide (roleName.text ∈ t.tables.roles.map Role.name) := fun t => by
      rw [← hany, List.any_map]
      rfl
    rw [hrole, hrole, h.names]
  · have huser : ∀ t : Stored, (userGoal c roleName).present t =
        decide (c.EMAIL ∈ t.tables.users.map Users.email) := fun t => by
      rw [← hany, List.any_map]
      rfl
    rw [huser, huser, h.emails]
  · show a.encryption.any _ = b.encryption.any _
    rw [h.encryption]

/-- Two more rows keep the likeness. -/
theorem SameSeeds.add (h : SameSeeds s a b) (ra rb : List Role) (ua ub : List Users)
    (ha : a'.tables = { a.tables with roles := a.tables.roles ++ ra, users := a.tables.users ++ ua })
    (hb : b'.tables = { b.tables with roles := b.tables.roles ++ rb, users := b.tables.users ++ ub })
    (hroles : ra.map Role.name = rb.map Role.name)
    (husers : List.Forall₂ (SameUser a'.tables b'.tables) ua ub)
    (hencryption : a'.encryption = b'.encryption) : SameSeeds s a' b' where
  roles := by
    obtain ⟨ra₀, rb₀, ha₀, hb₀, hnames⟩ := h.roles
    refine ⟨ra₀ ++ ra, rb₀ ++ rb, ?_, ?_, ?_⟩
    · rw [ha, ha₀, List.append_assoc]
    · rw [hb, hb₀, List.append_assoc]
    · rw [List.map_append, List.map_append, hnames, hroles]
  users := by
    obtain ⟨ua₀, ub₀, ha₀, hb₀, hsame⟩ := h.users
    refine ⟨ua₀ ++ ua, ub₀ ++ ub, ?_, ?_, ?_⟩
    · rw [ha, ha₀, List.append_assoc]
    · rw [hb, hb₀, List.append_assoc]
    · refine List.rel_append ?_ husers
      refine hsame.imp fun u u' huu' => ?_
      obtain ⟨c, roleName, hu, hu'⟩ := huu'
      refine ⟨c, roleName, hu.mono ?_, hu'.mono ?_⟩
      · rw [ha]
        exact List.subset_append_left _ _
      · rw [hb]
        exact List.subset_append_left _ _
  others := by
    have hothers := h.others
    rw [ha, hb]
    exact hothers
  encryption := hencryption

theorem sameSeeds_make (config : SeedConfig) : ∀ g ∈ goals config, ∀ a b r r' a' b', SameSeeds s a b →
    g.present a = false → g.present b = false → g.make.Ends a r a' → g.make.Ends b r' b' →
      SameSeeds s a' b' ∧ (r = .ok () ↔ r' = .ok ()) := by
  refine forall_goals (fun roleName a b r r' a' b' h hpa hpb ha hb => ?_)
    (fun c roleName a b r r' a' b' h hpa hpb ha hb => ?_) (fun a b r r' a' b' h hpa hpb ha hb => ?_) config
  · rcases roleGoal_ends ha with ⟨rfl, ⟨ia, hta⟩, hea⟩ | ⟨-, -, hthere⟩
    · rcases roleGoal_ends hb with ⟨rfl, ⟨ib, htb⟩, heb⟩ | ⟨-, -, hthere⟩
      · refine ⟨h.add [⟨ia, roleName.text⟩] [⟨ib, roleName.text⟩] [] []
          ?_ ?_ rfl .nil ?_, iff_of_true rfl rfl⟩
        · rw [hta, List.append_nil]
        · rw [htb, List.append_nil]
        · rw [hea, heb, h.encryption]
      · rw [hpb] at hthere
        cases hthere
    · rw [hpa] at hthere
      cases hthere
  · have hseed : Seedable c roleName a.tables ↔ Seedable c roleName b.tables := by
      unfold Seedable
      rw [h.role_iff]
    rcases userGoal_ends ha with ⟨rfl, hsa, ⟨u, hu, hta⟩, hea⟩ | ⟨⟨e, rfl⟩, rfl, hno⟩
    · rcases userGoal_ends hb with ⟨rfl, -, ⟨u', hu', htb⟩, heb⟩ | ⟨-, -, hno⟩
      · refine ⟨h.add [] [] [u] [u'] ?_ ?_ rfl (.cons ?_ .nil) ?_,
          iff_of_true rfl rfl⟩
        · rw [hta, List.append_nil]
        · rw [htb, List.append_nil]
        · refine ⟨c, roleName, hu.mono ?_, hu'.mono ?_⟩
          · rw [hta]
            exact List.Subset.refl _
          · rw [htb]
            exact List.Subset.refl _
        · rw [hea, heb, h.encryption]
      · exact (hno hpb (hseed.1 hsa)).elim
    · rcases userGoal_ends hb with ⟨rfl, hsb, -⟩ | ⟨⟨e', rfl⟩, rfl, -⟩
      · exact (hno hpa (hseed.2 hsb)).elim
      · exact ⟨h, iff_of_false nofun nofun⟩
  · rcases flagGoal_ends ha with ⟨rfl, hsa, hea⟩ | ⟨-, -, hthere⟩
    · rcases flagGoal_ends hb with ⟨rfl, hsb, heb⟩ | ⟨-, -, hthere⟩
      · refine ⟨h.add [] [] [] [] ?_ ?_ rfl .nil ?_, iff_of_true rfl rfl⟩
        · rw [List.append_nil, List.append_nil]
          exact congrArg Server.tables hsa
        · rw [List.append_nil, List.append_nil]
          exact congrArg Server.tables hsb
        · rw [hea, heb, h.encryption]
      · rw [hpb] at hthere
        cases hthere
    · rw [hpa] at hthere
      cases hthere

end Makes

/-- The properties of seeding from a state: a run comes to its end and changes no
row; further runs change nothing; and a run that is cut off, followed by a full
one, ends as one that is not, up to ids and salts. -/
structure Converges (config : SeedConfig) (s : Stored) : Prop where
  ends : ∃ r s', (seed config).Ends s r s'
  keeps : ∀ r s', (seed config).Ends s r s' → Keeps s s'
  again : ∀ r s' s'', (seed config).Ends s r s' →
    Relation.ReflTransGen (fun a b => ∃ r, (seed config).Ends a r b) s' s'' → s'' = s'
  recovers : ∀ xs r s' r' s'', (seed config).Ends s r s' →
    (seed config).Ends ((seed config).stop xs s).2 r' s'' → SameSeeds s s' s''

/-- **Seeding is idempotent and tolerates a crash**, whatever the database holds
and whatever of the credentials but their emails is missing. -/
theorem seed_converges (config : SeedConfig) (s : Stored) : Converges config s where
  ends := by
    rw [seed_eq]
    exact (Goal.forkFree_ensureAll (forkFree_make config)).exists_ends s
  keeps r s' h := by
    rw [seed_eq] at h
    exact Goal.ends_relates Keeps.refl (fun _ _ _ => Keeps.trans) (keeps_make config) h
  again r s' s'' h hagain := by
    rw [seed_eq] at h hagain
    induction hagain with
    | refl => rfl
    | tail _ hlast ih =>
      obtain ⟨r', hlast⟩ := hlast
      rw [ih] at hlast
      exact (lawful config).ends_again (List.Subset.refl _) h hlast
  recovers xs r s' r' s'' h h' := by
    rw [seed_eq] at h h'
    exact Goal.ends_alike (fun g hg _ _ hR => hR.present config g hg) (sameSeeds_make config)
      (SameSeeds.refl s) h ((lawful config).ends_after_stop h')

end CoreDataSeederService

end Damaru
