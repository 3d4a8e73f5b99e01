import Damaru.System
import Damaru.Verify.Seeding

/-!
# The first start

What seeding makes of an empty database, however often it has been cut off or
rejected before. It is the state from which the system is taken to run, unless
the two administrators of the configuration share an email.
-/

namespace Damaru

open Async

namespace CoreDataSeederService

/-- Nothing is stored. -/
structure Blank (s : Stored) : Prop where
  tables : s.tables = ⟨[], [], [], [], [], [], [], []⟩
  encryption : s.encryption = []

/-- A start that is cut off at any point, rejected, or not cut off at all. -/
def Attempt (config : SeedConfig) (s s' : Stored) : Prop := ∃ xs, s' = ((seed config).stop xs s).2

/-- The configuration names the super admin, and the emulator admin too unless it
would have the same email; both with a password. -/
def Complete (config : SeedConfig) : Prop :=
  (config.SUPER_ADMIN.NAME.isSome = true ∧ config.SUPER_ADMIN.PASSWORD.isSome = true) ∧
    (config.SUPER_ADMIN.EMAIL ≠ config.EMULATOR_USER.EMAIL →
      config.EMULATOR_USER.NAME.isSome = true ∧ config.EMULATOR_USER.PASSWORD.isSome = true)

/-- The roles, the administrators and the flag. -/
structure Administered (config : SeedConfig) (s : Stored) : Prop where
  admins : ∃ u us, s.tables.users = u :: us ∧ MadeFrom config.SUPER_ADMIN .SuperAdmin s.tables u ∧
    ((config.SUPER_ADMIN.EMAIL = config.EMULATOR_USER.EMAIL ∧ us = []) ∨
      (config.SUPER_ADMIN.EMAIL ≠ config.EMULATOR_USER.EMAIL ∧
        ∃ v, us = [v] ∧ MadeFrom config.EMULATOR_USER .EmulatorAdmin s.tables v))
  seeded : Seeded s.tables ↔ config.SUPER_ADMIN.EMAIL ≠ config.EMULATOR_USER.EMAIL
  encryption : s.encryption = [⟨"1", true⟩]

variable {config : SeedConfig} {c : Credentials} {roleName : Roles} {s s' s₀ s₁ : Stored}
variable {r : Except Rejection Unit} {gs : List (Goal Ext Stored Rejection)}

/-- Attempts before do not change how a start can end. -/
theorem ends_of_attempts (hattempts : Relation.ReflTransGen (Attempt config) s₀ s₁)
    (h : (seed config).Ends s₁ r s) : (Goal.ensureAll (goals config)).Ends s₀ r s := by
  induction hattempts with
  | refl => rwa [seed_eq] at h
  | tail _ hlast ih =>
    obtain ⟨xs, rfl⟩ := hlast
    rw [seed_eq] at h
    refine ih ?_
    rw [seed_eq]
    exact (lawful config).ends_after_stop h

/-! ## One goal after another -/

/-- A role that is missing is made. -/
theorem ends_role (h : (Goal.ensureAll (roleGoal roleName :: gs)).Ends s r s')
    (hno : ∀ role ∈ s.tables.roles, role.name ≠ roleName.text) : ∃ t id,
      t.tables = { s.tables with roles := s.tables.roles ++ [⟨id, roleName.text⟩] } ∧
      t.encryption = s.encryption ∧ (Goal.ensureAll gs).Ends t r s' := by
  have hmissing : (roleGoal roleName).present s = false :=
    List.any_eq_false.2 fun role hrole => by simpa using hno role hrole
  rcases Goal.ends_ensureAll_cons.1 h with ⟨hp, -⟩ | ⟨-, t, hmake, hrest⟩ | ⟨-, e, -, hmake⟩
  · rw [hmissing] at hp
    cases hp
  · rcases roleGoal_ends hmake with ⟨-, ⟨id, ht⟩, he⟩ | ⟨⟨e, he⟩, -⟩
    · exact ⟨t, id, ht, he, hrest⟩
    · cases he
  · rcases roleGoal_ends hmake with ⟨he, -⟩ | ⟨-, -, hp⟩
    · cases he
    · rw [hmissing] at hp
      cases hp

/-- So is a user, if it can be made. -/
theorem ends_user (h : (Goal.ensureAll (userGoal c roleName :: gs)).Ends s r s')
    (hno : ∀ u ∈ s.tables.users, u.email ≠ c.EMAIL) :
    (Seedable c roleName s.tables ∧ ∃ t u, MadeFrom c roleName s.tables u ∧
      t.tables = { s.tables with users := s.tables.users ++ [u] } ∧ t.encryption = s.encryption ∧
      (Goal.ensureAll gs).Ends t r s') ∨ (¬ Seedable c roleName s.tables ∧ ∃ e, r = .error e) := by
  have hmissing : (userGoal c roleName).present s = false :=
    List.any_eq_false.2 fun u hu => by simpa using hno u hu
  rcases Goal.ends_ensureAll_cons.1 h with ⟨hp, -⟩ | ⟨-, t, hmake, hrest⟩ | ⟨-, e, he, hmake⟩
  · rw [hmissing] at hp
    cases hp
  · rcases userGoal_ends hmake with ⟨-, hseed, ⟨u, hu, ht⟩, he⟩ | ⟨⟨e, he⟩, -⟩
    · exact .inl ⟨hseed, t, u, hu, ht, he, hrest⟩
    · cases he
  · rcases userGoal_ends hmake with ⟨he', -⟩ | ⟨-, -, hnot⟩
    · cases he'
    · exact .inr ⟨hnot hmissing, e, he⟩

/-- A user whose email is taken is left out. -/
theorem ends_user_of_present (h : (Goal.ensureAll (userGoal c roleName :: gs)).Ends s r s')
    (hp : (userGoal c roleName).present s = true) : (Goal.ensureAll gs).Ends s r s' := by
  rcases Goal.ends_ensureAll_cons.1 h with ⟨-, hrest⟩ | ⟨hno, -⟩ | ⟨hno, -⟩
  · exact hrest
  · rw [hp] at hno
    cases hno
  · rw [hp] at hno
    cases hno

/-- The flag is the last. -/
theorem ends_flag (h : (Goal.ensureAll [flagGoal]).Ends s r s') (hno : s.encryption = []) :
    r = .ok () ∧ s'.tables = s.tables ∧ s'.encryption = [⟨"1", true⟩] := by
  have hmissing : flagGoal.present s = false := by
    show s.encryption.any _ = false
    rw [hno]
    rfl
  rcases Goal.ends_ensureAll_cons.1 h with ⟨hp, -⟩ | ⟨-, t, hmake, hrest⟩ | ⟨-, e, -, hmake⟩
  · rw [hmissing] at hp
    cases hp
  · obtain ⟨rfl, rfl⟩ := Goal.ends_ensureAll_nil.1 hrest
    rcases flagGoal_ends hmake with ⟨-, hserver, he⟩ | ⟨⟨e, he⟩, -⟩
    · refine ⟨rfl, congrArg Server.tables hserver, ?_⟩
      rw [he, hno]
      rfl
    · cases he
  · rcases flagGoal_ends hmake with ⟨he, -⟩ | ⟨-, -, hp⟩
    · cases he
    · rw [hmissing] at hp
      cases hp

/-! ## The whole -/

/-- The three roles, in the order in which they are made. -/
def rolesOf (emulatorAdmin superAdmin androidUser : String) : List Role :=
  [⟨emulatorAdmin, Roles.EmulatorAdmin.text⟩, ⟨superAdmin, Roles.SuperAdmin.text⟩,
    ⟨androidUser, Roles.AndroidUser.text⟩]

theorem ends_roles (hblank : Blank s) (h : (Goal.ensureAll (goals config)).Ends s r s') :
    ∃ t i j k, t.tables = ⟨rolesOf i j k, [], [], [], [], [], [], []⟩ ∧ t.encryption = [] ∧
      (Goal.ensureAll [userGoal config.SUPER_ADMIN .SuperAdmin,
        userGoal config.EMULATOR_USER .EmulatorAdmin, flagGoal]).Ends t r s' := by
  obtain ⟨t₁, i, ht₁, he₁, h₁⟩ := ends_role h (by rw [hblank.tables]; simp)
  rw [hblank.tables] at ht₁
  obtain ⟨t₂, j, ht₂, he₂, h₂⟩ := ends_role h₁ (by rw [ht₁]; simp [Roles.text])
  rw [ht₁] at ht₂
  obtain ⟨t₃, k, ht₃, he₃, h₃⟩ := ends_role h₂ (by rw [ht₂]; simp [Roles.text])
  rw [ht₂] at ht₃
  exact ⟨t₃, i, j, k, ht₃, by rw [he₃, he₂, he₁, hblank.encryption], h₃⟩

/-- The tables with the roles and some users are seeded exactly if the users are
two, both made from the configuration. -/
theorem seeded_iff {i j k : String} {us : List Users}
    (hus : ∀ u ∈ us, ∃ c roleName, MadeFrom c roleName ⟨rolesOf i j k, us, [], [], [], [], [], []⟩ u ∧
      roleName.text ≠ Roles.AndroidUser.text) :
    Seeded ⟨rolesOf i j k, us, [], [], [], [], [], []⟩ ↔ us.length = 2 := by
  refine ⟨fun h => h.users.1, fun h => ⟨.refl _, ⟨h, fun u hu => ?_⟩, rfl, rfl, rfl, rfl, rfl, rfl⟩⟩
  obtain ⟨c, roleName, hmade, hne⟩ := hus u hu
  obtain ⟨role, hrole, hu, hname⟩ := hmade.role
  exact ⟨role, hrole, hu, hname ▸ hne⟩

/-- A start comes to an end. -/
theorem start_ends (config : SeedConfig) (s : Stored) : ∃ r s', (seed config).Ends s r s' := by
  rw [seed_eq]
  exact (Goal.forkFree_ensureAll (forkFree_make config)).exists_ends s

/-- **The first start.** Whatever attempts come before it, a start on a blank
database succeeds exactly if the configuration is complete; it leaves the roles,
the administrators and the flag, and the state is a seeded one exactly if the
emails of the administrators differ. -/
theorem first_start (hblank : Blank s₀) (hattempts : Relation.ReflTransGen (Attempt config) s₀ s₁)
    (h : (seed config).Ends s₁ r s) :
    (r = .ok () ↔ Complete config) ∧ (r = .ok () → Administered config s) := by
  obtain ⟨t, i, j, k, ht, he, h⟩ := ends_roles hblank (ends_of_attempts hattempts h)
  have hsuper : ∀ c, Seedable c .SuperAdmin t.tables ↔ c.NAME.isSome = true ∧ c.PASSWORD.isSome = true := by
    intro c
    unfold Seedable
    rw [ht]
    simp [rolesOf]
  rcases ends_user h (by rw [ht]; simp) with ⟨hseed, t₁, u, hu, ht₁, he₁, h⟩ | ⟨hseed, e, rfl⟩
  · rw [hsuper] at hseed
    rw [ht] at ht₁ hu
    by_cases hemail : config.SUPER_ADMIN.EMAIL = config.EMULATOR_USER.EMAIL
    · -- the emulator admin is taken to be there
      have hp : (userGoal config.EMULATOR_USER .EmulatorAdmin).present t₁ = true := by
        show t₁.tables.users.any _ = true
        rw [ht₁]
        simp [hu.email, hemail]
      obtain ⟨rfl, hs, hflag⟩ := ends_flag (ends_user_of_present h hp) (he₁.trans he)
      have hu' : MadeFrom config.SUPER_ADMIN .SuperAdmin s.tables u :=
        hu.mono (by rw [hs, ht₁]; exact fun _ h => h)
      refine ⟨iff_of_true rfl ⟨hseed, fun hne => absurd hemail hne⟩,
        fun _ => ⟨⟨u, [], ?_, hu', ?_⟩, ?_, hflag⟩⟩
      · rw [hs, ht₁]
        rfl
      · exact .inl ⟨hemail, rfl⟩
      · refine iff_of_false (fun hseeded => ?_) fun hne => hne hemail
        have hlength := hseeded.users.1
        rw [hs, ht₁] at hlength
        cases hlength
    · rcases ends_user h (by rw [ht₁]; simpa [hu.email] using hemail) with
        ⟨hseed', t₂, v, hv, ht₂, he₂, h⟩ | ⟨hseed', e, rfl⟩
      · obtain ⟨rfl, hs, hflag⟩ := ends_flag h (he₂.trans (he₁.trans he))
        rw [ht₁] at ht₂ hv
        have hu' : MadeFrom config.SUPER_ADMIN .SuperAdmin s.tables u :=
          hu.mono (by rw [hs, ht₂]; exact fun _ h => h)
        have hv' : MadeFrom config.EMULATOR_USER .EmulatorAdmin s.tables v :=
          hv.mono (by rw [hs, ht₂]; exact fun _ h => h)
        refine ⟨iff_of_true rfl ⟨hseed, fun _ => ⟨hseed'.1, hseed'.2.1⟩⟩,
          fun _ => ⟨⟨u, [v], ?_, hu', .inr ⟨hemail, v, rfl, hv'⟩⟩, ?_, hflag⟩⟩
        · rw [hs, ht₂]
          rfl
        · refine iff_of_true ?_ hemail
          rw [hs, ht₂] at hu' hv' ⊢
          refine (seeded_iff fun w hw => ?_).2 rfl
          rcases List.mem_cons.1 hw with rfl | hw
          · exact ⟨_, _, hu', by decide⟩
          · rw [List.mem_singleton.1 hw]
            exact ⟨_, _, hv', by decide⟩
      · refine ⟨iff_of_false nofun fun hc => hseed' ?_, nofun⟩
        refine ⟨(hc.2 hemail).1, (hc.2 hemail).2, ⟨i, Roles.EmulatorAdmin.text⟩, ?_, rfl⟩
        rw [ht₁]
        exact List.mem_cons_self
  · rw [hsuper] at hseed
    exact ⟨iff_of_false nofun fun hc => hseed hc.1, nofun⟩

end CoreDataSeederService

namespace Sample

open CoreDataSeederService

def config : SeedConfig where
  SUPER_ADMIN := ⟨"s@x", some "S", some "p"⟩
  EMULATOR_USER := ⟨"m@x", some "M", some "q"⟩

/-- A database in which nothing is stored yet. -/
def blank : Stored where
  server :=
    { platform := platform, db := ⟨⟨[], [], [], [], [], [], [], []⟩, by decide⟩, issued := [],
      connections := [], emitted := [] }
  encryption := []

/-- A start is cut off when it has made the first of the roles. -/
def cutOff : Stored := ((seed config).stop [input "", input "r1"] blank).2

end Sample

open CoreDataSeederService in
/-- The start after it leaves a seeded state. -/
theorem first_start_sample : Sample.cutOff.tables.roles.length = 1 ∧
    ∃ s, (seed Sample.config).Ends Sample.cutOff (.ok ()) s ∧ Administered Sample.config s ∧ Seeded s.tables := by
  have hblank : Blank Sample.blank := ⟨rfl, rfl⟩
  have hattempt : Attempt Sample.config Sample.blank Sample.cutOff := ⟨_, rfl⟩
  have hcomplete : Complete Sample.config := ⟨⟨rfl, rfl⟩, fun _ => ⟨rfl, rfl⟩⟩
  obtain ⟨r, s, hends⟩ := start_ends Sample.config Sample.cutOff
  obtain ⟨hiff, hall⟩ := first_start hblank (.single hattempt) hends
  obtain rfl := hiff.2 hcomplete
  exact ⟨by decide +kernel, s, hends, hall rfl, (hall rfl).seeded.2 (by decide)⟩

end Damaru
