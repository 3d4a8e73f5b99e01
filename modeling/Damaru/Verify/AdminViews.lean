import Damaru.Verify.HeldLinks
import Damaru.Async.Listing

/-!
# Who holds which device

An Android admin sees the devices linked to its user, a super admin all of
them with their holders, and the list of users counts the links. The link in
force on a device makes the three agree.
-/

namespace Damaru

open Async Table

namespace Tables

/-- The link in force on a device, and the user who holds it. -/
def holder (t : Tables) (d : String) : Option (UserEmulators × Users) :=
  (t.active d).head?.bind fun l => (t.user? l.user).map fun u => (l, u)

theorem user?_some {t : Tables} {k : Option String} {u : Users} (h : t.user? k = some u) :
    u ∈ t.users ∧ k = some u.id := by
  obtain ⟨k, rfl, hfind⟩ := Option.bind_eq_some_iff.1 h
  have hkey := @List.find?_some _ (fun u : Users => decide (u.id = k)) _ _ hfind
  exact ⟨List.mem_of_find?_eq_some hfind, congrArg some (of_decide_eq_true hkey).symm⟩

/-- The user of a link that has one exists. -/
theorem Integrity.user_exists {t : Tables} (h : t.Integrity) {l : UserEmulators}
    (hl : l ∈ t.userEmulators) (huser : l.user ≠ none) : ∃ u, t.user? l.user = some u := by
  obtain ⟨k, hk⟩ := Option.ne_none_iff_exists'.1 huser
  have href := h.link_user l hl
  rw [hk, refers_some] at href
  obtain ⟨u, hu, rfl⟩ := List.mem_map.1 href
  exact ⟨u, by rw [hk]; exact h.user?_eq hu⟩

end Tables

namespace EmulatorService

/-- A device as the lists show it. -/
def shown (url : Option String) (e : Emulator) : Emulator :=
  { e with screenshot := some (e.screenshot.getD (Utils.getDefaultScreenShot url "default.png")) }

/-- The item of a device, by its holder. -/
def itemOf (url : Option String) (today : Date) (t : Tables) (e : Emulator) : EmulatorItem where
  emulator := shown url e
  userEmulators := none
  email := (t.holder e.device_id).map fun h => h.2.email
  userId := (t.holder e.device_id).map fun h => h.2.id
  expires_at := (t.holder e.device_id).map fun h => DateUtils.diffInDays h.1.expires_at today

section Mapper

variable {t : Tables} {url : Option String} {today : Date} {rank : String → Nat}
  {p : Tables → UserEmulators → Bool} {e : Emulator}

theorem mapper_available (hstate : e.state = .AVAILABLE) (hnone : t.active e.device_id = []) :
    emulatorResponseMapper url today (loaded p rank t e) = .ok (itemOf url today t e) := by
  have hholder : t.holder e.device_id = none := by
    unfold Tables.holder
    rw [hnone]
    rfl
  unfold emulatorResponseMapper loaded itemOf
  rw [hholder, if_pos hstate]
  rfl

/-- The links in force among those that a query loads. -/
theorem loaded_active (hp : ∀ l ∈ t.active e.device_id, p t l = true) :
    (((loaded p rank t e).2).filter fun l => l.1.active).Perm
      ((t.active e.device_id).map fun l => (l, t.user? l.user)) := by
  unfold loaded
  rw [List.filter_map]
  apply List.Perm.map
  have hscan := Table.scan_perm rank UserEmulators.id
    (t.userEmulators.filter fun l => l.device = some e.device_id && p t l)
  refine (hscan.filter _).trans ?_
  rw [List.filter_filter]
  apply List.Perm.of_eq
  unfold Tables.active
  refine List.filter_congr fun l hl => ?_
  by_cases hactive : l ∈ t.active e.device_id
  · obtain ⟨-, hdevice, hact⟩ := Tables.mem_active.1 hactive
    simp [hdevice, hact, hp l hactive]
  · have hnot : ¬ (l.device = some e.device_id ∧ l.active = true) := fun h =>
      hactive (Tables.mem_active.2 ⟨hl, h.1, h.2⟩)
    by_cases hdevice : l.device = some e.device_id
    · have hact : l.active = false := Bool.eq_false_iff.2 fun h => hnot ⟨hdevice, h⟩
      simp [hact]
    · simp [hdevice]

theorem mapper_registered {l : UserEmulators} {u : Users} (hstate : e.state = .REGISTERED)
    (hactive : t.active e.device_id = [l]) (hp : p t l = true) (huser : t.user? l.user = some u) :
    emulatorResponseMapper url today (loaded p rank t e) = .ok (itemOf url today t e) := by
  have hholder : t.holder e.device_id = some (l, u) := by
    unfold Tables.holder
    rw [hactive, List.head?_cons, Option.bind_some, huser]
    rfl
  have hloaded := @loaded_active t rank p e (by rw [hactive]; simpa using hp)
  rw [hactive, List.map_singleton, List.perm_singleton, huser] at hloaded
  have hlen : (loaded p rank t e).2.length > 0 := by
    have hmem : (l, some u) ∈ (loaded p rank t e).2 := by
      have h : (l, some u) ∈ ((loaded p rank t e).2).filter fun l => l.1.active := by
        rw [hloaded]
        exact List.mem_singleton.2 rfl
      exact (List.mem_filter.1 h).1
    exact List.length_pos_of_mem hmem
  unfold emulatorResponseMapper
  rw [if_neg]
  · unfold mapRegisteredEmulators
    rw [if_pos hlen, hloaded]
    unfold itemOf
    rw [hholder]
    rfl
  · show ¬ e.state = .AVAILABLE
    rw [hstate]
    simp

/-- Every device has one item, whichever links its query loads, as long as the
one in force is among them. -/
theorem mapper_eq (ht : t.Integrity) (h : Operation.LinksSound t) (he : e ∈ t.emulators)
    (hp : ∀ l ∈ t.active e.device_id, p t l = true) :
    emulatorResponseMapper url today (loaded p rank t e) = .ok (itemOf url today t e) := by
  rcases h.state e he with ⟨hstate, hlen⟩ | ⟨hstate, hnone⟩
  · obtain ⟨l, hl⟩ := List.length_eq_one_iff.1 hlen
    have hmem : l ∈ t.active e.device_id := by
      rw [hl]
      exact List.mem_singleton.2 rfl
    have hlink := (Tables.mem_active.1 hmem).1
    obtain ⟨u, hu⟩ := ht.user_exists hlink (h.whole l hlink).1
    exact mapper_registered hstate hl (hp l hmem) hu
  · exact mapper_available hstate hnone

end Mapper

/-! ## The lists of devices -/

/-- A listing whose query loads, for every device it returns, the link in
force. -/
theorem run_findAll {s : Server} {jwt : JwtToken} (h : Operation.LinksSound s.tables)
    (hvisible : ∀ e ∈ s.tables.emulators, listed jwt s.tables e = true →
      ∀ l ∈ s.tables.active e.device_id, visible jwt s.tables l = true) (x y : Ext) :
    (findAll jwt).run [x, y] s =
      some (.ok ((emulatorRepository.scan (listed jwt) x s.tables).map
        (itemOf s.platform.SCREENSHOT_URL y.now s.tables)), s) := by
  have hitems : ((emulatorRepository.scan (listed jwt) x s.tables).map
      (loaded (visible jwt) x.rank s.tables)).mapM
        (emulatorResponseMapper s.platform.SCREENSHOT_URL y.now) =
      .ok ((emulatorRepository.scan (listed jwt) x s.tables).map
        (itemOf s.platform.SCREENSHOT_URL y.now s.tables)) := by
    rw [List.mapM_map]
    refine mapM_eq_ok fun e he => ?_
    obtain ⟨hmem, hlisted⟩ := Repository.mem_scan.1 he
    exact mapper_eq s.db.integrity h hmem (hvisible e hmem hlisted)
  unfold findAll
  rw [run_query_bind rfl, run_query, hitems]

/-- A link in force is the only one of its device. -/
theorem active_eq {t : Tables} (ht : t.Integrity) (h : Operation.LinksSound t) {d : String}
    {l : UserEmulators} (hl : l ∈ t.active d) : t.active d = [l] := by
  obtain ⟨e, he, rfl⟩ := ht.device_exists hl
  rcases h.state e he with ⟨-, hlen⟩ | ⟨-, hnone⟩
  · obtain ⟨k, hk⟩ := List.length_eq_one_iff.1 hlen
    rw [hk, List.mem_singleton] at hl
    rw [hk, hl]
  · rw [hnone] at hl
    cases hl

theorem active_unique {t : Tables} (ht : t.Integrity) (h : Operation.LinksSound t) {d : String}
    {l l' : UserEmulators} (hl : l ∈ t.active d) (hl' : l' ∈ t.active d) : l = l' := by
  rw [active_eq ht h hl', List.mem_singleton] at hl
  exact hl

theorem userId_iff {t : Tables} (ht : t.Integrity) (h : Operation.LinksSound t)
    {url : Option String} {today : Date} {e : Emulator} {k : String} :
    (itemOf url today t e).userId = some k ↔ ∃ l ∈ t.active e.device_id, l.user = some k := by
  show ((t.holder e.device_id).map fun h => h.2.id) = some k ↔ _
  constructor
  · intro hk
    obtain ⟨p, hp, rfl⟩ := Option.map_eq_some_iff.1 hk
    obtain ⟨l, hhead, hl⟩ := Option.bind_eq_some_iff.1 hp
    obtain ⟨u, hu, rfl⟩ := Option.map_eq_some_iff.1 hl
    exact ⟨l, List.mem_of_mem_head? hhead, (Tables.user?_some hu).2⟩
  · rintro ⟨l, hl, huser⟩
    obtain ⟨u, hu⟩ := ht.user_exists (Tables.mem_active.1 hl).1 (by rw [huser]; simp)
    obtain ⟨-, hid⟩ := Tables.user?_some hu
    rw [huser] at hid
    unfold Tables.holder
    rw [active_eq ht h hl, List.head?_cons, Option.bind_some, hu]
    exact hid.symm

/-- An Android admin's query returns the devices that its user holds. -/
theorem listed_iff {t : Tables} (h : Operation.LinksSound t) {jwt : JwtToken}
    (hrole : jwt.role = .AndroidUser) (hsub : jwt.subRole = some .AndroidAdmin) {e : Emulator}
    (he : e ∈ t.emulators) :
    listed jwt t e = true ↔ ∃ l ∈ t.active e.device_id, l.user = some jwt.sub := by
  unfold listed visible
  simp only [hrole, hsub, and_self, reduceCtorEq, if_true, if_false, Bool.and_eq_true,
    List.any_eq_true, decide_eq_true_eq]
  constructor
  · rintro ⟨⟨l, hl, hdevice, huser, hactive⟩, -⟩
    exact ⟨l, Tables.mem_active.2 ⟨hl, hdevice, hactive⟩, huser⟩
  · rintro ⟨l, hl, huser⟩
    obtain ⟨hmem, hdevice, hactive⟩ := Tables.mem_active.1 hl
    refine ⟨⟨l, hmem, hdevice, huser, hactive⟩, ?_⟩
    rcases h.state e he with ⟨hstate, -⟩ | ⟨-, hnone⟩
    · exact hstate
    · rw [hnone] at hl
      cases hl

/-- The links in force of a user, by their devices, are the devices that it
holds. -/
theorem held_perm {t : Tables} (ht : t.Integrity) (h : Operation.LinksSound t) {jwt : JwtToken}
    (hrole : jwt.role = .AndroidUser) (hsub : jwt.subRole = some .AndroidAdmin) :
    ((t.userEmulators.filter fun l => l.user = some jwt.sub && l.active).map UserEmulators.device).Perm
      ((t.emulators.filter (listed jwt t)).map fun e => some e.device_id) := by
  rw [List.perm_ext_iff_of_nodup]
  · intro k
    rw [List.mem_map, List.mem_map]
    constructor
    · rintro ⟨l, hl, rfl⟩
      obtain ⟨hmem, hheld⟩ := List.mem_filter.1 hl
      obtain ⟨huser, hactive⟩ := Bool.and_eq_true_iff.1 hheld
      obtain ⟨d, hd⟩ := Option.ne_none_iff_exists'.1 (h.whole l hmem).2
      have hin : l ∈ t.active d := Tables.mem_active.2 ⟨hmem, hd, hactive⟩
      obtain ⟨e, he, rfl⟩ := ht.device_exists hin
      refine ⟨e, List.mem_filter.2 ⟨he, ?_⟩, hd.symm⟩
      exact (listed_iff h hrole hsub he).2 ⟨l, hin, of_decide_eq_true huser⟩
    · rintro ⟨e, he, rfl⟩
      obtain ⟨hmem, hlisted⟩ := List.mem_filter.1 he
      obtain ⟨l, hl, huser⟩ := (listed_iff h hrole hsub hmem).1 hlisted
      obtain ⟨hlink, hdevice, hactive⟩ := Tables.mem_active.1 hl
      exact ⟨l, List.mem_filter.2 ⟨hlink, by rw [huser, hactive]; simp⟩, hdevice⟩
  · have hkeys : (t.userEmulators.filter fun l => l.user = some jwt.sub && l.active).Nodup :=
      ht.userEmulators.of_map.filter _
    refine hkeys.map_on fun l hl l' hl' heq => ?_
    obtain ⟨hmem, hheld⟩ := List.mem_filter.1 hl
    obtain ⟨hmem', hheld'⟩ := List.mem_filter.1 hl'
    obtain ⟨d, hd⟩ := Option.ne_none_iff_exists'.1 (h.whole l hmem).2
    exact active_unique ht h
      (Tables.mem_active.2 ⟨hmem, hd, (Bool.and_eq_true_iff.1 hheld).2⟩)
      (Tables.mem_active.2 ⟨hmem', heq ▸ hd, (Bool.and_eq_true_iff.1 hheld').2⟩)
  · have hids : ((t.emulators.filter (listed jwt t)).map Emulator.device_id).Nodup :=
      ht.emulators.sublist (List.filter_sublist.map _)
    rw [show (fun e : Emulator => some e.device_id) = some ∘ Emulator.device_id from rfl,
      ← List.map_map]
    exact hids.map (Option.some_injective _)

end EmulatorService

/-! ## The three views -/

/-- A user is an Android user. -/
def Tables.IsAndroidUser (t : Tables) (u : Users) : Prop :=
  u ∈ t.users ∧ ∃ r, t.role? u.role = some r ∧ r.name = Roles.AndroidUser.text

/-- The user has one item in the list of users. -/
theorem UsersService.userItem_androidUser {t : Tables} {u : Users} (h : t.IsAndroidUser u)
    (rank : String → Nat) : ∃ i, userItem rank t u = some i ∧ i.id = u.id ∧
      i.emulatorsCount = (t.userEmulators.filter fun l => l.user = some u.id && l.active).length := by
  obtain ⟨-, r, hr, hname⟩ := h
  unfold userItem
  rw [hr]
  dsimp only
  rw [hname, if_neg (by decide)]
  exact ⟨_, rfl, rfl, rfl⟩

theorem UsersService.userItem_id {rank : String → Nat} {t : Tables} {u : Users} {i : UserItem}
    (h : userItem rank t u = some i) : i.id = u.id := by
  unfold userItem at h
  split at h
  · cases h
  · split at h
    · cases h
    · cases h
      rfl

/-- What the list of a user's Android admin, that of a super admin and the list
of users say about the user. -/
structure AdminViewsAgree (s : Server) (u : Users) (own all : List EmulatorService.EmulatorItem)
    (users : List UsersService.UserItem) : Prop where
  /-- The user's list contains each device at most once. -/
  once : (own.map fun i => i.emulator.device_id).Nodup
  /-- It is the items of the full list that carry the user. -/
  agree : own.Perm (all.filter fun i => i.userId = some u.id)
  history : ∀ i ∈ own, i.userEmulators = none
  /-- The full list shows every device once. -/
  complete : (all.map EmulatorService.EmulatorItem.emulator).Perm
    (s.tables.emulators.map (EmulatorService.shown s.platform.SCREENSHOT_URL))
  complete_once : (all.map fun i => i.emulator.device_id).Nodup
  available : ∀ i ∈ all, i.emulator.state = .AVAILABLE → i.email = none ∧ i.userId = none
  counted : ∃ i ∈ users, i.id = u.id
  count : ∀ i ∈ users, i.id = u.id → i.emulatorsCount = own.length

open EmulatorService in
theorem Operation.LinksSound.adminViews {s : Server} (h : LinksSound s.tables) {u : Users}
    (hu : s.tables.IsAndroidUser u) {jwt admin : JwtToken} (hrole : jwt.role = .AndroidUser)
    (hsub : jwt.subRole = some .AndroidAdmin) (huser : jwt.sub = u.id)
    (hadmin : admin.role = .SuperAdmin) (today : Date) (x x' z : Ext) :
    AdminViewsAgree s u
      ((emulatorRepository.scan (listed jwt) x s.tables).map
        (itemOf s.platform.SCREENSHOT_URL today s.tables))
      ((emulatorRepository.scan (listed admin) x' s.tables).map
        (itemOf s.platform.SCREENSHOT_URL today s.tables))
      ((usersRepository.scan (fun _ _ => true) z s.tables).filterMap
        (UsersService.userItem z.rank s.tables)) := by
  have hi := s.integrity
  have hscan : ∀ (j : JwtToken) (w : Ext), (emulatorRepository.scan (listed j) w s.tables).Perm
      (s.tables.emulators.filter (listed j s.tables)) := fun j w => Table.scan_perm _ _ _
  have hall : s.tables.emulators.filter (listed admin s.tables) = s.tables.emulators := by
    refine List.filter_eq_self.2 fun e _ => ?_
    unfold listed
    rw [if_pos hadmin]
  have hholds : ∀ e ∈ s.tables.emulators, listed jwt s.tables e =
      decide ((itemOf s.platform.SCREENSHOT_URL today s.tables e).userId = some u.id) := by
    intro e he
    rw [Bool.eq_iff_iff, decide_eq_true_eq, userId_iff hi h, listed_iff h hrole hsub he, huser]
  have hids : ∀ (j : JwtToken) (w : Ext), (((emulatorRepository.scan (listed j) w s.tables).map
      (itemOf s.platform.SCREENSHOT_URL today s.tables)).map fun i => i.emulator.device_id).Nodup := by
    intro j w
    rw [List.map_map]
    refine (((hscan j w).map Emulator.device_id).nodup_iff).2 ?_
    exact hi.emulators.sublist (List.filter_sublist.map _)
  refine ⟨hids jwt x, ?_, ?_, ?_, hids admin x', ?_, ?_, ?_⟩
  · rw [List.filter_map]
    refine List.Perm.map _ ((hscan jwt x).trans ?_)
    refine .trans (.of_eq (List.filter_congr hholds)) ?_
    refine List.Perm.filter _ ?_
    exact ((hscan admin x').trans (.of_eq hall)).symm
  · intro i hmem
    obtain ⟨e, -, rfl⟩ := List.mem_map.1 hmem
    rfl
  · rw [List.map_map]
    exact ((hscan admin x').trans (.of_eq hall)).map (shown s.platform.SCREENSHOT_URL)
  · intro i hmem hstate
    obtain ⟨e, he, rfl⟩ := List.mem_map.1 hmem
    have hnone : s.tables.active e.device_id = [] := by
      rcases h.state e (Repository.mem_scan.1 he).1 with ⟨hreg, -⟩ | ⟨-, hnone⟩
      · exact absurd (hreg.symm.trans hstate) (by simp)
      · exact hnone
    simp [itemOf, Tables.holder, hnone]
  · obtain ⟨i, hitem, hid, -⟩ := UsersService.userItem_androidUser hu z.rank
    exact ⟨i, List.mem_filterMap.2 ⟨u, Repository.mem_scan.2 ⟨hu.1, rfl⟩, hitem⟩, hid⟩
  · intro i hmem hid
    obtain ⟨v, hv, hitem⟩ := List.mem_filterMap.1 hmem
    have hvu : v = u := by
      refine Table.eq_of_key hi.users (Repository.mem_scan.1 hv).1 hu.1 ?_
      rw [← UsersService.userItem_id hitem, hid]
    subst hvu
    obtain ⟨i', hitem', -, hcount⟩ := UsersService.userItem_androidUser hu z.rank
    rw [hitem] at hitem'
    cases hitem'
    have hlen := (held_perm hi h hrole hsub).length_eq
    rw [List.length_map, List.length_map, huser] at hlen
    rw [hcount, hlen, List.length_map, (hscan jwt x).length_eq]

/-- **The admin views agree on who holds which device.** -/
theorem admin_views_agree {s₀ s : Server} {steps : List (Server × Operation × Server)}
    (hdevices : s₀.tables.emulators = []) (hlinks : s₀.tables.userEmulators = [])
    (hrun : Trace Operation.Completes s₀ steps s) {u : Users} (hu : s.tables.IsAndroidUser u)
    (jwt admin : JwtToken) (hrole : jwt.role = .AndroidUser)
    (hsub : jwt.subRole = some .AndroidAdmin) (huser : jwt.sub = u.id)
    (hadmin : admin.role = .SuperAdmin) (x y x' y' z : Ext) (hnow : y.now = y'.now) :
    ∃ own all users,
      (EmulatorService.findAll jwt).run [x, y] s = some (.ok own, s) ∧
      (EmulatorService.findAll admin).run [x', y'] s = some (.ok all, s) ∧
      UsersService.findAll.run [z] s = some (.ok users, s) ∧ AdminViewsAgree s u own all users := by
  have h := Operation.linksSound hdevices hlinks hrun
  refine ⟨_, _, _, EmulatorService.run_findAll h ?_ x y, EmulatorService.run_findAll h ?_ x' y',
    run_query, ?_⟩
  · intro e he hlisted l hl
    obtain ⟨l', hl', huser'⟩ := (EmulatorService.listed_iff h hrole hsub he).1 hlisted
    rw [EmulatorService.active_unique s.integrity h hl hl']
    unfold EmulatorService.visible
    simp [hrole, hsub, huser', (Tables.mem_active.1 hl').2.2]
  · intro e he hlisted l hl
    unfold EmulatorService.visible
    rw [if_pos hadmin]
  · rw [← hnow]
    exact h.adminViews hu hrole hsub huser hadmin y.now x x' z

namespace Sample

def createEmulator (id : String) : Operation × List Ext :=
  (.emulators_create (.obj [("device_id", .str id), ("device_name", .str "D")]), ["", ""].map input)

def linkEmulator (user device link : String) : Operation × List Ext :=
  (.link (.link user [device]), ["", link, "", link ++ "-root", ""].map input)

def unlinkEmulator (user device : String) : Operation × List Ext :=
  (.link (.unlink user [device]), ["", "", "", ""].map input)

end Sample

/-- The list of a user whose device has been another's before. -/
theorem admin_views_agree_relinked : ∃ steps s u own all users,
    Trace Operation.Completes Sample.vacant steps s ∧
    (s.tables.userEmulators.map fun l => (l.user, l.active)) = [(some "v", false), (some "u", true)] ∧
    u.id = "u" ∧
    (EmulatorService.findAll (Sample.androidAdmin "u" "u-root")).run [default, default] s =
      some (.ok own, s) ∧
    (EmulatorService.findAll Sample.superAdmin).run [default, default] s = some (.ok all, s) ∧
    UsersService.findAll.run [default] s = some (.ok users, s) ∧ AdminViewsAgree s u own all users := by
  have hplay : (Operation.completeAll [Sample.createEmulator "d", Sample.linkEmulator "v" "d" "l1",
      Sample.unlinkEmulator "v" "d", Sample.linkEmulator "u" "d" "l2"] Sample.vacant).any (fun s =>
        decide ((s.tables.userEmulators.map fun l => (l.user, l.active)) =
          [(some "v", false), (some "u", true)]) &&
        decide (s.tables.users = Sample.vacant.tables.users ∧
          s.tables.roles = Sample.vacant.tables.roles)) = true := by
    decide +kernel
  obtain ⟨s, hs, hplay⟩ := (Option.any_eq_true _ _).1 hplay
  obtain ⟨hlinks, htables⟩ := Bool.and_eq_true_iff.1 hplay
  obtain ⟨husers, hroles⟩ := of_decide_eq_true htables
  obtain ⟨steps, hrun, -⟩ := Operation.trace_of_completeAll .nil
    (by simp [Sample.createEmulator, Sample.linkEmulator, Sample.unlinkEmulator,
      Operation.FromDto]) hs
  have hu : s.tables.IsAndroidUser ⟨"u", "u@x", "U", "hash", some "r3"⟩ := by
    unfold Tables.IsAndroidUser Tables.role?
    rw [husers, hroles]
    exact ⟨by decide, ⟨"r3", "AndroidUser"⟩, by decide, by decide⟩
  obtain ⟨own, all, users, h⟩ := admin_views_agree rfl rfl hrun hu
    (Sample.androidAdmin "u" "u-root") Sample.superAdmin rfl rfl rfl rfl
    default default default default default rfl
  exact ⟨_, s, _, own, all, users, hrun, of_decide_eq_true hlinks, rfl, h⟩

end Damaru
