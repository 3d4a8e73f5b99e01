import Damaru.Verify.AdminViews
import Damaru.Verify.AssignmentOwners
import Damaru.Verify.TenantReads

/-!
# Which accounts reach which devices

The details of an account list its devices, the list of devices those that the
token's account reaches, and the page of a device the accounts that reach it.
The assignments to links in force make the three agree.
-/

namespace Damaru

open Async Table

namespace Tables

/-- The device that an assignment gives access to: that of its link, as long
as the link is in force. -/
def reaches (t : Tables) (x : AccountEmulators) : Option String :=
  ((t.userEmulator? x.userEmulator).filter UserEmulators.active).bind UserEmulators.device

/-- An account is assigned to a link in force of a device. -/
def Reaches (t : Tables) (a d : String) : Prop :=
  ∃ x ∈ t.accountEmulators, x.account = some a ∧ t.reaches x = some d

/-- What holds of the links and of the assignments after a run. -/
structure AssignmentsSound (t : Tables) : Prop extends Operation.LinksSound t where
  oneUser : t.OneUser

theorem reaches_iff {t : Tables} {x : AccountEmulators} {d : String} :
    t.reaches x = some d ↔
      ∃ l, t.userEmulator? x.userEmulator = some l ∧ l.active = true ∧ l.device = some d := by
  unfold reaches
  cases t.userEmulator? x.userEmulator with
  | none => simp
  | some l => by_cases hl : l.active = true <;> simp [Option.filter, hl]

variable {t : Tables}

/-- The link and the account of an assignment exist. -/
theorem AssignmentsSound.joined (h : t.AssignmentsSound) (ht : t.Integrity) {x : AccountEmulators}
    (hx : x ∈ t.accountEmulators) : ∃ a ∈ t.accounts, ∃ l ∈ t.userEmulators,
      x.account = some a.id ∧ t.account? x.account = some a ∧ t.userEmulator? x.userEmulator = some l ∧
        a.user = l.user := by
  obtain ⟨a, ha, l, hl, hxa, hxl, huser⟩ := h.oneUser x hx
  exact ⟨a, ha, l, hl, hxa, by rw [hxa, ht.account?_eq ha], by rw [hxl, ht.userEmulator?_eq hl], huser⟩

/-- The device of a link exists. -/
theorem AssignmentsSound.device (h : t.AssignmentsSound) (ht : t.Integrity) {l : UserEmulators}
    (hl : l ∈ t.userEmulators) : ∃ e ∈ t.emulators, l.device = some e.device_id := by
  obtain ⟨d, hd⟩ := Option.ne_none_iff_exists'.1 (h.whole l hl).2
  have href := ht.link_device l hl
  rw [hd, refers_some] at href
  obtain ⟨e, he, rfl⟩ := List.mem_map.1 href
  exact ⟨e, he, hd⟩

/-- An account reaches a device by one assignment at most. -/
theorem AssignmentsSound.reaches_unique (h : t.AssignmentsSound) (ht : t.Integrity)
    {x y : AccountEmulators} (hx : x ∈ t.accountEmulators) (hy : y ∈ t.accountEmulators)
    {a d : String} (hxa : x.account = some a) (hya : y.account = some a)
    (hxd : t.reaches x = some d) (hyd : t.reaches y = some d) : x = y := by
  obtain ⟨l, hl, hactive, hdevice⟩ := reaches_iff.1 hxd
  obtain ⟨l', hl', hactive', hdevice'⟩ := reaches_iff.1 hyd
  obtain ⟨hmem, hxl⟩ := userEmulator?_mem hl
  obtain ⟨hmem', hyl⟩ := userEmulator?_mem hl'
  have hsame : l = l' := EmulatorService.active_unique ht h.toLinksSound
    (mem_active.2 ⟨hmem, hdevice, hactive⟩) (mem_active.2 ⟨hmem', hdevice', hactive'⟩)
  have hpair : x.pair = some (a, l.id) := by
    unfold AccountEmulators.pair
    rw [hxa, hxl]
    rfl
  have hpair' : y.pair = some (a, l.id) := by
    unfold AccountEmulators.pair
    rw [hya, hyl, hsame]
    rfl
  exact eq_of_unique ht.pairs hx hy hpair hpair'

end Tables

/-! ## The details of an account -/

namespace AccountsService

variable {t : Tables} {url : Option String} {today : Date}

/-- The device of an assignment in the details of its account. -/
def deviceOf (url : Option String) (today : Date) (t : Tables) (x : AccountEmulators) :
    Option DeviceItem :=
  ((t.userEmulator? x.userEmulator).filter UserEmulators.active).bind fun l =>
    (t.emulator? l.device).map fun e =>
      ⟨EmulatorService.shown url e, DateUtils.diffInDays l.expires_at today⟩

theorem deviceItem_eq (h : t.AssignmentsSound) (ht : t.Integrity) {x : AccountEmulators}
    (hx : x ∈ t.accountEmulators) :
    deviceItem url today (x, (t.userEmulator? x.userEmulator).map fun l => (l, t.emulator? l.device)) =
      .ok (deviceOf url today t x) := by
  obtain ⟨a, -, l, hl, -, -, hlink, -⟩ := h.joined ht hx
  obtain ⟨e, he, hdevice⟩ := h.device ht hl
  have hjoin : (t.userEmulator? x.userEmulator).map (fun l => (l, t.emulator? l.device)) =
      some (l, some e) := by
    rw [hlink, Option.map_some, hdevice, ht.emulator?_eq he]
  unfold deviceItem deviceOf
  rw [hjoin, hlink]
  by_cases hactive : l.unlinked_at.isSome = true
  · have hnot : l.active = false := by
      unfold UserEmulators.active
      rw [Option.isNone_eq_false_iff]
      exact hactive
    simp [Option.filter, hnot, hactive]
  · have hyes : l.active = true := by
      unfold UserEmulators.active
      simpa using hactive
    simp [Option.filter, hyes, hactive, EmulatorService.shown, ht.emulator?_eq he, hdevice]

/-- The device shown is the one that the assignment gives access to. -/
theorem deviceOf_device_id (h : t.AssignmentsSound) (ht : t.Integrity) {x : AccountEmulators}
    (hx : x ∈ t.accountEmulators) :
    (deviceOf url today t x).map (fun i => i.device.device_id) = t.reaches x := by
  obtain ⟨a, -, l, hl, -, -, hlink, -⟩ := h.joined ht hx
  obtain ⟨e, he, hdevice⟩ := h.device ht hl
  unfold deviceOf Tables.reaches
  rw [hlink]
  by_cases hactive : l.active = true
  · simp [Option.filter, hactive, hdevice, ht.emulator?_eq he, EmulatorService.shown]
  · simp [Option.filter, hactive]

/-- The details of an account, for a viewer who may see it. -/
theorem run_findOne {s : Server} (h : s.tables.AssignmentsSound) {a : Account} {u : String}
    (ha : a ∈ s.tables.accounts) (huser : a.user = some u) {viewer : JwtToken}
    (hviewer : viewer.role = .SuperAdmin ∨ viewer.sub = u) (x y : Ext) :
    (findOne a.id viewer).run [x, y] s =
      some (.ok ((accountEmulatorRepository.scan (fun _ d => d.account = some a.id) x s.tables).filterMap
        (deviceOf s.platform.SCREENSHOT_URL y.now s.tables)), s) := by
  have hfound : (accountRepository.scan (fun _ b => b.id = a.id) x s.tables).head? = some a := by
    cases hscan : (accountRepository.scan (fun _ b => b.id = a.id) x s.tables).head? with
    | none =>
      have hnot := Repository.scan_head_none hscan ha
      exact absurd rfl (of_decide_eq_false hnot)
    | some b =>
      obtain ⟨hb, hbid⟩ := Repository.of_scan_head hscan
      exact congrArg some (eq_of_key s.integrity.accounts hb ha (of_decide_eq_true hbid))
  have hdetails : (accountRepository.scan (fun _ b => b.id = a.id) x s.tables).head?.map
      (Details.of x.rank s.tables) = some (Details.of x.rank s.tables a) := by
    rw [hfound]
    rfl
  have hitems : (Details.of x.rank s.tables a).devices.mapM
      (deviceItem s.platform.SCREENSHOT_URL y.now) =
      .ok ((accountEmulatorRepository.scan (fun _ d => d.account = some a.id) x s.tables).map
        (deviceOf s.platform.SCREENSHOT_URL y.now s.tables)) := by
    unfold Details.of
    rw [List.mapM_map]
    refine mapM_eq_ok fun d hd => ?_
    exact deviceItem_eq h s.integrity (List.mem_filter.1 (Table.mem_scan.1 hd)).1
  have hrest : ((query fun z t => (Details.of x.rank s.tables a).devices.mapM
      (deviceItem t.platform.SCREENSHOT_URL z.now)) >>= fun items =>
        (pure (items.filterMap fun i => i) : Svc (List DeviceItem))).run [y] s =
      some (.ok ((accountEmulatorRepository.scan (fun _ d => d.account = some a.id) x s.tables).filterMap
        (deviceOf s.platform.SCREENSHOT_URL y.now s.tables)), s) := by
    rw [run_query_bind hitems, List.filterMap_map]
    rfl
  obtain ⟨v, hv, hid⟩ : ∃ v, s.tables.user? a.user = some v ∧ v.id = u := by
    have href := s.integrity.account_user a ha
    rw [huser, refers_some] at href
    obtain ⟨v, hv, rfl⟩ := List.mem_map.1 href
    exact ⟨v, by rw [huser]; exact s.integrity.user?_eq hv, rfl⟩
  have huser? : (Details.of x.rank s.tables a).user = some v := hv
  unfold findOne
  rw [run_query_bind (congrArg Except.ok hdetails)]
  dsimp only
  by_cases hrole : viewer.role = .SuperAdmin
  · rw [if_neg (not_not.2 hrole)]
    exact hrest
  · have hsub : viewer.sub = v.id := (hviewer.resolve_left hrole).trans hid.symm
    rw [if_pos hrole, huser?]
    dsimp only
    rw [if_neg (not_not.2 hsub)]
    exact hrest

end AccountsService

/-! ## The list of devices and the page of a device -/

namespace EmulatorService

variable {t : Tables}

/-- The query of an account's token returns the devices that the account
reaches. -/
theorem listed_account_iff (h : t.AssignmentsSound) (ht : t.Integrity) {jwt : JwtToken}
    (hrole : jwt.role = .AndroidUser) (hsub : jwt.subRole = some .AndroidAccount) {a : Account}
    (ha : a ∈ t.accounts) (huser : a.user = some jwt.sub) (haccount : jwt.accountId = some a.id)
    {e : Emulator} : listed jwt t e = true ↔ t.Reaches a.id e.device_id := by
  unfold listed visible
  simp only [hrole, hsub, haccount, reduceCtorEq, Option.some.injEq, and_false, if_false,
    Bool.and_true, Bool.and_eq_true, List.any_eq_true, decide_eq_true_eq, Option.all_some]
  constructor
  · rintro ⟨l, hl, hdevice, ⟨-, hactive⟩, x, hx, hxl, hxa⟩
    refine ⟨x, hx, hxa, Tables.reaches_iff.2 ⟨l, ?_, hactive, hdevice⟩⟩
    rw [hxl, ht.userEmulator?_eq hl]
  · rintro ⟨x, hx, hxa, hreach⟩
    obtain ⟨l, hl, hactive, hdevice⟩ := Tables.reaches_iff.1 hreach
    obtain ⟨hmem, hxl⟩ := Tables.userEmulator?_mem hl
    obtain ⟨b, hb, l', hl', hxb, -, hlink, hsame⟩ := h.joined ht hx
    have hab : b = a := by
      refine eq_of_key ht.accounts hb ha ?_
      rw [hxa] at hxb
      exact (Option.some.inj hxb).symm
    rw [hl] at hlink
    cases hlink
    exact ⟨l, hmem, hdevice, ⟨by rw [← hsame, hab, huser], hactive⟩, x, hx, hxl, hxa⟩

theorem visible_account (h : t.AssignmentsSound) (ht : t.Integrity) {jwt : JwtToken} {e : Emulator}
    (hlisted : listed jwt t e = true) (hrole : jwt.role ≠ .SuperAdmin) :
    ∀ l ∈ t.active e.device_id, visible jwt t l = true := by
  intro l hl
  unfold listed at hlisted
  rw [if_neg hrole, Bool.and_eq_true, List.any_eq_true] at hlisted
  obtain ⟨⟨l', hl', hvisible⟩, -⟩ := hlisted
  obtain ⟨hdevice, hvisible⟩ := Bool.and_eq_true_iff.1 hvisible
  have hactive : l'.active = true := by
    unfold visible at hvisible
    rw [if_neg hrole] at hvisible
    split at hvisible
    · exact (Bool.and_eq_true_iff.1 hvisible).2
    · exact (Bool.and_eq_true_iff.1 (Bool.and_eq_true_iff.1 hvisible).1).2
  rw [active_unique ht h.toLinksSound hl
    (Tables.mem_active.2 ⟨hl', of_decide_eq_true hdevice, hactive⟩)]
  exact hvisible

/-- The account of an assignment on the page of a device. -/
def linkedOf (t : Tables) (x : AccountEmulators) : Option LinkedAccount :=
  ((t.account? x.account).filter fun a => !a.is_admin).map fun a => ⟨a.id, a.account_name, a.pin⟩

theorem linkedAccount_eq (h : t.AssignmentsSound) (ht : t.Integrity) {x : AccountEmulators}
    (hx : x ∈ t.accountEmulators) : linkedAccount (x, t.account? x.account) = .ok (linkedOf t x) := by
  obtain ⟨a, -, -, -, -, ha, -, -⟩ := h.joined ht hx
  unfold linkedAccount linkedOf
  rw [ha]
  by_cases hadmin : a.is_admin = true <;> simp [Option.filter, hadmin]

theorem linkedOf_id {x : AccountEmulators} {i : LinkedAccount} (h : linkedOf t x = some i) :
    x.account = some i.id := by
  obtain ⟨a, ha, rfl⟩ := Option.map_eq_some_iff.1 h
  exact (Tables.account?_mem (Option.filter_eq_some_iff.1 ha).1).2

theorem run_findLinkedDevices {s : Server} (h : s.tables.AssignmentsSound) (deviceId : JsVal)
    (z : Ext) : (findLinkedDevices deviceId).run [z] s =
      some (.ok ((accountEmulatorRepository.scan (linkedTo deviceId) z s.tables).filterMap
        (linkedOf s.tables)), s) := by
  have hitems : ((accountEmulatorRepository.scan (linkedTo deviceId) z s.tables).map
      fun a => (a, s.tables.account? a.account)).mapM linkedAccount =
      .ok ((accountEmulatorRepository.scan (linkedTo deviceId) z s.tables).map (linkedOf s.tables)) := by
    rw [List.mapM_map]
    exact mapM_eq_ok fun x hx => linkedAccount_eq h s.integrity (Repository.mem_scan.1 hx).1
  unfold findLinkedDevices Repository.find
  rw [run_query_bind rfl]
  show (Prog.bind (ofResult (List.mapM linkedAccount (List.map _
    (accountEmulatorRepository.scan (linkedTo deviceId) z s.tables)))) _).run [] s = _
  rw [hitems]
  show some (Except.ok (List.filterMap (fun i => i) _), s) = _
  rw [List.filterMap_map]
  rfl

/-- The assignments on the page of a device are those that give access to it. -/
theorem linkedTo_iff (h : t.AssignmentsSound) (ht : t.Integrity) {x : AccountEmulators}
    (hx : x ∈ t.accountEmulators) {d : String} :
    linkedTo (some (.str d)) t x = true ↔ t.reaches x = some d := by
  obtain ⟨-, -, l, -, -, -, hlink, -⟩ := h.joined ht hx
  unfold linkedTo
  rw [Tables.reaches_iff, hlink]
  simp

end EmulatorService

/-! ## The three views -/

/-- What the details of an account, the list of its token and the page of a
device say about the account and the device. -/
structure AssignmentViewsAgree (a d : String) (details : List AccountsService.DeviceItem)
    (list : List EmulatorService.EmulatorItem) (page : List EmulatorService.LinkedAccount) : Prop where
  details_iff : d ∈ details.map (fun i => i.device.device_id) ↔
    d ∈ list.map fun i => i.emulator.device_id
  list_iff : (d ∈ list.map fun i => i.emulator.device_id) ↔ a ∈ page.map EmulatorService.LinkedAccount.id
  details_once : (details.map fun i => i.device.device_id).Nodup
  list_once : (list.map fun i => i.emulator.device_id).Nodup
  page_once : (page.map EmulatorService.LinkedAccount.id).Nodup

section Views

variable {s : Server} {a : Account} {jwt : JwtToken} {d : String}

theorem nodup_assignments (p : Tables → AccountEmulators → Bool) (x : Ext) :
    (accountEmulatorRepository.scan p x s.tables).Nodup :=
  (Table.scan_perm _ _ _).nodup_iff.2 (s.integrity.accountEmulators.of_map.filter _)

/-- The details of an account have the devices that it reaches. -/
theorem Tables.AssignmentsSound.details_iff (h : s.tables.AssignmentsSound) (today : Date) (x : Ext) :
    d ∈ ((accountEmulatorRepository.scan (fun _ d => d.account = some a.id) x
      s.tables).filterMap (AccountsService.deviceOf s.platform.SCREENSHOT_URL today s.tables)).map
        (fun i => i.device.device_id) ↔ s.tables.Reaches a.id d := by
  rw [List.map_filterMap, List.mem_filterMap]
  constructor
  · rintro ⟨r, hr, hd⟩
    obtain ⟨hmem, hra⟩ := Repository.mem_scan.1 hr
    rw [AccountsService.deviceOf_device_id h s.integrity hmem] at hd
    exact ⟨r, hmem, of_decide_eq_true hra, hd⟩
  · rintro ⟨r, hmem, hra, hd⟩
    refine ⟨r, Repository.mem_scan.2 ⟨hmem, decide_eq_true hra⟩, ?_⟩
    rw [AccountsService.deviceOf_device_id h s.integrity hmem]
    exact hd

theorem Tables.AssignmentsSound.details_once (h : s.tables.AssignmentsSound) (today : Date) (x : Ext) :
    (((accountEmulatorRepository.scan (fun _ d => d.account = some a.id) x
      s.tables).filterMap (AccountsService.deviceOf s.platform.SCREENSHOT_URL today s.tables)).map
        fun i => i.device.device_id).Nodup := by
  rw [List.map_filterMap]
  refine nodup_filterMap_of_mem (nodup_assignments _ x) fun r hr r' hr' k hk hk' => ?_
  obtain ⟨hmem, hra⟩ := Repository.mem_scan.1 hr
  obtain ⟨hmem', hra'⟩ := Repository.mem_scan.1 hr'
  rw [AccountsService.deviceOf_device_id h s.integrity hmem] at hk
  rw [AccountsService.deviceOf_device_id h s.integrity hmem'] at hk'
  exact h.reaches_unique s.integrity hmem hmem' (of_decide_eq_true hra) (of_decide_eq_true hra') hk hk'

/-- The list of an ordinary account has the devices that it reaches. -/
theorem Tables.AssignmentsSound.list_iff (h : s.tables.AssignmentsSound) (ha : a ∈ s.tables.accounts)
    (hrole : jwt.role = .AndroidUser) (hsub : jwt.subRole = some .AndroidAccount) (huser : a.user = some jwt.sub)
    (haccount : jwt.accountId = some a.id) (today : Date) (x : Ext) :
    d ∈ ((emulatorRepository.scan (EmulatorService.listed jwt) x s.tables).map
      (EmulatorService.itemOf s.platform.SCREENSHOT_URL today s.tables)).map
        (fun i => i.emulator.device_id) ↔ s.tables.Reaches a.id d := by
  rw [List.map_map, List.mem_map]
  constructor
  · rintro ⟨e, he, rfl⟩
    have hlisted := (Repository.mem_scan.1 he).2
    exact (EmulatorService.listed_account_iff h s.integrity hrole hsub ha huser haccount).1 hlisted
  · rintro ⟨r, hmem, hra, hd⟩
    obtain ⟨l, hl, hactive, hdevice⟩ := Tables.reaches_iff.1 hd
    have hlink := (Tables.userEmulator?_mem hl).1
    obtain ⟨e, he, rfl⟩ := s.integrity.device_exists (Tables.mem_active.2 ⟨hlink, hdevice, hactive⟩)
    refine ⟨e, Repository.mem_scan.2 ⟨he, ?_⟩, rfl⟩
    exact (EmulatorService.listed_account_iff h s.integrity hrole hsub ha huser haccount).2 ⟨r, hmem, hra, hd⟩

/-- The page of a device has the ordinary accounts that reach it. -/
theorem Tables.AssignmentsSound.page_iff (h : s.tables.AssignmentsSound) (ha : a ∈ s.tables.accounts)
    (hadmin : a.is_admin = false) (x : Ext) :
    a.id ∈ ((accountEmulatorRepository.scan (EmulatorService.linkedTo (some (.str d))) x
      s.tables).filterMap (EmulatorService.linkedOf s.tables)).map EmulatorService.LinkedAccount.id ↔
        s.tables.Reaches a.id d := by
  rw [List.map_filterMap, List.mem_filterMap]
  constructor
  · rintro ⟨r, hr, hid⟩
    obtain ⟨hmem, hto⟩ := Repository.mem_scan.1 hr
    obtain ⟨i, hitem, hid⟩ := Option.map_eq_some_iff.1 hid
    refine ⟨r, hmem, ?_, (EmulatorService.linkedTo_iff h s.integrity hmem).1 hto⟩
    rw [EmulatorService.linkedOf_id hitem, hid]
  · rintro ⟨r, hmem, hra, hd⟩
    refine ⟨r, Repository.mem_scan.2 ⟨hmem, (EmulatorService.linkedTo_iff h s.integrity hmem).2 hd⟩, ?_⟩
    unfold EmulatorService.linkedOf
    rw [hra, s.integrity.account?_eq ha]
    simp [Option.filter, hadmin]

theorem Tables.AssignmentsSound.page_once (h : s.tables.AssignmentsSound) (x : Ext) :
    (((accountEmulatorRepository.scan (EmulatorService.linkedTo (some (.str d))) x
      s.tables).filterMap (EmulatorService.linkedOf s.tables)).map EmulatorService.LinkedAccount.id).Nodup := by
  rw [List.map_filterMap]
  refine nodup_filterMap_of_mem (nodup_assignments _ x) fun r hr r' hr' k hk hk' => ?_
  obtain ⟨hmem, hto⟩ := Repository.mem_scan.1 hr
  obtain ⟨hmem', hto'⟩ := Repository.mem_scan.1 hr'
  obtain ⟨i, hitem, hid⟩ := Option.map_eq_some_iff.1 hk
  obtain ⟨i', hitem', hid'⟩ := Option.map_eq_some_iff.1 hk'
  refine h.reaches_unique s.integrity hmem hmem' ?_ ?_
    ((EmulatorService.linkedTo_iff h s.integrity hmem).1 hto)
    ((EmulatorService.linkedTo_iff h s.integrity hmem').1 hto') (a := k)
  · rw [EmulatorService.linkedOf_id hitem, hid]
  · rw [EmulatorService.linkedOf_id hitem', hid']

end Views

theorem Tables.AssignmentsSound.views {s : Server} (h : s.tables.AssignmentsSound) {a : Account}
    (ha : a ∈ s.tables.accounts) (hadmin : a.is_admin = false) {jwt : JwtToken}
    (hrole : jwt.role = .AndroidUser) (hsub : jwt.subRole = some .AndroidAccount)
    (huser : a.user = some jwt.sub) (haccount : jwt.accountId = some a.id) (d : String)
    (today today' : Date) (x x' z : Ext) :
    AssignmentViewsAgree a.id d
      ((accountEmulatorRepository.scan (fun _ d => d.account = some a.id) x s.tables).filterMap
        (AccountsService.deviceOf s.platform.SCREENSHOT_URL today s.tables))
      ((emulatorRepository.scan (EmulatorService.listed jwt) x' s.tables).map
        (EmulatorService.itemOf s.platform.SCREENSHOT_URL today' s.tables))
      ((accountEmulatorRepository.scan (EmulatorService.linkedTo (some (.str d))) z s.tables).filterMap
        (EmulatorService.linkedOf s.tables)) where
  details_iff := (h.details_iff today x).trans (h.list_iff ha hrole hsub huser haccount today' x').symm
  list_iff := (h.list_iff ha hrole hsub huser haccount today' x').trans (h.page_iff ha hadmin z).symm
  details_once := h.details_once today x
  list_once := by
    rw [List.map_map]
    refine ((Table.scan_perm _ _ _).map Emulator.device_id).nodup_iff.2 ?_
    exact s.integrity.emulators.sublist (List.filter_sublist.map _)
  page_once := h.page_once z

/-! ## In every run -/

/-- The value names an account of the user, if any. -/
def Tables.AccountOf (t : Tables) (userId account : JsVal) : Prop :=
  ∃ u i, userId.bound = some u ∧ account.bound = some i ∧ ∀ a ∈ t.accounts, a.id = i → a.user = some u

namespace Operation

/-- A call that assigns names only accounts of the `userId` it carries. -/
def AssignsOwn (t : Tables) : Operation → Prop
  | emulators_assignEmulatorsToAccount dto _ => t.AccountOf dto.userId dto.accountId
  | emulators_assignEmulator dto _ =>
    ∀ items, dto.accountIds.iterate = some items → ∀ a ∈ items, t.AccountOf dto.userId (some a)
  | _ => True

theorem AssignsOwn.namesOwn {t : Tables} {op : Operation} (h : op.AssignsOwn t) : op.NamesOwn t := by
  have hown : ∀ {userId account : JsVal} {l : UserEmulators}, t.AccountOf userId account →
      userId.selects l.user = true → EmulatorService.NamesOwn t account l := by
    intro userId account l h huser
    obtain ⟨u, i, hu, hi, hall⟩ := h
    refine ⟨i, hi, fun a ha hid => ?_⟩
    unfold JsVal.selects at huser
    rw [hu] at huser
    rw [hall a ha hid, of_decide_eq_true huser]
  cases op with
  | emulators_assignEmulatorsToAccount dto user =>
    intro _ _ _ _ _ l _ _ huser
    exact hown h huser
  | emulators_assignEmulator dto user =>
    intro _ l _ _ huser items hitems a ha
    exact hown (h items hitems a ha) huser
  | _ => trivial

theorem assignmentsSound {s s' : Server} {steps : List (Server × Operation × Server)}
    (hdevices : s.tables.emulators = []) (hlinks : s.tables.userEmulators = [])
    (hassignments : s.tables.accountEmulators = []) (hrun : Trace Completes s steps s')
    (hown : ∀ x ∈ steps, x.2.1.AssignsOwn x.1.tables) : s'.tables.AssignmentsSound := by
  refine ⟨linksSound hdevices hlinks hrun, ?_⟩
  refine hrun.invariant_of_mem (I := fun s => s.tables.OneUser) (fun x hx hstep hs => ?_) ?_
  · exact Runs.oneUser (Pool.Settles.mono (fun _ _ => trivial) hstep.2) (hown x hx).namesOwn hs
  · intro x hx
    rw [hassignments] at hx
    cases hx

end Operation

/-- **The three assignment views agree.** -/
theorem assignment_views_agree {s₀ s : Server} {steps : List (Server × Operation × Server)}
    (hdevices : s₀.tables.emulators = []) (hlinks : s₀.tables.userEmulators = [])
    (hassignments : s₀.tables.accountEmulators = []) (hrun : Trace Operation.Completes s₀ steps s)
    (hown : ∀ x ∈ steps, x.2.1.AssignsOwn x.1.tables) {a : Account} (ha : a ∈ s.tables.accounts)
    (hadmin : a.is_admin = false) {u : String} (huser : a.user = some u) (viewer jwt : JwtToken)
    (hviewer : viewer.role = .SuperAdmin ∨ viewer.sub = u) (hrole : jwt.role = .AndroidUser)
    (hsub : jwt.subRole = some .AndroidAccount) (hjwt : jwt.sub = u)
    (haccount : jwt.accountId = some a.id) (d : String) (x y x' y' z : Ext) :
    ∃ details list page,
      (AccountsService.findOne a.id viewer).run [x, y] s = some (.ok details, s) ∧
      (EmulatorService.findAll jwt).run [x', y'] s = some (.ok list, s) ∧
      (EmulatorService.findLinkedDevices (some (.str d))).run [z] s = some (.ok page, s) ∧
      AssignmentViewsAgree a.id d details list page := by
  have h := Operation.assignmentsSound hdevices hlinks hassignments hrun hown
  refine ⟨_, _, _, AccountsService.run_findOne h ha huser hviewer x y,
    EmulatorService.run_findAll h.toLinksSound (fun e _ hlisted => ?_) x' y',
    EmulatorService.run_findLinkedDevices h _ z,
    h.views ha hadmin hrole hsub (hjwt ▸ huser) haccount d y.now y'.now x x' z⟩
  exact EmulatorService.visible_account h s.integrity hlisted (by rw [hrole]; simp)

instance (t : Tables) (a d : String) : Decidable (t.Reaches a d) :=
  inferInstanceAs (Decidable (∃ x ∈ t.accountEmulators, x.account = some a ∧ t.reaches x = some d))

/-- A device that has been another user's is assigned to an account. -/
theorem assignment_views_agree_relinked : ∃ steps s details list page,
    Trace Operation.Completes Sample.vacant steps s ∧ s.tables.Reaches "u-one" "d" ∧
    (AccountsService.findOne "u-one" Sample.superAdmin).run [default, default] s =
      some (.ok details, s) ∧
    (EmulatorService.findAll (Sample.androidAccount "u" "u-one")).run [default, default] s =
      some (.ok list, s) ∧
    (EmulatorService.findLinkedDevices (some (.str "d"))).run [default] s = some (.ok page, s) ∧
    AssignmentViewsAgree "u-one" "d" details list page := by
  let assign : Operation := .emulators_assignEmulator
    ⟨some (.str "d"), some (.arr [.str "u-one"]), some (.str "u")⟩ (Sample.androidAdmin "u" "u-root")
  have hplay : (Operation.completeAll [Sample.createEmulator "d", Sample.linkEmulator "v" "d" "l1",
      Sample.unlinkEmulator "v" "d", Sample.linkEmulator "u" "d" "l2"] Sample.vacant).any (fun s =>
        decide (s.tables.accounts = Sample.vacant.tables.accounts) &&
          (assign.prog.run (["", "a2"].map Sample.input) s).any fun o =>
            o.1.toBool && decide (o.2.tables.accounts = Sample.vacant.tables.accounts ∧
              o.2.tables.Reaches "u-one" "d")) = true := by
    decide +kernel
  obtain ⟨s, hs, hplay⟩ := (Option.any_eq_true _ _).1 hplay
  obtain ⟨haccounts, hplay⟩ := Bool.and_eq_true_iff.1 hplay
  obtain ⟨⟨_ | r, s'⟩, ho, hend⟩ := (Option.any_eq_true _ _).1 hplay
  · cases hend
  obtain ⟨haccounts', hassigned⟩ := of_decide_eq_true (Bool.and_eq_true_iff.1 hend).2
  obtain ⟨steps, hrun, hcalls⟩ := Operation.trace_of_completeAll .nil
    (by simp [Sample.createEmulator, Sample.linkEmulator, Sample.unlinkEmulator,
      Operation.FromDto]) hs
  have hrun' := hrun.snoc (e := assign) ⟨trivial, .of_run ho⟩
  have hown : ∀ x ∈ [] ++ steps ++ [(s, assign, s')], x.2.1.AssignsOwn x.1.tables := by
    intro x hx
    rcases List.mem_append.1 hx with hx | hx
    · have hop : x.2.1 ∈ steps.map fun x => x.2.1 := List.mem_map_of_mem hx
      rw [hcalls] at hop
      simp only [Sample.createEmulator, Sample.linkEmulator, Sample.unlinkEmulator, List.map_cons,
        List.map_nil, List.mem_cons, List.not_mem_nil, or_false] at hop
      rcases hop with hop | hop | hop | hop <;> rw [hop] <;> exact trivial
    · rw [List.mem_singleton.1 hx]
      intro items hitems a ha
      cases hitems
      rw [List.mem_singleton.1 ha]
      refine ⟨"u", "u-one", rfl, rfl, ?_⟩
      rw [of_decide_eq_true haccounts]
      decide
  have ha : (⟨"u-one", some "u", "one", false, false, "2", none⟩ : Account) ∈ s'.tables.accounts := by
    rw [haccounts']
    decide
  obtain ⟨details, list, page, h⟩ := assignment_views_agree rfl rfl rfl hrun' hown ha rfl rfl
    Sample.superAdmin (Sample.androidAccount "u" "u-one") (.inl rfl) rfl rfl rfl rfl "d"
    default default default default default
  exact ⟨_, s', details, list, page, hrun', hassigned, h⟩

end Damaru
