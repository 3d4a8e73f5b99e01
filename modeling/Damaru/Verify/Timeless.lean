import Damaru.Services.Auth
import Damaru.Verify.Dates
import Damaru.Verify.UserSpecs

/-!
# Services and the clock

No service decides anything by a date: on two servers that are the same but for
dates, at any two times, each call has the same answer but for dates, or is
rejected with the same error, and leaves two such servers again.
-/

namespace Damaru

open Async Table

section Utils

theorem timeless_random : Svc.Timeless random random := timeless_query fun _ _ _ _ _ => rfl

theorem HashUtils.timeless_hash (v : JsVal) : Svc.Timeless (hash v) (hash v) := by
  unfold hash
  split
  · exact timeless_query fun _ _ _ _ _ => rfl
  · exact .throw _

theorem HashUtils.timeless_compareHash (v : JsVal) (h : String) :
    Svc.Timeless (compareHash v h) (compareHash v h) := by
  unfold compareHash
  split
  · refine timeless_query fun _ _ s s' hs => ?_
    rw [hs.platform]
  · exact .throw _

/-- A loop over the items of a value. -/
theorem timeless_forOf {what : String} {v : JsVal} {body body' : JsVal → Svc Unit}
    (h : ∀ j, Svc.Timeless (body j) (body' j)) :
    Svc.Timeless (forOf what v body) (forOf what v body') := by
  unfold forOf
  split
  · exact .throw _
  · refine Prog.Related.mono (R := fun _ _ => True) ?_ fun _ _ _ => rfl
    refine .forM (P := Eq) (List.forall₂_same.2 fun _ _ => rfl) fun j j' hj => ?_
    rw [hj]
    exact (h (some j')).mono fun _ _ _ => trivial

end Utils

/-! ## ActivityLogService -/

namespace ActivityLogService

theorem timeless_log (action metadata : JsVal) :
    Svc.Timeless (log action metadata) (log action metadata) := by
  unfold log
  split
  · exact .throw _
  · exact .throw _
  · refine timeless_drop (activityLogRepository.erases.insert fun x now s s' hs => ?_)
    rw [hs.fresh]
    split <;> rfl

theorem sameValues_columns {p : Platform} {dto : Json} :
    Repository.SameValues ActivityLog.timeless (columns p dto) (columns p dto) := by
  unfold columns
  split
  · exact .error _
  · split
    · split
      · exact .null
      · split
        · exact .error _
        · exact .self (fun _ => rfl) fun _ => rfl
    · exact .error _

theorem timeless_update (id : String) (dto : Json) :
    Svc.Timeless (update id dto) (update id dto) := by
  refine timeless_drop (activityLogRepository.erases.update fun x now s s' hs => ?_)
  rw [hs.platform]
  exact sameValues_columns

theorem timeless_findAll :
    Svc.TimelessBy (List.map ActivityLog.timeless) findAll findAll :=
  activityLogRepository.erases.find (fun _ _ => rfl) fun _ _ => rfl

end ActivityLogService

/-! ## AccountsService -/

namespace AccountsService

theorem timeless_findUserByAccount (id : String) :
    Svc.TimelessBy (Option.map Account.user) (findUserByAccount id) (findUserByAccount id) :=
  accountRepository.erases.findRow (fun _ _ => rfl) fun _ => rfl

theorem timeless_create (dto : CreateAccountDto) : Svc.Timeless (create dto) (create dto) := by
  have hinsert : Svc.Timeless (do
      let draws ← random
      let account := { dto with
        pin := dto.pin.orElse (some (.str (StringUtils.generateRandomNumeric 5 draws))) }
      let id ← accountRepository.insert fun x s =>
        row (x.fresh s) account.account_name account.pin
          account.userId account.is_admin account.is_admin
      return (id, account) : Svc (String × CreateAccountDto)) (do
      let draws ← random
      let account := { dto with
        pin := dto.pin.orElse (some (.str (StringUtils.generateRandomNumeric 5 draws))) }
      let id ← accountRepository.insert fun x s =>
        row (x.fresh s) account.account_name account.pin
          account.userId account.is_admin account.is_admin
      return (id, account)) := by
    refine timeless_bind timeless_random fun draws => ?_
    refine timeless_bind (accountRepository.erases.insert fun x now s s' hs => ?_) fun id => .pure rfl
    rw [hs.fresh]
  unfold create
  dsimp only
  split
  · refine Prog.Related.bind (accountRepository.erases.find (g := Account.timeless) (fun _ _ => rfl)
      fun _ _ => rfl) fun l l' hl => ?_
    have hlength := congrArg List.length hl
    rw [List.length_map, List.length_map] at hlength
    rw [hlength]
    split
    · exact .throw _
    · exact hinsert
  · exact hinsert

theorem timeless_update (id : String) (dto : Json) (jwt : JwtToken) :
    Svc.Timeless (update id dto jwt) (update id dto jwt) := by
  unfold update
  refine Prog.Related.bind (timeless_findUserByAccount id) fun found found' hfound => ?_
  cases found with
  | none =>
    cases found' with
    | none => exact .throw _
    | some a' => cases hfound
  | some a =>
    cases found' with
    | none => cases hfound
    | some a' =>
      have huser : a.user = a'.user := Option.some.inj hfound
      dsimp only
      rw [huser]
      split
      · split
        · exact .throw _
        · split
          · refine Prog.Related.bind (accountRepository.erases.findRow (g := Account.timeless) (fun _ _ => rfl)
              fun _ => rfl) fun o o' ho => ?_
            have hsome := congrArg Option.isSome ho
            rw [Option.isSome_map, Option.isSome_map] at hsome
            rw [hsome]
            split
            · exact .throw _
            · exact timeless_drop (accountRepository.erases.set fun _ _ _ => rfl)
          · exact timeless_drop (accountRepository.erases.set fun _ _ _ => rfl)
      · exact .throw _

theorem timeless_remove (id : String) (payload : JwtToken) :
    Svc.Timeless (remove id payload) (remove id payload) := by
  unfold remove
  refine Prog.Related.bind (timeless_findUserByAccount id) fun found found' hfound => ?_
  cases found with
  | none =>
    cases found' with
    | none => exact .throw _
    | some a' => cases hfound
  | some a =>
    cases found' with
    | none => cases hfound
    | some a' =>
      have huser : a.user = a'.user := Option.some.inj hfound
      dsimp only
      rw [huser]
      split
      · exact accountRepository.erases.deleteById
      · exact .throw _

theorem timeless_findAll (jwt : JwtToken) :
    Svc.TimelessBy (List.map Account.timeless) (findAll jwt) (findAll jwt) := by
  unfold findAll
  split
  · exact accountRepository.erases.find (fun _ _ => rfl) fun _ _ => rfl
  · split
    · exact accountRepository.erases.find (fun _ _ => rfl) fun _ _ => rfl
    · exact accountRepository.erases.find (fun _ _ => rfl) fun _ _ => rfl

theorem timeless_findRootAccount (userId : JsVal) :
    Svc.TimelessBy (Option.map Account.id) (findRootAccount userId) (findRootAccount userId) :=
  accountRepository.erases.findRow (fun _ _ => rfl) fun _ => rfl

/-- The days that are left of the link are blanked. -/
def DeviceItem.timeless (d : DeviceItem) : DeviceItem := { d with expires_at := 0 }

def Details.timeless (d : Details) : Details where
  account := d.account.timeless
  user := d.user
  devices := d.devices.map fun a => (a.1, a.2.map fun l => (l.1.timeless, l.2))

theorem Details.of_timeless (rank : String → Nat) (t : Tables) (a : Account) :
    (Details.of rank t.timeless a.timeless).timeless = (Details.of rank t a).timeless := by
  unfold Details.of timeless
  dsimp only
  rw [List.map_map, List.map_map]
  congr 1
  refine List.map_congr_left fun d _ => Prod.ext rfl ?_
  show Option.map _ (Option.map _ (t.timeless.userEmulator? d.userEmulator)) = _
  rw [Tables.timeless_userEmulator?, Option.map_map, Option.map_map]
  show Option.map _ _ = Option.map _ (Option.map _ _)
  rw [Option.map_map]
  refine Option.map_congr fun l _ => ?_
  show (l.timeless.timeless, _) = (l.timeless, _)
  rw [l.timeless_timeless]
  rfl

theorem deviceItem_timeless {url : Option String} {today today' : Date}
    {d d' : AccountEmulators × Option (UserEmulators × Option Emulator)}
    (h : (d.1, d.2.map fun l => (l.1.timeless, l.2)) = (d'.1, d'.2.map fun l => (l.1.timeless, l.2))) :
    (deviceItem url today d).map (Option.map DeviceItem.timeless) =
      (deviceItem url today' d').map (Option.map DeviceItem.timeless) := by
  obtain ⟨a, o⟩ := d
  obtain ⟨a', o'⟩ := d'
  obtain ⟨-, ho⟩ := Prod.mk.inj h
  cases o with
  | none =>
    cases o' with
    | none => rfl
    | some l' => cases ho
  | some l =>
    cases o' with
    | none => cases ho
    | some l' =>
      obtain ⟨l, device⟩ := l
      obtain ⟨l', device'⟩ := l'
      obtain ⟨hl, rfl⟩ : l.timeless = l'.timeless ∧ device = device' := Prod.mk.inj (Option.some.inj ho)
      have hactive : l.unlinked_at.isSome = l'.unlinked_at.isSome := by
        have hmap := congrArg (fun l => l.unlinked_at.isSome) hl
        rwa [show l.timeless.unlinked_at.isSome = _ from Option.isSome_map,
          show l'.timeless.unlinked_at.isSome = _ from Option.isSome_map] at hmap
      unfold deviceItem
      dsimp only
      rw [hactive]
      split
      · rfl
      · cases device <;> rfl

theorem timeless_findOne (id : String) (token : JwtToken) :
    Svc.TimelessBy (List.map DeviceItem.timeless) (findOne id token) (findOne id token) := by
  have hitems : ∀ details details' : Details, details.timeless = details'.timeless →
      Svc.TimelessBy (List.map DeviceItem.timeless) (do
        let items ← query fun x s =>
          details.devices.mapM (deviceItem s.platform.SCREENSHOT_URL x.now)
        return items.filterMap fun i => i : Svc (List DeviceItem)) (do
        let items ← query fun x s =>
          details'.devices.mapM (deviceItem s.platform.SCREENSHOT_URL x.now)
        return items.filterMap fun i => i) := by
    intro details details' h
    refine Prog.Related.bind (timeless_query (e := List.map (Option.map DeviceItem.timeless))
      fun x now s s' hs => ?_) fun l l' hl => .pure ?_
    · rw [hs.platform]
      exact mapM_map_eq (fun _ _ => deviceItem_timeless) (congrArg Details.devices h)
    · have hmap : ∀ l : List (Option DeviceItem), (l.filterMap fun i => i).map DeviceItem.timeless =
          (l.map (Option.map DeviceItem.timeless)).filterMap fun i => i := by
        intro l
        rw [List.map_filterMap, List.filterMap_map]
        rfl
      rw [hmap, hmap, hl]
  unfold findOne
  refine Prog.Related.bind (timeless_query (e := Option.map Details.timeless)
    fun x now s s' hs => congrArg Except.ok ?_) fun details details' h => ?_
  · exact accountRepository.erases.head_scan (fun _ _ => rfl) (Details.of_timeless x.rank) hs x now
  · cases details with
    | none =>
      cases details' with
      | none => exact .throw _
      | some d' => cases h
    | some d =>
      cases details' with
      | none => cases h
      | some d' =>
        have hd : d.timeless = d'.timeless := Option.some.inj h
        have huser : d.timeless.user = d'.timeless.user := congrArg Details.user hd
        change d.user = d'.user at huser
        dsimp only
        rw [huser]
        split
        · split
          · exact .throw _
          · split
            · exact .throw _
            · exact hitems d d' hd
        · exact hitems d d' hd

end AccountsService

/-! ## UsersService -/

namespace UsersService

/-- A user with its accounts. -/
def timeless (u : Users × List Account) : Users × List Account := (u.1, u.2.map Account.timeless)

theorem timeless_findOne (id : String) :
    Svc.TimelessBy (Option.map timeless) (findOne id) (findOne id) := by
  refine timeless_query fun x now s s' hs => congrArg Except.ok ?_
  refine usersRepository.erases.head_scan
    (p := fun _ u => decide (u.id = id))
    (r := fun t u => (u, Table.scan x.rank Account.id (t.accounts.filter fun a => a.user = some u.id)))
    (fun _ _ => rfl) (fun t u => ?_) hs x now
  show (u, (Table.scan x.rank Account.id ((t.accounts.map Account.timeless).filter fun a =>
    a.user = some u.id)).map Account.timeless) = (u, _)
  rw [filter_map_eq (e := Account.timeless) (p := fun a => decide (a.user = some u.id)) fun _ => rfl,
    scan_map_eq (e := Account.timeless) fun _ => rfl, List.map_map]
  rfl

theorem timeless_afterInsert (user : Json) (newPassword : JsVal) (userId : String) :
    Svc.TimelessBy (Prod.map (Option.map timeless) id)
      (afterInsert user newPassword userId) (afterInsert user newPassword userId) := by
  have hfind : Svc.TimelessBy (Prod.map (Option.map timeless) id) (do
      let created ← findOne userId
      return (created, newPassword) : Svc (Option (Users × List Account) × JsVal)) (do
      let created ← findOne userId
      return (created, newPassword)) :=
    (timeless_findOne userId).bind fun _ _ h => .pure (Prod.ext h rfl)
  unfold afterInsert
  refine timeless_bind (ActivityLogService.timeless_log _ _) fun _ => ?_
  dsimp only
  split
  · refine timeless_bind timeless_random fun draws => ?_
    refine timeless_bind (AccountsService.timeless_create _) fun _ => ?_
    exact timeless_bind (ActivityLogService.timeless_log _ _) fun _ => hfind
  · exact hfind

theorem timeless_create (user : Json) :
    Svc.TimelessBy (Prod.map (Option.map timeless) id)
      (create user) (create user) := by
  cases hrole : roleText user with
  | none =>
    rw [create_eq_throw hrole]
    exact .throw _
  | some roleName =>
    rw [create_eq hrole]
    refine Prog.Related.bind (roleRepository.erases.findRow (g := id) (fun _ _ => rfl) fun _ => rfl)
      fun role role' h => ?_
    rw [Option.map_id, id, id] at h
    obtain rfl := h
    unfold insertUser
    refine timeless_bind timeless_random fun draws => ?_
    refine timeless_bind (HashUtils.timeless_hash _) fun password => ?_
    cases role with
    | none => exact .throw _
    | some role =>
      refine timeless_bind (usersRepository.erases.insert fun x now s s' hs => ?_) fun userId =>
        timeless_afterInsert _ _ _
      rw [hs.fresh, hs.platform]

theorem timeless_update (id : String) (user : Json) : Svc.Timeless (update id user) (update id user) := by
  rcases update_cases id user with ⟨e, h⟩ | h <;> rw [h]
  · exact .throw _
  · refine timeless_bind ?_ fun password => timeless_bind (ActivityLogService.timeless_log _ _) fun _ =>
      timeless_drop (usersRepository.erases.set fun _ _ _ => rfl)
    unfold hashGiven
    split
    · exact .pure rfl
    · exact timeless_bind (HashUtils.timeless_hash _) fun _ => .pure rfl

theorem userItem_timeless (rank : String → Nat) (t : Tables) (u : Users) :
    userItem rank t.timeless u = userItem rank t u := by
  have haccounts : Table.scan rank Account.id (t.timeless.accounts.filter fun a => a.user = some u.id) =
      (Table.scan rank Account.id (t.accounts.filter fun a => a.user = some u.id)).map Account.timeless := by
    show Table.scan rank Account.id ((t.accounts.map Account.timeless).filter _) = _
    rw [filter_map_eq (e := Account.timeless) (p := fun a => decide (a.user = some u.id)) fun _ => rfl,
      scan_map_eq (e := Account.timeless) fun _ => rfl]
  have hlinks : (t.timeless.userEmulators.filter fun l => l.user = some u.id && l.active).length =
      (t.userEmulators.filter fun l => l.user = some u.id && l.active).length := by
    show ((t.userEmulators.map UserEmulators.timeless).filter _).length = _
    rw [filter_map_eq (p := fun l => decide (l.user = some u.id) && l.active) fun l => by
      rw [l.timeless_active]
      rfl, List.length_map]
  have hpin : ∀ l : List Account, (((l.map Account.timeless).filter Account.is_admin).head?.map Account.pin) =
      ((l.filter Account.is_admin).head?.map Account.pin) := by
    intro l
    rw [filter_map_eq (e := Account.timeless) (p := Account.is_admin) fun _ => rfl, List.head?_map, Option.map_map]
    rfl
  unfold userItem
  rw [show t.timeless.role? u.role = t.role? u.role from rfl]
  dsimp only
  rw [haccounts, hlinks, hpin, List.length_map]

theorem timeless_findAll : Svc.Timeless findAll findAll := by
  refine Prog.Related.mono (R := fun a a' => id a = id a') (timeless_query fun x now s s' hs =>
    congrArg Except.ok ?_) fun _ _ h => h
  have hscan := usersRepository.erases.scan_eq (p := fun _ _ => true) (fun _ _ => rfl) hs x now
  rw [List.map_id, List.map_id] at hscan
  show (usersRepository.scan _ x s.tables).filterMap _ =
    (usersRepository.scan _ { x with now } s'.tables).filterMap _
  rw [hscan]
  refine List.filterMap_congr fun u _ => ?_
  rw [← userItem_timeless, ← hs.tables, userItem_timeless]

theorem timeless_remove (id : String) : Svc.Timeless (remove id) (remove id) := by
  unfold remove
  refine Prog.Related.bind (timeless_query (e := fun a => a) fun x now s s' hs =>
    congrArg Except.ok ?_) fun devices devices' h => ?_
  · have hdevices := userEmulatorRepository.erases.map_scan (r := fun _ l => l.device) (g := fun o => o)
      (p := fun _ l => l.user = some id && l.active) (fun _ l => by rw [l.timeless_active]; rfl)
      (fun _ _ => rfl) hs x now
    rw [List.map_id', List.map_id'] at hdevices
    exact hdevices
  · obtain rfl : devices = devices' := h
    refine timeless_bind (ActivityLogService.timeless_log _ _) fun _ => ?_
    refine Prog.Related.bind (.forM (P := Eq) (List.forall₂_same.2 fun _ _ => rfl) fun d d' hd => ?_)
      fun _ _ _ => usersRepository.erases.deleteById
    obtain rfl : d = d' := hd
    refine Prog.Related.detach (R := Eq) ?_
    cases d with
    | none => exact .throw _
    | some d => exact timeless_drop (emulatorRepository.erases.set fun _ _ _ => rfl)

end UsersService

/-! ## AuthService -/

namespace AuthService

theorem timeless_passwordMatches (password : JsVal) (user : Option Users) :
    Svc.Timeless (passwordMatches password user) (passwordMatches password user) := by
  unfold passwordMatches
  split
  · exact .pure rfl
  · split
    · exact HashUtils.timeless_compareHash _ _
    · exact .pure rfl

/-- A user as the login loads it. -/
def timeless (u : Users × Option Role × List Account) : Users × Option Role × List Account :=
  (u.1, u.2.1, u.2.2.map Account.timeless)

/-- A PIN is compared with PINs only. -/
theorem map_matchingAccounts (pin : JsVal) {l l' : List Account}
    (h : l.map Account.timeless = l'.map Account.timeless) :
    (matchingAccounts pin l).map (List.map Account.timeless) =
      (matchingAccounts pin l').map (List.map Account.timeless) := by
  have hempty : l.isEmpty = l'.isEmpty := by
    have hmap := congrArg List.isEmpty h
    rwa [List.isEmpty_map, List.isEmpty_map] at hmap
  have hfilter : ∀ l : List Account, (l.filter fun a => pin.looselyEquals a.pin).map Account.timeless =
      (l.map Account.timeless).filter fun a => pin.looselyEquals a.pin :=
    fun _ => (filter_map_eq (e := Account.timeless) (q := fun a => pin.looselyEquals a.pin)
      fun _ => rfl).symm
  unfold matchingAccounts
  rw [hempty]
  split
  · refine congrArg Except.ok ?_
    rw [hfilter, hfilter, h]
  · rfl

theorem timeless_validateUser (loginDto : Json) :
    Svc.Timeless (validateUser loginDto) (validateUser loginDto) := by
  unfold validateUser
  split
  · exact .throw _
  · refine Prog.Related.bind (timeless_query (e := Option.map timeless) fun x now s s' hs =>
      congrArg Except.ok ?_) fun found found' h => ?_
    · refine usersRepository.erases.head_scan
        (p := fun _ u => (loginDto.get? "email").selects (some u.email))
        (r := fun t u => (u, t.role? u.role,
          Table.scan x.rank Account.id (t.accounts.filter fun a => a.user = some u.id)))
        (fun _ _ => rfl) (fun t u => ?_) hs x now
      show (u, t.role? u.role, (Table.scan x.rank Account.id ((t.accounts.map Account.timeless).filter fun a =>
        a.user = some u.id)).map Account.timeless) = (u, t.role? u.role, _)
      rw [filter_map_eq (e := Account.timeless) (p := fun a => decide (a.user = some u.id)) fun _ => rfl,
        scan_map_eq (e := Account.timeless) fun _ => rfl, List.map_map]
      rfl
    · have huser : found.map Prod.fst = found'.map Prod.fst := by
        have hmap := congrArg (Option.map Prod.fst) h
        rw [Option.map_map, Option.map_map] at hmap
        exact hmap
      rw [huser]
      refine timeless_bind (timeless_passwordMatches _ _) fun valid => ?_
      cases found with
      | none =>
        cases found' with
        | none => exact .throw _
        | some u' => cases h
      | some u =>
        cases found' with
        | none => cases h
        | some u' =>
          obtain ⟨u, role, accounts⟩ := u
          obtain ⟨u', role', accounts'⟩ := u'
          obtain ⟨rfl, hrest⟩ := Prod.mk.inj (Option.some.inj h)
          obtain ⟨rfl, haccounts⟩ := Prod.mk.inj hrest
          dsimp only
          split
          · cases role with
            | none => exact .throw _
            | some role =>
              dsimp only
              split
              · refine Prog.Related.bind (timeless_ofExcept (e := List.map Account.timeless)
                  (map_matchingAccounts _ haccounts)) fun l l' hl => ?_
                refine Prog.Related.bind (.forM (forall₂_of_map_eq hl) fun a a' ha => ?_) fun _ _ _ => ?_
                · have hid : a.timeless.id = a'.timeless.id := congrArg Account.id ha
                  change a.id = a'.id at hid
                  rw [hid]
                  exact (timeless_drop (accountRepository.erases.set fun _ _ _ => rfl)).detach
                · have hlast := congrArg List.getLast? hl
                  rw [List.getLast?_map, List.getLast?_map] at hlast
                  cases hl₁ : l.getLast? <;> cases hl₂ : l'.getLast? <;> rw [hl₁, hl₂] at hlast
                  · exact .throw _
                  · cases hlast
                  · cases hlast
                  · rename_i a a'
                    obtain ⟨_, _, _, _, _, _, _⟩ := a
                    obtain ⟨_, _, _, _, _, _, _⟩ := a'
                    cases hlast
                    dsimp only
                    split
                    · exact .throw _
                    · exact .pure rfl
              · exact .pure rfl
          · exact .throw _

end AuthService

end Damaru
