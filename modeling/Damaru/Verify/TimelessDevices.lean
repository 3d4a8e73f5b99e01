import Damaru.Services.Emulators
import Damaru.Verify.Timeless

/-!
# Devices and the clock

The calls on devices, on links, which bear the date on which they expire, on
assignments and on connections.
-/

namespace Damaru

open Async Table

namespace EmulatorService

/-! ## Devices -/

theorem timeless_create (emulator : Json) : Svc.Timeless (create emulator) (create emulator) := by
  unfold create
  dsimp only
  split
  · exact .throw _
  · refine Prog.Related.bind (emulatorRepository.erases.findRow (g := id) (fun _ _ => rfl) fun _ => rfl)
      fun exist exist' h => ?_
    rw [Option.map_id, id, id] at h
    obtain rfl := h
    split
    · exact .pure rfl
    · refine timeless_bind (emulatorRepository.erases.insert fun x now s s' hs => ?_) fun _ => .pure rfl
      rw [hs.platform]

theorem timeless_update (id : JsVal) (emulator : Json) (user : Option JwtToken) :
    Svc.Timeless (update id emulator user) (update id emulator user) := by
  have hwrite : Svc.Timeless (do
      let affected ← emulatorRepository.update id fun _ s => values s.platform emulator
      return decide (affected > 0) : Svc Bool) (do
      let affected ← emulatorRepository.update id fun _ s => values s.platform emulator
      return decide (affected > 0)) := by
    refine timeless_bind (emulatorRepository.erases.update fun x now s s' hs => ?_) fun _ => .pure rfl
    rw [hs.platform]
    cases values s.platform emulator with
    | error e => exact .error e
    | ok o =>
      cases o with
      | none => exact .null
      | some f => exact .self (fun _ => rfl) fun _ => rfl
  unfold update
  split
  · split
    · refine Prog.Related.bind (userEmulatorRepository.erases.findRow (g := UserEmulators.timeless)
        (fun _ l => by rw [l.timeless_active]; rfl) fun l => l.timeless_timeless) fun l l' h => ?_
      have hnone := congrArg Option.isNone h
      rw [Option.isNone_map, Option.isNone_map] at hnone
      rw [hnone]
      split
      · exact .throw _
      · exact hwrite
    · exact hwrite
  · exact hwrite

/-- The links of a device with their dates blanked. -/
def LoadedEmulator.timeless (e : LoadedEmulator) : LoadedEmulator :=
  (e.1, e.2.map fun l => (l.1.timeless, l.2))

/-- The days that are left are blanked too. -/
def EmulatorItem.timeless (i : EmulatorItem) : EmulatorItem :=
  { i with
    userEmulators := i.userEmulators.map (List.map fun l => (l.1.timeless, l.2))
    expires_at := i.expires_at.map fun _ => 0 }

theorem visible_timeless (jwt : JwtToken) (t : Tables) (l : UserEmulators) :
    visible jwt t.timeless l.timeless = visible jwt t l := by
  unfold visible
  rw [l.timeless_active]
  rfl

theorem listed_timeless (jwt : JwtToken) (t : Tables) (e : Emulator) :
    listed jwt t.timeless e = listed jwt t e := by
  have hany : (t.timeless.userEmulators.any fun l => l.device = some e.device_id && visible jwt t.timeless l) =
      t.userEmulators.any fun l => l.device = some e.device_id && visible jwt t l := by
    show (t.userEmulators.map UserEmulators.timeless).any _ = _
    rw [List.any_map]
    refine congrArg _ (funext fun l => ?_)
    rw [Function.comp_apply, visible_timeless]
    rfl
  unfold listed
  rw [hany]

theorem loaded_timeless (jwt : JwtToken) (rank : String → Nat) (t : Tables) (e : Emulator) :
    LoadedEmulator.timeless (loaded (visible jwt) rank t.timeless e) =
      LoadedEmulator.timeless (loaded (visible jwt) rank t e) := by
  refine Prod.ext rfl ?_
  show List.map _ (List.map _ (Table.scan rank UserEmulators.id
    ((t.userEmulators.map UserEmulators.timeless).filter _))) = List.map _ (List.map _ _)
  rw [filter_map_eq (e := UserEmulators.timeless)
      (p := fun l => decide (l.device = some e.device_id) && visible jwt t l)
      fun l => by rw [visible_timeless]; rfl,
    scan_map_eq (e := UserEmulators.timeless) fun _ => rfl, List.map_map, List.map_map, List.map_map]
  refine List.map_congr_left fun l _ => ?_
  show (l.timeless.timeless, _) = (l.timeless, _)
  rw [l.timeless_timeless]
  rfl

theorem foldlM_items {today today' : Date} {ls ls' : List (UserEmulators × Option Users)}
    (h : List.Forall₂ (fun l l' : UserEmulators × Option Users =>
      (l.1.timeless, l.2) = (l'.1.timeless, l'.2)) ls ls') :
    ∀ i i' : EmulatorItem, i.timeless = i'.timeless →
      (ls.foldlM (fun (item : EmulatorItem) (l : UserEmulators × Option Users) => match l.2 with
        | none => Except.error (cannotRead "email")
        | some user => Except.ok { item with
          email := some user.email
          userId := some user.id
          expires_at := some (DateUtils.diffInDays l.1.expires_at today) }) i).map EmulatorItem.timeless =
      (ls'.foldlM (fun (item : EmulatorItem) (l : UserEmulators × Option Users) => match l.2 with
        | none => Except.error (cannotRead "email")
        | some user => Except.ok { item with
          email := some user.email
          userId := some user.id
          expires_at := some (DateUtils.diffInDays l.1.expires_at today') }) i').map EmulatorItem.timeless := by
  induction h with
  | nil => exact fun i i' hi => congrArg Except.ok hi
  | @cons l l' ls ls' hl _ ih =>
    intro i i' hi
    obtain ⟨l, user⟩ := l
    obtain ⟨l', user'⟩ := l'
    obtain rfl : user = user' := (Prod.mk.inj hl).2
    rw [List.foldlM_cons, List.foldlM_cons]
    cases user with
    | none => rfl
    | some user =>
      refine ih _ _ ?_
      exact congrArg (fun i : EmulatorItem => { i with
        email := some user.email
        userId := some user.id
        expires_at := some 0 }) hi

theorem emulatorResponseMapper_eq {url : Option String} {today today' : Date} {e e' : LoadedEmulator}
    (h : e.timeless = e'.timeless) :
    (emulatorResponseMapper url today e).map EmulatorItem.timeless =
      (emulatorResponseMapper url today' e').map EmulatorItem.timeless := by
  obtain ⟨e, ls⟩ := e
  obtain ⟨e', ls'⟩ := e'
  obtain ⟨rfl, hls⟩ : e = e' ∧ (ls.map fun l => (l.1.timeless, l.2)) = ls'.map fun l => (l.1.timeless, l.2) :=
    Prod.mk.inj h
  have hlength := congrArg List.length hls
  rw [List.length_map, List.length_map] at hlength
  unfold emulatorResponseMapper mapRegisteredEmulators
  dsimp only
  rw [hlength]
  split
  · rfl
  · split
    · refine foldlM_items (forall₂_of_map_eq ?_) _ _ rfl
      have hactive : ∀ l : List (UserEmulators × Option Users),
          ((l.filter fun l => l.1.active).map fun l => (l.1.timeless, l.2)) =
            (l.map fun l => (l.1.timeless, l.2)).filter fun l => l.1.active := fun l =>
        (filter_map_eq fun l => l.1.timeless_active).symm
      rw [hactive, hactive, hls]
    · rfl

theorem timeless_findAll (jwt : JwtToken) :
    Svc.TimelessBy (List.map EmulatorItem.timeless) (findAll jwt) (findAll jwt) := by
  unfold findAll
  refine Prog.Related.bind (timeless_query (e := List.map LoadedEmulator.timeless) fun x now s s' hs =>
    congrArg Except.ok ?_) fun es es' h => timeless_query fun x now s s' hs => ?_
  · exact emulatorRepository.erases.map_scan (listed_timeless jwt) (loaded_timeless jwt x.rank) hs x now
  · rw [hs.platform]
    exact mapM_map_eq (fun _ _ => emulatorResponseMapper_eq) h

theorem timeless_save (emulator : Emulator) : Svc.Timeless (save emulator) (save emulator) := by
  unfold save
  refine Prog.Related.bind (emulatorRepository.erases.findRow (g := id) (fun _ _ => rfl) fun _ => rfl)
    fun reloaded reloaded' h => ?_
  rw [Option.map_id, id, id] at h
  obtain rfl := h
  cases reloaded with
  | none => exact timeless_drop (emulatorRepository.erases.insert fun _ _ _ _ _ => rfl)
  | some old =>
    dsimp only
    split
    · exact emulatorRepository.erases.write fun _ => rfl
    · exact .pure rfl

theorem timeless_linkScreenshot (deviceId : String) :
    Svc.Timeless (linkScreenshot deviceId) (linkScreenshot deviceId) := by
  unfold linkScreenshot
  refine Prog.Related.bind (timeless_query (e := fun a => a) fun x now s s' hs => congrArg Except.ok ?_)
    fun found found' h => ?_
  · have hscan := emulatorRepository.erases.scan_eq (p := fun _ e => decide (e.device_id = deviceId))
      (fun _ _ => rfl) hs x now
    rw [List.map_id, List.map_id] at hscan
    rw [hscan, hs.platform]
  · obtain rfl : found = found' := h
    cases found with
    | none => exact .throw _
    | some e => exact timeless_bind (timeless_save e) fun _ => .pure rfl

/-! ## Assignments -/

theorem timeless_findUserEmulator (deviceId userId : JsVal) :
    Svc.TimelessBy (Option.map UserEmulators.id) (findUserEmulator deviceId userId)
      (findUserEmulator deviceId userId) :=
  userEmulatorRepository.erases.findRow (fun _ _ => rfl) fun _ => rfl

/-- What is done with the link of a device to a user, by its key. -/
theorem timeless_findUserEmulator_bind {deviceId userId : JsVal} {f : UserEmulators → Svc Unit}
    (h : ∀ l l' : UserEmulators, l.id = l'.id → Svc.Timeless (f l) (f l')) :
    Svc.Timeless (do if let some userEmulator ← findUserEmulator deviceId userId then f userEmulator)
      (do if let some userEmulator ← findUserEmulator deviceId userId then f userEmulator) := by
  refine (timeless_findUserEmulator deviceId userId).bind fun o o' ho => ?_
  cases o with
  | none =>
    cases o' with
    | none => exact .pure rfl
    | some l' => cases ho
  | some l =>
    cases o' with
    | none => cases ho
    | some l' => exact h l l' (Option.some.inj ho)

theorem timeless_upsert (account : Option String) (link : String) :
    Svc.Timeless (accountEmulatorRepository.upsert account link)
      (accountEmulatorRepository.upsert account link) := by
  refine timeless_statement fun x now s s' hs => ?_
  have hrows : s'.tables.timeless.accountEmulators = s.tables.timeless.accountEmulators := by rw [hs.tables]
  change s'.tables.accountEmulators = s.tables.accountEmulators at hrows
  have hput : ∀ l, (accountEmulatorRepository.put l s.tables).timeless =
      (accountEmulatorRepository.put l s'.tables).timeless := fun l => by
    rw [accountEmulatorRepository.erases.put, accountEmulatorRepository.erases.put, hs.tables]
  dsimp only
  rw [hrows, hs.fresh]
  split
  · exact congrArg Except.ok (Prod.ext rfl (hput _))
  · exact congrArg Except.ok (Prod.ext rfl (hput _))

theorem timeless_tryAssign (account : JsVal) {l l' : UserEmulators} (h : l.id = l'.id) :
    Svc.Timeless (tryAssign account l) (tryAssign account l') := by
  unfold tryAssign
  rw [h]
  exact (timeless_upsert _ _).tryCatch fun _ => .pure rfl

theorem timeless_tryUnassign (account : JsVal) {l l' : UserEmulators} (p : AccountEmulators → Bool)
    (h : l.id = l'.id) : Svc.Timeless (tryUnassign account l p) (tryUnassign account l' p) := by
  unfold tryUnassign
  rw [h]
  refine Prog.Related.tryCatch ?_ fun _ => .pure rfl
  split
  · exact accountEmulatorRepository.erases.delete fun _ => rfl
  · exact .throw _

theorem timeless_assignEmulatorsToAccount (dto : MultiDevicesAccountLinkDto) (user : JwtToken) :
    Svc.Timeless (assignEmulatorsToAccount dto user) (assignEmulatorsToAccount dto user) := by
  unfold assignEmulatorsToAccount
  split
  · exact timeless_forOf fun _ => timeless_findUserEmulator_bind fun _ _ h => timeless_tryAssign _ h
  · exact .pure rfl

theorem timeless_unassignEmulatorsToAccount (dto : MultiDevicesAccountLinkDto) (user : JwtToken) :
    Svc.Timeless (unassignEmulatorsToAccount dto user) (unassignEmulatorsToAccount dto user) := by
  unfold unassignEmulatorsToAccount
  split
  · exact timeless_forOf fun _ => timeless_findUserEmulator_bind fun _ _ h => timeless_tryUnassign _ _ h
  · exact .pure rfl

theorem timeless_unassignEmulatorFromAccounts (dto : MultiAccountsLinkDto) :
    Svc.Timeless (unassignEmulatorFromAccounts dto) (unassignEmulatorFromAccounts dto) :=
  timeless_findUserEmulator_bind fun _ _ h => timeless_forOf fun _ => timeless_tryUnassign _ _ h

theorem timeless_assignEmulator (dto : MultiAccountsLinkDto) (user : JwtToken) :
    Svc.Timeless (assignEmulator dto user) (assignEmulator dto user) := by
  unfold assignEmulator
  split
  · exact timeless_findUserEmulator_bind fun _ _ h => timeless_forOf fun _ => timeless_tryAssign _ h
  · exact .pure rfl

/-! ## Links -/

theorem timeless_linkDevice (userId device_id : JsVal) :
    Svc.Timeless (linkDevice userId device_id) (linkDevice userId device_id) := by
  unfold linkDevice
  refine Prog.Related.bind (emulatorRepository.erases.findRow (g := id) (fun _ _ => rfl) fun _ => rfl)
    fun o o' h => ?_
  rw [Option.map_id, id, id] at h
  obtain rfl := h
  split
  · refine timeless_bind (userEmulatorRepository.erases.insert fun x now s s' hs => ?_) fun link => ?_
    · rw [hs.fresh]
      rfl
    · refine (AccountsService.timeless_findRootAccount userId).bind fun a a' ha => ?_
      cases a with
      | none =>
        cases a' with
        | none => exact .throw _
        | some a' => cases ha
      | some a =>
        cases a' with
        | none => cases ha
        | some a' =>
          have hid : a.id = a'.id := Option.some.inj ha
          dsimp only
          rw [hid]
          refine timeless_bind (accountEmulatorRepository.erases.insert fun x now s s' hs => ?_) fun _ => ?_
          · rw [hs.fresh]
          · exact timeless_drop (emulatorRepository.erases.set fun _ _ _ => rfl)
  · exact .throw _

theorem timeless_unlinkDevice (userId device_id : JsVal) :
    Svc.Timeless (unlinkDevice userId device_id) (unlinkDevice userId device_id) := by
  unfold unlinkDevice
  refine Prog.Related.bind (userEmulatorRepository.erases.findRow (g := UserEmulators.id)
    (fun _ l => by rw [l.timeless_active]; rfl) fun _ => rfl) fun l l' h => ?_
  cases l with
  | none =>
    cases l' with
    | none => exact .pure rfl
    | some l' => cases h
  | some l =>
    cases l' with
    | none => cases h
    | some l' =>
      have hid : l.id = l'.id := Option.some.inj h
      dsimp only
      rw [hid]
      refine timeless_bind (userEmulatorRepository.erases.set fun _ _ _ => rfl) fun _ => ?_
      refine timeless_bind (accountEmulatorRepository.erases.delete fun _ => rfl) fun _ => ?_
      exact timeless_drop (emulatorRepository.erases.set fun _ _ _ => rfl)

theorem timeless_findLinkedDevices (deviceId : JsVal) :
    Svc.Timeless (findLinkedDevices deviceId) (findLinkedDevices deviceId) := by
  unfold findLinkedDevices
  refine Prog.Related.bind (accountEmulatorRepository.erases.find
    (g := fun a => (a.1, a.2.map Account.timeless)) (fun t a => ?_) fun t a => ?_) fun l l' h => ?_
  · rw [id, Tables.timeless_userEmulator?]
    cases t.userEmulator? a.userEmulator with
    | none => rfl
    | some l =>
      show (l.timeless.active && _) = (l.active && _)
      rw [l.timeless_active]
      rfl
  · rw [id, Tables.timeless_account?, Option.map_map]
    rfl
  · refine Prog.Related.bind (timeless_ofExcept (e := List.map fun a => a) (mapM_map_eq (fun a a' ha => ?_) h))
      fun items items' hitems => ?_
    · obtain ⟨a, o⟩ := a
      obtain ⟨a', o'⟩ := a'
      obtain ⟨-, ho⟩ := Prod.mk.inj ha
      cases o with
      | none =>
        cases o' with
        | none => rfl
        | some b' => cases ho
      | some b =>
        cases o' with
        | none => cases ho
        | some b' =>
          obtain ⟨_, _, _, _, _, _, _⟩ := b
          obtain ⟨_, _, _, _, _, _, _⟩ := b'
          cases ho
          rfl
    · rw [List.map_id', List.map_id'] at hitems
      rw [hitems]
      exact .pure rfl

/-! ## Connections -/

/-- A connection with its dates blanked, and no entries: they are made of them. -/
def LoadedConnection.timeless (c : LoadedConnection) : LoadedConnection where
  connection := c.connection.timeless
  accountEmulators := c.accountEmulators.map fun a =>
    (a.1, a.2.1.map Account.timeless, a.2.2.map fun l => (l.1.timeless, l.2))

theorem LoadedConnection.of_timeless (t : Tables) (c : EmulatorConnections) :
    (LoadedConnection.of t.timeless c.timeless).timeless = (LoadedConnection.of t c).timeless := by
  unfold LoadedConnection.of timeless
  dsimp only
  rw [c.timeless_timeless, Option.map_map, Option.map_map]
  congr 1
  show Option.map _ (t.accountEmulator? c.accountEmulators) = Option.map _ _
  refine Option.map_congr fun a _ => Prod.ext rfl (Prod.ext ?_ ?_)
  · show Option.map _ (t.timeless.account? a.account) = Option.map _ _
    rw [Tables.timeless_account?, Option.map_map]
    rfl
  · show Option.map _ (Option.map _ (t.timeless.userEmulator? a.userEmulator)) = Option.map _ (Option.map _ _)
    rw [Tables.timeless_userEmulator?, Option.map_map, Option.map_map, Option.map_map]
    refine Option.map_congr fun l _ => ?_
    show (l.timeless.timeless, _) = (l.timeless, _)
    rw [l.timeless_timeless]
    rfl

theorem templates_eq {c c' : LoadedConnection} (h : c.timeless = c'.timeless) :
    (c.templates.map fun l => (c, l)).map (fun o => (o.1.timeless, o.2.length)) =
      (c'.templates.map fun l => (c', l)).map fun o => (o.1.timeless, o.2.length) := by
  have hlength : ∀ (n d n' d' : String) (c c' : EmulatorConnections), c.timeless = c'.timeless →
      (connectedTemplate n d c.connected_at c.disconnected_at).length =
        (connectedTemplate n' d' c'.connected_at c'.disconnected_at).length := by
    intro n d n' d' c c' hc
    have hclosed : c.timeless.disconnected_at.isNone = c'.timeless.disconnected_at.isNone := by rw [hc]
    rw [c.timeless_open, c'.timeless_open] at hclosed
    unfold connectedTemplate
    cases hdate : c.disconnected_at <;> cases hdate' : c'.disconnected_at <;> rw [hdate, hdate'] at hclosed
    · rfl
    · cases hclosed
    · cases hclosed
    · rfl
  have hc : c.connection.timeless = c'.connection.timeless := congrArg LoadedConnection.connection h
  have ho : c.timeless.accountEmulators = c'.timeless.accountEmulators := by rw [h]
  obtain ⟨c, o⟩ := c
  obtain ⟨c', o'⟩ := c'
  cases o with
  | none =>
    cases o' with
    | none => rfl
    | some a' => cases ho
  | some a =>
    cases o' with
    | none => cases ho
    | some a' =>
      obtain ⟨a, account, link⟩ := a
      obtain ⟨a', account', link'⟩ := a'
      obtain ⟨-, hrest⟩ := Prod.mk.inj (Option.some.inj ho)
      obtain ⟨haccount, hlink⟩ := Prod.mk.inj hrest
      cases account with
      | none =>
        cases account' with
        | none => rfl
        | some b' => cases haccount
      | some b =>
        cases account' with
        | none => cases haccount
        | some b' =>
          cases link with
          | none =>
            cases link' with
            | none => rfl
            | some l' => cases hlink
          | some l =>
            cases link' with
            | none => cases hlink
            | some l' =>
              obtain ⟨l, device⟩ := l
              obtain ⟨l', device'⟩ := l'
              obtain rfl : device = device' := (Prod.mk.inj (Option.some.inj hlink)).2
              cases device with
              | none => rfl
              | some e => exact congrArg Except.ok (Prod.ext h (hlength _ _ _ _ c c' hc))

theorem timeless_connectionLog (accountId deviceId : JsVal) :
    Svc.TimelessBy (List.map fun o => (o.1.timeless, o.2.length)) (connectionLog accountId deviceId)
      (connectionLog accountId deviceId) := by
  unfold connectionLog
  refine Prog.Related.bind
    (emulatorConnectionsRepository.erases.find (fun t c => ?_) LoadedConnection.of_timeless)
    fun l l' h => timeless_ofExcept (mapM_map_eq (fun _ _ => templates_eq) h)
  have hlink : ∀ k, (t.timeless.userEmulator? k).bind UserEmulators.device =
      (t.userEmulator? k).bind UserEmulators.device := fun k => by
    rw [Tables.timeless_userEmulator?, Option.bind_map]
    rfl
  dsimp only
  simp only [hlink]
  rfl

theorem timeless_connectEmulator (clientId deviceId : JsVal) :
    Svc.Timeless (connectEmulator clientId deviceId) (connectEmulator clientId deviceId) := by
  unfold connectEmulator
  refine Prog.Related.bind (accountEmulatorRepository.erases.findRow (g := id) (fun t a => ?_) fun _ => rfl)
    fun o o' h => ?_
  · rw [id, Tables.timeless_userEmulator?, Option.bind_map]
    rfl
  · rw [Option.map_id, id, id] at h
    obtain rfl := h
    cases o with
    | none => exact .throw _
    | some a =>
      refine timeless_drop (emulatorConnectionsRepository.erases.insert fun x now s s' hs => ?_)
      rw [hs.fresh]
      rfl

theorem timeless_restartConnection (deviceName : JsVal) :
    Svc.Timeless (restartConnection deviceName) (restartConnection deviceName) :=
  timeless_sync fun _ _ hs => ⟨rfl, hs.platform, hs.tables, hs.issued, hs.connections,
    congrArg (fun l => l ++ _) hs.emitted⟩

theorem timeless_disconnectEmulator (clientId : JsVal) :
    Svc.Timeless (disconnectEmulator clientId) (disconnectEmulator clientId) := by
  unfold disconnectEmulator
  refine Prog.Related.bind (emulatorRepository.erases.findReadable (g := id) (fun s s' hs => ?_)
    (fun _ _ => rfl) fun _ => rfl) fun o o' h => ?_
  · have hdevices := congrArg Tables.emulators hs.tables
    unfold Server.takesText
    rw [hs.used, show s'.tables.emulators = s.tables.emulators from hdevices]
  rw [Option.map_id, id, id] at h
  obtain rfl := h
  cases o with
  | some e =>
    exact timeless_bind (emulatorRepository.erases.set fun _ _ _ => rfl) fun _ => timeless_restartConnection _
  | none =>
    refine Prog.Related.bind (emulatorConnectionsRepository.erases.findReadable
      (g := EmulatorConnections.id) (fun s s' hs => ?_) (fun t c => ?_) fun _ => rfl) fun c c' h => ?_
    · unfold Server.readsId
      rw [hs.used]
    · rw [c.timeless_open]
      rfl
    · cases c with
      | none =>
        cases c' with
        | none => exact .pure rfl
        | some c' => cases h
      | some c =>
        cases c' with
        | none => cases h
        | some c' =>
          have hid : c.id = c'.id := Option.some.inj h
          dsimp only
          rw [hid]
          exact timeless_drop (emulatorConnectionsRepository.erases.set fun _ _ _ => rfl)

end EmulatorService

end Damaru
