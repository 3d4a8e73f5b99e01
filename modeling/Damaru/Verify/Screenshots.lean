import Damaru.Async.Beside
import Damaru.Signaling
import Damaru.Verify.ServiceWrites

/-!
# Worlds that differ in screenshots

The services that write other columns of a device never look at its
screenshot: in a world where the screenshots are others they do the same, and
leave a world that again differs in screenshots only. A generated id is the
same in both worlds.
-/

namespace Damaru

open Async Table

/-- A device less its screenshot. -/
def Emulator.bare (e : Emulator) : Emulator := { e with screenshot := none }

namespace Tables

/-- The tables agree in all but the screenshots of devices. -/
def SameBut (t t' : Tables) : Prop :=
  ∃ l, t' = { t with emulators := l } ∧ l.map Emulator.bare = t.emulators.map Emulator.bare

variable {t t' : Tables}

theorem SameBut.refl (t : Tables) : SameBut t t := ⟨t.emulators, rfl, rfl⟩

theorem SameBut.devices (h : SameBut t t') :
    t'.emulators.map Emulator.device_id = t.emulators.map Emulator.device_id := by
  obtain ⟨l, rfl, hl⟩ := h
  have hids : ∀ l : List Emulator,
      l.map Emulator.device_id = (l.map Emulator.bare).map Emulator.device_id := by
    intro l
    rw [List.map_map]
    rfl
  show l.map Emulator.device_id = _
  rw [hids l, hl, ← hids]

theorem SameBut.integrity (h : SameBut t t') (ht : t.Integrity) : t'.Integrity := by
  have hdevices := h.devices
  obtain ⟨l, rfl, -⟩ := h
  exact { ht with
    emulators := by
      rw [hdevices]
      exact ht.emulators
    link_device := by
      rw [hdevices]
      exact ht.link_device }

theorem SameBut.integrity_iff (h : SameBut t t') : t'.Integrity ↔ t.Integrity := by
  refine ⟨fun ht' => ?_, h.integrity⟩
  obtain ⟨l, rfl, hl⟩ := h
  have hback : SameBut { t with emulators := l } t := ⟨t.emulators, rfl, hl.symm⟩
  exact hback.integrity ht'

theorem SameBut.ids (h : SameBut t t') : t'.ids = t.ids := by
  obtain ⟨l, rfl, -⟩ := h
  rfl

theorem SameBut.cascade (h : SameBut t t') : SameBut t.cascade t'.cascade := by
  have hdevices := h.devices
  obtain ⟨l, rfl, hl⟩ := h
  refine ⟨l, ?_, hl⟩
  unfold Tables.cascade
  rw [hdevices]

end Tables

/-- The servers agree in all but screenshots. -/
structure Corresponds (s s' : Server) : Prop where
  platform : s'.platform = s.platform
  tables : s.tables.SameBut s'.tables
  used : ∀ k, k ∈ s'.used ↔ k ∈ s.used

/-- In the second world an id is generated that the first has generated. -/
def screenshotWorlds : Worlds Ext Server where
  rel := Corresponds
  echo x s := { x with uuid := x.fresh s }

namespace Corresponds

variable {s s' : Server}

theorem refl (s : Server) : Corresponds s s := ⟨rfl, .refl _, fun _ => Iff.rfl⟩

theorem takesText_eq (h : Corresponds s s') (k : String) : s'.takesText k = s.takesText k := by
  unfold Server.takesText
  rw [decide_eq_decide.2 (h.used k), h.tables.devices]

theorem readsId_eq (h : Corresponds s s') (k : String) : s'.readsId k = s.readsId k := by
  unfold Server.readsId
  rw [decide_eq_decide.2 (h.used k)]

theorem fresh_eq (h : Corresponds s s') (x : Ext) :
    (screenshotWorlds.echo x s).fresh s' = x.fresh s := by
  have hnew : x.fresh s ∉ s'.used := fun hmem => x.fresh_not_used s ((h.used _).1 hmem)
  show Table.fresh (x.fresh s) s'.used = x.fresh s
  unfold Table.fresh
  rw [if_neg]
  intro hor
  rcases hor with hempty | hmem
  · exact x.fresh_ne_empty s hempty
  · exact hnew hmem

theorem commit (h : Corresponds s s') {t t' : Tables} (ht : t.SameBut t') (hi : t.Integrity)
    (hi' : t'.Integrity) : Corresponds (s.commit t hi) (s'.commit t' hi') := by
  refine ⟨h.platform, ht, fun k => ?_⟩
  rw [Server.used_commit, Server.used_commit, ht.ids, List.mem_append, List.mem_append, h.used]

end Corresponds

variable {α β : Type}

/-- A program that does the same in both worlds. -/
def Oblivious (p : Svc α) : Prop := p.Alike screenshotWorlds Eq p

theorem alike_query {Q : α → α → Prop} {f : Ext → Server → Except Rejection α}
    (h : ∀ x s s', Corresponds s s' → Answers Q (f x s) (f (screenshotWorlds.echo x s) s')) :
    (query f).Alike screenshotWorlds Q (query f) :=
  Prog.alike_op fun x s s' hs => ⟨h x s s' hs, hs⟩

theorem oblivious_statement {f : Ext → Server → Except Rejection (α × Tables)}
    (h : ∀ x s s', Corresponds s s' → Answers (fun o o' => o.1 = o'.1 ∧ o.2.SameBut o'.2) (f x s)
      (f (screenshotWorlds.echo x s) s')) : Oblivious (statement f) := by
  refine Prog.alike_op fun x s s' hs => ?_
  have hanswers := h x s s' hs
  cases hf : f x s with
  | error e =>
    cases hf' : f (screenshotWorlds.echo x s) s' with
    | error e' =>
      rw [hf, hf'] at hanswers
      exact ⟨hanswers, hs⟩
    | ok o' =>
      rw [hf, hf'] at hanswers
      exact hanswers.elim
  | ok o =>
    cases hf' : f (screenshotWorlds.echo x s) s' with
    | error e' =>
      rw [hf, hf'] at hanswers
      exact hanswers.elim
    | ok o' =>
      rw [hf, hf'] at hanswers
      obtain ⟨a, t⟩ := o
      obtain ⟨a', t'⟩ := o'
      obtain ⟨ha, ht⟩ := hanswers
      by_cases hi : t.Integrity
      · have hi' := ht.integrity hi
        simp only [hi, hi', dite_true]
        exact ⟨ha, hs.commit ht hi hi'⟩
      · have hi' : ¬ t'.Integrity := fun hi' => hi (ht.integrity_iff.1 hi')
        simp only [hi, hi', dite_false]
        exact ⟨rfl, hs⟩

/-! ## Calls of the repositories -/

namespace Repository

/-- A table that is not that of the devices. -/
structure Apart (repo : Repository β) : Prop where
  rows : ∀ l t, repo.rows { t with emulators := l } = repo.rows t
  put : ∀ rows l t, repo.put rows { t with emulators := l } = { repo.put rows t with emulators := l }
  emulators : ∀ rows t, (repo.put rows t).emulators = t.emulators

theorem apart_accounts : accountRepository.Apart := ⟨fun _ _ => rfl, fun _ _ _ => rfl, fun _ _ => rfl⟩

theorem apart_userEmulators : userEmulatorRepository.Apart :=
  ⟨fun _ _ => rfl, fun _ _ _ => rfl, fun _ _ => rfl⟩

theorem apart_accountEmulators : accountEmulatorRepository.Apart :=
  ⟨fun _ _ => rfl, fun _ _ _ => rfl, fun _ _ => rfl⟩

theorem apart_emulatorConnections : emulatorConnectionsRepository.Apart :=
  ⟨fun _ _ => rfl, fun _ _ _ => rfl, fun _ _ => rfl⟩

variable {repo : Repository β}

theorem Apart.rows_eq (h : repo.Apart) {t t' : Tables} (ht : t.SameBut t') :
    repo.rows t' = repo.rows t := by
  obtain ⟨l, rfl, -⟩ := ht
  exact h.rows l t

theorem Apart.put_same (h : repo.Apart) {t t' : Tables} (ht : t.SameBut t') (rows : List β) :
    (repo.put rows t).SameBut (repo.put rows t') := by
  obtain ⟨l, rfl, hl⟩ := ht
  refine ⟨l, h.put rows l t, ?_⟩
  rw [h.emulators]
  exact hl

theorem Apart.scan_eq (h : repo.Apart) {p : Tables → β → Bool} {t t' : Tables} (ht : t.SameBut t')
    (hp : ∀ l t, p { t with emulators := l } = p t) {x : Ext} {s : Server} :
    repo.scan p (screenshotWorlds.echo x s) t' = repo.scan p x t := by
  have hrows := h.rows_eq ht
  obtain ⟨l, rfl, -⟩ := ht
  unfold Repository.scan
  rw [hrows, hp]
  rfl

theorem Apart.oblivious_findRow (h : repo.Apart) {p : Tables → β → Bool}
    (hp : ∀ l t, p { t with emulators := l } = p t) : Oblivious (repo.findRow p) := by
  refine alike_query fun x s s' hs => ?_
  show _ = _
  rw [h.scan_eq hs.tables hp]

theorem Apart.oblivious_findReadable (h : repo.Apart) {readable : Server → Bool}
    {p : Tables → β → Bool} (hreadable : ∀ s s', Corresponds s s' → readable s' = readable s)
    (hp : ∀ l t, p { t with emulators := l } = p t) : Oblivious (repo.findReadable readable p) := by
  refine alike_query fun x s s' hs => ?_
  rw [hreadable s s' hs, h.scan_eq hs.tables hp]
  cases readable s with
  | true => exact rfl
  | false => exact rfl

theorem Apart.oblivious_insert (h : repo.Apart) {values : Ext → Server → Except Rejection β}
    (hvalues : ∀ x s s', Corresponds s s' → values (screenshotWorlds.echo x s) s' = values x s) :
    Oblivious (repo.insert values) := by
  refine oblivious_statement fun x s s' hs => ?_
  rw [hvalues x s s' hs]
  cases values x s with
  | error e => exact rfl
  | ok b =>
    refine ⟨rfl, ?_⟩
    show (repo.put (repo.rows s.tables ++ [b]) s.tables).SameBut
      (repo.put (repo.rows s'.tables ++ [b]) s'.tables)
    rw [h.rows_eq hs.tables]
    exact h.put_same hs.tables _

theorem Apart.oblivious_set (h : repo.Apart) {criterion : JsVal} {f : Ext → β → β}
    (hf : ∀ x s, f (screenshotWorlds.echo x s) = f x) : Oblivious (repo.set criterion f) := by
  refine oblivious_statement fun x s s' hs => ?_
  cases emptyCriterion criterion with
  | true => exact rfl
  | false =>
    refine ⟨?_, ?_⟩
    · show (repo.rows s.tables).countP _ = (repo.rows s'.tables).countP _
      rw [h.rows_eq hs.tables]
      rfl
    · show (repo.put _ s.tables).SameBut (repo.put _ s'.tables)
      rw [h.rows_eq hs.tables, hf]
      exact h.put_same hs.tables _

theorem Apart.oblivious_delete (h : repo.Apart) (p : β → Bool) : Oblivious (repo.delete p) := by
  refine oblivious_statement fun x s s' hs => ⟨rfl, ?_⟩
  show (repo.put _ s.tables).cascade.SameBut (repo.put _ s'.tables).cascade
  rw [h.rows_eq hs.tables]
  exact (h.put_same hs.tables _).cascade

/-! ### Devices -/

/-- The same device, if any, less its screenshot. -/
def SameDevice (a a' : Option Emulator) : Prop := a'.map Emulator.bare = a.map Emulator.bare

theorem scan_bare {p : Emulator → Bool} (hp : ∀ e, p e.bare = p e) (x : Ext) (t : Tables) :
    (emulatorRepository.scan (fun _ e => p e) x t).map Emulator.bare =
      Table.scan x.rank Emulator.device_id ((t.emulators.map Emulator.bare).filter p) := by
  have hfilter : (t.emulators.map Emulator.bare).filter p =
      (t.emulators.filter p).map Emulator.bare := by
    rw [List.filter_map]
    exact congrArg _ (List.filter_congr fun e _ => hp e)
  rw [hfilter]
  exact List.map_insertionSort _ _ _ _ fun _ _ _ _ => Iff.rfl

theorem same_head {p : Emulator → Bool} (hp : ∀ e, p e.bare = p e) {s s' : Server}
    (hs : Corresponds s s') (x : Ext) :
    SameDevice (emulatorRepository.scan (fun _ e => p e) x s.tables).head?
      (emulatorRepository.scan (fun _ e => p e) (screenshotWorlds.echo x s) s'.tables).head? := by
  obtain ⟨l, hl, hbare⟩ := hs.tables
  have hscan : (emulatorRepository.scan (fun _ e => p e) (screenshotWorlds.echo x s) s'.tables).map
      Emulator.bare = (emulatorRepository.scan (fun _ e => p e) x s.tables).map Emulator.bare := by
    rw [scan_bare hp, scan_bare hp, hl]
    show Table.scan x.rank Emulator.device_id ((l.map Emulator.bare).filter p) = _
    rw [hbare]
  unfold SameDevice
  rw [← List.head?_map, ← List.head?_map, hscan]

theorem alike_findEmulator {p : Emulator → Bool} (hp : ∀ e, p e.bare = p e) :
    (emulatorRepository.findRow fun _ e => p e).Alike screenshotWorlds SameDevice
      (emulatorRepository.findRow fun _ e => p e) := by
  refine alike_query fun x s s' hs => ?_
  have hsame := same_head hp hs x
  show SameDevice (Option.map _ _) (Option.map _ _)
  rw [Option.map_id', Option.map_id']
  exact hsame

theorem alike_findReadableEmulator {readable : Server → Bool} {p : Emulator → Bool}
    (hreadable : ∀ s s', Corresponds s s' → readable s' = readable s) (hp : ∀ e, p e.bare = p e) :
    (emulatorRepository.findReadable readable fun _ e => p e).Alike screenshotWorlds SameDevice
      (emulatorRepository.findReadable readable fun _ e => p e) := by
  refine alike_query fun x s s' hs => ?_
  rw [hreadable s s' hs]
  cases readable s with
  | true => exact same_head hp hs x
  | false => exact rfl

theorem updateWhere_bare {p : String → Bool} {f : Emulator → Emulator}
    (hf : ∀ e, (f e.bare).bare = (f e).bare) (l : List Emulator) :
    (updateWhere (fun e => p e.device_id) f l).map Emulator.bare =
      updateWhere (fun e => p e.device_id) (fun e => (f e).bare) (l.map Emulator.bare) := by
  unfold updateWhere
  rw [List.map_map, List.map_map]
  refine List.map_congr_left fun e _ => ?_
  show Emulator.bare (if p e.device_id = true then f e else e) =
    if p e.device_id = true then (f e.bare).bare else e.bare
  rw [hf]
  split <;> rfl

theorem oblivious_updateEmulators {criterion : JsVal}
    {fields : Ext → Server → Except Rejection (Option (Emulator → Emulator))}
    (hfields : ∀ x s s', Corresponds s s' → fields (screenshotWorlds.echo x s) s' = fields x s)
    (hbare : ∀ x s f, fields x s = .ok (some f) → ∀ e, (f e.bare).bare = (f e).bare) :
    Oblivious (emulatorRepository.update criterion fields) := by
  refine oblivious_statement fun x s s' hs => ?_
  have hcount : (s.tables.emulators.countP fun e => selected x criterion e.device_id) =
      s'.tables.emulators.countP fun e => selected x criterion e.device_id := by
    have hids : ∀ l : List Emulator, (l.countP fun e => selected x criterion e.device_id) =
        (l.map Emulator.device_id).countP fun k => selected x criterion k := by
      intro l
      rw [List.countP_map]
      rfl
    rw [hids, hids, hs.tables.devices]
  rw [hfields x s s' hs]
  cases emptyCriterion criterion with
  | true => exact rfl
  | false =>
    rw [if_neg Bool.false_ne_true, if_neg Bool.false_ne_true]
    cases hf : fields x s with
    | error e => exact rfl
    | ok o =>
      cases o with
      | none =>
        show Answers _
          (if (s.tables.emulators.countP fun e => selected x criterion e.device_id) = 0 then _ else _)
          (if (s'.tables.emulators.countP fun e => selected x criterion e.device_id) = 0 then _ else _)
        rw [← hcount]
        by_cases hzero : (s.tables.emulators.countP fun e => selected x criterion e.device_id) = 0
        · rw [if_pos hzero, if_pos hzero]
          exact ⟨rfl, hs.tables⟩
        · rw [if_neg hzero, if_neg hzero]
          exact rfl
      | some f =>
        refine ⟨hcount, ?_⟩
        obtain ⟨l, hl, hsame⟩ := hs.tables
        refine ⟨updateWhere (fun e => selected x criterion e.device_id) f l, ?_, ?_⟩
        · rw [hl]
          rfl
        · have hstep := hbare x s f hf
          show _ = (updateWhere (fun e => selected x criterion e.device_id) f
            s.tables.emulators).map Emulator.bare
          rw [updateWhere_bare hstep, updateWhere_bare hstep, hsame]

end Repository

/-! ## The services -/

namespace Oblivious

theorem pure {a : α} : Oblivious (Pure.pure a : Svc α) := Prog.Alike.pure rfl

theorem throw {e : Rejection} : Oblivious (MonadExcept.throw e : Svc α) := Prog.Alike.throw e

theorem bind {p : Svc α} {f : α → Svc β} (hp : Oblivious p) (hf : ∀ a, Oblivious (f a)) :
    Oblivious (p >>= f) := by
  refine Prog.Alike.bind hp fun a a' ha => ?_
  rw [← ha]
  exact hf a

/-- What goes on after a device has been looked for. -/
theorem bind_device {p : Svc (Option Emulator)} {f : Option Emulator → Svc β}
    (hp : p.Alike screenshotWorlds Repository.SameDevice p) (hnone : Oblivious (f none))
    (hsome : ∀ e e', e'.bare = e.bare → (f (some e)).Alike screenshotWorlds Eq (f (some e'))) :
    Oblivious (p >>= f) := by
  refine Prog.Alike.bind hp fun a a' ha => ?_
  cases a with
  | none =>
    cases a' with
    | none => exact hnone
    | some e' => cases ha
  | some e =>
    cases a' with
    | none => cases ha
    | some e' => exact hsome e e' (Option.some.inj ha)

theorem forOf {what : String} {v : JsVal} {body : JsVal → Svc Unit} (h : ∀ v, Oblivious (body v)) :
    Oblivious (Damaru.forOf what v body) := by
  unfold Damaru.forOf
  cases v.iterate with
  | none => exact throw
  | some items => exact Prog.Alike.forM (fun j => h (some j)) items

end Oblivious

namespace EmulatorService

open Repository

theorem oblivious_setDevice (id : JsVal) {f : Emulator → Emulator}
    (hf : ∀ e, (f e.bare).bare = (f e).bare) : Oblivious (emulatorRepository.set id fun _ => f) := by
  refine oblivious_updateEmulators (fun _ _ _ _ => rfl) fun x s g hg => ?_
  cases hg
  exact hf

theorem oblivious_setState (id : JsVal) (state : EmulatorState) : Oblivious (setState id state) :=
  .bind (oblivious_setDevice id fun _ => rfl) fun _ => .pure

theorem oblivious_update (id : JsVal) (emulator : Json) (user : Option JwtToken) :
    Oblivious (update id emulator user) := by
  have hwrite : Oblivious (emulatorRepository.update id fun _ s => values s.platform emulator) := by
    refine oblivious_updateEmulators (fun x s s' hs => ?_) fun x s f hf => ?_
    · show values s'.platform emulator = values s.platform emulator
      rw [hs.platform]
    · rw [values_columns hf]
      exact fun _ => rfl
  have hrest : Oblivious (do
      let affected ← emulatorRepository.update id fun _ s => values s.platform emulator
      return decide (affected > 0) : Svc Bool) := hwrite.bind fun _ => .pure
  unfold update
  dsimp only
  split
  · split
    · refine (apart_userEmulators.oblivious_findRow fun _ _ => rfl).bind fun link => ?_
      split
      · exact .throw
      · exact hrest
    · exact hrest
  · exact hrest

theorem oblivious_linkDevice (userId device_id : JsVal) : Oblivious (linkDevice userId device_id) := by
  unfold linkDevice findEmulatorByDeviceId
  refine .bind_device (alike_findEmulator fun _ => rfl) ?_ fun e e' _ => .throw _
  refine (apart_userEmulators.oblivious_insert fun x s s' hs => ?_).bind fun link => ?_
  · rw [hs.fresh_eq, hs.platform]
    rfl
  · refine (apart_accounts.oblivious_findRow fun _ _ => rfl).bind fun root => ?_
    cases root with
    | none => exact .throw
    | some a =>
      refine (apart_accountEmulators.oblivious_insert fun x s s' hs => ?_).bind fun _ =>
        oblivious_setState device_id .REGISTERED
      rw [hs.fresh_eq]

theorem oblivious_unlinkDevice (userId device_id : JsVal) :
    Oblivious (unlinkDevice userId device_id) := by
  refine (apart_userEmulators.oblivious_findRow fun _ _ => rfl).bind fun found => ?_
  cases found with
  | none => exact .pure
  | some l =>
    refine (apart_userEmulators.oblivious_set fun _ _ => rfl).bind fun _ => ?_
    exact (apart_accountEmulators.oblivious_delete _).bind fun _ => oblivious_setState _ _

theorem oblivious_restartConnection (name : JsVal) : Oblivious (restartConnection name) :=
  Prog.alike_op fun _ _ _ hs => ⟨rfl, hs.platform, hs.tables, hs.used⟩

theorem oblivious_disconnectEmulator (key : JsVal) : Oblivious (disconnectEmulator key) := by
  have htakes : ∀ s s', Corresponds s s' → key.bound.all s'.takesText = key.bound.all s.takesText :=
    fun s s' hs => congrArg key.bound.all (funext hs.takesText_eq)
  have hreads : ∀ s s', Corresponds s s' → key.bound.all s'.readsId = key.bound.all s.readsId :=
    fun s s' hs => congrArg key.bound.all (funext hs.readsId_eq)
  refine .bind_device (alike_findReadableEmulator htakes fun _ => rfl) ?_ fun e e' he => ?_
  · refine (apart_emulatorConnections.oblivious_findReadable hreads fun _ _ => rfl).bind fun found => ?_
    cases found with
    | none => exact .pure
    | some c => exact (apart_emulatorConnections.oblivious_set fun _ _ => rfl).bind fun _ => .pure
  · have hname : e'.bare.device_name = e.bare.device_name := by rw [he]
    show Prog.Alike _ _ _
      (_ >>= fun _ => restartConnection (some ((e'.bare.device_name.map _).getD _)))
    rw [hname]
    exact (oblivious_setDevice key fun _ => rfl).bind fun _ => oblivious_restartConnection _

end EmulatorService

/-- The requests that write other columns of devices. -/
inductive DeviceRequest where
  | linkEmulator (dto : MultiDevicesLinkDto)
  | unlinkEmulator (dto : MultiDevicesLinkDto)
  | update (id : JsVal) (emulator : Json) (user : Option JwtToken)
  | handleStartStreaming (client : Socket) (deviceId : JsVal)
  | disconnectEmulator (clientId : JsVal)

def DeviceRequest.prog : DeviceRequest → Svc Unit
  | linkEmulator dto => EmulatorService.linkEmulator dto
  | unlinkEmulator dto => EmulatorService.unlinkEmulator dto
  | update id emulator user => do let _ ← EmulatorService.update id emulator user
  | handleStartStreaming client deviceId => SignalingServerGateway.handleStartStreaming client deviceId
  | disconnectEmulator clientId => EmulatorService.disconnectEmulator clientId

/-- None of them looks at a screenshot. -/
theorem DeviceRequest.oblivious (req : DeviceRequest) : Oblivious req.prog := by
  cases req with
  | linkEmulator dto => exact .forOf fun v => EmulatorService.oblivious_linkDevice _ v
  | unlinkEmulator dto => exact .forOf fun v => EmulatorService.oblivious_unlinkDevice _ v
  | update id emulator user =>
    exact (EmulatorService.oblivious_update id emulator user).bind fun _ => .pure
  | disconnectEmulator key => exact EmulatorService.oblivious_disconnectEmulator key
  | handleStartStreaming client deviceId =>
    show Oblivious (SignalingServerGateway.handleStartStreaming client deviceId)
    unfold SignalingServerGateway.handleStartStreaming
    split
    · have hset : Oblivious (sync fun s => ((.ok () : Except Rejection Unit), { s with
          connections := SignalingServerGateway.set s.connections deviceId client })) :=
        Prog.alike_op fun _ _ _ hs => ⟨rfl, hs.platform, hs.tables, hs.used⟩
      exact hset.bind fun _ => (EmulatorService.oblivious_update _ _ _).bind fun _ => .pure
    · exact .pure

end Damaru
