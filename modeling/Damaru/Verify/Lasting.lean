import Damaru.Verify.Attribution
import Damaru.Verify.Privileges

/-!
# What is recorded lasts

Whatever is under way at once, no write gives a row another owner: a user keeps
its role, an account its user, a link its user and its device, an assignment its
account and its link, a session its assignment and the date when it began. What
has ended has ended: an ended link is never active again, and a closed session
never open.
-/

namespace Damaru

open Async Table

/-! ## Rows -/

/-- An end that has been recorded stays recorded. -/
def StaysEnded (ended ended' : Option Date) : Prop := ended.isSome = true → ended'.isSome = true

/-- What becomes of a row, in each table. -/
def Users.Evolved (u u' : Users) : Prop := u'.role = u.role

def Account.Evolved (a a' : Account) : Prop := a'.user = a.user ∧ a'.is_admin = a.is_admin

def UserEmulators.Evolved (l l' : UserEmulators) : Prop :=
  l'.user = l.user ∧ l'.device = l.device ∧ l'.linked_at = l.linked_at ∧
    StaysEnded l.unlinked_at l'.unlinked_at

def AccountEmulators.Evolved (a a' : AccountEmulators) : Prop :=
  a'.account = a.account ∧ a'.userEmulator = a.userEmulator

def EmulatorConnections.Evolved (c c' : EmulatorConnections) : Prop :=
  c'.accountEmulators = c.accountEmulators ∧ c'.connected_at = c.connected_at ∧
    StaysEnded c.disconnected_at c'.disconnected_at

theorem Users.evolved_refl (u : Users) : u.Evolved u := rfl

theorem Account.evolved_refl (a : Account) : a.Evolved a := ⟨rfl, rfl⟩

theorem UserEmulators.evolved_refl (l : UserEmulators) : l.Evolved l :=
  ⟨rfl, rfl, rfl, fun h => h⟩

theorem AccountEmulators.evolved_refl (a : AccountEmulators) : a.Evolved a := ⟨rfl, rfl⟩

theorem EmulatorConnections.evolved_refl (c : EmulatorConnections) : c.Evolved c :=
  ⟨rfl, rfl, fun h => h⟩

/-- What the rows of both tables have in common. -/
structure Lasts (t t' : Tables) : Prop where
  roles : t'.roles = t.roles
  users : Evolves Users.id Users.Evolved t.users t'.users
  accounts : Evolves Account.id Account.Evolved t.accounts t'.accounts
  userEmulators : Evolves UserEmulators.id UserEmulators.Evolved t.userEmulators t'.userEmulators
  accountEmulators :
    Evolves AccountEmulators.id AccountEmulators.Evolved t.accountEmulators t'.accountEmulators
  emulatorConnections :
    Evolves EmulatorConnections.id EmulatorConnections.Evolved t.emulatorConnections t'.emulatorConnections

namespace Lasts

variable {t t' : Tables}

/-- Rows have gone at most. -/
theorem of_subset (hi : t.Integrity) (hr : t'.roles = t.roles) (hu : t'.users ⊆ t.users)
    (ha : t'.accounts ⊆ t.accounts) (hl : t'.userEmulators ⊆ t.userEmulators)
    (hae : t'.accountEmulators ⊆ t.accountEmulators)
    (hc : t'.emulatorConnections ⊆ t.emulatorConnections) : Lasts t t' where
  roles := hr
  users := evolves_of_subset Users.evolved_refl hi.users hu
  accounts := evolves_of_subset Account.evolved_refl hi.accounts ha
  userEmulators := evolves_of_subset UserEmulators.evolved_refl hi.userEmulators hl
  accountEmulators := evolves_of_subset AccountEmulators.evolved_refl hi.accountEmulators hae
  emulatorConnections := evolves_of_subset EmulatorConnections.evolved_refl hi.emulatorConnections hc

theorem refl (hi : t.Integrity) : Lasts t t :=
  of_subset hi rfl (List.Subset.refl _) (List.Subset.refl _) (List.Subset.refl _) (List.Subset.refl _)
    (List.Subset.refl _)

/-- Rows have been deleted, with those that refer to them. -/
theorem of_cascade (hi : t.Integrity) (hr : t'.roles = t.roles) (hu : t'.users ⊆ t.users)
    (ha : t'.accounts ⊆ t.accounts) (hl : t'.userEmulators = t.userEmulators)
    (hae : t'.accountEmulators ⊆ t.accountEmulators)
    (hc : t'.emulatorConnections = t.emulatorConnections) : Lasts t t'.cascade := by
  obtain ⟨hu', ha', hl', hae'⟩ := t'.cascade_subset
  refine of_subset hi hr (List.Subset.trans hu' hu) (List.Subset.trans ha' ha) (hl ▸ hl')
    (List.Subset.trans hae' hae) ?_
  exact hc ▸ List.filter_subset_self _

end Lasts

/-! ## Writes -/

/-- The writes of most kinds let what is recorded last. -/
theorem Write.lasts {t t' : Tables} {k : Kind} (hw : Write t k t') (hi : t.Integrity) (hi' : t'.Integrity)
    (ha : k ≠ .assignments) (hc : k ≠ .connections) : Lasts t t' := by
  have hsame := Lasts.refl hi
  cases hw with
  | connections l => exact (hc rfl).elim
  | assignments l c => exact (ha rfl).elim
  | newAccount a => exact { hsame with accounts := evolves_append Account.evolved_refl hi'.accounts }
  | accountFields p f hf =>
    exact { hsame with
      accounts := evolves_updateWhere Account.evolved_refl hi.accounts fun a _ => hf a }
  | newUser u => exact { hsame with users := evolves_append Users.evolved_refl hi'.users }
  | userFields p f hf =>
    exact { hsame with users := evolves_updateWhere Users.evolved_refl hi.users fun u _ => hf u }
  | newLink l =>
    exact { hsame with
      userEmulators := evolves_append UserEmulators.evolved_refl hi'.userEmulators }
  | expiry p date =>
    exact { hsame with
      userEmulators := evolves_updateWhere UserEmulators.evolved_refl hi.userEmulators
        fun l _ => ⟨rfl, UserEmulators.evolved_refl l⟩ }
  | endLink p date =>
    exact { hsame with
      userEmulators := evolves_updateWhere UserEmulators.evolved_refl hi.userEmulators
        fun l _ => ⟨rfl, rfl, rfl, rfl, fun _ => rfl⟩ }
  | deleteAccount p =>
    exact Lasts.of_cascade hi rfl (List.Subset.refl _) (List.filter_subset_self _) rfl
      (List.Subset.refl _) rfl
  | deleteUser p =>
    exact Lasts.of_cascade hi rfl (List.filter_subset_self _) (List.Subset.refl _) rfl
      (List.Subset.refl _) rfl
  | deleteEmulator p =>
    exact Lasts.of_cascade hi rfl (List.Subset.refl _) (List.Subset.refl _) rfl (List.Subset.refl _) rfl
  | _ => exact { hsame with }

/-! ## Beginnings and ends -/

/-- A link begins in a request that links devices, and ends in one that unlinks
them. -/
structure LinkLife (e : Event) (t t' : Tables) : Prop where
  begins : ∀ l ∈ t'.userEmulators, l.id ∉ t.userEmulators.map UserEmulators.id →
    ∃ user dto, e = .http user (.emulators_linkEmulator dto) ∧ user.role = .SuperAdmin
  ends : ∀ l ∈ t.userEmulators, ∀ l' ∈ t'.userEmulators, l'.id = l.id → l.active = true →
    l'.active = false → ∃ user dto, e = .http user (.emulators_unlinkEmulator dto) ∧ user.role = .SuperAdmin

/-- A session begins with a message to connect. It is given the date of its end,
or another one, with the end of a socket. -/
structure SessionLife (e : Event) (t t' : Tables) : Prop where
  begins : ∀ c ∈ t'.emulatorConnections, c.id ∉ t.emulatorConnections.map EmulatorConnections.id →
    ∃ client user body, e = .message client user .Connect body
  ends : ∀ c ∈ t.emulatorConnections, ∀ c' ∈ t'.emulatorConnections, c'.id = c.id →
    c'.disconnected_at ≠ c.disconnected_at → ∃ client, e = .disconnect client

theorem LinkLife.of_subset {e : Event} {t t' : Tables} (hi : t.Integrity)
    (hl : t'.userEmulators ⊆ t.userEmulators) : LinkLife e t t' := by
  refine ⟨fun l hl' hnew => absurd (List.mem_map_of_mem (hl hl')) hnew, ?_⟩
  intro l hl₀ l' hl' hid hactive hended
  rw [eq_of_key hi.userEmulators (hl hl') hl₀ hid, hactive] at hended
  cases hended

theorem SessionLife.of_subset {e : Event} {t t' : Tables} (hi : t.Integrity)
    (hc : t'.emulatorConnections ⊆ t.emulatorConnections) : SessionLife e t t' := by
  refine ⟨fun c hc' hnew => absurd (List.mem_map_of_mem (hc hc')) hnew, ?_⟩
  intro c hc₀ c' hc' hid hchanged
  rw [eq_of_key hi.emulatorConnections (hc hc') hc₀ hid] at hchanged
  exact absurd rfl hchanged

/-! ## The writes of links -/

theorem HttpRequest.links_of_kinds {req : HttpRequest} (h : Kind.newLink ∈ req.kinds) :
    ∃ dto, req = .emulators_linkEmulator dto := by
  cases req <;> simp [kinds] at h ⊢

theorem HttpRequest.unlinks_of_kinds {req : HttpRequest} (h : Kind.endLink ∈ req.kinds) :
    ∃ dto, req = .emulators_unlinkEmulator dto := by
  cases req <;> simp [kinds] at h ⊢

theorem Event.links_of_kinds {e : Event} (h : Kind.newLink ∈ e.kinds) :
    ∃ user dto, e = .http user (.emulators_linkEmulator dto) ∧ user.role = .SuperAdmin := by
  cases e with
  | http user req =>
    obtain ⟨hadmits, hk⟩ := kinds_http h
    obtain ⟨dto, rfl⟩ := HttpRequest.links_of_kinds hk
    exact ⟨user, dto, rfl, SuperAdmin_isAuthorized hadmits⟩
  | message client user event body =>
    cases event <;> simp [kinds, SignalingServerGateway.Event.kinds] at h
  | disconnect client => simp [kinds] at h
  | login dto => simp [kinds] at h

theorem Event.unlinks_of_kinds {e : Event} (h : Kind.endLink ∈ e.kinds) :
    ∃ user dto, e = .http user (.emulators_unlinkEmulator dto) ∧ user.role = .SuperAdmin := by
  cases e with
  | http user req =>
    obtain ⟨hadmits, hk⟩ := kinds_http h
    obtain ⟨dto, rfl⟩ := HttpRequest.unlinks_of_kinds hk
    exact ⟨user, dto, rfl, SuperAdmin_isAuthorized hadmits⟩
  | message client user event body =>
    cases event <;> simp [kinds, SignalingServerGateway.Event.kinds] at h
  | disconnect client => simp [kinds] at h
  | login dto => simp [kinds] at h

theorem Write.linkLife {e : Event} {t t' : Tables} {k : Kind} (hw : Write t k t') (hi : t.Integrity)
    (hi' : t'.Integrity) (hk : k ∈ e.kinds) : LinkLife e t t' := by
  cases hw with
  | newLink l =>
    refine ⟨fun _ _ _ => Event.links_of_kinds hk, fun a ha b hb hid hactive hended => ?_⟩
    rw [eq_of_key hi'.userEmulators hb (List.mem_append_left _ ha) hid, hactive] at hended
    cases hended
  | endLink p date =>
    refine ⟨fun l hl hnew => absurd ?_ hnew, fun _ _ _ _ _ _ _ => Event.unlinks_of_kinds hk⟩
    have hids : (updateWhere p (fun l => { l with unlinked_at := some date }) t.userEmulators).map
        UserEmulators.id = t.userEmulators.map UserEmulators.id := map_updateWhere fun _ _ => rfl
    exact hids ▸ List.mem_map_of_mem hl
  | expiry p date =>
    have hids : (updateWhere p (fun l => { l with expires_at := date }) t.userEmulators).map
        UserEmulators.id = t.userEmulators.map UserEmulators.id := map_updateWhere fun _ _ => rfl
    have hends : Evolves UserEmulators.id (fun l l' => l'.active = l.active) t.userEmulators
        (updateWhere p (fun l => { l with expires_at := date }) t.userEmulators) := by
      refine evolves_updateWhere ?_ hi.userEmulators ?_
      · exact fun _ => rfl
      · exact fun _ _ => ⟨rfl, rfl⟩
    refine ⟨fun l hl hnew => absurd (hids ▸ List.mem_map_of_mem hl) hnew, ?_⟩
    intro l hl l' hl' hid hactive hended
    rw [hends l hl l' hl' hid, hactive] at hended
    cases hended
  | deleteUser p => exact .of_subset hi (Tables.cascade_subset _).2.2.1
  | deleteAccount p => exact .of_subset hi (Tables.cascade_subset _).2.2.1
  | deleteEmulator p => exact .of_subset hi (Tables.cascade_subset _).2.2.1
  | _ => exact .of_subset hi (List.Subset.refl _)

theorem Writes.linkLife {e : Event} {s s' : Server} (hw : Writes e.kinds s s') :
    LinkLife e s.tables s'.tables := by
  rcases hw.tables with ht | ⟨k, hk, hw⟩
  · rw [ht]
    exact .of_subset s.integrity (List.Subset.refl _)
  · exact hw.linkLife s.integrity s'.integrity hk

/-! ## The writes of assignments and sessions -/

/-- What is recorded lasts, and no session begins or ends. -/
structure Mild (s s' : Server) : Prop where
  lasts : Lasts s.tables s'.tables
  sessions : s'.tables.emulatorConnections ⊆ s.tables.emulatorConnections

theorem Mild.refl (s : Server) : Mild s s := ⟨.refl s.integrity, List.Subset.refl _⟩

theorem Write.subset_connections {t t' : Tables} {k : Kind} (hw : Write t k t') (ha : k ≠ .assignments)
    (hc : k ≠ .connections) : t'.emulatorConnections ⊆ t.emulatorConnections := by
  cases hw with
  | connections l => exact (hc rfl).elim
  | assignments l c => exact (ha rfl).elim
  | deleteUser p => exact List.filter_subset_self _
  | deleteAccount p => exact List.filter_subset_self _
  | deleteEmulator p => exact List.filter_subset_self _
  | _ => exact List.Subset.refl _

theorem Writes.mild {ks : List Kind} (ha : Kind.assignments ∉ ks) (hc : Kind.connections ∉ ks)
    {s s' : Server} (hw : Writes ks s s') : Mild s s' := by
  rcases hw.tables with ht | ⟨k, hk, hw⟩
  · refine ⟨?_, ?_⟩
    · rw [ht]
      exact .refl s.integrity
    · rw [ht]
      exact List.Subset.refl _
  · have hka : k ≠ .assignments := fun heq => ha (heq ▸ hk)
    have hkc : k ≠ .connections := fun heq => hc (heq ▸ hk)
    exact ⟨hw.lasts s.integrity s'.integrity hka hkc, hw.subset_connections hka hkc⟩

namespace EmulatorService

theorem mild_tryAssign (account : JsVal) (l : UserEmulators) : (tryAssign account l).Each Mild := by
  refine (each_statement Mild.refl fun x s a t hf ht => ?_ :
    (accountEmulatorRepository.upsert account.bound l.id).Each Mild).tryCatch fun _ => trivial
  have hsame := Lasts.refl s.integrity
  dsimp only at hf
  split at hf
  · cases hf
    refine ⟨{ hsame with accountEmulators := ?_ }, List.Subset.refl _⟩
    exact evolves_updateWhere AccountEmulators.evolved_refl s.integrity.accountEmulators
      fun a _ => ⟨rfl, AccountEmulators.evolved_refl a⟩
  · cases hf
    refine ⟨{ hsame with accountEmulators := ?_ }, List.Subset.refl _⟩
    exact evolves_append AccountEmulators.evolved_refl ht.accountEmulators

theorem mild_delete (p : AccountEmulators → Bool) : (accountEmulatorRepository.delete p).Each Mild :=
  Repository.each_delete Mild.refl fun s _ => ⟨Lasts.of_cascade s.integrity rfl (List.Subset.refl _)
    (List.Subset.refl _) rfl (List.filter_subset_self _) rfl, List.filter_subset_self _⟩

theorem mild_tryUnassign (account : JsVal) (l : UserEmulators) (p : AccountEmulators → Bool) :
    (tryUnassign account l p).Each Mild := by
  refine Prog.Each.tryCatch ?_ fun _ => trivial
  split
  · exact mild_delete _
  · exact trivial

theorem mild_setState (device_id : JsVal) (st : EmulatorState) : (setState device_id st).Each Mild := by
  have hset : (setState device_id st).Each (Writes [.state]) := each_setState List.mem_cons_self
  exact hset.mono fun _ _ => Writes.mild (by simp) (by simp)

theorem mild_linkDevice (userId device_id : JsVal) : (linkDevice userId device_id).Each Mild := by
  unfold linkDevice findEmulatorByDeviceId
  refine (Repository.each_findRow Mild.refl).bind fun found => ?_
  split
  · refine (Repository.each_insert Mild.refl fun x s l _ hi =>
      ⟨(Write.newLink l).lasts s.integrity hi nofun nofun, List.Subset.refl _⟩ :
      (insertLink userId device_id).Each Mild).bind fun link => ?_
    refine (Repository.each_findRow Mild.refl).bind fun root => ?_
    cases root with
    | none => exact trivial
    | some a =>
      refine (Repository.each_insert Mild.refl fun x s d _ hi => ⟨?_, List.Subset.refl _⟩ :
        (insertAssignment link a.id).Each Mild).bind fun _ => mild_setState _ _
      exact { Lasts.refl s.integrity with
        accountEmulators := evolves_append AccountEmulators.evolved_refl hi.accountEmulators }
  · exact trivial

theorem mild_unlinkDevice (userId device_id : JsVal) : (unlinkDevice userId device_id).Each Mild := by
  unfold unlinkDevice
  refine (Repository.each_findRow Mild.refl).bind fun found => ?_
  cases found with
  | none => exact trivial
  | some l =>
    refine (Repository.each_update Mild.refl (fun x s f hf hi => ?_) fun s _ => ⟨.refl s.integrity,
      List.Subset.refl _⟩ : (userEmulatorRepository.set _ _).Each Mild).bind fun _ => ?_
    · cases hf
      exact ⟨(Write.endLink _ x.now).lasts s.integrity hi nofun nofun, List.Subset.refl _⟩
    · exact (mild_delete _).bind fun _ => mild_setState _ _

end EmulatorService

/-- The requests that write assignments. -/
theorem HttpRequest.mild {req : HttpRequest} (user : JwtToken) (h : Kind.assignments ∈ req.kinds) :
    (req.run user).Each Mild := by
  cases req with
  | emulators_linkEmulator dto =>
    exact each_reading ((each_forOf fun _ => EmulatorService.mild_linkDevice _ _).bind fun _ => trivial)
  | emulators_unlinkEmulator dto =>
    exact each_reading ((each_forOf fun _ => EmulatorService.mild_unlinkDevice _ _).bind fun _ => trivial)
  | emulators_assignEmulator dto =>
    refine each_reading (Prog.Each.bind ?_ fun _ => trivial)
    unfold EmulatorService.assignEmulator
    split
    · exact EmulatorService.each_withLink Mild.refl fun _ => each_forOf fun _ =>
        EmulatorService.mild_tryAssign _ _
    · exact trivial
  | emulators_assignEmulatorsToAccount dto =>
    refine each_reading (Prog.Each.bind ?_ fun _ => trivial)
    unfold EmulatorService.assignEmulatorsToAccount
    split
    · exact each_forOf fun _ => EmulatorService.each_withLink Mild.refl fun _ =>
        EmulatorService.mild_tryAssign _ _
    · exact trivial
  | emulators_unAssignEmulatorsToAccount dto =>
    refine each_reading (Prog.Each.bind ?_ fun _ => trivial)
    unfold EmulatorService.unassignEmulatorsToAccount
    split
    · exact each_forOf fun _ => EmulatorService.each_withLink Mild.refl fun _ =>
        EmulatorService.mild_tryUnassign _ _ _
    · exact trivial
  | emulators_unAssignEmulatorFromAccounts dto =>
    exact each_reading ((EmulatorService.each_withLink Mild.refl fun _ =>
      each_forOf fun _ => EmulatorService.mild_tryUnassign _ _ _).bind fun _ => trivial)
  | _ => simp [kinds] at h

/-! ## The writes of each event -/

/-- What an event does to what is recorded. -/
structure Records (e : Event) (s s' : Server) : Prop where
  lasts : Lasts s.tables s'.tables
  links : LinkLife e s.tables s'.tables
  sessions : SessionLife e s.tables s'.tables

theorem Records.refl (e : Event) (s : Server) : Records e s s :=
  ⟨.refl s.integrity, .of_subset s.integrity (List.Subset.refl _), .of_subset s.integrity (List.Subset.refl _)⟩

theorem Mild.records {e : Event} {s s' : Server} (h : Mild s s') (hw : Writes e.kinds s s') :
    Records e s s' := ⟨h.lasts, hw.linkLife, .of_subset s.integrity h.sessions⟩

namespace EmulatorService

theorem sessions_connectEmulator (client : Socket) (user : JwtToken) (body : Json) (clientId deviceId : JsVal) :
    (connectEmulator clientId deviceId).Each fun s s' => Lasts s.tables s'.tables ∧
      SessionLife (.message client user .Connect body) s.tables s'.tables := by
  have hrefl : ∀ s : Server, Lasts s.tables s.tables ∧
      SessionLife (.message client user .Connect body) s.tables s.tables :=
    fun s => ⟨.refl s.integrity, .of_subset s.integrity (List.Subset.refl _)⟩
  unfold connectEmulator
  refine (Repository.each_findRow hrefl).bind fun found => ?_
  cases found with
  | none => exact trivial
  | some a =>
    refine (Repository.each_insert hrefl fun x s c _ hi => ?_).bind fun _ => trivial
    refine ⟨{ Lasts.refl s.integrity with
      emulatorConnections := evolves_append EmulatorConnections.evolved_refl hi.emulatorConnections },
      fun _ _ _ => ⟨client, user, body, rfl⟩, fun c₀ hc₀ c' hc' hid hchanged => ?_⟩
    rw [eq_of_key hi.emulatorConnections hc' (List.mem_append_left _ hc₀) hid] at hchanged
    exact absurd rfl hchanged

theorem sessions_disconnectEmulator {client : Socket} (clientId : JsVal) :
    (disconnectEmulator clientId).Each fun s s' => Lasts s.tables s'.tables ∧
      SessionLife (.disconnect client) s.tables s'.tables := by
  have hrefl : ∀ s : Server, Lasts s.tables s.tables ∧
      SessionLife (.disconnect client) s.tables s.tables :=
    fun s => ⟨.refl s.integrity, .of_subset s.integrity (List.Subset.refl _)⟩
  have hmild : ∀ s s' : Server, Mild s s' → Lasts s.tables s'.tables ∧
      SessionLife (.disconnect client) s.tables s'.tables :=
    fun s s' h => ⟨h.lasts, .of_subset s.integrity h.sessions⟩
  unfold disconnectEmulator
  refine (Repository.each_findReadable hrefl).bind fun found => ?_
  cases found with
  | some e =>
    refine Prog.Each.bind ?_ fun _ => ?_
    · have hset : (emulatorRepository.set clientId fun _ e => { e with status := .offline }).Each
          (Writes [.emulatorFields]) := each_setFields (fun _ _ => ⟨rfl, rfl⟩) List.mem_cons_self
      exact hset.mono fun s s' hw => hmild s s' (hw.mild (by simp) (by simp))
    · have hrestart : (restartConnection (some ((e.device_name.map Json.str).getD .null))).Each
          (Writes [.emissions]) := each_restartConnection List.mem_cons_self
      exact hrestart.mono fun s s' hw => hmild s s' (hw.mild (by simp) (by simp))
  | none =>
    refine (Repository.each_findReadable hrefl).bind fun found => ?_
    cases found with
    | none => exact trivial
    | some c =>
      refine (Repository.each_update hrefl (fun x s f hf hi => ?_) fun s _ => hrefl s).bind fun _ => trivial
      cases hf
      refine ⟨{ Lasts.refl s.integrity with emulatorConnections := ?_ }, fun c₀ hc₀ hnew => ?_,
        fun _ _ _ _ _ _ => ⟨client, rfl⟩⟩
      · exact evolves_updateWhere EmulatorConnections.evolved_refl s.integrity.emulatorConnections
          fun c _ => ⟨rfl, rfl, rfl, fun _ => rfl⟩
      · refine absurd ?_ hnew
        have hids : (updateWhere (fun a : EmulatorConnections => selected x (some (.str c.id)) a.id)
            (fun c => { c with disconnected_at := some x.now }) s.tables.emulatorConnections).map
            EmulatorConnections.id = s.tables.emulatorConnections.map EmulatorConnections.id :=
          map_updateWhere fun _ _ => rfl
        exact hids ▸ List.mem_map_of_mem hc₀

end EmulatorService

/-- Each step of the code of an event records what the event is about. -/
theorem Event.each_records (e : Event) : e.prog.Each (Records e) := by
  have hmild : e.prog.Each Mild → e.prog.Each (Records e) := fun h =>
    (h.and e.each_prog).mono fun _ _ hboth => hboth.1.records hboth.2
  have hkinds : Kind.assignments ∉ e.kinds → Kind.connections ∉ e.kinds → e.prog.Each (Records e) :=
    fun ha hc => hmild (e.each_prog.mono fun _ _ hw => hw.mild ha hc)
  cases e with
  | http user req =>
    by_cases ha : req.admits user = true ∧ Kind.assignments ∈ req.kinds
    · refine hmild (Prog.Each.bind ?_ fun _ => trivial)
      rw [HttpRequest.handle_of_admits ha.1]
      exact HttpRequest.mild user ha.2
    · refine hkinds (fun hk => ha (kinds_http hk)) fun hk => ?_
      have hreq := (kinds_http hk).2
      cases req <;> simp [HttpRequest.kinds] at hreq
  | message client user event body =>
    cases hacc : SignalingServerGateway.accepts user event body with
    | false =>
      obtain ⟨err, hprog⟩ : ∃ err, (message client user event body).prog = throw err :=
        SignalingServerGateway.handle_of_not_accepts hacc
      rw [hprog]
      exact trivial
    | true =>
      cases event with
      | Connect =>
        have hprog : (message client user .Connect body).prog =
            EmulatorService.connectEmulator (body.get? "clientId") (body.get? "deviceId") :=
          SignalingServerGateway.handle_of_accepts hacc
        have hsessions := EmulatorService.sessions_connectEmulator client user body
          (body.get? "clientId") (body.get? "deviceId")
        rw [← hprog] at hsessions
        exact (hsessions.and (each_prog _)).mono fun s s' hboth =>
          ⟨hboth.1.1, hboth.2.linkLife, hboth.1.2⟩
      | _ =>
        refine hkinds ?_ ?_
        · simp [kinds, SignalingServerGateway.Event.kinds]
        · simp [kinds, SignalingServerGateway.Event.kinds]
  | disconnect client =>
    have hsessions : (disconnect client).prog.Each fun s s' => Lasts s.tables s'.tables ∧
        SessionLife (.disconnect client) s.tables s'.tables := by
      refine (each_query fun s => ⟨.refl s.integrity, .of_subset s.integrity (List.Subset.refl _)⟩).bind
        fun registered => ?_
      exact Prog.Each.forM (fun _ => (EmulatorService.sessions_disconnectEmulator _).detach) _
    exact (hsessions.and (each_prog _)).mono fun s s' hboth => ⟨hboth.1.1, hboth.2.linkLife, hboth.1.2⟩
  | login dto => exact hkinds (by simp [kinds]) (by simp [kinds])

/-- **History.** However the threads of all events take turns, every move lets
what is recorded last; links begin and end in the requests of super admins
only, and sessions with the messages and the ends of sockets. -/
theorem records_run {w₀ w : Gateway} {steps : List (Gateway × Live.Move Event Ext Server Rejection × Gateway)}
    (hstart : w₀.threads = []) (hrun : Trace (Live.Step serving) w₀ steps w) :
    ∀ x ∈ steps, ∃ e, x.2.1.author = some e ∧ Records e x.1.state x.2.2.state := by
  have hall := Live.each_run (C := fun _ => True) (R := Records)
    (fun e x s _ => Event.each_start (Records.refl e) e.each_records x s) hrun
    hstart fun _ _ _ _ => trivial
  intro x hx
  obtain ⟨e, he⟩ := exists_author hrun x hx
  exact ⟨e, he, (hall x hx e he).2⟩

theorem records_run_sample : ∃ steps w, Trace (Live.Step serving) Sample.idle steps w ∧
    w.state.tables.userEmulators.map UserEmulators.id = ["link", "new"] ∧
    ∀ x ∈ steps, ∃ e, x.2.1.author = some e ∧ Records e x.1.state x.2.2.state := by
  have hplay : (Live.play serving (fun _ _ => true) Sample.addAndLink Sample.idle).any (fun w =>
      decide (w.state.tables.userEmulators.map UserEmulators.id = ["link", "new"])) = true := by
    decide +kernel
  obtain ⟨w, hw, hlinks⟩ := (Option.any_eq_true _ _).1 hplay
  obtain ⟨steps, hrun, -⟩ := Live.trace_of_play .nil hw
  exact ⟨steps, w, hrun, of_decide_eq_true hlinks, records_run rfl hrun⟩

end Damaru
