import Damaru.Async.Ahead
import Damaru.Verify.Deletions
import Damaru.Verify.Lasting
import Damaru.Verify.TenantReads

/-!
# The connection log is truthful

A message to connect looks for an assignment first and records a connection of
it later, while everything else is under way. Between the two the assignment may
go, but no other row gets its key, and it joins the same account and device for
as long as it is there. So what the log shows of an account and a device has
begun with a message that names them, and has been given the date of its end by the
end of a socket.
-/

namespace Damaru

open Async Table SignalingServerGateway

/-! ## Assignments that have been found -/

/-- As long as it is there, the assignment joins an account and a device that
the values select. -/
structure Joins (clientId deviceId : JsVal) (i : String) (s : Server) : Prop where
  used : i ∈ s.used
  account : ∀ a ∈ s.tables.accountEmulators, a.id = i → clientId.selects a.account = true
  device : ∀ a ∈ s.tables.accountEmulators, a.id = i → ∀ j, a.userEmulator = some j →
    j ∈ s.used ∧ ∀ l ∈ s.tables.userEmulators, l.id = j → deviceId.selects l.device = true

variable {clientId deviceId : JsVal} {i : String} {e : Event} {s s' : Server}

/-- No step of anything makes it join others. -/
theorem Joins.stable (h : Joins clientId deviceId i s) (hlasts : Lasts s.tables s'.tables)
    (hrenews : Renews e.Names s s') : Joins clientId deviceId i s' := by
  have hassignment : ∀ a' ∈ s'.tables.accountEmulators, a'.id = i → ∃ a ∈ s.tables.accountEmulators,
      a.id = i ∧ a'.account = a.account ∧ a'.userEmulator = a.userEmulator := by
    intro a' ha' hid
    have hold := hrenews.old (n := .accountEmulators) nofun nofun nofun (hid.symm ▸ h.used)
      (List.mem_map_of_mem ha')
    obtain ⟨a, ha, hida⟩ := List.mem_map.1 hold
    obtain ⟨haccount, hlink⟩ := hlasts.accountEmulators a ha a' ha' hida.symm
    exact ⟨a, ha, hida.trans hid, haccount, hlink⟩
  refine ⟨hrenews.used h.used, fun a' ha' hid => ?_, fun a' ha' hid j hj => ?_⟩
  · obtain ⟨a, ha, hida, haccount, -⟩ := hassignment a' ha' hid
    exact haccount ▸ h.account a ha hida
  · obtain ⟨a, ha, hida, -, hlink⟩ := hassignment a' ha' hid
    obtain ⟨hused, hdevice⟩ := h.device a ha hida j (hlink ▸ hj)
    refine ⟨hrenews.used hused, fun l' hl' hidl => ?_⟩
    have hold := hrenews.old (n := .userEmulators) nofun nofun nofun (hidl.symm ▸ hused)
      (List.mem_map_of_mem hl')
    obtain ⟨l, hl, hidl'⟩ := List.mem_map.1 hold
    have hsame := (hlasts.userEmulators l hl l' hl' hidl'.symm).2.1
    exact hsame ▸ hdevice l hl (hidl'.trans hidl)

/-- An assignment that the message finds. -/
theorem Joins.of_found {a : AccountEmulators} (ha : a ∈ s.tables.accountEmulators)
    (hfound : (deviceId.selects ((s.tables.userEmulator? a.userEmulator).bind UserEmulators.device) &&
      clientId.selects a.account) = true) : Joins clientId deviceId a.id s := by
  obtain ⟨hdevice, hclient⟩ := Bool.and_eq_true_iff.1 hfound
  refine ⟨Entity.mem_used (n := .accountEmulators) trivial (List.mem_map_of_mem ha), ?_, ?_⟩
  · intro b hb hid
    rw [eq_of_key s.integrity.accountEmulators hb ha hid]
    exact hclient
  · intro b hb hid j hj
    rw [eq_of_key s.integrity.accountEmulators hb ha hid] at hj
    have hlink := s.integrity.link a ha
    rw [hj] at hlink
    obtain ⟨l, hl, hidl⟩ := List.mem_map.1 (of_decide_eq_true hlink)
    refine ⟨Entity.mem_used (n := .userEmulators) trivial (hidl ▸ List.mem_map_of_mem hl), ?_⟩
    intro l' hl' hidl'
    rw [hj, ← hidl', s.integrity.userEmulator?_eq hl'] at hdevice
    exact hdevice

/-! ## What the steps record -/

/-- The sessions that the step adds are as in `P`. -/
structure Logged (P : EmulatorConnections → Prop) (e : Event) (s s' : Server) : Prop where
  records : Records e s s'
  renews : Renews e.Names s s'
  begun : ∀ c ∈ s'.tables.emulatorConnections,
    c.id ∉ s.tables.emulatorConnections.map EmulatorConnections.id → P c

/-- A session of the assignment that is under way. -/
def Of (i : String) (c : EmulatorConnections) : Prop := c.accountEmulators = some i ∧ c.disconnected_at = none

theorem Logged.refl (P : EmulatorConnections → Prop) (e : Event) (s : Server) : Logged P e s s :=
  ⟨.refl e s, .refl _ s, fun _ hc hnew => absurd (List.mem_map_of_mem hc) hnew⟩

/-- The assignment that the message has found. -/
def Found (i : String) (s : Server) : Event → Prop
  | .message _ _ .Connect body => Joins (body.get? "clientId") (body.get? "deviceId") i s
  | _ => True

theorem Found.stable {k : Event} (h : Found i s k) (hlasts : Lasts s.tables s'.tables)
    (hrenews : Renews e.Names s s') : Found i s' k := by
  unfold Found at h ⊢
  split
  · exact h.stable hlasts hrenews
  · exact trivial

/-- A message to connect records a connection of what it has found. -/
theorem ahead_connect {client : Socket} {user : JwtToken} {body : Json}
    (hacc : accepts user .Connect body = true) : (Event.message client user .Connect body).prog.Ahead
      (fun i s => Found i s (.message client user .Connect body))
      (Logged (fun _ => False) (.message client user .Connect body))
      (fun i => Logged (Of i) (.message client user .Connect body)) := by
  have hprog : (Event.message client user .Connect body).prog =
      EmulatorService.connectEmulator (body.get? "clientId") (body.get? "deviceId") := handle_of_accepts hacc
  have hboth := (Event.each_records (.message client user .Connect body)).and (Event.each_renews _)
  rw [hprog] at hboth ⊢
  refine Prog.ahead_op_bind (fun _ s => .refl _ _ s) fun x s found hfound => ?_
  have hrest := hboth.of_op_bind hfound
  cases found with
  | none => exact .inl trivial
  | some a =>
    obtain ⟨b, hscan, rfl⟩ := Option.map_eq_some_iff.1 (Except.ok.inj hfound)
    obtain ⟨hb, hselected⟩ := Repository.of_scan_head hscan
    refine .inr ⟨b.id, Joins.of_found hb hselected, ?_⟩
    have hold : ∀ s : Server, ∀ c ∈ s.tables.emulatorConnections,
        c.id ∉ s.tables.emulatorConnections.map EmulatorConnections.id → Of b.id c :=
      fun s c hc hnew => absurd (List.mem_map_of_mem hc) hnew
    have hbegun : (emulatorConnectionsRepository.insert (fun x s => .ok
        { id := x.fresh s
          accountEmulators := some b.id
          connected_at := x.now
          disconnected_at := none }) >>= fun _ => pure () : Svc Unit).Each fun s s' =>
        ∀ c ∈ s'.tables.emulatorConnections,
          c.id ∉ s.tables.emulatorConnections.map EmulatorConnections.id → Of b.id c := by
      refine (Repository.each_insert hold fun x s c hc hi c' hc' hnew => ?_).bind fun _ => trivial
      cases hc
      rcases List.mem_append.1 hc' with hc' | hc'
      · exact absurd (List.mem_map_of_mem hc') hnew
      · rw [List.mem_singleton.1 hc']
        exact ⟨rfl, rfl⟩
    exact (hrest.and hbegun).mono fun s s' h => ⟨h.1.1, h.1.2, h.2⟩

/-- The spec of an arrival. -/
theorem Event.logs_start (e : Event) (x : Ext) (s : Server) :
    Logged (fun _ => False) e s (e.start x s).1 ∧ (e.start x s).2.Ahead (fun i s => Found i s e)
      (Logged (fun _ => False) e) (fun i => Logged (Of i) e) := by
  by_cases hconnect : ∃ client user body, e = .message client user .Connect body ∧
      accepts user .Connect body = true
  · obtain ⟨client, user, body, rfl, hacc⟩ := hconnect
    have hstart : (message client user .Connect body).start x s =
        (s, (message client user .Connect body).prog.toTask) := by
      unfold start
      cases (message client user .Connect body).prog.toTask <;> rfl
    rw [hstart]
    exact ⟨.refl _ _ s, (ahead_connect hacc).toTask⟩
  · have heach : e.prog.Each (Logged (fun _ => False) e) := by
      by_cases hrefused : ∃ client user body, e = .message client user .Connect body
      · obtain ⟨client, user, body, rfl⟩ := hrefused
        have hacc : accepts user .Connect body = false :=
          Bool.not_eq_true _ ▸ fun hacc => hconnect ⟨client, user, body, rfl, hacc⟩
        obtain ⟨err, hprog⟩ : ∃ err, (message client user .Connect body).prog = throw err :=
          handle_of_not_accepts hacc
        rw [hprog]
        exact trivial
      · refine (e.each_records.and e.each_renews).mono fun s s' h => ⟨h.1, h.2, fun c hc hnew => ?_⟩
        exact hrefused (h.1.sessions.begins c hc hnew)
    obtain ⟨hs, htask⟩ := Event.each_start (Logged.refl _ e) heach x s
    exact ⟨hs, htask.ahead⟩

/-! ## Where sessions come from -/

/-- A run of the server with all that is under way. -/
abbrev Moves := List (Gateway × Live.Move Event Ext Server Rejection × Gateway)

/-- The move is made for a message to connect, which names what the session
connects, and adds the session. -/
structure Begins (x : Gateway × Live.Move Event Ext Server Rejection × Gateway) (clientId deviceId : JsVal)
    (c : EmulatorConnections) : Prop where
  author : ∃ client user body, x.2.1.author = some (.message client user .Connect body) ∧
    accepts user .Connect body = true ∧ clientId = body.get? "clientId" ∧ deviceId = body.get? "deviceId"
  before : c.id ∉ x.1.state.tables.emulatorConnections.map EmulatorConnections.id
  after : ∃ b ∈ x.2.2.state.tables.emulatorConnections, b.id = c.id ∧ b.connected_at = c.connected_at

/-- The move is made for the end of a socket, and brings about what `P` says of the
date at which the session has ended. -/
structure Ends (x : Gateway × Live.Move Event Ext Server Rejection × Gateway) (c : EmulatorConnections)
    (P : Option Date → Prop) : Prop where
  author : ∃ client, x.2.1.author = some (.disconnect client)
  before : ∃ b ∈ x.1.state.tables.emulatorConnections, b.id = c.id ∧ ¬ P b.disconnected_at
  after : ∃ b ∈ x.2.2.state.tables.emulatorConnections, b.id = c.id ∧ P b.disconnected_at

/-- What is known of a session that is in the table. -/
structure Traced (steps : Moves) (s : Server) (c : EmulatorConnections) : Prop where
  begun : ∃ x ∈ steps, ∃ clientId deviceId, Begins x clientId deviceId c ∧
    ∀ i, c.accountEmulators = some i → Joins clientId deviceId i s
  ended : ∀ P : Option Date → Prop, ¬ P none → P c.disconnected_at → ∃ y ∈ steps, Ends y c P

theorem logs_moves {w₀ w : Gateway} {steps : Moves} (hstart : w₀.threads = [])
    (hrun : Trace (Live.Step serving) w₀ steps w) :
    ∀ x ∈ steps, ∃ e, x.2.1.author = some e ∧ Attributed e x.1.state x.2.2.state ∧
      (Logged (fun _ => False) e x.1.state x.2.2.state ∨
        ∃ i, Found i x.1.state e ∧ Logged (Of i) e x.1.state x.2.2.state) := by
  have hkeeps : ∀ (k : Event) i (e : Event) (s s' : Server), True → Logged (fun _ => False) e s s' ∨
      (∃ j, Logged (Of j) e s s') → Found i s k → Found i s' k := by
    rintro k i e s s' - (h | ⟨j, h⟩) hfound
    · exact hfound.stable h.records.lasts h.renews
    · exact hfound.stable h.records.lasts h.renews
  have haside : ∀ (k : Event) i s s', serving.aside s s' → Found i s k → Found i s' k :=
    fun _ _ _ _ h => h.elim
  have hnoted := Live.noted_run (C := fun _ => True) (F := fun e i s => Found i s e)
    (R := Logged fun _ => False) (S := fun e i => Logged (Of i) e) (fun e x s _ => e.logs_start x s)
    hkeeps haside hrun hstart fun _ _ _ _ => trivial
  have hmoves := renews_moves hstart hrun
  intro x hx
  obtain ⟨e, he, -, hattributed⟩ := hmoves x hx
  exact ⟨e, he, hattributed, (hnoted x hx e he).2⟩

/-- The step lemma, for a session that was there before. -/
theorem Traced.kept {steps : Moves} {x : Gateway × Live.Move Event Ext Server Rejection × Gateway}
    {c c' : EmulatorConnections} (h : Traced steps x.1.state c) (he : x.2.1.author = some e)
    (hrecords : Records e x.1.state x.2.2.state) (hrenews : Renews e.Names x.1.state x.2.2.state)
    (hc : c ∈ x.1.state.tables.emulatorConnections) (hc' : c' ∈ x.2.2.state.tables.emulatorConnections)
    (hid : c'.id = c.id) : Traced (steps ++ [x]) x.2.2.state c' := by
  obtain ⟨hassignment, hdate, -⟩ := hrecords.lasts.emulatorConnections c hc c' hc' hid
  constructor
  · obtain ⟨y, hy, clientId, deviceId, hbegins, hjoins⟩ := h.begun
    refine ⟨y, List.mem_append_left _ hy, clientId, deviceId, ⟨hbegins.author, hid ▸ hbegins.before, ?_⟩, ?_⟩
    · obtain ⟨b, hb, hbid, hbdate⟩ := hbegins.after
      exact ⟨b, hb, hbid.trans hid.symm, hbdate.trans hdate.symm⟩
    · intro i hi
      exact (hjoins i (hassignment ▸ hi)).stable hrecords.lasts hrenews
  · intro P hP hshown
    by_cases hbefore : P c.disconnected_at
    · obtain ⟨y, hy, hends⟩ := h.ended P hP hbefore
      exact ⟨y, List.mem_append_left _ hy, hends.author, hid ▸ hends.before, hid ▸ hends.after⟩
    · obtain ⟨client, rfl⟩ := hrecords.sessions.ends c hc c' hc' hid fun heq => hbefore (heq ▸ hshown)
      exact ⟨x, List.mem_append_right _ (List.mem_singleton.2 rfl), ⟨client, he⟩, ⟨c, hc, hid.symm, hbefore⟩,
        c', hc', rfl, hshown⟩

/-- The run lemma. -/
theorem traced_run {w₀ w : Gateway} {steps : Moves} (hstart : w₀.threads = [])
    (hnone : w₀.state.tables.emulatorConnections = []) (hrun : Trace (Live.Step serving) w₀ steps w) :
    ∀ c ∈ w.state.tables.emulatorConnections, Traced steps w.state c := by
  have hmoves := logs_moves hstart hrun
  induction hrun with
  | nil => exact fun c hc => absurd (hnone ▸ hc) List.not_mem_nil
  | @snoc w w' m steps hprefix hlast ih =>
    have hbefore := ih fun x hx => hmoves x (List.mem_append_left _ hx)
    obtain ⟨e, he, hattributed, hlogged⟩ :=
      hmoves (w, m, w') (List.mem_append_right _ (List.mem_singleton.2 rfl))
    obtain ⟨hrecords, hrenews⟩ : Records e w.state w'.state ∧ Renews e.Names w.state w'.state := by
      rcases hlogged with h | ⟨i, -, h⟩
      · exact ⟨h.records, h.renews⟩
      · exact ⟨h.records, h.renews⟩
    intro c' hc'
    by_cases hold : c'.id ∈ w.state.tables.emulatorConnections.map EmulatorConnections.id
    · obtain ⟨c, hc, hid⟩ := List.mem_map.1 hold
      exact (hbefore c hc).kept (x := (w, m, w')) he hrecords hrenews hc hc' hid.symm
    · rcases hlogged with h | ⟨i, hfound, h⟩
      · exact (h.begun c' hc' hold).elim
      · obtain ⟨hassignment, hopen⟩ := h.begun c' hc' hold
        obtain ⟨client, user, body, rfl⟩ := hrecords.sessions.begins c' hc' hold
        have hacc : accepts user .Connect body = true := by
          rcases hattributed.tables .emulatorConnections with hsame | ⟨hadmitted, -⟩
          · have hmem : c'.id ∈ Entity.emulatorConnections.ids w'.state.tables := List.mem_map_of_mem hc'
            rw [hsame.ids] at hmem
            exact absurd hmem hold
          · exact hadmitted
        refine ⟨⟨(w, m, w'), List.mem_append_right _ (List.mem_singleton.2 rfl), _, _,
          ⟨⟨client, user, body, he, hacc, rfl, rfl⟩, hold, c', hc', rfl, rfl⟩, fun j hj => ?_⟩,
          fun P hP hshown => absurd (hopen ▸ hshown) hP⟩
        obtain rfl := Option.some.inj (hassignment.symm.trans hj)
        have hjoins : Joins (body.get? "clientId") (body.get? "deviceId") i w.state := hfound
        exact hjoins.stable hrecords.lasts hrenews

/-! ## The log -/

/-- Where what the log shows of an account and a device comes from. -/
structure Truthful (steps : Moves) (t : Tables) (a d : String)
    (p : EmulatorService.LoadedConnection × List EmulatorService.Template) : Prop where
  shown : ∃ account ∈ t.accounts, account.id = a ∧ ∃ device ∈ t.emulators, device.device_id = d ∧
    p.2 = EmulatorService.connectedTemplate account.account_name (device.device_name.getD "null")
      p.1.connection.connected_at p.1.connection.disconnected_at
  begun : ∃ x ∈ steps, ∃ clientId deviceId, Begins x clientId deviceId p.1.connection ∧
    clientId.selects (some a) = true ∧ deviceId.selects (some d) = true
  closed : p.1.connection.disconnected_at ≠ none → ∃ y ∈ steps, Ends y p.1.connection (· ≠ none)
  ended : p.1.connection.disconnected_at ≠ none →
    ∃ y ∈ steps, Ends y p.1.connection (· = p.1.connection.disconnected_at)

namespace Tables

variable {t : Tables}

theorem accountEmulator?_mem {k : Option String} {a : AccountEmulators} (h : t.accountEmulator? k = some a) :
    a ∈ t.accountEmulators ∧ k = some a.id := by
  obtain ⟨i, rfl, hfind⟩ := Option.bind_eq_some_iff.1 h
  have hid := List.find?_some hfind
  exact ⟨List.mem_of_find?_eq_some hfind, congrArg some (of_decide_eq_true hid).symm⟩

theorem emulator?_mem {k : Option String} {e : Emulator} (h : t.emulator? k = some e) :
    e ∈ t.emulators ∧ k = some e.device_id := by
  obtain ⟨i, rfl, hfind⟩ := Option.bind_eq_some_iff.1 h
  have hid := List.find?_some hfind
  exact ⟨List.mem_of_find?_eq_some hfind, congrArg some (of_decide_eq_true hid).symm⟩

end Tables

/-- The rows that a listed connection is joined with, and its entries. -/
theorem templates_of_connectedTo {t : Tables} {a d : String} {c : EmulatorConnections}
    {l : List EmulatorService.Template}
    (hc : EmulatorService.connectedTo (some (.str a)) (some (.str d)) t c = true)
    (hl : (EmulatorService.LoadedConnection.of t c).templates = .ok l) :
    ∃ row ∈ t.accountEmulators, c.accountEmulators = some row.id ∧ row.account = some a ∧
      ∃ link ∈ t.userEmulators, row.userEmulator = some link.id ∧ link.device = some d ∧
        ∃ account ∈ t.accounts, account.id = a ∧ ∃ device ∈ t.emulators, device.device_id = d ∧
          l = EmulatorService.connectedTemplate account.account_name (device.device_name.getD "null")
            c.connected_at c.disconnected_at := by
  obtain ⟨haccount, hdevice⟩ := Bool.and_eq_true_iff.1 hc
  rw [JsVal.selects_str] at haccount hdevice
  obtain ⟨row, hrow, haccount⟩ := Option.bind_eq_some_iff.1 haccount
  rw [hrow, Option.bind_some] at hdevice
  obtain ⟨link, hlink, hdevice⟩ := Option.bind_eq_some_iff.1 hdevice
  obtain ⟨hmem, hid⟩ := Tables.accountEmulator?_mem hrow
  obtain ⟨hlinkmem, hlinkid⟩ := Tables.userEmulator?_mem hlink
  refine ⟨row, hmem, hid, haccount, link, hlinkmem, hlinkid, hdevice, ?_⟩
  have hof : EmulatorService.LoadedConnection.of t c =
      ⟨c, some (row, t.account? row.account, some (link, t.emulator? link.device))⟩ := by
    unfold EmulatorService.LoadedConnection.of
    rw [hrow, Option.map_some, hlink, Option.map_some]
  rw [hof] at hl
  unfold EmulatorService.LoadedConnection.templates at hl
  cases haccountrow : t.account? row.account with
  | none =>
    rw [haccountrow] at hl
    cases hl
  | some account =>
    obtain ⟨haccountmem, haccountid⟩ := Tables.account?_mem haccountrow
    rw [haccountrow] at hl
    cases hdevicerow : t.emulator? link.device with
    | none =>
      rw [hdevicerow] at hl
      cases hl
    | some device =>
      obtain ⟨hdevicemem, hdeviceid⟩ := Tables.emulator?_mem hdevicerow
      rw [hdevicerow] at hl
      refine ⟨account, haccountmem, Option.some.inj (haccountid.symm.trans haccount), device, hdevicemem,
        Option.some.inj (hdeviceid.symm.trans hdevice), ?_⟩
      cases hl
      rfl

/-- **The connection log is truthful.** However the threads of all events take
turns, each connection that the log shows of an account and a device has begun
with an accepted message to connect that names no other, at the date that is
shown, and is shown under their names; and if it is shown to have ended, then the
end of a socket has closed it, and the end of a socket has given it the date shown. -/
theorem connection_log_truthful {w₀ w : Gateway} {steps : Moves} (hstart : w₀.threads = [])
    (hnone : w₀.state.tables.emulatorConnections = []) (hrun : Trace (Live.Step serving) w₀ steps w)
    {a d : String} {l : List (EmulatorService.LoadedConnection × List EmulatorService.Template)} {s' : Server}
    (hlog : (EmulatorService.connectionLog (some (.str a)) (some (.str d))).Ends w.state (.ok l) s') :
    ∀ p ∈ l, Truthful steps w.state.tables a d p := by
  obtain ⟨x, -, hlists⟩ := (EmulatorService.connectionLog_lists _ _ _).sound l s' hlog
  intro p hp
  obtain ⟨c, ⟨hc, hconnected⟩, hitem⟩ := (hlists p).1 hp
  obtain ⟨templates, htemplates, rfl⟩ : ∃ templates,
      (EmulatorService.LoadedConnection.of w.state.tables c).templates = .ok templates ∧
        p = (EmulatorService.LoadedConnection.of w.state.tables c, templates) := by
    cases htemplates : (EmulatorService.LoadedConnection.of w.state.tables c).templates with
    | error e =>
      rw [htemplates] at hitem
      cases hitem
    | ok templates =>
      rw [htemplates] at hitem
      cases hitem
      exact ⟨templates, rfl, rfl⟩
  obtain ⟨row, hrow, hassignment, haccount, link, hlink, hlinkid, hdevice, hshown⟩ :=
    templates_of_connectedTo hconnected htemplates
  have htraced := traced_run hstart hnone hrun c hc
  refine ⟨hshown, ?_, fun hclosed => htraced.ended _ (absurd rfl) hclosed,
    fun hclosed => htraced.ended _ hclosed.symm rfl⟩
  obtain ⟨y, hy, clientId, deviceId, hbegins, hjoins⟩ := htraced.begun
  have hjoins := hjoins row.id hassignment
  refine ⟨y, hy, clientId, deviceId, hbegins, haccount ▸ hjoins.account row hrow rfl, ?_⟩
  exact hdevice ▸ (hjoins.device row hrow rfl link.id hlinkid).2 link hlink rfl

namespace Sample

/-- The root account of the second user connects to its device, which it has made an
offer to, and goes. -/
def connecting : List (Live.Choice Event Ext) :=
  [.arrive (startStreaming "device" "e") (input ""), .turn 0 (input ""),
    .arrive (offer "client" (androidAdmin "v" "v-root") "e") (input ""),
    .arrive (connect "client" (androidAdmin "v" "v-root") "v-root" "e") (input ""),
    .turn 2 (input ""), .turn 2 (input "c"), .arrive (.disconnect ⟨"client"⟩) (input ""),
    .turn 4 (input ""), .turn 4 (input ""), .turn 4 (input "")]

end Sample

theorem connection_log_truthful_sample : ∃ (steps : Moves) (w : Gateway) (s' : Server)
    (l : List (EmulatorService.LoadedConnection × List EmulatorService.Template)),
    Trace (Live.Step serving) Sample.idle steps w ∧
    (EmulatorService.connectionLog (some (.str "v-root")) (some (.str "e"))).Ends w.state (.ok l) s' ∧
    (∃ p ∈ l, p.1.connection.disconnected_at ≠ none) ∧
    ∀ p ∈ l, Truthful steps w.state.tables "v-root" "e" p := by
  have hplay : (Live.play serving (fun _ _ => true) Sample.connecting Sample.idle).any (fun w =>
      ((EmulatorService.connectionLog (some (.str "v-root")) (some (.str "e"))).run
        [Sample.input ""] w.state).any fun o => o.1.toOption.any fun l =>
          decide (∃ p ∈ l, p.1.connection.disconnected_at ≠ none)) = true := by
    decide +kernel
  obtain ⟨w, hw, hread⟩ := (Option.any_eq_true _ _).1 hplay
  obtain ⟨⟨r, s'⟩, hrun, hanswer⟩ := (Option.any_eq_true _ _).1 hread
  cases r with
  | error e => cases hanswer
  | ok l =>
    obtain ⟨steps, htrace, -⟩ := Live.trace_of_play .nil hw
    have hends := Prog.ends_of_run hrun
    exact ⟨steps, w, s', l, htrace, hends, of_decide_eq_true hanswer,
      connection_log_truthful rfl rfl htrace hends⟩

end Damaru
