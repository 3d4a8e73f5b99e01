import Damaru.Verify.EventWrites

/-!
# Who reaches a device

The gateway forwards a message to the socket that is registered under the key
of its payload. It asks who may send such a message and who may register under
the key of a device, but not to whom the device is linked or assigned; that
only `Connect` looks up, for the account of its payload.
-/

namespace Damaru

open Async Table

/-- Only equal keys are the same. -/
theorem JsVal.eq_of_sameKey {a b : JsVal} (h : a.sameKey b = true) : a = b := by
  unfold JsVal.sameKey at h
  split at h <;> simp_all

namespace SignalingServerGateway

/-- The events that a message is forwarded for to the device of its payload. -/
def Event.Forwarded : Event → Prop
  | Offer => True
  | IceCandidate => True
  | Disconnect => True
  | _ => False

/-- The name under which the event is emitted. -/
def Event.name : Event → String
  | StartStreaming => "StartStreaming"
  | Offer => "Offer"
  | Answer => "Answer"
  | IceCandidate => "IceCandidate"
  | Disconnect => "Disconnect"
  | Connect => "Connect"

/-- The key whose socket a message is forwarded to. -/
def target (event : Event) (body : Json) : JsVal :=
  if event = .IceCandidate ∧ (body.get? "isEmulator").truthy = true then body.get? "clientId"
  else body.get? "deviceId"

/-- The step has forwarded the event to the socket. -/
def Forwards (event : Event) (socket : Socket) (s s' : Server) : Prop :=
  ∃ payload, s'.emitted = s.emitted ++ [⟨.socket socket, event.name, payload⟩]

/-- The token passes the guard of the event, and the message has a body. -/
def accepts (user : JwtToken) (event : Event) (body : Json) : Bool :=
  event.guard.isAuthorized user && !body.isNull

theorem handle_of_accepts {client : Socket} {user : JwtToken} {event : Event} {body : Json}
    (h : accepts user event body = true) :
    handle client user event body = run client user body event := by
  obtain ⟨hguard, hbody⟩ := Bool.and_eq_true_iff.1 h
  have hpass : event.guard.authorized .ws user = pure () := if_pos hguard
  unfold handle
  rw [hpass, pure_bind, if_neg (by simpa using hbody)]

theorem handle_of_not_accepts {client : Socket} {user : JwtToken} {event : Event} {body : Json}
    (h : accepts user event body = false) : ∃ e, handle client user event body = throw e := by
  unfold handle
  cases hguard : event.guard.isAuthorized user with
  | false =>
    have hstop : event.guard.authorized .ws user = throw (.ws "You are not authorized") :=
      if_neg (by rw [hguard]; exact Bool.false_ne_true)
    exact ⟨_, by rw [hstop]; rfl⟩
  | true =>
    have hpass : event.guard.authorized .ws user = pure () := if_pos hguard
    have hbody : body.isNull = true := by simpa [accepts, hguard] using h
    exact ⟨_, by rw [hpass, pure_bind, if_pos hbody]; rfl⟩

/-! ## Forwarding -/

theorem step_of_not_accepts {client : Socket} {user : JwtToken} {event : Event} {body : Json}
    {s s' : Server} (h : Step s (.message client user event body) s')
    (hnot : accepts user event body = false) : s' = s := by
  obtain ⟨e, hprog⟩ : ∃ e, (Damaru.Event.message client user event body).prog = throw e :=
    handle_of_not_accepts hnot
  unfold Step at h
  rw [hprog] at h
  exact h.each (R := fun s s' => s' = s) (fun _ => rfl) (fun _ _ _ h h' => h'.trans h) trivial

/-- Code that awaits nothing has one outcome. -/
theorem settles_sync {f : Server → Except Rejection Unit × Server} {allowed : Rejection → Prop}
    {s s' : Server} (h : Pool.Settles allowed (sync f) s s') : s' = (f s).2 := by
  obtain ⟨r, hr, -⟩ := h.ends Prog.forkFree_op
  rw [ends_sync.1 hr]

/-- Emitting on a socket, if there is one, forwards to that socket only. -/
theorem forwards_emit (event : Event) {found : Option Socket} {payload : List (String × JsVal)}
    {s s' : Server} (hs : s'.emitted = s.emitted) (socket : Socket) :
    Forwards event socket s (emit found event.name payload s') ↔ found = some socket := by
  unfold Forwards
  cases found with
  | none => simp [emit, hs]
  | some found => simp [emit, hs]

/-- An event is forwarded exactly if the gateway accepts the message and a
socket is registered under its key, and to that socket. No table is read. -/
theorem forwards_iff {client : Socket} {user : JwtToken} {event : Event} {body : Json}
    {s s' : Server} (hevent : event.Forwarded) (h : Step s (.message client user event body) s')
    (socket : Socket) :
    Forwards event socket s s' ↔
      accepts user event body = true ∧ get s.connections (target event body) = some socket := by
  cases hacc : accepts user event body with
  | false =>
    rw [step_of_not_accepts h hacc]
    simp [Forwards]
  | true =>
    have hprog : (Damaru.Event.message client user event body).prog = run client user body event :=
      handle_of_accepts hacc
    unfold Step at h
    rw [hprog] at h
    rw [and_iff_right rfl]
    cases event with
    | Offer =>
      have hs := settles_sync h
      have htarget : target .Offer body = body.get? "deviceId" := rfl
      rw [hs, htarget]
      cases get s.connections (body.get? "deviceId") with
      | none => simp [Forwards]
      | some found => exact forwards_emit .Offer rfl socket
    | IceCandidate =>
      have htarget : target .IceCandidate body =
          if (body.get? "isEmulator").truthy then body.get? "clientId" else body.get? "deviceId" := by
        simp [target]
      rw [settles_sync h, htarget]
      exact forwards_emit .IceCandidate rfl socket
    | Disconnect =>
      have htarget : target .Disconnect body = body.get? "deviceId" := rfl
      rw [settles_sync h, htarget]
      exact forwards_emit .Disconnect rfl socket
    | _ => exact hevent.elim

/-! ## Registering -/

/-- The message registers the client's socket under the key. -/
def Registers (client : Socket) (key : JsVal) : Damaru.Event → Prop
  | .message c user .StartStreaming body => c = client ∧
    accepts user .StartStreaming body = true ∧ body.get? "deviceId" = key
  | .message c user .Offer body => c = client ∧
    accepts user .Offer body = true ∧ user.accountId.map Json.str = key
  | _ => False

theorem get_mem {connections : List (JsVal × Socket)} {key : JsVal} {socket : Socket}
    (h : get connections key = some socket) : (key, socket) ∈ connections := by
  obtain ⟨c, hc, rfl⟩ := Option.map_eq_some_iff.1 h
  have hkey := List.find?_some hc
  rw [JsVal.eq_of_sameKey hkey]
  exact List.mem_of_find?_eq_some hc

theorem mem_set {connections : List (JsVal × Socket)} {key : JsVal} {client : Socket}
    {c : JsVal × Socket} (h : c ∈ set connections key client) :
    c ∈ connections ∨ c = (key, client) := by
  unfold set at h
  split at h
  · obtain ⟨c', hc', rfl⟩ := List.mem_map.1 h
    split
    · rename_i hkey
      exact .inr (by rw [JsVal.eq_of_sameKey hkey])
    · exact .inl hc'
  · rcases List.mem_append.1 h with h | h
    · exact .inl h
    · exact .inr (List.mem_singleton.1 h)

/-- Starting to stream registers the socket under the device, and no other. -/
theorem each_startStreaming {c : Socket} {user : JwtToken} {body : Json} :
    (run c user body .StartStreaming).Each fun s s' =>
      ∀ r ∈ s'.connections, r ∈ s.connections ∨ r = (body.get? "deviceId", c) := by
  show (handleStartStreaming c (body.get? "deviceId")).Each _
  unfold handleStartStreaming
  split
  · refine (each_sync fun s r hr => mem_set hr).bind fun _ => ?_
    refine Prog.Each.bind ?_ fun _ => trivial
    have hupdate : (EmulatorService.update (body.get? "deviceId")
        (.obj [("status", .str EmulatorStatus.online.text)]) none).Each
          (Writes [.columns (.obj [("status", .str EmulatorStatus.online.text)])]) :=
      EmulatorService.each_update List.mem_cons_self
    refine hupdate.mono fun s s' hw r hr => ?_
    rw [hw.connections.resolve_right (by simp)] at hr
    exact .inl hr
  · exact trivial

/-- The step lemma: a socket that was not registered before has been
registered by a message of its own. -/
theorem registers_of_step {key : JsVal} {client : Socket} {s s' : Server} {e : Damaru.Event}
    (h : Step s e s') (hs : (key, client) ∉ s.connections) (hs' : (key, client) ∈ s'.connections) :
    Registers client key e := by
  have hframe : Kind.sockets ∉ e.kinds → Registers client key e := by
    intro hkind
    have heq := h.each (R := fun s s' => s'.connections = s.connections) (fun _ => rfl)
      (fun a b c (hab : b.connections = a.connections) (hbc : c.connections = b.connections) =>
        hbc.trans hab)
      (e.each_prog.mono fun s s' hw => hw.connections.resolve_right hkind)
    exact absurd (heq ▸ hs') hs
  cases e with
  | message c user event body =>
    cases hacc : accepts user event body with
    | false =>
      rw [step_of_not_accepts h hacc] at hs'
      exact absurd hs' hs
    | true =>
      have hprog : (Damaru.Event.message c user event body).prog = run c user body event :=
        handle_of_accepts hacc
      unfold Step at h
      rw [hprog] at h
      cases event with
      | StartStreaming =>
        have hmem := h.each (R := fun s s' =>
          ∀ r ∈ s'.connections, r ∈ s.connections ∨ r = (body.get? "deviceId", c))
          (fun _ _ hr => .inl hr)
          (fun _ _ _ h h' r hr => (h' r hr).elim (h r) .inr) each_startStreaming
        obtain ⟨rfl, rfl⟩ := Prod.mk.inj ((hmem _ hs').resolve_left hs)
        exact ⟨rfl, hacc, rfl⟩
      | Offer =>
        have hs'' := settles_sync h
        rw [hs''] at hs'
        cases hget : get s.connections (body.get? "deviceId") with
        | none =>
          simp only [hget] at hs'
          exact absurd hs' hs
        | some found =>
          simp only [hget, emit_connections] at hs'
          obtain ⟨rfl, rfl⟩ := Prod.mk.inj ((mem_set hs').resolve_left hs)
          exact ⟨rfl, hacc, rfl⟩
      | _ => exact hframe (by simp [Damaru.Event.kinds, Event.kinds])
  | http user req =>
    refine hframe fun hkind => ?_
    have hmem := (Damaru.Event.kinds_http hkind).2
    cases req <;> simp [HttpRequest.kinds] at hmem
  | disconnect c => exact hframe (by simp [Damaru.Event.kinds])
  | login dto => exact hframe (by simp [Damaru.Event.kinds])

/-- The run lemma: every socket that a run finds registered has registered
itself earlier in the run. -/
theorem registered_origin {s₀ s : Server} {steps : List (Server × Damaru.Event × Server)}
    (hstart : s₀.connections = []) (hrun : Trace Step s₀ steps s) {key : JsVal} {socket : Socket}
    (h : get s.connections key = some socket) : ∃ x ∈ steps, Registers socket key x.2.1 := by
  obtain ⟨x, hx, hstep, hbefore, hafter⟩ := hrun.origin (P := fun s => (key, socket) ∈ s.connections)
    (by rw [hstart]; exact List.not_mem_nil) (get_mem h)
  exact ⟨x, hx, registers_of_step hstep hbefore hafter⟩

/-! ## Connecting -/

/-- What `Connect` adds: a connection of an assignment of the account, in
whose name the message speaks, to a link of the device, in force or not. -/
def Connected (body : Json) (t t' : Tables) : Prop :=
  ∃ a ∈ t.accountEmulators, (body.get? "clientId").selects a.account = true ∧
    (body.get? "deviceId").selects ((t.userEmulator? a.userEmulator).bind UserEmulators.device) = true ∧
    ∃ c : EmulatorConnections, c.accountEmulators = some a.id ∧
      t' = { t with emulatorConnections := t.emulatorConnections ++ [c] }

theorem connect_step {client : Socket} {user : JwtToken} {body : Json} {s s' : Server}
    (h : Step s (.message client user .Connect body) s') :
    s'.tables = s.tables ∨ Connected body s.tables s'.tables := by
  cases hacc : accepts user .Connect body with
  | false =>
    rw [step_of_not_accepts h hacc]
    exact .inl rfl
  | true =>
    have hprog : (Damaru.Event.message client user .Connect body).prog =
        EmulatorService.connectEmulator (body.get? "clientId") (body.get? "deviceId") :=
      handle_of_accepts hacc
    unfold Step at h
    rw [hprog] at h
    have hpost : (EmulatorService.connectEmulator (body.get? "clientId") (body.get? "deviceId")).Post s
        fun r s' => (∀ e, r = .error e → True) →
          s'.tables = s.tables ∨ Connected body s.tables s'.tables := by
      refine Repository.post_findRow_bind (fun a ha hp => ?_) fun _ => .throw fun _ => .inl rfl
      obtain ⟨hdevice, hclient⟩ := Bool.and_eq_true_iff.1 hp
      refine Repository.post_insert_bind (fun x c hc hi => .pure fun _ => .inr ?_)
        fun _ _ _ _ => .inl rfl
      refine ⟨a, ha, hclient, hdevice, c, ?_, rfl⟩
      cases hc
      rfl
    refine hpost.settles (I := fun s' => s'.tables = s.tables ∨ Connected body s.tables s'.tables)
      (Prog.forkFree_op.bind fun found => ?_) h
    cases found with
    | none => exact trivial
    | some a => exact Prog.forkFree_op.bind fun _ => trivial

end SignalingServerGateway

/-! ## The claim on a run -/

/-- What the request broadcasts. -/
def restartEmission (deviceName : String) : Emission :=
  ⟨.room "emulatorAdmin", "restart", [("deviceName", some (.str deviceName))]⟩

/-- Everything that has been emitted is of the given kind. -/
def Emits (P : Emission → Prop) (s s' : Server) : Prop :=
  ∃ l, s'.emitted = s.emitted ++ l ∧ ∀ m ∈ l, P m

namespace Emits

variable {P : Emission → Prop}

theorem of_eq {s s' : Server} (h : s'.emitted = s.emitted) : Emits P s s' :=
  ⟨[], by rw [h, List.append_nil], fun _ hm => (List.not_mem_nil hm).elim⟩

theorem trans {a b c : Server} (hab : Emits P a b) (hbc : Emits P b c) : Emits P a c := by
  obtain ⟨l, hl, hP⟩ := hab
  obtain ⟨l', hl', hP'⟩ := hbc
  exact ⟨l ++ l', by rw [hl', hl, List.append_assoc],
    fun m hm => (List.mem_append.1 hm).elim (hP m) (hP' m)⟩

/-- Steps that emit nothing, or only what the property allows. -/
theorem of_writes {ks : List Kind} (hP : .emissions ∈ ks → ∀ m, P m) {s s' : Server}
    (hw : Writes ks s s') : Emits P s s' := by
  obtain ⟨l, hl, hk⟩ := hw.emitted
  refine ⟨l, hl, fun m hm => ?_⟩
  rcases hk with rfl | hk
  · exact (List.not_mem_nil hm).elim
  · exact hP hk m

theorem of_step {e : Event} (hP : .emissions ∈ e.kinds → ∀ m, P m) {s s' : Server}
    (h : Step s e s') : Emits P s s' :=
  h.each (R := Emits P) (fun _ => of_eq rfl) (fun _ _ _ => trans)
    (e.each_prog.mono fun _ _ => of_writes hP)

end Emits

/-- The emission goes to one socket. -/
def Emission.ToSocket (m : Emission) : Prop := ∃ socket, m.recipient = .socket socket

namespace SignalingServerGateway

theorem emits_emit (found : Option Socket) (name : String) (payload : List (String × JsVal))
    {s s' : Server} (hs : s'.emitted = s.emitted) :
    Emits Emission.ToSocket s (emit found name payload s') := by
  refine ⟨_, by rw [emit_emitted, hs], fun m hm => ?_⟩
  obtain ⟨socket, -, rfl⟩ := List.mem_map.1 hm
  exact ⟨socket, rfl⟩

/-- A message is answered or forwarded to sockets. -/
theorem each_toSocket (client : Socket) (user : JwtToken) (body : Json) (event : Event) :
    (run client user body event).Each (Emits Emission.ToSocket) := by
  cases event with
  | Offer =>
    refine each_sync fun s => ?_
    dsimp only
    split
    · exact .of_eq rfl
    · exact emits_emit _ _ _ rfl
  | Answer =>
    show (handleAnswer (body.get? "clientId") (body.get? "sdp")).Each _
    unfold handleAnswer
    split
    · exact each_sync fun s => emits_emit _ _ _ rfl
    · exact trivial
  | IceCandidate => exact each_sync fun s => emits_emit _ _ _ rfl
  | Disconnect => exact each_sync fun s => emits_emit _ _ _ rfl
  | StartStreaming =>
    exact (each_run client user body _).mono fun _ _ => .of_writes (by simp [Event.kinds])
  | Connect =>
    exact (each_run client user body _).mono fun _ _ => .of_writes (by simp [Event.kinds])

theorem message_step {client : Socket} {user : JwtToken} {event : Event} {body : Json}
    {s s' : Server} (h : Step s (.message client user event body) s') :
    Emits Emission.ToSocket s s' := by
  cases hacc : accepts user event body with
  | false =>
    rw [step_of_not_accepts h hacc]
    exact .of_eq rfl
  | true =>
    have hprog : (Damaru.Event.message client user event body).prog = run client user body event :=
      handle_of_accepts hacc
    unfold Step at h
    rw [hprog] at h
    exact h.each (R := Emits Emission.ToSocket) (fun _ => .of_eq rfl) (fun _ _ _ => Emits.trans)
      (each_toSocket client user body event)

end SignalingServerGateway

theorem restart_step {user : JwtToken} {deviceName : String} {s s' : Server}
    (h : Step s (.http user (.emulators_restartEmulator deviceName)) s') :
    s'.emitted = s.emitted ++ [restartEmission deviceName] := by
  refine h.of_post (I := fun s' => s'.emitted = s.emitted ++ [restartEmission deviceName]) rfl ?_ ?_
  · exact Prog.forkFree_op.bind fun _ => trivial
  · exact post_sync_bind (fun _ _ => .pure rfl) fun _ he => nomatch he

/-- A broadcast is asked for by a request, which names the device, or follows
the end of a connection. -/
def Broadcasts (e : Event) (m : Emission) : Prop :=
  (∃ user deviceName, e = .http user (.emulators_restartEmulator deviceName) ∧
    m = restartEmission deviceName) ∨ ∃ client, e = .disconnect client

theorem broadcast_step {e : Event} {s s' : Server} (h : Step s e s') :
    Emits (fun m => m.ToSocket ∨ Broadcasts e m) s s' := by
  cases e with
  | message client user event body =>
    obtain ⟨l, hl, hsocket⟩ := SignalingServerGateway.message_step h
    exact ⟨l, hl, fun m hm => .inl (hsocket m hm)⟩
  | http user req =>
    cases req with
    | emulators_restartEmulator deviceName =>
      refine ⟨[restartEmission deviceName], restart_step h, fun m hm => .inr (.inl ?_)⟩
      exact ⟨user, deviceName, rfl, List.mem_singleton.1 hm⟩
    | _ =>
      refine .of_step (fun hk => ?_) h
      have hmem := (Event.kinds_http hk).2
      simp [HttpRequest.kinds] at hmem
  | disconnect client => exact .of_step (fun _ m => .inr (.inr ⟨client, rfl⟩)) h
  | login dto => exact .of_step (fun hk => by simp [Event.kinds] at hk) h

open SignalingServerGateway in
/-- **Who reaches a device.** In every run, an event is forwarded exactly if
the token passes its guard and a socket is registered under the key of the
payload, which has registered itself under that key earlier in the run; a
restart is broadcast only on request, or when a connection ends; and a
connection is recorded only for an assignment of the payload's account to a
link of the payload's device. -/
theorem device_access {s₀ s : Server} {steps : List (Server × Damaru.Event × Server)}
    (hstart : s₀.connections = []) (hrun : Trace Step s₀ steps s) :
    (∀ client user event body s', event.Forwarded → Step s (.message client user event body) s' →
      ∀ socket,
        (Forwards event socket s s' ↔
          accepts user event body = true ∧ get s.connections (target event body) = some socket) ∧
        (Forwards event socket s s' → ∃ x ∈ steps, Registers socket (target event body) x.2.1)) ∧
    (∀ e s', Step s e s' → Emits (fun m => m.ToSocket ∨ Broadcasts e m) s s') ∧
    (∀ client user body s', Step s (.message client user .Connect body) s' →
      s'.tables = s.tables ∨ Connected body s.tables s'.tables) := by
  refine ⟨fun client user event body s' hevent h socket => ?_, fun _ _ h => broadcast_step h,
    fun _ _ _ _ h => connect_step h⟩
  have hiff := forwards_iff hevent h socket
  exact ⟨hiff, fun hfwd => registered_origin hstart hrun (hiff.1 hfwd).2⟩

/-- The account of the token is assigned to an active link of the device, or
the token is an admin's whose user the device is actively linked to. -/
def Tables.Permits (t : Tables) (user : JwtToken) (d : String) : Prop :=
  (∃ a ∈ t.accountEmulators, a.account.isSome = true ∧ a.account = user.accountId ∧
    ∃ l ∈ t.userEmulators, a.userEmulator = some l.id ∧ l.active = true ∧ l.device = some d) ∨
  (user.subRole = some .AndroidAdmin ∧
    ∃ l ∈ t.userEmulators, l.active = true ∧ l.device = some d ∧ l.user = some user.sub)

instance (t : Tables) (user : JwtToken) (d : String) : Decidable (t.Permits user d) :=
  inferInstanceAs (Decidable (_ ∨ _))

/-- The device of the second user starts streaming. -/
def Sample.streaming : List (Event × List Ext) :=
  [(.message ⟨"device"⟩ emulatorAdmin .StartStreaming (.obj [("deviceId", .str "e")]),
    ["", ""].map input)]

theorem device_access_streaming :
    ∃ steps s, Trace Step Sample.seeded steps s ∧
      SignalingServerGateway.get s.connections (some (.str "e")) = some ⟨"device"⟩ ∧
      ∀ client user event body s', SignalingServerGateway.Event.Forwarded event →
        Step s (.message client user event body) s' → ∀ socket,
        SignalingServerGateway.Forwards event socket s s' →
          ∃ x ∈ steps, SignalingServerGateway.Registers socket
            (SignalingServerGateway.target event body) x.2.1 := by
  have hrun : (playAll (Sample.history ++ Sample.streaming) Sample.seeded).any (fun s =>
      decide (SignalingServerGateway.get s.connections (some (.str "e")) = some ⟨"device"⟩)) = true := by
    decide +kernel
  obtain ⟨s, hs, hget⟩ := (Option.any_eq_true _ _).1 hrun
  obtain ⟨steps, hsteps⟩ := trace_of_playAll .nil hs
  refine ⟨steps, s, hsteps, of_decide_eq_true hget, fun client user event body s' hevent h socket => ?_⟩
  exact ((device_access rfl hsteps).1 client user event body s' hevent h socket).2

/-- A client of one user reaches the device of another. -/
theorem device_access_unchecked :
    ¬ ∀ (s s' : Server) (user : JwtToken), Reachable s → user.role = .AndroidUser →
      (∀ client event body socket d, SignalingServerGateway.Event.Forwarded event →
        Step s (.message client user event body) s' →
        SignalingServerGateway.Forwards event socket s s' →
        body.get? "deviceId" = some (.str d) → s.tables.Permits user d) ∧
      (∀ e ∈ s.tables.emulators, ∀ name, e.device_name = some name →
        Step s (.http user (.emulators_restartEmulator name)) s' →
        s.tables.Permits user e.device_id) := by
  intro hall
  let user := Sample.androidAdmin "u" "u-root"
  let body : Json := .obj [("deviceId", .str "e"), ("sdp", .str "sdp")]
  have hrun : (playAll (Sample.history ++ Sample.streaming) Sample.seeded).any (fun s =>
      decide (SignalingServerGateway.get s.connections (some (.str "e")) = some ⟨"device"⟩) &&
        (decide (¬ s.tables.Permits user "e") &&
          ((Event.message ⟨"client"⟩ user .Offer body).play ([""].map Sample.input) s).isSome)) =
        true := by
    decide +kernel
  obtain ⟨s, hs, hrun⟩ := (Option.any_eq_true _ _).1 hrun
  obtain ⟨hget, hrun⟩ := Bool.and_eq_true_iff.1 hrun
  obtain ⟨hnot, hplay⟩ := Bool.and_eq_true_iff.1 hrun
  obtain ⟨s', hs'⟩ := Option.isSome_iff_exists.1 hplay
  have hstep := Event.step_of_play hs'
  have hoffer : SignalingServerGateway.Event.Forwarded .Offer := trivial
  have hforwards : SignalingServerGateway.Forwards .Offer ⟨"device"⟩ s s' :=
    (SignalingServerGateway.forwards_iff hoffer hstep _).2 ⟨by decide, of_decide_eq_true hget⟩
  exact of_decide_eq_true hnot ((hall s s' user (Sample.reachable hs) rfl).1 ⟨"client"⟩ .Offer body
    ⟨"device"⟩ "e" hoffer hstep hforwards rfl)

end Damaru
