import Damaru.Verify.Attribution
import Damaru.Verify.Routing

/-!
# The gateway is a relay

What the gateway is for, on its own terms: it remembers which socket has
registered last under which key, and passes each message on to one of them. The
server refines this relay however the threads of all its events take turns.
Nothing that the database does, or when, changes what a socket receives.
-/

namespace Damaru

open Async Table

namespace SignalingServerGateway

/-! ## The relay -/

/-- The key whose socket a message is passed on to, and what is passed on. -/
def relay (user : JwtToken) (body : Json) : Event → Option (JsVal × List (String × JsVal))
  | .Offer => some (body.get? "deviceId",
      [("sdp", body.get? "sdp"), ("clientId", user.accountId.map Json.str)])
  | .Answer =>
    if (body.get? "clientId").truthy then some (body.get? "clientId", [("sdp", body.get? "sdp")])
    else none
  | .IceCandidate => some
      (if (body.get? "isEmulator").truthy then body.get? "clientId" else body.get? "deviceId",
      [("iceCandidate", body.get? "iceCandidate"), ("clientId", body.get? "clientId"),
        ("deviceId", body.get? "deviceId"), ("isEmulator", body.get? "isEmulator")])
  | .Disconnect => some (body.get? "deviceId", [("clientId", body.get? "clientId")])
  | _ => none

/-- What an event makes the relay emit, where `find` finds sockets. -/
def relayed (find : JsVal → Option Socket) : Damaru.Event → List Emission
  | .message _ user event body =>
    if accepts user event body then
      match relay user body event with
      | none => []
      | some (key, payload) => (find key).toList.map (emission event payload)
    else []
  | _ => []

/-- The registrations so far, and what sockets have been sent. -/
structure Relay where
  log : List Registration
  sent : List Emission

namespace Relay

def find (r : Relay) (key : JsVal) : Option Socket := lastRegistered r.log key

/-- A device registers when it starts streaming, a client when it makes an offer
to a device that is found. -/
def registers (r : Relay) : Damaru.Event → Option Registration
  | .message client user .StartStreaming body =>
    if accepts user .StartStreaming body && (body.get? "deviceId").truthy then
      some ⟨.StartStreaming, body.get? "deviceId", client⟩
    else none
  | .message client user .Offer body =>
    if accepts user .Offer body && (r.find (body.get? "deviceId")).isSome then
      some ⟨.Offer, user.accountId.map Json.str, client⟩
    else none
  | _ => none

def next (r : Relay) (e : Damaru.Event) : Relay :=
  ⟨r.log ++ (r.registers e).toList, r.sent ++ relayed r.find e⟩

/-- The relay after some events. -/
def after (es : List Damaru.Event) : Relay := es.foldl next ⟨[], []⟩

end Relay

/-! ## What the server announces -/

/-- The emission asks the emulator admins to restart a device: on request, or
because a socket has gone. -/
structure Announces (e : Damaru.Event) (m : Emission) : Prop where
  recipient : m.recipient = .room "emulatorAdmin"
  event : m.event = "restart"
  asked : (∃ user deviceName, e = .http user (.emulators_restartEmulator deviceName) ∧
    m.payload = [("deviceName", some (.str deviceName))]) ∨ ∃ client, e = .disconnect client

/-- A step that leaves the map alone, and emits announcements only. -/
structure Quiet (e : Damaru.Event) (s s' : Server) : Prop where
  connections : s'.connections = s.connections
  emitted : ∃ l, s'.emitted = s.emitted ++ l ∧ ∀ m ∈ l, Announces e m

theorem Quiet.of_eq {e : Damaru.Event} {s s' : Server} (hc : s'.connections = s.connections)
    (hm : s'.emitted = s.emitted) : Quiet e s s' :=
  ⟨hc, [], by rw [hm, List.append_nil], fun _ h => (List.not_mem_nil h).elim⟩

theorem Quiet.of_writes {e : Damaru.Event} {ks : List Kind} (hs : Kind.sockets ∉ ks) (hm : Kind.emissions ∉ ks)
    {s s' : Server} (hw : Writes ks s s') : Quiet e s s' := by
  obtain ⟨l, hl, hk⟩ := hw.emitted
  refine .of_eq (hw.connections.resolve_right hs) ?_
  rw [hl, hk.resolve_right hm, List.append_nil]

/-! ## Arrivals -/

/-- What an event does when it comes, and what is left of it. -/
structure Arrives (e : Damaru.Event) (s s' : Server) (t : Task Ext Server Rejection) : Prop where
  connections : s'.connections = register s.connections (registration s e)
  emitted : s'.emitted = s.emitted ++ relayed (get s.connections) e
  rest : t.Each (Quiet e)

variable {e : Damaru.Event} {s : Server}

/-- An event that begins with a call of the database. -/
theorem arrives_later (hatOnce : e.atOnce = false) (hregistration : registration s e = none)
    (hrelayed : relayed (get s.connections) e = []) (heach : e.prog.Each (Quiet e)) (x : Ext) :
    Arrives e s (e.start x s).1 (e.start x s).2 := by
  have hstart : e.start x s = (s, e.prog.toTask) := by
    unfold Damaru.Event.start
    rw [hatOnce]
    cases e.prog.toTask <;> rfl
  rw [hstart]
  refine ⟨?_, ?_, heach.toTask⟩
  · rw [hregistration]
    rfl
  · rw [hrelayed, List.append_nil]

/-- A message that the gateway handles at once, but for what follows. -/
theorem arrives_sync {α : Type} {f : Server → Except Rejection α × Server} {g : α → Svc Unit}
    (hatOnce : e.atOnce = true) (hprog : e.prog = sync f >>= g) (hg : ∀ a, (g a).Each (Quiet e))
    (hconnections : (f s).2.connections = register s.connections (registration s e))
    (hemitted : (f s).2.emitted = s.emitted ++ relayed (get s.connections) e) (x : Ext) :
    Arrives e s (e.start x s).1 (e.start x s).2 := by
  have htask : e.prog.toTask = .await (fun _ s => (f s).2)
      fun _ s => ((Prog.ofExcept (f s).1 : Svc α) >>= g).toTask := by
    rw [hprog]
    rfl
  rw [Damaru.Event.start_of_await hatOnce htask]
  exact ⟨hconnections, hemitted, ((Prog.each_ofExcept _).bind hg).toTask⟩

/-- A message that makes the gateway do nothing. -/
theorem arrives_idle {o : Except Rejection Unit} (hprog : e.prog = Prog.ofExcept o)
    (hregistration : registration s e = none) (hrelayed : relayed (get s.connections) e = []) (x : Ext) :
    Arrives e s (e.start x s).1 (e.start x s).2 := by
  have hstart : e.start x s = (s, (Prog.ofExcept o : Svc Unit).toTask) := by
    unfold Damaru.Event.start
    rw [hprog]
    cases o <;> rfl
  rw [hstart]
  refine ⟨?_, ?_, (Prog.each_ofExcept o).toTask⟩
  · rw [hregistration]
    rfl
  · rw [hrelayed, List.append_nil]

section Messages

variable {client : Socket} {user : JwtToken} {body : Json}

theorem relayed_of_accepts {find : JsVal → Option Socket} {event : Event} {key : JsVal}
    {payload : List (String × JsVal)} (hacc : accepts user event body = true)
    (hrelay : relay user body event = some (key, payload)) :
    relayed find (.message client user event body) = (find key).toList.map (emission event payload) := by
  simp only [relayed, hacc, hrelay, if_true]

theorem relayed_of_none {find : JsVal → Option Socket} {event : Event}
    (hrelay : relay user body event = none) : relayed find (.message client user event body) = [] := by
  simp only [relayed, hrelay, ite_self]

/-- A message that is emitted on a socket that is found. -/
theorem arrives_emit {event : Event} {key : JsVal} {payload : List (String × JsVal)}
    (hacc : accepts user event body = true) (hrelay : relay user body event = some (key, payload))
    (hatOnce : (Damaru.Event.message client user event body).atOnce = true)
    (hrun : run client user body event =
      sync fun s => (.ok (), emit (get s.connections key) event.name payload s))
    (hregistration : registration s (.message client user event body) = none) (x : Ext) :
    Arrives (.message client user event body) s
      ((Damaru.Event.message client user event body).start x s).1
      ((Damaru.Event.message client user event body).start x s).2 := by
  have hprog : (Damaru.Event.message client user event body).prog =
      (sync fun s => (.ok (), emit (get s.connections key) event.name payload s)) >>= pure :=
    ((handle_of_accepts hacc).trans hrun).trans (bind_pure _).symm
  refine arrives_sync hatOnce hprog (fun _ => trivial) ?_ ?_ x
  · rw [hregistration]
    exact emit_connections _ _ _ _
  · rw [relayed_of_accepts hacc hrelay]
    exact emit_emitted _ _ _ _

theorem arrives_startStreaming (hacc : accepts user .StartStreaming body = true) (x : Ext) :
    Arrives (.message client user .StartStreaming body) s
      ((Damaru.Event.message client user .StartStreaming body).start x s).1
      ((Damaru.Event.message client user .StartStreaming body).start x s).2 := by
  have hprog : (Damaru.Event.message client user .StartStreaming body).prog =
      handleStartStreaming client (body.get? "deviceId") := handle_of_accepts hacc
  cases hid : (body.get? "deviceId").truthy with
  | true =>
    unfold handleStartStreaming at hprog
    rw [if_pos hid] at hprog
    refine arrives_sync rfl hprog (fun _ => ?_) ?_ ?_ x
    · have hupdate : (EmulatorService.update (body.get? "deviceId")
          (.obj [("status", .str EmulatorStatus.online.text)]) none).Each
            (Writes [.columns (.obj [("status", .str EmulatorStatus.online.text)])]) :=
        EmulatorService.each_update List.mem_cons_self
      exact (hupdate.mono fun _ _ => Quiet.of_writes (by simp) (by simp)).bind fun _ => trivial
    · simp [registration, register, hacc, hid]
    · rw [relayed_of_none rfl, List.append_nil]
  | false =>
    unfold handleStartStreaming at hprog
    rw [if_neg (by simp [hid])] at hprog
    exact arrives_idle (o := .ok ()) hprog (by simp [registration, hid]) (relayed_of_none rfl) x

theorem arrives_offer (hacc : accepts user .Offer body = true) (x : Ext) :
    Arrives (.message client user .Offer body) s
      ((Damaru.Event.message client user .Offer body).start x s).1
      ((Damaru.Event.message client user .Offer body).start x s).2 := by
  have hprog : (Damaru.Event.message client user .Offer body).prog =
      handleOffer client user (body.get? "deviceId") (body.get? "sdp") >>= pure :=
    (handle_of_accepts hacc).trans (bind_pure _).symm
  refine arrives_sync rfl hprog (fun _ => trivial) ?_ ?_ x
  · cases hget : get s.connections (body.get? "deviceId") with
    | none => simp [registration, register, hget]
    | some found => simp [registration, register, hget, hacc, emit_connections]
  · rw [relayed_of_accepts hacc rfl]
    cases get s.connections (body.get? "deviceId") with
    | none => exact (List.append_nil _).symm
    | some found => rfl

/-- Messages. -/
theorem arrives_message (event : Event) (x : Ext) : Arrives (.message client user event body) s
    ((Damaru.Event.message client user event body).start x s).1
    ((Damaru.Event.message client user event body).start x s).2 := by
  cases hacc : accepts user event body with
  | false =>
    obtain ⟨err, hprog⟩ : ∃ err, (Damaru.Event.message client user event body).prog = throw err :=
      handle_of_not_accepts hacc
    refine arrives_idle (o := .error err) hprog ?_ ?_ x
    · cases event <;> simp [registration, hacc]
    · simp [relayed, hacc]
  | true =>
    cases event with
    | StartStreaming => exact arrives_startStreaming hacc x
    | Offer => exact arrives_offer hacc x
    | Answer =>
      cases hid : (body.get? "clientId").truthy with
      | true => exact arrives_emit hacc (if_pos hid) rfl (if_pos hid) rfl x
      | false =>
        have hnot : ¬ (body.get? "clientId").truthy = true := by simp [hid]
        have hprog : (Damaru.Event.message client user .Answer body).prog = pure () :=
          (handle_of_accepts hacc).trans (if_neg hnot)
        exact arrives_idle (o := .ok ()) hprog rfl (relayed_of_none (if_neg hnot)) x
    | IceCandidate => exact arrives_emit hacc rfl rfl rfl rfl x
    | Disconnect => exact arrives_emit hacc rfl rfl rfl rfl x
    | Connect =>
      refine arrives_later rfl rfl (relayed_of_none rfl) ?_ x
      exact (Damaru.Event.each_prog _).mono fun _ _ =>
        Quiet.of_writes (by simp [Damaru.Event.kinds, Event.kinds]) (by simp [Damaru.Event.kinds, Event.kinds])

end Messages

/-! ## Requests and the ends of sockets -/

theorem quiet_restart {user : JwtToken} {deviceName : String} :
    (EmulatorService.restart deviceName).Each (Quiet (.http user (.emulators_restartEmulator deviceName))) := by
  refine each_sync fun s => ⟨rfl, _, rfl, fun m hm => ?_⟩
  rw [List.mem_singleton.1 hm]
  exact ⟨rfl, rfl, .inl ⟨user, deviceName, rfl, rfl⟩⟩

theorem quiet_disconnectEmulator {client : Socket} (clientId : JsVal) :
    (EmulatorService.disconnectEmulator clientId).Each (Quiet (.disconnect client)) := by
  have hrefl : ∀ s : Server, Quiet (.disconnect client) s s := fun s => .of_eq rfl rfl
  refine (Repository.each_findReadable hrefl).bind fun found => ?_
  cases found with
  | some device =>
    refine Prog.Each.bind ?_ fun _ => each_sync fun s => ⟨rfl, _, rfl, fun m hm => ?_⟩
    · have hset : (emulatorRepository.set clientId fun _ e => { e with status := .offline }).Each
          (Writes [.emulatorFields]) :=
        EmulatorService.each_setFields (fun _ _ => ⟨rfl, rfl⟩) List.mem_cons_self
      exact hset.mono fun _ _ => Quiet.of_writes (by simp) (by simp)
    · rw [List.mem_singleton.1 hm]
      exact ⟨rfl, rfl, .inr ⟨client, rfl⟩⟩
  | none =>
    refine (Repository.each_findReadable hrefl).bind fun connection => ?_
    cases connection with
    | none => exact trivial
    | some c =>
      exact (Repository.each_update hrefl (fun _ _ _ _ _ => .of_eq rfl rfl) fun _ _ => .of_eq rfl rfl).bind
        fun _ => trivial

theorem quiet_http (user : JwtToken) (req : HttpRequest) :
    (Damaru.Event.http user req).prog.Each (Quiet (.http user req)) := by
  by_cases hrestarts : ∃ deviceName, req = .emulators_restartEmulator deviceName
  · obtain ⟨deviceName, rfl⟩ := hrestarts
    exact Prog.Each.bind (Prog.Each.bind quiet_restart fun _ => trivial) fun _ => trivial
  · refine (Damaru.Event.each_prog _).mono fun _ _ => Quiet.of_writes (fun hk => ?_) fun hk => ?_
    · have hreq := (Damaru.Event.kinds_http hk).2
      cases req <;> simp [HttpRequest.kinds] at hreq
    · have hreq := (Damaru.Event.kinds_http hk).2
      cases req with
      | emulators_restartEmulator deviceName => exact hrestarts ⟨deviceName, rfl⟩
      | _ => simp [HttpRequest.kinds] at hreq

/-- The spec of an arrival. -/
theorem arrives (e : Damaru.Event) (x : Ext) (s : Server) : Arrives e s (e.start x s).1 (e.start x s).2 := by
  cases e with
  | http user req => exact arrives_later rfl rfl rfl (quiet_http user req) x
  | message client user event body => exact arrives_message event x
  | disconnect client =>
    have hstart : ∀ a : List JsVal, (forM a fun clientId =>
        Prog.detach (EmulatorService.disconnectEmulator clientId) : Svc Unit).Each
          (Quiet (.disconnect client)) :=
      fun a => Prog.Each.forM (fun _ => (quiet_disconnectEmulator _).detach) a
    exact ⟨rfl, (List.append_nil _).symm, ((Prog.each_ofExcept _).bind hstart).toTask⟩
  | login dto =>
    refine arrives_later rfl rfl rfl ((Damaru.Event.each_prog _).mono fun _ _ => ?_) x
    exact Quiet.of_writes (by simp [Damaru.Event.kinds]) (by simp [Damaru.Event.kinds])

/-! ## The refinement -/

theorem Relay.registers_eq {r : Relay} (hfind : get s.connections = r.find) :
    r.registers e = registration s e := by
  cases e with
  | message client user event body => cases event <;> simp only [registers, registration, hfind]
  | _ => rfl

/-- Where the map finds what the relay does, it does so after an event too. -/
theorem Relay.find_next {r : Relay} (hfind : get s.connections = r.find) :
    get (register s.connections (registration s e)) = (r.next e).find := by
  funext key
  rw [get_register, hfind, ← registers_eq hfind]
  exact (lastRegistered_append r.log _ key).symm

theorem Relay.after_concat (es : List Damaru.Event) (e : Damaru.Event) :
    after (es ++ [e]) = (after es).next e := by
  unfold after
  rw [List.foldl_append, List.foldl_cons, List.foldl_nil]

end SignalingServerGateway

open SignalingServerGateway

/-- The emission goes to a socket, not to a room. -/
def Emission.direct (m : Emission) : Bool :=
  match m.recipient with
  | .socket _ => true
  | .room _ => false

theorem direct_of_relayed {find : JsVal → Option Socket} {e : Event} {m : Emission}
    (hm : m ∈ relayed find e) : m.direct = true := by
  cases e with
  | message client user event body =>
    cases hacc : accepts user event body with
    | false => simp [relayed, hacc] at hm
    | true =>
      cases hrelay : relay user body event with
      | none =>
        rw [relayed_of_none hrelay] at hm
        cases hm
      | some found =>
        rw [relayed_of_accepts hacc hrelay] at hm
        obtain ⟨socket, -, rfl⟩ := List.mem_map.1 hm
        rfl
  | _ => cases hm

theorem direct_of_announces {e : Event} {m : Emission} (h : Announces e m) : m.direct = false := by
  unfold Emission.direct
  rw [h.recipient]

/-- What a move does to the map and to what has been emitted. -/
def Relays (x : Gateway × Live.Move Event Ext Server Rejection × Gateway) : Prop :=
  (∃ e, x.2.1.event? = some e ∧
    x.2.2.state.connections = register x.1.state.connections (registration x.1.state e) ∧
    x.2.2.state.emitted = x.1.state.emitted ++ relayed (get x.1.state.connections) e) ∨
  (x.2.1.event? = none ∧ ∃ e, x.2.1.author = some e ∧ Quiet e x.1.state x.2.2.state)

theorem relays_moves {w₀ w : Gateway} {steps : List (Gateway × Live.Move Event Ext Server Rejection × Gateway)}
    (hstart : w₀.threads = []) (hrun : Trace (Live.Step serving) w₀ steps w) : ∀ x ∈ steps, Relays x := by
  have hturns := Live.turns_run (R := Quiet) (fun e x s => (arrives e x s).rest) hrun hstart
  intro x hx
  have hstep := hrun.forall_steps (fun _ _ _ h => h) x hx
  have hquiet := hturns x hx
  obtain ⟨w, m, w'⟩ := x
  cases hstep with
  | @arrive ts s note e input hadmits =>
    exact .inl ⟨e, rfl, (arrives e input s).connections, (arrives e input s).emitted⟩
  | turn input => exact .inr ⟨rfl, _, rfl, hquiet _ _ rfl⟩
  | aside haside => exact haside.elim

/-- The emissions of a run: those to sockets, and the announcements. -/
structure Emitted (steps : List (Gateway × Live.Move Event Ext Server Rejection × Gateway))
    (sent l : List Emission) : Prop where
  direct : l.filter Emission.direct = sent
  announced : ∀ m ∈ l, m.direct = false → ∃ x ∈ steps, ∃ e, x.2.1.author = some e ∧ Announces e m

/-- **The gateway is a relay.** However the threads of all events take turns,
what sockets have been sent is what the relay sends when the same events come
in the same order, and the map finds the sockets that the relay finds. All
other emissions are announcements. -/
theorem refines_relay {w₀ w : Gateway} {steps : List (Gateway × Live.Move Event Ext Server Rejection × Gateway)}
    (hstart : w₀.Start) (hrun : Trace (Live.Step serving) w₀ steps w) :
    get w.state.connections = (Relay.after (steps.filterMap fun x => x.2.1.event?)).find ∧
      ∃ l, w.state.emitted = w₀.state.emitted ++ l ∧
        Emitted steps (Relay.after (steps.filterMap fun x => x.2.1.event?)).sent l := by
  have hmoves := relays_moves hstart.threads hrun
  induction hrun with
  | nil =>
    refine ⟨?_, [], (List.append_nil _).symm, rfl, nofun⟩
    rw [hstart.connections]
    rfl
  | @snoc w w' m steps hprefix hlast ih =>
    obtain ⟨hfind, l, hl, hemitted⟩ := ih fun x hx => hmoves x (List.mem_append_left _ hx)
    have hkept : ∀ x ∈ steps, x ∈ steps ++ [(w, m, w')] := fun x hx => List.mem_append_left _ hx
    rw [List.filterMap_append]
    rcases hmoves (w, m, w') (List.mem_append_right _ (List.mem_singleton.2 rfl)) with
      ⟨e, he, hconnections, hrelayed⟩ | ⟨hnone, e, he, hquiet⟩
    · have hlast : [(w, m, w')].filterMap (fun x => x.2.1.event?) = [e] := by
        rw [List.filterMap_cons, he, List.filterMap_nil]
      rw [hlast, Relay.after_concat]
      refine ⟨?_, l ++ relayed (get w.state.connections) e, ?_, ?_, ?_⟩
      · rw [hconnections]
        exact Relay.find_next hfind
      · rw [hrelayed, hl, List.append_assoc]
      · rw [List.filter_append, hemitted.direct, List.filter_eq_self.2 fun m hm => direct_of_relayed hm, hfind]
        rfl
      · intro m' hm' hroom
        rcases List.mem_append.1 hm' with hm' | hm'
        · obtain ⟨x, hx, hann⟩ := hemitted.announced m' hm' hroom
          exact ⟨x, hkept x hx, hann⟩
        · rw [direct_of_relayed hm'] at hroom
          cases hroom
    · have hlast : [(w, m, w')].filterMap (fun x => x.2.1.event?) = [] := by
        rw [List.filterMap_cons, hnone, List.filterMap_nil]
      rw [hlast, List.append_nil]
      obtain ⟨l', hl', hann⟩ := hquiet.emitted
      refine ⟨by rw [hquiet.connections, hfind], l ++ l', ?_, ?_, ?_⟩
      · rw [hl', hl, List.append_assoc]
      · rw [List.filter_append, hemitted.direct, List.filter_eq_nil_iff.2 fun m hm => ?_, List.append_nil]
        rw [direct_of_announces (hann m hm)]
        exact Bool.false_ne_true
      · intro m' hm' hroom
        rcases List.mem_append.1 hm' with hm' | hm'
        · obtain ⟨x, hx, hann⟩ := hemitted.announced m' hm' hroom
          exact ⟨x, hkept x hx, hann⟩
        · exact ⟨_, List.mem_append_right _ (List.mem_singleton.2 rfl), e, he, hann m' hm'⟩

namespace Sample

/-- A device starts to stream, a client makes it an offer, and is answered before
the database knows that the device is online. -/
def handshake : List (Live.Choice Event Ext) :=
  [.arrive (startStreaming "device" "e") (input ""),
    .arrive (offer "one" (androidAdmin "v" "v-root") "e") (input ""),
    .arrive (answer "v-root") (input ""), .turn 0 (input "")]

end Sample

theorem refines_relay_sample : ∃ steps w, Trace (Live.Step serving) Sample.idle steps w ∧
    (w.state.emitted.map fun m => (m.recipient, m.event)) =
      [(.socket ⟨"device"⟩, "Offer"), (.socket ⟨"one"⟩, "Answer")] ∧
    get w.state.connections = (Relay.after (steps.filterMap fun x => x.2.1.event?)).find ∧
      ∃ l, w.state.emitted = Sample.idle.state.emitted ++ l ∧
        Emitted steps (Relay.after (steps.filterMap fun x => x.2.1.event?)).sent l := by
  have hplay : (Live.play serving (fun _ _ => true) Sample.handshake Sample.idle).any (fun w =>
      decide ((w.state.emitted.map fun m => (m.recipient, m.event)) =
        [(.socket ⟨"device"⟩, "Offer"), (.socket ⟨"one"⟩, "Answer")])) = true := by
    decide +kernel
  obtain ⟨w, hw, hsent⟩ := (Option.any_eq_true _ _).1 hplay
  obtain ⟨steps, hrun, -⟩ := Live.trace_of_play .nil hw
  exact ⟨steps, w, hrun, of_decide_eq_true hsent, refines_relay Sample.idle_start hrun⟩

end Damaru
