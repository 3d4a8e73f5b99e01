import Damaru.Verify.DeviceAccess

/-!
# Sessions of the gateway

The map of the gateway keeps a socket under a key until another one registers
under it. Beside the server a session keeps what the map does not show: the
sockets that have disconnected, and the registrations in the order in which
they were made.
-/

namespace Damaru

open Async

namespace SignalingServerGateway

/-! ## The map -/

/-- Setting a key changes what that key finds, and no other one. -/
theorem get_set (connections : List (JsVal × Socket)) (key key' : JsVal) (client : Socket) :
    get (set connections key client) key' =
      if key'.sameKey key then some client else get connections key' := by
  have hsame : ∀ k : JsVal, key'.sameKey k = true → key.sameKey k = true → key'.sameKey key = true := by
    intro k hk' hk
    rw [JsVal.eq_of_sameKey hk'] at *
    rw [JsVal.eq_of_sameKey hk]
    exact hk'
  unfold get set
  split
  · rename_i hany
    have hkeys : ∀ c : JsVal × Socket,
        (key'.sameKey (if key.sameKey c.1 then (c.1, client) else c).1) = key'.sameKey c.1 := by
      intro c
      split <;> rfl
    rw [List.find?_map]
    have hfind : (fun c : JsVal × Socket => key'.sameKey c.1) ∘
        (fun c => if key.sameKey c.1 then (c.1, client) else c) = fun c => key'.sameKey c.1 :=
      funext hkeys
    rw [hfind]
    cases hc : connections.find? fun c => key'.sameKey c.1 with
    | none =>
      rw [if_neg]
      · rfl
      · intro hkey
        obtain ⟨c, hmem, hck⟩ := List.any_eq_true.1 hany
        have hnone := List.find?_eq_none.1 hc c hmem
        rw [JsVal.eq_of_sameKey hkey] at hnone
        exact hnone hck
    | some c =>
      have hck' := List.find?_some hc
      by_cases hck : key.sameKey c.1 = true
      · rw [if_pos (hsame c.1 hck' hck)]
        simp [hck]
      · rw [if_neg]
        · simp [hck]
        · intro hkey
          rw [JsVal.eq_of_sameKey hkey] at hck'
          exact hck hck'
  · rename_i hany
    rw [List.find?_append]
    cases hc : connections.find? fun c => key'.sameKey c.1 with
    | none => cases hkey : key'.sameKey key <;> simp [hkey]
    | some c =>
      rw [if_neg]
      · rfl
      · intro hkey
        apply hany
        have hck' := List.find?_some hc
        rw [JsVal.eq_of_sameKey hkey] at hck'
        exact List.any_eq_true.2 ⟨c, List.mem_of_find?_eq_some hc, hck'⟩

/-- A string is the same key as itself. -/
@[simp] theorem sameKey_str (s t : String) :
    JsVal.sameKey (some (.str s)) (some (.str t)) = decide (s = t) := rfl

theorem forwarded_offer : Event.Forwarded .Offer := trivial

/-! ## Registrations -/

/-- A message has put its client's socket into the map. -/
structure Registration where
  event : Event
  key : JsVal
  socket : Socket

/-- What the event registers: a device's socket under the id it streams for,
or a client's under the account of its token, once the device it makes its
offer to is found. -/
def registration (s : Server) : Damaru.Event → Option Registration
  | .message client user .StartStreaming body =>
    if accepts user .StartStreaming body && (body.get? "deviceId").truthy then
      some ⟨.StartStreaming, body.get? "deviceId", client⟩
    else none
  | .message client user .Offer body =>
    if accepts user .Offer body && (get s.connections (body.get? "deviceId")).isSome then
      some ⟨.Offer, user.accountId.map Json.str, client⟩
    else none
  | _ => none

/-- The map after what an event registers. -/
def register (connections : List (JsVal × Socket)) : Option Registration → List (JsVal × Socket)
  | none => connections
  | some r => set connections r.key r.socket

theorem frame_connections {s s' : Server} {e : Damaru.Event} (h : Step s e s')
    (hkind : Kind.sockets ∉ e.kinds) : s'.connections = s.connections :=
  h.each (R := fun s s' => s'.connections = s.connections) (fun _ => rfl)
    (fun a b c (hab : b.connections = a.connections) (hbc : c.connections = b.connections) =>
      hbc.trans hab)
    (e.each_prog.mono fun _ _ hw => hw.connections.resolve_right hkind)

/-- What starts a stream registers its socket at once, and then awaits an
update that leaves the map alone. -/
theorem startStreaming_connections {client : Socket} {deviceId : JsVal} {s s' : Server}
    (hid : deviceId.truthy = true)
    (h : Pool.Settles (fun _ => True) (handleStartStreaming client deviceId) s s') :
    s'.connections = set s.connections deviceId client := by
  have hupdate : (EmulatorService.update deviceId
      (.obj [("status", .str EmulatorStatus.online.text)]) none).Each
        (Writes [.columns (.obj [("status", .str EmulatorStatus.online.text)])]) :=
    EmulatorService.each_update List.mem_cons_self
  have hpost : (handleStartStreaming client deviceId).Post s fun _ s' =>
      s'.connections = set s.connections deviceId client := by
    unfold handleStartStreaming
    rw [if_pos hid]
    refine .bind (.op fun x => ?_)
    refine Prog.Post.andThen ?_ fun _ => ⟨.ok _, rfl⟩
    have heach := hupdate.mono (S := fun s s' : Server => s'.connections = s.connections)
      fun s s' hw => hw.connections.resolve_right (by simp)
    exact (heach.post (fun _ => rfl) fun _ _ _ hab hbc => hbc.trans hab).mono fun _ _ h => h
  refine Prog.Post.settles (hpost.mono fun _ _ h _ => h) ?_ h
  unfold handleStartStreaming
  rw [if_pos hid]
  exact Prog.forkFree_op.bind fun _ => (EmulatorService.forkFree_update _ _ _).bind fun _ => trivial

/-- The step lemma: the map changes by what the event registers. -/
theorem connections_step {s s' : Server} {e : Damaru.Event} (h : Step s e s') :
    s'.connections = register s.connections (registration s e) := by
  cases e with
  | message client user event body =>
    cases hacc : accepts user event body with
    | false =>
      rw [step_of_not_accepts h hacc]
      cases event <;> simp [registration, register, hacc]
    | true =>
      have hprog : (Damaru.Event.message client user event body).prog = run client user body event :=
        handle_of_accepts hacc
      cases event with
      | StartStreaming =>
        unfold Step at h
        rw [hprog] at h
        cases hid : (body.get? "deviceId").truthy with
        | true =>
          rw [startStreaming_connections hid h]
          simp [registration, register, hacc, hid]
        | false =>
          have hrun : run client user body .StartStreaming = pure () := by
            show handleStartStreaming client (body.get? "deviceId") = _
            unfold handleStartStreaming
            rw [hid]
            rfl
          rw [hrun] at h
          obtain ⟨r, hr, -⟩ := h.ends Prog.forkFree_pure
          rw [(Prog.ends_pure.1 hr).2]
          simp [registration, register, hid]
      | Offer =>
        unfold Step at h
        rw [hprog] at h
        rw [settles_sync h]
        cases hget : get s.connections (body.get? "deviceId") with
        | none => simp [registration, register, hget]
        | some found => simp [registration, register, hget, hacc, emit_connections]
      | Answer => exact frame_connections h (by simp [Damaru.Event.kinds, Event.kinds])
      | IceCandidate => exact frame_connections h (by simp [Damaru.Event.kinds, Event.kinds])
      | Disconnect => exact frame_connections h (by simp [Damaru.Event.kinds, Event.kinds])
      | Connect => exact frame_connections h (by simp [Damaru.Event.kinds, Event.kinds])
  | http user req =>
    apply frame_connections h
    intro hkind
    have hmem := (Damaru.Event.kinds_http hkind).2
    cases req <;> simp [HttpRequest.kinds] at hmem
  | disconnect c => exact frame_connections h (by simp [Damaru.Event.kinds])
  | login dto => exact frame_connections h (by simp [Damaru.Event.kinds])

/-- The socket that the last of the registrations under a key put there. -/
def lastRegistered (log : List Registration) (key : JsVal) : Option Socket :=
  (log.reverse.find? fun r => key.sameKey r.key).map Registration.socket

@[simp] theorem lastRegistered_nil (key : JsVal) : lastRegistered [] key = none := rfl

theorem lastRegistered_append (log log' : List Registration) (key : JsVal) :
    lastRegistered (log ++ log') key = (lastRegistered log' key).or (lastRegistered log key) := by
  unfold lastRegistered
  rw [List.reverse_append, List.find?_append]
  cases (log'.reverse.find? fun r => key.sameKey r.key) <;> rfl

theorem get_register (connections : List (JsVal × Socket)) (r : Option Registration) (key : JsVal) :
    get (register connections r) key = (lastRegistered r.toList key).or (get connections key) := by
  cases r with
  | none => rfl
  | some r =>
    show get (set connections r.key r.socket) key = _
    rw [get_set]
    by_cases hkey : key.sameKey r.key = true
    · simp [lastRegistered, hkey]
    · simp [lastRegistered, hkey]

end SignalingServerGateway

/-! ## Sessions -/

/-- The socket whose message, or whose end, the event is. -/
def Event.client? : Event → Option Socket
  | .message client _ _ _ => some client
  | .disconnect client => some client
  | _ => none

/-- The socket that the event ends. -/
def Event.leaver? : Event → Option Socket
  | .disconnect client => some client
  | _ => none

/-- What has happened at the gateway: the sockets that have disconnected, and
the registrations. -/
structure History where
  gone : List Socket
  log : List SignalingServerGateway.Registration

namespace History

/-- A socket that has disconnected is not heard of again. -/
def Connected (h : History) (client : Socket) : Prop := client ∉ h.gone

def Admits (h : History) (e : Event) : Prop := ∀ client, e.client? = some client → h.Connected client

def next (h : History) (s : Server) (e : Event) : History where
  gone := h.gone ++ e.leaver?.toList
  log := h.log ++ (SignalingServerGateway.registration s e).toList

instance (h : History) (client : Socket) : Decidable (h.Connected client) :=
  inferInstanceAs (Decidable (client ∉ h.gone))

theorem connected_next {h : History} {s : Server} {e : Event} {client : Socket} :
    (h.next s e).Connected client ↔ h.Connected client ∧ e.leaver? ≠ some client := by
  unfold Connected next
  rw [List.mem_append, not_or]
  refine and_congr_right fun _ => ?_
  cases e.leaver? with
  | none => simp
  | some c => simp [eq_comm]

theorem next_log (h : History) (s : Server) (e : Event) (key : JsVal) :
    SignalingServerGateway.lastRegistered (h.next s e).log key =
      (SignalingServerGateway.lastRegistered (SignalingServerGateway.registration s e).toList key).or
        (SignalingServerGateway.lastRegistered h.log key) :=
  SignalingServerGateway.lastRegistered_append h.log _ key

end History

structure Session where
  server : Server
  history : History

namespace Session

/-- The server handles an event alone, and history takes note of it. -/
structure Step (w : Session) (e : Event) (w' : Session) : Prop where
  admits : w.history.Admits e
  handled : Damaru.Step w.server e w'.server
  history : w'.history = w.history.next w.server e

/-- Nothing has been registered yet, and no socket has gone. -/
structure Start (w : Session) : Prop where
  connections : w.server.connections = []
  history : w.history = ⟨[], []⟩

open SignalingServerGateway

/-- The run lemma: a key finds the socket that registered last under it. -/
theorem get_eq {w₀ w : Session} {steps : List (Session × Event × Session)} (hstart : w₀.Start)
    (hrun : Trace Step w₀ steps w) (key : JsVal) :
    get w.server.connections key = lastRegistered w.history.log key := by
  refine hrun.invariant (I := fun w => ∀ key,
    get w.server.connections key = lastRegistered w.history.log key) ?_ ?_ key
  · intro w e w' h ih key
    rw [h.history, connections_step h.handled, get_register, History.next_log, ih key]
  · intro key
    rw [hstart.connections, hstart.history]
    rfl

/-! ## Offers to devices that are gone -/

/-- The event is the end of a socket that the map still holds. -/
def LeavesHeld (w : Session) (e : Event) : Prop :=
  ∃ client, e = .disconnect client ∧ ∃ c ∈ w.server.connections, c.2 = client

/-- Every socket in the map is connected. An offer to a device finds no
emulator exactly if no connected socket is registered for the device, and is
otherwise forwarded to one that is. -/
structure Live (w : Session) : Prop where
  connected : ∀ c ∈ w.server.connections, w.history.Connected c.2
  offers : ∀ client user deviceId sdp r s', (handleOffer client user deviceId sdp).Ends w.server r s' →
    (r = .error (.ws "Emulator not found") ↔
      ¬ ∃ socket, w.history.Connected socket ∧ lastRegistered w.history.log deviceId = some socket) ∧
    (r ≠ .error (.ws "Emulator not found") → ∃ socket, w.history.Connected socket ∧
      lastRegistered w.history.log deviceId = some socket ∧ Forwards .Offer socket w.server s')

/-- An offer is forwarded to the socket that its device finds, or to none. -/
theorem handleOffer_ends {client : Socket} {user : JwtToken} {deviceId sdp : JsVal} {s s' : Server}
    {r : Except Rejection Unit} (h : (handleOffer client user deviceId sdp).Ends s r s') :
    (get s.connections deviceId = none ∧ r = .error (.ws "Emulator not found")) ∨
      ∃ socket, get s.connections deviceId = some socket ∧ r = .ok () ∧ Forwards .Offer socket s s' := by
  have hsync := ends_sync.1 h
  cases hget : get s.connections deviceId with
  | none =>
    rw [hget] at hsync
    exact .inl ⟨rfl, (Prod.mk.inj hsync).1.symm⟩
  | some socket =>
    rw [hget] at hsync
    obtain ⟨hr, hs⟩ := Prod.mk.inj hsync
    refine .inr ⟨socket, rfl, hr.symm, ?_⟩
    rw [← hs]
    exact (forwards_emit .Offer rfl socket).2 rfl

theorem live_of_connected {w₀ w : Session} {steps : List (Session × Event × Session)}
    (hstart : w₀.Start) (hrun : Trace Step w₀ steps w)
    (h : ∀ c ∈ w.server.connections, w.history.Connected c.2) : w.Live := by
  refine ⟨h, fun client user deviceId sdp r s' hend => ?_⟩
  rw [← get_eq hstart hrun]
  rcases handleOffer_ends hend with ⟨hget, hr⟩ | ⟨socket, hget, hr, hforwards⟩
  · rw [hget]
    simp [hr]
  · have hconnected : w.history.Connected socket := h _ (get_mem hget)
    rw [hr]
    constructor
    · simp only [reduceCtorEq, false_iff, not_not]
      exact ⟨socket, hconnected, hget⟩
    · intro _
      exact ⟨socket, hconnected, hget, hforwards⟩

/-- What a step puts into the map is the socket of its message. -/
theorem held_of_step {w w' : Session} {e : Event} (h : Step w e w') {c : JsVal × Socket}
    (hc : c ∈ w'.server.connections) : c ∈ w.server.connections ∨ e.client? = some c.2 := by
  rw [connections_step h.handled] at hc
  cases hr : registration w.server e with
  | none =>
    rw [hr] at hc
    exact .inl hc
  | some r =>
    rw [hr] at hc
    rcases mem_set hc with hc | hc
    · exact .inl hc
    · right
      rw [hc]
      unfold registration at hr
      split at hr
      · split at hr
        · cases hr
          rfl
        · cases hr
      · split at hr
        · cases hr
          rfl
        · cases hr
      · cases hr

/-- The step lemma: as long as no socket in the map ends, all of them stay
connected. -/
theorem connected_step {w w' : Session} {e : Event} (h : Step w e w') (hleaves : ¬ w.LeavesHeld e)
    (hw : ∀ c ∈ w.server.connections, w.history.Connected c.2) :
    ∀ c ∈ w'.server.connections, w'.history.Connected c.2 := by
  intro c hc
  rw [h.history, History.connected_next]
  constructor
  · rcases held_of_step h hc with hc | hclient
    · exact hw c hc
    · exact h.admits _ hclient
  · intro hgone
    cases e with
    | disconnect client =>
      have hclient : c.2 = client := (Option.some.inj hgone).symm
      have hframe := connections_step h.handled
      rw [hframe] at hc
      exact hleaves ⟨client, rfl, c, hc, hclient⟩
    | _ => cases hgone

/-- The end of a socket that the map holds leaves it there. -/
theorem not_live_of_leavesHeld {w w' : Session} {e : Event} (h : Step w e w')
    (hleaves : w.LeavesHeld e) : ¬ w'.Live := by
  intro hlive
  obtain ⟨client, rfl, c, hc, hclient⟩ := hleaves
  have hframe : w'.server.connections = w.server.connections := connections_step h.handled
  have hconnected : w'.history.Connected c.2 := hlive.connected c (hframe ▸ hc)
  rw [h.history, History.connected_next] at hconnected
  apply hconnected.2
  rw [hclient]
  rfl

/-- The run lemma. -/
theorem connected_run {w₀ w : Session} {steps : List (Session × Event × Session)}
    (hstart : w₀.Start) (hrun : Trace Step w₀ steps w)
    (hleaves : ∀ x ∈ steps, ¬ x.1.LeavesHeld x.2.1) :
    ∀ c ∈ w.server.connections, w.history.Connected c.2 := by
  refine hrun.invariant_of_mem
    (I := fun w => ∀ c ∈ w.server.connections, w.history.Connected c.2) ?_ ?_
  · intro x hx hstep hw
    exact connected_step hstep (hleaves x hx) hw
  · intro c hc
    rw [hstart.connections] at hc
    cases hc

/-- **No offer to a dead emulator.** In a run, all states are live if and only
if no socket ends while the map holds it. -/
theorem live_iff {w₀ w : Session} {steps : List (Session × Event × Session)} (hstart : w₀.Start)
    (hrun : Trace Step w₀ steps w) :
    (∀ x ∈ steps, x.2.2.Live) ↔ ∀ x ∈ steps, ¬ x.1.LeavesHeld x.2.1 := by
  induction hrun with
  | nil => simp
  | @snoc w w' e l hprefix hlast ih =>
    have hsnoc := hprefix.snoc hlast
    rw [List.forall_mem_append, List.forall_mem_append, ih, List.forall_mem_singleton,
      List.forall_mem_singleton]
    constructor
    · intro h
      refine ⟨h.1, fun hleaves => not_live_of_leavesHeld hlast hleaves h.2⟩
    · intro h
      refine ⟨h.1, live_of_connected hstart hsnoc (connected_run hstart hsnoc ?_)⟩
      rw [List.forall_mem_append, List.forall_mem_singleton]
      exact h

/-! ## Playing sessions -/

/-- Handles an event on a schedule of its threads. -/
def next (e : Event) (sched : List (Nat × Ext)) (w : Session) : Option Session :=
  match e.client?, Pool.exec (fun k _ => k) sched (Pool.threads () e.prog.toTask) w.server with
  | some client, some o =>
    if client ∉ w.history.gone ∧ o.1.all (fun t => Pool.isEnded t.2) = true then
      some ⟨o.2, w.history.next w.server e⟩
    else none
  | _, _ => none

def play : List (Event × List (Nat × Ext)) → Session → Option Session
  | [], w => some w
  | (e, sched) :: l, w => (w.next e sched).bind (play l)

theorem step_of_next {e : Event} {sched : List (Nat × Ext)} {w w' : Session}
    (h : w.next e sched = some w') : Step w e w' := by
  unfold next at h
  split at h
  · rename_i client o hclient hexec
    split at h
    · rename_i hif
      cases h
      refine ⟨fun c hc => ?_, ?_, rfl⟩
      · rw [hclient] at hc
        cases hc
        exact hif.1
      · exact ⟨_, Pool.runs_of_exec hexec, Pool.finished_iff_isEnded.2 hif.2⟩
    · cases h
  · cases h

theorem trace_of_play {l : List (Event × List (Nat × Ext))} {w₀ w w' : Session}
    {steps : List (Session × Event × Session)} (hrun : Trace Step w₀ steps w)
    (h : play l w = some w') : ∃ steps', Trace Step w₀ (steps ++ steps') w' ∧
      steps'.map (fun x => x.2.1) = l.map Prod.fst := by
  induction l generalizing w steps with
  | nil =>
    cases h
    exact ⟨[], by rwa [List.append_nil], rfl⟩
  | cons exs l ih =>
    obtain ⟨e, sched⟩ := exs
    obtain ⟨t, ht, h⟩ := Option.bind_eq_some_iff.1 h
    obtain ⟨steps', hrun', hevents⟩ := ih (hrun.snoc (step_of_next ht)) h
    refine ⟨(w, e, t) :: steps', ?_, ?_⟩
    · simpa using hrun'
    · simp [hevents]

end Session

namespace Sample

/-- The deployment before anything has connected. -/
def session : Session := ⟨server, ⟨[], []⟩⟩

theorem session_start : session.Start := ⟨rfl, rfl⟩

/-- The inputs on which a handler takes its steps alone. -/
def alone (ids : List String) : List (Nat × Ext) := ids.map fun id => (0, input id)

def startStreaming (client device : String) : Event :=
  .message ⟨client⟩ emulatorAdmin .StartStreaming (.obj [("deviceId", .str device)])

def offer (client : String) (user : JwtToken) (device : String) : Event :=
  .message ⟨client⟩ user .Offer (.obj [("deviceId", .str device), ("sdp", .str "sdp")])

def connect (client : String) (user : JwtToken) (account device : String) : Event :=
  .message ⟨client⟩ user .Connect (.obj [("clientId", .str account), ("deviceId", .str device)])

/-- A device streams, and its socket ends. -/
def streamAndEnd : List (Event × List (Nat × Ext)) :=
  [(startStreaming "device" "e", alone ["", ""]),
    (.disconnect ⟨"device"⟩, [(0, input ""), (1, input ""), (1, input ""), (1, input "")])]

/-- A device streams, and streams again from another socket. -/
def streamAgain : List (Event × List (Nat × Ext)) :=
  [(startStreaming "device" "e", alone ["", ""]), (startStreaming "again" "e", alone ["", ""])]

end Sample

/-- The first socket of a device ends once the device streams from a second
one, to which an offer then goes. -/
theorem Session.live_iff_sample : ∃ steps w₁ w₂ w, Trace Session.Step Sample.session steps w₁ ∧
    steps.map (fun x => x.2.1) = Sample.streamAgain.map Prod.fst ∧
    Session.Step w₁ (.disconnect ⟨"device"⟩) w₂ ∧
    Session.Step w₂ (Sample.offer "client" (Sample.androidAdmin "v" "v-root") "e") w ∧
    SignalingServerGateway.Forwards .Offer ⟨"again"⟩ w₂.server w.server ∧
    (∀ x ∈ steps, x.2.2.Live) ∧ w₂.Live ∧ w.Live := by
  have hplay : (Session.play Sample.streamAgain Sample.session).any (fun w₁ =>
      decide (∀ c ∈ w₁.server.connections, c.2 ≠ ⟨"device"⟩) &&
        (w₁.next (.disconnect ⟨"device"⟩) (Sample.alone [""])).any fun w₂ =>
          decide (SignalingServerGateway.get w₂.server.connections (some (.str "e")) = some ⟨"again"⟩) &&
            (w₂.next (Sample.offer "client" (Sample.androidAdmin "v" "v-root") "e")
              (Sample.alone [""])).isSome) = true := by
    decide +kernel
  obtain ⟨w₁, hw₁, hplay⟩ := (Option.any_eq_true _ _).1 hplay
  obtain ⟨hnotHeld, hplay⟩ := Bool.and_eq_true_iff.1 hplay
  obtain ⟨w₂, hw₂, hplay⟩ := (Option.any_eq_true _ _).1 hplay
  obtain ⟨hget, hplay⟩ := Bool.and_eq_true_iff.1 hplay
  obtain ⟨w, hw⟩ := Option.isSome_iff_exists.1 hplay
  obtain ⟨steps, hrun, hevents⟩ := Session.trace_of_play .nil hw₁
  rw [List.nil_append] at hrun
  have hends := Session.step_of_next hw₂
  have hoffer := Session.step_of_next hw
  have hmet : ∀ x ∈ steps ++ [(w₁, .disconnect ⟨"device"⟩, w₂)] ++
      [(w₂, Sample.offer "client" (Sample.androidAdmin "v" "v-root") "e", w)],
      ¬ x.1.LeavesHeld x.2.1 := by
    rintro x hx ⟨client, hevent, c, hc, hclient⟩
    rcases List.mem_append.1 hx with hx | hx
    · rcases List.mem_append.1 hx with hx | hx
      · have hmem : x.2.1 ∈ steps.map fun x => x.2.1 := List.mem_map_of_mem hx
        rw [hevents, hevent] at hmem
        simp [Sample.streamAgain, Sample.startStreaming] at hmem
      · cases List.mem_singleton.1 hx
        cases hevent
        exact of_decide_eq_true hnotHeld c hc hclient
    · cases List.mem_singleton.1 hx
      cases hevent
  have hlive := (Session.live_iff Sample.session_start ((hrun.snoc hends).snoc hoffer)).2 hmet
  refine ⟨steps, w₁, w₂, w, hrun, hevents, hends, hoffer, ?_, fun x hx => hlive x (by simp [hx]),
    hlive (w₁, .disconnect ⟨"device"⟩, w₂) (by simp),
    hlive (w₂, Sample.offer "client" (Sample.androidAdmin "v" "v-root") "e", w) (by simp)⟩
  exact (SignalingServerGateway.forwards_iff SignalingServerGateway.forwarded_offer hoffer.handled _).2
    ⟨by decide, of_decide_eq_true hget⟩

/-- A client's offer is forwarded to the socket of a device that has gone. -/
theorem Session.offered_to_the_gone : ∃ steps w s', Trace Session.Step Sample.session steps w ∧
    steps.map (fun x => x.2.1) = [Sample.startStreaming "device" "e", .disconnect ⟨"device"⟩] ∧
    ¬ w.history.Connected ⟨"device"⟩ ∧
    Damaru.Step w.server (Sample.offer "client" (Sample.androidAdmin "v" "v-root") "e") s' ∧
    SignalingServerGateway.Forwards .Offer ⟨"device"⟩ w.server s' ∧ ¬ w.Live := by
  have hplay : (Session.play Sample.streamAndEnd Sample.session).any (fun w =>
      decide (¬ w.history.Connected ⟨"device"⟩) &&
      (decide (SignalingServerGateway.get w.server.connections (some (.str "e")) = some ⟨"device"⟩) &&
        ((Sample.offer "client" (Sample.androidAdmin "v" "v-root") "e").play
          [Sample.input ""] w.server).isSome)) = true := by
    decide +kernel
  obtain ⟨w, hw, hplay⟩ := (Option.any_eq_true _ _).1 hplay
  obtain ⟨hgone, hplay⟩ := Bool.and_eq_true_iff.1 hplay
  obtain ⟨hget, hplay⟩ := Bool.and_eq_true_iff.1 hplay
  obtain ⟨s', hs'⟩ := Option.isSome_iff_exists.1 hplay
  obtain ⟨steps, hrun, hevents⟩ := Session.trace_of_play .nil hw
  have hstep := Event.step_of_play hs'
  have hget' := of_decide_eq_true hget
  refine ⟨steps, w, s', hrun, hevents, of_decide_eq_true hgone, hstep, ?_, ?_⟩
  · exact (SignalingServerGateway.forwards_iff SignalingServerGateway.forwarded_offer hstep _).2
      ⟨by decide, hget'⟩
  · intro hlive
    exact of_decide_eq_true hgone (hlive.connected _ (SignalingServerGateway.get_mem hget'))

end Damaru
