import Damaru.Verify.Routing
import Damaru.Verify.ConnectionSpecs

/-!
# In whose name a client speaks

An offer carries the account of its sender's token. The other messages of a
client carry the account that their payload names, and a flag of the payload
says whether a candidate is a device's.
-/

namespace Damaru

open Async

/-- What the server has emitted since. -/
def Server.emittedSince (s s' : Server) : List Emission := s'.emitted.drop s.emitted.length

theorem Server.emittedSince_append {s s' : Server} {l : List Emission}
    (h : s'.emitted = s.emitted ++ l) : s.emittedSince s' = l := by
  unfold Server.emittedSince
  rw [h, List.drop_left]

namespace Emission

def field (m : Emission) (name : String) : JsVal := (m.payload.lookup name).join

/-- The emission comes from a device: an answer, or a candidate that says so. -/
def OfDevice (m : Emission) : Prop :=
  m.event = "Answer" ∨ (m.event = "IceCandidate" ∧ (m.field "isEmulator").truthy = true)

/-- The emission speaks for a client. -/
def OfClient (m : Emission) : Prop :=
  m.event = "Offer" ∨ m.event = "Disconnect" ∨
    (m.event = "IceCandidate" ∧ (m.field "isEmulator").truthy = false)

end Emission

open SignalingServerGateway

/-- The socket has made an offer under another account, or under none. -/
def History.OtherClient (h : History) (account : String) (socket : Socket) : Prop :=
  ∃ r ∈ h.log, r.event = .Offer ∧ r.socket = socket ∧ r.key ≠ some (.str account)

/-- A message of the account makes the server act in the name of no other one:
what it emits for a client carries the account, the connections it opens are
the account's, and nothing reaches another client as a device's. -/
structure Authentic (h : History) (account : String) (s s' : Server) : Prop where
  clientId : ∀ m ∈ s.emittedSince s', m.OfClient → m.field "clientId" = some (.str account)
  connection : ∀ c ∈ s'.tables.emulatorConnections, c ∉ s.tables.emulatorConnections →
    s'.tables.accountOf c = some account
  device : ∀ m ∈ s.emittedSince s', m.OfDevice → ∀ socket, m.recipient = .socket socket →
    ¬ h.OtherClient account socket

/-- The message speaks in another name than that of the account: it names
another client towards a socket that is there, marks as a device's a candidate
for another client, or asks for a connection that can be another account's. -/
def Spoofs (w : Session) (account : String) (body : Json) : SignalingServerGateway.Event → Prop
  | .Disconnect => (get w.server.connections (body.get? "deviceId")).isSome = true ∧
    body.get? "clientId" ≠ some (.str account)
  | .IceCandidate =>
    if (body.get? "isEmulator").truthy then
      ∃ socket, get w.server.connections (body.get? "clientId") = some socket ∧
        w.history.OtherClient account socket
    else (get w.server.connections (body.get? "deviceId")).isSome = true ∧
      body.get? "clientId" ≠ some (.str account)
  | .Connect => ∃ a, EmulatorService.Matches w.server.tables (body.get? "clientId")
    (body.get? "deviceId") a ∧ a.account ≠ some account
  | _ => False

namespace Authentic

variable {h : History} {account : String} {s s' : Server}

/-- A message that emits nothing and opens no connection. -/
theorem of_silent (he : s'.emitted = s.emitted)
    (hc : s'.tables.emulatorConnections = s.tables.emulatorConnections) : Authentic h account s s' := by
  have hnone : s.emittedSince s' = [] := Server.emittedSince_append (by rw [he, List.append_nil])
  refine ⟨fun m hm => ?_, fun c hc' hnot => ?_, fun m hm => ?_⟩
  · rw [hnone] at hm
    cases hm
  · rw [hc] at hc'
    exact absurd hc' hnot
  · rw [hnone] at hm
    cases hm

/-- A message that emits on a socket, if there is one, and does nothing else. -/
theorem of_emit {found : Option Socket} {name : String} {payload : List (String × JsVal)}
    {s₁ : Server} (he : s₁.emitted = s.emitted) (ht : s₁.tables = s.tables) :
    Authentic h account s (emit found name payload s₁) ↔ ∀ socket, found = some socket →
      ((Emission.OfClient ⟨.socket socket, name, payload⟩ →
        Emission.field ⟨.socket socket, name, payload⟩ "clientId" = some (.str account)) ∧
      (Emission.OfDevice ⟨.socket socket, name, payload⟩ → ¬ h.OtherClient account socket)) := by
  have hsince : s.emittedSince (emit found name payload s₁) =
      found.toList.map fun k => ⟨.socket k, name, payload⟩ :=
    Server.emittedSince_append (by rw [emit_emitted, he])
  have htables : (emit found name payload s₁).tables = s.tables := (emit_tables _ _ _ _).trans ht
  constructor
  · intro hauth socket hfound
    subst hfound
    have hmem : (⟨.socket socket, name, payload⟩ : Emission) ∈
        s.emittedSince (emit (some socket) name payload s₁) := by
      rw [hsince]
      exact List.mem_singleton.2 rfl
    exact ⟨hauth.clientId _ hmem, fun hdevice => hauth.device _ hmem hdevice socket rfl⟩
  · intro hall
    have hmem : ∀ m ∈ s.emittedSince (emit found name payload s₁),
        ∃ socket, found = some socket ∧ m = ⟨.socket socket, name, payload⟩ := by
      intro m hm
      rw [hsince, List.mem_map] at hm
      obtain ⟨socket, hsocket, rfl⟩ := hm
      exact ⟨socket, Option.mem_toList.1 hsocket, rfl⟩
    refine ⟨fun m hm => ?_, fun c hc hnot => ?_, fun m hm hdevice socket' hrecipient => ?_⟩
    · obtain ⟨socket, hfound, rfl⟩ := hmem m hm
      exact (hall socket hfound).1
    · rw [htables] at hc
      exact absurd hc hnot
    · obtain ⟨socket, hfound, rfl⟩ := hmem m hm
      cases hrecipient
      exact (hall _ hfound).2 hdevice

end Authentic

theorem Session.forall_step {w : Session} {e : Event} {P : Server → Prop} (h : w.history.Admits e) :
    (∀ w', Session.Step w e w' → P w'.server) ↔ ∀ s', Damaru.Step w.server e s' → P s' := by
  constructor
  · intro hall s' hs'
    exact hall ⟨s', w.history.next w.server e⟩ ⟨h, hs', rfl⟩
  · intro hall w' hw'
    exact hall _ hw'.handled

/-- Code that awaits nothing comes to its end in one way. -/
theorem settles_sync_iff {f : Server → Except Rejection Unit × Server} {s s' : Server} :
    Pool.Settles (fun _ => True) (sync f) s s' ↔ s' = (f s).2 := by
  constructor
  · exact settles_sync
  · rintro rfl
    exact Pool.Settles.of_ends (ends_sync.2 rfl) fun _ _ => trivial

/-- An Android user's token starts no stream and answers no offer. -/
theorem not_accepts_of_AndroidUser {user : JwtToken} {event : SignalingServerGateway.Event}
    {body : Json} (hrole : user.role = .AndroidUser)
    (hevent : event = .StartStreaming ∨ event = .Answer) : accepts user event body = false := by
  rcases hevent with rfl | rfl <;>
    simp [accepts, SignalingServerGateway.Event.guard, Guard.isAuthorized, EmulatorAdmin, hrole]

section Messages

variable {h : History} {account : String} {body : Json} {s : Server}

/-- An offer is authentic: its account is the token's. -/
theorem handleOffer_authentic {client : Socket} {user : JwtToken} {deviceId sdp : JsVal} {s' : Server}
    (haccount : user.accountId = some account)
    (hstep : Pool.Settles (fun _ => True) (handleOffer client user deviceId sdp) s s') :
    Authentic h account s s' := by
  rw [settles_sync hstep]
  cases get s.connections deviceId with
  | none => exact .of_silent rfl rfl
  | some found =>
    show Authentic h account s (emit (some found) "Offer"
      [("sdp", sdp), ("clientId", user.accountId.map Json.str)] _)
    refine (Authentic.of_emit ?_ ?_).2 fun socket _ => ⟨fun _ => ?_, fun hdevice => ?_⟩
    · rfl
    · rfl
    · simp [Emission.field, List.lookup_cons, haccount]
    · simp [Emission.OfDevice] at hdevice

/-- A disconnect is authentic unless it names another client. -/
theorem disconnect_authentic_iff {clientId deviceId : JsVal} :
    (∀ s', Pool.Settles (fun _ => True) (disconnect clientId deviceId) s s' →
      Authentic h account s s') ↔
      ((get s.connections deviceId).isSome = true → clientId = some (.str account)) := by
  unfold disconnect
  simp only [settles_sync_iff, forall_eq]
  rw [Authentic.of_emit rfl rfl]
  simp [Emission.OfClient, Emission.OfDevice, Emission.field, Option.isSome_iff_exists]

/-- A candidate is authentic unless it names another client, or is for one as
from a device. -/
theorem handleIceCandidate_authentic_iff {isEmulator clientId deviceId iceCandidate : JsVal} :
    (∀ s', Pool.Settles (fun _ => True)
      (handleIceCandidate isEmulator clientId deviceId iceCandidate) s s' → Authentic h account s s') ↔
      if isEmulator.truthy then
        ∀ socket, get s.connections clientId = some socket → ¬ h.OtherClient account socket
      else (get s.connections deviceId).isSome = true → clientId = some (.str account) := by
  unfold handleIceCandidate
  simp only [settles_sync_iff, forall_eq]
  rw [Authentic.of_emit rfl rfl]
  cases his : isEmulator.truthy with
  | true => simp [Emission.OfClient, Emission.OfDevice, Emission.field, List.lookup_cons, his]
  | false =>
    simp [Emission.OfClient, Emission.OfDevice, Emission.field, List.lookup_cons, his,
      Option.isSome_iff_exists]

/-- A connection is authentic unless it can be that of another account. -/
theorem connect_authentic_iff {clientId deviceId : JsVal} :
    (∀ s', Pool.Settles (fun _ => True) (connect clientId deviceId) s s' → Authentic h account s s') ↔
      ∀ a, EmulatorService.Matches s.tables clientId deviceId a → a.account = some account := by
  constructor
  · intro hall a ha
    obtain ⟨s', c, hend, hopens⟩ := EmulatorService.connectEmulator_ends ha
    have hauth := hall s' (Pool.Settles.of_ends hend fun _ _ => trivial)
    have hnew : c ∉ s.tables.emulatorConnections := fun hmem =>
      hopens.1 (Server.mem_used_of_mem_ids (Tables.emulatorConnection_id_mem hmem))
    have hmem : c ∈ s'.tables.emulatorConnections := by
      rw [hopens.2.2.2.2]
      exact List.mem_append_right _ (List.mem_singleton.2 rfl)
    rw [← hopens.accountOf ha.1]
    exact hauth.connection c hmem hnew
  · intro hall s' hs'
    refine (EmulatorService.connectEmulator_post clientId deviceId s).mono ?_ |>.settles
      (I := fun s' => Authentic h account s s') (EmulatorService.forkFree_connectEmulator _ _) hs'
    intro r t hpost _
    rcases hpost with ⟨-, rfl, -⟩ | ⟨-, a, c, ha, hopens, -, hemitted⟩
    · exact .of_silent rfl rfl
    · have hnone : s.emittedSince t = [] := Server.emittedSince_append (by rw [hemitted, List.append_nil])
      refine ⟨fun m hm => ?_, fun c' hc' hnot => ?_, fun m hm => ?_⟩
      · rw [hnone] at hm
        cases hm
      · have hrows : t.tables.emulatorConnections = s.tables.emulatorConnections ++ [c] := by
          rw [hopens.2.2.2.2]
        rw [hrows] at hc'
        rcases List.mem_append.1 hc' with hc' | hc'
        · exact absurd hc' hnot
        · rw [List.mem_singleton.1 hc', hopens.accountOf ha.1]
          exact hall a ha
      · rw [hnone] at hm
        cases hm

end Messages

/-- **In whose name a client speaks.** A message under the token of an account
of an Android user is authentic, whatever comes of it, if and only if the
gateway does not accept it or it speaks in no other name. -/
theorem authentic_iff {w : Session} {client : Socket} {user : JwtToken}
    {event : SignalingServerGateway.Event} {body : Json} {account : String}
    (hclient : w.history.Connected client) (hrole : user.role = .AndroidUser)
    (haccount : user.accountId = some account) :
    (∀ w', Session.Step w (.message client user event body) w' →
      Authentic w.history account w.server w'.server) ↔
      ¬ (accepts user event body = true ∧ Spoofs w account body event) := by
  have hadmits : w.history.Admits (.message client user event body) := by
    intro c hc
    cases hc
    exact hclient
  rw [Session.forall_step hadmits]
  cases hacc : accepts user event body with
  | false =>
    simp only [Bool.false_eq_true, false_and, not_false_eq_true, iff_true]
    intro s' hs'
    rw [step_of_not_accepts hs' hacc]
    exact .of_silent rfl rfl
  | true =>
    have hprog : (Event.message client user event body).prog = run client user body event :=
      handle_of_accepts hacc
    unfold Damaru.Step
    rw [hprog, and_iff_right rfl]
    cases event with
    | Offer =>
      simp only [Spoofs, not_false_eq_true, iff_true]
      intro s' hs'
      exact handleOffer_authentic haccount hs'
    | Disconnect =>
      refine disconnect_authentic_iff.trans ?_
      simp only [Spoofs, not_and, ne_eq, not_not]
    | IceCandidate =>
      refine handleIceCandidate_authentic_iff.trans ?_
      unfold Spoofs
      split <;> simp
    | Connect =>
      refine connect_authentic_iff.trans ?_
      simp only [Spoofs, not_exists, not_and, ne_eq, not_not]
    | StartStreaming =>
      rw [not_accepts_of_AndroidUser hrole (.inl rfl)] at hacc
      cases hacc
    | Answer =>
      rw [not_accepts_of_AndroidUser hrole (.inr rfl)] at hacc
      cases hacc

namespace Sample

/-- A client of one user disconnects a device in the name of an account. -/
def disconnectAs (account : String) : Event :=
  .message ⟨"client"⟩ (androidAdmin "v" "v-root") .Disconnect
    (.obj [("clientId", .str account), ("deviceId", .str "e")])

/-- The device streams when the client disconnects it, in the name of its own
account or in that of another user's. -/
theorem disconnects : ∀ account ∈ ["v-root", "u-root"], ∃ steps w w',
    Trace Session.Step session steps w ∧
    steps.map (fun x => x.2.1) = [startStreaming "device" "e"] ∧
    get w.server.connections (some (.str "e")) = some ⟨"device"⟩ ∧
    Session.Step w (disconnectAs account) w' := by
  have hplays : ∀ account ∈ ["v-root", "u-root"],
      (Session.play [(startStreaming "device" "e", alone ["", ""])] session).any (fun w =>
        decide (get w.server.connections (some (.str "e")) = some ⟨"device"⟩) &&
          (w.next (disconnectAs account) (alone [""])).isSome) = true := by
    decide +kernel
  intro account haccount
  obtain ⟨w, hw, hplay⟩ := (Option.any_eq_true _ _).1 (hplays account haccount)
  obtain ⟨hget, hplay⟩ := Bool.and_eq_true_iff.1 hplay
  obtain ⟨w', hw'⟩ := Option.isSome_iff_exists.1 hplay
  obtain ⟨steps, hrun, hevents⟩ := Session.trace_of_play .nil hw
  exact ⟨steps, w, w', hrun, hevents, of_decide_eq_true hget, Session.step_of_next hw'⟩

end Sample

theorem authentic_iff_sample : ∃ steps w w', Trace Session.Step Sample.session steps w ∧
    steps.map (fun x => x.2.1) = [Sample.startStreaming "device" "e"] ∧
    get w.server.connections (some (.str "e")) = some ⟨"device"⟩ ∧
    Session.Step w (Sample.disconnectAs "v-root") w' ∧
    Authentic w.history "v-root" w.server w'.server := by
  obtain ⟨steps, w, w', hrun, hevents, hfound, hstep⟩ := Sample.disconnects "v-root" (by simp)
  refine ⟨steps, w, w', hrun, hevents, hfound, hstep, ?_⟩
  have hown : ¬ Spoofs w "v-root" (.obj [("clientId", .str "v-root"), ("deviceId", .str "e")]) .Disconnect :=
    fun hspoofs => hspoofs.2 rfl
  exact (authentic_iff (hstep.admits _ rfl) rfl rfl).2 (fun h => hown h.2) w' hstep

theorem not_authentic : ∃ steps w w', Trace Session.Step Sample.session steps w ∧
    steps.map (fun x => x.2.1) = [Sample.startStreaming "device" "e"] ∧
    Session.Step w (Sample.disconnectAs "u-root") w' ∧
    (∃ m ∈ w.server.emittedSince w'.server, m.recipient = .socket ⟨"device"⟩ ∧
      m.event = "Disconnect" ∧ m.field "clientId" = some (.str "u-root")) ∧
    ¬ Authentic w.history "v-root" w.server w'.server := by
  obtain ⟨steps, w, w', hrun, hevents, hfound, hstep⟩ := Sample.disconnects "u-root" (by simp)
  have hprog : (Sample.disconnectAs "u-root").prog =
      disconnect (some (.str "u-root")) (some (.str "e")) := handle_of_accepts (by decide)
  have hsettles : Pool.Settles (fun _ => True)
      (disconnect (some (.str "u-root")) (some (.str "e"))) w.server w'.server := hprog ▸ hstep.handled
  have hsince : w.server.emittedSince w'.server =
      [⟨.socket ⟨"device"⟩, "Disconnect", [("clientId", some (.str "u-root"))]⟩] := by
    apply Server.emittedSince_append
    rw [settles_sync hsettles, emit_emitted, hfound]
    rfl
  have hmem : (⟨.socket ⟨"device"⟩, "Disconnect", [("clientId", some (.str "u-root"))]⟩ : Emission) ∈
      w.server.emittedSince w'.server := by
    rw [hsince]
    exact List.mem_singleton.2 rfl
  refine ⟨steps, w, w', hrun, hevents, hstep, ⟨_, hmem, rfl, rfl, rfl⟩, fun hauth => ?_⟩
  have hclient := hauth.clientId _ hmem (.inr (.inl rfl))
  simp [Emission.field] at hclient

end Damaru
