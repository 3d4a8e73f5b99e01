import Damaru.Async.Live
import Damaru.Verify.Sessions
import Damaru.Verify.Stages

/-!
# The gateway at work

Messages and the ends of sockets reach the gateway while its calls to the
database are still on their way. What an event registers it registers at once;
what it leaves to the database are threads that stand at stages.
-/

namespace Damaru

open Async Table SignalingServerGateway

namespace Event

/-- Whether the first thing that the event does is done by the gateway alone. A
connect calls the database first. -/
def atOnce : Event → Bool
  | message _ _ .Connect _ => false
  | message _ _ _ _ => true
  | disconnect _ => true
  | _ => false

/-- What the event does before it awaits anything, and what is left of it. -/
def start (e : Event) (x : Ext) (s : Server) : Server × Task Ext Server Rejection :=
  match e.prog.toTask, e.atOnce with
  | .await u n, true => (u x s, n x s)
  | t, _ => (s, t)

/-- The stages that the event leaves to the database. -/
def opens (s : Server) : Event → List Stage
  | message _ user .StartStreaming body =>
    if accepts user .StartStreaming body && (body.get? "deviceId").truthy then
      [.online (body.get? "deviceId")]
    else []
  | message _ user .Connect body =>
    if accepts user .Connect body then
      [.matching (body.get? "clientId") (body.get? "deviceId")]
    else []
  | disconnect client => (s.keysOf client).reverse.map .lookup
  | _ => []

/-- What an event does at once, and what it leaves. -/
structure Started (s : Server) (e : Event) (s' : Server) (t : Task Ext Server Rejection) : Prop where
  tables : s'.tables = s.tables
  used : s'.used = s.used
  connections : s'.connections = register s.connections (registration s e)
  threads : ∃ qs : List Stage, t.spawn = (qs ++ e.opens s).map Stage.task ∧
    ∀ q ∈ qs, ∃ o, q = .ended o ∧ (e.leaver?.isSome → o = none)

theorem start_of_throw {e : Event} {err : Rejection} (h : e.prog = throw err) (x : Ext)
    (s : Server) : e.start x s = (s, (Stage.ended (some err)).task) := by
  unfold start
  rw [h]
  rfl

theorem start_of_await {e : Event} (hatOnce : e.atOnce = true) {u : Ext → Server → Server}
    {n : Ext → Server → Task Ext Server Rejection} (h : e.prog.toTask = .await u n) (x : Ext)
    (s : Server) : e.start x s = (u x s, n x s) := by
  unfold start
  rw [h, hatOnce]

/-- A message that is handled by code that awaits nothing. -/
theorem start_of_sync {e : Event} (hatOnce : e.atOnce = true)
    {f : Server → Except Rejection Unit × Server} (h : e.prog = sync f) (x : Ext) (s : Server) :
    (e.start x s).1 = (f s).2 ∧ ∃ o, (e.start x s).2.spawn = [(Stage.ended o).task] := by
  have htask : e.prog.toTask = .await (fun _ s => (f s).2)
      fun _ s => (Prog.ofExcept (f s).1 : Svc Unit).toTask := by
    rw [h]
    rfl
  rw [start_of_await hatOnce htask]
  refine ⟨rfl, ?_⟩
  show ∃ o, (Prog.ofExcept (f s).1 : Svc Unit).toTask.spawn = _
  cases (f s).1 with
  | ok a => exact ⟨none, rfl⟩
  | error e => exact ⟨some e, rfl⟩

theorem Started.of_sync {s s' : Server} {e : Event} {t : Task Ext Server Rejection}
    (htables : s'.tables = s.tables) (hused : s'.used = s.used)
    (hconnections : s'.connections = register s.connections (registration s e))
    (hopens : e.opens s = []) (hstay : e.leaver? = none)
    (hthreads : ∃ o, t.spawn = [(Stage.ended o).task]) : e.Started s s' t := by
  obtain ⟨o, ho⟩ := hthreads
  refine ⟨htables, hused, hconnections, [.ended o], by rw [ho, hopens]; rfl, ?_⟩
  intro q hq
  rw [List.mem_singleton.1 hq, hstay]
  exact ⟨o, rfl, by simp⟩

/-- A message whose handler emits on a socket that it finds. -/
theorem started_of_emit {e : Event} (hatOnce : e.atOnce = true) {found : Server → Option Socket}
    {event : String} {payload : List (String × JsVal)}
    (h : e.prog = sync fun s => (.ok (), emit (found s) event payload s)) (x : Ext) {s : Server}
    (hregistration : registration s e = none) (hopens : e.opens s = []) (hstay : e.leaver? = none) :
    e.Started s (e.start x s).1 (e.start x s).2 := by
  obtain ⟨hs, hthreads⟩ := start_of_sync hatOnce h x s
  rw [hs]
  refine .of_sync (emit_tables (found s) event payload s) ?_ ?_ hopens hstay hthreads
  · show (emit (found s) event payload s).used = s.used
    cases found s <;> rfl
  · rw [hregistration]
    exact emit_connections (found s) event payload s

theorem started_of_not_accepts {client : Socket} {user : JwtToken}
    {event : SignalingServerGateway.Event} {body : Json} (hacc : accepts user event body = false)
    (x : Ext) (s : Server) : (message client user event body).Started s
      ((message client user event body).start x s).1
      ((message client user event body).start x s).2 := by
  obtain ⟨err, hprog⟩ : ∃ err, (message client user event body).prog = throw err :=
    handle_of_not_accepts hacc
  rw [start_of_throw hprog]
  refine .of_sync rfl rfl ?_ ?_ rfl ⟨some err, rfl⟩
  · cases event <;> simp [registration, register, hacc]
  · cases event <;> simp [opens, hacc]

theorem started_startStreaming {client : Socket} {user : JwtToken} {body : Json}
    (hacc : accepts user .StartStreaming body = true) (x : Ext) (s : Server) :
    (message client user .StartStreaming body).Started s
      ((message client user .StartStreaming body).start x s).1
      ((message client user .StartStreaming body).start x s).2 := by
  have hprog : (message client user .StartStreaming body).prog =
      handleStartStreaming client (body.get? "deviceId") := handle_of_accepts hacc
  cases hid : (body.get? "deviceId").truthy with
  | true =>
    have htask : (message client user .StartStreaming body).prog.toTask =
        .await (fun _ s => { s with connections := set s.connections (body.get? "deviceId") client })
          fun _ _ => (Stage.online (body.get? "deviceId")).task := by
      rw [hprog]
      unfold handleStartStreaming
      rw [if_pos hid]
      rfl
    rw [start_of_await rfl htask]
    refine ⟨rfl, rfl, ?_, [], ?_, by simp⟩
    · simp [registration, register, hacc, hid]
    · simp [opens, hacc, hid, Stage.task_spawn]
  | false =>
    have htask : (message client user .StartStreaming body).prog.toTask = .done := by
      rw [hprog]
      unfold handleStartStreaming
      rw [hid]
      rfl
    have hstart : (message client user .StartStreaming body).start x s = (s, .done) := by
      unfold start
      rw [htask]
    rw [hstart]
    refine .of_sync rfl rfl ?_ ?_ rfl ⟨none, rfl⟩
    · simp [registration, register, hid]
    · simp [opens, hid]

/-- The spec of an arrival. -/
theorem started {e : Event} {client : Socket} (hclient : e.client? = some client) (x : Ext)
    (s : Server) : e.Started s (e.start x s).1 (e.start x s).2 := by
  cases e with
  | http user req => cases hclient
  | login dto => cases hclient
  | disconnect client =>
    obtain ⟨u, n, htask⟩ : ∃ u n, (disconnect client).prog.toTask = .await u n := ⟨_, _, rfl⟩
    rw [start_of_await rfl htask]
    obtain ⟨hu, hspawn⟩ := handleDisconnect_step htask x s
    refine ⟨?_, ?_, ?_, [.ended none], ?_, ?_⟩
    · rw [hu]
    · rw [hu]
    · rw [hu]
      rfl
    · rw [hspawn]
      simp [opens]
    · intro q hq
      exact ⟨none, List.mem_singleton.1 hq, fun _ => rfl⟩
  | message client user event body =>
    cases hacc : accepts user event body with
    | false => exact started_of_not_accepts hacc x s
    | true =>
      have hprog : (message client user event body).prog = run client user body event :=
        handle_of_accepts hacc
      cases event with
      | StartStreaming => exact started_startStreaming hacc x s
      | Connect =>
        have hstart : (message client user .Connect body).start x s =
            (s, (Stage.matching (body.get? "clientId") (body.get? "deviceId")).task) := by
          unfold start
          rw [hprog]
          rfl
        rw [hstart]
        refine ⟨rfl, rfl, rfl, [], ?_, by simp⟩
        simp [opens, hacc, Stage.task_spawn]
      | Offer =>
        obtain ⟨hs, hthreads⟩ := start_of_sync rfl hprog x s
        rw [hs]
        cases hget : get s.connections (body.get? "deviceId") with
        | none => exact .of_sync rfl rfl (by simp [registration, register, hget]) rfl rfl hthreads
        | some found =>
          refine .of_sync rfl rfl ?_ rfl rfl hthreads
          simp [registration, register, hget, hacc, emit_connections]
      | Answer =>
        cases hid : (body.get? "clientId").truthy with
        | true =>
          rw [show run client user body .Answer = _ from if_pos hid] at hprog
          exact started_of_emit rfl hprog x rfl rfl rfl
        | false =>
          have hstart : (message client user .Answer body).start x s = (s, .done) := by
            rw [show run client user body .Answer = _ from if_neg (by simp [hid])] at hprog
            unfold start
            rw [hprog]
            rfl
          rw [hstart]
          exact .of_sync rfl rfl rfl rfl rfl ⟨none, rfl⟩
      | IceCandidate => exact started_of_emit rfl hprog x rfl rfl rfl
      | Disconnect => exact started_of_emit rfl hprog x rfl rfl rfl

end Event

/-! ## Runs of the gateway -/

/-- The gateway with the threads that are on their way, under the events that
have started them, and what has happened so far. -/
abbrev Gateway := Live Event Ext Server Rejection History

/-- How the gateway meets its events, while the rest of the server may change
the state as `aside` says. -/
def gateway (aside : Server → Server → Prop) : Meeting Event Ext Server Rejection History where
  admits h e := ∃ client ∈ e.client?, h.Connected client
  start := Event.start
  note := History.next
  aside := aside

instance {aside : Server → Server → Prop} (h : History) (e : Event) :
    Decidable ((gateway aside).admits h e) :=
  inferInstanceAs (Decidable (∃ client ∈ e.client?, h.Connected client))

/-- Nothing has come yet. -/
structure Gateway.Start (w : Gateway) : Prop where
  threads : w.threads = []
  connections : w.state.connections = []
  note : w.note = ⟨[], []⟩

/-- What an arrival does to the map. -/
theorem Event.Started.get_eq {s s' : Server} {e : Event} {t : Task Ext Server Rejection}
    (hstarted : e.Started s s' t) {h : History}
    (hmap : ∀ key, get s.connections key = lastRegistered h.log key) (key : JsVal) :
    get s'.connections key = lastRegistered (h.next s e).log key := by
  rw [hstarted.connections, get_register, h.next_log, hmap]

namespace Tables

/-- Devices, assignments and connections stay, whatever is written into
them. -/
structure Stays (t t' : Tables) : Prop where
  assignments : t'.accountEmulators = t.accountEmulators
  devices : t'.emulators.map Emulator.device_id = t.emulators.map Emulator.device_id
  rows : ∀ c ∈ t.emulatorConnections, ∃ c' ∈ t'.emulatorConnections, c'.id = c.id ∧
    c'.accountEmulators = c.accountEmulators

theorem Stays.refl (t : Tables) : Stays t t := ⟨rfl, rfl, fun c hc => ⟨c, hc, rfl, rfl⟩⟩

end Tables

namespace Stage

/-- The steps of threads leave what the tables hold. -/
theorem Step.stays {s s' : Server} {q q' : Stage} (h : Step s q q' s') :
    s.tables.Stays s'.tables := by
  have hrows : ∀ c ∈ s.tables.emulatorConnections, ∃ c' ∈ s.tables.emulatorConnections,
      c'.id = c.id ∧ c'.accountEmulators = c.accountEmulators := fun c hc => ⟨c, hc, rfl, rfl⟩
  cases h with
  | online hkey => exact ⟨rfl, map_updateWhere fun _ _ => rfl, hrows⟩
  | offline hkey => exact ⟨rfl, map_updateWhere fun _ _ => rfl, hrows⟩
  | announce ht hc hu =>
    rw [ht]
    exact .refl _
  | @close now id hi hid =>
    refine ⟨rfl, rfl, fun c hc => ?_⟩
    by_cases hcid : c.id = id
    · refine ⟨{ c with disconnected_at := some now }, mem_updateWhere.2 (.inl ?_), rfl, rfl⟩
      exact ⟨c, hc, decide_eq_true hcid, rfl⟩
    · exact ⟨c, mem_updateWhere.2 (.inr ⟨hc, decide_eq_false hcid⟩), rfl, rfl⟩
  | recorded hid hne ha ho =>
    exact ⟨rfl, rfl, fun c hc => ⟨c, List.mem_append_left _ hc, rfl, rfl⟩⟩
  | _ => exact .refl _

/-- The steps of threads leave the map alone. -/
theorem Step.connections {s s' : Server} {q q' : Stage} (h : Step s q q' s') :
    s'.connections = s.connections := by
  cases h with
  | announce ht hc hu => exact hc
  | _ => rfl

end Stage

namespace Sample

/-- The gateway before anything has come to it. -/
def idle : Gateway := ⟨[], server, ⟨[], []⟩⟩

theorem idle_start : idle.Start := ⟨rfl, rfl, rfl⟩

end Sample

end Damaru
