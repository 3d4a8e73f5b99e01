import Damaru.Signaling
import Damaru.Verify.ConnectionSpecs
import Damaru.Verify.Threads

/-!
# The stages of the gateway's threads

What the gateway's handlers leave to the database: that a device is online,
what the end of a socket disconnects, and the connection that is recorded.
Where such a thread can stand, and what each of its atomic steps can do.
`Stage.step_of_task` is the only place that looks into the code.
-/

namespace Damaru

open Async Table

/-- Where a thread stands: before which call, and what it carries. -/
inductive Stage where
  | online (deviceId : JsVal)
  | lookup (key : JsVal)
  | offline (key : JsVal) (name : Option String)
  | announce (name : Option String)
  | find (key : JsVal)
  | close (id : String)
  | matching (clientId deviceId : JsVal)
  | record (assignment : String)
  | ended (e : Option Rejection)

namespace Stage

/-- The body that `handleStartStreaming` updates a device with. -/
def onlineBody : Json := .obj [("status", .str EmulatorStatus.online.text)]

def nameValue (name : Option String) : JsVal := some ((name.map Json.str).getD .null)

/-- The rest of the code. -/
def prog : Stage → Svc Unit
  | online deviceId => do let _ ← EmulatorService.update deviceId onlineBody none
  | lookup key => EmulatorService.disconnectEmulator key
  | offline key name => do
    let _ ← emulatorRepository.set key fun _ e => { e with status := .offline }
    EmulatorService.restartConnection (nameValue name)
  | announce name => EmulatorService.restartConnection (nameValue name)
  | find key => do
    let emulatorConnection ← emulatorConnectionsRepository.findReadable
      (fun s => key.bound.all s.readsId) fun t c =>
        key.selects (t.accountOf c) && c.disconnected_at.isNone
    if let some emulatorConnection := emulatorConnection then
      let _ ← emulatorConnectionsRepository.set (some (.str emulatorConnection.id)) fun x c =>
        { c with disconnected_at := some x.now }
  | close id => do
    let _ ← emulatorConnectionsRepository.set (some (.str id)) fun x c =>
      { c with disconnected_at := some x.now }
  | matching clientId deviceId => EmulatorService.connectEmulator clientId deviceId
  | record assignment => do
    let _ ← emulatorConnectionsRepository.insert fun x s => .ok
      { id := x.fresh s
        accountEmulators := some assignment
        connected_at := x.now
        disconnected_at := none }
  | ended none => pure ()
  | ended (some e) => throw e

def task (q : Stage) : Task Ext Server Rejection := q.prog.toTask

theorem lookup_prog (key : JsVal) : (lookup key).prog =
    (emulatorRepository.findReadable (fun s => key.bound.all s.takesText) fun _ e =>
      key.selects (some e.device_id)) >>= fun found =>
      match found with
      | some e => (offline key e.device_name).prog
      | none => (find key).prog := rfl

theorem find_prog (key : JsVal) : (find key).prog =
    (emulatorConnectionsRepository.findReadable (fun s => key.bound.all s.readsId) fun t c =>
      key.selects (t.accountOf c) && c.disconnected_at.isNone) >>= fun found =>
      match found with
      | some c => (close c.id).prog
      | none => (ended none).prog := by
  refine congrArg (Bind.bind _) (funext fun found => ?_)
  cases found <;> rfl

theorem matching_prog (clientId deviceId : JsVal) : (matching clientId deviceId).prog =
    (accountEmulatorRepository.findRow fun t a =>
      deviceId.selects ((t.userEmulator? a.userEmulator).bind UserEmulators.device) &&
        clientId.selects a.account) >>= fun found =>
      match found with
      | some a => (record a.id).prog
      | none => (ended (some (cannotRead "id"))).prog := by
  refine congrArg (Bind.bind _) (funext fun found => ?_)
  cases found <;> rfl

/-- The update of `handleStartStreaming` sets the status, and no more. -/
theorem online_prog (deviceId : JsVal) : (online deviceId).prog =
    (emulatorRepository.set deviceId fun _ e => { e with status := .online }) >>= fun _ =>
      (ended none).prog := by
  have hvalues : ∀ p : Platform, EmulatorService.values p onlineBody =
      .ok (some fun e => { e with status := .online }) := fun p => rfl
  have hupdate : EmulatorService.update deviceId onlineBody none =
      (emulatorRepository.set deviceId fun _ e => { e with status := .online }) >>= fun affected =>
        pure (decide (affected > 0)) := by
    unfold EmulatorService.update Repository.set
    simp only [hvalues]
  show (EmulatorService.update deviceId onlineBody none >>= fun _ => pure ()) = _
  rw [hupdate, bind_assoc]
  rfl

/-- The atomic steps. -/
inductive Step (s : Server) : Stage → Stage → Server → Prop
  | online {x : Ext} {deviceId : JsVal} {h : Tables.Integrity _} : emptyCriterion deviceId = false →
      Step s (online deviceId) (ended none) (s.commit { s.tables with
        emulators := updateWhere (fun e => selected x deviceId e.device_id)
          (fun e => { e with status := .online }) s.tables.emulators } h)
  | onlineRefused {deviceId : JsVal} {e : Rejection} : emptyCriterion deviceId = true →
      Step s (online deviceId) (ended (some e)) s
  | device {key : JsVal} {e : Emulator} : e ∈ s.tables.emulators →
      key.selects (some e.device_id) = true → Step s (lookup key) (offline key e.device_name) s
  | noDevice {key : JsVal} :
      (∀ e ∈ s.tables.emulators, key.selects (some e.device_id) = false) →
      Step s (lookup key) (find key) s
  | lookupRefused {key : JsVal} {e : Rejection} : key.bound.all s.takesText = false →
      Step s (lookup key) (ended (some e)) s
  | offline {x : Ext} {key : JsVal} {name : Option String} {h : Tables.Integrity _} :
      emptyCriterion key = false →
      Step s (offline key name) (announce name) (s.commit { s.tables with
        emulators := updateWhere (fun e => selected x key e.device_id)
          (fun e => { e with status := .offline }) s.tables.emulators } h)
  | offlineRefused {key : JsVal} {name : Option String} {e : Rejection} :
      emptyCriterion key = true → Step s (offline key name) (ended (some e)) s
  | announce {name : Option String} {s' : Server} : s'.tables = s.tables →
      s'.connections = s.connections → s'.used = s.used → Step s (announce name) (ended none) s'
  | found {key : JsVal} {c : EmulatorConnections} : c ∈ s.tables.emulatorConnections →
      key.selects (s.tables.accountOf c) = true → c.disconnected_at = none →
      Step s (find key) (close c.id) s
  | nothing {key : JsVal} :
      (∀ c ∈ s.tables.emulatorConnections, key.selects (s.tables.accountOf c) = true →
        c.disconnected_at ≠ none) → Step s (find key) (ended none) s
  | findRefused {key : JsVal} {e : Rejection} : key.bound.all s.readsId = false →
      Step s (find key) (ended (some e)) s
  | close {now : Date} {id : String} {h : Tables.Integrity _} : id ≠ "" →
      Step s (close id) (ended none) (s.commit { s.tables with
        emulatorConnections := updateWhere (fun c => decide (c.id = id))
          (fun c => { c with disconnected_at := some now }) s.tables.emulatorConnections } h)
  | closeRefused {e : Rejection} : Step s (close "") (ended (some e)) s
  | matched {clientId deviceId : JsVal} {a : AccountEmulators} :
      EmulatorService.Matches s.tables clientId deviceId a →
      Step s (matching clientId deviceId) (record a.id) s
  | unmatched {clientId deviceId : JsVal} {e : Rejection} :
      (∀ a, ¬ EmulatorService.Matches s.tables clientId deviceId a) →
      Step s (matching clientId deviceId) (ended (some e)) s
  | recorded {a : String} {c : EmulatorConnections} {h : Tables.Integrity _} : c.id ∉ s.used →
      c.id ≠ "" → c.accountEmulators = some a → c.disconnected_at = none →
      Step s (record a) (ended none) (s.commit { s.tables with
        emulatorConnections := s.tables.emulatorConnections ++ [c] } h)
  | refused {a : String} {e : Rejection} : Step s (record a) (ended (some e)) s

/-- A stage is one thread. -/
theorem task_spawn (q : Stage) : q.task.spawn = [q.task] := by
  cases q with
  | ended e => cases e <;> rfl
  | online deviceId =>
    unfold task
    rw [online_prog]
    rfl
  | find key =>
    unfold task
    rw [find_prog]
    rfl
  | _ => rfl

/-- The status of devices can be set. -/
theorem status_integrity (s : Server) (p : Emulator → Bool) (status : EmulatorStatus) :
    ({ s.tables with
      emulators := updateWhere p (fun e => { e with status }) s.tables.emulators } : Tables).Integrity :=
  s.integrity.set_emulators fun _ => rfl

theorem step_of_task {q : Stage} {u : Ext → Server → Server}
    {n : Ext → Server → Task Ext Server Rejection} (h : q.task = .await u n) (x : Ext) (s : Server) :
    ∃ q' : Stage, n x s = q'.task ∧ Step s q q' (u x s) := by
  cases q with
  | online deviceId =>
    unfold task at h
    rw [online_prog] at h
    rcases Repository.set_criterion_step h x s with ⟨hk, hu, e, hn⟩ | ⟨hk, hcommit⟩
    · rw [hu, hn]
      exact ⟨ended (some e), rfl, .onlineRefused hk⟩
    · obtain ⟨hu, c, hn⟩ := hcommit (status_integrity s _ .online)
      rw [hu, hn]
      exact ⟨ended none, rfl, .online hk⟩
  | lookup key =>
    unfold task at h
    rw [lookup_prog] at h
    obtain ⟨hu, ⟨-, hn⟩ | ⟨hreads, e, hn⟩⟩ := Repository.findReadable_step h x s
    · rw [hu, hn]
      cases hfound : (emulatorRepository.scan (fun _ e => key.selects (some e.device_id)) x
          s.tables).head? with
      | some e =>
        obtain ⟨he, hselects⟩ := Repository.of_scan_head hfound
        exact ⟨offline key e.device_name, rfl, .device he hselects⟩
      | none => exact ⟨find key, rfl, .noDevice fun e he => Repository.scan_head_none hfound he⟩
    · rw [hu, hn]
      exact ⟨ended (some e), rfl, .lookupRefused hreads⟩
  | offline key name =>
    rcases Repository.set_criterion_step h x s with ⟨hk, hu, e, hn⟩ | ⟨hk, hcommit⟩
    · rw [hu, hn]
      exact ⟨ended (some e), rfl, .offlineRefused hk⟩
    · obtain ⟨hu, c, hn⟩ := hcommit (status_integrity s _ .offline)
      rw [hu, hn]
      exact ⟨announce name, rfl, .offline hk⟩
  | announce name =>
    cases h
    exact ⟨ended none, rfl, .announce rfl rfl rfl⟩
  | find key =>
    unfold task at h
    rw [find_prog] at h
    obtain ⟨hu, ⟨-, hn⟩ | ⟨hreads, e, hn⟩⟩ := Repository.findReadable_step h x s
    · rw [hu, hn]
      cases hfound : (emulatorConnectionsRepository.scan (fun t c =>
          key.selects (t.accountOf c) && c.disconnected_at.isNone) x s.tables).head? with
      | some c =>
        obtain ⟨hc, hp⟩ := Repository.of_scan_head hfound
        obtain ⟨hselects, hopen⟩ := Bool.and_eq_true_iff.1 hp
        exact ⟨close c.id, rfl, .found hc hselects (Option.isNone_iff_eq_none.1 hopen)⟩
      | none =>
        refine ⟨ended none, rfl, .nothing fun c hc hselects hopen => ?_⟩
        have hnone := Repository.scan_head_none hfound hc
        rw [hselects, hopen] at hnone
        cases hnone
    · rw [hu, hn]
      exact ⟨ended (some e), rfl, .findRefused hreads⟩
  | close id =>
    have hi : ∀ now : Date, ({ s.tables with
        emulatorConnections := updateWhere (fun c => selected x (some (.str id)) c.id)
          (fun c => { c with disconnected_at := some now })
          s.tables.emulatorConnections } : Tables).Integrity := fun now =>
      s.integrity.set_connections fun _ => ⟨rfl, rfl⟩
    rcases Repository.set_criterion_step h x s with ⟨hk, hu, e, hn⟩ | ⟨hk, hcommit⟩
    · have hid : id = "" := by simpa [emptyCriterion] using hk
      rw [hu, hn, hid]
      exact ⟨ended (some e), rfl, .closeRefused⟩
    · obtain ⟨hu, c, hn⟩ := hcommit (hi x.now)
      have hid : id ≠ "" := by simpa [emptyCriterion] using hk
      rw [hu, hn]
      exact ⟨ended none, rfl, .close hid⟩
  | matching clientId deviceId =>
    unfold task at h
    rw [matching_prog] at h
    obtain ⟨hu, hn⟩ := Repository.findRow_step h x s
    rw [hu, hn]
    cases hfound : (accountEmulatorRepository.scan (fun t a =>
        deviceId.selects ((t.userEmulator? a.userEmulator).bind UserEmulators.device) &&
          clientId.selects a.account) x s.tables).head? with
    | some a =>
      obtain ⟨ha, hp⟩ := Repository.of_scan_head hfound
      exact ⟨record a.id, rfl, .matched ⟨ha, Bool.and_eq_true_iff.1 hp⟩⟩
    | none =>
      refine ⟨ended (some (cannotRead "id")), rfl, .unmatched fun a ha => ?_⟩
      have hnone := Repository.scan_head_none hfound ha.1
      rw [ha.2.1, ha.2.2] at hnone
      cases hnone
  | record a =>
    rcases Repository.insert_step h x s with ⟨c, hc, hn, hi, hu⟩ | ⟨hu, e, hn, he⟩
    · rw [hu, hn]
      cases hc
      exact ⟨ended none, rfl, .recorded (x.fresh_not_used s) (x.fresh_ne_empty s) rfl rfl⟩
    · rw [hu, hn]
      exact ⟨ended (some e), rfl, .refused⟩
  | ended e => cases e <;> cases h

/-- What a step from a stage leaves is one thread again, at a stage. -/
theorem step_spawn {q : Stage} {u : Ext → Server → Server}
    {n : Ext → Server → Task Ext Server Rejection} (h : q.task = .await u n) (x : Ext) (s : Server) :
    ∃ q' : Stage, (n x s).spawn = [q'].map task ∧ Step s q q' (u x s) := by
  obtain ⟨q', hnext, hstep⟩ := step_of_task h x s
  refine ⟨q', ?_, hstep⟩
  rw [hnext, task_spawn]
  rfl

theorem ended_of_finished {q : Stage} {allowed : Rejection → Prop}
    (h : q.task = .done ∨ ∃ e, allowed e ∧ q.task = .fail e) : ∃ e, q = ended e := by
  cases q with
  | ended e => exact ⟨e, rfl⟩
  | online deviceId =>
    unfold task at h
    rw [online_prog] at h
    rcases h with h | ⟨e, -, h⟩ <;> cases h
  | find key =>
    unfold task at h
    rw [find_prog] at h
    rcases h with h | ⟨e, -, h⟩ <;> cases h
  | _ => rcases h with h | ⟨e, -, h⟩ <;> cases h

end Stage

/-! ## The end of a socket -/

/-- The keys under which the map holds the socket. -/
def Server.keysOf (s : Server) (client : Socket) : List JsVal :=
  (s.connections.filter fun c => c.2.id = client.id).map Prod.fst

theorem Server.mem_keysOf {s : Server} {client : Socket} {key : JsVal} :
    key ∈ s.keysOf client ↔ (key, client) ∈ s.connections := by
  unfold keysOf
  rw [List.mem_map]
  constructor
  · rintro ⟨⟨k, socket⟩, hmem, rfl⟩
    obtain ⟨hc, hid⟩ := List.mem_filter.1 hmem
    have hsame : socket = client := by
      cases socket
      cases client
      exact congrArg Socket.mk (of_decide_eq_true hid)
    rw [← hsame]
    exact hc
  · intro h
    exact ⟨(key, client), List.mem_filter.2 ⟨h, decide_eq_true rfl⟩, rfl⟩

theorem EmulatorService.forkFree_disconnectEmulator (key : JsVal) :
    (disconnectEmulator key).ForkFree := by
  refine Prog.forkFree_op.bind fun found => ?_
  cases found with
  | some e => exact Prog.forkFree_op.bind fun _ => Prog.forkFree_op
  | none =>
    refine Prog.forkFree_op.bind fun found => ?_
    cases found with
    | some c => exact Prog.forkFree_op.bind fun _ => trivial
    | none => exact trivial

/-- The end of a socket starts a thread for each key under which the map holds
it. -/
theorem SignalingServerGateway.handleDisconnect_step {client : Socket} {u : Ext → Server → Server}
    {n : Ext → Server → Task Ext Server Rejection}
    (h : (handleDisconnect client).toTask = .await u n) (x : Ext) (s : Server) :
    u x s = s ∧ (n x s).spawn =
      (Stage.ended none :: ((s.keysOf client).map Stage.lookup).reverse).map Stage.task := by
  obtain ⟨hu, ⟨keys, hkeys, hn⟩ | ⟨e, he, -⟩⟩ := query_step h x s
  · cases hkeys
    refine ⟨hu, ?_⟩
    rw [hn]
    show (forM (s.keysOf client) fun key =>
      Prog.detach (EmulatorService.disconnectEmulator key)).toTask.spawn = _
    rw [Pool.spawn_forM_detach EmulatorService.forkFree_disconnectEmulator, List.map_cons,
      List.map_reverse, List.map_map]
    rfl
  · cases he

end Damaru
