import Damaru.Verify.Arrivals

/-!
# Devices that stream

A device is online while the socket that last started a stream for it is
connected, if nothing that is on its way writes the status too late: the end
of a socket looks the device up before it sets it offline, and meanwhile
another socket may have started to stream for it.
-/

namespace Damaru

open Async Table SignalingServerGateway

/-- All rows of the device have the status. -/
def Tables.Shows (t : Tables) (d : String) (status : EmulatorStatus) : Prop :=
  ∀ e ∈ t.emulators, e.device_id = d → e.status = status

/-- A key that messages bring if their fields are of their types: a string, or
the account id that a token lacks. -/
def JsVal.Plain (key : JsVal) : Prop := key = none ∨ ∃ k, key = some (.str k)

/-- The events of clients that keep to the types of the messages, where none
makes an offer under an account that has the id of the device. -/
def Event.Plain (d : String) : Event → Prop
  | .message _ _ .StartStreaming body => ∃ k, body.get? "deviceId" = some (.str k)
  | .message _ user .Offer _ => user.accountId ≠ some d
  | _ => True

/-- What the rest of the server may do: anything that leaves the map, the
device and its status. -/
structure Elsewhere (d : String) (s s' : Server) : Prop where
  connections : s'.connections = s.connections
  kept : ∃ e ∈ s'.tables.emulators, e.device_id = d
  status : ∀ status, s.tables.Shows d status → s'.tables.Shows d status

namespace Stage

def Plain : Stage → Prop
  | online key => ∃ k, key = some (.str k)
  | lookup key => key.Plain
  | offline key _ => key.Plain
  | _ => True

theorem Plain.step {s s' : Server} {q q' : Stage} (h : Step s q q' s') (hq : q.Plain) : q'.Plain := by
  cases h with
  | device he hselects => exact hq
  | _ => exact trivial

/-- A stage that has not ended awaits the database. -/
theorem task_ne_ended {q : Stage} (hq : ∀ o, q ≠ ended o) (o : Option Rejection) :
    q.task ≠ (ended o).task := by
  intro h
  have hfin : q.task = .done ∨ ∃ e, True ∧ q.task = .fail e := by
    rw [h]
    cases o with
    | none => exact .inl rfl
    | some e => exact .inr ⟨e, trivial, rfl⟩
  obtain ⟨o', ho'⟩ := ended_of_finished hfin
  exact hq o' ho'

variable {s s' : Server} {d : String}

/-- The update of a device sets its status. -/
theorem shows_updateWhere (x : Ext) (t : Tables) (status : EmulatorStatus) :
    ({ t with
      emulators := updateWhere (fun e => selected x (some (.str d)) e.device_id)
        (fun e => { e with status }) t.emulators } : Tables).Shows d status := by
  intro e he hid
  rcases mem_updateWhere.1 he with ⟨e₀, -, -, rfl⟩ | ⟨-, hnot⟩
  · rfl
  · rw [hid] at hnot
    simp [selected] at hnot

/-- The update of another device leaves it. -/
theorem shows_of_ne (x : Ext) {t : Tables} {k : String} (hk : k ≠ d)
    (status' : EmulatorStatus) {status : EmulatorStatus} (h : t.Shows d status) :
    ({ t with
      emulators := updateWhere (fun e => selected x (some (.str k)) e.device_id)
        (fun e => { e with status := status' }) t.emulators } : Tables).Shows d status := by
  intro e he hid
  rcases mem_updateWhere.1 he with ⟨e₀, -, hsel, rfl⟩ | ⟨he, -⟩
  · rw [selected_str] at hsel
    exact absurd (hsel.symm.trans hid) hk
  · exact h e he hid

/-- A stage that is not about to write the status of the device leaves it. -/
theorem Plain.shows {q q' : Stage} (h : Step s q q' s') (hq : q.Plain)
    (honline : q ≠ online (some (.str d))) (hoffline : ∀ name, q ≠ offline (some (.str d)) name)
    {status : EmulatorStatus} (hs : s.tables.Shows d status) : s'.tables.Shows d status := by
  cases h with
  | @online x key hi hkey =>
    obtain ⟨k, rfl⟩ := hq
    have hne : k ≠ d := fun heq => honline (by rw [heq])
    exact shows_of_ne x hne .online hs
  | @offline x key name hi hkey =>
    rcases hq with rfl | ⟨k, rfl⟩
    · cases hkey
    · have hne : k ≠ d := fun heq => hoffline name (by rw [heq])
      exact shows_of_ne x hne .offline hs
  | announce ht hc hu =>
    rw [ht]
    exact hs
  | _ => exact hs

/-- What a thread that is about to set a device online does. -/
theorem online_turn {u : Ext → Server → Server} {n : Ext → Server → Task Ext Server Rejection}
    (hd : d ≠ "") (h : (online (some (.str d))).task = .await u n) (x : Ext) (s : Server) :
    (u x s).tables.Shows d .online ∧ n x s = (ended none).task := by
  obtain ⟨q', hq', hstep⟩ := step_of_task h x s
  generalize hu : u x s = s' at hstep
  cases hstep with
  | @online x' key hi hkey => exact ⟨shows_updateWhere x' _ _, hq'⟩
  | onlineRefused hkey => exact absurd (by simpa [emptyCriterion] using hkey) hd

theorem lookup_turn {u : Ext → Server → Server} {n : Ext → Server → Task Ext Server Rejection}
    (h : (lookup (some (.str d))).task = .await u n) (x : Ext) {s : Server}
    (hdevice : ∃ e ∈ s.tables.emulators, e.device_id = d) :
    u x s = s ∧ ∃ name, n x s = (offline (some (.str d)) name).task := by
  obtain ⟨q', hq', hstep⟩ := step_of_task h x s
  generalize hu : u x s = s' at hstep
  cases hstep with
  | device he hselects => exact ⟨rfl, _, hq'⟩
  | noDevice hnone =>
    obtain ⟨e, he, rfl⟩ := hdevice
    have hnot := hnone e he
    rw [JsVal.selects_str.2 rfl] at hnot
    cases hnot
  | lookupRefused htakes =>
    have hmem : d ∈ s.tables.emulators.map Emulator.device_id := List.mem_map.2 hdevice
    simp [Server.takesText, hmem] at htakes

theorem offline_turn {u : Ext → Server → Server} {n : Ext → Server → Task Ext Server Rejection}
    {name : Option String} (hd : d ≠ "") (h : (offline (some (.str d)) name).task = .await u n)
    (x : Ext) (s : Server) : (u x s).tables.Shows d .offline ∧ n x s = (announce name).task := by
  obtain ⟨q', hq', hstep⟩ := step_of_task h x s
  generalize hu : u x s = s' at hstep
  cases hstep with
  | @offline x' key name hi hkey => exact ⟨shows_updateWhere x' _ _, hq'⟩
  | offlineRefused hkey => exact absurd (by simpa [emptyCriterion] using hkey) hd

/-! ## Distinct stages -/

theorem online_ne_lookup (hd : d ≠ "") (hdevice : ∃ e ∈ s.tables.emulators, e.device_id = d) :
    (online (some (.str d))).task ≠ (lookup (some (.str d))).task := by
  intro h
  obtain ⟨u, n, hn⟩ : ∃ u n, (lookup (some (.str d))).task = .await u n := ⟨_, _, rfl⟩
  obtain ⟨-, name, hnext⟩ := lookup_turn hn default hdevice
  have hended := (online_turn hd (h.trans hn) default s).2
  exact task_ne_ended (q := offline _ name) (fun _ h => by cases h) none (hnext.symm.trans hended)

theorem online_ne_offline (hd : d ≠ "") (name : Option String) (s : Server) :
    (online (some (.str d))).task ≠ (offline (some (.str d)) name).task := by
  intro h
  obtain ⟨u, n, hn⟩ : ∃ u n, (offline (some (.str d)) name).task = .await u n := ⟨_, _, rfl⟩
  have hnext := (offline_turn hd hn default s).2
  have hended := (online_turn hd (h.trans hn) default s).2
  exact task_ne_ended (q := announce name) (fun _ h => by cases h) none (hnext.symm.trans hended)

end Stage

/-! ## What is on its way -/

/-- The socket that last started a stream for the device. -/
def History.streamer (h : History) (d : String) : Option Socket := lastRegistered h.log (some (.str d))

/-- A thread is about to set the device online. -/
def Starting (d : String) (ts : Pool Event Ext Server Rejection) : Prop :=
  ∃ th ∈ ts, th.2 = (Stage.online (some (.str d))).task

/-- A thread is about to look the device up that it is to set offline, or to
set it offline. -/
def Stopping (d : String) (ts : Pool Event Ext Server Rejection) : Prop :=
  ∃ th ∈ ts, th.2 = (Stage.lookup (some (.str d))).task ∨
    ∃ name, th.2 = (Stage.offline (some (.str d)) name).task

namespace Gateway

/-- The device is online exactly if the socket that last started a stream for
it is connected. -/
def Agrees (w : Gateway) (d : String) : Prop :=
  ∀ client, w.note.streamer d = some client → ∀ e ∈ w.state.tables.emulators, e.device_id = d →
    (e.status = .online ↔ w.note.Connected client)

/-- A thread sets the device online only while the socket that last started a
stream for it is connected, or if another thread is to set it offline, and
offline only after that socket has gone, or if another one is to set it
online. -/
def Timely (d : String) (w : Gateway) : Live.Move Event Ext Server Rejection → Prop
  | .turn _ t =>
    (t = (Stage.online (some (.str d))).task →
      (∀ client, w.note.streamer d = some client → w.note.Connected client) ∨ Stopping d w.threads) ∧
    (∀ name, t = (Stage.offline (some (.str d)) name).task →
      (∀ client, w.note.streamer d = some client → ¬ w.note.Connected client) ∨
        Starting d w.threads)
  | _ => True

/-- The status agrees with the socket, or will. -/
structure Upheld (d : String) (ts : Pool Event Ext Server Rejection) (s : Server) (h : History) :
    Prop where
  online : ∀ client, h.streamer d = some client → h.Connected client →
    s.tables.Shows d .online ∨ Starting d ts
  offline : ∀ client, h.streamer d = some client → ¬ h.Connected client →
    s.tables.Shows d .offline ∨ Stopping d ts

section Turn

variable {d : String} {before after new : Pool Event Ext Server Rejection} {k : Event}
  {t : Task Ext Server Rejection}

theorem starting_turn (h : Starting d (before ++ (k, t) :: after))
    (ht : t ≠ (Stage.online (some (.str d))).task) : Starting d (before ++ (new ++ after)) := by
  obtain ⟨th, hth, heq⟩ := h
  refine ⟨th, Pool.mem_turn hth ?_, heq⟩
  rw [heq]
  exact ht.symm

theorem stopping_turn (h : Stopping d (before ++ (k, t) :: after))
    (hlookup : t ≠ (Stage.lookup (some (.str d))).task)
    (hoffline : ∀ name, t ≠ (Stage.offline (some (.str d)) name).task) :
    Stopping d (before ++ (new ++ after)) := by
  obtain ⟨th, hth, heq⟩ := h
  refine ⟨th, Pool.mem_turn hth ?_, heq⟩
  rcases heq with heq | ⟨name, heq⟩
  · rw [heq]
    exact hlookup.symm
  · rw [heq]
    exact (hoffline name).symm

/-- The step lemma of threads. -/
theorem Upheld.turn {q : Stage} {u : Ext → Server → Server}
    {n : Ext → Server → Task Ext Server Rejection} {s : Server} {h : History} (hd : d ≠ "")
    (hdevice : ∃ e ∈ s.tables.emulators, e.device_id = d) (hq : q.Plain)
    (htask : q.task = .await u n)
    (htimely : Timely d ⟨before ++ (k, q.task) :: after, s, h⟩ (.turn k q.task))
    (hup : Upheld d (before ++ (k, q.task) :: after) s h) (x : Ext) :
    Upheld d (before ++ (Pool.threads k (n x s) ++ after)) (u x s) h := by
  by_cases honline : q.task = (Stage.online (some (.str d))).task
  · -- the write is in time, or another thread is to undo it
    obtain ⟨hshows, -⟩ := Stage.online_turn hd (honline.symm.trans htask) x s
    refine ⟨fun client hclient hc => .inl hshows, fun client hclient hgone => .inr ?_⟩
    rcases htimely.1 honline with hconnected | hstopping
    · exact absurd (hconnected client hclient) hgone
    · refine stopping_turn hstopping ?_ fun name => ?_
      · rw [honline]
        exact Stage.online_ne_lookup hd hdevice
      · rw [honline]
        exact Stage.online_ne_offline hd name s
  by_cases hoffline : ∃ name, q.task = (Stage.offline (some (.str d)) name).task
  · obtain ⟨name, hoffline⟩ := hoffline
    obtain ⟨hshows, -⟩ := Stage.offline_turn hd (hoffline.symm.trans htask) x s
    refine ⟨fun client hclient hc => .inr ?_, fun client hclient hgone => .inl hshows⟩
    rcases htimely.2 name hoffline with hgone | hstarting
    · exact absurd hc (hgone client hclient)
    · exact starting_turn hstarting honline
  by_cases hlookup : q.task = (Stage.lookup (some (.str d))).task
  · obtain ⟨hu, name, hnext⟩ := Stage.lookup_turn (hlookup.symm.trans htask) x hdevice
    rw [hu]
    refine ⟨fun client hclient hc => ?_, fun client hclient hgone => .inr ?_⟩
    · exact (hup.online client hclient hc).imp_right fun h => starting_turn h honline
    · refine ⟨(k, n x s), ?_, .inr ⟨name, hnext⟩⟩
      refine List.mem_append_right _ (List.mem_append_left _ (Pool.mem_threads.2 ⟨rfl, ?_⟩))
      rw [hnext, Stage.task_spawn]
      exact List.mem_singleton.2 rfl
  · -- the thread does not write the status
    obtain ⟨q', -, hstep⟩ := Stage.step_of_task htask x s
    have hshows : ∀ status, s.tables.Shows d status → (u x s).tables.Shows d status := by
      intro status hs
      refine hq.shows hstep (fun heq => honline (by rw [heq])) (fun name heq => ?_) hs
      exact hoffline ⟨name, by rw [heq]⟩
    refine ⟨fun client hclient hc => ?_, fun client hclient hgone => ?_⟩
    · exact (hup.online client hclient hc).imp (hshows _) fun h => starting_turn h honline
    · refine (hup.offline client hclient hgone).imp (hshows _) fun h => ?_
      exact stopping_turn h hlookup fun name heq => hoffline ⟨name, heq⟩

end Turn

/-! ## Arrivals -/

section Arrival

variable {d : String} {ts new : Pool Event Ext Server Rejection} {s s' : Server} {h : History}
  {e : Event} {t : Task Ext Server Rejection}

theorem starting_append (h : Starting d ts) : Starting d (ts ++ new) := by
  obtain ⟨th, hth, heq⟩ := h
  exact ⟨th, List.mem_append_left _ hth, heq⟩

theorem stopping_append (h : Stopping d ts) : Stopping d (ts ++ new) := by
  obtain ⟨th, hth, heq⟩ := h
  exact ⟨th, List.mem_append_left _ hth, heq⟩

/-- What an event leaves to the database stands at the stages it opens. -/
theorem mem_threads_of_opens (hstarted : e.Started s s' t) {q : Stage} (hq : q ∈ e.opens s) :
    (e, q.task) ∈ Pool.threads e t := by
  obtain ⟨qs, hspawn, -⟩ := hstarted.threads
  rw [Pool.mem_threads, hspawn]
  exact ⟨rfl, List.mem_map_of_mem (List.mem_append_right _ hq)⟩

/-- Only what starts a stream for the device registers under it. -/
theorem opens_of_registration (hplain : e.Plain d) {r : Registration}
    (hr : registration s e = some r) (hkey : JsVal.sameKey (some (.str d)) r.key = true) :
    e.client? = some r.socket ∧ Stage.online (some (.str d)) ∈ e.opens s := by
  have heq := JsVal.eq_of_sameKey hkey
  unfold registration at hr
  split at hr
  · rename_i client user body
    split at hr
    · rename_i hif
      cases hr
      refine ⟨rfl, ?_⟩
      rw [Event.opens, if_pos hif]
      exact List.mem_singleton.2 (congrArg Stage.online heq)
    · cases hr
  · rename_i client user body
    split at hr
    · cases hr
      obtain ⟨a, haccount, ha⟩ : ∃ a, user.accountId = some a ∧ Json.str a = .str d :=
        Option.map_eq_some_iff.1 heq.symm
      cases ha
      exact absurd haccount hplain
    · cases hr
  · cases hr

/-- The step lemma of arrivals. -/
theorem Upheld.arrive (hadmits : ∃ client ∈ e.client?, h.Connected client) (hplain : e.Plain d)
    (hstarted : e.Started s s' t) (hmap : ∀ key, get s.connections key = lastRegistered h.log key)
    (hup : Upheld d ts s h) : Upheld d (ts ++ Pool.threads e t) s' (h.next s e) := by
  have hstreamer : (h.next s e).streamer d =
      (lastRegistered (registration s e).toList (some (.str d))).or (h.streamer d) :=
    h.next_log s e _
  have hshows : ∀ {status}, s.tables.Shows d status → s'.tables.Shows d status := by
    intro status hs
    rw [hstarted.tables]
    exact hs
  by_cases hnew : ∃ r, registration s e = some r ∧ JsVal.sameKey (some (.str d)) r.key = true
  · -- the event starts a stream for the device
    obtain ⟨r, hr, hkey⟩ := hnew
    obtain ⟨hclient, hopens⟩ := opens_of_registration hplain hr hkey
    have hlast : (h.next s e).streamer d = some r.socket := by
      rw [hstreamer, hr]
      simp [lastRegistered, hkey]
    have hstarting : Starting d (ts ++ Pool.threads e t) :=
      ⟨_, List.mem_append_right _ (mem_threads_of_opens hstarted hopens), rfl⟩
    refine ⟨fun _ _ _ => .inr hstarting, fun client hc hgone => absurd ?_ hgone⟩
    obtain ⟨_, hmem, hconnected⟩ := hadmits
    rw [hlast, ← hclient, hmem] at hc
    cases hc
    rw [History.connected_next]
    refine ⟨hconnected, fun hleaver => ?_⟩
    cases e with
    | disconnect c => cases hr
    | _ => cases hleaver
  · have hlast : (h.next s e).streamer d = h.streamer d := by
      rw [hstreamer]
      cases hr : registration s e with
      | none => rfl
      | some r =>
        have hkey : JsVal.sameKey (some (.str d)) r.key = false :=
          Bool.eq_false_iff.2 fun hkey => hnew ⟨r, hr, hkey⟩
        simp [lastRegistered, hkey]
    refine ⟨fun client hc hconnected => ?_, fun client hc hgone => ?_⟩
    · rw [hlast] at hc
      rw [History.connected_next] at hconnected
      exact (hup.online client hc hconnected.1).imp hshows starting_append
    · rw [hlast] at hc
      by_cases hbefore : h.Connected client
      · -- the socket of the device has just gone, and the map still holds it
        right
        have hleaver : e.leaver? = some client := by
          by_contra hne
          exact hgone (History.connected_next.2 ⟨hbefore, hne⟩)
        cases e with
        | disconnect c =>
          cases hleaver
          have hheld : (some (.str d), client) ∈ s.connections := get_mem ((hmap _).trans hc)
          have hopens : Stage.lookup (some (.str d)) ∈ (Event.disconnect client).opens s :=
            List.mem_map_of_mem (List.mem_reverse.2 (Server.mem_keysOf.2 hheld))
          exact ⟨_, List.mem_append_right _ (mem_threads_of_opens hstarted hopens), .inl rfl⟩
        | _ => cases hleaver
      · exact (hup.offline client hc hbefore).imp hshows stopping_append

end Arrival

/-! ## Runs -/

/-- What the runs of the gateway keep. -/
structure Streams (d : String) (qs : List (Event × Stage)) (s : Server) (h : History) : Prop where
  stages : ∀ p ∈ qs, p.2.Plain
  keys : ∀ c ∈ s.connections, c.1.Plain
  map : ∀ key, get s.connections key = lastRegistered h.log key
  device : ∃ e ∈ s.tables.emulators, e.device_id = d
  upheld : Upheld d (Pool.ofPhases Stage.task qs) s h

/-- An event is of the types of its message, and a turn is in time. -/
def Allows (d : String) (w : Gateway) (m : Live.Move Event Ext Server Rejection) : Prop :=
  (∀ e, m = .arrive e → e.Plain d) ∧ w.Timely d m

theorem plain_register {d : String} {e : Event} {s : Server} (hplain : e.Plain d)
    (hkeys : ∀ c ∈ s.connections, c.1.Plain) :
    ∀ c ∈ register s.connections (registration s e), c.1.Plain := by
  cases hr : registration s e with
  | none => exact hkeys
  | some r =>
    intro c hc
    rcases mem_set hc with hc | rfl
    · exact hkeys c hc
    · show r.key.Plain
      unfold registration at hr
      split at hr
      · split at hr
        · cases hr
          exact .inr hplain
        · cases hr
      · split at hr
        · cases hr
          rename_i user _ _
          cases user.accountId with
          | none => exact .inl rfl
          | some a => exact .inr ⟨a, rfl⟩
        · cases hr
      · cases hr

theorem plain_opens {d : String} {e : Event} {s : Server} (hplain : e.Plain d)
    (hkeys : ∀ c ∈ s.connections, c.1.Plain) : ∀ q ∈ e.opens s, q.Plain := by
  intro q hq
  unfold Event.opens at hq
  split at hq
  · split at hq
    · rw [List.mem_singleton.1 hq]
      exact hplain
    · cases hq
  · split at hq
    · rw [List.mem_singleton.1 hq]
      exact trivial
    · cases hq
  · obtain ⟨key, hkey, rfl⟩ := List.mem_map.1 hq
    exact hkeys _ (Server.mem_keysOf.1 (List.mem_reverse.1 hkey))
  · cases hq

/-- The step lemma: every move that is allowed keeps what the runs keep. -/
theorem streams_step {d : String} (hd : d ≠ "") {w w' : Gateway}
    {m : Live.Move Event Ext Server Rejection} (h : Live.Step (gateway (Elsewhere d)) w m w')
    (hallows : w.Allows d m) (hw : w.At Stage.task (Streams d)) : w'.At Stage.task (Streams d) := by
  refine Live.Step.at (C := Allows d) ?_ ?_ ?_ h hallows hw
  · intro qs s h e x hI hadmits hallows
    obtain ⟨client, hclient, hconnected⟩ := hadmits
    have hstarted : e.Started s (e.start x s).1 (e.start x s).2 := Event.started hclient x s
    have hplain := hallows.1 e rfl
    obtain ⟨qs', hspawn, hended⟩ := hstarted.threads
    refine ⟨qs' ++ e.opens s, hspawn, ?_, ?_, ?_, ?_, ?_⟩
    · intro p hp
      rcases List.mem_append.1 hp with hp | hp
      · exact hI.stages p hp
      · obtain ⟨q, hq, rfl⟩ := List.mem_map.1 hp
        rcases List.mem_append.1 hq with hq | hq
        · obtain ⟨o, rfl, -⟩ := hended q hq
          exact trivial
        · exact plain_opens hplain hI.keys q hq
    · show ∀ c ∈ (e.start x s).1.connections, c.1.Plain
      rw [hstarted.connections]
      exact plain_register hplain hI.keys
    · exact hstarted.get_eq hI.map
    · show ∃ e' ∈ (e.start x s).1.tables.emulators, e'.device_id = d
      rw [hstarted.tables]
      exact hI.device
    · rw [Live.ofPhases_append, ← Live.threads_eq_ofPhases hspawn]
      exact hI.upheld.arrive ⟨client, hclient, hconnected⟩ hplain hstarted hI.map
  · intro before after k q u n x s h hI hallows hq
    obtain ⟨q', hspawn, hstep⟩ := Stage.step_spawn hq x s
    have hplain : q.Plain := hI.stages (k, q) (by simp)
    refine ⟨[q'], hspawn, ?_, ?_, ?_, ?_, ?_⟩
    · intro p hp
      rcases List.mem_append.1 hp with hp | hp
      · exact hI.stages p (List.mem_append_left _ hp)
      · rcases List.mem_cons.1 hp with rfl | hp
        · exact hplain.step hstep
        · exact hI.stages p (List.mem_append_right _ (List.mem_cons_of_mem _ hp))
    · rw [hstep.connections]
      exact hI.keys
    · rw [hstep.connections]
      exact hI.map
    · obtain ⟨e, he, hid⟩ := hI.device
      have hmem : d ∈ (u x s).tables.emulators.map Emulator.device_id := by
        rw [hstep.stays.devices, ← hid]
        exact List.mem_map_of_mem he
      exact List.mem_map.1 hmem
    · rw [Live.ofPhases_append, Live.ofPhases_append, ← Live.threads_eq_ofPhases hspawn]
      have htimely := hallows.2
      have hup := hI.upheld
      rw [Live.ofPhases_append] at htimely hup
      exact hup.turn hd hI.device hplain hq htimely x
  · intro qs s s' h hI haside
    refine ⟨hI.stages, ?_, ?_, haside.kept, ?_⟩
    · rw [haside.connections]
      exact hI.keys
    · rw [haside.connections]
      exact hI.map
    · refine ⟨fun client hclient hc => ?_, fun client hclient hgone => ?_⟩
      · exact (hI.upheld.online client hclient hc).imp_left (haside.status _)
      · exact (hI.upheld.offline client hclient hgone).imp_left (haside.status _)

theorem streams_start {d : String} {w : Gateway} (hstart : w.Start)
    (hdevice : ∃ e ∈ w.state.tables.emulators, e.device_id = d) : w.At Stage.task (Streams d) := by
  refine ⟨[], hstart.threads, by simp, ?_, ?_, hdevice, ?_⟩
  · rw [hstart.connections]
    simp
  · intro key
    rw [hstart.connections, hstart.note]
    rfl
  · rw [hstart.note]
    exact ⟨fun _ h => (by cases h), fun _ h => (by cases h)⟩

/-- Once all threads have ended the status agrees with the socket. -/
theorem agrees_of_streams {d : String} {w : Gateway} (hw : w.At Stage.task (Streams d))
    (hquiet : w.Quiet) : w.Agrees d := by
  obtain ⟨qs, hqs, hI⟩ := hw
  have hended : ∀ th ∈ w.threads, ∃ o, th.2 = (Stage.ended o).task := by
    intro th hth
    have hfin := hquiet th hth
    rw [hqs] at hth
    obtain ⟨p, -, rfl⟩ := List.mem_map.1 hth
    obtain ⟨o, ho⟩ := Stage.ended_of_finished hfin
    exact ⟨o, congrArg Stage.task ho⟩
  have hup := hI.upheld
  rw [← hqs] at hup
  intro client hclient e he hid
  by_cases hc : w.note.Connected client
  · rcases hup.online client hclient hc with hshows | ⟨th, hth, heq⟩
    · simp [hshows e he hid, hc]
    · obtain ⟨o, ho⟩ := hended th hth
      exact absurd (heq.symm.trans ho) (Stage.task_ne_ended (fun _ h => by cases h) o)
  · rcases hup.offline client hclient hc with hshows | ⟨th, hth, heq⟩
    · simp [hshows e he hid, hc]
    · obtain ⟨o, ho⟩ := hended th hth
      rcases heq with heq | ⟨name, heq⟩
      · exact absurd (heq.symm.trans ho) (Stage.task_ne_ended (fun _ h => by cases h) o)
      · exact absurd (heq.symm.trans ho) (Stage.task_ne_ended (fun _ h => by cases h) o)

/-- **Online while it streams.** In a run whose writes of the status are in
time, the status of a device agrees with the socket that last started a stream
for it in every state that is reached with no thread on its way. -/
theorem agrees_of_timely {d : String} (hd : d ≠ "") {w₀ w : Gateway}
    {steps : List (Gateway × Live.Move Event Ext Server Rejection × Gateway)} (hstart : w₀.Start)
    (hdevice : ∃ e ∈ w₀.state.tables.emulators, e.device_id = d)
    (hrun : Trace (Live.Step (gateway (Elsewhere d))) w₀ steps w)
    (hplain : ∀ x ∈ steps, ∀ e, x.2.1 = .arrive e → e.Plain d)
    (htimely : ∀ x ∈ steps, x.1.Timely d x.2.1) :
    ∀ x ∈ steps, x.2.2.Quiet → x.2.2.Agrees d := by
  have hinv := hrun.forall_states_of_mem (I := Live.At Stage.task (Streams d))
    (fun x hx hstep hw => streams_step hd hstep ⟨hplain x hx, htimely x hx⟩ hw)
    (streams_start hstart hdevice)
  exact fun x hx hquiet => agrees_of_streams (hinv x hx) hquiet

end Gateway

/-! ## Playing the gateway -/

namespace Sample

/-- What the next step of a task does to the devices of the sample. -/
def probe : Task Ext Server Rejection → Nat × List EmulatorStatus
  | .await u _ => ((u (input "") server).issued.length,
      (u (input "") server).tables.emulators.map Emulator.status)
  | _ => (0, [])

/-- Whether the move is no write of the status that comes too late. -/
def timely (d : String) (w : Gateway) : Live.Move Event Ext Server Rejection → Bool
  | .turn _ t =>
    (decide (probe t ≠ probe (Stage.online (some (.str d))).task) ||
      (w.note.streamer d).all fun client => decide (w.note.Connected client)) &&
    (decide (probe t ≠ probe (Stage.offline (some (.str d)) none).task) ||
      (w.note.streamer d).all fun client => decide (¬ w.note.Connected client))
  | _ => true

theorem timely_sound {d : String} {w : Gateway} {m : Live.Move Event Ext Server Rejection}
    (h : timely d w m = true) : w.Timely d m := by
  cases m with
  | turn k t =>
    obtain ⟨honline, hoffline⟩ := Bool.and_eq_true_iff.1 h
    refine ⟨fun ht => .inl fun client hclient => ?_, fun name ht => .inl fun client hclient => ?_⟩
    · rw [ht, hclient] at honline
      simpa using honline
    · have hprobe : probe t = probe (Stage.offline (some (.str d)) none).task := by
        rw [ht]
        rfl
      rw [hprobe, hclient] at hoffline
      simpa using hoffline
  | _ => exact trivial

/-- A device starts a stream on two sockets at once. -/
def streamsTwice : List (Live.Choice Event Ext) :=
  [.arrive (startStreaming "old" "e") (input ""), .arrive (startStreaming "new" "e") (input "")]

/-- The first start sets the device online after the end of its socket. The
second socket ends then, and another device streams meanwhile. -/
def overlapping : List (Live.Choice Event Ext) :=
  [.turn 1 (input ""), .arrive (.disconnect ⟨"old"⟩) (input ""), .turn 0 (input ""),
    .arrive (.disconnect ⟨"new"⟩) (input ""), .turn 4 (input ""),
    .arrive (startStreaming "other" "d") (input ""), .turn 4 (input ""), .turn 5 (input ""),
    .turn 4 (input "")]

/-- A device streams, its socket ends, and it streams on a new socket before
the end of the old one has set it offline. -/
def streamsAgain : List (Live.Choice Event Ext) :=
  [.arrive (startStreaming "old" "e") (input ""), .turn 0 (input ""),
    .arrive (.disconnect ⟨"old"⟩) (input ""), .turn 2 (input ""),
    .arrive (startStreaming "new" "e") (input ""), .turn 3 (input ""), .turn 2 (input ""),
    .turn 2 (input "")]

/-- Every event of the list is of the types of its message. -/
theorem plain_of_events {d : String} {es : List Event} (hes : ∀ e ∈ es, e.Plain d)
    {steps : List (Gateway × Live.Move Event Ext Server Rejection × Gateway)}
    (hevents : steps.filterMap (fun x => x.2.1.event?) = es) :
    ∀ x ∈ steps, ∀ e, x.2.1 = .arrive e → e.Plain d := by
  intro x hx e he
  refine hes e ?_
  rw [← hevents]
  exact List.mem_filterMap.2 ⟨x, hx, by rw [he]; rfl⟩

end Sample

/-- Threads of several events are on their way at once, and the writes of the
status are in time. -/
theorem Gateway.agrees_overlapping : ∃ steps steps' w₁ w,
    Trace (Live.Step (gateway (Elsewhere "e"))) Sample.idle steps w₁ ∧
    Trace (Live.Step (gateway (Elsewhere "e"))) Sample.idle (steps ++ steps') w ∧
    steps.filterMap (fun x => x.2.1.event?) =
      [Sample.startStreaming "old" "e", Sample.startStreaming "new" "e"] ∧
    steps'.filterMap (fun x => x.2.1.event?) = [.disconnect ⟨"old"⟩, .disconnect ⟨"new"⟩,
      Sample.startStreaming "other" "d"] ∧
    ¬ w₁.Quiet ∧ w.Quiet ∧ w.note.streamer "e" = some ⟨"new"⟩ ∧
    ∀ x ∈ steps ++ steps', x.2.2.Quiet → Agrees x.2.2 "e" := by
  have hplay : (Live.play (gateway (Elsewhere "e")) (Sample.timely "e") Sample.streamsTwice
      Sample.idle).any (fun w₁ => !w₁.threads.all (fun t => Pool.isEnded t.2) &&
        (Live.play (gateway (Elsewhere "e")) (Sample.timely "e") Sample.overlapping w₁).any fun w =>
          w.threads.all (fun t => Pool.isEnded t.2) &&
            decide (w.note.streamer "e" = some ⟨"new"⟩)) = true := by
    decide +kernel
  obtain ⟨w₁, hw₁, hplay⟩ := (Option.any_eq_true _ _).1 hplay
  obtain ⟨hbusy, hplay⟩ := Bool.and_eq_true_iff.1 hplay
  obtain ⟨w, hw, hend⟩ := (Option.any_eq_true _ _).1 hplay
  obtain ⟨hended, hstreamer⟩ := Bool.and_eq_true_iff.1 hend
  obtain ⟨steps, hrun₁, hevents, htimely⟩ := Live.trace_of_play .nil hw₁
  obtain ⟨steps', hrun, hevents', htimely'⟩ := Live.trace_of_play hrun₁ hw
  rw [List.nil_append] at hrun₁ hrun
  have hplain : ∀ e ∈ [Sample.startStreaming "old" "e", Sample.startStreaming "new" "e",
      .disconnect ⟨"old"⟩, .disconnect ⟨"new"⟩, Sample.startStreaming "other" "d"], e.Plain "e" := by
    simp only [List.forall_mem_cons]
    exact ⟨⟨"e", rfl⟩, ⟨"e", rfl⟩, trivial, trivial, ⟨"d", rfl⟩, by simp⟩
  refine ⟨steps, steps', w₁, w, hrun₁, hrun, hevents, hevents', fun hquiet => ?_,
    Pool.finished_iff_isEnded.2 hended, of_decide_eq_true hstreamer, ?_⟩
  · rw [Pool.finished_iff_isEnded.1 hquiet] at hbusy
    cases hbusy
  · refine Gateway.agrees_of_timely (by decide) Sample.idle_start (by decide) hrun ?_ ?_
    · refine Sample.plain_of_events hplain ?_
      rw [List.filterMap_append, hevents, hevents']
      rfl
    · intro x hx
      rcases List.mem_append.1 hx with hx | hx
      · exact Sample.timely_sound (htimely x hx)
      · exact Sample.timely_sound (htimely' x hx)

/-- A device that streams on a new socket is shown offline, since the end of
its old one has set it offline too late. -/
theorem Gateway.streams_offline : ∃ steps w,
    Trace (Live.Step (gateway (Elsewhere "e"))) Sample.idle steps w ∧ Sample.idle.Start ∧
    steps.filterMap (fun x => x.2.1.event?) = [Sample.startStreaming "old" "e", .disconnect ⟨"old"⟩,
      Sample.startStreaming "new" "e"] ∧
    w.Quiet ∧ w.note.streamer "e" = some ⟨"new"⟩ ∧ w.note.Connected ⟨"new"⟩ ∧
    (∃ e ∈ w.state.tables.emulators, e.device_id = "e" ∧ e.status = .offline) ∧ ¬ Agrees w "e" := by
  have hplay : (Live.play (gateway (Elsewhere "e")) (fun _ _ => true) Sample.streamsAgain
      Sample.idle).any (fun w => w.threads.all (fun t => Pool.isEnded t.2) &&
        decide (w.note.streamer "e" = some ⟨"new"⟩ ∧ w.note.Connected ⟨"new"⟩ ∧
          ∃ e ∈ w.state.tables.emulators, e.device_id = "e" ∧ e.status = .offline)) = true := by
    decide +kernel
  obtain ⟨w, hw, hend⟩ := (Option.any_eq_true _ _).1 hplay
  obtain ⟨hended, hfacts⟩ := Bool.and_eq_true_iff.1 hend
  obtain ⟨hstreamer, hconnected, hoffline⟩ := of_decide_eq_true hfacts
  obtain ⟨steps, hrun, hevents, -⟩ := Live.trace_of_play .nil hw
  refine ⟨steps, w, hrun, Sample.idle_start, hevents, Pool.finished_iff_isEnded.2 hended, hstreamer,
    hconnected, hoffline, fun hagrees => ?_⟩
  obtain ⟨e, he, hid, hstatus⟩ := hoffline
  have honline := (hagrees ⟨"new"⟩ hstreamer e he hid).2 hconnected
  rw [hstatus] at honline
  cases honline

end Damaru
