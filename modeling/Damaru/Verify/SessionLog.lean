import Damaru.Verify.Disconnects
import Damaru.Verify.Sessions

/-!
# The log of connections

A `Connect` opens a connection of an account, and the end of a socket closes
connections. Beside a session stands which sockets have sent an offer or a
connect for their account, and which socket has opened which connection.
-/

namespace Damaru

open Async Table SignalingServerGateway

/-- The account for which an offer or a connect is sent by a socket of it. -/
def Event.sender? : Event → Option (String × Socket)
  | .message client user .Offer body =>
    if accepts user .Offer body then user.accountId.map fun a => (a, client) else none
  | .message client user .Connect body =>
    if accepts user .Connect body ∧ (body.get? "clientId").bound = user.accountId then
      user.accountId.map fun a => (a, client)
    else none
  | _ => none

/-- The connections that are in the second tables and not in the first. -/
def Tables.newConnections (t t' : Tables) : List String :=
  (t'.emulatorConnections.map EmulatorConnections.id).filter fun id =>
    id ∉ t.emulatorConnections.map EmulatorConnections.id

structure Ledger where
  session : Session
  /-- Accounts, each with a socket of it that has sent for it. -/
  senders : List (String × Socket)
  /-- Connections, each with the socket that has opened it. -/
  opened : List (String × Socket)

namespace Ledger

def tables (l : Ledger) : Tables := l.session.server.tables

def Connected (l : Ledger) (client : Socket) : Prop := l.session.history.Connected client

/-- The gateway handles a message or the end of a socket, and the ledger takes
note of it. -/
structure Step (l : Ledger) (e : Event) (l' : Ledger) : Prop where
  session : l.session.Step e l'.session
  gateway : ∃ client, e.client? = some client
  senders : l'.senders = l.senders ++ e.sender?.toList
  opened : ∀ client, e.client? = some client →
    l'.opened = l.opened ++ (l.tables.newConnections l'.tables).map fun id => (id, client)

/-- Nothing has been registered or sent, and no connection is open. -/
structure Start (l : Ledger) : Prop where
  session : l.session.Start
  senders : l.senders = []
  opened : l.opened = []
  closed : ∀ c ∈ l.tables.emulatorConnections, c.disconnected_at ≠ none

/-- Some socket that has sent for the account is connected. -/
def Attended (l : Ledger) (a : String) : Prop := ∃ client, (a, client) ∈ l.senders ∧ l.Connected client

/-- No connection of an account is open once none of its sockets that have sent
for it is connected, and none is closed before the socket that has opened it
has gone. -/
structure Kept (l : Ledger) : Prop where
  closed : ∀ a, ¬ l.Attended a → ∀ c ∈ l.tables.emulatorConnections,
    l.tables.accountOf c = some a → c.disconnected_at ≠ none
  opened : ∀ id client, (id, client) ∈ l.opened → l.Connected client →
    ∀ c ∈ l.tables.emulatorConnections, c.id = id → c.disconnected_at = none

/-- Every connection that a connect can open is of an account of which a
connected socket has sent for it, perhaps by this message. -/
def OpensAttended (l : Ledger) (client : Socket) (user : JwtToken) (body : Json) : Prop :=
  ∀ x ∈ l.tables.accountEmulators,
    EmulatorService.Matches l.tables (body.get? "clientId") (body.get? "deviceId") x →
    ∀ a ∈ x.account, l.Attended a ∨
      (Event.message client user .Connect body).sender? = some (a, client)

/-- The open connections that the end of a socket can close have been opened by
it, or by a socket that has gone. -/
def ClosesOwn (l : Ledger) (client : Socket) : Prop :=
  ∀ key ∈ l.session.server.keysOf client, l.tables.Unmatched key →
    ∀ c ∈ l.tables.emulatorConnections, l.tables.Finds key c →
      ∀ o ∈ l.opened, o.1 = c.id → o.2 = client ∨ ¬ l.Connected o.2

/-- Every open connection of an account of which the socket is the last is the
only one that a key of the socket finds, and the key is no device's. -/
def ClosesLast (l : Ledger) (client : Socket) : Prop :=
  ∀ c ∈ l.tables.emulatorConnections, c.disconnected_at = none → ∀ a ∈ l.tables.accountOf c,
    (∀ o ∈ l.senders, o.1 = a → o.2 = client ∨ ¬ l.Connected o.2) →
      ∃ key ∈ l.session.server.keysOf client, l.tables.Unmatched key ∧ l.tables.Finds key c ∧
        ∀ c₁ ∈ l.tables.emulatorConnections, l.tables.Finds key c₁ → c₁ = c

def Orderly (l : Ledger) : Event → Prop
  | .message client user .Connect body =>
    accepts user .Connect body = true → l.OpensAttended client user body
  | .disconnect client => l.ClosesOwn client ∧ l.ClosesLast client
  | _ => True

/-- Open connections have ids that an update accepts. -/
def Named (l : Ledger) : Prop :=
  ∀ c ∈ l.tables.emulatorConnections, c.disconnected_at = none → c.id ≠ ""

/-! ## Messages -/

variable {l l' : Ledger} {e : Event}

theorem Step.connected_iff (h : Step l e l') {client : Socket} :
    l'.Connected client ↔ l.Connected client ∧ e.leaver? ≠ some client := by
  unfold Connected
  rw [h.session.history]
  exact History.connected_next

/-- Sockets stay attended as long as none ends. -/
theorem Step.attended (h : Step l e l') (hstay : e.leaver? = none) {a : String}
    (ha : l.Attended a ∨ ∃ client, e.sender? = some (a, client) ∧ l.Connected client) :
    l'.Attended a := by
  have hconnected : ∀ client, l.Connected client → l'.Connected client := by
    intro client hc
    rw [h.connected_iff, hstay]
    exact ⟨hc, by simp⟩
  rcases ha with ⟨client, hmem, hc⟩ | ⟨client, hsender, hc⟩
  · exact ⟨client, h.senders ▸ List.mem_append_left _ hmem, hconnected client hc⟩
  · refine ⟨client, ?_, hconnected client hc⟩
    rw [h.senders, hsender]
    exact List.mem_append_right _ (List.mem_singleton.2 rfl)

/-- A message that leaves the connections. -/
theorem Step.keeps (h : Step l e l') (hstay : e.leaver? = none)
    (hassignments : l'.tables.accountEmulators = l.tables.accountEmulators)
    (hrows : l'.tables.emulatorConnections = l.tables.emulatorConnections)
    (hl : l.Kept ∧ l.Named) : l'.Kept ∧ l'.Named := by
  obtain ⟨client, hclient⟩ := h.gateway
  have hopened : l'.opened = l.opened := by
    have hnone : l.tables.newConnections l'.tables = [] := by
      unfold Tables.newConnections
      rw [hrows]
      simp
    rw [h.opened client hclient, hnone]
    simp
  refine ⟨⟨fun a ha c hc hac => ?_, fun id opener hmem hc c hrow hid => ?_⟩, fun c hc => ?_⟩
  · rw [hrows] at hc
    rw [Tables.accountOf_congr hassignments rfl] at hac
    exact hl.1.closed a (fun h' => ha (h.attended hstay (.inl h'))) c hc hac
  · rw [hrows] at hrow
    rw [hopened] at hmem
    exact hl.1.opened id opener hmem (h.connected_iff.1 hc).1 c hrow hid
  · rw [hrows] at hc
    exact hl.2 c hc

/-- The events that change no connection and no assignment. -/
theorem rows_step {s s' : Server} (h : Damaru.Step s e s')
    (hkinds : ∀ k ∈ e.kinds, k = .sockets ∨ k = .emissions ∨ ∃ body, k = .columns body) :
    s'.tables.accountEmulators = s.tables.accountEmulators ∧
      s'.tables.emulatorConnections = s.tables.emulatorConnections := by
  refine Event.respects (R := fun t t' => t'.accountEmulators = t.accountEmulators ∧
    t'.emulatorConnections = t.emulatorConnections) (fun t => ⟨rfl, rfl⟩) ?_ ?_ h
  · intro a b c hab hbc
    exact ⟨hbc.1.trans hab.1, hbc.2.trans hab.2⟩
  · intro k hk t t' _ _ hw
    rcases hkinds k hk with rfl | rfl | ⟨body, rfl⟩
    · cases hw
    · cases hw
    · cases hw
      exact ⟨rfl, rfl⟩

/-- A connect opens a connection of an assignment that matches, or changes
nothing. -/
theorem connect_rows {client : Socket} {user : JwtToken} {body : Json} {s s' : Server}
    (hacc : accepts user .Connect body = true)
    (h : Damaru.Step s (.message client user .Connect body) s') :
    s' = s ∨ ∃ a c, EmulatorService.Matches s.tables (body.get? "clientId") (body.get? "deviceId") a ∧
      EmulatorService.Opens s a c s'.tables := by
  have hprog : (Damaru.Event.message client user .Connect body).prog =
      EmulatorService.connectEmulator (body.get? "clientId") (body.get? "deviceId") :=
    handle_of_accepts hacc
  unfold Damaru.Step at h
  rw [hprog] at h
  obtain ⟨r, hr, -⟩ := h.ends (EmulatorService.forkFree_connectEmulator _ _)
  rcases EmulatorService.connectEmulator_post _ _ s r s' hr with ⟨-, hsame, -⟩ | ⟨-, a, c, ha, hc, -⟩
  · exact .inl hsame
  · exact .inr ⟨a, c, ha, hc⟩

theorem Step.connect {client : Socket} {user : JwtToken} {body : Json}
    (h : Step l (.message client user .Connect body) l')
    (horderly : l.Orderly (.message client user .Connect body)) (hl : l.Kept ∧ l.Named) :
    l'.Kept ∧ l'.Named := by
  cases hacc : accepts user .Connect body with
  | false =>
    have hsame := step_of_not_accepts h.session.handled hacc
    exact h.keeps rfl (by unfold tables; rw [hsame]) (by unfold tables; rw [hsame]) hl
  | true =>
    rcases connect_rows hacc h.session.handled with hsame | ⟨a, c, ha, hopens⟩
    · exact h.keeps rfl (by unfold tables; rw [hsame]) (by unfold tables; rw [hsame]) hl
    · have hclient : l.Connected client := h.session.admits client rfl
      have haccount := hopens.accountOf ha.1
      obtain ⟨-, hname, hrow, hopen, htables⟩ := hopens
      have hassignments : l'.tables.accountEmulators = l.tables.accountEmulators := by
        unfold tables
        rw [htables]
      have hrows : l'.tables.emulatorConnections = l.tables.emulatorConnections ++ [c] := by
        unfold tables
        rw [htables]
      have hattended : ∀ b, a.account = some b → l'.Attended b := by
        intro b hb
        refine h.attended rfl ((horderly hacc a ha.1 ha b hb).imp_right fun hsender => ?_)
        exact ⟨client, hsender, hclient⟩
      refine ⟨⟨fun b hb c' hc' hac => ?_, fun id opener hmem hc c' hc' hid => ?_⟩, fun c' hc' ho => ?_⟩
      · rw [hrows] at hc'
        rcases List.mem_append.1 hc' with hc' | hc'
        · rw [Tables.accountOf_congr hassignments rfl] at hac
          exact hl.1.closed b (fun h' => hb (h.attended rfl (.inl h'))) c' hc' hac
        · rw [List.mem_singleton.1 hc'] at hac
          exact absurd (hattended b (haccount.symm.trans hac)) hb
      · rw [hrows] at hc'
        rcases List.mem_append.1 hc' with hc' | hc'
        · rw [h.opened client rfl] at hmem
          rcases List.mem_append.1 hmem with hmem | hmem
          · exact hl.1.opened id opener hmem (h.connected_iff.1 hc).1 c' hc' hid
          · obtain ⟨id', hnew, heq⟩ := List.mem_map.1 hmem
            cases heq
            have hnot := of_decide_eq_true (List.mem_filter.1 hnew).2
            rw [← hid] at hnot
            exact absurd (List.mem_map_of_mem hc') hnot
        · rw [List.mem_singleton.1 hc']
          exact hopen
      · rw [hrows] at hc'
        rcases List.mem_append.1 hc' with hc' | hc'
        · exact hl.2 c' hc' ho
        · rw [List.mem_singleton.1 hc']
          exact hname

/-! ## The ends of sockets -/

theorem Step.disconnect {client : Socket} (h : Step l (.disconnect client) l')
    (horderly : l.Orderly (.disconnect client)) (hl : l.Kept ∧ l.Named) : l'.Kept ∧ l'.Named := by
  obtain ⟨hclosed, honly⟩ := disconnect_closes h.session.handled
  have hclosing : l.tables.Closing l'.tables := hclosed.toClosing
  have hgone : ∀ other, l'.Connected other ↔ l.Connected other ∧ other ≠ client := by
    intro other
    rw [h.connected_iff]
    simp [Event.leaver?, eq_comm]
  have hopened : l'.opened = l.opened := by
    have hnone : l.tables.newConnections l'.tables = [] := by
      refine List.filter_eq_nil_iff.2 fun id hid => ?_
      obtain ⟨c', hc', rfl⟩ := List.mem_map.1 hid
      obtain ⟨c, hc, hcid, -, -⟩ := hclosing.rows c' hc'
      rw [decide_eq_true_eq, not_not, ← hcid]
      exact List.mem_map_of_mem hc
    rw [h.opened client rfl, hnone]
    simp
  refine ⟨⟨fun a ha c' hc' hac hopen' => ?_, fun id opener hmem hc c' hc' hid => ?_⟩,
    fun c' hc' hopen' => ?_⟩
  · obtain ⟨c, hc, hcid, hrow, hopen⟩ := hclosing.rows c' hc'
    rw [hclosing.accountOf_eq hrow] at hac
    have hlast : ∀ o ∈ l.senders, o.1 = a → o.2 = client ∨ ¬ l.Connected o.2 := by
      rintro ⟨_, other⟩ hother rfl
      by_cases heq : other = client
      · exact .inl heq
      · refine .inr fun hcon => ha ⟨other, ?_, (hgone other).2 ⟨hcon, heq⟩⟩
        rw [h.senders]
        exact List.mem_append_left _ hother
    obtain ⟨key, hkey, hun, hfinds, hsingle⟩ := horderly.2 c hc (hopen hopen') a hac hlast
    exact honly key hkey hun c hfinds (hl.2 c hc (hopen hopen')) (fun c₁ h₁ => hsingle c₁ h₁.1 h₁)
      c' hc' hcid.symm hopen'
  · by_contra hshut
    rw [hopened] at hmem
    obtain ⟨hcon, hne⟩ := (hgone opener).1 hc
    obtain ⟨c, hc, hcid, hbefore | ⟨key, hkey, hun, hfinds⟩⟩ := hclosed.closed c' hc' hshut
    · exact hbefore (hl.1.opened id opener hmem hcon c hc (hcid.trans hid))
    · rcases horderly.1 key hkey hun c hfinds.1 hfinds (id, opener) hmem (hcid.trans hid).symm with
        heq | hnot
      · exact hne heq
      · exact hnot hcon
  · obtain ⟨c, hc, hcid, -, hopen⟩ := hclosing.rows c' hc'
    rw [← hcid]
    exact hl.2 c hc (hopen hopen')

/-- The step lemma. -/
theorem Step.kept (h : Step l e l') (horderly : l.Orderly e) (hl : l.Kept ∧ l.Named) :
    l'.Kept ∧ l'.Named := by
  cases e with
  | message client user event body =>
    cases event with
    | Connect => exact h.connect horderly hl
    | _ =>
      obtain ⟨hassignments, hrows⟩ := rows_step h.session.handled
        (by simp [Damaru.Event.kinds, SignalingServerGateway.Event.kinds])
      exact h.keeps rfl hassignments hrows hl
  | disconnect client => exact h.disconnect horderly hl
  | http user req =>
    obtain ⟨client, hclient⟩ := h.gateway
    cases hclient
  | login dto =>
    obtain ⟨client, hclient⟩ := h.gateway
    cases hclient

/-- **The log of connections.** In a run whose steps are orderly, no connection
of an account is open once none of its sockets is connected, and none is closed
before the socket that has opened it has gone. -/
theorem kept_of_orderly {l₀ l : Ledger} {steps : List (Ledger × Event × Ledger)} (hstart : l₀.Start)
    (hrun : Trace Step l₀ steps l) (horderly : ∀ x ∈ steps, x.1.Orderly x.2.1) :
    ∀ x ∈ steps, x.2.2.Kept := by
  have hbase : l₀.Kept ∧ l₀.Named := by
    refine ⟨⟨fun _ _ c hc _ => hstart.closed c hc, fun id client hmem => ?_⟩,
      fun c hc hopen => absurd hopen (hstart.closed c hc)⟩
    rw [hstart.opened] at hmem
    cases hmem
  have hinv := hrun.forall_states_of_mem (I := fun l => l.Kept ∧ l.Named)
    (fun x hx hstep hl => hstep.kept (horderly x hx) hl) hbase
  exact fun x hx => (hinv x hx).1

/-! ## Playing ledgers -/

instance (l : Ledger) (client : Socket) : Decidable (l.Connected client) :=
  inferInstanceAs (Decidable (l.session.history.Connected client))

instance (t : Tables) (clientId deviceId : JsVal) (a : AccountEmulators) :
    Decidable (EmulatorService.Matches t clientId deviceId a) :=
  inferInstanceAs (Decidable (_ ∧ _))

instance (t : Tables) (key : JsVal) : Decidable (t.Unmatched key) :=
  inferInstanceAs (Decidable (∀ e ∈ t.emulators, _))

instance (t : Tables) (key : JsVal) (c : EmulatorConnections) : Decidable (t.Finds key c) :=
  inferInstanceAs (Decidable (_ ∧ _))

instance (l : Ledger) (a : String) : Decidable (l.Attended a) :=
  decidable_of_iff (∃ o ∈ l.senders, o.1 = a ∧ l.Connected o.2)
    ⟨fun ⟨o, ho, ha, hc⟩ => ⟨o.2, ha ▸ ho, hc⟩, fun ⟨client, h, hc⟩ => ⟨(a, client), h, rfl, hc⟩⟩

instance (l : Ledger) (client : Socket) (user : JwtToken) (body : Json) :
    Decidable (l.OpensAttended client user body) :=
  inferInstanceAs (Decidable (∀ x ∈ l.tables.accountEmulators, _))

instance (l : Ledger) (client : Socket) : Decidable (l.ClosesOwn client) :=
  inferInstanceAs (Decidable (∀ key ∈ l.session.server.keysOf client, _))

instance (l : Ledger) (client : Socket) : Decidable (l.ClosesLast client) :=
  inferInstanceAs (Decidable (∀ c ∈ l.tables.emulatorConnections, _))

instance (l : Ledger) : (e : Event) → Decidable (l.Orderly e)
  | .message client user .Connect body =>
    inferInstanceAs (Decidable (_ → l.OpensAttended client user body))
  | .message _ _ .StartStreaming _ => .isTrue trivial
  | .message _ _ .Offer _ => .isTrue trivial
  | .message _ _ .Answer _ => .isTrue trivial
  | .message _ _ .IceCandidate _ => .isTrue trivial
  | .message _ _ .Disconnect _ => .isTrue trivial
  | .disconnect client => inferInstanceAs (Decidable (l.ClosesOwn client ∧ l.ClosesLast client))
  | .http _ _ => .isTrue trivial
  | .login _ => .isTrue trivial

/-- Handles an event that the ledger allows on a schedule of its threads. -/
def next (allows : Ledger → Event → Bool) (e : Event) (sched : List (Nat × Ext)) (l : Ledger) :
    Option Ledger :=
  match e.client?, l.session.next e sched with
  | some client, some w =>
    if allows l e then
      some ⟨w, l.senders ++ e.sender?.toList,
        l.opened ++ (l.tables.newConnections w.server.tables).map fun id => (id, client)⟩
    else none
  | _, _ => none

def play (allows : Ledger → Event → Bool) :
    List (Event × List (Nat × Ext)) → Ledger → Option Ledger
  | [], l => some l
  | (e, sched) :: es, l => (l.next allows e sched).bind (play allows es)

theorem step_of_next {allows : Ledger → Event → Bool} {sched : List (Nat × Ext)}
    (h : l.next allows e sched = some l') : Step l e l' ∧ allows l e = true := by
  unfold next at h
  split at h
  · rename_i client w hclient hw
    split at h
    · rename_i hallows
      cases h
      refine ⟨⟨Session.step_of_next hw, ⟨client, hclient⟩, rfl, fun c hc => ?_⟩, hallows⟩
      rw [hclient] at hc
      cases hc
      rfl
    · cases h
  · cases h

theorem trace_of_play {allows : Ledger → Event → Bool} {es : List (Event × List (Nat × Ext))}
    {l₀ l l' : Ledger} {steps : List (Ledger × Event × Ledger)} (hrun : Trace Step l₀ steps l)
    (h : play allows es l = some l') : ∃ steps', Trace Step l₀ (steps ++ steps') l' ∧
      steps'.map (fun x => x.2.1) = es.map Prod.fst ∧ ∀ x ∈ steps', allows x.1 x.2.1 = true := by
  induction es generalizing l steps with
  | nil =>
    cases h
    exact ⟨[], by rwa [List.append_nil], rfl, by simp⟩
  | cons exs es ih =>
    obtain ⟨e, sched⟩ := exs
    obtain ⟨t, ht, h⟩ := Option.bind_eq_some_iff.1 h
    obtain ⟨hstep, hallows⟩ := step_of_next ht
    obtain ⟨steps', hrun', hevents, hall⟩ := ih (hrun.snoc hstep) h
    refine ⟨(l, e, t) :: steps', by simpa using hrun', by simp [hevents], ?_⟩
    rw [List.forall_mem_cons]
    exact ⟨hallows, hall⟩

end Ledger

namespace Sample

def ledger : Ledger := ⟨session, [], []⟩

theorem ledger_start : ledger.Start := ⟨session_start, rfl, rfl, by decide⟩

/-- The schedule on which the threads of a socket that two keys hold at most
run one after the other. -/
def leave : List (Nat × Ext) :=
  (0, input "") :: List.replicate 3 (1, input "")

end Sample

/-- An account connects to a device once, and its socket ends. -/
theorem Ledger.kept_connected_once : ∃ steps l, Trace Ledger.Step Sample.ledger steps l ∧
    steps.map (fun x => x.2.1) = [Sample.startStreaming "device" "e",
      Sample.offer "client" (Sample.androidAccount "v" "v-one") "e",
      Sample.connect "client" (Sample.androidAccount "v" "v-one") "v-one" "e",
      .disconnect ⟨"client"⟩] ∧
    l.tables.emulatorConnections.length = 1 ∧ ∀ x ∈ steps, x.2.2.Kept := by
  have hplay : (Ledger.play (fun l e => decide (l.Orderly e))
      [(Sample.startStreaming "device" "e", Sample.alone ["", ""]),
        (Sample.offer "client" (Sample.androidAccount "v" "v-one") "e", Sample.alone [""]),
        (Sample.connect "client" (Sample.androidAccount "v" "v-one") "v-one" "e",
          Sample.alone ["", "c1"]),
        (.disconnect ⟨"client"⟩, Sample.leave)] Sample.ledger).any
      (fun l => decide (l.tables.emulatorConnections.length = 1)) = true := by
    decide +kernel
  obtain ⟨l, hl, hone⟩ := (Option.any_eq_true _ _).1 hplay
  obtain ⟨steps, hrun, hevents, horderly⟩ := Ledger.trace_of_play .nil hl
  exact ⟨steps, l, hrun, hevents, of_decide_eq_true hone,
    Ledger.kept_of_orderly Sample.ledger_start hrun fun x hx => of_decide_eq_true (horderly x hx)⟩

/-- An account connects to a device twice, and its socket ends: one connection
stays open. -/
theorem Ledger.connection_left_open : ∃ steps l, Trace Ledger.Step Sample.ledger steps l ∧
    Sample.ledger.Start ∧
    steps.map (fun x => x.2.1) = [Sample.startStreaming "device" "e",
      Sample.offer "client" (Sample.androidAccount "v" "v-one") "e",
      Sample.connect "client" (Sample.androidAccount "v" "v-one") "v-one" "e",
      Sample.connect "client" (Sample.androidAccount "v" "v-one") "v-one" "e",
      .disconnect ⟨"client"⟩] ∧ ¬ l.Kept := by
  have hplay : (Ledger.play (fun _ _ => true)
      [(Sample.startStreaming "device" "e", Sample.alone ["", ""]),
        (Sample.offer "client" (Sample.androidAccount "v" "v-one") "e", Sample.alone [""]),
        (Sample.connect "client" (Sample.androidAccount "v" "v-one") "v-one" "e",
          Sample.alone ["", "c1"]),
        (Sample.connect "client" (Sample.androidAccount "v" "v-one") "v-one" "e",
          Sample.alone ["", "c2"]),
        (.disconnect ⟨"client"⟩, Sample.leave)] Sample.ledger).any
      (fun l => decide (¬ l.Attended "v-one") &&
        decide (∃ c ∈ l.tables.emulatorConnections,
          l.tables.accountOf c = some "v-one" ∧ c.disconnected_at = none)) = true := by
    decide +kernel
  obtain ⟨l, hl, hleft⟩ := (Option.any_eq_true _ _).1 hplay
  obtain ⟨hgone, hopen⟩ := Bool.and_eq_true_iff.1 hleft
  obtain ⟨steps, hrun, hevents, -⟩ := Ledger.trace_of_play .nil hl
  refine ⟨steps, l, hrun, Sample.ledger_start, hevents, fun hkept => ?_⟩
  obtain ⟨c, hc, hac, hnone⟩ := of_decide_eq_true hopen
  exact hkept.closed "v-one" (of_decide_eq_true hgone) c hc hac hnone

end Damaru
