import Damaru.Verify.Arrivals
import Damaru.Verify.Disconnects

/-!
# Safe departures

The threads that the end of a socket starts may set offline only devices that
the socket has started a stream for, and may close only connections of accounts
under which it has made an offer; and none of them may fail, since nothing
awaits it.
-/

namespace Damaru

open Async Table SignalingServerGateway

/-- The value is a text that is not empty, or a number. -/
def JsVal.isKey : JsVal → Bool
  | some (.str s) => s ≠ ""
  | some (.int _) => true
  | some (.frac _) => true
  | _ => false

theorem JsVal.not_emptyCriterion {key : JsVal} (h : key.isKey = true) : emptyCriterion key = false := by
  cases key with
  | none => cases h
  | some j =>
    cases j with
    | str s => simpa [JsVal.isKey, emptyCriterion] using h
    | int n => rfl
    | frac t => rfl
    | _ => cases h

/-- An update by such a value updates what a lookup by it finds. -/
theorem JsVal.selects_of_selected {key : JsVal} (h : key.isKey = true) {x : Ext} {k : String}
    (hsel : selected x key k = true) : key.selects (some k) = true := by
  cases key with
  | none => cases h
  | some j =>
    cases j with
    | str s => exact decide_eq_true (congrArg some (of_decide_eq_true hsel))
    | int n => exact decide_eq_true (congrArg some (of_decide_eq_true hsel))
    | frac t => exact decide_eq_true (congrArg some (of_decide_eq_true hsel))
    | _ => cases h

namespace History

variable (h : History) (client : Socket)

/-- The socket has started a stream for a device, under a key that names it. -/
def Streamed (d : String) : Prop :=
  ∃ r ∈ h.log, r.event = .StartStreaming ∧ r.socket = client ∧ r.key.selects (some d) = true

/-- The socket has made an offer under the account. -/
def Offered (a : String) : Prop :=
  ∃ r ∈ h.log, r.event = .Offer ∧ r.socket = client ∧ r.key = some (.str a)

/-- If the key finds a device, then it is a text that is not empty or a number,
which an update takes for the key of a row, and the socket has started a stream for
the device. -/
def SparesDevices (t : Tables) (key : JsVal) : Prop :=
  ∀ e ∈ t.emulators, key.selects (some e.device_id) = true →
    key.isKey = true ∧ h.Streamed client e.device_id

/-- The open connections that the key finds are of accounts under which the
socket has made an offer. -/
def SparesConnections (t : Tables) (key : JsVal) : Prop :=
  ∀ c, t.Finds key c → ∃ a, t.accountOf c = some a ∧ h.Offered client a

variable {h client} {h' : History}

theorem Streamed.mono (hlog : ∀ r ∈ h.log, r ∈ h'.log) {d : String} (hd : h.Streamed client d) :
    h'.Streamed client d := by
  obtain ⟨r, hr, hfacts⟩ := hd
  exact ⟨r, hlog r hr, hfacts⟩

theorem Offered.mono (hlog : ∀ r ∈ h.log, r ∈ h'.log) {a : String} (ha : h.Offered client a) :
    h'.Offered client a := by
  obtain ⟨r, hr, hfacts⟩ := ha
  exact ⟨r, hlog r hr, hfacts⟩

end History

namespace History

variable {h : History} {client : Socket} {t : Tables} {k : String}

/-- A string spares the devices of others if it is no device's id, or that of
one for which the socket has started a stream. -/
theorem sparesDevices_str
    (hk : ∀ e ∈ t.emulators, e.device_id = k → k ≠ "" ∧ h.Streamed client k) :
    h.SparesDevices client t (some (.str k)) := by
  intro e he hselects
  have hid : e.device_id = k := Option.some.inj (JsVal.selects_str.1 hselects)
  obtain ⟨hne, hstreamed⟩ := hk e he hid
  refine ⟨by simp [JsVal.isKey, hne], ?_⟩
  rw [hid]
  exact hstreamed

theorem sparesConnections_str
    (hk : ∀ c ∈ t.emulatorConnections, c.disconnected_at = none → t.accountOf c = some k →
      h.Offered client k) : h.SparesConnections client t (some (.str k)) := by
  intro c hfinds
  have haccount : t.accountOf c = some k := JsVal.selects_str.1 hfinds.2.1
  exact ⟨k, haccount, hk c hfinds.1 hfinds.2.2 haccount⟩

end History

namespace Tables

/-- What changes from one state of the tables to the next is what the end of a
socket may change: the status of devices that it has started a stream for, and
connections of accounts under which it has made an offer. -/
structure Spared (h : History) (client : Socket) (t t' : Tables) : Prop where
  devices : ∀ e ∈ t.emulators, ∀ e' ∈ t'.emulators, e'.device_id = e.device_id →
    e'.status ≠ e.status → h.Streamed client e.device_id
  connections : ∀ c ∈ t.emulatorConnections, ∀ c' ∈ t'.emulatorConnections, c'.id = c.id →
    c.disconnected_at = none → c'.disconnected_at ≠ none →
    ∃ a, t.accountOf c = some a ∧ h.Offered client a

/-- A step that changes neither. -/
theorem Spared.of_eq {h : History} {client : Socket} {t t' : Tables} (ht : t.Integrity)
    (hdevices : t'.emulators = t.emulators)
    (hconnections : t'.emulatorConnections = t.emulatorConnections) : Spared h client t t' := by
  constructor
  · intro e he e' he' hid hstatus
    rw [hdevices] at he'
    rw [eq_of_key ht.emulators he' he hid] at hstatus
    exact absurd rfl hstatus
  · intro c hc c' hc' hid hopen hclosed
    rw [hconnections] at hc'
    rw [eq_of_key ht.emulatorConnections hc' hc hid] at hclosed
    exact absurd hopen hclosed

end Tables

namespace Stage

/-- What holds of a thread that the end of the socket has started. -/
def Departs (client : Socket) (t : Tables) (h : History) : Stage → Prop
  | lookup key => ∃ r ∈ h.log, r.socket = client ∧ r.key = key
  | offline key _ => emptyCriterion key = false ∧
    ∀ e ∈ t.emulators, ∀ x, selected x key e.device_id = true → h.Streamed client e.device_id
  | announce _ => True
  | find key => ∃ r ∈ h.log, r.socket = client ∧ r.key = key
  | close id => id ≠ "" ∧ ∃ c ∈ t.emulatorConnections, c.id = id ∧
    ∃ a, t.accountOf c = some a ∧ h.Offered client a
  | ended o => o = none
  | _ => False

variable {client : Socket} {t t' : Tables} {h h' : History}

theorem Departs.mono (ht : t.Stays t') (hlog : ∀ r ∈ h.log, r ∈ h'.log) {q : Stage}
    (hq : q.Departs client t h) : q.Departs client t' h' := by
  cases q with
  | lookup key =>
    obtain ⟨r, hr, hfacts⟩ := hq
    exact ⟨r, hlog r hr, hfacts⟩
  | find key =>
    obtain ⟨r, hr, hfacts⟩ := hq
    exact ⟨r, hlog r hr, hfacts⟩
  | offline key name =>
    refine ⟨hq.1, fun e he x hsel => ?_⟩
    have hmem : e.device_id ∈ t.emulators.map Emulator.device_id := by
      rw [← ht.devices]
      exact List.mem_map_of_mem he
    obtain ⟨e', he', hid⟩ := List.mem_map.1 hmem
    rw [← hid] at hsel ⊢
    exact (hq.2 e' he' x hsel).mono hlog
  | close id =>
    obtain ⟨hid, c, hc, hcid, a, ha, hoffered⟩ := hq
    obtain ⟨c', hc', hid', hrow⟩ := ht.rows c hc
    refine ⟨hid, c', hc', hid'.trans hcid, a, ?_, hoffered.mono hlog⟩
    rw [Tables.accountOf_congr ht.assignments hrow]
    exact ha
  | announce name => exact trivial
  | ended o => exact hq
  | online key => exact hq
  | matching clientId deviceId => exact hq
  | record a => exact hq

/-- The step lemma: the thread goes on as it should, and spares what is not the
socket's. -/
theorem Departs.step {s s' : Server} {q q' : Stage} (hstep : Step s q q' s')
    (hnamed : ∀ c ∈ s.tables.emulatorConnections, c.id ≠ "")
    (hlookup : ∀ r ∈ h.log, r.socket = client → q = lookup r.key →
      r.key.bound.all s.takesText = true ∧ h.SparesDevices client s.tables r.key)
    (hfind : ∀ r ∈ h.log, r.socket = client → q = find r.key →
      r.key.bound.all s.readsId = true ∧ h.SparesConnections client s.tables r.key)
    (hq : q.Departs client s.tables h) :
    q'.Departs client s'.tables h ∧ Tables.Spared h client s.tables s'.tables := by
  cases hstep with
  | @device key e he hselects =>
    obtain ⟨r, hr, hsocket, rfl⟩ := hq
    have hspares := (hlookup r hr hsocket rfl).2
    have hkey := (hspares e he hselects).1
    exact ⟨⟨JsVal.not_emptyCriterion hkey, fun e' he' x hsel =>
      (hspares e' he' (JsVal.selects_of_selected hkey hsel)).2⟩, .of_eq s.integrity rfl rfl⟩
  | noDevice hnone => exact ⟨hq, .of_eq s.integrity rfl rfl⟩
  | @offline x key name hi hkey =>
    refine ⟨trivial, fun e he e' he' hid hstatus => ?_, fun c hc c' hc' hid hopen hclosed => ?_⟩
    · rcases mem_updateWhere.1 he' with ⟨e₀, he₀, hsel, rfl⟩ | ⟨he', -⟩
      · rw [← hid]
        exact hq.2 e₀ he₀ x hsel
      · rw [eq_of_key s.integrity.emulators he' he hid] at hstatus
        exact absurd rfl hstatus
    · rw [eq_of_key s.integrity.emulatorConnections hc' hc hid] at hclosed
      exact absurd hopen hclosed
  | offlineRefused hkey =>
    rw [hq.1] at hkey
    cases hkey
  | announce ht hc hu =>
    rw [ht]
    exact ⟨rfl, .of_eq s.integrity rfl rfl⟩
  | @found key c hc hselects hopen =>
    obtain ⟨r, hr, hsocket, rfl⟩ := hq
    refine ⟨⟨hnamed c hc, c, hc, rfl, ?_⟩, .of_eq s.integrity rfl rfl⟩
    exact (hfind r hr hsocket rfl).2 c ⟨hc, hselects, hopen⟩
  | nothing hnone => exact ⟨rfl, .of_eq s.integrity rfl rfl⟩
  | @lookupRefused key e htakes =>
    obtain ⟨r, hr, hsocket, rfl⟩ := hq
    rw [(hlookup r hr hsocket rfl).1] at htakes
    cases htakes
  | @findRefused key e hreads =>
    obtain ⟨r, hr, hsocket, rfl⟩ := hq
    rw [(hfind r hr hsocket rfl).1] at hreads
    cases hreads
  | @close now id hi hne =>
    obtain ⟨-, c₁, hc₁, hid₁, a, ha, hoffered⟩ := hq
    refine ⟨rfl, fun e he e' he' hid hstatus => ?_, fun c hc c' hc' hid hopen hclosed => ?_⟩
    · rw [eq_of_key s.integrity.emulators he' he hid] at hstatus
      exact absurd rfl hstatus
    · rcases mem_updateWhere.1 hc' with ⟨c₀, hc₀, hsel, rfl⟩ | ⟨hc', -⟩
      · have hid₀ : c₀.id = id := of_decide_eq_true hsel
        have hsame : c = c₁ :=
          eq_of_key s.integrity.emulatorConnections hc hc₁ (hid.symm.trans (hid₀.trans hid₁.symm))
        exact ⟨a, hsame ▸ ha, hoffered⟩
      · rw [eq_of_key s.integrity.emulatorConnections hc' hc hid] at hclosed
        exact absurd hopen hclosed
  | closeRefused => exact absurd rfl hq.1
  | online hkey => exact hq.elim
  | onlineRefused hkey => exact hq.elim
  | matched hm => exact hq.elim
  | unmatched hm => exact hq.elim
  | recorded hid hne ha ho => exact hq.elim
  | refused => exact hq.elim

end Stage

namespace Gateway

/-- A thread of a socket that has gone looks up only keys of the socket that the
database takes and that spare the devices of others, and looks for connections only
by keys that it reads as ids and that spare those of others. -/
def Careful (w : Gateway) : Live.Move Event Ext Server Rejection → Prop
  | .turn (.disconnect client) t => ∀ r ∈ w.note.log, r.socket = client →
    (t = (Stage.lookup r.key).task → r.key.bound.all w.state.takesText = true ∧
      w.note.SparesDevices client w.state.tables r.key) ∧
    (t = (Stage.find r.key).task → r.key.bound.all w.state.readsId = true ∧
      w.note.SparesConnections client w.state.tables r.key)
  | _ => True

/-- No thread of the socket's end has failed, and what the move changes, if it
is the turn of such a thread, is what the end of the socket may change. -/
structure Safe (client : Socket) (w : Gateway) (m : Live.Move Event Ext Server Rejection)
    (w' : Gateway) : Prop where
  resolves : ∀ e, (Event.disconnect client, .fail e) ∉ w'.threads
  spares : ∀ t, m = .turn (.disconnect client) t →
    Tables.Spared w.note client w.state.tables w'.state.tables

/-- What the runs of the gateway keep. -/
structure Departing (qs : List (Event × Stage)) (s : Server) (h : History) : Prop where
  held : ∀ p ∈ s.connections, ∃ r ∈ h.log, r.socket = p.2 ∧ r.key = p.1
  named : ∀ c ∈ s.tables.emulatorConnections, c.id ≠ ""
  departs : ∀ p ∈ qs, ∀ client, p.1 = .disconnect client → p.2.Departs client s.tables h

theorem named_step {s s' : Server} {q q' : Stage} (h : Stage.Step s q q' s')
    (hs : ∀ c ∈ s.tables.emulatorConnections, c.id ≠ "") :
    ∀ c ∈ s'.tables.emulatorConnections, c.id ≠ "" := by
  cases h with
  | announce ht hc hu =>
    rw [ht]
    exact hs
  | close hid =>
    intro c hc
    rcases mem_updateWhere.1 hc with ⟨c₀, hc₀, -, rfl⟩ | ⟨hc, -⟩
    · exact hs c₀ hc₀
    · exact hs c hc
  | recorded hid hne ha ho =>
    intro c hc
    rcases List.mem_append.1 hc with hc | hc
    · exact hs c hc
    · rw [List.mem_singleton.1 hc]
      exact hne
  | _ => exact hs

/-- The step lemma of arrivals. -/
theorem Departing.arrive {qs qs' : List (Event × Stage)} {s s' : Server} {h : History} {e : Event}
    {t : Task Ext Server Rejection} (hI : Departing qs s h) (hstarted : e.Started s s' t)
    (hqs' : ∀ p ∈ qs', p.1 = e ∧
      ((∃ o, p.2 = .ended o ∧ (e.leaver?.isSome → o = none)) ∨ p.2 ∈ e.opens s)) :
    Departing (qs ++ qs') s' (h.next s e) := by
  have hlog : ∀ r ∈ h.log, r ∈ (h.next s e).log := fun r hr => List.mem_append_left _ hr
  refine ⟨fun p hp => ?_, ?_, fun p hp client hclient => ?_⟩
  · have hold : p ∈ s.connections → ∃ r ∈ (h.next s e).log, r.socket = p.2 ∧ r.key = p.1 := by
      intro hp
      obtain ⟨r, hr, hfacts⟩ := hI.held p hp
      exact ⟨r, hlog r hr, hfacts⟩
    rw [hstarted.connections] at hp
    cases hr : registration s e with
    | none =>
      rw [hr] at hp
      exact hold hp
    | some r =>
      rw [hr] at hp
      rcases mem_set hp with hp | rfl
      · exact hold hp
      · refine ⟨r, ?_, rfl, rfl⟩
        show r ∈ h.log ++ (registration s e).toList
        rw [hr]
        exact List.mem_append_right _ (List.mem_singleton.2 rfl)
  · rw [hstarted.tables]
    exact hI.named
  · rw [hstarted.tables]
    rcases List.mem_append.1 hp with hp | hp
    · exact (hI.departs p hp client hclient).mono (.refl _) hlog
    · obtain ⟨rfl, hstage⟩ := hqs' p hp
      rw [hclient] at hstage hlog ⊢
      rcases hstage with ⟨o, ho, hnone⟩ | hopens
      · rw [ho, hnone rfl]
        exact rfl
      · obtain ⟨key, hkey, hstage⟩ := List.mem_map.1 hopens
        rw [← hstage]
        obtain ⟨r, hr, hfacts⟩ := hI.held _ (Server.mem_keysOf.1 (List.mem_reverse.1 hkey))
        exact ⟨r, hlog r hr, hfacts⟩

/-- What a turn does to the socket whose end has started the thread. -/
theorem Departing.turn {before after : List (Event × Stage)} {k : Event} {q q' : Stage}
    {s s' : Server} {h : History} (hI : Departing (before ++ (k, q) :: after) s h)
    (hstep : Stage.Step s q q' s') {client : Socket} (hk : k = .disconnect client)
    (hcareful : Careful ⟨Pool.ofPhases Stage.task (before ++ (k, q) :: after), s, h⟩
      (.turn k q.task)) :
    q'.Departs client s'.tables h ∧ Tables.Spared h client s.tables s'.tables := by
  subst hk
  refine (hI.departs (.disconnect client, q) (by simp) client rfl).step hstep hI.named ?_ ?_
  · intro r hr hsocket hq
    exact (hcareful r hr hsocket).1 (congrArg Stage.task hq)
  · intro r hr hsocket hq
    exact (hcareful r hr hsocket).2 (congrArg Stage.task hq)

/-- The step lemma: every careful move keeps what the runs keep. -/
theorem departing_step {w w' : Gateway} {m : Live.Move Event Ext Server Rejection}
    (h : Live.Step (gateway fun _ _ => False) w m w') (hcareful : w.Careful m)
    (hw : w.At Stage.task Departing) : w'.At Stage.task Departing := by
  refine Live.Step.at (C := Careful) ?_ ?_ ?_ h hcareful hw
  · intro qs s h e x hI hadmits _
    obtain ⟨client, hclient, -⟩ := hadmits
    have hstarted : e.Started s (e.start x s).1 (e.start x s).2 := Event.started hclient x s
    obtain ⟨qs', hspawn, hended⟩ := hstarted.threads
    refine ⟨qs' ++ e.opens s, hspawn, hI.arrive hstarted fun p hp => ?_⟩
    obtain ⟨q, hq, rfl⟩ := List.mem_map.1 hp
    exact ⟨rfl, (List.mem_append.1 hq).imp_left (hended q)⟩
  · intro before after k q u n x s h hI hcareful hq
    obtain ⟨q', hspawn, hstep⟩ := Stage.step_spawn hq x s
    refine ⟨[q'], hspawn, ?_, named_step hstep hI.named, fun p hp client hclient => ?_⟩
    · rw [hstep.connections]
      exact hI.held
    · have hold : p ∈ before ++ (k, q) :: after → p.2.Departs client (u x s).tables h := fun hp =>
        (hI.departs p hp client hclient).mono hstep.stays fun r hr => hr
      rcases List.mem_append.1 hp with hp | hp
      · exact hold (List.mem_append_left _ hp)
      · rcases List.mem_cons.1 hp with rfl | hp
        · exact (hI.turn hstep hclient hcareful).1
        · exact hold (List.mem_append_right _ (List.mem_cons_of_mem _ hp))
  · exact fun _ _ _ _ _ haside => haside.elim

/-- What a careful move does is safe. -/
theorem safe_step {w w' : Gateway} {m : Live.Move Event Ext Server Rejection}
    (h : Live.Step (gateway fun _ _ => False) w m w') (hcareful : w.Careful m)
    (hw : w.At Stage.task Departing) (client : Socket) : Safe client w m w' := by
  constructor
  · intro e hmem
    obtain ⟨qs, hqs, hI⟩ := departing_step h hcareful hw
    rw [hqs] at hmem
    obtain ⟨p, hp, heq⟩ := List.mem_map.1 hmem
    obtain ⟨hlabel, htask⟩ := Prod.mk.inj heq
    have hdeparts := hI.departs p hp client hlabel
    have hfin : p.2.task = .done ∨ ∃ e, True ∧ p.2.task = .fail e := .inr ⟨e, trivial, htask⟩
    obtain ⟨o, ho⟩ := Stage.ended_of_finished hfin
    rw [ho] at hdeparts htask
    rw [show o = none from hdeparts] at htask
    cases htask
  · rintro t rfl
    obtain ⟨qs, hqs, hI⟩ := hw
    obtain ⟨before, after, q, u, n, x, rfl, rfl, hq, -, hstate, -⟩ := h.turn_at hqs
    obtain ⟨q', -, hstep⟩ := Stage.step_of_task hq x w.state
    obtain ⟨ts, s, note⟩ := w
    obtain rfl : ts = _ := hqs
    rw [hstate]
    exact (hI.turn hstep rfl hcareful).2

theorem departing_start {w : Gateway} (hstart : w.Start)
    (hnamed : ∀ c ∈ w.state.tables.emulatorConnections, c.id ≠ "") :
    w.At Stage.task Departing := by
  refine ⟨[], hstart.threads, ?_, hnamed, by simp⟩
  rw [hstart.connections]
  simp

/-- **Safe departures.** In a run of careful moves, no thread that the end of a
socket has started fails, and what it changes is the socket's own. -/
theorem safe_of_careful {w₀ w : Gateway}
    {steps : List (Gateway × Live.Move Event Ext Server Rejection × Gateway)} (hstart : w₀.Start)
    (hnamed : ∀ c ∈ w₀.state.tables.emulatorConnections, c.id ≠ "")
    (hrun : Trace (Live.Step (gateway fun _ _ => False)) w₀ steps w)
    (hcareful : ∀ x ∈ steps, x.1.Careful x.2.1) :
    ∀ x ∈ steps, ∀ client, Safe client x.1 x.2.1 x.2.2 := by
  refine hrun.forall_mem_of_invariant (I := Live.At Stage.task Departing) (fun x hx hstep hw => ?_)
    (departing_start hstart hnamed)
  exact ⟨departing_step hstep (hcareful x hx) hw, safe_step hstep (hcareful x hx) hw⟩

end Gateway

/-! ## Playing departures -/

namespace History

variable (h : History) (client : Socket)

instance (d : String) : Decidable (h.Streamed client d) :=
  inferInstanceAs (Decidable (∃ r ∈ h.log, _))

instance (a : String) : Decidable (h.Offered client a) :=
  decidable_of_iff (∃ r ∈ h.log, r.event = .Offer ∧ r.socket = client ∧ r.key.isStr a = true) <| by
    unfold Offered
    simp only [JsVal.isStr_iff]

end History

namespace Sample

/-- Whether the next step of the code is its last, and fails. -/
def fails (s : Server) : Task Ext Server Rejection → Bool
  | .await _ n =>
    match n default s with
    | .fail _ => true
    | _ => false
  | _ => false

theorem takesText_of_not_fails {s : Server} {key : JsVal} (h : fails s (Stage.lookup key).task = false) :
    key.bound.all s.takesText = true := by
  obtain ⟨u, n, hq⟩ : ∃ u n, (Stage.lookup key).task = .await u n := ⟨_, _, rfl⟩
  obtain ⟨-, ⟨htakes, -⟩ | ⟨-, e, hn⟩⟩ := Repository.findReadable_step hq default s
  · exact htakes
  · rw [hq, fails, hn] at h
    cases h

theorem readsId_of_not_fails {s : Server} {key : JsVal} (h : fails s (Stage.find key).task = false) :
    key.bound.all s.readsId = true := by
  obtain ⟨u, n, hq⟩ : ∃ u n, (Stage.find key).task = .await u n := ⟨_, _, rfl⟩
  obtain ⟨-, ⟨hreads, -⟩ | ⟨-, e, hn⟩⟩ := Repository.findReadable_step hq default s
  · exact hreads
  · rw [hq, fails, hn] at h
    cases h

/-- Whether the thread that takes its turn does not fail, and the keys of its socket
are strings that spare what is not the socket's. -/
def careful (w : Gateway) : Live.Move Event Ext Server Rejection → Bool
  | .turn (.disconnect client) t => !fails w.state t && w.note.log.all fun r =>
    decide (r.socket ≠ client) || match r.key with
      | some (.str k) =>
        decide (∀ e ∈ w.state.tables.emulators, e.device_id = k →
          k ≠ "" ∧ w.note.Streamed client k) &&
        decide (∀ c ∈ w.state.tables.emulatorConnections, c.disconnected_at = none →
          w.state.tables.accountOf c = some k → w.note.Offered client k)
      | _ => false
  | _ => true

theorem careful_sound {w : Gateway} {m : Live.Move Event Ext Server Rejection}
    (h : careful w m = true) : w.Careful m := by
  unfold careful at h
  split at h
  · rename_i client t
    obtain ⟨hfails, hall⟩ := Bool.and_eq_true_iff.1 h
    have hfails : fails w.state t = false := by simpa using hfails
    intro r hr hsocket
    have hkey := List.all_eq_true.1 hall r hr
    rw [hsocket] at hkey
    split at hkey
    · rename_i k hk
      obtain ⟨hdevices, hconnections⟩ : _ ∧ _ := by simpa using hkey
      rw [hk]
      refine ⟨fun ht => ⟨takesText_of_not_fails (ht ▸ hfails), ?_⟩,
        fun ht => ⟨readsId_of_not_fails (ht ▸ hfails), ?_⟩⟩
      · exact History.sparesDevices_str fun e he hid => by simpa using hdevices e he hid
      · exact History.sparesConnections_str hconnections
    · simp at hkey
  · rename_i hnot
    unfold Gateway.Careful
    split
    · exact absurd rfl (hnot _ _)
    · exact trivial

/-- An account connects to a device, and both sockets end. -/
def comeAndGo : List (Live.Choice Event Ext) :=
  [.arrive (startStreaming "device" "e") (input ""), .turn 0 (input ""),
    .arrive (offer "client" (androidAccount "v" "v-one") "e") (input ""),
    .arrive (connect "client" (androidAccount "v" "v-one") "v-one" "e") (input ""),
    .turn 2 (input ""), .turn 2 (input "c1"), .arrive (.disconnect ⟨"client"⟩) (input ""),
    .turn 4 (input ""), .turn 4 (input ""), .turn 4 (input ""),
    .arrive (.disconnect ⟨"device"⟩) (input ""), .turn 6 (input ""), .turn 6 (input ""),
    .turn 6 (input "")]

/-- A super admin makes an offer to a device, and its socket ends. -/
def adminOffers : List (Live.Choice Event Ext) :=
  [.arrive (startStreaming "device" "e") (input ""), .turn 0 (input ""),
    .arrive (offer "admin" superAdmin "e") (input ""), .arrive (.disconnect ⟨"admin"⟩) (input ""),
    .turn 3 (input ""), .turn 3 (input "")]

/-- The thread has been started by the end of the socket, and has failed. -/
def failed (client : Socket) : Event × Task Ext Server Rejection → Bool
  | (.disconnect c, .fail _) => c = client
  | _ => false

theorem failed_sound {client : Socket} {th : Event × Task Ext Server Rejection}
    (h : failed client th = true) : ∃ e, th = (.disconnect client, .fail e) := by
  unfold failed at h
  split at h
  · rename_i c e
    exact ⟨e, by rw [of_decide_eq_true h]⟩
  · cases h

end Sample

theorem Gateway.safe_come_and_go : ∃ steps w,
    Trace (Live.Step (gateway fun _ _ => False)) Sample.idle steps w ∧
    steps.filterMap (fun x => x.2.1.event?) = [Sample.startStreaming "device" "e",
      Sample.offer "client" (Sample.androidAccount "v" "v-one") "e",
      Sample.connect "client" (Sample.androidAccount "v" "v-one") "v-one" "e",
      .disconnect ⟨"client"⟩, .disconnect ⟨"device"⟩] ∧
    (∃ c ∈ w.state.tables.emulatorConnections, c.disconnected_at ≠ none) ∧
    ∀ x ∈ steps, ∀ client, Safe client x.1 x.2.1 x.2.2 := by
  have hplay : (Live.play (gateway fun _ _ => False) Sample.careful Sample.comeAndGo
      Sample.idle).any (fun w => decide (∃ c ∈ w.state.tables.emulatorConnections,
        c.disconnected_at ≠ none)) = true := by
    decide +kernel
  obtain ⟨w, hw, hclosed⟩ := (Option.any_eq_true _ _).1 hplay
  obtain ⟨steps, hrun, hevents, hcareful⟩ := Live.trace_of_play .nil hw
  exact ⟨steps, w, hrun, hevents, of_decide_eq_true hclosed,
    Gateway.safe_of_careful Sample.idle_start (by decide) hrun
      fun x hx => Sample.careful_sound (hcareful x hx)⟩

/-- The thread that the end of a super admin's socket starts fails: its key is
undefined, which finds a device but updates none. -/
theorem Gateway.admin_departure_fails : ∃ steps w,
    Trace (Live.Step (gateway fun _ _ => False)) Sample.idle steps w ∧ Sample.idle.Start ∧
    steps.filterMap (fun x => x.2.1.event?) = [Sample.startStreaming "device" "e",
      Sample.offer "admin" Sample.superAdmin "e", .disconnect ⟨"admin"⟩] ∧
    (∃ e, (Event.disconnect ⟨"admin"⟩, .fail e) ∈ w.threads) ∧
    ¬ ∀ x ∈ steps, ∀ client, Safe client x.1 x.2.1 x.2.2 := by
  have hplay : (Live.play (gateway fun _ _ => False) (fun _ _ => true) Sample.adminOffers
      Sample.idle).any (fun w => w.threads.any (Sample.failed ⟨"admin"⟩)) = true := by
    decide +kernel
  obtain ⟨w, hw, hany⟩ := (Option.any_eq_true _ _).1 hplay
  obtain ⟨steps, hrun, hevents, -⟩ := Live.trace_of_play .nil hw
  have hfails : ∃ e, (Event.disconnect ⟨"admin"⟩, .fail e) ∈ w.threads := by
    obtain ⟨th, hth, hfailed⟩ := List.any_eq_true.1 hany
    obtain ⟨e, rfl⟩ := Sample.failed_sound hfailed
    exact ⟨e, hth⟩
  refine ⟨steps, w, hrun, Sample.idle_start, hevents, hfails, fun hsafe => ?_⟩
  obtain ⟨e, hmem⟩ := hfails
  rcases hrun.last_mem with rfl | ⟨x, hx, hlast⟩
  · cases hmem
  · rw [← hlast] at hmem
    exact (hsafe x hx ⟨"admin"⟩).resolves e hmem

end Damaru
