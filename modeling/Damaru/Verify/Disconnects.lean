import Damaru.System
import Damaru.Verify.ServiceWrites
import Damaru.Verify.Stages

/-!
# What the end of a socket closes

The threads that the end of a socket starts run beside one another. Each
closes at most one of the open connections that its key finds, and none if the
key is a device's.
-/

namespace Damaru

open Async Table

namespace Tables

/-- Some connections may have been closed; nothing that says whose they are has
changed. -/
structure Closing (t t' : Tables) : Prop where
  assignments : t'.accountEmulators = t.accountEmulators
  devices : t'.emulators.map Emulator.device_id = t.emulators.map Emulator.device_id
  rows : ∀ c' ∈ t'.emulatorConnections, ∃ c ∈ t.emulatorConnections, c.id = c'.id ∧
    c.accountEmulators = c'.accountEmulators ∧ (c'.disconnected_at = none → c.disconnected_at = none)

/-- The key is no device's. -/
def Unmatched (t : Tables) (key : JsVal) : Prop :=
  ∀ e ∈ t.emulators, key.selects (some e.device_id) = false

/-- The open connections that the key finds. -/
def Finds (t : Tables) (key : JsVal) (c : EmulatorConnections) : Prop :=
  c ∈ t.emulatorConnections ∧ key.selects (t.accountOf c) = true ∧ c.disconnected_at = none

namespace Closing

variable {t t' t'' : Tables}

theorem refl (t : Tables) : Closing t t := ⟨rfl, rfl, fun c hc => ⟨c, hc, rfl, rfl, id⟩⟩

theorem trans (h : Closing t t') (h' : Closing t' t'') : Closing t t'' := by
  refine ⟨h'.assignments.trans h.assignments, h'.devices.trans h.devices, fun c'' hc'' => ?_⟩
  obtain ⟨c', hc', hid', hrow', hopen'⟩ := h'.rows c'' hc''
  obtain ⟨c, hc, hid, hrow, hopen⟩ := h.rows c' hc'
  exact ⟨c, hc, hid.trans hid', hrow.trans hrow', fun h => hopen (hopen' h)⟩

theorem accountOf_eq (h : Closing t t') {c c' : EmulatorConnections}
    (hrow : c.accountEmulators = c'.accountEmulators) : t'.accountOf c' = t.accountOf c :=
  accountOf_congr h.assignments hrow.symm

theorem unmatched (h : Closing t t') {key : JsVal} (hkey : t'.Unmatched key) : t.Unmatched key := by
  intro e he
  have hmem : e.device_id ∈ t'.emulators.map Emulator.device_id := by
    rw [h.devices]
    exact List.mem_map_of_mem he
  obtain ⟨e', he', hid⟩ := List.mem_map.1 hmem
  rw [← hid]
  exact hkey e' he'

/-- An open connection has been open, and its key has found it. -/
theorem finds (h : Closing t t') {key : JsVal} {c' : EmulatorConnections} (hc' : t'.Finds key c') :
    ∃ c, t.Finds key c ∧ c.id = c'.id := by
  obtain ⟨hmem, hselects, hopen'⟩ := hc'
  obtain ⟨c, hc, hid, hrow, hopen⟩ := h.rows c' hmem
  rw [h.accountOf_eq hrow] at hselects
  exact ⟨c, ⟨hc, hselects, hopen hopen'⟩, hid⟩

/-- Setting columns of devices that keep their keys. -/
theorem set_emulators (t : Tables) {p : Emulator → Bool} {f : Emulator → Emulator}
    (hf : ∀ e, (f e).device_id = e.device_id) :
    Closing t { t with emulators := updateWhere p f t.emulators } :=
  ⟨rfl, map_updateWhere fun e _ => hf e, fun c hc => ⟨c, hc, rfl, rfl, id⟩⟩

theorem close (t : Tables) (p : EmulatorConnections → Bool) (now : Date) :
    Closing t { t with
      emulatorConnections := updateWhere p (fun c => { c with disconnected_at := some now })
        t.emulatorConnections } := by
  refine ⟨rfl, rfl, fun c' hc' => ?_⟩
  rcases mem_updateWhere.1 hc' with ⟨c, hc, -, rfl⟩ | ⟨hc, -⟩
  · exact ⟨c, hc, rfl, rfl, fun h => nomatch h⟩
  · exact ⟨c', hc, rfl, rfl, id⟩

end Closing

end Tables

theorem each_disconnectEmulator_closing (key : JsVal) :
    (EmulatorService.disconnectEmulator key).Each fun s s' => Tables.Closing s.tables s'.tables := by
  have hrefl : ∀ s : Server, Tables.Closing s.tables s.tables := fun s => .refl _
  refine (Repository.each_findReadable hrefl).bind fun found => ?_
  cases found with
  | some e =>
    refine Prog.Each.bind ?_ fun _ => Prog.each_op fun _ s => hrefl s
    refine Repository.each_update hrefl (fun x s f hf hi => ?_) fun s hi => hrefl s
    cases hf
    exact .set_emulators _ fun _ => rfl
  | none =>
    refine (Repository.each_findReadable hrefl).bind fun found => ?_
    cases found with
    | none => exact trivial
    | some c =>
      refine Prog.Each.bind ?_ fun _ => trivial
      refine Repository.each_update hrefl (fun x s f hf hi => ?_) fun s hi => hrefl s
      cases hf
      exact .close _ _ x.now

namespace Stage

/-- The stages of the threads that the end of a socket starts in the tables
`t`, under the keys of the list. -/
def Leaving (t : Tables) (keys : List JsVal) : Stage → Prop
  | lookup key => key ∈ keys
  | offline _ _ => True
  | announce _ => True
  | find key => key ∈ keys ∧ t.Unmatched key
  | close id => ∃ key ∈ keys, t.Unmatched key ∧ ∃ c, t.Finds key c ∧ c.id = id
  | ended _ => True
  | _ => False

/-- Whatever is closed has been closed before, or one of the keys has found
it. -/
structure ClosedBy (t : Tables) (keys : List JsVal) (t' : Tables) : Prop extends t.Closing t' where
  closed : ∀ c' ∈ t'.emulatorConnections, c'.disconnected_at ≠ none →
    ∃ c ∈ t.emulatorConnections, c.id = c'.id ∧
      (c.disconnected_at ≠ none ∨ ∃ key ∈ keys, t.Unmatched key ∧ t.Finds key c)

theorem ClosedBy.of_rows {t t' t'' : Tables} {keys : List JsVal} (h : ClosedBy t keys t')
    (hclosing : t'.Closing t'') (hrows : t''.emulatorConnections = t'.emulatorConnections) :
    ClosedBy t keys t'' :=
  ⟨h.toClosing.trans hclosing, fun c' hc' => h.closed c' (hrows ▸ hc')⟩

/-- The step lemma. -/
theorem Leaving.step {t : Tables} {keys : List JsVal} {s s' : Server} {q q' : Stage}
    (h : Step s q q' s') (hq : q.Leaving t keys) (hs : ClosedBy t keys s.tables) :
    ClosedBy t keys s'.tables ∧ q'.Leaving t keys := by
  cases h with
  | device he hselects => exact ⟨hs, trivial⟩
  | noDevice hnone => exact ⟨hs, hq, hs.toClosing.unmatched hnone⟩
  | lookupRefused hreads => exact ⟨hs, trivial⟩
  | offline hk => exact ⟨hs.of_rows (.set_emulators _ fun _ => rfl) rfl, trivial⟩
  | offlineRefused hk => exact ⟨hs, trivial⟩
  | announce ht hc hu =>
    rw [ht]
    exact ⟨hs, trivial⟩
  | found hc hselects hopen =>
    obtain ⟨c, hfinds, hid⟩ := hs.toClosing.finds ⟨hc, hselects, hopen⟩
    exact ⟨hs, _, hq.1, hq.2, c, hfinds, hid⟩
  | nothing hnone => exact ⟨hs, trivial⟩
  | findRefused hreads => exact ⟨hs, trivial⟩
  | @close now id hi hne =>
    refine ⟨⟨hs.toClosing.trans (.close _ _ now), fun c' hc' hclosed => ?_⟩, trivial⟩
    rcases mem_updateWhere.1 hc' with ⟨c₁, hc₁, hid, rfl⟩ | ⟨hc', -⟩
    · obtain ⟨key, hkey, hun, c, hfinds, rfl⟩ := hq
      refine ⟨c, hfinds.1, ?_, .inr ⟨key, hkey, hun, hfinds⟩⟩
      exact (of_decide_eq_true hid).symm
    · exact hs.closed c' hc' hclosed
  | closeRefused => exact ⟨hs, trivial⟩
  | online hk => exact hq.elim
  | onlineRefused hk => exact hq.elim
  | matched hm => exact hq.elim
  | unmatched hm => exact hq.elim
  | recorded hid hne ha ho => exact hq.elim
  | refused => exact hq.elim

/-- The connection is not open. -/
def Shut (c : EmulatorConnections) (t : Tables) : Prop :=
  ∀ c' ∈ t.emulatorConnections, c'.id = c.id → c'.disconnected_at ≠ none

theorem Shut.closing {c : EmulatorConnections} {t t' : Tables} (h : Shut c t) (hc : t.Closing t') :
    Shut c t' := by
  intro c' hc' hid hopen
  obtain ⟨c₁, hc₁, hid₁, -, hopen₁⟩ := hc.rows c' hc'
  exact h c₁ hc₁ (hid₁.trans hid) (hopen₁ hopen)

/-- The stages of the thread of a key that finds one open connection only. -/
def Aims (key : JsVal) (c : EmulatorConnections) (t : Tables) : Stage → Prop
  | lookup k => k = key
  | find k => k = key
  | close id => id = c.id
  | ended _ => Shut c t
  | _ => False

theorem Aims.closing {key : JsVal} {c : EmulatorConnections} {t t' : Tables} {q : Stage}
    (h : q.Aims key c t) (hc : t.Closing t') : q.Aims key c t' := by
  cases q with
  | ended e => exact Shut.closing h hc
  | _ => exact h

/-- The step lemma: the thread closes the connection. -/
theorem Aims.step {t : Tables} (ht : t.Integrity) {key : JsVal} {c : EmulatorConnections}
    (hun : t.Unmatched key) (hfinds : t.Finds key c) (honly : ∀ c₁, t.Finds key c₁ → c₁ = c)
    (hid : c.id ≠ "") {s s' : Server} {q q' : Stage} (h : Step s q q' s')
    (hq : q.Aims key c s.tables) (hs : t.Closing s.tables) :
    t.Closing s'.tables ∧ q'.Aims key c s'.tables := by
  have hreadable : ∀ k, k = key → k.bound.all s.takesText = true ∧ k.bound.all s.readsId = true := by
    rintro k rfl
    refine @Server.reads_of_selects s k c ?_
    rw [hs.accountOf_eq rfl]
    exact hfinds.2.1
  cases h with
  | @device k e he hselects =>
    have hmem : e.device_id ∈ t.emulators.map Emulator.device_id := by
      rw [← hs.devices]
      exact List.mem_map_of_mem he
    obtain ⟨e', he', heq⟩ := List.mem_map.1 hmem
    have hnot := hun e' he'
    rw [heq, ← (hq : k = key), hselects] at hnot
    cases hnot
  | noDevice hnone => exact ⟨hs, hq⟩
  | lookupRefused hreads =>
    rw [(hreadable _ hq).1] at hreads
    cases hreads
  | @found k c₁ hc₁ hselects hopen =>
    obtain ⟨c₀, hfinds₀, hid₀⟩ := @Tables.Closing.finds _ _ hs key c₁
      ⟨hc₁, (hq : k = key) ▸ hselects, hopen⟩
    rw [honly c₀ hfinds₀] at hid₀
    exact ⟨hs, hid₀.symm⟩
  | @nothing k hnone =>
    refine ⟨hs, fun c' hc' hid' hopen => ?_⟩
    obtain ⟨c₀, hc₀, hid₀, hrow, hopen₀⟩ := hs.rows c' hc'
    have hsame : c₀ = c := eq_of_key ht.emulatorConnections hc₀ hfinds.1 (hid₀.trans hid')
    refine hnone c' hc' ?_ hopen
    rw [hs.accountOf_eq hrow, hsame, (hq : k = key)]
    exact hfinds.2.1
  | findRefused hreads =>
    rw [(hreadable _ hq).2] at hreads
    cases hreads
  | @close now id hi hne =>
    refine ⟨hs.trans (.close _ _ now), fun c' hc' hid' => ?_⟩
    rcases mem_updateWhere.1 hc' with ⟨c₁, -, -, rfl⟩ | ⟨-, hnot⟩
    · simp
    · rw [(hq : id = c.id), hid', decide_eq_false_iff_not] at hnot
      exact absurd rfl hnot
  | closeRefused => exact absurd (hq : "" = c.id).symm hid
  | offline hk => exact hq.elim
  | offlineRefused hk => exact hq.elim
  | announce ht hc hu => exact hq.elim
  | online hk => exact hq.elim
  | onlineRefused hk => exact hq.elim
  | matched hm => exact hq.elim
  | unmatched hm => exact hq.elim
  | recorded hid hne ha ho => exact hq.elim
  | refused => exact hq.elim

end Stage

/-- The end of a socket runs the threads of the keys under which the map holds
it. -/
theorem disconnect_runs {client : Socket} {s s' : Server}
    (h : Damaru.Step s (.disconnect client) s') : ∃ t : Task Ext Server Rejection,
      t.spawn = (Stage.ended none :: ((s.keysOf client).map Stage.lookup).reverse).map Stage.task ∧
      ∃ ts, Pool.Runs (fun k _ => k) (fun _ _ _ => True) (Pool.threads () t) s ts s' ∧
        Pool.Finished (fun _ => True) ts := by
  obtain ⟨x, ts, hrun, hfin⟩ := Pool.Settles.await
    (rfl : (SignalingServerGateway.handleDisconnect client).toTask = .await _ _) h
  obtain ⟨hu, hspawn⟩ := SignalingServerGateway.handleDisconnect_step (u := _) (n := _) rfl x s
  rw [hu] at hrun
  exact ⟨_, hspawn, ts, hrun, hfin⟩

open Stage in
/-- What the end of a socket closes: connections that its keys find, and each
that is the only one its key finds. -/
theorem disconnect_closes {client : Socket} {s s' : Server} (h : Damaru.Step s (.disconnect client) s') :
    ClosedBy s.tables (s.keysOf client) s'.tables ∧
      ∀ key ∈ s.keysOf client, s.tables.Unmatched key → ∀ c, s.tables.Finds key c → c.id ≠ "" →
        (∀ c₁, s.tables.Finds key c₁ → c₁ = c) → Shut c s'.tables := by
  obtain ⟨t, hspawn, ts, hrun, hfin⟩ := disconnect_runs h
  have hstart : ∀ th ∈ Pool.threads () t, ∃ q : Stage, th.2 = q.task ∧
      (q = ended none ∨ ∃ key ∈ s.keysOf client, q = lookup key) := by
    intro th hth
    have hmem := (Pool.mem_threads.1 hth).2
    rw [hspawn] at hmem
    obtain ⟨q, hq, hqt⟩ := List.mem_map.1 hmem
    refine ⟨q, hqt.symm, (List.mem_cons.1 hq).imp_right fun hq => ?_⟩
    obtain ⟨key, hkey, rfl⟩ := List.mem_map.1 (List.mem_reverse.1 hq)
    exact ⟨key, hkey, rfl⟩
  constructor
  · have hkeeps := hrun.keeps (I := fun w => ClosedBy s.tables (s.keysOf client) w.tables)
      (T := fun _ t _ => ∃ q : Stage, t = q.task ∧ q.Leaving s.tables (s.keysOf client)) ?_ ?_ ?_
    · exact hkeeps.1
    · intro k u n x w hw hq
      obtain ⟨q, hq, hleaving⟩ := hq
      obtain ⟨q', hspawn, hstep⟩ := step_spawn hq.symm x w
      obtain ⟨hw', hleaving'⟩ := hleaving.step hstep hw
      refine ⟨hw', fun t ht => ⟨q', ?_, hleaving'⟩, fun _ _ h => h⟩
      rw [hspawn] at ht
      exact List.mem_singleton.1 ht
    · exact ⟨.refl _, fun c hc hclosed => ⟨c, hc, rfl, .inl hclosed⟩⟩
    · intro th hth
      obtain ⟨q, hq, rfl | ⟨key, hkey, rfl⟩⟩ := hstart th hth
      · exact ⟨_, hq, trivial⟩
      · exact ⟨_, hq, hkey⟩
  · intro key hkey hun c hfinds hid honly
    have hpersists := hrun.persists (R := fun w w' => w.tables.Closing w'.tables)
      (T := fun t w => s.tables.Closing w.tables ∧ ∃ q : Stage, t = q.task ∧ q.Aims key c w.tables)
      ?_ ?_ ?_ ?_
    · obtain ⟨th, hth, -, q, hq, haims⟩ := hpersists
      have hended := hfin th hth
      rw [hq] at hended
      obtain ⟨e, rfl⟩ := ended_of_finished hended
      exact haims
    · rintro u n x w ⟨hw, q, hq, haims⟩
      obtain ⟨q', hspawn, hstep⟩ := step_spawn hq.symm x w
      refine ⟨q'.task, ?_, ?_⟩
      · rw [hspawn]
        exact List.mem_singleton.2 rfl
      · obtain ⟨hclosing, haims'⟩ := haims.step s.integrity hun hfinds honly hid hstep hw
        exact ⟨hclosing, q', rfl, haims'⟩
    · rintro t w w' hclosing ⟨hw, q, hq, haims⟩
      exact ⟨hw.trans hclosing, q, hq, haims.closing hclosing⟩
    · intro th hth
      obtain ⟨q, hq, rfl | ⟨key, hkey, rfl⟩⟩ := hstart th hth
      · rw [hq]
        exact trivial
      · rw [hq]
        exact (each_disconnectEmulator_closing key).toTask
    · refine ⟨((), (lookup key).task), ?_, .refl _, lookup key, rfl, rfl⟩
      rw [Pool.mem_threads, hspawn]
      refine ⟨rfl, List.mem_map_of_mem (List.mem_cons_of_mem _ (List.mem_reverse.2 ?_))⟩
      exact List.mem_map_of_mem hkey

end Damaru
