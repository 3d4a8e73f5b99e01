import Damaru.System
import Damaru.Verify.Screenshots
import Damaru.Verify.Threads

/-!
# Uploads of screenshots

An upload reads the device, reads it again when it saves it, and writes what
differs. Beside it the other requests that write the device take their steps;
in a second world they take the same steps without the upload. The worlds
differ in the screenshot alone as long as the upload writes nothing that it has
read before another request has changed it.
-/

namespace Damaru

open Async Table

/-- Where an upload stands: before it reads the device, before `save` reads it
again, before it writes what differs from the device it found then, or before
it inserts the device that it no longer found. -/
inductive Upload where
  | read (deviceId : String)
  | reload (e : Emulator)
  | write (e old : Emulator)
  | insert (e : Emulator)
  | ended (r : Except Rejection Emulator)

namespace Upload

/-- The columns in which the device differs from the one found are set to its
own. -/
def overwrite (e old r : Emulator) : Emulator :=
  { r with
    device_name := if e.device_name ≠ old.device_name then e.device_name else r.device_name
    status := if e.status ≠ old.status then e.status else r.status
    state := if e.state ≠ old.state then e.state else r.state
    screenshot := if e.screenshot ≠ old.screenshot then e.screenshot else r.screenshot
    details := if e.details ≠ old.details then e.details else r.details }

/-- The rest of the code. -/
def prog : Upload → Svc Emulator
  | read deviceId => EmulatorService.linkScreenshot deviceId
  | reload e => do
    EmulatorService.save e
    return e
  | write e old => do
    emulatorRepository.write e.device_id (overwrite e old)
    return e
  | insert e => do
    let _ ← emulatorRepository.insert fun _ _ => .ok e
    return e
  | ended r => Prog.ofExcept r

def task (q : Upload) : Task Ext Server Rejection := q.prog.toTask

def shot (s : Server) (d : String) (e : Emulator) : Emulator :=
  { e with
    screenshot := some (Utils.getDefaultScreenShot s.platform.SCREENSHOT_URL (d ++ ".png")) }

theorem read_prog (d : String) : (read d).prog =
    (query fun x s => .ok ((emulatorRepository.scan (fun _ e => e.device_id = d) x s.tables).head?.map
      (shot s d))) >>= fun found =>
      match found with
      | some e => (reload e).prog
      | none => (ended (.error (.http .NOT_FOUND ("Device with id " ++ d ++ " not found")))).prog := by
  refine congrArg (Bind.bind _) (funext fun found => ?_)
  cases found <;> rfl

theorem reload_prog (e : Emulator) : (reload e).prog =
    (emulatorRepository.findRow fun _ r => r.device_id = e.device_id) >>= fun reloaded =>
      match reloaded with
      | some old => if old ≠ e then (write e old).prog else (ended (.ok e)).prog
      | none => (insert e).prog := by
  show (EmulatorService.save e >>= fun _ => pure e) = _
  unfold EmulatorService.save
  rw [bind_assoc]
  refine congrArg (Bind.bind _) (funext fun reloaded => ?_)
  cases reloaded with
  | none =>
    simp only [bind_assoc, pure_bind]
    rfl
  | some old =>
    by_cases h : old ≠ e
    · simp only [if_pos h]
      rfl
    · simp only [if_neg h, pure_bind]
      rfl

/-- The atomic steps. -/
inductive Step (s : Server) : Upload → Upload → Server → Prop
  | found {d : String} {e : Emulator} : e.device_id = d → Step s (read d) (reload (shot s d e)) s
  | missing {d : String} {e : Rejection} : Step s (read d) (ended (.error e)) s
  | gone {e : Emulator} : Step s (reload e) (insert e) s
  | reloaded {e old : Emulator} : Step s (reload e) (write e old) s
  | unchanged {e : Emulator} : Step s (reload e) (ended (.ok e)) s
  | written {e old : Emulator} {h : Tables.Integrity _} : Step s (write e old) (ended (.ok e))
      (s.commit { s.tables with
        emulators := updateWhere (fun r => decide (r.device_id = e.device_id)) (overwrite e old)
          s.tables.emulators } h)
  | inserted {e : Emulator} {h : Tables.Integrity _} : Step s (insert e) (ended (.ok e))
      (s.commit { s.tables with emulators := s.tables.emulators ++ [e] } h)
  | insertRefused {e : Emulator} {err : Rejection} :
      ¬ Tables.Integrity { s.tables with emulators := s.tables.emulators ++ [e] } →
      Step s (insert e) (ended (.error err)) s

theorem step_of_task {q : Upload} {u : Ext → Server → Server}
    {n : Ext → Server → Task Ext Server Rejection} (h : q.task = .await u n) (x : Ext) (s : Server) :
    ∃ q' : Upload, n x s = q'.task ∧ Step s q q' (u x s) := by
  cases q with
  | read d =>
    unfold task at h
    rw [read_prog] at h
    obtain ⟨hu, ⟨found, hfound, hn⟩ | ⟨e, he, -⟩⟩ := query_step h x s
    · rw [hu, hn]
      cases hscan : (emulatorRepository.scan (fun _ e => e.device_id = d) x s.tables).head? with
      | some e =>
        rw [hscan] at hfound
        cases hfound
        exact ⟨reload (shot s d e), rfl, .found (of_decide_eq_true (Repository.of_scan_head hscan).2)⟩
      | none =>
        rw [hscan] at hfound
        cases hfound
        exact ⟨_, rfl, .missing⟩
    · cases he
  | reload e =>
    unfold task at h
    rw [reload_prog] at h
    obtain ⟨hu, hn⟩ := Repository.findRow_step h x s
    rw [hu, hn]
    cases (emulatorRepository.scan (fun _ r => r.device_id = e.device_id) x s.tables).head? with
    | none => exact ⟨insert e, rfl, .gone⟩
    | some old =>
      by_cases hne : old ≠ e
      · exact ⟨write e old, congrArg Prog.toTask (if_pos hne), .reloaded⟩
      · exact ⟨ended (.ok e), congrArg Prog.toTask (if_neg hne), .unchanged⟩
  | write e old =>
    have hi : ({ s.tables with
        emulators := updateWhere (fun r => decide (r.device_id = e.device_id)) (overwrite e old)
          s.tables.emulators } : Tables).Integrity := s.integrity.set_emulators fun _ => rfl
    obtain ⟨hu, hn⟩ := Repository.write_step h x s hi
    rw [hu, hn]
    exact ⟨ended (.ok e), rfl, .written⟩
  | insert e =>
    rcases Repository.insert_row_step h x s with ⟨hi, hu, hn⟩ | ⟨hi, hu, hn⟩
    · rw [hu, hn]
      exact ⟨ended (.ok e), rfl, .inserted⟩
    · rw [hu, hn]
      exact ⟨ended (.error .query), rfl, .insertRefused hi⟩
  | ended r => cases r <;> cases h

/-- The device that the upload is about. -/
def Of (d : String) : Upload → Prop
  | read deviceId => deviceId = d
  | reload e => e.device_id = d
  | write e _ => e.device_id = d
  | insert e => e.device_id = d
  | ended _ => True

theorem Of.step {d : String} {s s' : Server} {q q' : Upload} (h : Step s q q' s') (hq : q.Of d) :
    q'.Of d := by
  cases h with
  | found he => exact he.trans hq
  | gone => exact hq
  | reloaded => exact hq
  | _ => exact trivial

/-- In every column but the screenshot in which the device as read differs from
the device as found by `save`, the row has the value as read. -/
structure Current (e old r : Emulator) : Prop where
  device_name : e.device_name ≠ old.device_name → r.device_name = e.device_name
  status : e.status ≠ old.status → r.status = e.status
  state : e.state ≠ old.state → r.state = e.state
  details : e.details ≠ old.details → r.details = e.details

/-- Then, and only then, nothing is overwritten but the screenshot. -/
theorem bare_overwrite {e old r : Emulator} : (overwrite e old r).bare = r.bare ↔ Current e old r := by
  unfold Emulator.bare overwrite
  constructor
  · intro h
    simp only [Emulator.mk.injEq, true_and] at h
    obtain ⟨hname, hstatus, hstate, hdetails⟩ := h
    refine ⟨fun hne => ?_, fun hne => ?_, fun hne => ?_, fun hne => ?_⟩
    · rw [if_pos hne] at hname
      exact hname.symm
    · rw [if_pos hne] at hstatus
      exact hstatus.symm
    · rw [if_pos hne] at hstate
      exact hstate.symm
    · rw [if_pos hne] at hdetails
      exact hdetails.symm
  · intro h
    have hcolumn : ∀ {γ : Type} [DecidableEq γ] {a b c : γ}, (a ≠ b → c = a) →
        (if a ≠ b then a else c) = c := by
      intro γ _ a b c hc
      split
      · rename_i hne
        exact (hc hne).symm
      · rfl
    simp only [hcolumn h.device_name, hcolumn h.status, hcolumn h.state, hcolumn h.details]

end Upload

/-! ## The two worlds -/

/-- An upload beside other requests on devices, and these without it. -/
abbrev Uploading := Beside DeviceRequest Ext Server Rejection

namespace Uploading

/-- Nothing has run yet. -/
def start (d : String) (reqs : List DeviceRequest) (s : Server) : Uploading where
  own := (EmulatorService.linkScreenshot d).toTask
  others := reqs.flatMap fun req => Pool.threads req req.prog.toTask
  state := s
  without := (reqs.flatMap fun req => Pool.threads req req.prog.toTask, s)

/-- Every column of the device but the screenshot has the value that it has
without the upload. -/
def Agrees (d : String) (w : Uploading) : Prop :=
  (w.state.tables.emulator? (some d)).map Emulator.bare =
    (w.without.2.tables.emulator? (some d)).map Emulator.bare

/-- The upload of the device writes only what is current, and inserts the
device only if it is there again. -/
def Harmless (d : String) (w : Uploading) : Beside.Move Ext Server Rejection → Prop
  | .own t =>
    (∀ e old, e.device_id = d → t = (Upload.write e old).task →
      ∀ r ∈ w.state.tables.emulators, r.device_id = d → Upload.Current e old r) ∧
    (∀ e, e.device_id = d → t = (Upload.insert e).task →
      ∃ r ∈ w.state.tables.emulators, r.device_id = d)
  | .other _ _ => True

/-- What runs keep. -/
structure Kept (d : String) (w : Uploading) : Prop where
  inStep : w.InStep screenshotWorlds
  own : ∃ q : Upload, w.own = q.task ∧ q.Of d

theorem emulator?_bare (t : Tables) (d : String) : (t.emulator? (some d)).map Emulator.bare =
    (t.emulators.map Emulator.bare).find? fun e => decide (e.device_id = d) := by
  rw [List.find?_map]
  rfl

theorem Kept.agrees {d : String} {w : Uploading} (hw : w.Kept d) : w.Agrees d := by
  obtain ⟨l, hl, hbare⟩ := hw.inStep.states.tables
  unfold Agrees
  rw [emulator?_bare, emulator?_bare, hl]
  show _ = (l.map Emulator.bare).find? _
  rw [hbare]

theorem kept_start (d : String) (reqs : List DeviceRequest) (s : Server) : (start d reqs s).Kept d := by
  refine ⟨⟨?_, .refl s⟩, .read d, rfl, rfl⟩
  show Pool.Alike screenshotWorlds (reqs.flatMap _) (reqs.flatMap _)
  induction reqs with
  | nil => exact .nil
  | cons req reqs ih =>
    rw [List.flatMap_cons]
    exact List.rel_append (Pool.alike_threads req req.oblivious.toTask) ih

theorem emulator?_eq {t : Tables} (ht : t.Integrity) {e : Emulator} (he : e ∈ t.emulators) :
    t.emulator? (some e.device_id) = some e := Table.find?_key ht.emulators he

/-- A statement that changes screenshots only keeps the worlds in step. -/
theorem corresponds_commit {s s' : Server} (h : Corresponds s s') {l : List Emulator}
    (hl : l.map Emulator.bare = s.tables.emulators.map Emulator.bare)
    (hi : Tables.Integrity { s.tables with emulators := l }) :
    Corresponds (s.commit { s.tables with emulators := l } hi) s' := by
  obtain ⟨l', ht, hl'⟩ := h.tables
  refine ⟨h.platform, ⟨l', ht, hl'.trans hl.symm⟩, fun k => ?_⟩
  rw [Server.used_commit, List.mem_append, h.used]
  exact ⟨.inl, fun hk => hk.elim id Server.mem_used_of_mem_ids⟩

/-- A write of what is current changes the screenshot only. -/
theorem updateWhere_current {e old : Emulator} {rows : List Emulator}
    (h : ∀ r ∈ rows, r.device_id = e.device_id → Upload.Current e old r) :
    (updateWhere (fun r => decide (r.device_id = e.device_id)) (Upload.overwrite e old) rows).map
      Emulator.bare = rows.map Emulator.bare :=
  map_updateWhere_of_mem fun r hr hid => Upload.bare_overwrite.2 (h r hr (of_decide_eq_true hid))

section OwnStep

variable {d : String} {s s' : Server} {q q' : Upload} {w : Uploading}

/-- What a harmless step of the upload leaves corresponds to the world without
it. -/
theorem corresponds_step (h : Upload.Step s q q' s') (hq : q.Of d) {s₀ : Server}
    (hs : Corresponds s s₀)
    (hwrite : ∀ e old, q = .write e old →
      ∀ r ∈ s.tables.emulators, r.device_id = d → Upload.Current e old r)
    (hinsert : ∀ e, q = .insert e → ∃ r ∈ s.tables.emulators, r.device_id = d) :
    Corresponds s' s₀ := by
  cases h with
  | @written e old hi =>
    have hd : e.device_id = d := hq
    refine corresponds_commit hs (updateWhere_current fun r hr hid => ?_) hi
    exact hwrite e old rfl r hr (hid.trans hd)
  | @inserted e hi =>
    obtain ⟨r, hr, hid⟩ := hinsert e rfl
    have hnodup := hi.emulators
    rw [List.map_append, List.nodup_append] at hnodup
    have hd : e.device_id = d := hq
    exact absurd (hid.trans hd.symm) (hnodup.2.2 _ (List.mem_map_of_mem hr) _ (by simp))
  | _ => exact hs

/-- A write that leaves the worlds in agreement has been of what is current. -/
theorem current_of_agrees {e old : Emulator} (h : Upload.Step s (.write e old) q' s')
    (hagrees : (s'.tables.emulator? (some e.device_id)).map Emulator.bare =
      (s.tables.emulator? (some e.device_id)).map Emulator.bare) {r : Emulator}
    (hr : r ∈ s.tables.emulators) (hid : r.device_id = e.device_id) : Upload.Current e old r := by
  cases h with
  | @written _ _ hi =>
    have hmem : Upload.overwrite e old r ∈ updateWhere (fun r => decide (r.device_id = e.device_id))
        (Upload.overwrite e old) s.tables.emulators :=
      mem_updateWhere.2 (.inl ⟨r, hr, decide_eq_true hid, rfl⟩)
    have hafter := emulator?_eq hi hmem
    have hbefore := emulator?_eq s.integrity hr
    rw [show (Upload.overwrite e old r).device_id = e.device_id from hid] at hafter
    rw [hid] at hbefore
    rw [Server.commit_tables, hafter, hbefore] at hagrees
    exact Upload.bare_overwrite.1 (Option.some.inj hagrees)

/-- An insert that leaves the worlds in agreement has found the device there
again. -/
theorem there_of_agrees {e : Emulator} (h : Upload.Step s (.insert e) q' s')
    (hagrees : (s'.tables.emulator? (some e.device_id)).map Emulator.bare =
      (s.tables.emulator? (some e.device_id)).map Emulator.bare) :
    ∃ r ∈ s.tables.emulators, r.device_id = e.device_id := by
  by_contra hnone
  have hnew : ∀ r ∈ s.tables.emulators, r.device_id ≠ e.device_id := fun r hr hid =>
    hnone ⟨r, hr, hid⟩
  cases h with
  | insertRefused hi => exact hi (s.integrity.insert_emulator hnew)
  | @inserted _ hi =>
    have hafter := emulator?_eq hi (List.mem_append_right _ (List.mem_singleton.2 rfl))
    have hbefore : s.tables.emulator? (some e.device_id) = none :=
      List.find?_eq_none.2 fun r hr => by simpa using hnew r hr
    rw [Server.commit_tables, hafter, hbefore] at hagrees
    cases hagrees

end OwnStep

/-- The step lemma: a step of the upload is harmless if the worlds agree after
it, and keeps what runs keep if it is harmless. -/
theorem own_step {d : String} {w w' : Uploading} {t : Task Ext Server Rejection}
    (h : Beside.Step screenshotWorlds.echo w (.own t) w') (hw : w.Kept d) :
    (w'.Agrees d → w.Harmless d (.own t)) ∧ (w.Harmless d (.own t) → w'.Kept d) := by
  generalize hm : Beside.Move.own t = m at h
  cases h with
  | other hstep => cases hm
  | @own u n ts s o x =>
    cases hm
    have hbefore : (s.tables.emulator? (some d)).map Emulator.bare =
        (o.2.tables.emulator? (some d)).map Emulator.bare := hw.agrees
    constructor
    · intro hagrees
      have hsame : ((u x s).tables.emulator? (some d)).map Emulator.bare =
          (s.tables.emulator? (some d)).map Emulator.bare := hagrees.trans hbefore.symm
      constructor
      · rintro e old rfl ht r hr hid
        obtain ⟨q', -, hstep⟩ := Upload.step_of_task ht.symm x s
        exact current_of_agrees hstep hsame hr hid
      · rintro e rfl ht
        obtain ⟨q', -, hstep⟩ := Upload.step_of_task ht.symm x s
        exact there_of_agrees hstep hsame
    · intro hharmless
      obtain ⟨q, hq, hof⟩ := hw.own
      obtain ⟨q', hnext, hstep⟩ := Upload.step_of_task hq.symm x s
      refine ⟨⟨hw.inStep.others, ?_⟩, q', hnext, hof.step hstep⟩
      refine corresponds_step hstep hof hw.inStep.states ?_ ?_
      · rintro e old rfl
        exact hharmless.1 e old hof hq
      · rintro e rfl
        exact hharmless.2 e hof hq

/-- **Uploads undo nothing.** In a run, every state agrees with the world
without the upload if and only if every step of the upload is harmless. -/
theorem agrees_iff {d : String} {reqs : List DeviceRequest} {s : Server} {w : Uploading}
    {steps : List (Uploading × Beside.Move Ext Server Rejection × Uploading)}
    (hrun : Trace (Beside.Step screenshotWorlds.echo) (start d reqs s) steps w) :
    (∀ x ∈ steps, x.2.2.Agrees d) ↔ ∀ x ∈ steps, x.1.Harmless d x.2.1 := by
  refine hrun.forall_states_iff_of (I := Kept d) (P := Agrees d) ?_ (fun _ h => h.agrees)
    (kept_start d reqs s)
  rintro ⟨w, m, w'⟩ - hstep hw
  cases m with
  | own t => exact own_step hstep hw
  | other i x =>
    obtain ⟨hin, hown⟩ := hw.inStep.other hstep
    refine ⟨fun _ => trivial, fun _ => ⟨hin, ?_⟩⟩
    obtain ⟨q, hq, hof⟩ := hw.own
    exact ⟨q, hown.trans hq, hof⟩

end Uploading

/-! ## Playing uploads -/

namespace Sample

/-- A device starts to stream. -/
def streamingRequest : List DeviceRequest := [.handleStartStreaming ⟨"device"⟩ (some (.str "e"))]

/-- The upload is over before the device starts to stream. -/
def uploadFirst : List (Beside.Choice Ext) :=
  [.own (input ""), .own (input ""), .own (input ""), .other 0 (input ""), .other 0 (input "")]

/-- The device starts to stream once the upload has read it. -/
def uploadAround : List (Beside.Choice Ext) :=
  [.own (input ""), .other 0 (input ""), .other 0 (input ""), .own (input ""), .own (input "")]

end Sample

theorem Uploading.agrees_iff_first : ∃ steps w,
    Trace (Beside.Step screenshotWorlds.echo) (start "e" Sample.streamingRequest Sample.server) steps w ∧
    steps.length = 5 ∧ Pool.isEnded w.own = true ∧
    ((∀ x ∈ steps, Agrees "e" x.2.2) ↔ ∀ x ∈ steps, Harmless "e" x.1 x.2.1) := by
  have hplay : (Beside.play screenshotWorlds.echo Sample.uploadFirst
      (start "e" Sample.streamingRequest Sample.server)).any (fun w => Pool.isEnded w.own) = true := by
    decide +kernel
  obtain ⟨w, hw, hended⟩ := (Option.any_eq_true _ _).1 hplay
  obtain ⟨steps, hrun, hlength⟩ := Beside.trace_of_play .nil hw
  exact ⟨steps, w, hrun, hlength, hended, Uploading.agrees_iff hrun⟩

/-- An upload shows a device offline that has started to stream. -/
theorem Uploading.upload_undoes : ∃ steps w,
    Trace (Beside.Step screenshotWorlds.echo) (start "e" Sample.streamingRequest Sample.server) steps w ∧
    Pool.isEnded w.own = true ∧ w.others.all (fun th => Pool.isEnded th.2) = true ∧
    (w.state.tables.emulator? (some "e")).map Emulator.status = some .offline ∧
    (w.without.2.tables.emulator? (some "e")).map Emulator.status = some .online ∧
    ¬ Agrees "e" w := by
  have hplay : (Beside.play screenshotWorlds.echo Sample.uploadAround
      (start "e" Sample.streamingRequest Sample.server)).any (fun w =>
        (Pool.isEnded w.own && w.others.all fun th => Pool.isEnded th.2) &&
        decide ((w.state.tables.emulator? (some "e")).map Emulator.status = some .offline ∧
          (w.without.2.tables.emulator? (some "e")).map Emulator.status = some .online)) = true := by
    decide +kernel
  obtain ⟨w, hw, hfacts⟩ := (Option.any_eq_true _ _).1 hplay
  obtain ⟨hended, hstatus⟩ := Bool.and_eq_true_iff.1 hfacts
  obtain ⟨hown, hothers⟩ := Bool.and_eq_true_iff.1 hended
  obtain ⟨hoffline, honline⟩ := of_decide_eq_true hstatus
  obtain ⟨steps, hrun, -⟩ := Beside.trace_of_play .nil hw
  refine ⟨steps, w, hrun, hown, hothers, hoffline, honline, fun hagrees => ?_⟩
  have hstatus := congrArg (Option.map Emulator.status) hagrees
  rw [Option.map_map, Option.map_map] at hstatus
  have hsame : (w.state.tables.emulator? (some "e")).map Emulator.status =
      (w.without.2.tables.emulator? (some "e")).map Emulator.status := hstatus
  rw [hoffline, honline] at hsame
  cases hsame

end Damaru
