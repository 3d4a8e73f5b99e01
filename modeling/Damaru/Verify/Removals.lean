import Damaru.Async.Failing
import Damaru.System
import Damaru.Verify.Phases

/-!
# Removing a user

`remove` starts one update for each device linked to the user and awaits none
of them: its answer comes with the deletion alone. Which of these statements
complete, and in what order, decides what a removal leaves.
-/

namespace Damaru

open Async Async.Pool Table

/-- No device is AVAILABLE while a link of it is in force, and none is
REGISTERED without one. -/
def Tables.Consistent (t : Tables) : Prop :=
  ∀ e ∈ t.emulators, (e.state = .AVAILABLE → t.active e.device_id = []) ∧
    (e.state = .REGISTERED → t.active e.device_id ≠ [])

instance (t : Tables) : Decidable t.Consistent :=
  inferInstanceAs (Decidable (∀ e ∈ t.emulators, (e.state = .AVAILABLE → t.active e.device_id = []) ∧
    (e.state = .REGISTERED → t.active e.device_id ≠ [])))

theorem Tables.Consistent.congr {t t' : Tables} (h : t.Consistent) (he : t'.emulators = t.emulators)
    (hl : t'.userEmulators = t.userEmulators) : t'.Consistent := by
  intro e hmem
  rw [he] at hmem
  rw [active_congr hl]
  exact h e hmem

/-- The user and its links are gone, and the devices that were linked to it are
AVAILABLE. -/
structure Removed (u : String) (s₀ s : Server) : Prop where
  user : ∀ v ∈ s.tables.users, v.id ≠ u
  links : ∀ l ∈ s.tables.userEmulators, l.user ≠ some u
  devices : ∀ l ∈ s₀.tables.userEmulators, l.user = some u → l.active = true →
    ∀ e ∈ s.tables.emulators, l.device = some e.device_id → e.state = .AVAILABLE

namespace Removal

open Phase

variable {u : String} {s₀ s : Server}

/-- The update of a device, which has completed or not. -/
def thread (c : String × Bool) : Task Ext Server Rejection :=
  if c.2 then .done else (makeAvailable c.1).task

/-- The devices after the updates that have completed. -/
def freed (cs : List (String × Bool)) (l : List Emulator) : List Emulator :=
  updateWhere (fun e => cs.any fun c => c.2 && decide (e.device_id = c.1))
    (fun e => { e with state := .AVAILABLE }) l

/-- A thread of a removal that is before a statement, or has failed. -/
def Pending (u : String) (t : Task Ext Server Rejection) : Prop :=
  isFailed t = true ∨ t = (removeDelete u).task ∨ ∃ d, t = (makeAvailable d).task

/-- Where an orderly removal can stand. -/
inductive Stage (u : String) (s₀ : Server) : List (Task Ext Server Rejection) → Server → Prop
  | finding : Stage u s₀ [(removeFind u).task] s₀
  | logging {devices : List (Option String)} : Listed s₀.tables u devices →
      Stage u s₀ [(removeLog u devices).task] s₀
  | freeing {cs : List (String × Bool)} {s : Server} : u ≠ "" →
      Listed s₀.tables u (cs.map fun c => some c.1) →
      s.tables.emulators = freed cs s₀.tables.emulators →
      s.tables.userEmulators = s₀.tables.userEmulators →
      Stage u s₀ ((removeDelete u).task :: cs.map thread) s
  | failed {ts : List (Task Ext Server Rejection)} {s : Server} : anyFailed ts = true →
      (∀ t ∈ ts, Pending u t) → s.tables.emulators = s₀.tables.emulators →
      s.tables.userEmulators = s₀.tables.userEmulators → Stage u s₀ ts s
  | removed {ts : List (Task Ext Server Rejection)} {s : Server} : ts.all isDone = true →
      Removed u s₀ s → Stage u s₀ ts s

theorem freed_of_none {cs : List (String × Bool)} (h : ∀ c ∈ cs, c.2 = false) (l : List Emulator) :
    freed cs l = l := by
  refine updateWhere_eq_self fun e _ hany => ?_
  obtain ⟨c, hc, hdone⟩ := List.any_eq_true.1 hany
  rw [h c hc] at hdone
  cases hdone

/-- One more update has completed. -/
theorem freed_insert (cs cs' : List (String × Bool)) (d : String) (l : List Emulator) :
    updateWhere (fun e => decide (e.device_id = d)) (fun e => { e with state := .AVAILABLE })
      (freed (cs ++ (d, false) :: cs') l) = freed (cs ++ (d, true) :: cs') l := by
  unfold freed updateWhere
  rw [List.map_map]
  refine List.map_congr_left fun e _ => ?_
  simp only [Function.comp_apply, List.any_append, List.any_cons]
  split <;> split <;> simp_all

theorem pending_thread {c : String × Bool} (h : c.2 = false) : Pending u (thread c) := by
  refine .inr (.inr ⟨c.1, ?_⟩)
  unfold thread
  rw [h]
  rfl

theorem isDone_thread {c : String × Bool} : isDone (thread c) = c.2 := by
  unfold thread
  cases c.2 <;> rfl

theorem removeDelete_task : (removeDelete u).task = (usersRepository.deleteById u).toTask := rfl

/-- The deletion has neither completed nor failed before it is issued. -/
theorem isDone_removeDelete : isDone (removeDelete u).task = false := by
  rw [removeDelete_task]
  unfold Repository.deleteById
  split <;> rfl

theorem isFailed_removeDelete (hu : u ≠ "") : isFailed (removeDelete u).task = false := by
  rw [removeDelete_task]
  unfold Repository.deleteById
  rw [if_neg hu]
  rfl

/-- The threads of a removal as it starts its updates. -/
theorem pending_removeRest {devices : List (Option String)} :
    ∀ t ∈ (removeRest u devices).toTask.spawn, Pending u t := by
  rw [spawn_removeRest]
  intro t ht
  obtain ⟨q, hq, rfl⟩ := List.mem_map.1 ht
  rcases List.mem_cons.1 hq with rfl | hq
  · exact .inr (.inl rfl)
  · obtain ⟨k, -, rfl⟩ := List.mem_map.1 (List.mem_reverse.1 hq)
    cases k with
    | none => exact .inl rfl
    | some d => exact .inr (.inr ⟨d, rfl⟩)

/-- A statement of a removal fails and leaves the state, or completes. -/
theorem Pending.step {upd : Ext → Server → Server} {n : Ext → Server → Task Ext Server Rejection}
    (h : Pending u (.await upd n)) (c : Except Rejection Ext) (s : Server) :
    (isFailed (answer c upd n s).1 = true ∧ (answer c upd n s).2 = s) ∨
      ∃ x, c = .ok x ∧ n x s = .done := by
  cases c with
  | error e => exact .inl ⟨rfl, rfl⟩
  | ok x =>
    dsimp only [answer]
    rcases h with h | h | ⟨d, h⟩
    · cases h
    · rcases removeDelete_step h.symm x s with ⟨hn, -⟩ | ⟨hu, hn⟩
      · exact .inr ⟨x, rfl, hn⟩
      · exact .inl ⟨by rw [hn]; rfl, hu⟩
    · rcases makeAvailable_step h.symm x s with ⟨hn, -⟩ | ⟨hu, e, hn, -⟩
      · exact .inr ⟨x, rfl, hn⟩
      · exact .inl ⟨by rw [hn]; rfl, hu⟩

section Step

variable {before after : List (Task Ext Server Rejection)} {upd : Ext → Server → Server}
  {n : Ext → Server → Task Ext Server Rejection} {c : Except Rejection Ext}

/-- A statement that fails before any has completed. -/
theorem Stage.fail {t : Task Ext Server Rejection} (hpending : ∀ t ∈ before ++ after, Pending u t)
    (ht : isFailed t = true) (he : s.tables.emulators = s₀.tables.emulators)
    (hl : s.tables.userEmulators = s₀.tables.userEmulators) :
    Stage u s₀ (before ++ (t.spawn ++ after)) s := by
  rw [spawn_of_isFailed ht, List.singleton_append]
  refine .failed ?_ (fun t' ht' => ?_) he hl
  · exact List.any_eq_true.2 ⟨t, List.mem_append_right _ List.mem_cons_self, ht⟩
  · rw [List.mem_append, List.mem_cons, or_left_comm, ← List.mem_append] at ht'
    rcases ht' with rfl | ht'
    · exact .inl ht
    · exact hpending t' ht'

theorem singleton_eq_split {t t' : Task Ext Server Rejection} (h : before ++ t :: after = [t']) :
    before = [] ∧ t = t' ∧ after = [] := by
  rcases before with _ | ⟨_, _ | _⟩
  · simpa using h
  · simp at h
  · simp at h

/-- Nothing has been written as the removal logs its action. -/
theorem Stage.log_step {devices : List (Option String)} (hlisted : Listed s₀.tables u devices)
    (h : (removeLog u devices).task = .await upd n) :
    Stage u s₀ (answer c upd n s₀).1.spawn (answer c upd n s₀).2 := by
  cases c with
  | error e => exact .failed rfl (fun t ht => .inl (by rw [List.mem_singleton.1 ht]; rfl)) rfl rfl
  | ok x =>
    dsimp only [answer]
    rcases removeLog_step h x s₀ with ⟨hn, he, hl, -⟩ | ⟨hu, hn⟩
    · rw [hn]
      obtain ⟨qs, hspawn, ⟨e, hbroken, -⟩ | ⟨hu, ds, rfl, rfl⟩⟩ := spawn_removal u devices
      · refine .failed ?_ pending_removeRest he hl
        rw [hspawn]
        exact List.any_eq_true.2 ⟨_, List.mem_map_of_mem hbroken, rfl⟩
      · rw [hspawn, List.map_cons]
        have hthreads : ((ds.map makeAvailable).reverse).map task =
            (ds.reverse.map fun d => (d, false)).map thread := by
          rw [← List.map_reverse, List.map_map, List.map_map]
          rfl
        rw [hthreads]
        refine .freeing hu (fun k => ?_) ?_ hl
        · rw [← hlisted k, List.map_map]
          simp
        · rw [he, freed_of_none]
          simp
    · rw [hn, hu]
      exact .failed rfl (fun t ht => .inl (by rw [List.mem_singleton.1 ht]; rfl)) rfl rfl

/-- The deletion completes after all updates. -/
theorem removed_of_deleted {cs : List (String × Bool)} (hlisted : Listed s₀.tables u (cs.map fun c => some c.1))
    (he : s.tables.emulators = freed cs s₀.tables.emulators) (hall : ∀ c ∈ cs, c.2 = true)
    {hi : ({ s.tables with users := s.tables.users.filter fun a => !decide (a.id = u) } :
      Tables).cascade.Integrity} : Removed u s₀ (s.commit _ hi) where
  user := fun v hv => by
    have hmem := (Tables.cascade_subset _).1 hv
    simpa using (List.mem_filter.1 hmem).2
  links := fun l hl => by
    rw [Server.commit_tables, s.integrity.toReferences.cascade_users_userEmulators] at hl
    simpa using (List.mem_filter.1 hl).2
  devices := by
    intro l hl huser hactive e hmem hdevice
    have hd := (hlisted l.device).2 ⟨l, hl, huser, hactive, rfl⟩
    obtain ⟨c, hc, hcd⟩ := List.mem_map.1 hd
    have hmem : e ∈ freed cs s₀.tables.emulators := he ▸ hmem
    rcases mem_updateWhere.1 hmem with ⟨e', -, -, rfl⟩ | ⟨-, hnot⟩
    · rfl
    · have hkey : e.device_id = c.1 := Option.some.inj (hdevice.symm.trans hcd.symm)
      have hc' := List.any_eq_false.1 hnot c hc
      rw [hall c hc, hkey] at hc'
      simp at hc'

/-- The threads of a removal that have not completed are waiting. -/
theorem pending_of_freeing {cs : List (String × Bool)} {t : Task Ext Server Rejection}
    (ht : t ∈ (removeDelete u).task :: cs.map thread) (hdone : isDone t = false) : Pending u t := by
  rcases List.mem_cons.1 ht with rfl | ht
  · exact .inr (.inl rfl)
  · obtain ⟨d, -, rfl⟩ := List.mem_map.1 ht
    exact pending_thread (isDone_thread.symm.trans hdone)

/-- The first statement of a removal to settle has failed: no device has been
written. -/
theorem Stage.free_fail {cs : List (String × Bool)} {t : Task Ext Server Rejection}
    (he : s.tables.emulators = freed cs s₀.tables.emulators)
    (hl : s.tables.userEmulators = s₀.tables.userEmulators)
    (hts : before ++ .await upd n :: after = (removeDelete u).task :: cs.map thread)
    (hfail : isFailed t = true) (hok : orderly before after t = true) :
    Stage u s₀ (before ++ (t.spawn ++ after)) s := by
  have hnone := none_done_of_orderly hok (by
    rw [spawn_of_isFailed hfail]
    simp [anyFailed, hfail])
  have hall : ∀ c ∈ cs, c.2 = false := by
    intro d hd
    have ht : thread d ∈ before ++ .await upd n :: after :=
      hts ▸ List.mem_cons_of_mem _ (List.mem_map_of_mem hd)
    rw [← isDone_thread]
    rw [List.mem_append, List.mem_cons, or_left_comm, ← List.mem_append] at ht
    rcases ht with ht | ht
    · rw [ht]
      rfl
    · simpa using List.any_eq_false.1 hnone _ ht
  rw [freed_of_none hall] at he
  refine .fail (fun t ht => ?_) hfail he hl
  have hmem : t ∈ before ++ .await upd n :: after := by
    rw [List.mem_append, List.mem_cons]
    exact (List.mem_append.1 ht).imp_right .inr
  exact pending_of_freeing (hts ▸ hmem) (by simpa using List.any_eq_false.1 hnone t ht)

/-- One of the updates completes. -/
theorem Stage.free_device {cb ca : List (String × Bool)} {d : String} (hu : u ≠ "")
    (hlisted : Listed s₀.tables u ((cb ++ (d, false) :: ca).map fun c => some c.1))
    (he : s.tables.emulators = freed (cb ++ (d, false) :: ca) s₀.tables.emulators)
    (hl : s.tables.userEmulators = s₀.tables.userEmulators) {hi : ({ s.tables with
      emulators := updateWhere (fun e => decide (e.device_id = d))
        (fun e => { e with state := .AVAILABLE }) s.tables.emulators } : Tables).Integrity} :
    Stage u s₀ ((removeDelete u).task :: (cb ++ (d, true) :: ca).map thread) (s.commit _ hi) := by
  refine .freeing hu ?_ ?_ hl
  · simpa using hlisted
  · rw [Server.commit_tables, ← freed_insert, ← he]

/-- A statement of a removal that is starting to free its devices. -/
theorem Stage.free_step {cs : List (String × Bool)} (hu : u ≠ "")
    (hlisted : Listed s₀.tables u (cs.map fun c => some c.1))
    (he : s.tables.emulators = freed cs s₀.tables.emulators)
    (hl : s.tables.userEmulators = s₀.tables.userEmulators)
    (hts : before ++ .await upd n :: after = (removeDelete u).task :: cs.map thread)
    (hok : orderly before after (answer c upd n s).1 = true) :
    Stage u s₀ (before ++ ((answer c upd n s).1.spawn ++ after)) (answer c upd n s).2 := by
  have hwaits : Pending u (.await upd n) := by
    have hmem : Task.await upd n ∈ before ++ .await upd n :: after :=
      List.mem_append_right before List.mem_cons_self
    exact pending_of_freeing (hts ▸ hmem) rfl
  rcases hwaits.step c s with ⟨hfail, hs⟩ | ⟨x, rfl, hn⟩
  · rw [hs]
    exact .free_fail he hl hts hfail hok
  · dsimp only [answer] at hok ⊢
    rw [hn] at hok ⊢
    cases before with
    | nil =>
      obtain ⟨hawait, rfl⟩ := List.cons.inj hts
      have hall := all_done_of_orderly hok
      rcases removeDelete_step hawait.symm x s with ⟨-, hi, hcommit⟩ | ⟨-, hn'⟩
      · rw [hcommit]
        refine .removed hall (removed_of_deleted hlisted he fun d hd => ?_)
        rw [← isDone_thread]
        exact List.all_eq_true.1 hall _ (List.mem_map_of_mem hd)
      · rw [hn] at hn'
        cases hn'
    | cons t before =>
      obtain ⟨rfl, htail⟩ := List.cons.inj hts
      obtain ⟨cb, cr, rfl, rfl, hr⟩ := List.map_eq_append_iff.1 htail.symm
      obtain ⟨⟨d, b⟩, ca, rfl, hawait, rfl⟩ := List.map_eq_cons_iff.1 hr
      cases b with
      | true => cases hawait
      | false =>
        rcases makeAvailable_step hawait x s with ⟨-, hi, hcommit⟩ | ⟨-, e, hn', -⟩
        · have hfreed := @Stage.free_device u s₀ s cb ca d hu hlisted he hl hi
          rw [hcommit]
          rwa [List.map_append, List.map_cons, ← List.cons_append] at hfreed
        · rw [hn] at hn'
          cases hn'

/-- **One statement of an orderly removal** leads from a stage to a stage. -/
theorem Stage.step (h : Stage u s₀ (before ++ .await upd n :: after) s)
    (hok : orderly before after (answer c upd n s).1 = true) :
    Stage u s₀ (before ++ ((answer c upd n s).1.spawn ++ after)) (answer c upd n s).2 := by
  generalize hts : before ++ .await upd n :: after = ts at h
  cases h with
  | finding =>
    obtain ⟨rfl, hawait, rfl⟩ := singleton_eq_split hts
    cases c with
    | error e => exact .fail (fun t ht => (List.not_mem_nil ht).elim) rfl rfl rfl
    | ok x =>
      obtain ⟨hu, devices, hlisted, hn⟩ := removeFind_step hawait.symm x s₀
      dsimp only [answer]
      rw [hn, hu, spawn_task]
      exact .logging hlisted
  | logging hlisted =>
    obtain ⟨rfl, hawait, rfl⟩ := singleton_eq_split hts
    rw [List.nil_append, List.append_nil]
    exact .log_step hlisted hawait.symm
  | freeing hu hlisted he hl => exact .free_step hu hlisted he hl hts hok
  | failed hfailed hpending he hl =>
    subst hts
    have hothers : anyFailed (before ++ after) = true := by
      unfold anyFailed at hfailed ⊢
      rw [List.any_append, List.any_cons] at hfailed
      rwa [List.any_append]
    rcases (hpending (.await upd n) (by simp)).step c s with ⟨hfail, hs⟩ | ⟨x, rfl, hn⟩
    · rw [hs]
      refine .fail (fun t ht => hpending t ?_) hfail he hl
      rw [List.mem_append, List.mem_cons]
      exact (List.mem_append.1 ht).imp_right .inr
    · dsimp only [answer] at hok
      rw [hn] at hok
      rw [none_failed_of_orderly hok rfl] at hothers
      cases hothers
  | removed hall _ =>
    rw [← hts] at hall
    simp [isDone] at hall

end Step

/-- **Removing a user.** In a removal whose first failure, if there is one, comes
before any of its statements has completed, after which none completes, and
whose deletion completes last, the user is gone and its devices are free when
the removal resolves, and states and links agree after a failure. -/
theorem removal_frees {ts : List (Task Ext Server Rejection)} (hs₀ : s₀.tables.Consistent)
    (hrun : FailingRuns (fun before after t => orderly before after t = true)
      [(UsersService.remove u).toTask] s₀ ts s) :
    ((∃ rest, ts = .done :: rest) → Removed u s₀ s) ∧
      (anyFailed ts = true → s.tables.Consistent) := by
  have hstage := hrun.invariant (I := Stage u s₀) (fun _ _ _ _ _ _ h hok => h.step hok) .finding
  cases hstage with
  | finding => exact ⟨fun ⟨rest, h⟩ => (by cases h), fun h => by cases h⟩
  | logging _ => exact ⟨fun ⟨rest, h⟩ => (by cases h), fun h => by cases h⟩
  | @freeing cs _ hu _ _ _ =>
    refine ⟨fun ⟨rest, h⟩ => ?_, fun hfailed => ?_⟩
    · have hdone := @isDone_removeDelete u
      rw [(List.cons.inj h).1] at hdone
      cases hdone
    · obtain ⟨t, ht, hfail⟩ := List.any_eq_true.1 hfailed
      rcases List.mem_cons.1 ht with rfl | ht
      · rw [isFailed_removeDelete hu] at hfail
        cases hfail
      · obtain ⟨⟨d, b⟩, -, rfl⟩ := List.mem_map.1 ht
        cases b <;> cases hfail
  | failed hfailed hpending he hl =>
    refine ⟨fun ⟨rest, h⟩ => ?_, fun _ => hs₀.congr he hl⟩
    rcases hpending .done (h ▸ List.mem_cons_self) with h | h | ⟨d, h⟩
    · cases h
    · have hdone := @isDone_removeDelete u
      rw [← h] at hdone
      cases hdone
    · cases h
  | removed hall h =>
    refine ⟨fun _ => h, fun hfailed => ?_⟩
    obtain ⟨t, ht, hfail⟩ := List.any_eq_true.1 hfailed
    have hdone := isDone_iff.1 (List.all_eq_true.1 hall t ht)
    rw [hdone] at hfail
    cases hfail

end Removal

/-- The lookup, the entry in the log, the update of the one device and the
deletion complete, in this order. -/
theorem removal_frees_sample : ∃ s₀ ts s, Reachable s₀ ∧
    FailingRuns (fun before after t => orderly before after t = true)
      [(UsersService.remove "v").toTask] s₀ ts s ∧ (∃ rest, ts = .done :: rest) ∧ Removed "v" s₀ s := by
  have hrun : (playAll (Sample.history ++ []) Sample.seeded).any (fun s₀ =>
      decide s₀.tables.Consistent &&
        (execFailing orderly
          [(0, .ok (Sample.input "")), (0, .ok (Sample.input "g5")), (1, .ok (Sample.input "")),
            (0, .ok (Sample.input ""))]
          [(UsersService.remove "v").toTask] s₀).any fun o => o.1.head?.any isDone) = true := by
    decide +kernel
  obtain ⟨s₀, hplay, hrun⟩ := (Option.any_eq_true _ _).1 hrun
  obtain ⟨hcons, hrun⟩ := Bool.and_eq_true_iff.1 hrun
  obtain ⟨o, ho, hdone⟩ := (Option.any_eq_true _ _).1 hrun
  have hrun := failingRuns_of_exec (fun _ _ _ h => h) ho
  obtain ⟨t, ht, hdone⟩ := (Option.any_eq_true _ _).1 hdone
  obtain ⟨rest, hrest⟩ := List.head?_eq_some_iff.1 ht
  have hresolved : ∃ rest, o.1 = .done :: rest := ⟨rest, isDone_iff.1 hdone ▸ hrest⟩
  exact ⟨s₀, o.1, o.2, Sample.reachable hplay, hrun, hresolved,
    (Removal.removal_frees (of_decide_eq_true hcons) hrun).1 hresolved⟩

/-- The deletion completes before the update of the device: the removal has
resolved, and the device is still REGISTERED. -/
theorem removal_answers_early : ∃ s₀ ts s, Reachable s₀ ∧ s₀.tables.Consistent ∧
    FailingRuns (fun _ _ _ => True) [(UsersService.remove "v").toTask] s₀ ts s ∧
    (∃ rest, ts = .done :: rest) ∧ ¬ Removed "v" s₀ s := by
  have hrun : (playAll (Sample.history ++ []) Sample.seeded).any (fun s₀ =>
      decide s₀.tables.Consistent &&
        s₀.tables.userEmulators.any (fun l => decide (l.user = some "v" ∧ l.active = true ∧ l.device = some "e")) &&
        (execFailing (fun _ _ _ => true)
          [(0, .ok (Sample.input "")), (0, .ok (Sample.input "g5")), (0, .ok (Sample.input ""))]
          [(UsersService.remove "v").toTask] s₀).any fun o => o.1.head?.any isDone &&
            o.2.tables.emulators.any fun e => decide (e.device_id = "e" ∧ e.state = .REGISTERED)) = true := by
    decide +kernel
  obtain ⟨s₀, hplay, hrun⟩ := (Option.any_eq_true _ _).1 hrun
  simp only [Bool.and_eq_true, List.any_eq_true, Option.any_eq_true, decide_eq_true_eq] at hrun
  obtain ⟨⟨hcons, l, hl, huser, hactive, hdevice⟩, o, ho, ⟨t, ht, hdone⟩, e, he, hkey, hstate⟩ := hrun
  obtain ⟨rest, hrest⟩ := List.head?_eq_some_iff.1 ht
  refine ⟨s₀, o.1, o.2, Sample.reachable hplay, hcons, failingRuns_of_exec (fun _ _ _ _ => trivial) ho,
    ⟨rest, isDone_iff.1 hdone ▸ hrest⟩, fun hremoved => ?_⟩
  have havailable := hremoved.devices l hl huser hactive e he (by rw [hdevice, hkey])
  rw [hstate] at havailable
  cases havailable

end Damaru
