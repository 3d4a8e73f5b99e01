import Damaru.Services.Emulators
import Damaru.Services.Users
import Damaru.Verify.LinkState
import Damaru.Verify.Threads
import Mathlib.Data.List.ReduceOption

/-!
# The phases of linking, unlinking and removing

Where a thread of one of the three requests that write links and device states
can stand, and what each of its atomic steps can do. `Phase.step_of_task` is
the only place that looks into the code; what holds over runs is proved from
`Step`.
-/

namespace Damaru

open Async Table

/-- The requests that begin or end links. -/
inductive LinkRequest where
  | link (userId : String) (deviceIds : List String)
  | unlink (userId : String) (deviceIds : List String)
  | remove (userId : String)

namespace LinkRequest

def linkDto (userId : String) (deviceIds : List String) : MultiDevicesLinkDto :=
  ⟨some (.arr (deviceIds.map .str)), some (.str userId)⟩

def prog : LinkRequest → Svc Unit
  | link u ds => EmulatorService.linkEmulator (linkDto u ds)
  | unlink u ds => EmulatorService.unlinkEmulator (linkDto u ds)
  | remove u => UsersService.remove u

end LinkRequest

/-- Where a thread stands: before which call, and what it carries. `ds` are
the devices of the list that are still to come. -/
inductive Phase where
  | linkCheck (u d : String) (ds : List String)
  | linkInsert (u d : String) (ds : List String)
  | linkRoot (u d : String) (ds : List String) (l : String)
  | linkAssign (u d : String) (ds : List String) (l a : String)
  | linkState (u d : String) (ds : List String)
  | unlinkFind (u d : String) (ds : List String)
  | unlinkMark (u d : String) (ds : List String) (l : String)
  | unlinkAssign (u d : String) (ds : List String) (l : String)
  | unlinkState (u d : String) (ds : List String)
  | removeFind (u : String)
  | removeLog (u : String) (devices : List (Option String))
  | removeDelete (u : String)
  | makeAvailable (d : String)
  | finished (e : Option Rejection)

namespace Phase

open EmulatorService in
def linkRest (u : String) (ds : List String) : Svc Unit :=
  forM (ds.map Json.str) fun j => linkDevice (some (.str u)) (some j)

open EmulatorService in
def unlinkRest (u : String) (ds : List String) : Svc Unit :=
  forM (ds.map Json.str) fun j => unlinkDevice (some (.str u)) (some j)

/-- The update of one device by `UsersService.remove`. -/
def makeAvailableProg (device : Option String) : Svc Unit := do
  let some device_id := device | throw (cannotRead "device_id")
  let _ ← emulatorRepository.set (some (.str device_id)) fun _ e => { e with state := .AVAILABLE }

def removeRest (u : String) (devices : List (Option String)) : Svc Unit := do
  forM devices fun device => Prog.detach (makeAvailableProg device)
  usersRepository.deleteById u

open EmulatorService in
/-- The rest of the code. -/
def prog : Phase → Svc Unit
  | linkCheck u d ds => linkRest u (d :: ds)
  | linkInsert u d ds => do
    let newLink ← insertLink (some (.str u)) (some (.str d))
    let some adminAccount ← AccountsService.findRootAccount (some (.str u)) | throw (cannotRead "id")
    let _ ← insertAssignment newLink adminAccount.id
    setState (some (.str d)) .REGISTERED
    linkRest u ds
  | linkRoot u d ds l => do
    let some adminAccount ← AccountsService.findRootAccount (some (.str u)) | throw (cannotRead "id")
    let _ ← insertAssignment l adminAccount.id
    setState (some (.str d)) .REGISTERED
    linkRest u ds
  | linkAssign u d ds l a => do
    let _ ← insertAssignment l a
    setState (some (.str d)) .REGISTERED
    linkRest u ds
  | linkState u d ds => do
    setState (some (.str d)) .REGISTERED
    linkRest u ds
  | unlinkFind u d ds => unlinkRest u (d :: ds)
  | unlinkMark u d ds l => do
    let _ ← userEmulatorRepository.set (some (.str l)) fun x l => { l with unlinked_at := some x.now }
    accountEmulatorRepository.delete fun a => a.userEmulator = some l
    setState (some (.str d)) .AVAILABLE
    unlinkRest u ds
  | unlinkAssign u d ds l => do
    accountEmulatorRepository.delete fun a => a.userEmulator = some l
    setState (some (.str d)) .AVAILABLE
    unlinkRest u ds
  | unlinkState u d ds => do
    setState (some (.str d)) .AVAILABLE
    unlinkRest u ds
  | removeFind u => UsersService.remove u
  | removeLog u devices => do
    ActivityLogService.log (some (.str Actions.DELETE_USER.text)) (some (.obj [("id", .str u)]))
    removeRest u devices
  | removeDelete u => usersRepository.deleteById u
  | makeAvailable d => makeAvailableProg (some d)
  | finished none => pure ()
  | finished (some e) => throw e

def task (q : Phase) : Task Ext Server Rejection := q.prog.toTask

/-- The head of the loop. -/
def linkLoop (u : String) : List String → Phase
  | [] => finished none
  | d :: ds => linkCheck u d ds

def unlinkLoop (u : String) : List String → Phase
  | [] => finished none
  | d :: ds => unlinkFind u d ds

theorem linkLoop_prog (u : String) : ∀ ds, (linkLoop u ds).prog = linkRest u ds
  | [] => rfl
  | _ :: _ => rfl

theorem unlinkLoop_prog (u : String) : ∀ ds, (unlinkLoop u ds).prog = unlinkRest u ds
  | [] => rfl
  | _ :: _ => rfl

/-- Where a thread of a request starts. -/
def start : LinkRequest → Phase
  | .link u ds => linkLoop u ds
  | .unlink u ds => unlinkLoop u ds
  | .remove u => removeFind u

theorem start_prog : ∀ r : LinkRequest, (start r).prog = r.prog
  | .link u ds => linkLoop_prog u ds
  | .unlink u ds => unlinkLoop_prog u ds
  | .remove _ => rfl

open EmulatorService in
theorem linkRest_cons (u d : String) (ds : List String) :
    linkRest u (d :: ds) = findEmulatorByDeviceId (some (.str d)) .REGISTERED >>= fun found =>
      if found.isNone then (linkInsert u d ds).prog
      else throw (.http .NOT_ACCEPTABLE "This device has already been linked") := by
  unfold linkRest
  rw [List.map_cons, List.forM_cons]
  unfold linkDevice
  rw [bind_assoc]
  congr 1
  funext found
  cases found with
  | none =>
    simp only [Option.isNone_none, if_true, bind_assoc, prog]
    congr 1
    funext l
    congr 1
    funext a
    cases a with
    | none => rfl
    | some a => simp only [bind_assoc]; rfl
  | some e => rfl

open EmulatorService in
theorem unlinkRest_cons (u d : String) (ds : List String) :
    unlinkRest u (d :: ds) = (userEmulatorRepository.findRow fun _ l =>
      JsVal.selects (some (.str u)) l.user && JsVal.selects (some (.str d)) l.device &&
        l.active) >>= fun found =>
      match found with
      | some l => (unlinkMark u d ds l.id).prog
      | none => unlinkRest u ds := by
  unfold unlinkRest
  rw [List.map_cons, List.forM_cons]
  unfold unlinkDevice
  rw [bind_assoc]
  congr 1
  funext found
  cases found with
  | none => rfl
  | some l => simp only [bind_assoc]; rfl

/-- The atomic steps of the three requests, less those that fail for another
reason than an exception of the services' own. -/
inductive Step (s : Server) : Phase → List Phase → Server → Prop
  | checked {u d : String} {ds : List String} :
      (∀ e ∈ s.tables.emulators, e.device_id = d → e.state ≠ .REGISTERED) →
      Step s (linkCheck u d ds) [linkInsert u d ds] s
  | linked {u d : String} {ds : List String} {e : Rejection} : e.Explicit →
      Step s (linkCheck u d ds) [finished (some e)] s
  | inserted {u d : String} {ds : List String} {l : UserEmulators} {s' : Server} :
      l.user = some u → l.device = some d → l.active = true → l.id ∉ s.used →
      s'.tables.emulators = s.tables.emulators →
      s'.tables.userEmulators = s.tables.userEmulators ++ [l] → s.used ⊆ s'.used →
      Step s (linkInsert u d ds) [linkRoot u d ds l.id] s'
  | root {u d : String} {ds : List String} {l a : String} :
      Step s (linkRoot u d ds l) [linkAssign u d ds l a] s
  | assigned {u d : String} {ds : List String} {l a : String} {s' : Server} :
      s'.tables.emulators = s.tables.emulators →
      s'.tables.userEmulators = s.tables.userEmulators → s.used ⊆ s'.used →
      Step s (linkAssign u d ds l a) [linkState u d ds] s'
  | registered {u d : String} {ds : List String} {s' : Server} :
      s'.tables.emulators = updateWhere (fun e => decide (e.device_id = d))
        (fun e => { e with state := .REGISTERED }) s.tables.emulators →
      s'.tables.userEmulators = s.tables.userEmulators → s.used ⊆ s'.used →
      Step s (linkState u d ds) [linkLoop u ds] s'
  | absent {u d : String} {ds : List String} :
      (∀ l ∈ s.tables.active d, l.user ≠ some u) →
      Step s (unlinkFind u d ds) [unlinkLoop u ds] s
  | found {u d : String} {ds : List String} {l : UserEmulators} : l ∈ s.tables.active d →
      l.user = some u → Step s (unlinkFind u d ds) [unlinkMark u d ds l.id] s
  | marked {u d : String} {ds : List String} {l : String} {now : Date} {s' : Server} :
      s'.tables.emulators = s.tables.emulators →
      s'.tables.userEmulators = updateWhere (fun r => decide (r.id = l))
        (fun r => { r with unlinked_at := some now }) s.tables.userEmulators → s.used ⊆ s'.used →
      Step s (unlinkMark u d ds l) [unlinkAssign u d ds l] s'
  | unassigned {u d : String} {ds : List String} {l : String} {s' : Server} :
      s'.tables.emulators = s.tables.emulators →
      s'.tables.userEmulators = s.tables.userEmulators → s.used ⊆ s'.used →
      Step s (unlinkAssign u d ds l) [unlinkState u d ds] s'
  | freed {u d : String} {ds : List String} {s' : Server} :
      s'.tables.emulators = updateWhere (fun e => decide (e.device_id = d))
        (fun e => { e with state := .AVAILABLE }) s.tables.emulators →
      s'.tables.userEmulators = s.tables.userEmulators → s.used ⊆ s'.used →
      Step s (unlinkState u d ds) [unlinkLoop u ds] s'
  | listed {u : String} {devices : List (Option String)} :
      (∀ k, k ∈ devices ↔ ∃ l ∈ s.tables.userEmulators, l.user = some u ∧ l.active = true ∧
        l.device = k) →
      Step s (removeFind u) [removeLog u devices] s
  | logged {u : String} {ds : List String} {s' : Server} : u ≠ "" →
      s'.tables.emulators = s.tables.emulators →
      s'.tables.userEmulators = s.tables.userEmulators → s.used ⊆ s'.used →
      Step s (removeLog u (ds.map some)) (removeDelete u :: (ds.map makeAvailable).reverse) s'
  | deleted {u : String} {s' : Server} :
      s'.tables.emulators = s.tables.emulators →
      s'.tables.userEmulators = (s.tables.userEmulators.filter fun l => l.user ≠ some u) →
      s.used ⊆ s'.used → Step s (removeDelete u) [finished none] s'
  | freedByRemoval {d : String} {s' : Server} :
      s'.tables.emulators = updateWhere (fun e => decide (e.device_id = d))
        (fun e => { e with state := .AVAILABLE }) s.tables.emulators →
      s'.tables.userEmulators = s.tables.userEmulators → s.used ⊆ s'.used →
      Step s (makeAvailable d) [finished none] s'

/-- A thread has failed for another reason than an exception of the services'
own. -/
def Broken (qs : List Phase) : Prop := ∃ e : Rejection, finished (some e) ∈ qs ∧ ¬ e.Explicit

@[simp] theorem spawn_task (q : Phase) : q.task.spawn = [q.task] := by
  cases q with
  | finished e => cases e <;> rfl
  | removeDelete u =>
    have hprog : (removeDelete u).prog = usersRepository.deleteById u := rfl
    rw [task, hprog]
    unfold Repository.deleteById
    split <;> rfl
  | _ => rfl

/-! ## Inversion -/

theorem linkLoop_task (u : String) (ds : List String) : (linkRest u ds).toTask = (linkLoop u ds).task := by
  rw [task, linkLoop_prog]

theorem unlinkLoop_task (u : String) (ds : List String) :
    (unlinkRest u ds).toTask = (unlinkLoop u ds).task := by
  rw [task, unlinkLoop_prog]

theorem used_subset_commit (s : Server) (t : Tables) (h : t.Integrity) :
    s.used ⊆ (s.commit t h).used := by
  rw [Server.used_commit]
  exact List.subset_append_left _ _

theorem broken_singleton {e : Rejection} (h : ¬ e.Explicit) : Broken [finished (some e)] :=
  ⟨e, List.mem_singleton.2 rfl, h⟩

/-- The phase of the update of one device by `UsersService.remove`. -/
def child : Option String → Phase
  | some d => makeAvailable d
  | none => finished (some (cannotRead "device_id"))

theorem child_task : ∀ k, (child k).task = (makeAvailableProg k).toTask
  | some _ => rfl
  | none => rfl

theorem spawn_removeRest (u : String) (devices : List (Option String)) :
    (removeRest u devices).toTask.spawn =
      (removeDelete u :: (devices.map child).reverse).map task := by
  have hloop : ∀ devices : List (Option String),
      ((forM devices fun device => Prog.detach (makeAvailableProg device)) >>= fun _ =>
        usersRepository.deleteById u : Svc Unit).toTask.spawn =
        (removeDelete u).task.spawn ++ ((devices.map child).reverse).map task := by
    intro devices
    induction devices with
    | nil =>
      rw [List.map_nil, List.reverse_nil, List.map_nil, List.append_nil, List.forM_nil, pure_bind,
        spawn_task]
      exact spawn_task (removeDelete u)
    | cons k devices ih =>
      rw [List.forM_cons, bind_assoc, List.map_cons, List.reverse_cons, List.map_append,
        ← List.append_assoc, ← ih, List.map_singleton, child_task]
      have hchild : (makeAvailableProg k).toTask.spawn = [(makeAvailableProg k).toTask] := by
        cases k <;> rfl
      rw [← hchild]
      rfl
  rw [List.map_cons, ← List.singleton_append, ← spawn_task]
  exact hloop devices

theorem reduceOption_map_some {devices : List (Option String)} (h : none ∉ devices) :
    devices.reduceOption.map some = devices := by
  induction devices with
  | nil => rfl
  | cons k devices ih =>
    cases k with
    | none => exact absurd List.mem_cons_self h
    | some d =>
      rw [List.reduceOption_cons_of_some, List.map_cons, ih fun hn => h (List.mem_cons_of_mem _ hn)]

/-- Once it is logged, a removal breaks, or it leaves the deletion of the user and
an update for each of the user's devices. -/
theorem spawn_removal (v : String) (devices : List (Option String)) :
    ∃ qs, (removeRest v devices).toTask.spawn = qs.map task ∧
      (Broken qs ∨ v ≠ "" ∧ ∃ ds : List String, devices = ds.map some ∧
        qs = removeDelete v :: (ds.map makeAvailable).reverse) := by
  have hspawn := spawn_removeRest v devices
  by_cases hnone : none ∈ devices
  · refine ⟨_, hspawn, .inl ⟨cannotRead "device_id", ?_, not_false⟩⟩
    rw [List.mem_cons, List.mem_reverse, List.mem_map]
    exact .inr ⟨none, hnone, rfl⟩
  · obtain ⟨ds, rfl⟩ : ∃ ds : List String, devices = ds.map some :=
      ⟨devices.reduceOption, (reduceOption_map_some hnone).symm⟩
    have hchild : (ds.map some).map child = ds.map makeAvailable := by
      rw [List.map_map]; rfl
    rw [hchild] at hspawn
    by_cases hv : v = ""
    · subst hv
      exact ⟨finished (some (.library _)) :: (ds.map makeAvailable).reverse, hspawn,
        .inl ⟨_, List.mem_cons_self, not_false⟩⟩
    · exact ⟨_, hspawn, .inr ⟨hv, ds, rfl, rfl⟩⟩

theorem removeLog_prog (u : String) (devices : List (Option String)) :
    (removeLog u devices).prog = (activityLogRepository.insert fun x s =>
      .ok ⟨x.fresh s, Actions.DELETE_USER.text, x.now, .obj [("id", .str u)]⟩) >>= fun _ =>
        removeRest u devices := by
  unfold prog ActivityLogService.log
  simp only [bind_assoc]
  rfl

open EmulatorService in
/-- Setting a state, and then the rest of the code. -/
theorem setState_step {d : String} {st : EmulatorState} {k : Svc Unit}
    {u : Ext → Server → Server} {n : Ext → Server → Task Ext Server Rejection}
    (h : (setState (some (.str d)) st >>= fun _ => k).toTask = .await u n) (x : Ext) (s : Server) :
    (n x s = k.toTask ∧ (u x s).tables.emulators =
        updateWhere (fun e => decide (e.device_id = d)) (fun e => { e with state := st })
          s.tables.emulators ∧
      (u x s).tables.userEmulators = s.tables.userEmulators ∧ s.used ⊆ (u x s).used) ∨
      ∃ e, n x s = .fail e ∧ ¬ e.Explicit := by
  unfold setState at h
  rw [bind_assoc] at h
  rcases Repository.set_step h x s with ⟨c, hn, ht, hu⟩ | ⟨-, e, hn, he⟩
  · refine .inl ⟨hn, ?_, ?_, ?_⟩
    · rw [hu]; rfl
    · rw [hu]; rfl
    · rw [hu]; exact used_subset_commit s _ ht
  · exact .inr ⟨e, hn, he⟩

/-! ### The steps of a removal -/

section Removal

variable {v : String} {u : Ext → Server → Server} {n : Ext → Server → Task Ext Server Rejection}

/-- The devices of the links of a user that are in force. -/
def Listed (t : Tables) (v : String) (devices : List (Option String)) : Prop :=
  ∀ k, k ∈ devices ↔ ∃ l ∈ t.userEmulators, l.user = some v ∧ l.active = true ∧ l.device = k

theorem removeFind_step (h : (removeFind v).task = .await u n) (x : Ext) (s : Server) :
    u x s = s ∧ ∃ devices, Listed s.tables v devices ∧ n x s = (removeLog v devices).task := by
  obtain ⟨hu, ⟨devices, hdev, hn⟩ | ⟨e, he, -⟩⟩ := query_step h x s
  · refine ⟨hu, devices, fun k => ?_, hn⟩
    rw [← Except.ok.inj hdev, List.mem_map]
    constructor
    · rintro ⟨l, hl, hk⟩
      obtain ⟨hmem, hp⟩ := Repository.mem_scan.1 hl
      simp only [Bool.and_eq_true, decide_eq_true_eq] at hp
      exact ⟨l, hmem, hp.1, hp.2, hk⟩
    · rintro ⟨l, hmem, hv, hact, hk⟩
      exact ⟨l, Repository.mem_scan.2 ⟨hmem, by simp [hv, hact]⟩, hk⟩
  · cases he

theorem removeLog_step {devices : List (Option String)} (h : (removeLog v devices).task = .await u n)
    (x : Ext) (s : Server) :
    (n x s = (removeRest v devices).toTask ∧ (u x s).tables.emulators = s.tables.emulators ∧
      (u x s).tables.userEmulators = s.tables.userEmulators ∧ s.used ⊆ (u x s).used) ∨
      (u x s = s ∧ n x s = .fail .query) := by
  rw [task, removeLog_prog] at h
  rcases Repository.insert_step h x s with ⟨r, -, hn, ht, hu⟩ | ⟨hu, e, hn, he | rfl⟩
  · refine .inl ⟨hn, ?_, ?_, ?_⟩
    · rw [hu]; rfl
    · rw [hu]; rfl
    · rw [hu]; exact used_subset_commit s _ ht
  · cases he
  · exact .inr ⟨hu, hn⟩

theorem removeDelete_step (h : (removeDelete v).task = .await u n) (x : Ext) (s : Server) :
    (n x s = .done ∧ ∃ hi, u x s = s.commit
      ({ s.tables with users := s.tables.users.filter fun a => !decide (a.id = v) } : Tables).cascade hi) ∨
      (u x s = s ∧ n x s = .fail .query) := by
  by_cases hv : v = ""
  · subst hv; cases h
  · have hprog : (removeDelete v).prog =
        usersRepository.delete (fun a => decide (a.id = v)) >>= fun _ => pure () := by
      rw [bind_pure]
      exact if_neg hv
    rw [task, hprog] at h
    exact Repository.delete_step h x s

theorem makeAvailable_step (h : (makeAvailable v).task = .await u n) (x : Ext) (s : Server) :
    (n x s = .done ∧ ∃ hi, u x s = s.commit ({ s.tables with
      emulators := updateWhere (fun e => decide (e.device_id = v))
        (fun e => { e with state := .AVAILABLE }) s.tables.emulators } : Tables) hi) ∨
      (u x s = s ∧ ∃ e, n x s = .fail e ∧ ¬ e.Explicit) := by
  rcases Repository.set_step h x s with ⟨c, hn, ht, hu⟩ | hfail
  · exact .inl ⟨hn, ht, hu⟩
  · exact .inr hfail

end Removal

/-- **What one atomic step can do.** A thread at a phase becomes threads at
phases, by a step of `Step` or by failing. -/
theorem step_of_task {q : Phase} {u : Ext → Server → Server}
    {n : Ext → Server → Task Ext Server Rejection} (h : q.task = .await u n) (x : Ext) (s : Server) :
    ∃ qs, (n x s).spawn = qs.map task ∧ (Broken qs ∨ Step s q qs (u x s)) := by
  have next : ∀ q', n x s = q'.task → Step s q [q'] (u x s) →
      ∃ qs, (n x s).spawn = qs.map task ∧ (Broken qs ∨ Step s q qs (u x s)) :=
    fun q' hq' hstep => ⟨[q'], by rw [hq', spawn_task]; rfl, .inr hstep⟩
  have fails : ∀ e, n x s = .fail e → ¬ e.Explicit →
      ∃ qs, (n x s).spawn = qs.map task ∧ (Broken qs ∨ Step s q qs (u x s)) :=
    fun e he hne => ⟨[finished (some e)], by rw [he]; rfl, .inl (broken_singleton hne)⟩
  cases q with
  | linkCheck v d ds =>
    rw [task, prog, linkRest_cons] at h
    obtain ⟨hu, hn⟩ := Repository.findRow_step h x s
    generalize hf : List.head? _ = found at hn
    cases found with
    | none =>
      refine next (linkInsert v d ds) hn ?_
      rw [hu]
      refine .checked fun e he hd hst => ?_
      exact Bool.eq_false_iff.1 (Repository.scan_head_none hf he) (by simp [hd, hst])
    | some e =>
      refine next (finished (some _)) hn ?_
      rw [hu]
      exact .linked trivial
  | linkInsert v d ds =>
    rcases Repository.insert_step h x s with ⟨l, hl, hn, ht, hu⟩ | ⟨-, e, hn, he | rfl⟩
    · have hl' := Except.ok.inj hl
      refine next (linkRoot v d ds l.id) hn (.inserted ?_ ?_ ?_ ?_ ?_ ?_ ?_)
      · rw [← hl']; rfl
      · rw [← hl']; rfl
      · rw [← hl']; rfl
      · rw [← hl']; exact Ext.fresh_not_used x s
      · rw [hu]; rfl
      · rw [hu]; rfl
      · rw [hu]; exact used_subset_commit s _ ht
    · cases he
    · exact fails _ hn not_false
  | linkRoot v d ds l =>
    obtain ⟨hu, hn⟩ := Repository.findRow_step h x s
    generalize List.head? _ = found at hn
    cases found with
    | none => exact fails _ hn not_false
    | some a =>
      refine next (linkAssign v d ds l a.id) hn ?_
      rw [hu]
      exact .root
  | linkAssign v d ds l a =>
    rcases Repository.insert_step h x s with ⟨r, -, hn, ht, hu⟩ | ⟨-, e, hn, he | rfl⟩
    · refine next (linkState v d ds) hn (.assigned ?_ ?_ ?_)
      · rw [hu]; rfl
      · rw [hu]; rfl
      · rw [hu]; exact used_subset_commit s _ ht
    · cases he
    · exact fails _ hn not_false
  | linkState v d ds =>
    rcases setState_step h x s with ⟨hn, he, hl, hused⟩ | ⟨e, hn, he⟩
    · exact next (linkLoop v ds) (hn.trans (linkLoop_task v ds)) (.registered he hl hused)
    · exact fails e hn he
  | unlinkFind v d ds =>
    rw [task, prog, unlinkRest_cons] at h
    obtain ⟨hu, hn⟩ := Repository.findRow_step h x s
    generalize hf : List.head? _ = found at hn
    cases found with
    | none =>
      refine next (unlinkLoop v ds) (hn.trans (unlinkLoop_task v ds)) ?_
      rw [hu]
      refine .absent fun l hl hlu => ?_
      obtain ⟨hmem, hld, hla⟩ := Tables.mem_active.1 hl
      exact Bool.eq_false_iff.1 (Repository.scan_head_none hf hmem) (by simp [hlu, hld, hla])
    | some l =>
      obtain ⟨hmem, hp⟩ := Repository.of_scan_head hf
      simp only [Bool.and_eq_true, JsVal.selects_str] at hp
      refine next (unlinkMark v d ds l.id) hn ?_
      rw [hu]
      exact .found (Tables.mem_active.2 ⟨hmem, hp.1.2, hp.2⟩) hp.1.1
  | unlinkMark v d ds l =>
    rcases Repository.set_step h x s with ⟨c, hn, ht, hu⟩ | ⟨-, e, hn, he⟩
    · refine next (unlinkAssign v d ds l) hn (@Step.marked s v d ds l x.now _ ?_ ?_ ?_)
      · rw [hu]; rfl
      · rw [hu]; rfl
      · rw [hu]; exact used_subset_commit s _ ht
    · exact fails e hn he
  | unlinkAssign v d ds l =>
    rcases Repository.delete_step h x s with ⟨hn, ht, hu⟩ | ⟨-, hn⟩
    · have hcascade := s.integrity.toReferences.cascade_accountEmulators
        (l := s.tables.accountEmulators.filter fun a => !decide (a.userEmulator = some l))
        fun a ha => (List.mem_filter.1 ha).1
      refine next (unlinkState v d ds) hn (.unassigned ?_ ?_ ?_)
      · rw [hu, Server.commit_tables]
        exact (congrArg Tables.emulators hcascade :)
      · rw [hu, Server.commit_tables]
        exact (congrArg Tables.userEmulators hcascade :)
      · rw [hu]
        exact used_subset_commit s _ ht
    · exact fails _ hn not_false
  | unlinkState v d ds =>
    rcases setState_step h x s with ⟨hn, he, hl, hused⟩ | ⟨e, hn, he⟩
    · exact next (unlinkLoop v ds) (hn.trans (unlinkLoop_task v ds)) (.freed he hl hused)
    · exact fails e hn he
  | removeFind v =>
    obtain ⟨hu, devices, hdev, hn⟩ := removeFind_step h x s
    refine next (removeLog v devices) hn ?_
    rw [hu]
    exact .listed hdev
  | removeLog v devices =>
    rcases removeLog_step h x s with ⟨hn, he, hl, hused⟩ | ⟨-, hn⟩
    · obtain ⟨qs, hspawn, hbroken | ⟨hv, ds, rfl, rfl⟩⟩ := spawn_removal v devices
      · exact ⟨qs, by rw [hn]; exact hspawn, .inl hbroken⟩
      · exact ⟨_, by rw [hn]; exact hspawn, .inr (.logged hv he hl hused)⟩
    · exact fails _ hn not_false
  | removeDelete v =>
    rcases removeDelete_step h x s with ⟨hn, ht, hu⟩ | ⟨-, hn⟩
    · refine next (finished none) hn (.deleted ?_ ?_ ?_)
      · rw [hu]; rfl
      · rw [hu]
        exact s.integrity.toReferences.cascade_users_userEmulators v
      · rw [hu]
        exact used_subset_commit s _ ht
    · exact fails _ hn not_false
  | makeAvailable d =>
    rcases makeAvailable_step h x s with ⟨hn, ht, hu⟩ | ⟨-, e, hn, he⟩
    · refine next (finished none) hn (.freedByRemoval ?_ ?_ ?_)
      · rw [hu]; rfl
      · rw [hu]; rfl
      · rw [hu]; exact used_subset_commit s _ ht
    · exact fails e hn he
  | finished e => cases e <;> cases h

end Phase

end Damaru
