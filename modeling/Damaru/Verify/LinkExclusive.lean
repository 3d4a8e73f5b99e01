import Damaru.System
import Damaru.Verify.ExclusivitySteps

/-!
# Runs in which turns keep apart

The invariant over whole runs, and what it comes to once every request has
finished. Without the condition on turns the law fails: two requests that
check one device before either writes its state both link it.
-/

namespace Damaru

open Async Table

namespace Phase

/-- A thread that has a turn open is at an await. -/
theorem await_of_inTurn {k : Ticket} {q : Phase} (hfit : Fits k q) (hin : InTurn (k, q)) :
    ∃ u n, q.task = .await u n := by
  cases q with
  | finished e => exact absurd rfl (hin.2 e)
  | removeDelete u =>
    have htask : (removeDelete u).task =
        (usersRepository.delete (fun a => decide (a.id = u))).toTask :=
      congrArg Prog.toTask (if_neg hfit.1)
    exact ⟨_, _, htask⟩
  | _ => exact ⟨_, _, rfl⟩

/-- The turn in which a thread takes a step conflicts with none that is open. -/
theorem Inv.turnsApart {others : List Thread} {k : Ticket} {q : Phase} {s : Server}
    (h : Inv ((k, q) :: others) s) (hok : turnsApart (Pool.ofPhases task others) k s)
    (hq : ∀ e, q ≠ finished e) : ∀ o ∈ others, InTurn o → ¬ (k.during s).Conflict o.1 := by
  intro o ho hin
  cases hk : k.turn with
  | none =>
    have hduring : k.during s = k.next s := if_neg (by rw [hk]; exact Bool.false_ne_true)
    rw [hduring]
    refine hok hk (o.1, o.2.task) (List.mem_map_of_mem ho) ?_
    exact await_of_inTurn (h.fits o (List.mem_cons_of_mem _ ho)) hin
  | some ds =>
    have hopen : k.turn.isSome = true := by rw [hk]; rfl
    have hduring : k.during s = k := if_pos hopen
    rw [hduring]
    exact (List.pairwise_cons.1 h.apart).1 o ho ⟨hopen, hq⟩ hin

/-- Either a step has failed, or the invariant holds. -/
def InvUnlessBroken (ths : List Thread) (s : Server) : Prop := Broken (ths.map Prod.snd) ∨ Inv ths s

theorem startPool_eq (requests : List LinkRequest) :
    startPool requests = Pool.ofPhases task (requests.map fun r => (r.ticket, start r)) := by
  unfold startPool Pool.ofPhases
  rw [List.flatMap_def, List.map_map]
  induction requests with
  | nil => rfl
  | cons r requests ih =>
    rw [List.map_cons, List.flatten_cons, List.map_cons, ih]
    have hspawn : Pool.threads r.ticket r.prog.toTask = [(r.ticket, (start r).task)] := by
      unfold Pool.threads
      rw [← start_prog]
      exact congrArg _ (spawn_task (start r))
    rw [hspawn]
    rfl

theorem fits_start (r : LinkRequest) : Fits r.ticket (start r) := by
  cases r with
  | link u ds => exact fits_linkLoop u ds
  | unlink u ds => exact fits_unlinkLoop u ds
  | remove u => rfl

theorem inv_start {s : Server} (h : s.tables.LinkState) (requests : List LinkRequest) :
    Inv (requests.map fun r => (r.ticket, start r)) s := by
  have hclosed : ∀ r : LinkRequest, r.ticket.turn = none := by
    intro r
    cases r with
    | link u ds => cases ds <;> rfl
    | unlink u ds => cases ds <;> rfl
    | remove u => rfl
  have hrest : ∀ th ∈ requests.map fun r => ((r.ticket, start r) : Thread), ¬ InTurn th ∧
      Fits th.1 th.2 := by
    intro th hth
    obtain ⟨r, -, rfl⟩ := List.mem_map.1 hth
    refine ⟨fun hin => ?_, fits_start r⟩
    have hopen : r.ticket.turn.isSome = true := hin.1
    rw [hclosed] at hopen
    cases hopen
  refine ⟨fun th hth => (hrest th hth).2, ?_, ?_, ?_, ?_, ?_, ?_⟩
  · exact List.pairwise_iff_forall_sublist.2 fun hab hin =>
      absurd hin (hrest _ (hab.subset List.mem_cons_self)).1
  · intro d
    by_cases hnil : s.tables.active d = []
    · rw [hnil]
      exact Nat.zero_le 1
    · obtain ⟨l, hl⟩ := List.exists_mem_of_ne_nil _ hnil
      obtain ⟨e, he, rfl⟩ := s.integrity.device_exists hl
      rcases h e he with ⟨-, hlen⟩ | ⟨-, hn⟩
      · exact Nat.le_of_eq hlen
      · exact absurd hn hnil
  · exact fun e he => (h e he).imp And.left And.left
  · intro d hnil e he hd
    subst hd
    rcases h e he with ⟨-, hlen⟩ | ⟨hst, -⟩
    · rw [hnil] at hlen
      cases hlen
    · exact .inl hst
  · intro e he hst l hl
    rcases h e he with ⟨hst', -⟩ | ⟨-, hnil⟩
    · rw [hst'] at hst
      cases hst
    · rw [hnil] at hl
      cases hl
  · exact fun th hth => .of_not_inTurn (hrest th hth).2 (hrest th hth).1

/-- **The run lemma.** In a run whose turns keep apart, a step has failed or
the invariant holds. -/
theorem inv_run {requests : List LinkRequest} {s s' : Server}
    {ts : Pool Ticket Ext Server Rejection} (h : s.tables.LinkState)
    (hrun : Pool.Runs (fun k s => k.next s) Damaru.turnsApart (startPool requests) s ts s') :
    ∃ ths, ts = Pool.ofPhases task ths ∧ InvUnlessBroken ths s' := by
  refine hrun.phases (I := InvUnlessBroken) ?_ _ (startPool_eq requests) (.inr (inv_start h requests))
  intro before after k q u n x s hinv hok htask
  obtain ⟨qs, hspawn, hstep⟩ := step_of_task htask x s
  refine ⟨qs, hspawn, ?_⟩
  have hq : ∀ e, q ≠ finished e := by
    rintro e rfl
    cases e <;> cases htask
  rcases hstep with ⟨e, he, hne⟩ | hstep
  · refine .inl ⟨e, ?_, hne⟩
    simp only [List.map_append, List.mem_append, List.map_map]
    exact .inr (.inl (List.mem_map.2 ⟨_, he, rfl⟩))
  · rcases hinv with ⟨e, he, hne⟩ | hinv
    · refine .inl ⟨e, ?_, hne⟩
      simp only [List.map_append, List.mem_append, List.map_cons, List.mem_cons] at he ⊢
      rcases he with he | he | he
      · exact .inl he
      · exact absurd he.symm (hq _)
      · exact .inr (.inr he)
    · have hinv' := hinv.perm List.perm_middle
      exact .inr ((hinv'.step (hinv'.turnsApart hok hq) hstep).perm
        (List.perm_append_comm_assoc _ _ _))

/-- Once every request has finished, states and links agree. -/
theorem InvUnlessBroken.linkState {ths : List Thread} {s : Server} (h : InvUnlessBroken ths s)
    (hfin : Pool.Finished Rejection.Explicit (Pool.ofPhases task ths)) : s.tables.LinkState := by
  rcases h with ⟨e, he, hne⟩ | h
  · obtain ⟨th, hth, heq⟩ := List.mem_map.1 he
    rcases hfin _ (List.mem_map_of_mem hth) with hd | ⟨e', he', hf⟩
    · rw [heq] at hd
      cases hd
    · rw [heq] at hf
      cases hf
      exact absurd he' hne
  · have hdone : ∀ th ∈ ths, ¬ InTurn th := by
      intro th hth hin
      obtain ⟨u, n, htask⟩ := await_of_inTurn (h.fits th hth) hin
      rcases hfin _ (List.mem_map_of_mem hth) with hd | ⟨e', -, hf⟩
      · exact absurd (htask.symm.trans hd) (by simp)
      · exact absurd (htask.symm.trans hf) (by simp)
    have hfrees : ∀ th ∈ ths, ∀ d, ¬ Frees th.2 d :=
      fun th hth d hf => hdone th hth (hf.inTurn (h.fits th hth))
    have htakes : ∀ th ∈ ths, ∀ d l, ¬ Takes th.1 th.2 d l :=
      fun th hth d l ht => hdone th hth (ht.inTurn (h.fits th hth)).1
    intro e he
    by_cases hnil : s.tables.active e.device_id = []
    · refine .inr ⟨?_, hnil⟩
      rcases h.free _ hnil e he rfl with hst | ⟨th, hth, hf⟩
      · exact hst
      · exact absurd hf (hfrees th hth _)
    · obtain ⟨l, hl⟩ := List.exists_mem_of_ne_nil _ hnil
      refine .inl ⟨?_, Nat.le_antisymm (h.links _) (List.length_pos_of_mem hl)⟩
      rcases h.states e he with hst | hst
      · exact hst
      · obtain ⟨th, hth, ht⟩ := h.taken e he hst l hl
        exact absurd ht (htakes th hth _ l)

end Phase

/-! ## One request alone -/

namespace LinkRequest

open EmulatorService in
theorem forkFree_link (u : String) (ds : List String) : (link u ds).prog.ForkFree := by
  refine Prog.ForkFree.forM (fun j => ?_) _
  refine Prog.forkFree_op.bind fun found => ?_
  split
  · refine Prog.forkFree_op.bind fun l => ?_
    refine Prog.forkFree_op.bind fun account => ?_
    cases account with
    | none => trivial
    | some a => exact Prog.forkFree_op.bind fun _ => Prog.forkFree_op.bind fun _ => trivial
  · trivial

open EmulatorService in
theorem forkFree_unlink (u : String) (ds : List String) : (unlink u ds).prog.ForkFree := by
  refine Prog.ForkFree.forM (fun j => ?_) _
  refine Prog.forkFree_op.bind fun found => ?_
  cases found with
  | none => trivial
  | some l =>
    exact Prog.forkFree_op.bind fun _ => Prog.forkFree_op.bind fun _ =>
      Prog.forkFree_op.bind fun _ => trivial

/-- A pool of one thread that never forks, or of the threads of one removal. -/
def Alone (ths : Pool Ticket Ext Server Rejection) : Prop :=
  (∃ k, ∃ p : Svc Unit, p.ForkFree ∧ ths = [(k, p.toTask)]) ∨
    ∃ u, ∀ th ∈ ths, ∃ found, th.1 = .remove u found

theorem alone_start (r : LinkRequest) : Alone (startPool [r]) := by
  have hpool : startPool [r] = Pool.threads r.ticket r.prog.toTask := List.append_nil _
  rw [hpool]
  cases r with
  | link u ds =>
    refine .inl ⟨(link u ds).ticket, _, forkFree_link u ds, ?_⟩
    rw [Pool.threads, Pool.spawn_toTask (forkFree_link u ds)]
    rfl
  | unlink u ds =>
    refine .inl ⟨(unlink u ds).ticket, _, forkFree_unlink u ds, ?_⟩
    rw [Pool.threads, Pool.spawn_toTask (forkFree_unlink u ds)]
    rfl
  | remove u => exact .inr ⟨u, fun th hth => ⟨none, (Pool.mem_threads.1 hth).1⟩⟩

theorem Alone.step {before after : Pool Ticket Ext Server Rejection} {k : Ticket}
    {u : Ext → Server → Server} {n : Ext → Server → Task Ext Server Rejection} {s : Server} {x : Ext}
    (h : Alone (before ++ (k, .await u n) :: after)) :
    turnsApart (before ++ after) k s ∧
      Alone (before ++ (Pool.threads (k.next s) (n x s) ++ after)) := by
  rcases h with ⟨j, p, hp, heq⟩ | ⟨v, hv⟩
  · obtain ⟨rfl, rfl, hk⟩ : before = [] ∧ after = [] ∧ (k, Task.await u n) = (j, p.toTask) := by
      rcases before with _ | ⟨b, before⟩
      · obtain ⟨hhead, htail⟩ := List.cons.inj heq
        exact ⟨rfl, htail, hhead⟩
      · have htail := (List.cons.inj heq).2
        rcases before with _ | ⟨_, _⟩ <;> cases htail
    refine ⟨fun _ o ho => (List.not_mem_nil ho).elim, .inl ?_⟩
    obtain ⟨-, htask⟩ := Prod.mk.inj hk
    cases p with
    | await u' n' =>
      obtain ⟨-, rfl⟩ := Task.await.inj htask
      have hspawn : ((n' x s).thenTask Prog.finish).spawn = [(n' x s).toTask] :=
        Pool.spawn_toTask (hp x s)
      refine ⟨k.next s, n' x s, hp x s, ?_⟩
      rw [List.nil_append, List.append_nil, Pool.threads, hspawn]
      rfl
    | _ => cases htask
  · obtain ⟨found, rfl⟩ := hv (k, .await u n) (by simp)
    have hnext : ∃ found', (Ticket.remove v found).next s = .remove v found' := by
      cases found with
      | none => exact ⟨_, rfl⟩
      | some ds => exact ⟨_, rfl⟩
    obtain ⟨found', hnext⟩ := hnext
    rw [hnext]
    refine ⟨fun _ o ho _ hc => ?_, .inr ⟨v, fun th hth => ?_⟩⟩
    · obtain ⟨fo, hfo⟩ := hv o (by
        rcases List.mem_append.1 ho with ho | ho
        · exact List.mem_append_left _ ho
        · exact List.mem_append_right _ (List.mem_cons_of_mem _ ho))
      have hlinks := hc.links
      rw [hnext, hfo] at hlinks
      exact hlinks.elim id id
    · rcases List.mem_append.1 hth with hth | hth
      · exact hv th (List.mem_append_left _ hth)
      · rcases List.mem_append.1 hth with hth | hth
        · exact ⟨found', (Pool.mem_threads.1 hth).1⟩
        · exact hv th (List.mem_append_right _ (List.mem_cons_of_mem _ hth))

/-- A request that settles alone is a run whose turns keep apart. -/
theorem runs_alone {r : LinkRequest} {s s' : Server}
    (h : Pool.Settles Rejection.Explicit r.prog s s') :
    ∃ ts, Pool.Runs (fun k s => k.next s) turnsApart (startPool [r]) s ts s' ∧
      Pool.Finished Rejection.Explicit ts := by
  obtain ⟨ts, hrun, hfin⟩ := h
  have hpool : startPool [r] = Pool.threads r.ticket r.prog.toTask := List.append_nil _
  have hlabels : (startPool [r]).map Prod.snd = (Pool.threads () r.prog.toTask).map Prod.snd := by
    rw [hpool]
    unfold Pool.threads
    rw [List.map_map, List.map_map]
    rfl
  obtain ⟨ls, hls, heq⟩ := hrun.lift (P := Alone) (fun _ _ _ _ _ _ _ h => h.step) hlabels
    (alone_start r)
  exact ⟨ls, hls, hfin.congr heq⟩

/-- A request alone keeps states and links in agreement. -/
theorem linkState_alone {r : LinkRequest} {s s' : Server}
    (h : Pool.Settles Rejection.Explicit r.prog s s') (hs : s.tables.LinkState) :
    s'.tables.LinkState := by
  obtain ⟨ts, hrun, hfin⟩ := runs_alone h
  obtain ⟨ths, rfl, hinv⟩ := Phase.inv_run hs hrun
  exact hinv.linkState hfin

/-- The users a request links for or unlinks from have a root account, and its
devices exist. -/
def Known (t : Tables) : LinkRequest → Prop
  | .link u ds => (∃ a ∈ t.accounts, a.user = some u ∧ a.is_admin = true) ∧
      ∀ d ∈ ds, ∃ e ∈ t.emulators, e.device_id = d
  | .unlink u ds => (∃ a ∈ t.accounts, a.user = some u ∧ a.is_admin = true) ∧
      ∀ d ∈ ds, ∃ e ∈ t.emulators, e.device_id = d
  | .remove u => ∃ a ∈ t.accounts, a.user = some u ∧ a.is_admin = true

end LinkRequest

/-! ## Link exclusivity -/

/-- **Link exclusivity.** In a run whose turns keep apart, once all requests
have finished every device has at most one link in force, and is REGISTERED if
and only if it has one. -/
theorem links_exclusive {requests : List LinkRequest} {s s' : Server}
    {ts : Pool Ticket Ext Server Rejection} (h : s.tables.LinkState)
    (hrun : Pool.Runs (fun k s => k.next s) turnsApart (startPool requests) s ts s')
    (hfin : Pool.Finished Rejection.Explicit ts) :
    (∀ d, (s'.tables.active d).length ≤ 1) ∧
      ∀ e ∈ s'.tables.emulators,
        (e.state = .REGISTERED ↔ (s'.tables.active e.device_id).length = 1) := by
  obtain ⟨ths, rfl, hinv⟩ := Phase.inv_run h hrun
  have hstate := hinv.linkState hfin
  refine ⟨fun d => ?_, fun e he => ?_⟩
  · exact ((Phase.inv_start hstate []).links d)
  · rcases hstate e he with ⟨hst, hlen⟩ | ⟨hst, hnil⟩
    · simp [hst, hlen]
    · simp [hst, hnil]

/-- The schedule on which two requests check the free device before either of
them writes its state. -/
def Sample.race : List (Nat × Ext) :=
  [(0, input ""), (1, input ""), (0, input "l1"), (0, input ""), (0, input "p1"), (0, input ""),
    (1, input "l2"), (1, input ""), (1, input "p2"), (1, input "")]

/-- Two requests that link the free device at once leave it with two links in
force. -/
theorem links_not_exclusive :
    ¬ ∀ (requests : List LinkRequest) (s s' : Server) (ts : Pool Ticket Ext Server Rejection),
      s.tables.LinkState → (∀ r ∈ requests, r.Known s.tables) →
      Pool.Runs (fun k s => Ticket.next s k) (fun _ _ _ => True) (startPool requests) s ts s' →
      Pool.Finished Rejection.Explicit ts →
      (∀ d, (s'.tables.active d).length ≤ 1) ∧
        ∀ e ∈ s'.tables.emulators,
          (e.state = .REGISTERED ↔ (s'.tables.active e.device_id).length = 1) := by
  intro h
  have hexec : ((Pool.exec (fun k s => Ticket.next s k) Sample.race
      (startPool [.link "u" ["d"], .link "v" ["d"]]) Sample.server).any fun o =>
        o.1.all (fun t => Pool.isDone t.2) && decide ((o.2.tables.active "d").length = 2)) = true := by
    decide +kernel
  obtain ⟨o, ho, hend⟩ := (Option.any_eq_true _ _).1 hexec
  rw [Bool.and_eq_true, decide_eq_true_eq] at hend
  have hlinks := (h _ _ _ _ (by decide) ?_ (Pool.runs_of_exec ho)
    (Pool.finished_of_isDone hend.1)).1 "d"
  · rw [hend.2] at hlinks
    exact absurd hlinks (by decide)
  · intro r hr
    rcases List.mem_pair.1 hr with rfl | rfl
    · exact ⟨by decide, by decide⟩
    · exact ⟨by decide, by decide⟩

namespace Sample

/-- The one links for the user whom the other removes. -/
def meets : Ticket → Ticket → Bool
  | .link u _ _, .remove v _ => u = v
  | .remove v _, .link u _ _ => u = v
  | _, _ => false

def links : Ticket → Bool
  | .link _ _ _ => true
  | _ => false

/-- Whether the turns conflict. -/
def conflicts (k j : Ticket) : Bool :=
  (links k || links j) &&
    ((k.turn.any fun ds => j.turn.any fun es => ds.any fun d => es.contains d) || meets k j)

theorem conflicts_of_conflict {k j : Ticket} (h : k.Conflict j) : conflicts k j = true := by
  have hlinks : (links k || links j) = true := by
    have hor := h.links
    cases k <;> cases j <;> first | rfl | exact hor.elim False.elim False.elim
  refine Bool.and_eq_true_iff.2 ⟨hlinks, Bool.or_eq_true_iff.2 (h.about.imp ?_ fun hmeets => ?_)⟩
  · rintro ⟨d, ⟨ds, hds, hd⟩, es, hes, hmem⟩
    rw [hds, hes]
    exact List.any_eq_true.2 ⟨d, hd, List.contains_iff_mem.2 hmem⟩
  · cases k <;> cases j <;> first | exact decide_eq_true hmeets | exact hmeets.elim

/-- Whether the turn that the step opens conflicts with none that is open. -/
def apart (others : Pool Ticket Ext Server Rejection) (k : Ticket) (s : Server) : Bool :=
  k.turn.isSome || others.all fun o => Pool.isEnded o.2 || !conflicts (k.next s) o.1

theorem apart_sound (others : Pool Ticket Ext Server Rejection) (k : Ticket) (s : Server)
    (h : apart others k s = true) : turnsApart others k s := by
  rintro hclosed o ho ⟨u, n, hawait⟩ hconflict
  unfold apart at h
  rw [hclosed, Option.isSome_none, Bool.false_or] at h
  have hfree := List.all_eq_true.1 h o ho
  rw [hawait, conflicts_of_conflict hconflict] at hfree
  cases hfree

/-- A free device is linked while another one is unlinked, which is then linked
before the first request has finished. -/
def relay : List (Nat × Ext) :=
  [(0, input ""), (1, input ""), (0, input "l1"), (1, input ""), (1, input ""), (0, input ""), (1, input ""),
    (2, input ""), (0, input "p1"), (2, input "l2"), (0, input ""), (2, input ""), (2, input "p2"), (2, input "")]

end Sample

theorem links_exclusive_interleaved : ∃ (ts : Pool Ticket Ext Server Rejection) (s' : Server),
    Pool.Runs (fun k s => k.next s) turnsApart
      (startPool [.link "u" ["d"], .unlink "v" ["e"], .link "u" ["e"]]) Sample.server ts s' ∧
    Pool.Finished Rejection.Explicit ts ∧ (s'.tables.userEmulators.map UserEmulators.id = ["link", "l1", "l2"]) ∧
    (∀ d, (s'.tables.active d).length ≤ 1) ∧
      ∀ e ∈ s'.tables.emulators, (e.state = .REGISTERED ↔ (s'.tables.active e.device_id).length = 1) := by
  have hexec : (Pool.execIf (fun k s => Ticket.next s k) Sample.apart Sample.relay
      (startPool [.link "u" ["d"], .unlink "v" ["e"], .link "u" ["e"]]) Sample.server).any (fun o =>
        o.1.all (fun t => Pool.isDone t.2) &&
          decide (o.2.tables.userEmulators.map UserEmulators.id = ["link", "l1", "l2"])) = true := by
    decide +kernel
  obtain ⟨o, ho, hend⟩ := (Option.any_eq_true _ _).1 hexec
  obtain ⟨hdone, hlinks⟩ := Bool.and_eq_true_iff.1 hend
  have hrun := Pool.runs_of_execIf Sample.apart_sound ho
  have hfin : Pool.Finished Rejection.Explicit o.1 := Pool.finished_of_isDone hdone
  exact ⟨o.1, o.2, hrun, hfin, of_decide_eq_true hlinks, links_exclusive (by decide) hrun hfin⟩

end Damaru
