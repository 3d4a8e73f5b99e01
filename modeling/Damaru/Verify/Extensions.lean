import Damaru.Async.Serial
import Damaru.System
import Damaru.Verify.Threads
import Mathlib

/-!
# Extending a link

`extend` reads the date at which a link expires and writes a later one. Requests
that extend one link at a time add up, as far as there are dates; of two that
both read before either writes, one is lost.
-/

namespace Damaru

open Async Table Async.Pool

namespace EmulatorService

/-- The date at which a link expires. -/
def expiry (id : String) (s : Server) : Option Date :=
  (s.tables.userEmulator? (some id)).map UserEmulators.expires_at

/-- A request to extend the link of a device and a user. -/
def extension (device user : String) (days : Int) : ExtendExpiryDto :=
  ⟨some (.str device), some (.str user), some (.int days)⟩

/-- Concurrent requests to extend a link by these numbers of days. -/
def extensions (device user : String) (days : List Int) :
    Pool (Turn Int (Option Date)) Ext Server Rejection :=
  days.map fun n => (⟨n, 0, none⟩, (extend (extension device user n)).toTask)

/-- What `extend` does once it has found a link. -/
def extendTo (days : JsVal) (exist : UserEmulators) : Svc Unit := do
  let _ ← userEmulatorRepository.update (some (.str exist.id)) fun _ s =>
    match (DateUtils.amount s.platform days).bind fun days => DateUtils.add days exist.expires_at with
    | none => .error .query
    | some expires_at => .ok (some fun l => { l with expires_at })

theorem extend_eq (dto : ExtendExpiryDto) : extend dto =
    userEmulatorRepository.findRow (fun _ l => dto.deviceId.selects l.device && dto.userId.selects l.user) >>=
      fun exist => exist.elim (pure ()) (extendTo dto.days) := by
  unfold extend findUserEmulator extendTo
  refine congrArg _ (funext fun exist => ?_)
  cases exist <;> rfl

/-- The date that an extension leaves: the old one, if there is no later one. -/
def extended (days : Int) (date : Date) : Date := (DateUtils.add days date).getD date

theorem extended_eq {days : Int} {date : Date} (h : DateUtils.isDate (DateUtils.shift days date) = true) :
    extended days date = DateUtils.shift days date := by
  unfold extended
  rw [DateUtils.add_of_isDate h]
  rfl

/-- The link is the only row that the lookup of its device and user finds. -/
structure Sole (id device user : String) (s : Server) : Prop where
  found : ∃ l ∈ s.tables.userEmulators, l.id = id ∧ l.device = some device ∧ l.user = some user
  sole : ∀ l ∈ s.tables.userEmulators, l.device = some device → l.user = some user → l.id = id

theorem Sole.expiry_eq {id device user : String} {s : Server} (h : Sole id device user s) :
    ∃ l ∈ s.tables.userEmulators, l.id = id ∧ expiry id s = some l.expires_at := by
  obtain ⟨l, hl, rfl, -⟩ := h.found
  refine ⟨l, hl, rfl, ?_⟩
  unfold expiry
  rw [s.integrity.toKeys.userEmulator?_eq hl]
  rfl

/-- A new date leaves the link where it is. -/
theorem Sole.set {id device user : String} {s : Server} {date : Date} (h : Sole id device user s)
    (hi : (userEmulatorRepository.put (updateWhere (fun l => decide (l.id = id))
      (fun l => { l with expires_at := date }) s.tables.userEmulators) s.tables).Integrity) :
    Sole id device user (s.commit _ hi) ∧ expiry id (s.commit _ hi) = some date := by
  obtain ⟨l, hl, hid, hdevice, huser⟩ := h.found
  have hmem : { l with expires_at := date } ∈ (s.commit _ hi).tables.userEmulators :=
    mem_updateWhere.2 (.inl ⟨l, hl, decide_eq_true hid, rfl⟩)
  refine ⟨⟨⟨_, hmem, hid, hdevice, huser⟩, fun r hr hrd hru => ?_⟩, ?_⟩
  · rcases mem_updateWhere.1 hr with ⟨b, -, hbid, rfl⟩ | ⟨hr, -⟩
    · exact of_decide_eq_true hbid
    · exact h.sole r hr hrd hru
  · have hfind := (s.commit _ hi).integrity.toKeys.userEmulator?_eq hmem
    unfold expiry
    rw [show some id = some ({ l with expires_at := date } : UserEmulators).id from congrArg some hid.symm,
      hfind]
    rfl

/-- Where a request stands: before its lookup, or about to write over the date
that it found. -/
def ExtendStage (id device user : String) (k : Turn Int (Option Date))
    (t : Task Ext Server Rejection) : Prop :=
  (k.taken = 0 ∧ t = (extend (extension device user k.request)).toTask) ∨
    (k.taken = 1 ∧ ∃ l : UserEmulators, l.id = id ∧ k.seen = some l.expires_at ∧
      t = (extendTo (some (.int k.request)) l).toTask)

/-- The step lemma: a lookup finds the link, and a write adds the days to the
date that was found. -/
theorem extend_step {id device user : String} (hid : id ≠ "") {k : Turn Int (Option Date)}
    {u : Ext → Server → Server} {n : Ext → Server → Task Ext Server Rejection} (x : Ext) {s : Server}
    (hs : Sole id device user s) (hstage : ExtendStage id device user k (.await u n))
    (hundisturbed : k.Undisturbed (expiry id) (fun _ => some 1) s) :
    Sole id device user (u x s) ∧
      ((expiry id (u x s) = expiry id s ∧ ∃ u' n', n x s = .await u' n' ∧
          ExtendStage id device user (k.next (expiry id) s) (.await u' n')) ∨
        (isEnded (n x s) = true ∧
          expiry id (u x s) = (expiry id s).map (extended k.request))) := by
  rcases hstage with ⟨htaken, htask⟩ | ⟨htaken, l, hl, hseen, htask⟩
  · rw [extend_eq] at htask
    obtain ⟨hu, hn⟩ := Repository.findRow_step htask.symm x s
    rw [hu]
    refine ⟨hs, .inl ⟨rfl, ?_⟩⟩
    generalize hhead : List.head? _ = found at hn
    cases found with
    | none =>
      obtain ⟨l, hl, -, hdevice, huser⟩ := hs.found
      have hnot := Repository.scan_head_none hhead hl
      rw [hdevice, huser] at hnot
      simp only [extension, JsVal.selects_str.2, Bool.and_self, Bool.true_eq_false] at hnot
    | some l =>
      obtain ⟨hl, hp⟩ := Repository.of_scan_head hhead
      simp only [extension, Bool.and_eq_true, JsVal.selects_str] at hp
      obtain ⟨r, hr, hrid, hexpiry⟩ := hs.expiry_eq
      have hlid := hs.sole l hl hp.1 hp.2
      rw [eq_of_key s.integrity.userEmulators hr hl (hrid.trans hlid.symm)] at hexpiry
      refine ⟨_, _, hn, .inr ⟨by rw [Turn.next, htaken], l, hlid, ?_, rfl⟩⟩
      rw [Turn.next, if_pos htaken, hexpiry]
  · have hview := hundisturbed (congrArg some htaken.symm)
    subst hl
    cases hadd : DateUtils.add k.request l.expires_at with
    | none =>
      have hprog : extendTo (some (.int k.request)) l =
          userEmulatorRepository.update (some (.str l.id)) (fun _ _ => .error .query) >>= fun _ => pure () := by
        unfold extendTo DateUtils.amount
        simp only [Option.bind_some, hadd]
      rw [hprog] at htask
      obtain ⟨hu, e, hn⟩ := Repository.update_error_step htask.symm x s
      refine ⟨by rw [hu]; exact hs, .inr ⟨by rw [hn]; rfl, ?_⟩⟩
      rw [hu, hview, hseen]
      simp only [Option.map_some, extended, hadd, Option.getD_none]
    | some date =>
      have hprog : extendTo (some (.int k.request)) l =
          (userEmulatorRepository.set (some (.str l.id)) fun _ r =>
            { r with expires_at := date }) >>= fun _ => pure () := by
        unfold extendTo DateUtils.amount Repository.set
        simp only [Option.bind_some, hadd]
      rw [hprog] at htask
      rcases Repository.set_criterion_step htask.symm x s with ⟨hempty, -⟩ | ⟨-, hset⟩
      · exact absurd (of_decide_eq_true hempty) hid
      · obtain ⟨hu, c, hn⟩ := hset (s.integrity.set_links fun _ => ⟨rfl, rfl, rfl⟩)
        obtain ⟨hsole, hexpiry⟩ := @Sole.set l.id device user s date hs
          (s.integrity.set_links fun _ => ⟨rfl, rfl, rfl⟩)
        refine ⟨by rw [hu]; exact hsole, .inr ⟨by rw [hn]; rfl, ?_⟩⟩
        rw [hu, hview, hseen]
        simp only [Option.map_some, extended, hadd, Option.getD_some]
        exact hexpiry

theorem shift_shift (m n : Int) (date : Date) :
    DateUtils.shift n (DateUtils.shift m date) = DateUtils.shift (m + n) date := by
  unfold DateUtils.shift
  rw [Int.add_mul, Int.add_assoc]

/-- Extensions one after another add up, if none of them leads beyond the
dates. -/
theorem serial_extensions {date : Date} {v' : Option Date} {l : List Int}
    (h : Serial (fun n (v v' : Option Date) => v' = v.map (extended n)) (some date) l v')
    (hdates : ∀ ms, ms <+: l → DateUtils.isDate (DateUtils.shift ms.sum date) = true) :
    v' = some (DateUtils.shift l.sum date) := by
  induction h with
  | nil =>
    unfold DateUtils.shift
    rw [List.sum_nil, Int.zero_mul, Int.add_zero]
  | @snoc l n v' v'' _ hlast ih =>
    have hsum : (l ++ [n]).sum = l.sum + n := by rw [List.sum_append, List.sum_singleton]
    have hdate := hdates (l ++ [n]) List.prefix_rfl
    rw [hsum, ← shift_shift] at hdate
    rw [hlast, ih fun ms hms => hdates ms (hms.trans (List.prefix_append _ _)), Option.map_some,
      extended_eq hdate, shift_shift, hsum]

/-- The sum of requests that came first is the sum of some of the requests. -/
theorem exists_sublist_sum {ms order days : List Int} (hms : ms <+: order) (hperm : order.Perm days) :
    ∃ ns : List Int, ns.Sublist days ∧ ns.sum = ms.sum := by
  obtain ⟨ns, hns, hsub⟩ := hms.sublist.subperm.trans hperm.subperm
  exact ⟨ns, hsub, hns.sum_eq⟩

/-- **No extension is lost** in a run in which every request writes over the
date that it read, if the link is the only one there has been between its
device and its user. Whichever requests come first, their days lead to a date. -/
theorem extensions_add_up {l : UserEmulators} {device user : String} {days : List Int} {s s' : Server}
    {ts : Pool (Turn Int (Option Date)) Ext Server Rejection}
    (hl : l ∈ s.tables.userEmulators) (hid : l.id ≠ "") (hdevice : l.device = some device)
    (huser : l.user = some user)
    (hsole : ∀ r ∈ s.tables.userEmulators, r.device = some device → r.user = some user → r = l)
    (hdates : ∀ ns : List Int, ns.Sublist days → DateUtils.isDate (DateUtils.shift ns.sum l.expires_at) = true)
    (hrun : Runs (Turn.next (expiry l.id))
      (fun _ k s => k.Undisturbed (expiry l.id) (fun _ => some 1) s) (extensions device user days) s ts s')
    (hfin : Finished (fun _ => True) ts) :
    expiry l.id s' = some (l.expires_at + days.sum * DateUtils.day) := by
  have hs : Sole l.id device user s :=
    ⟨⟨l, hl, rfl, hdevice, huser⟩, fun r hr hrd hru => by rw [hsole r hr hrd hru]⟩
  have hstart : ∀ th ∈ extensions device user days,
      isEnded th.2 = true ∨ ExtendStage l.id device user th.1 th.2 := by
    intro th hth
    obtain ⟨n, -, rfl⟩ := List.mem_map.1 hth
    exact .inr (.inl ⟨rfl, rfl⟩)
  have hnone : ended (extensions device user days) = [] := by
    unfold ended extensions
    rw [List.map_eq_nil_iff, List.filter_eq_nil_iff]
    intro th hth
    obtain ⟨n, -, rfl⟩ := List.mem_map.1 hth
    exact Bool.false_ne_true
  obtain ⟨-, hrequests, order, hserial, hperm⟩ := hrun.serial (I := Sole l.id device user)
    (fun n v v' => v' = v.map (extended n))
    (fun k u n x s hs hstage hok => extend_step hid x hs hstage hok) hs hstart
  have hall : (extensions device user days).map (fun th => th.1.request) = days := by
    unfold extensions
    rw [List.map_map]
    exact List.map_id days
  rw [hnone, List.nil_append, ended_of_finished hfin, hrequests, hall] at hperm
  obtain ⟨r, hr, hrid, hexpiry⟩ := hs.expiry_eq
  rw [hexpiry, eq_of_key s.integrity.userEmulators hr hl hrid] at hserial
  rw [serial_extensions hserial fun ms hms => ?_, hperm.sum_eq]
  · rfl
  · obtain ⟨ns, hns, hsum⟩ := exists_sublist_sum hms hperm.symm
    rw [← hsum]
    exact hdates ns hns

/-- Three requests: one is over when the others begin, and of these both have
read before either writes, but one adds nothing. -/
theorem extensions_add_up_three : ∃ s' ts,
    Runs (Turn.next (expiry "link")) (fun _ k s => k.Undisturbed (expiry "link") (fun _ => some 1) s)
      (extensions "e" "v" [3, 4, 0]) Sample.server ts s' ∧ Finished (fun _ => True) ts ∧
    expiry "link" s' = some (100 + [3, 4, 0].sum * DateUtils.day) := by
  have hexec : (execIf (Turn.next (expiry "link"))
      (fun _ k s => decide (k.Undisturbed (expiry "link") (fun _ => some 1) s))
      [(0, default), (0, default), (1, default), (2, default), (2, default), (1, default)]
      (extensions "e" "v" [3, 4, 0]) Sample.server).any (fun o => o.1.all fun t => isDone t.2) = true := by
    decide +kernel
  obtain ⟨o, ho, hdone⟩ := (Option.any_eq_true _ _).1 hexec
  have hrun : Runs (Turn.next (expiry "link"))
      (fun _ k s => k.Undisturbed (expiry "link") (fun _ => some 1) s) (extensions "e" "v" [3, 4, 0])
      Sample.server o.1 o.2 := runs_of_execIf (fun _ _ _ => of_decide_eq_true) ho
  have hfin : Finished (fun _ => True) o.1 := finished_of_isDone hdone
  have hdates : ∀ ns ∈ ([3, 4, 0] : List Int).sublists,
      DateUtils.isDate (DateUtils.shift ns.sum 100) = true := by decide +kernel
  exact ⟨o.2, o.1, hrun, hfin, @extensions_add_up ⟨"link", some "v", some "e", 100, 0, none⟩ "e" "v"
    [3, 4, 0] _ _ _ (by decide) (by decide) rfl rfl (by decide)
    (fun ns hns => hdates ns (List.mem_sublists.2 hns)) hrun hfin⟩

/-- Two requests read the date before either writes it: the days of one are
lost. -/
theorem extension_lost : ¬ ∀ (l : UserEmulators) (device user : String) (days : List Int) (s s' : Server)
    (ts : Pool (Turn Int (Option Date)) Ext Server Rejection),
    l ∈ s.tables.userEmulators → l.device = some device → l.user = some user →
    Runs (Turn.next (expiry l.id)) (fun _ _ _ => True) (extensions device user days) s ts s' →
    Finished (fun _ => True) ts →
    expiry l.id s' = some (l.expires_at + days.sum * DateUtils.day) := by
  intro hall
  have hexec : (exec (Turn.next (expiry "link"))
      [(0, default), (1, default), (0, default), (1, default)] (extensions "e" "v" [3, 4])
      Sample.server).any (fun o => o.1.all (fun t => isDone t.2) &&
        decide (expiry "link" o.2 = some (100 + 4 * DateUtils.day))) = true := by
    decide +kernel
  obtain ⟨o, ho, hend⟩ := (Option.any_eq_true _ _).1 hexec
  obtain ⟨hdone, hdate⟩ := Bool.and_eq_true_iff.1 hend
  have hsum := hall ⟨"link", some "v", some "e", 100, 0, none⟩ "e" "v" [3, 4] _ _ _ (by decide) rfl rfl
    (runs_of_exec ho) (finished_of_isDone hdone)
  rw [of_decide_eq_true hdate] at hsum
  exact absurd hsum (by decide)

end EmulatorService

end Damaru
