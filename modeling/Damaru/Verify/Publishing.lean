import Damaru.Async.Schedules
import Damaru.Verify.ApkUploads

/-!
# Uploads at once

Uploads empty the table and insert their rows in two steps, so uploads under way
at once may leave several rows, and one that empties the table last may leave
none. What is handed out then is the latest of the rows.
-/

namespace Damaru

open Async Async.Pool

namespace ApkService

/-- The body of an upload, and whether it brings a file. -/
structure Upload where
  version : JsVal
  force : JsVal
  file : Bool

/-- The row that an upload inserts, if it gets that far. -/
def Upload.apk (u : Upload) : Option Apk :=
  match u.file, textOf u.version, textOf u.force with
  | true, .ok version, .ok force =>
    ((parseInt version).filter isInt4).map fun n => ⟨n, force = "true", "damaru.apk"⟩
  | _, _, _ => none

def Upload.run (u : Upload) : ApkSvc String := uploadApk u.version u.force u.file

/-- Uploads that have just come in. -/
def uploads (us : List Upload) : Pool Upload Unit ApkTable Rejection :=
  us.map fun u => (u, u.run.toTask)

/-! ## What is handed out -/

/-- The row is the latest of the table, and is handed out. -/
structure HandsOut (config : ApkConfig) (t : ApkTable) (apk : Apk) : Prop where
  mem : apk ∈ t.rows
  latest : ∀ b ∈ t.rows, b.version ≤ apk.version
  ends : ∀ r t', (getLatestApkPath config).Ends t r t' ↔
    r = .ok { apk with link := getApkPath config ++ "/" ++ apk.link } ∧ t' = t

/-- The first row in the order of the query is handed out. -/
theorem getLatestApkPath_ends_of_sorted {config : ApkConfig} {t t' : ApkTable} {apk : Apk} {l : List Apk}
    (h : t.rows.mergeSort (fun a b => b.version ≤ a.version) = apk :: l) {r : Except Rejection Apk} :
    (getLatestApkPath config).Ends t r t' ↔
      r = .ok { apk with link := getApkPath config ++ "/" ++ apk.link } ∧ t' = t := by
  unfold getLatestApkPath ApkRepository.findLatest
  rw [Prog.ends_bind]
  simp only [Prog.ends_op, h, List.take_succ_cons, List.take_zero, Prod.mk.injEq]
  constructor
  · rintro (⟨e, rfl, -, he, -⟩ | ⟨rows, u, ⟨-, hrows, rfl⟩, hend⟩)
    · cases he
    · cases hrows
      exact Prog.ends_pure.1 hend
  · rintro ⟨rfl, rfl⟩
    exact .inr ⟨[apk], t', ⟨(), rfl, rfl⟩, .pure _ _⟩

/-- The first row in that order is the latest. -/
theorem latest_of_sorted {t : ApkTable} {apk : Apk} {l : List Apk}
    (h : t.rows.mergeSort (fun a b => b.version ≤ a.version) = apk :: l) :
    apk ∈ t.rows ∧ ∀ b ∈ t.rows, b.version ≤ apk.version := by
  have hmem : ∀ b, b ∈ t.rows ↔ b ∈ apk :: l := fun b => by
    rw [← h, List.mem_mergeSort]
  have hpairwise := @List.pairwise_mergeSort Apk (fun a b => decide (b.version ≤ a.version))
    (fun a b c hab hbc => by simp only [decide_eq_true_eq] at hab hbc ⊢; omega)
    (fun a b => by simp only [Bool.or_eq_true, decide_eq_true_eq]; omega) t.rows
  rw [h, List.pairwise_cons] at hpairwise
  refine ⟨(hmem apk).2 List.mem_cons_self, fun b hb => ?_⟩
  rcases List.mem_cons.1 ((hmem b).1 hb) with rfl | hb
  · exact le_refl _
  · exact of_decide_eq_true (hpairwise.1 b hb)

/-- A table with a row hands one out. -/
theorem exists_handsOut (config : ApkConfig) {t : ApkTable} (h : t.rows ≠ []) :
    ∃ apk, HandsOut config t apk := by
  obtain ⟨apk, l, hsorted⟩ :
      ∃ apk l, t.rows.mergeSort (fun a b => b.version ≤ a.version) = apk :: l := by
    refine List.exists_cons_of_ne_nil fun hnil => h ?_
    have hlength := congrArg List.length hnil
    rw [List.length_mergeSort] at hlength
    exact List.eq_nil_of_length_eq_zero hlength
  obtain ⟨hmem, hlatest⟩ := latest_of_sorted hsorted
  exact ⟨apk, hmem, hlatest, fun r t' => getLatestApkPath_ends_of_sorted hsorted⟩

/-! ## The two steps of an upload -/

/-- What an upload does once it has emptied the table. -/
def insertTo (version force : JsVal) : ApkSvc String := do
  let version ← Prog.ofExcept (textOf version)
  let force ← Prog.ofExcept (textOf force)
  ApkRepository.insert (parseInt version) (decide (force = "true")) "damaru.apk"
  return "APK uploaded successfully"

theorem run_eq_of_file {u : Upload} (h : u.file = true) :
    u.run = ApkRepository.deleteAll >>= fun _ => insertTo u.version u.force := by
  unfold Upload.run
  rw [h]
  rfl

theorem forkFree_insertTo (version force : JsVal) : (insertTo version force).ForkFree :=
  .bind (Prog.forkFree_ofExcept _) fun _ => .bind (Prog.forkFree_ofExcept _) fun _ =>
    .bind Prog.forkFree_op fun _ => trivial

/-- Where an upload stands. -/
inductive Stage (u : Upload) : Task Unit ApkTable Rejection → Prop
  | fresh : u.file = true → Stage u u.run.toTask
  | emptied : u.file = true → Stage u (insertTo u.version u.force).toTask
  | ended {t : Task Unit ApkTable Rejection} : isEnded t = true → Stage u t

theorem stage_run (u : Upload) : Stage u u.run.toTask := by
  cases hfile : u.file with
  | true => exact .fresh hfile
  | false =>
    refine .ended ?_
    unfold Upload.run
    rw [hfile]
    rfl

/-- An insert stores its row, unless it has none or the version is taken. -/
theorem insert_step {version : Option Int} {force : Bool} {link m : String} {f : Unit → ApkTable → ApkTable}
    {n : Unit → ApkTable → Task Unit ApkTable Rejection}
    (h : (ApkRepository.insert version force link >>= fun _ => pure m).toTask = .await f n) (x : Unit)
    (t : ApkTable) : isEnded (n x t) = true ∧
      ((f x t = t ∧ ((version.filter isInt4).isSome = true → t.rows ≠ [])) ∨
        ∃ k, version.filter isInt4 = some k ∧ (f x t).rows = t.rows ++ [⟨k, force, link⟩]) := by
  unfold ApkRepository.insert at h
  rw [Prog.pure_eq, Prog.op_bind_pure] at h
  cases h
  refine ⟨?_, ?_⟩
  · dsimp only
    generalize Except.map _ _ = r
    cases r <;> rfl
  cases version with
  | none => exact .inl ⟨rfl, nofun⟩
  | some k =>
    by_cases hk : isInt4 k = true
    · by_cases hnodup : ((t.rows ++ [(⟨k, force, link⟩ : Apk)]).map Apk.version).Nodup
      · refine .inr ⟨k, ?_, ?_⟩
        · rw [Option.filter_some, if_pos hk]
        · simp only [dif_pos (And.intro hk hnodup)]
      · refine .inl ⟨?_, fun _ hnil => hnodup ?_⟩
        · simp only [dif_neg fun h : isInt4 k = true ∧ _ => hnodup h.2]
        · rw [hnil]
          exact List.nodup_singleton _
    · refine .inl ⟨?_, fun h => ?_⟩
      · simp only [dif_neg fun h : isInt4 k = true ∧ _ => hk h.1]
      · rw [Option.filter_some, if_neg hk] at h
        cases h

/-- What an upload that has emptied the table does next, if it does anything. -/
theorem insertTo_step {u : Upload} {f : Unit → ApkTable → ApkTable}
    {n : Unit → ApkTable → Task Unit ApkTable Rejection} (hfile : u.file = true)
    (h : (insertTo u.version u.force).toTask = .await f n) (x : Unit) (t : ApkTable) :
    isEnded (n x t) = true ∧ ((f x t = t ∧ (u.apk.isSome = true → t.rows ≠ [])) ∨
      ∃ apk, u.apk = some apk ∧ (f x t).rows = t.rows ++ [apk]) := by
  unfold insertTo at h
  cases hv : textOf u.version with
  | error e => rw [hv] at h; cases h
  | ok version =>
    cases hf : textOf u.force with
    | error e => rw [hv, hf] at h; cases h
    | ok force =>
      rw [hv, hf] at h
      have hapk : u.apk = ((parseInt version).filter isInt4).map
          fun n => ⟨n, force = "true", "damaru.apk"⟩ := by
        unfold Upload.apk
        rw [hfile, hv, hf]
      obtain ⟨hended, ⟨hsame, hsome⟩ | ⟨k, hk, hrows⟩⟩ := insert_step h x t
      · rw [hapk, Option.isSome_map]
        exact ⟨hended, .inl ⟨hsame, hsome⟩⟩
      · rw [hapk, hk]
        exact ⟨hended, .inr ⟨_, rfl, hrows⟩⟩

/-- The step lemma: an upload empties the table, or it comes to its end, having
stored its row or nothing. -/
theorem stage_step {u : Upload} {f : Unit → ApkTable → ApkTable}
    {n : Unit → ApkTable → Task Unit ApkTable Rejection} (h : Stage u (.await f n)) (x : Unit)
    (t : ApkTable) : u.file = true ∧
      (((f x t).rows = [] ∧ n x t = (insertTo u.version u.force).toTask) ∨
        (.await f n = (insertTo u.version u.force).toTask ∧ isEnded (n x t) = true ∧
          ((f x t = t ∧ (u.apk.isSome = true → t.rows ≠ [])) ∨
            ∃ apk, u.apk = some apk ∧ (f x t).rows = t.rows ++ [apk]))) := by
  generalize htask : Task.await f n = task at h
  cases h with
  | fresh hfile =>
    rw [run_eq_of_file hfile] at htask
    cases htask
    exact ⟨hfile, .inl ⟨rfl, rfl⟩⟩
  | emptied hfile => exact ⟨hfile, .inr ⟨rfl, insertTo_step hfile htask.symm x t⟩⟩
  | ended hended =>
    rw [← htask] at hended
    cases hended

/-- A thread that stands at a stage goes on as one thread that does. -/
theorem Stage.threads {u : Upload} {f : Unit → ApkTable → ApkTable}
    {n : Unit → ApkTable → Task Unit ApkTable Rejection} (h : Stage u (.await f n)) (x : Unit)
    (t : ApkTable) : Pool.threads u (n x t) = [(u, n x t)] ∧ Stage u (n x t) := by
  unfold Pool.threads
  obtain ⟨hfile, ⟨-, hn⟩ | ⟨-, hended, -⟩⟩ := stage_step h x t
  · rw [hn, Pool.spawn_toTask (forkFree_insertTo _ _)]
    exact ⟨rfl, .emptied hfile⟩
  · rw [spawn_of_isEnded hended]
    exact ⟨rfl, .ended hended⟩

/-- An upload with a row to insert is not done when it has emptied the table. -/
theorem isEnded_insertTo {u : Upload} (h : u.apk.isSome = true) :
    isEnded (insertTo u.version u.force).toTask = false := by
  unfold Upload.apk at h
  split at h
  · rename_i version force _ hv hf
    unfold insertTo
    rw [hv, hf]
    rfl
  · cases h

/-- Nor is one with a file when it has come in. -/
theorem isEnded_run {u : Upload} (h : u.file = true) : isEnded u.run.toTask = false := by
  rw [run_eq_of_file h]
  rfl

/-! ## Any schedule of uploads -/

/-- What holds while uploads are under way. -/
structure Uploading (us : List Upload) (t₀ : ApkTable)
    (ts : Pool Upload Unit ApkTable Rejection) (t : ApkTable) : Prop where
  uploads : ts.map Prod.fst = us
  stages : ∀ th ∈ ts, Stage th.1 th.2
  source : (t = t₀ ∧ ∀ th ∈ ts, th.1.file = true → th.2 = th.1.run.toTask) ∨
    ((∃ u ∈ us, u.file = true) ∧ ∀ b ∈ t.rows, ∃ u ∈ us, u.apk = some b)

theorem uploading_uploads (us : List Upload) (t : ApkTable) : Uploading us t (uploads us) t where
  uploads := by
    unfold ApkService.uploads
    rw [List.map_map]
    exact List.map_id us
  stages th hth := by
    obtain ⟨u, -, rfl⟩ := List.mem_map.1 hth
    exact stage_run u
  source := .inl ⟨rfl, fun th hth _ => by
    obtain ⟨u, -, rfl⟩ := List.mem_map.1 hth
    rfl⟩

section Steps

variable {us : List Upload} {t₀ t : ApkTable} {u : Upload}
variable {before after : Pool Upload Unit ApkTable Rejection}
variable {f : Unit → ApkTable → ApkTable} {n : Unit → ApkTable → Task Unit ApkTable Rejection}

theorem Uploading.mem (h : Uploading us t₀ (before ++ (u, .await f n) :: after) t) : u ∈ us := by
  rw [← h.uploads]
  simp

theorem Uploading.stage (h : Uploading us t₀ (before ++ (u, .await f n) :: after) t) :
    Stage u (.await f n) := h.stages (u, .await f n) (by simp)

/-- From the first step on, the table holds rows of the uploads only. -/
theorem Uploading.step_source (h : Uploading us t₀ (before ++ (u, .await f n) :: after) t) (x : Unit) :
    ∀ b ∈ (f x t).rows, ∃ u ∈ us, u.apk = some b := by
  obtain ⟨hfile, hstep⟩ := stage_step h.stage x t
  rcases h.source with ⟨-, hfresh⟩ | ⟨-, hrows⟩
  · have htask := hfresh (u, .await f n) (by simp) hfile
    rw [run_eq_of_file hfile] at htask
    cases htask
    exact nofun
  · rcases hstep with ⟨hempty, -⟩ | ⟨-, -, ⟨hsame, -⟩ | ⟨apk, hapk, happend⟩⟩
    · rw [hempty]
      exact nofun
    · rw [hsame]
      exact hrows
    · rw [happend]
      intro b hb
      rcases List.mem_append.1 hb with hb | hb
      · exact hrows b hb
      · rw [List.mem_singleton.1 hb]
        exact ⟨u, h.mem, hapk⟩

theorem Uploading.step (h : Uploading us t₀ (before ++ (u, .await f n) :: after) t) (x : Unit) :
    Uploading us t₀ (before ++ (Pool.threads u (n x t) ++ after)) (f x t) := by
  obtain ⟨hthreads, hstage⟩ := h.stage.threads x t
  rw [hthreads]
  refine ⟨?_, fun th hth => ?_, .inr ⟨⟨u, h.mem, (stage_step h.stage x t).1⟩, h.step_source x⟩⟩
  · rw [← h.uploads]
    simp
  · simp only [List.cons_append, List.nil_append, List.mem_append, List.mem_cons] at hth
    rcases hth with hth | rfl | hth
    · exact h.stages th (List.mem_append_left _ hth)
    · exact hstage
    · exact h.stages th (List.mem_append_right _ (List.mem_cons_of_mem _ hth))

/-- While every upload with a file has a row to insert, the table holds a row, or
an upload that will insert one is under way. -/
theorem Uploading.step_pending (hus : ∀ u ∈ us, u.file = true → u.apk.isSome = true)
    (h : Uploading us t₀ (before ++ (u, .await f n) :: after) t) (x : Unit) :
    (f x t).rows ≠ [] ∨ ∃ th ∈ before ++ (Pool.threads u (n x t) ++ after), isEnded th.2 = false := by
  obtain ⟨hfile, hstep⟩ := stage_step h.stage x t
  have hsome := hus u h.mem hfile
  rcases hstep with ⟨-, hn⟩ | ⟨-, -, ⟨hsame, hrows⟩ | ⟨apk, -, happend⟩⟩
  · refine .inr ⟨(u, n x t), ?_, ?_⟩
    · rw [(h.stage.threads x t).1]
      simp
    · rw [hn]
      exact isEnded_insertTo hsome
  · rw [hsame]
    exact .inl (hrows hsome)
  · rw [happend]
    exact .inl (by simp)

end Steps

theorem uploading_run {us : List Upload} {t t' : ApkTable} {ts : Pool Upload Unit ApkTable Rejection}
    (hrun : Scheduled (uploads us) t ts t') : Uploading us t ts t' :=
  hrun.invariant (I := Uploading us t) (fun _ _ _ _ _ x _ h => h.step x) (uploading_uploads us t)

theorem pending_run {us : List Upload} {t t' : ApkTable} {ts : Pool Upload Unit ApkTable Rejection}
    (hus : ∀ u ∈ us, u.file = true → u.apk.isSome = true)
    (hstart : t.rows ≠ [] ∨ ∃ u ∈ us, u.file = true) (hrun : Scheduled (uploads us) t ts t') :
    t'.rows ≠ [] ∨ ∃ th ∈ ts, isEnded th.2 = false := by
  refine (hrun.invariant (I := fun ts t' => Uploading us t ts t' ∧
    (t'.rows ≠ [] ∨ ∃ th ∈ ts, isEnded th.2 = false)) (fun _ _ _ _ _ x _ h => ?_) ⟨?_, ?_⟩).2
  · exact ⟨h.1.step x, h.1.step_pending hus x⟩
  · exact uploading_uploads us t
  · refine hstart.imp_right fun ⟨u, hu, hfile⟩ => ⟨(u, u.run.toTask), ?_, isEnded_run hfile⟩
    exact List.mem_map_of_mem hu

theorem isEnded_of_finished {ts : Pool Upload Unit ApkTable Rejection}
    (hfin : Finished (fun _ => True) ts) : ∀ th ∈ ts, isEnded th.2 = true := by
  intro th hth
  rcases hfin th hth with h | ⟨e, -, h⟩
  · rw [h]
    rfl
  · rw [h]
    rfl

theorem finished_of_forall {ts : Pool Upload Unit ApkTable Rejection}
    (h : ∀ th ∈ ts, isEnded th.2 = true) : Finished (fun _ => True) ts :=
  finished_iff_isEnded.2 (List.all_eq_true.2 h)

/-- An upload with a file has a row to insert if its fields can be stored. -/
theorem isSome_apk {u : Upload} (h : u.file = true) :
    u.apk.isSome = storable u.version u.force := by
  unfold Upload.apk storable
  rw [h]
  cases textOf u.version with
  | error e => rfl
  | ok version =>
    cases textOf u.force with
    | error e => rfl
    | ok force =>
      cases hn : parseInt version with
      | none => simp [hn]
      | some n => cases hint : isInt4 n <;> simp [hn, hint]

/-- An upload that is going to fail can be the last to empty the table. -/
theorem exists_emptied {us : List Upload} {u : Upload} (hu : u ∈ us) (hfile : u.file = true)
    (hnot : u.apk.isSome = false) (t : ApkTable) :
    ∃ ts t', Scheduled (uploads us) t ts t' ∧ Finished (fun _ => True) ts ∧ t'.rows = [] := by
  obtain ⟨t₁, hlast⟩ := Scheduled.exists_last (p := Upload.run) (fun _ _ => forkFree_uploadApk) hu t
  rw [isSome_apk hfile] at hnot
  obtain ⟨e, t', hend, hrows⟩ := uploadApk_fails t₁ (by rw [hnot]; exact Bool.false_ne_true)
  rw [← hfile] at hend
  obtain ⟨ts, hrun, hended⟩ := hlast _ t' hend
  exact ⟨ts, t', hrun, finished_of_forall hended, hrows⟩

/-- What uploads that have all come to their ends have made of the table. -/
structure PublishedBy (config : ApkConfig) (us : List Upload) (t t' : ApkTable) : Prop where
  handsOut : ∃ apk, HandsOut config t' apk
  brought : (∃ u ∈ us, u.file = true) → ∀ b ∈ t'.rows, ∃ u ∈ us, u.apk = some b
  untouched : (∀ u ∈ us, u.file = false) → t' = t

/-- **Uploads at once.** When uploads that took turns in any order have all come
to their ends, a version is handed out: the latest of those they brought, or what
was published before if none brings a file. It is so on every schedule exactly if
every upload with a file has fields that can be stored, and a version was
published before or one of them brings a file. -/
theorem uploads_hand_out_iff (config : ApkConfig) (t : ApkTable) (us : List Upload) :
    (∀ ts t', Scheduled (uploads us) t ts t' → Finished (fun _ => True) ts →
      PublishedBy config us t t') ↔
      (∀ u ∈ us, u.file = true → u.apk.isSome = true) ∧
        (t.rows ≠ [] ∨ ∃ u ∈ us, u.file = true) := by
  constructor
  · intro h
    refine ⟨fun u hu hfile => ?_, ?_⟩
    · by_contra hnot
      obtain ⟨ts, t', hrun, hfin, hrows⟩ := exists_emptied hu hfile (Bool.eq_false_iff.2 hnot) t
      obtain ⟨apk, hhands⟩ := (h ts t' hrun hfin).handsOut
      have hmem := hhands.mem
      rw [hrows] at hmem
      cases hmem
    · by_contra hnot
      rw [not_or, not_not] at hnot
      obtain ⟨hrows, hfiles⟩ := hnot
      -- without a file every upload is rejected at once
      have hfin : Finished (fun _ => True) (uploads us) := finished_of_forall fun th hth => by
        obtain ⟨u, hu, rfl⟩ := List.mem_map.1 hth
        have hstage := stage_run u
        show isEnded u.run.toTask = true
        generalize u.run.toTask = task at hstage
        cases hstage with
        | fresh hfile => exact absurd ⟨u, hu, hfile⟩ hfiles
        | emptied hfile => exact absurd ⟨u, hu, hfile⟩ hfiles
        | ended hended => exact hended
      obtain ⟨apk, hhands⟩ := (h _ t (.refl _ t) hfin).handsOut
      have hmem := hhands.mem
      rw [hrows] at hmem
      cases hmem
  · rintro ⟨hus, hstart⟩ ts t' hrun hfin
    have hended := isEnded_of_finished hfin
    have hup := uploading_run hrun
    refine ⟨?_, fun ⟨u, hu, hfile⟩ => ?_, fun hno => ?_⟩
    · rcases pending_run hus hstart hrun with hrows | ⟨th, hth, hnot⟩
      · exact exists_handsOut config hrows
      · rw [hended th hth] at hnot
        cases hnot
    · rcases hup.source with ⟨-, hfresh⟩ | ⟨-, hrows⟩
      · rw [← hup.uploads] at hu
        obtain ⟨th, hth, rfl⟩ := List.mem_map.1 hu
        have hrunning := isEnded_run hfile
        rw [← hfresh th hth hfile, hended th hth] at hrunning
        cases hrunning
      · exact hrows
    · rcases hup.source with ⟨hsame, -⟩ | ⟨⟨u, hu, hfile⟩, -⟩
      · exact hsame
      · rw [hno u hu] at hfile
        cases hfile

/-- Two uploads that both empty the table first leave two versions. -/
example : ((exec (fun k _ => k) [(0, ()), (1, ()), (1, ()), (0, ())]
    (uploads [⟨some (.int 7), some (.bool true), true⟩, ⟨some (.int 9), some (.bool false), true⟩])
    ⟨[], List.nodup_nil⟩).map fun o => o.2.rows.map Apk.version) = some [9, 7] := by
  decide

end ApkService

end Damaru
