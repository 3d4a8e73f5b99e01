import Damaru.Async.Pool

/-!
# Threads whose calls can fail

A thread and those it has started, when an awaited call may also fail: it
leaves the state as it is, and its thread fails with it. None of the threads
handles a failure. The first thread of the list is the one that the others
were started from.
-/

namespace Async.Pool

variable {ι σ ε α : Type}

/-- What an awaited call comes to: it completes on an input, or fails. -/
def answer (c : Except ε ι) (u : ι → σ → σ) (n : ι → σ → Task ι σ ε) (s : σ) : Task ι σ ε × σ :=
  match c with
  | .ok x => (n x s, u x s)
  | .error e => (.fail e, s)

/-- Runs in which `ok before after t` holds whenever a thread between `before`
and `after` becomes `t`. -/
inductive FailingRuns (ok : List (Task ι σ ε) → List (Task ι σ ε) → Task ι σ ε → Prop) :
    List (Task ι σ ε) → σ → List (Task ι σ ε) → σ → Prop
  | refl (ts : List (Task ι σ ε)) (s : σ) : FailingRuns ok ts s ts s
  | step {before after ts : List (Task ι σ ε)} {u : ι → σ → σ} {n : ι → σ → Task ι σ ε} {s s' : σ}
      (c : Except ε ι) : ok before after (answer c u n s).1 →
      FailingRuns ok (before ++ ((answer c u n s).1.spawn ++ after)) (answer c u n s).2 ts s' →
      FailingRuns ok (before ++ .await u n :: after) s ts s'

def isFailed : Task ι σ ε → Bool
  | .fail _ => true
  | _ => false

theorem isFailed_iff {t : Task ι σ ε} : isFailed t = true ↔ ∃ e, t = .fail e := by
  cases t <;> simp [isFailed]

/-- A failed thread starts no other. -/
theorem spawn_of_isFailed {t : Task ι σ ε} (h : isFailed t = true) : t.spawn = [t] := by
  obtain ⟨e, rfl⟩ := isFailed_iff.1 h
  rfl

/-- One of the threads has failed. -/
def anyFailed (ts : List (Task ι σ ε)) : Bool := ts.any isFailed

theorem isDone_iff {t : Task ι σ ε} : isDone t = true ↔ t = .done := by
  cases t <;> simp [isDone]

/-- A call that fails does so before any thread has completed. One that does not
fail comes when none has failed, and the first thread completes last. -/
def orderly (before after : List (Task ι σ ε)) (t : Task ι σ ε) : Bool :=
  if anyFailed t.spawn then !(before ++ after).any isDone
  else !anyFailed (before ++ after) && (!before.isEmpty || !isDone t || after.all isDone)

section Orderly

variable {before after : List (Task ι σ ε)} {t : Task ι σ ε}

theorem none_done_of_orderly (h : orderly before after t = true) (ht : anyFailed t.spawn = true) :
    (before ++ after).any isDone = false := by
  unfold orderly at h
  rw [if_pos ht, Bool.not_eq_true'] at h
  exact h

theorem none_failed_of_orderly (h : orderly before after t = true) (ht : anyFailed t.spawn = false) :
    anyFailed (before ++ after) = false := by
  unfold orderly at h
  rw [ht, if_neg Bool.false_ne_true, Bool.and_eq_true, Bool.not_eq_true'] at h
  exact h.1

/-- The first thread has completed after the others. -/
theorem all_done_of_orderly (h : orderly [] after (.done : Task ι σ ε) = true) :
    after.all isDone = true := by
  unfold orderly at h
  rw [if_neg (by simp [Task.spawn, anyFailed, isFailed]), Bool.and_eq_true] at h
  simpa [isDone] using h.2

end Orderly

variable {ok : List (Task ι σ ε) → List (Task ι σ ε) → Task ι σ ε → Prop}

/-- What every step keeps, whether its call completes or fails, a run keeps. -/
theorem FailingRuns.invariant {I : List (Task ι σ ε) → σ → Prop}
    (hstep : ∀ before after u n s c, I (before ++ .await u n :: after) s →
      ok before after (answer c u n s).1 →
      I (before ++ ((answer c u n s).1.spawn ++ after)) (answer c u n s).2)
    {ts ts' : List (Task ι σ ε)} {s s' : σ} (hrun : FailingRuns ok ts s ts' s') (h : I ts s) :
    I ts' s' := by
  induction hrun with
  | refl ts s => exact h
  | step c hok _ ih => exact ih (hstep _ _ _ _ _ c h hok)

/-! ## Runs on a schedule -/

/-- Runs threads on a schedule, all of whose turns must be allowed: which thread
takes its step next, and what its call comes to. -/
def execFailing (allows : List (Task ι σ ε) → List (Task ι σ ε) → Task ι σ ε → Bool) :
    List (Nat × Except ε ι) → List (Task ι σ ε) → σ → Option (List (Task ι σ ε) × σ)
  | [], ts, s => some (ts, s)
  | (i, c) :: rest, ts, s =>
    match ts[i]? with
    | some (.await u n) =>
      let o := answer c u n s
      if allows (ts.take i) (ts.drop (i + 1)) o.1 then
        execFailing allows rest (ts.take i ++ (o.1.spawn ++ ts.drop (i + 1))) o.2
      else none
    | _ => none

theorem failingRuns_of_exec {allows : List (Task ι σ ε) → List (Task ι σ ε) → Task ι σ ε → Bool}
    (hok : ∀ before after t, allows before after t = true → ok before after t)
    {sched : List (Nat × Except ε ι)} {ts : List (Task ι σ ε)} {s : σ} {o : List (Task ι σ ε) × σ}
    (h : execFailing allows sched ts s = some o) : FailingRuns ok ts s o.1 o.2 := by
  induction sched generalizing ts s with
  | nil =>
    simp only [execFailing, Option.some.injEq] at h
    subst h
    exact .refl _ _
  | cons ic rest ih =>
    obtain ⟨i, c⟩ := ic
    rw [execFailing] at h
    split at h
    · rename_i u n hget
      obtain ⟨hi, hget⟩ := List.getElem?_eq_some_iff.1 hget
      have hts : ts = ts.take i ++ .await u n :: ts.drop (i + 1) := by
        rw [← hget, ← List.drop_eq_getElem_cons hi, List.take_append_drop]
      dsimp only at h
      split at h
      · rename_i hallows
        rw [hts]
        exact .step c (hok _ _ _ hallows) (ih h)
      · cases h
    · cases h

end Async.Pool
