import Damaru.Async.Serial
import Damaru.Async.Yields

/-!
# Schedules

Two directions for a pool whose threads hand on their labels and take turns
freely. What every step keeps holds after any schedule; and some schedule lets
the threads come to their ends one after another, with a given one last.
-/

namespace Async

namespace Pool

variable {κ ι σ ε α : Type}

/-- Any schedule: labels are handed on, and every thread may step at any time. -/
abbrev Scheduled : Pool κ ι σ ε → σ → Pool κ ι σ ε → σ → Prop := Runs (fun k _ => k) fun _ _ _ => True

namespace Scheduled

/-- What one step of one thread keeps holds after any schedule. -/
theorem invariant {I : Pool κ ι σ ε → σ → Prop}
    (hstep : ∀ before after k u n x s, I (before ++ (k, .await u n) :: after) s →
      I (before ++ (threads k (n x s) ++ after)) (u x s))
    {ts ts' : Pool κ ι σ ε} {s s' : σ} (hrun : Scheduled ts s ts' s') (h : I ts s) : I ts' s' := by
  induction hrun with
  | refl ts s => exact h
  | step x _ _ ih => exact ih (hstep _ _ _ _ _ x _ h)

theorem trans {ts ts' ts'' : Pool κ ι σ ε} {s s' s'' : σ} (h : Scheduled ts s ts' s')
    (h' : Scheduled ts' s' ts'' s'') : Scheduled ts s ts'' s'' := by
  induction h with
  | refl ts s => exact h'
  | step x hok _ ih => exact .step x hok (ih h')

/-- A thread comes to its end while the others wait. -/
theorem of_ends {p : Prog ι σ ε α} {k : κ} {before after : Pool κ ι σ ε} {s s' : σ} {r : Except ε α}
    (h : p.Ends s r s') :
    Scheduled (before ++ (k, p.toTask) :: after) s (before ++ (k, Prog.finish r) :: after) s' := by
  induction h with
  | pure a s => exact .refl _ s
  | throw e s => exact .refl _ s
  | @await u n s s' r x hend ih =>
    have hspawn : (n x s).toTask.spawn = [(n x s).toTask] := by
      generalize n x s = p at hend
      cases hend <;> rfl
    refine .step (n := fun x s => (n x s).toTask) x trivial ?_
    show Scheduled (before ++ ((n x s).toTask.spawn.map (fun t => (k, t)) ++ after)) (u x s) _ _
    rw [hspawn]
    exact ih

/-- Threads come to their ends one after another while the others wait. -/
theorem exists_ended [Inhabited ι] {l : List κ} {p : κ → Prog ι σ ε α} (hp : ∀ k ∈ l, (p k).ForkFree)
    (before after : Pool κ ι σ ε) (s : σ) : ∃ ts s', (∀ th ∈ ts, isEnded th.2 = true) ∧
      Scheduled (before ++ (l.map (fun k => (k, (p k).toTask)) ++ after)) s (before ++ (ts ++ after)) s' := by
  induction l generalizing before s with
  | nil => exact ⟨[], s, nofun, .refl _ s⟩
  | cons k l ih =>
    obtain ⟨r, s₁, hend⟩ := (hp k List.mem_cons_self).exists_ends s
    obtain ⟨ts, s', hts, hrun⟩ :=
      ih (fun k hk => hp k (List.mem_cons_of_mem _ hk)) (before ++ [(k, Prog.finish r)]) s₁
    refine ⟨(k, Prog.finish r) :: ts, s', ?_, ?_⟩
    · rw [List.forall_mem_cons]
      exact ⟨Prog.isEnded_finish r, hts⟩
    · simp only [List.append_assoc, List.cons_append, List.nil_append] at hrun
      simp only [List.map_cons, List.cons_append]
      exact (of_ends hend).trans hrun

/-- All threads come to their ends, and a given one of them goes last. -/
theorem exists_last [Inhabited ι] {l : List κ} {p : κ → Prog ι σ ε α} (hp : ∀ k ∈ l, (p k).ForkFree)
    {k : κ} (hk : k ∈ l) (s : σ) : ∃ s₁, ∀ r s', (p k).Ends s₁ r s' → ∃ ts,
      Scheduled (l.map fun k => (k, (p k).toTask)) s ts s' ∧ ∀ th ∈ ts, isEnded th.2 = true := by
  obtain ⟨l₁, l₂, rfl⟩ := List.append_of_mem hk
  obtain ⟨ts₁, s₁, hts₁, hrun₁⟩ := exists_ended (fun k hk => hp k (List.mem_append_left _ hk)) []
    ((k, (p k).toTask) :: l₂.map fun k => (k, (p k).toTask)) s
  obtain ⟨ts₂, s₂, hts₂, hrun₂⟩ :=
    exists_ended (fun k hk => hp k (List.mem_append_right _ (List.mem_cons_of_mem _ hk)))
      (ts₁ ++ [(k, (p k).toTask)]) [] s₁
  refine ⟨s₂, fun r s' hend => ⟨ts₁ ++ (k, Prog.finish r) :: ts₂, ?_, ?_⟩⟩
  · simp only [List.append_assoc, List.cons_append, List.nil_append, List.append_nil] at hrun₁ hrun₂
    rw [List.map_append, List.map_cons]
    exact (hrun₁.trans hrun₂).trans (of_ends hend)
  · intro th hth
    rcases List.mem_append.1 hth with hth | hth
    · exact hts₁ th hth
    · rcases List.mem_cons.1 hth with rfl | hth
      · exact Prog.isEnded_finish r
      · exact hts₂ th hth

end Scheduled

end Pool

end Async
