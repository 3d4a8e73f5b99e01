import Damaru.Async.Post

/-!
# Programs under an environment

What a program does when the environment is not free in all that it supplies:
`p.under f` gets `f x` where the environment supplies `x`. A fixed clock, or a
fixed order of scans, is such an `f`.
-/

namespace Async

variable {ι ι' σ ε α β : Type}

def Task.under (f : ι' → ι) : Task ι σ ε → Task ι' σ ε
  | .done => .done
  | .fail e => .fail e
  | .await u n => .await (fun x => u (f x)) fun x s => (n (f x) s).under f
  | .fork c r => .fork (c.under f) (r.under f)

namespace Prog

def under (f : ι' → ι) : Prog ι σ ε α → Prog ι' σ ε α
  | pure a => pure a
  | throw e => throw e
  | await u n => await (fun x => u (f x)) fun x s => (n (f x) s).under f
  | fork c r => fork (c.under f) (r.under f)

variable {f : ι' → ι}

/-- An environment that is free. -/
@[simp] theorem under_id (p : Prog ι σ ε α) : p.under id = p := by
  have task : ∀ t : Task ι σ ε, t.under id = t := by
    intro t
    induction t with
    | done => rfl
    | fail e => rfl
    | await u n ih => simp only [Task.under, id, ih]
    | fork c r ihc ihr => simp only [Task.under, ihc, ihr]
  induction p with
  | pure a => rfl
  | throw e => rfl
  | await u n ih => simp only [under, id, ih]
  | fork c r ih => simp only [under, task, ih]

@[simp] theorem under_pure (a : α) : (Pure.pure a : Prog ι σ ε α).under f = Pure.pure a := rfl

@[simp] theorem under_throw (e : ε) : (throw e : Prog ι σ ε α).under f = throw e := rfl

theorem under_ofExcept (r : Except ε α) : (ofExcept r : Prog ι σ ε α).under f = ofExcept r := by
  cases r <;> rfl

theorem under_op {g : ι → σ → Except ε α × σ} : (op g).under f = op fun x => g (f x) := by
  unfold op under
  simp only [under_ofExcept]

theorem under_bind (p : Prog ι σ ε α) (g : α → Prog ι σ ε β) :
    (p >>= g).under f = p.under f >>= fun a => (g a).under f := by
  show (p.bind g).under f = (p.under f).bind _
  induction p with
  | pure a => rfl
  | throw e => rfl
  | await u n ih => simp only [bind, under, ih]
  | fork c r ih => simp only [bind, under, ih]

theorem under_forM {γ : Type} (g : γ → Prog ι σ ε PUnit) (l : List γ) :
    (forM l g).under f = forM l fun c => (g c).under f := by
  induction l with
  | nil => rfl
  | cons c l ih => rw [List.forM_cons, List.forM_cons, under_bind, ih]

theorem under_toTask (p : Prog ι σ ε α) : p.toTask.under f = (p.under f).toTask := by
  show (p.thenTask finish).under f = (p.under f).thenTask finish
  induction p with
  | pure a => rfl
  | throw e => rfl
  | await u n ih => simp only [thenTask, under, Task.under, ih]
  | fork c r ih => simp only [thenTask, under, Task.under, ih]

theorem under_detach (p : Prog ι σ ε α) : p.detach.under f = (p.under f).detach := by
  show fork (p.toTask.under f) (pure ()) = fork (p.under f).toTask (pure ())
  rw [under_toTask]

theorem ForkFree.under {p : Prog ι σ ε α} (h : p.ForkFree) : (p.under f).ForkFree := by
  induction p with
  | pure a => trivial
  | throw e => trivial
  | await u n ih => exact fun x s => ih (f x) s (h (f x) s)
  | fork c r => exact h.elim

/-- What a program can come to under an environment it can come to at all. -/
theorem Ends.of_under {p : Prog ι σ ε α} {s s' : σ} {r : Except ε α} (h : Ends (p.under f) s r s') :
    Ends p s r s' := by
  induction p generalizing s with
  | pure a => exact ends_pure.2 (ends_pure.1 h)
  | throw e => exact ends_throw.2 (ends_throw.1 h)
  | await u n ih =>
    obtain ⟨x, h⟩ := ends_await.1 h
    exact .await (f x) (ih (f x) s h)
  | fork c r => cases h

theorem Post.under {p : Prog ι σ ε α} {s : σ} {Q : Except ε α → σ → Prop} (h : p.Post s Q) :
    (p.under f).Post s Q := fun r s' hend => h r s' hend.of_under

end Prog

end Async
