import Damaru.Async.Prog

/-!
# Rejected without a trace

A program that is rejected can have done part of its work before. One that is
clean has not: up to the rejection each of its steps keeps the state as `K`
says, and once a step does not, the program is never rejected. Others may
change the state between any two of its steps.
-/

namespace Async.Prog

variable {ι σ ε α β : Type}

/-- The program comes to `r` by the steps of the list, each with the state that
it found and the state that it left. -/
inductive Takes : Prog ι σ ε α → List (σ × σ) → Except ε α → Prop
  | pure (a : α) : Takes (.pure a) [] (.ok a)
  | throw (e : ε) : Takes (.throw e) [] (.error e)
  | await {u : ι → σ → σ} {n : ι → σ → Prog ι σ ε α} {l : List (σ × σ)} {r : Except ε α} (x : ι) (s : σ) :
      Takes (n x s) l r → Takes (.await u n) ((s, u x s) :: l) r

/-- Never rejected, whatever its steps find. -/
def Safe : Prog ι σ ε α → Prop
  | pure _ => True
  | throw _ => False
  | await _ n => ∀ x s, (n x s).Safe
  | fork _ _ => False

/-- Not rejected any more once a step has not kept the state. -/
def Clean (K : σ → σ → Prop) : Prog ι σ ε α → Prop
  | pure _ => True
  | throw _ => True
  | await u n => ∀ x s, (n x s).Safe ∨ (K s (u x s) ∧ (n x s).Clean K)
  | fork _ _ => False

variable {K : σ → σ → Prop}

theorem Safe.clean : ∀ {p : Prog ι σ ε α}, p.Safe → p.Clean K
  | pure _, _ => trivial
  | throw _, _ => trivial
  | await _ _, h => fun x s => .inl (h x s)

theorem Safe.bind {p : Prog ι σ ε α} {f : α → Prog ι σ ε β} (hp : p.Safe) (hf : ∀ a, (f a).Safe) :
    (p >>= f).Safe := by
  show (p.bind f).Safe
  induction p with
  | pure a => exact hf a
  | throw e => exact hp.elim
  | await u n ih => exact fun x s => ih x s (hp x s)
  | fork c r => exact hp.elim

theorem Safe.forM {γ : Type} {f : γ → Prog ι σ ε PUnit} (h : ∀ c, (f c).Safe) :
    ∀ l : List γ, (ForM.forM l f).Safe
  | [] => by rw [List.forM_nil]; exact trivial
  | c :: l => by rw [List.forM_cons]; exact (h c).bind fun _ => Safe.forM h l

/-- A program whose rejection is caught. -/
theorem safe_tryCatch {p : Prog ι σ ε α} {h : ε → Prog ι σ ε α} (hp : p.ForkFree) (hh : ∀ e, (h e).Safe) :
    (p.tryCatch h).Safe := by
  induction p with
  | pure a => exact trivial
  | throw e => exact hh e
  | await u n ih => exact fun x s => ih x s (hp x s)
  | fork c r => exact hp.elim

theorem safe_ofExcept {r : Except ε α} (h : ∃ a, r = .ok a) : (ofExcept r : Prog ι σ ε α).Safe := by
  obtain ⟨a, rfl⟩ := h
  exact trivial

theorem safe_op {f : ι → σ → Except ε α × σ} (h : ∀ x s, ∃ a, (f x s).1 = .ok a) : (op f).Safe :=
  fun x s => safe_ofExcept (h x s)

theorem clean_ofExcept : ∀ r : Except ε α, (ofExcept r : Prog ι σ ε α).Clean K
  | .ok _ => trivial
  | .error _ => trivial

/-- A call that keeps the state, or is not rejected. -/
theorem clean_op {f : ι → σ → Except ε α × σ} (h : ∀ x s, (∃ a, (f x s).1 = .ok a) ∨ K s (f x s).2) :
    (op f).Clean K :=
  fun x s => (h x s).imp safe_ofExcept fun hK => ⟨hK, clean_ofExcept _⟩

/-- What follows keeps clean a program that keeps the state. -/
theorem Clean.bind_of_each {p : Prog ι σ ε α} {f : α → Prog ι σ ε β} (hp : p.Each K) (hfree : p.ForkFree)
    (hf : ∀ a, (f a).Clean K) : (p >>= f).Clean K := by
  show (p.bind f).Clean K
  induction p with
  | pure a => exact hf a
  | throw e => exact trivial
  | await u n ih => exact fun x s => .inr ⟨(hp x s).1, ih x s (hp x s).2 (hfree x s)⟩
  | fork c r => exact hfree.elim

/-- Nothing that follows is rejected. -/
theorem Clean.bind {p : Prog ι σ ε α} {f : α → Prog ι σ ε β} (hp : p.Clean K) (hf : ∀ a, (f a).Safe) :
    (p >>= f).Clean K := by
  show (p.bind f).Clean K
  induction p with
  | pure a => exact (hf a).clean
  | throw e => exact trivial
  | await u n ih =>
    exact fun x s => (hp x s).imp (fun hsafe => hsafe.bind hf) fun h => ⟨h.1, ih x s h.2⟩
  | fork c r => exact hp.elim

/-- What a program comes to alone, it comes to by the steps that it takes. -/
theorem Ends.takes {p : Prog ι σ ε α} {s s' : σ} {r : Except ε α} (h : Ends p s r s') : ∃ l, p.Takes l r := by
  induction h with
  | pure a s => exact ⟨[], .pure a⟩
  | throw e s => exact ⟨[], .throw e⟩
  | await x _ ih =>
    obtain ⟨l, htakes⟩ := ih
    exact ⟨_, .await x _ htakes⟩

theorem Safe.of_takes {p : Prog ι σ ε α} {l : List (σ × σ)} {r : Except ε α} (hp : p.Safe)
    (h : p.Takes l r) : ∃ a, r = .ok a := by
  induction h with
  | pure a => exact ⟨a, rfl⟩
  | throw e => exact hp.elim
  | await x s _ ih => exact ih (hp x s)

/-- **Rejected without a trace.** -/
theorem Clean.of_takes {p : Prog ι σ ε α} {l : List (σ × σ)} {e : ε} (hp : p.Clean K)
    (h : p.Takes l (.error e)) : ∀ y ∈ l, K y.1 y.2 := by
  generalize hr : (Except.error e : Except ε α) = r at h
  induction h with
  | pure a => cases hr
  | throw e => exact fun _ hy => absurd hy List.not_mem_nil
  | await x s hrest ih =>
    rcases hp x s with hsafe | ⟨hK, hclean⟩
    · obtain ⟨a, rfl⟩ := hsafe.of_takes hrest
      cases hr
    · rw [List.forall_mem_cons]
      exact ⟨hK, ih hclean hr⟩

/-- Alone, a program that is rejected leaves the state as `K` says. -/
theorem Clean.of_ends {p : Prog ι σ ε α} {s s' : σ} {e : ε} (hp : p.Clean K) (hrefl : ∀ s, K s s)
    (htrans : ∀ a b c, K a b → K b c → K a c) (h : Ends p s (.error e) s') : K s s' := by
  generalize hr : (Except.error e : Except ε α) = r at h
  induction h with
  | pure a s => cases hr
  | throw e s => exact hrefl s
  | @await u n s s' r x hrest ih =>
    rcases hp x s with hsafe | ⟨hK, hclean⟩
    · obtain ⟨l, htakes⟩ := hrest.takes
      obtain ⟨a, rfl⟩ := hsafe.of_takes htakes
      cases hr
    · exact htrans _ _ _ hK (ih hclean hr)

end Async.Prog
