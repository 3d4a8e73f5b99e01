import Damaru.Async.Pool

/-!
# Postconditions

`Post p s Q`: however the program, run alone from `s`, comes to its end, `Q`
holds of the result and of the state. One rule for each way a program is put
together; a rejection is an outcome like any other.
-/

namespace Async.Prog

variable {ι σ ε α β : Type}

def Post (p : Prog ι σ ε α) (s : σ) (Q : Except ε α → σ → Prop) : Prop :=
  ∀ r s', Ends p s r s' → Q r s'

variable {s : σ} {Q Q' : Except ε α → σ → Prop}

theorem Post.mono {p : Prog ι σ ε α} (h : Post p s Q) (hQ : ∀ r s', Q r s' → Q' r s') :
    Post p s Q' := fun r s' hr => hQ r s' (h r s' hr)

theorem Post.and {p : Prog ι σ ε α} (h : Post p s Q) (h' : Post p s Q') :
    Post p s fun r s' => Q r s' ∧ Q' r s' := fun r s' hr => ⟨h r s' hr, h' r s' hr⟩

theorem Post.pure {a : α} (h : Q (.ok a) s) : Post (ι := ι) (.pure a) s Q := by
  intro r s' hr
  obtain ⟨rfl, rfl⟩ := ends_pure.1 hr
  exact h

theorem Post.throw {e : ε} (h : Q (.error e) s) : Post (ι := ι) (.throw e) s Q := by
  intro r s' hr
  obtain ⟨rfl, rfl⟩ := ends_throw.1 hr
  exact h

theorem Post.op {f : ι → σ → Except ε α × σ} (h : ∀ x, Q (f x s).1 (f x s).2) : Post (op f) s Q := by
  intro r s' hr
  obtain ⟨x, hx⟩ := ends_op.1 hr
  have hq := h x
  rw [hx] at hq
  exact hq

/-- What follows a program is met with its result, or is skipped by its
rejection. -/
theorem Post.bind {p : Prog ι σ ε α} {f : α → Prog ι σ ε β} {Q : Except ε β → σ → Prop}
    (h : Post p s fun r t => match r with
      | .ok a => Post (f a) t Q
      | .error e => Q (.error e) t) : Post (p >>= f) s Q := by
  intro r s' hr
  rcases ends_bind.1 hr with ⟨e, rfl, he⟩ | ⟨a, t, ha, hf⟩
  · exact h _ _ he
  · exact h _ _ ha r s' hf

/-- What follows a program and only computes changes nothing. -/
theorem Post.andThen {p : Prog ι σ ε α} {f : α → Prog ι σ ε β} {I : σ → Prop}
    (h : Post p s fun _ => I) (hf : ∀ a, ∃ r, f a = ofExcept r) : Post (p >>= f) s fun _ => I := by
  refine .bind (h.mono fun r t ht => ?_)
  cases r with
  | ok a =>
    obtain ⟨r, hr⟩ := hf a
    intro r' s' hend
    rw [hr, ends_ofExcept] at hend
    rw [hend.2]
    exact ht
  | error e => exact ht

theorem Post.tryCatch {p : Prog ι σ ε α} {c : ε → Prog ι σ ε α}
    (h : Post p s fun r t => match r with
      | .ok a => Q (.ok a) t
      | .error e => Post (c e) t Q) : Post (p.tryCatch c) s Q := by
  intro r s' hr
  rcases ends_tryCatch.1 hr with ⟨a, rfl, ha⟩ | ⟨e, t, he, hc⟩
  · exact h _ _ ha
  · exact h _ _ he r s' hc

/-- The rule for loops: the invariant holds before and after every turn, also
after one that is rejected. -/
theorem Post.forM {γ : Type} {I : σ → Prop} {f : γ → Prog ι σ ε PUnit} {l : List γ}
    (hbody : ∀ c ∈ l, ∀ s, I s → Post (f c) s fun _ => I) (hs : I s) :
    Post (forM l f) s fun _ => I := by
  induction l generalizing s with
  | nil =>
    rw [List.forM_nil]
    exact .pure hs
  | cons c l ih =>
    rw [List.forM_cons]
    refine .bind ((hbody c List.mem_cons_self s hs).mono fun r t ht => ?_)
    cases r with
    | ok a => exact ih (fun c' hc' => hbody c' (List.mem_cons_of_mem _ hc')) ht
    | error e => exact ht

/-- The rule for loops whose invariant tells of the items that are done. -/
theorem Post.forM_done {γ : Type} {I : List γ → σ → Prop} {f : γ → Prog ι σ ε PUnit} {l : List γ}
    (hbody : ∀ done c s, I done s → Post (f c) s fun r s' => r = .ok ⟨⟩ ∧ I (done ++ [c]) s')
    (hs : I [] s) : Post (ForM.forM l f) s fun r s' => r = .ok ⟨⟩ ∧ I l s' := by
  suffices hrest : ∀ done s, I done s →
      Post (ForM.forM l f) s fun r s' => r = .ok ⟨⟩ ∧ I (done ++ l) s' from hrest [] s hs
  induction l with
  | nil =>
    intro done s hs
    rw [List.forM_nil, List.append_nil]
    exact .pure ⟨rfl, hs⟩
  | cons c l ih =>
    intro done s hs
    rw [List.forM_cons]
    refine .bind ((hbody done c s hs).mono fun r t ht => ?_)
    obtain ⟨rfl, ht⟩ := ht
    have hrest := ih (done ++ [c]) t ht
    rwa [List.append_assoc] at hrest

/-- What every atomic step satisfies in whatever state it falls, the program
run alone satisfies. -/
theorem Each.post {R : σ → σ → Prop} {p : Prog ι σ ε α} (hp : p.Each R) (hrefl : ∀ s, R s s)
    (htrans : ∀ a b c, R a b → R b c → R a c) : Post p s fun _ s' => R s s' :=
  fun _ _ hr => hp.ends hrefl htrans hr

/-- A program that forks nothing settles as it ends alone. -/
theorem Post.settles {p : Prog ι σ ε α} {allowed : ε → Prop} {I : σ → Prop}
    (h : Post p s fun r s' => (∀ e, r = .error e → allowed e) → I s') (hp : p.ForkFree) {s' : σ}
    (hs : Pool.Settles allowed p s s') : I s' := by
  obtain ⟨r, hr, he⟩ := hs.ends hp
  exact h r s' hr he

end Async.Prog
