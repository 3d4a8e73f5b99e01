import Damaru.Async.Prog

/-!
# Two programs in lockstep

A property of two runs is proved like one of a single run: `Lockstep X Q p s p' s'`
says that the programs, run alone from `s` and `s'` on the same inputs out of
`X`, await call after call together and end in `Q`. One rule for each way a
program is put together.
-/

namespace Async.Prog

variable {ι σ ε α β : Type}

inductive Lockstep (X : ι → Prop) (Q : Except ε α → σ → Except ε α → σ → Prop) :
    Prog ι σ ε α → σ → Prog ι σ ε α → σ → Prop
  | pure {a a' : α} {s s' : σ} : Q (.ok a) s (.ok a') s' → Lockstep X Q (.pure a) s (.pure a') s'
  | throw {e e' : ε} {s s' : σ} : Q (.error e) s (.error e') s' →
      Lockstep X Q (.throw e) s (.throw e') s'
  | await {u u' : ι → σ → σ} {n n' : ι → σ → Prog ι σ ε α} {s s' : σ} :
      (∀ x, X x → Lockstep X Q (n x s) (u x s) (n' x s') (u' x s')) →
      Lockstep X Q (.await u n) s (.await u' n') s'

variable {X : ι → Prop} {Q : Except ε α → σ → Except ε α → σ → Prop}

/-- Two results with which two sequences go on, or end, together. -/
def Continues (X : ι → Prop) (Q : Except ε β → σ → Except ε β → σ → Prop)
    (f f' : α → Prog ι σ ε β) : Except ε α → σ → Except ε α → σ → Prop
  | .ok a, t, .ok a', t' => Lockstep X Q (f a) t (f' a') t'
  | .error e, t, .error e', t' => Q (.error e) t (.error e') t'
  | _, _, _, _ => False

theorem Lockstep.bind {p p' : Prog ι σ ε α} {f f' : α → Prog ι σ ε β} {s s' : σ}
    {Q : Except ε β → σ → Except ε β → σ → Prop} (h : Lockstep X (Continues X Q f f') p s p' s') :
    Lockstep X Q (p >>= f) s (p' >>= f') s' := by
  show Lockstep X Q (p.bind f) s (p'.bind f') s'
  induction h with
  | pure h => exact h
  | throw h => exact .throw h
  | await _ ih => exact .await ih

theorem Lockstep.op_bind {f f' : ι → σ → Except ε α × σ} {g g' : α → Prog ι σ ε β} {s s' : σ}
    {Q : Except ε β → σ → Except ε β → σ → Prop}
    (h : ∀ x, X x → Continues X Q g g' (f x s).1 (f x s).2 (f' x s').1 (f' x s').2) :
    Lockstep X Q (op f >>= g) s (op f' >>= g') s' := by
  refine .bind (.await fun x hx => ?_)
  have hx := h x hx
  rcases hf : (f x s).1 with e | a <;> rcases hf' : (f' x s').1 with e' | a' <;> rw [hf, hf'] at hx
  · exact .throw hx
  · exact hx.elim
  · exact hx.elim
  · exact .pure hx

/-- What two programs in lockstep come to on the same inputs. -/
theorem Lockstep.run {p p' : Prog ι σ ε α} {s s' t t' : σ} {xs : List ι} {r r' : Except ε α}
    (h : Lockstep X Q p s p' s') (hxs : ∀ x ∈ xs, X x) (hp : p.run xs s = some (r, t))
    (hp' : p'.run xs s' = some (r', t')) : Q r t r' t' := by
  induction h generalizing xs with
  | pure h =>
    obtain ⟨rfl, rfl⟩ := Prod.mk.inj (Option.some.inj hp)
    obtain ⟨rfl, rfl⟩ := Prod.mk.inj (Option.some.inj hp')
    exact h
  | throw h =>
    obtain ⟨rfl, rfl⟩ := Prod.mk.inj (Option.some.inj hp)
    obtain ⟨rfl, rfl⟩ := Prod.mk.inj (Option.some.inj hp')
    exact h
  | await _ ih =>
    cases xs with
    | nil => cases hp
    | cons x xs =>
      exact ih x (hxs x List.mem_cons_self) (fun y hy => hxs y (List.mem_cons_of_mem _ hy)) hp hp'

end Async.Prog
