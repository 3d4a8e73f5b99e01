import Damaru.Async.Prog
import Mathlib.Logic.Relation

/-!
# A program amid interference

What a program can answer while others change the state between its steps. The
program's own steps are recorded by the states that they found.
-/

namespace Async.Prog

variable {ι σ ε α β : Type}

/-- `Amid R p s found r s'`: amid any number of steps of others, each related by
`R`, the program goes from `s` to its answer `r` in `s'`; `found` are the states
in which it took its own steps. -/
inductive Amid (R : σ → σ → Prop) : Prog ι σ ε α → σ → List σ → Except ε α → σ → Prop
  | pure (a : α) (s : σ) : Amid R (.pure a) s [] (.ok a) s
  | throw (e : ε) (s : σ) : Amid R (.throw e) s [] (.error e) s
  | await {u : ι → σ → σ} {n : ι → σ → Prog ι σ ε α} {s s' : σ} {found : List σ} {r : Except ε α} (x : ι) :
    Amid R (n x s) (u x s) found r s' → Amid R (.await u n) s (s :: found) r s'
  | other {p : Prog ι σ ε α} {s t s' : σ} {found : List σ} {r : Except ε α} :
    R s t → Amid R p t found r s' → Amid R p s found r s'

variable {R : σ → σ → Prop} {s s' : σ} {found : List σ}

theorem Amid.op_bind {f : ι → σ → Except ε α × σ} {g : α → Prog ι σ ε β} {r : Except ε β} (x : ι)
    (h : Amid R ((ofExcept (f x s).1).bind g) (f x s).2 found r s') : Amid R (op f >>= g) s (s :: found) r s' :=
  .await x h

theorem amid_pure {a : α} {r : Except ε α} (h : Amid (ι := ι) R (.pure a) s found r s') :
    found = [] ∧ r = .ok a := by
  generalize hp : (Prog.pure a : Prog ι σ ε α) = p at h
  induction h with
  | pure b s =>
    cases hp
    exact ⟨rfl, rfl⟩
  | throw e s => cases hp
  | await x _ _ => cases hp
  | other _ _ ih => exact ih hp

/-- The others come to a state in which the program's awaited call finds it. -/
theorem amid_op_bind {f : ι → σ → Except ε α × σ} {g : α → Prog ι σ ε β} {r : Except ε β}
    (h : Amid R (op f >>= g) s found r s') :
    ∃ t rest x, Relation.ReflTransGen R s t ∧ found = t :: rest ∧
      Amid R ((ofExcept (f x t).1).bind g) (f x t).2 rest r s' := by
  generalize hp : op f >>= g = p at h
  induction h with
  | pure b s => cases hp
  | throw e s => cases hp
  | @await u n s _ found _ x h _ =>
    obtain ⟨rfl, rfl⟩ := Prog.await.inj (show Prog.await _ _ = Prog.await u n from hp)
    exact ⟨s, found, x, .refl, rfl, h⟩
  | other hR _ ih =>
    obtain ⟨t, rest, x, hsteps, hfound, h⟩ := ih hp
    exact ⟨t, rest, x, .head hR hsteps, hfound, h⟩

end Async.Prog
