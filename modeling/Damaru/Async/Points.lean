import Damaru.Async.Post

/-!
# Where a program can be stopped

`stop p xs s` is what the program, run alone from `s`, has come to when it has
had the inputs `xs`: its result, if it has ended, and the state that it leaves.
Every point at which it can be interrupted is such a state.
-/

namespace Async.Prog

variable {ι σ ε α β : Type}

def stop : Prog ι σ ε α → List ι → σ → Option (Except ε α) × σ
  | pure a, _, s => (some (.ok a), s)
  | throw e, _, s => (some (.error e), s)
  | await _ _, [], s => (none, s)
  | await u n, x :: xs, s => (n x s).stop xs (u x s)
  | fork _ _, _, s => (none, s)

@[simp] theorem stop_pure {a : α} {xs : List ι} {s : σ} :
    stop (ε := ε) (pure a) xs s = (some (.ok a), s) := rfl

@[simp] theorem stop_throw {e : ε} {xs : List ι} {s : σ} :
    stop (α := α) (throw e) xs s = (some (.error e), s) := rfl

/-- What a program comes to on some inputs is how it can end. -/
theorem ends_iff_stop {p : Prog ι σ ε α} {s s' : σ} {r : Except ε α} :
    Ends p s r s' ↔ ∃ xs, p.stop xs s = (some r, s') := by
  constructor
  · intro h
    induction h with
    | pure a s => exact ⟨[], rfl⟩
    | throw e s => exact ⟨[], rfl⟩
    | await x _ ih =>
      obtain ⟨xs, hxs⟩ := ih
      exact ⟨x :: xs, hxs⟩
  · intro ⟨xs, h⟩
    induction p generalizing xs s with
    | pure a =>
      obtain ⟨hr, rfl⟩ := Prod.mk.inj h
      exact Option.some.inj hr ▸ .pure a s
    | throw e =>
      obtain ⟨hr, rfl⟩ := Prod.mk.inj h
      exact Option.some.inj hr ▸ .throw e s
    | await u n ih =>
      cases xs with
      | nil => cases (Prod.mk.inj h).1
      | cons x xs => exact .await x (ih x s xs h)
    | fork c r => cases (Prod.mk.inj h).1

/-- One awaited call and what follows it. -/
theorem stop_op_bind {f : ι → σ → Except ε α × σ} {g : α → Prog ι σ ε β} {x : ι} {xs : List ι}
    {s : σ} : (op f >>= g).stop (x :: xs) s = match f x s with
      | (.ok a, t) => (g a).stop xs t
      | (.error e, t) => (some (.error e), t) := by
  show ((ofExcept (f x s).1).bind g).stop xs (f x s).2 = _
  rcases f x s with ⟨_ | a, t⟩ <;> rfl

@[simp] theorem stop_op_bind_nil {f : ι → σ → Except ε α × σ} {g : α → Prog ι σ ε β} {s : σ} :
    (op f >>= g).stop [] s = (none, s) := rfl

/-- A sequence is stopped in its first part, is rejected there, or is stopped
in what follows its first part. -/
theorem stop_bind_cases (p : Prog ι σ ε α) (f : α → Prog ι σ ε β) (xs : List ι) (s : σ) :
    ((p.stop xs s).1 = none ∧ (p >>= f).stop xs s = (none, (p.stop xs s).2)) ∨
      (∃ e t, Ends p s (.error e) t ∧ (p >>= f).stop xs s = (some (.error e), t)) ∨
      ∃ a t xs', Ends p s (.ok a) t ∧ (p >>= f).stop xs s = (f a).stop xs' t := by
  induction p generalizing xs s with
  | pure a => exact .inr (.inr ⟨a, s, xs, .pure a s, rfl⟩)
  | throw e => exact .inr (.inl ⟨e, s, .throw e s, rfl⟩)
  | await u n ih =>
    cases xs with
    | nil => exact .inl ⟨rfl, rfl⟩
    | cons x xs =>
      rcases ih x s xs (u x s) with h | ⟨e, t, h, heq⟩ | ⟨a, t, xs', h, heq⟩
      · exact .inl h
      · exact .inr (.inl ⟨e, t, .await x h, heq⟩)
      · exact .inr (.inr ⟨a, t, xs', .await x h, heq⟩)
  | fork c r => exact .inl ⟨rfl, rfl⟩

/-- What every atomic step satisfies, holds up to every point. -/
theorem Each.stop {R : σ → σ → Prop} {p : Prog ι σ ε α} (hp : p.Each R) (hrefl : ∀ s, R s s)
    (htrans : ∀ a b c, R a b → R b c → R a c) (xs : List ι) (s : σ) : R s (p.stop xs s).2 := by
  induction p generalizing xs s with
  | pure a => exact hrefl s
  | throw e => exact hrefl s
  | await u n ih =>
    cases xs with
    | nil => exact hrefl s
    | cons x xs => exact htrans _ _ _ (hp x s).1 (ih x s (hp x s).2 xs _)
  | fork c r => exact hrefl s

/-- Wherever the program is stopped, `I` holds of the state. -/
def Points (p : Prog ι σ ε α) (s : σ) (I : σ → Prop) : Prop := ∀ xs, I (p.stop xs s).2

variable {s : σ} {I : σ → Prop}

theorem Points.pure {a : α} (h : I s) : Points (ι := ι) (ε := ε) (.pure a) s I := fun _ => h

theorem Points.throw {e : ε} (h : I s) : Points (ι := ι) (α := α) (.throw e) s I := fun _ => h

theorem Points.op_bind {f : ι → σ → Except ε α × σ} {g : α → Prog ι σ ε β} (hs : I s)
    (hok : ∀ x a t, f x s = (.ok a, t) → Points (g a) t I)
    (herr : ∀ x e t, f x s = (.error e, t) → I t) : Points (op f >>= g) s I := by
  intro xs
  cases xs with
  | nil => exact hs
  | cons x xs =>
    rw [stop_op_bind]
    cases hf : f x s with
    | mk r t =>
      cases r with
      | ok a => exact hok x a t hf xs
      | error e => exact herr x e t hf

end Prog

/-! ## Programs over one part of the state -/

/-- A part of a state, which can be read and replaced. -/
structure Part (ρ σ : Type) where
  get : ρ → σ
  put : σ → ρ → ρ
  get_put : ∀ t s, get (put t s) = t
  put_get : ∀ s, put (get s) s = s
  put_put : ∀ t t' s, put t' (put t s) = put t' s

namespace Prog

variable {ι ρ σ ε α β : Type} (P : Part ρ σ)

/-- The program on a part of the state. -/
def within : Prog ι σ ε α → Prog ι ρ ε α
  | pure a => pure a
  | throw e => throw e
  | await u n => await (fun x s => P.put (u x (P.get s)) s) fun x s => (n x (P.get s)).within
  | fork c r => fork (task c) r.within
where
  task : Task ι σ ε → Task ι ρ ε
    | .done => .done
    | .fail e => .fail e
    | .await u n => .await (fun x s => P.put (u x (P.get s)) s) fun x s => task (n x (P.get s))
    | .fork c r => .fork (task c) (task r)

theorem within_bind {p : Prog ι σ ε α} {f : α → Prog ι σ ε β} :
    (p >>= f).within P = p.within P >>= fun a => (f a).within P := by
  show (p.bind f).within P = (p.within P).bind fun a => (f a).within P
  induction p with
  | pure a => rfl
  | throw e => rfl
  | await u n ih => simp only [bind, within, ih]
  | fork c r ih => simp only [bind, within, ih]

theorem ends_within {p : Prog ι σ ε α} {s s' : ρ} {r : Except ε α} :
    Ends (p.within P) s r s' ↔ ∃ t, Ends p (P.get s) r t ∧ s' = P.put t s := by
  induction p generalizing s with
  | pure a => simp [within, P.put_get, and_assoc]
  | throw e => simp [within, P.put_get, and_assoc]
  | await u n ih =>
    simp only [within, ends_await, ih, P.get_put, P.put_put]
    rw [exists_comm]
    simp only [exists_and_right]
  | fork c r =>
    constructor
    · intro h; cases h
    · rintro ⟨t, h, -⟩; cases h

theorem ForkFree.within {p : Prog ι σ ε α} (hp : p.ForkFree) : (p.within P).ForkFree := by
  induction p with
  | pure a => trivial
  | throw e => trivial
  | await u n ih => exact fun x s => ih x (P.get s) (hp x (P.get s))
  | fork c r => exact hp.elim

theorem stop_within (p : Prog ι σ ε α) (xs : List ι) (s : ρ) :
    (p.within P).stop xs s = ((p.stop xs (P.get s)).1, P.put (p.stop xs (P.get s)).2 s) := by
  induction p generalizing xs s with
  | pure a => simp [within, P.put_get]
  | throw e => simp [within, P.put_get]
  | await u n ih =>
    cases xs with
    | nil => simp [within, stop, P.put_get]
    | cons x xs => simp only [within, stop, ih, P.get_put, P.put_put]
  | fork c r => simp [within, stop, P.put_get]

end Prog

end Async
