/-!
# Programs that await

A request handler runs up to its next `await`, gives the thread away, and goes
on with what the awaited call answered. `Prog ι σ ε α` is such a handler as a
tree: at every `await` the environment supplies an input `ι` (the clock, a
random draw, the order in which a table is scanned), the shared state `σ` is
updated in one atomic step, and the rest of the program depends on the input
and on the state that the step found. Writes made before a rejection `ε` stay.

One tree serves every reading of a handler: alone (`Ends`, `run`), every
atomic step by itself (`Each`), or interleaved with others (`Async.Pool`).
-/

namespace Async

/-- A thread of control whose result nobody waits for. -/
inductive Task (ι σ ε : Type) where
  | done
  | fail (e : ε)
  | await (upd : ι → σ → σ) (next : ι → σ → Task ι σ ε)
  | fork (child rest : Task ι σ ε)

/-- A program with a result. `fork` starts a promise that is not awaited. -/
inductive Prog (ι σ ε α : Type) where
  | pure (a : α)
  | throw (e : ε)
  | await (upd : ι → σ → σ) (next : ι → σ → Prog ι σ ε α)
  | fork (child : Task ι σ ε) (rest : Prog ι σ ε α)

namespace Prog

variable {ι σ ε α β : Type}

def bind : Prog ι σ ε α → (α → Prog ι σ ε β) → Prog ι σ ε β
  | pure a, f => f a
  | throw e, _ => throw e
  | await u n, f => await u fun x s => (n x s).bind f
  | fork c r, f => fork c (r.bind f)

def tryCatch : Prog ι σ ε α → (ε → Prog ι σ ε α) → Prog ι σ ε α
  | pure a, _ => pure a
  | throw e, h => h e
  | await u n, h => await u fun x s => (n x s).tryCatch h
  | fork c r, h => fork c (r.tryCatch h)

instance : Monad (Prog ι σ ε) where
  pure := pure
  bind := bind

instance : MonadExceptOf ε (Prog ι σ ε) where
  throw := throw
  tryCatch := tryCatch

theorem bind_pure' (p : Prog ι σ ε α) : p.bind pure = p := by
  induction p with
  | pure a => rfl
  | throw e => rfl
  | await u n ih => simp only [bind, ih]
  | fork c r ih => simp only [bind, ih]

theorem bind_assoc' {γ : Type} (p : Prog ι σ ε α) (f : α → Prog ι σ ε β) (g : β → Prog ι σ ε γ) :
    (p.bind f).bind g = p.bind fun a => (f a).bind g := by
  induction p with
  | pure a => rfl
  | throw e => rfl
  | await u n ih => simp only [bind, ih]
  | fork c r ih => simp only [bind, ih]

instance : LawfulMonad (Prog ι σ ε) :=
  LawfulMonad.mk' _ bind_pure' (fun _ _ => rfl) bind_assoc'

/-- The rest of a program whose awaited call has answered `r`. -/
def ofExcept : Except ε α → Prog ι σ ε α
  | .ok a => pure a
  | .error e => throw e

/-- One awaited call: an atomic step with an answer. -/
def op (f : ι → σ → Except ε α × σ) : Prog ι σ ε α :=
  await (fun x s => (f x s).2) fun x s => ofExcept (f x s).1

/-- The program as a thread that goes on with `k`. -/
def thenTask : Prog ι σ ε α → (Except ε α → Task ι σ ε) → Task ι σ ε
  | pure a, k => k (.ok a)
  | throw e, k => k (.error e)
  | await u n, k => .await u fun x s => (n x s).thenTask k
  | fork c r, k => .fork c (r.thenTask k)

/-- How a thread ends when nothing follows the program. -/
def finish : Except ε α → Task ι σ ε
  | .ok _ => .done
  | .error e => .fail e

/-- The program as a thread of its own. -/
def toTask (p : Prog ι σ ε α) : Task ι σ ε := p.thenTask finish

/-- Starts `p` without awaiting it. -/
def detach (p : Prog ι σ ε α) : Prog ι σ ε Unit := fork p.toTask (pure ())

@[simp] theorem pure_eq (a : α) : (Pure.pure a : Prog ι σ ε α) = pure a := rfl

@[simp] theorem throw_eq (e : ε) : (MonadExcept.throw e : Prog ι σ ε α) = throw e := rfl

@[simp] theorem throwThe_eq (e : ε) : (throwThe ε e : Prog ι σ ε α) = throw e := rfl

@[simp] theorem tryCatch_eq (p : Prog ι σ ε α) (h : ε → Prog ι σ ε α) :
    MonadExcept.tryCatch p h = p.tryCatch h := rfl

@[simp] theorem tryCatchThe_eq (p : Prog ι σ ε α) (h : ε → Prog ι σ ε α) :
    tryCatchThe ε p h = p.tryCatch h := rfl

/-! ## What a program does alone -/

/-- `Ends p s r s'`: run alone from `s`, the program can end with `r` in `s'`.
Programs that fork are run in a pool instead. -/
inductive Ends : Prog ι σ ε α → σ → Except ε α → σ → Prop
  | pure (a : α) (s : σ) : Ends (.pure a) s (.ok a) s
  | throw (e : ε) (s : σ) : Ends (.throw e) s (.error e) s
  | await {u : ι → σ → σ} {n : ι → σ → Prog ι σ ε α} {s s' : σ} {r : Except ε α} (x : ι) :
      Ends (n x s) (u x s) r s' → Ends (.await u n) s r s'

@[simp] theorem ends_pure {a : α} {s s' : σ} {r : Except ε α} :
    Ends (ι := ι) (.pure a) s r s' ↔ r = .ok a ∧ s' = s :=
  ⟨fun h => by cases h; exact ⟨rfl, rfl⟩, by rintro ⟨rfl, rfl⟩; exact .pure a _⟩

@[simp] theorem ends_throw {e : ε} {s s' : σ} {r : Except ε α} :
    Ends (ι := ι) (.throw e) s r s' ↔ r = .error e ∧ s' = s :=
  ⟨fun h => by cases h; exact ⟨rfl, rfl⟩, by rintro ⟨rfl, rfl⟩; exact .throw e _⟩

theorem ends_await {u : ι → σ → σ} {n : ι → σ → Prog ι σ ε α} {s s' : σ} {r : Except ε α} :
    Ends (.await u n) s r s' ↔ ∃ x, Ends (n x s) (u x s) r s' :=
  ⟨fun h => by cases h with | await x h => exact ⟨x, h⟩, fun ⟨x, h⟩ => .await x h⟩

theorem ends_op {f : ι → σ → Except ε α × σ} {s s' : σ} {r : Except ε α} :
    Ends (op f) s r s' ↔ ∃ x, f x s = (r, s') := by
  unfold op
  rw [ends_await]
  refine exists_congr fun x => ?_
  rcases f x s with ⟨_ | a, t⟩ <;>
    simp only [ofExcept, ends_pure, ends_throw, Prod.mk.injEq, eq_comm]

theorem ends_bind {p : Prog ι σ ε α} {f : α → Prog ι σ ε β} {s s' : σ} {r : Except ε β} :
    Ends (p >>= f) s r s' ↔
      (∃ e, r = .error e ∧ Ends p s (.error e) s') ∨
      ∃ a t, Ends p s (.ok a) t ∧ Ends (f a) t r s' := by
  show Ends (p.bind f) s r s' ↔ _
  induction p generalizing s with
  | pure a => simp [bind, and_assoc]
  | throw e => simp [bind, and_left_comm]
  | await u n ih =>
    simp only [bind, ends_await, ih]
    constructor
    · rintro ⟨x, ⟨e, he, h⟩ | ⟨a, t, h, hf⟩⟩
      · exact .inl ⟨e, he, x, h⟩
      · exact .inr ⟨a, t, ⟨x, h⟩, hf⟩
    · rintro (⟨e, he, x, h⟩ | ⟨a, t, ⟨x, h⟩, hf⟩)
      · exact ⟨x, .inl ⟨e, he, h⟩⟩
      · exact ⟨x, .inr ⟨a, t, h, hf⟩⟩
  | fork c q ih =>
    constructor
    · intro h; cases h
    · rintro (⟨e, -, h⟩ | ⟨a, t, h, -⟩) <;> cases h

/-- A sequence returns if both of its parts do. -/
theorem ends_ok_bind {p : Prog ι σ ε α} {f : α → Prog ι σ ε β} {s s' : σ} {b : β} :
    Ends (p >>= f) s (.ok b) s' ↔ ∃ a t, Ends p s (.ok a) t ∧ Ends (f a) t (.ok b) s' := by
  rw [ends_bind]
  constructor
  · rintro (⟨e, he, -⟩ | h)
    · cases he
    · exact h
  · exact .inr

theorem ends_tryCatch {p : Prog ι σ ε α} {h : ε → Prog ι σ ε α} {s s' : σ} {r : Except ε α} :
    Ends (p.tryCatch h) s r s' ↔
      (∃ a, r = .ok a ∧ Ends p s (.ok a) s') ∨
      ∃ e t, Ends p s (.error e) t ∧ Ends (h e) t r s' := by
  induction p generalizing s with
  | pure a => simp [tryCatch, and_left_comm]
  | throw e => simp [tryCatch, and_assoc]
  | await u n ih =>
    simp only [tryCatch, ends_await, ih]
    constructor
    · rintro ⟨x, ⟨a, ha, h⟩ | ⟨e, t, h, hf⟩⟩
      · exact .inl ⟨a, ha, x, h⟩
      · exact .inr ⟨e, t, ⟨x, h⟩, hf⟩
    · rintro (⟨a, ha, x, h⟩ | ⟨e, t, ⟨x, h⟩, hf⟩)
      · exact ⟨x, .inl ⟨a, ha, h⟩⟩
      · exact ⟨x, .inr ⟨e, t, h, hf⟩⟩
  | fork c q ih =>
    constructor
    · intro h; cases h
    · rintro (⟨a, -, h⟩ | ⟨e, t, h, -⟩) <;> cases h

theorem ends_ofExcept {r₀ r : Except ε α} {s s' : σ} :
    Ends (ι := ι) (ofExcept r₀) s r s' ↔ r = r₀ ∧ s' = s := by
  cases r₀ with
  | ok a => exact ends_pure
  | error e => exact ends_throw

/-- Runs a program alone on the inputs of `xs`; `none` if they run out or the
program forks. -/
def run : Prog ι σ ε α → List ι → σ → Option (Except ε α × σ)
  | pure a, _, s => some (.ok a, s)
  | throw e, _, s => some (.error e, s)
  | await _ _, [], _ => none
  | await u n, x :: xs, s => (n x s).run xs (u x s)
  | fork _ _, _, _ => none

theorem ends_of_run {p : Prog ι σ ε α} {xs : List ι} {s : σ} {o : Except ε α × σ}
    (h : p.run xs s = some o) : Ends p s o.1 o.2 := by
  induction p generalizing xs s with
  | pure a => simp only [run, Option.some.injEq] at h; subst h; exact .pure a s
  | throw e => simp only [run, Option.some.injEq] at h; subst h; exact .throw e s
  | await u n ih =>
    cases xs with
    | nil => simp [run] at h
    | cons x xs => exact .await x (ih x s h)
  | fork c r => simp [run] at h

/-- A run of one awaited call and what follows it. -/
theorem run_op_bind {f : ι → σ → Except ε α × σ} {g : α → Prog ι σ ε β} {x : ι} {xs : List ι}
    {s : σ} : (op f >>= g).run (x :: xs) s = match f x s with
      | (.ok a, t) => (g a).run xs t
      | (.error e, t) => some (.error e, t) := by
  show ((ofExcept (f x s).1).bind g).run xs (f x s).2 = _
  rcases f x s with ⟨_ | a, t⟩ <;> rfl

@[simp] theorem run_op_bind_nil {f : ι → σ → Except ε α × σ} {g : α → Prog ι σ ε β} {s : σ} :
    (op f >>= g).run [] s = none := rfl

/-- Dropping the result of a program runs as the program does. -/
theorem run_bind_unit {p : Prog ι σ ε α} {xs : List ι} {s : σ} :
    (p >>= fun _ => Pure.pure ()).run xs s =
      (p.run xs s).map fun o => (o.1.map fun _ => (), o.2) := by
  show (p.bind fun _ => pure ()).run xs s = _
  induction p generalizing xs s with
  | pure a => rfl
  | throw e => rfl
  | await u n ih =>
    cases xs with
    | nil => rfl
    | cons x xs => exact ih x s
  | fork c r => rfl

/-! ## Programs without a fork -/

def ForkFree : Prog ι σ ε α → Prop
  | pure _ => True
  | throw _ => True
  | await _ n => ∀ x s, (n x s).ForkFree
  | fork _ _ => False

@[simp] theorem forkFree_pure {a : α} : (pure a : Prog ι σ ε α).ForkFree := trivial

@[simp] theorem forkFree_throw {e : ε} : (throw e : Prog ι σ ε α).ForkFree := trivial

theorem forkFree_ofExcept : ∀ r : Except ε α, (ofExcept r : Prog ι σ ε α).ForkFree
  | .ok _ => trivial
  | .error _ => trivial

@[simp] theorem forkFree_op {f : ι → σ → Except ε α × σ} : (op f).ForkFree :=
  fun _ _ => forkFree_ofExcept _

theorem ForkFree.bind {p : Prog ι σ ε α} {f : α → Prog ι σ ε β} (hp : p.ForkFree)
    (hf : ∀ a, (f a).ForkFree) : (p >>= f).ForkFree := by
  show (p.bind f).ForkFree
  induction p with
  | pure a => exact hf a
  | throw e => trivial
  | await u n ih => exact fun x s => ih x s (hp x s)
  | fork c r => exact hp.elim

theorem ForkFree.tryCatch {p : Prog ι σ ε α} {h : ε → Prog ι σ ε α} (hp : p.ForkFree)
    (hh : ∀ e, (h e).ForkFree) : (p.tryCatch h).ForkFree := by
  induction p with
  | pure a => trivial
  | throw e => exact hh e
  | await u n ih => exact fun x s => ih x s (hp x s)
  | fork c r => exact hp.elim

theorem ForkFree.forM {γ : Type} {f : γ → Prog ι σ ε PUnit} (h : ∀ c, (f c).ForkFree) :
    ∀ l : List γ, (forM l f).ForkFree
  | [] => by rw [List.forM_nil]; exact trivial
  | c :: l => by rw [List.forM_cons]; exact (h c).bind fun _ => ForkFree.forM h l

/-- A program without a fork always comes to an end, on any inputs. -/
theorem ForkFree.exists_ends [Inhabited ι] {p : Prog ι σ ε α} (h : p.ForkFree) (s : σ) :
    ∃ r s', Ends p s r s' := by
  induction p generalizing s with
  | pure a => exact ⟨_, _, .pure a s⟩
  | throw e => exact ⟨_, _, .throw e s⟩
  | await u n ih =>
    obtain ⟨r, s', h'⟩ := ih default s (h default s) (u default s)
    exact ⟨r, s', .await default h'⟩
  | fork c r => exact h.elim

end Prog

/-! ## Every atomic step by itself -/

variable {ι σ ε α β : Type}

/-- Every atomic step of the thread, in whatever state it falls, relates the
state before it to the state after it by `R`. -/
def Task.Each (R : σ → σ → Prop) : Task ι σ ε → Prop
  | .done => True
  | .fail _ => True
  | .await u n => ∀ x s, R s (u x s) ∧ (n x s).Each R
  | .fork c r => c.Each R ∧ r.Each R

namespace Prog

/-- Every atomic step of the program and of what it forks satisfies `R`. -/
def Each (R : σ → σ → Prop) : Prog ι σ ε α → Prop
  | pure _ => True
  | throw _ => True
  | await u n => ∀ x s, R s (u x s) ∧ (n x s).Each R
  | fork c r => c.Each R ∧ r.Each R

variable {R : σ → σ → Prop}

@[simp] theorem each_pure {a : α} : (pure a : Prog ι σ ε α).Each R := trivial

@[simp] theorem each_throw {e : ε} : (throw e : Prog ι σ ε α).Each R := trivial

theorem each_ofExcept : ∀ r : Except ε α, (ofExcept r : Prog ι σ ε α).Each R
  | .ok _ => trivial
  | .error _ => trivial

theorem each_op {f : ι → σ → Except ε α × σ} (h : ∀ x s, R s (f x s).2) : (op f).Each R :=
  fun x s => ⟨h x s, each_ofExcept _⟩

theorem Each.bind {p : Prog ι σ ε α} {f : α → Prog ι σ ε β} (hp : p.Each R)
    (hf : ∀ a, (f a).Each R) : (p >>= f).Each R := by
  show (p.bind f).Each R
  induction p with
  | pure a => exact hf a
  | throw e => trivial
  | await u n ih => exact fun x s => ⟨(hp x s).1, ih x s (hp x s).2⟩
  | fork c r ih => exact ⟨hp.1, ih hp.2⟩

theorem Each.tryCatch {p : Prog ι σ ε α} {h : ε → Prog ι σ ε α} (hp : p.Each R)
    (hh : ∀ e, (h e).Each R) : (p.tryCatch h).Each R := by
  induction p with
  | pure a => trivial
  | throw e => exact hh e
  | await u n ih => exact fun x s => ⟨(hp x s).1, ih x s (hp x s).2⟩
  | fork c r ih => exact ⟨hp.1, ih hp.2⟩

theorem Each.forM {γ : Type} {f : γ → Prog ι σ ε PUnit} (h : ∀ c, (f c).Each R) :
    ∀ l : List γ, (forM l f).Each R
  | [] => by rw [List.forM_nil]; exact trivial
  | c :: l => by rw [List.forM_cons]; exact (h c).bind fun _ => Each.forM h l

theorem Each.thenTask {p : Prog ι σ ε α} {k : Except ε α → Task ι σ ε} (hp : p.Each R)
    (hk : ∀ r, (k r).Each R) : (p.thenTask k).Each R := by
  induction p with
  | pure a => exact hk _
  | throw e => exact hk _
  | await u n ih => exact fun x s => ⟨(hp x s).1, ih x s (hp x s).2⟩
  | fork c r ih => exact ⟨hp.1, ih hp.2⟩

theorem Each.toTask {p : Prog ι σ ε α} (hp : p.Each R) : p.toTask.Each R :=
  hp.thenTask fun r => by cases r <;> trivial

theorem Each.detach {p : Prog ι σ ε α} (hp : p.Each R) : p.detach.Each R :=
  ⟨hp.toTask, trivial⟩

theorem Each.mono {S : σ → σ → Prop} (hRS : ∀ s t, R s t → S s t) {p : Prog ι σ ε α}
    (hp : p.Each R) : p.Each S := by
  have task : ∀ t : Task ι σ ε, t.Each R → t.Each S := by
    intro t
    induction t with
    | done => exact fun _ => trivial
    | fail e => exact fun _ => trivial
    | await u n ih => exact fun h x s => ⟨hRS _ _ (h x s).1, ih x s (h x s).2⟩
    | fork c r ihc ihr => exact fun h => ⟨ihc h.1, ihr h.2⟩
  induction p with
  | pure a => trivial
  | throw e => trivial
  | await u n ih => exact fun x s => ⟨hRS _ _ (hp x s).1, ih x s (hp x s).2⟩
  | fork c r ih => exact ⟨task c hp.1, ih hp.2⟩

theorem Each.and {S : σ → σ → Prop} {p : Prog ι σ ε α} (hp : p.Each R) (hq : p.Each S) :
    p.Each fun s t => R s t ∧ S s t := by
  have task : ∀ t : Task ι σ ε, t.Each R → t.Each S → t.Each fun s t => R s t ∧ S s t := by
    intro t
    induction t with
    | done => exact fun _ _ => trivial
    | fail e => exact fun _ _ => trivial
    | await u n ih => exact fun h h' x s => ⟨⟨(h x s).1, (h' x s).1⟩, ih x s (h x s).2 (h' x s).2⟩
    | fork c r ihc ihr => exact fun h h' => ⟨ihc h.1 h'.1, ihr h.2 h'.2⟩
  induction p with
  | pure a => trivial
  | throw e => trivial
  | await u n ih => exact fun x s => ⟨⟨(hp x s).1, (hq x s).1⟩, ih x s (hp x s).2 (hq x s).2⟩
  | fork c r ih => exact ⟨task c hp.1 hq.1, ih hp.2 hq.2⟩

/-- What every step satisfies, an execution alone satisfies. -/
theorem Each.ends {p : Prog ι σ ε α} (hp : p.Each R) (hrefl : ∀ s, R s s)
    (htrans : ∀ a b c, R a b → R b c → R a c) {s s' : σ} {r : Except ε α}
    (h : Ends p s r s') : R s s' := by
  induction h with
  | pure a s => exact hrefl s
  | throw e s => exact hrefl s
  | await x _ ih => exact htrans _ _ _ (hp x _).1 (ih (hp x _).2)

end Prog

end Async
