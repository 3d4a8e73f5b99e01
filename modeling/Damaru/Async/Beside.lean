import Damaru.Async.Pool
import Damaru.Async.Trace
import Mathlib.Data.List.Forall2

/-!
# A thread beside others

What a thread does to others is told by running them a second time without it:
the same threads take the same steps in a second world, where the thread's own
steps are left out. Programs are *alike* if, step by step, they lead from
states that correspond to states that correspond, and go on alike; so a pool
whose threads are alike in both worlds keeps the worlds in step, as long as the
thread's own steps do.
-/

namespace Async

variable {ι σ ε α β κ : Type}

/-- Two worlds: which of their states correspond, and on which input the second
takes the step that the first takes on an input. -/
structure Worlds (ι σ : Type) where
  rel : σ → σ → Prop
  echo : ι → σ → ι

/-! ## Programs that are alike -/

/-- Two answers are related, or the same rejection. -/
def Answers (Q : α → α → Prop) : Except ε α → Except ε α → Prop
  | .ok a, .ok a' => Q a a'
  | .error e, .error e' => e = e'
  | _, _ => False

inductive Task.Alike (W : Worlds ι σ) : Task ι σ ε → Task ι σ ε → Prop
  | done : Alike W .done .done
  | fail (e : ε) : Alike W (.fail e) (.fail e)
  | await {u u' : ι → σ → σ} {n n' : ι → σ → Task ι σ ε} :
      (∀ x s s', W.rel s s' → W.rel (u x s) (u' (W.echo x s) s')) →
      (∀ x s s', W.rel s s' → Alike W (n x s) (n' (W.echo x s) s')) →
      Alike W (.await u n) (.await u' n')
  | fork {c c' r r' : Task ι σ ε} : Alike W c c' → Alike W r r' → Alike W (.fork c r) (.fork c' r')

namespace Prog

inductive Alike (W : Worlds ι σ) (Q : α → α → Prop) : Prog ι σ ε α → Prog ι σ ε α → Prop
  | pure {a a' : α} : Q a a' → Alike W Q (.pure a) (.pure a')
  | throw (e : ε) : Alike W Q (.throw e) (.throw e)
  | await {u u' : ι → σ → σ} {n n' : ι → σ → Prog ι σ ε α} :
      (∀ x s s', W.rel s s' → W.rel (u x s) (u' (W.echo x s) s')) →
      (∀ x s s', W.rel s s' → Alike W Q (n x s) (n' (W.echo x s) s')) →
      Alike W Q (.await u n) (.await u' n')
  | fork {c c' : Task ι σ ε} {r r' : Prog ι σ ε α} : c.Alike W c' → Alike W Q r r' →
      Alike W Q (.fork c r) (.fork c' r')

variable {W : Worlds ι σ} {Q : α → α → Prop} {Q' : β → β → Prop}

theorem alike_ofExcept {r r' : Except ε α} (h : Answers Q r r') :
    Alike W Q (ofExcept r : Prog ι σ ε α) (ofExcept r') := by
  cases r with
  | ok a =>
    cases r' with
    | ok a' => exact .pure h
    | error e' => exact h.elim
  | error e =>
    cases r' with
    | ok a' => exact h.elim
    | error e' =>
      cases h
      exact .throw e

theorem alike_op {f f' : ι → σ → Except ε α × σ}
    (h : ∀ x s s', W.rel s s' → Answers Q (f x s).1 (f' (W.echo x s) s').1 ∧
      W.rel (f x s).2 (f' (W.echo x s) s').2) : Alike W Q (op f) (op f') :=
  .await (fun x s s' hs => (h x s s' hs).2) fun x s s' hs => alike_ofExcept (h x s s' hs).1

theorem Alike.bind {p p' : Prog ι σ ε α} {f f' : α → Prog ι σ ε β} (h : Alike W Q p p')
    (hf : ∀ a a', Q a a' → Alike W Q' (f a) (f' a')) : Alike W Q' (p >>= f) (p' >>= f') := by
  show Alike W Q' (p.bind f) (p'.bind f')
  induction h with
  | pure ha => exact hf _ _ ha
  | throw e => exact .throw e
  | await hu _ ih => exact .await hu ih
  | fork hc _ ih => exact .fork hc ih

theorem Alike.forM {γ : Type} {f : γ → Prog ι σ ε PUnit} (h : ∀ c, Alike W Eq (f c) (f c))
    (l : List γ) : Alike W Eq (ForM.forM l f) (ForM.forM l f) := by
  induction l with
  | nil =>
    rw [List.forM_nil]
    exact .pure rfl
  | cons c l ih =>
    rw [List.forM_cons]
    exact (h c).bind fun _ _ _ => ih

theorem Alike.toTask {p p' : Prog ι σ ε α} (h : Alike W Q p p') : p.toTask.Alike W p'.toTask := by
  induction h with
  | pure ha => exact .done
  | throw e => exact .fail e
  | await hu _ ih => exact .await hu ih
  | fork hc _ ih => exact .fork hc ih

end Prog

/-! ## Pools that are alike -/

namespace Pool

/-- The threads of two pools are alike, one by one. -/
def Alike (W : Worlds ι σ) : Pool κ ι σ ε → Pool κ ι σ ε → Prop :=
  List.Forall₂ fun th th' => th.1 = th'.1 ∧ th.2.Alike W th'.2

variable {W : Worlds ι σ}

theorem alike_spawn {t t' : Task ι σ ε} (h : t.Alike W t') :
    List.Forall₂ (Task.Alike W) t.spawn t'.spawn := by
  induction h with
  | done => exact .cons .done .nil
  | fail e => exact .cons (.fail e) .nil
  | await hu hn ih => exact .cons (.await hu hn) .nil
  | fork hc hr ihc ihr => exact List.rel_append ihr ihc

theorem alike_threads (k : κ) {t t' : Task ι σ ε} (h : t.Alike W t') :
    Alike W (threads k t) (threads k t') := by
  unfold threads Alike
  rw [List.forall₂_map_left_iff, List.forall₂_map_right_iff]
  exact (alike_spawn h).imp fun _ _ h => ⟨rfl, h⟩

/-- The step lemma: what one world can do the other can, and they stay in
step. -/
theorem Alike.stepAt {ts ts' : Pool κ ι σ ε} (h : Alike W ts ts') {s s' : σ} (hs : W.rel s s')
    {x : ι} {i : Nat} {o : Pool κ ι σ ε × σ} (ho : stepAt (fun k _ => k) x i ts s = some o) :
    ∃ o', Pool.stepAt (fun k _ => k) (W.echo x s) i ts' s' = some o' ∧ Alike W o.1 o'.1 ∧
      W.rel o.2 o'.2 := by
  induction i generalizing ts ts' o with
  | zero =>
    cases h with
    | nil => cases ho
    | @cons th th' ts ts' hhead htail =>
      obtain ⟨k, t⟩ := th
      obtain ⟨k', t'⟩ := th'
      obtain ⟨hk, ht⟩ := hhead
      obtain rfl : k = k' := hk
      cases ht with
      | await hu hn =>
        cases ho
        refine ⟨_, rfl, ?_, hu x s s' hs⟩
        exact List.rel_append (alike_threads k (hn x s s' hs)) htail
      | _ => cases ho
  | succ i ih =>
    cases h with
    | nil => cases ho
    | @cons th th' ts ts' hhead htail =>
      obtain ⟨o₁, ho₁, rfl⟩ := Option.map_eq_some_iff.1 ho
      obtain ⟨o', ho', halike, hrel⟩ := ih htail ho₁
      refine ⟨(th' :: o'.1, o'.2), ?_, .cons hhead halike, hrel⟩
      show (Pool.stepAt _ _ i ts' s').map _ = _
      rw [ho']
      rfl

end Pool

/-! ## Two worlds side by side -/

/-- A thread of its own beside others, and the others in a world without it. -/
structure Beside (κ ι σ ε : Type) where
  own : Task ι σ ε
  others : Pool κ ι σ ε
  state : σ
  without : Pool κ ι σ ε × σ

namespace Beside

inductive Move (ι σ ε : Type) where
  | own (t : Task ι σ ε)
  | other (i : Nat) (x : ι)

/-- The steps of the thread itself leave the second world alone; the others
take the same steps there, where they can. -/
inductive Step (echo : ι → σ → ι) : Beside κ ι σ ε → Move ι σ ε → Beside κ ι σ ε → Prop
  | own {u : ι → σ → σ} {n : ι → σ → Task ι σ ε} {ts : Pool κ ι σ ε} {s : σ}
      {o : Pool κ ι σ ε × σ} (x : ι) :
      Step echo ⟨.await u n, ts, s, o⟩ (.own (.await u n)) ⟨n x s, ts, u x s, o⟩
  | other {t : Task ι σ ε} {ts ts' : Pool κ ι σ ε} {s s' : σ} {o : Pool κ ι σ ε × σ} {i : Nat}
      {x : ι} : Pool.stepAt (fun k _ => k) x i ts s = some (ts', s') →
      Step echo ⟨t, ts, s, o⟩ (.other i x)
        ⟨t, ts', s', (Pool.stepAt (fun k _ => k) (echo x s) i o.1 o.2).getD o⟩

/-- The states of the two worlds correspond, and the other threads are alike. -/
structure InStep (W : Worlds ι σ) (w : Beside κ ι σ ε) : Prop where
  others : Pool.Alike W w.others w.without.1
  states : W.rel w.state w.without.2

variable {W : Worlds ι σ} {w w' : Beside κ ι σ ε}

/-- The steps of the others keep the worlds in step. -/
theorem InStep.other {i : Nat} {x : ι} (h : Step W.echo w (.other i x) w') (hw : w.InStep W) :
    w'.InStep W ∧ w'.own = w.own := by
  generalize hm : Move.other i x = m at h
  cases h with
  | own x => cases hm
  | @other t ts ts' s s' o i x hstep =>
    cases hm
    obtain ⟨o', ho', halike, hrel⟩ := hw.others.stepAt hw.states hstep
    refine ⟨?_, rfl⟩
    constructor
    · show Pool.Alike W ts' ((Pool.stepAt _ _ i o.1 o.2).getD o).1
      rw [ho']
      exact halike
    · show W.rel s' ((Pool.stepAt _ _ i o.1 o.2).getD o).2
      rw [ho']
      exact hrel

/-! ## Playing -/

/-- A step of the thread itself, or of the thread of a number, on an input. -/
inductive Choice (ι : Type) where
  | own (x : ι)
  | other (i : Nat) (x : ι)

def next (echo : ι → σ → ι) (w : Beside κ ι σ ε) : Choice ι → Option (Move ι σ ε × Beside κ ι σ ε)
  | .own x =>
    match w.own with
    | .await u n => some (.own (.await u n), ⟨n x w.state, w.others, u x w.state, w.without⟩)
    | _ => none
  | .other i x => (Pool.stepAt (fun k _ => k) x i w.others w.state).map fun o => (.other i x,
      ⟨w.own, o.1, o.2, (Pool.stepAt (fun k _ => k) (echo x w.state) i w.without.1 w.without.2).getD
        w.without⟩)

def play (echo : ι → σ → ι) : List (Choice ι) → Beside κ ι σ ε → Option (Beside κ ι σ ε)
  | [], w => some w
  | c :: cs, w => (w.next echo c).bind fun o => play echo cs o.2

theorem step_of_next {echo : ι → σ → ι} {c : Choice ι} {m : Move ι σ ε}
    (h : w.next echo c = some (m, w')) : Step echo w m w' := by
  obtain ⟨t, ts, s, o⟩ := w
  cases c with
  | own x =>
    rw [next] at h
    split at h
    · rename_i u n hown
      cases h
      obtain rfl : t = .await u n := hown
      exact .own x
    · cases h
  | other i x =>
    obtain ⟨⟨ts', s'⟩, ho, heq⟩ := Option.map_eq_some_iff.1 h
    cases heq
    exact .other ho

theorem trace_of_play {echo : ι → σ → ι} {cs : List (Choice ι)} {w₀ : Beside κ ι σ ε}
    {steps : List (Beside κ ι σ ε × Move ι σ ε × Beside κ ι σ ε)}
    (hrun : Trace (Step echo) w₀ steps w) (h : play echo cs w = some w') :
    ∃ steps', Trace (Step echo) w₀ (steps ++ steps') w' ∧ steps'.length = cs.length := by
  induction cs generalizing w steps with
  | nil =>
    cases h
    exact ⟨[], by rwa [List.append_nil], rfl⟩
  | cons c cs ih =>
    obtain ⟨⟨m, t⟩, ht, h⟩ := Option.bind_eq_some_iff.1 h
    obtain ⟨steps', hrun', hlength⟩ := ih (hrun.snoc (step_of_next ht)) h
    refine ⟨(w, m, t) :: steps', by simpa using hrun', ?_⟩
    rw [List.length_cons, List.length_cons, hlength]

end Beside

end Async
