import Damaru.Async.Pool
import Damaru.Async.Under

/-!
# Answers of programs that fork

What a program that forks answers, and where the state is once everything that
it forked has come to its end. The forked threads take their steps whenever the
program waits or has answered.
-/

namespace Async

variable {ι σ ε α β γ : Type}

namespace Prog

/-- The program is not about to fork. -/
def Waits : Prog ι σ ε α → Prop
  | fork _ _ => False
  | _ => True

/-- `Yields p ts s r s'`: beside the threads `ts` that it has forked, the
program can answer `r`, and everything comes to its end in `s'`. -/
inductive Yields : Prog ι σ ε α → List (Task ι σ ε) → σ → Except ε α → σ → Prop
  | pure {ts : List (Task ι σ ε)} (a : α) (s : σ) : (∀ t ∈ ts, Pool.isEnded t = true) →
      Yields (.pure a) ts s (.ok a) s
  | throw {ts : List (Task ι σ ε)} (e : ε) (s : σ) : (∀ t ∈ ts, Pool.isEnded t = true) →
      Yields (.throw e) ts s (.error e) s
  | await {u : ι → σ → σ} {n : ι → σ → Prog ι σ ε α} {ts : List (Task ι σ ε)} {s s' : σ}
      {r : Except ε α} (x : ι) : Yields (n x s) ts (u x s) r s' → Yields (.await u n) ts s r s'
  | fork {c : Task ι σ ε} {p : Prog ι σ ε α} {ts : List (Task ι σ ε)} {s s' : σ} {r : Except ε α} :
      Yields p (c.spawn ++ ts) s r s' → Yields (.fork c p) ts s r s'
  | other {p : Prog ι σ ε α} {before after : List (Task ι σ ε)} {u : ι → σ → σ}
      {n : ι → σ → Task ι σ ε} {s s' : σ} {r : Except ε α} (x : ι) : p.Waits →
      Yields p (before ++ ((n x s).spawn ++ after)) (u x s) r s' →
      Yields p (before ++ .await u n :: after) s r s'

variable {s s' : σ} {r : Except ε α}

/-! ## Before anything is forked -/

theorem yields_await {u : ι → σ → σ} {n : ι → σ → Prog ι σ ε α} :
    Yields (.await u n) [] s r s' ↔ ∃ x, Yields (n x s) [] (u x s) r s' := by
  refine ⟨fun h => ?_, fun ⟨x, h⟩ => .await x h⟩
  generalize hts : ([] : List (Task ι σ ε)) = ts at h
  cases h with
  | await x h => exact ⟨x, hts ▸ h⟩
  | @other _ before after => exact absurd hts.symm (by simp)

theorem yields_pure {a : α} : Yields (ι := ι) (.pure a) [] s r s' ↔ r = .ok a ∧ s' = s := by
  constructor
  · intro h
    generalize hts : ([] : List (Task ι σ ε)) = ts at h
    cases h with
    | pure => exact ⟨rfl, rfl⟩
    | @other _ before after => exact absurd hts.symm (by simp)
  · rintro ⟨rfl, rfl⟩
    exact .pure a _ (by simp)

theorem yields_throw {e : ε} : Yields (ι := ι) (.throw e) [] s r s' ↔ r = .error e ∧ s' = s := by
  constructor
  · intro h
    generalize hts : ([] : List (Task ι σ ε)) = ts at h
    cases h with
    | throw => exact ⟨rfl, rfl⟩
    | @other _ before after => exact absurd hts.symm (by simp)
  · rintro ⟨rfl, rfl⟩
    exact .throw e _ (by simp)

theorem yields_op_bind {f : ι → σ → Except ε β × σ} {g : β → Prog ι σ ε α} :
    Yields (op f >>= g) [] s r s' ↔ ∃ x, Yields (ofExcept (f x s).1 >>= g) [] (f x s).2 r s' :=
  yields_await

/-- One awaited call whose answer is mapped. -/
theorem op_bind_pure {f : ι → σ → Except ε β × σ} {g : β → α} :
    (op f >>= fun b => pure (g b)) = op fun x s => ((f x s).1.map g, (f x s).2) := by
  refine congrArg (await _) (funext fun x => funext fun s => ?_)
  show (ofExcept (f x s).1).bind _ = ofExcept ((f x s).1.map g)
  cases (f x s).1 <;> rfl

/-- A program whose answer is mapped. -/
theorem yields_bind_pure {g : β → α} {p : Prog ι σ ε β} {ts : List (Task ι σ ε)} :
    Yields (p >>= fun b => pure (g b)) ts s r s' ↔ ∃ r₀, Yields p ts s r₀ s' ∧ r = r₀.map g := by
  constructor
  · intro h
    generalize hq : (p >>= fun b => pure (g b)) = q at h
    induction h generalizing p with
    | pure a s hts =>
      cases p with
      | pure b =>
        cases hq
        exact ⟨_, .pure b s hts, rfl⟩
      | _ => cases hq
    | throw e s hts =>
      cases p with
      | throw e' =>
        cases hq
        exact ⟨_, .throw e s hts, rfl⟩
      | _ => cases hq
    | await x _ ih =>
      cases p with
      | await u n =>
        cases hq
        obtain ⟨r₀, h₀, hr⟩ := ih rfl
        exact ⟨r₀, .await x h₀, hr⟩
      | _ => cases hq
    | fork _ ih =>
      cases p with
      | fork c p =>
        cases hq
        obtain ⟨r₀, h₀, hr⟩ := ih rfl
        exact ⟨r₀, .fork h₀, hr⟩
      | _ => cases hq
    | other x hw _ ih =>
      obtain ⟨r₀, h₀, hr⟩ := ih hq
      refine ⟨r₀, .other x ?_ h₀, hr⟩
      cases p with
      | fork c p =>
        cases hq
        exact hw
      | _ => trivial
  · rintro ⟨r₀, h, rfl⟩
    induction h with
    | pure a s hts => exact .pure _ s hts
    | throw e s hts => exact .throw e s hts
    | await x _ ih => exact .await x ih
    | fork _ ih => exact .fork ih
    | @other p before after u n s s' r x hw _ ih =>
      refine .other x ?_ ih
      cases p with
      | fork c p => exact hw
      | _ => trivial

/-! ## Forks -/

theorem yields_fork {c : Task ι σ ε} {p : Prog ι σ ε α} {ts : List (Task ι σ ε)} :
    Yields (.fork c p) ts s r s' ↔ Yields p (c.spawn ++ ts) s r s' := by
  refine ⟨fun h => ?_, .fork⟩
  cases h with
  | fork h => exact h
  | other x hw => exact hw.elim

/-- A loop that forks a thread for each of its items. -/
theorem yields_forM_detach {f : γ → Prog ι σ ε Unit} (hf : ∀ c, (f c).ForkFree) {l : List γ}
    {p : Prog ι σ ε α} {ts : List (Task ι σ ε)} :
    Yields (ForM.forM l (fun c => (f c).detach) >>= fun _ => p) ts s r s' ↔
      Yields p ((l.map fun c => (f c).toTask).reverse ++ ts) s r s' := by
  induction l generalizing ts with
  | nil => rfl
  | cons c l ih =>
    have hstep : (ForM.forM (c :: l) (fun c => (f c).detach) >>= fun _ => p : Prog ι σ ε α) =
        .fork (f c).toTask (ForM.forM l (fun c => (f c).detach) >>= fun _ => p) := rfl
    rw [hstep, yields_fork, ih, Pool.spawn_toTask (hf c), List.map_cons, List.reverse_cons,
      List.append_assoc]

/-- The answer is given, and only the forked threads take steps. -/
theorem Yields.answer {r₀ : Except ε α} {ts : List (Task ι σ ε)} (h : Yields (ofExcept r₀) ts s r s') :
    r = r₀ := by
  generalize hp : ofExcept r₀ = p at h
  induction h with
  | pure a s hts =>
    cases r₀ with
    | ok b => cases hp; rfl
    | error e => cases hp
  | throw e s hts =>
    cases r₀ with
    | ok b => cases hp
    | error e => cases hp; rfl
  | await => cases r₀ <;> cases hp
  | fork => cases r₀ <;> cases hp
  | other x hw _ ih => exact ih hp

theorem waits_ofExcept (r₀ : Except ε α) : (ofExcept r₀ : Prog ι σ ε α).Waits := by
  cases r₀ <;> trivial

theorem yields_ended {r₀ : Except ε α} {ts : List (Task ι σ ε)} (hts : ∀ t ∈ ts, Pool.isEnded t = true) :
    Yields (ofExcept r₀) ts s r₀ s := by
  cases r₀ with
  | ok a => exact .pure a s hts
  | error e => exact .throw e s hts

/-- What every step of the program and of the forked threads satisfies, they
satisfy together. -/
theorem Yields.each {R : σ → σ → Prop} (hrefl : ∀ s, R s s)
    (htrans : ∀ a b c, R a b → R b c → R a c) {p : Prog ι σ ε α} {ts : List (Task ι σ ε)}
    (h : Yields p ts s r s') (hp : p.Each R) (hts : ∀ t ∈ ts, t.Each R) : R s s' := by
  induction h with
  | pure a s => exact hrefl s
  | throw e s => exact hrefl s
  | await x _ ih => exact htrans _ _ _ (hp x _).1 (ih (hp x _).2 hts)
  | fork _ ih =>
    refine ih hp.2 fun t ht => ?_
    rcases List.mem_append.1 ht with ht | ht
    · exact Pool.each_spawn _ hp.1 t ht
    · exact hts t ht
  | @other p before after u n s s' r x _ _ ih =>
    have hstep := hts (.await u n) (by simp)
    refine htrans _ _ _ (hstep x s).1 (ih hp fun t ht => ?_)
    rcases List.mem_append.1 ht with ht | ht
    · exact hts t (List.mem_append_left _ ht)
    · rcases List.mem_append.1 ht with ht | ht
      · exact Pool.each_spawn _ (hstep x s).2 t ht
      · exact hts t (List.mem_append_right _ (List.mem_cons_of_mem _ ht))

/-- One forked thread that awaits once. -/
theorem Yields.one {r₀ : Except ε α} {f : ι → σ → Except ε β × σ}
    (h : Yields (ofExcept r₀) [(op f).toTask] s r s') : r = r₀ ∧ ∃ x, s' = (f x s).2 := by
  refine ⟨h.answer, ?_⟩
  generalize hp : ofExcept r₀ = p, hts : [(op f).toTask] = ts at h
  have hwaits : ¬ ∀ t ∈ ts, Pool.isEnded t = true := by
    intro hall
    have hend : Pool.isEnded (op f).toTask = true := hall _ (hts ▸ List.mem_singleton.2 rfl)
    cases hend
  cases h with
  | pure a s hall => exact (hwaits hall).elim
  | throw e s hall => exact (hwaits hall).elim
  | await x h => cases r₀ <;> cases hp
  | fork h => cases r₀ <;> cases hp
  | @other _ before after u n _ _ _ x _ h =>
    rcases before with _ | ⟨_, _ | _⟩
    · obtain ⟨heq, rfl⟩ := List.cons.inj hts
      cases heq
      refine ⟨x, ?_⟩
      have hstay : ∀ r : Except ε β, ((ofExcept r).thenTask finish : Task ι σ ε).Each fun s s' => s' = s := by
        intro r
        cases r <;> trivial
      refine h.each (R := fun s s' => s' = s) (fun _ => rfl) (fun _ _ _ hab hbc => hbc.trans hab) ?_ fun t ht => ?_
      · rw [← hp]
        exact each_ofExcept r₀
      · rw [List.nil_append, List.append_nil] at ht
        exact Pool.each_spawn _ (hstay _) t ht
    · simp at hts
    · simp at hts

/-- With its answer left out, a program that yields settles. -/
theorem Yields.settles {p : Prog ι σ ε α} (h : Yields p [] s r s') :
    Pool.Settles (fun _ => True) p s s' := by
  suffices hrun : ∀ {p : Prog ι σ ε α} {ts s r s'}, Yields p ts s r s' →
      ∃ ts', Pool.Runs (fun k _ => k) (fun _ _ _ => True)
        (Pool.threads () p.toTask ++ ts.map fun t => ((), t)) s ts' s' ∧
        Pool.Finished (fun _ => True) ts' by
    obtain ⟨ts', hruns, hfin⟩ := hrun h
    exact ⟨ts', by simpa using hruns, hfin⟩
  intro p ts s r s' h
  induction h with
  | pure a s hts =>
    refine ⟨_, .refl _ _, Pool.finished_iff_isEnded.2 (List.all_eq_true.2 fun t ht => ?_)⟩
    rcases List.mem_append.1 ht with ht | ht
    · rw [List.mem_singleton.1 ht]
      rfl
    · obtain ⟨t', ht', rfl⟩ := List.mem_map.1 ht
      exact hts t' ht'
  | throw e s hts =>
    refine ⟨_, .refl _ _, Pool.finished_iff_isEnded.2 (List.all_eq_true.2 fun t ht => ?_)⟩
    rcases List.mem_append.1 ht with ht | ht
    · rw [List.mem_singleton.1 ht]
      rfl
    · obtain ⟨t', ht', rfl⟩ := List.mem_map.1 ht
      exact hts t' ht'
  | await x _ ih =>
    obtain ⟨ts', hruns, hfin⟩ := ih
    exact ⟨ts', @Pool.Runs.step _ _ _ _ _ _ [] _ _ _ _ _ _ _ x trivial hruns, hfin⟩
  | @fork c p ts s s' r _ ih =>
    obtain ⟨ts', hruns, hfin⟩ := ih
    refine ⟨ts', ?_, hfin⟩
    have hspawn : Pool.threads () (Prog.fork c p).toTask =
        Pool.threads () p.toTask ++ c.spawn.map fun t => ((), t) := List.map_append
    rw [hspawn, List.append_assoc, ← List.map_append]
    exact hruns
  | @other p before after u n s s' r x _ _ ih =>
    obtain ⟨ts', hruns, hfin⟩ := ih
    refine ⟨ts', ?_, hfin⟩
    rw [List.map_append, List.map_cons, ← List.append_assoc]
    refine Pool.Runs.step x trivial ?_
    simpa [Pool.threads] using hruns

/-- A program that forks nothing yields what it ends with. -/
theorem Ends.yields {p : Prog ι σ ε α} (h : Ends p s r s') : Yields p [] s r s' := by
  induction h with
  | pure a s => exact .pure a s nofun
  | throw e s => exact .throw e s nofun
  | await x _ ih => exact .await x ih

/-! ## Runs of the forked threads -/

/-- A forked thread comes to its end, and the others go on. -/
theorem Ends.beside {p : Prog ι σ ε β} {q : Prog ι σ ε α} {before after : List (Task ι σ ε)} {s₁ : σ}
    {r₁ : Except ε β} (h : Ends p s r₁ s₁) (hq : q.Waits)
    (hrest : Yields q (before ++ finish r₁ :: after) s₁ r s') :
    Yields q (before ++ p.toTask :: after) s r s' := by
  induction h with
  | pure a s => exact hrest
  | throw e s => exact hrest
  | @await u n s s₁ r₁ x hend ih =>
    refine .other (n := fun x s => (n x s).toTask) x hq ?_
    have hspawn : (n x s).toTask.spawn = [(n x s).toTask] := by
      generalize n x s = p at hend
      cases hend <;> rfl
    show Yields q (before ++ ((n x s).toTask.spawn ++ after)) (u x s) r s'
    rw [hspawn]
    exact ih hrest

theorem isEnded_finish (r₁ : Except ε β) : Pool.isEnded (finish r₁ : Task ι σ ε) = true := by
  cases r₁ <;> rfl

/-- Forked threads can come to their ends one after another. -/
theorem exists_beside [Inhabited ι] {q : Prog ι σ ε α} (hq : q.Waits) {ps : List (Prog ι σ ε β)}
    (hps : ∀ p ∈ ps, p.ForkFree) (before after : List (Task ι σ ε)) (s : σ) :
    ∃ s₁ ts, (∀ t ∈ ts, Pool.isEnded t = true) ∧ ∀ r s',
      Yields q (before ++ (ts ++ after)) s₁ r s' → Yields q (before ++ (ps.map toTask ++ after)) s r s' := by
  induction ps generalizing s before with
  | nil => exact ⟨s, [], by simp, fun _ _ h => h⟩
  | cons p ps ih =>
    obtain ⟨r₁, s₁, hend⟩ := (hps p List.mem_cons_self).exists_ends s
    obtain ⟨s₂, ts, hts, hrest⟩ :=
      ih (fun p hp => hps p (List.mem_cons_of_mem _ hp)) (before ++ [finish r₁]) s₁
    refine ⟨s₂, finish r₁ :: ts, ?_, fun r s' h => ?_⟩
    · rw [List.forall_mem_cons]
      exact ⟨isEnded_finish r₁, hts⟩
    · refine hend.beside hq ?_
      have hrest' := hrest r s' (by simpa using h)
      simpa using hrest'

/-- Forked threads can come to their ends, a given one of them last. -/
theorem exists_yields_last [Inhabited ι] (r₀ : Except ε α) {ps : List (Prog ι σ ε β)}
    (hps : ∀ p ∈ ps, p.ForkFree) {p : Prog ι σ ε β} (hp : p ∈ ps) (s : σ) :
    ∃ s₁, ∀ r₁ s', Ends p s₁ r₁ s' → Yields (ofExcept r₀) (ps.map toTask) s r₀ s' := by
  obtain ⟨l, l', rfl⟩ := List.append_of_mem hp
  have hq := waits_ofExcept (ι := ι) (σ := σ) r₀
  obtain ⟨s₁, ts, hts, hrest⟩ := exists_beside hq
    (fun p hp => hps p (List.mem_append_left _ hp)) [] (p.toTask :: l'.map toTask) s
  obtain ⟨s₂, ts', hts', hrest'⟩ := exists_beside hq
    (fun p hp => hps p (List.mem_append_right _ (List.mem_cons_of_mem _ hp))) (ts ++ [p.toTask]) [] s₁
  refine ⟨s₂, fun r₁ s' hend => ?_⟩
  rw [List.map_append, List.map_cons]
  refine hrest r₀ s' ?_
  have hlast : Yields (ofExcept r₀) (ts ++ p.toTask :: ts') s₂ r₀ s' := by
    refine hend.beside hq (yields_ended fun t ht => ?_)
    rcases List.mem_append.1 ht with ht | ht
    · exact hts t ht
    · rcases List.mem_cons.1 ht with rfl | ht
      · exact isEnded_finish r₁
      · exact hts' t ht
  have hrest'' := hrest' r₀ s' (by simpa using hlast)
  simpa using hrest''

end Prog

end Async
