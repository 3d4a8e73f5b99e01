import Damaru.Async.Prog

/-!
# Pools of threads

Concurrent requests are a pool of threads over one shared state. A run picks
any thread that is at an `await`, performs that one atomic step, and puts back
what is left of the thread together with the threads it forked. Threads carry
a label; a thread that takes a step hands the label on to what it becomes, and
`relabel` may write into it what the step found.

`Runs.phases` is the invariant rule: when the threads of a pool are the images
of *phases* (data that says where a thread stands), an invariant on phases
kept by every step holds after every run.
-/

namespace Async

variable {ι σ ε α κ φ : Type}

/-- The threads a task amounts to once its leading forks have been started. -/
def Task.spawn : Task ι σ ε → List (Task ι σ ε)
  | .done => [.done]
  | .fail e => [.fail e]
  | .await u n => [.await u n]
  | .fork c r => r.spawn ++ c.spawn

abbrev Pool (κ ι σ ε : Type) := List (κ × Task ι σ ε)

namespace Pool

/-- The labelled threads of a task. -/
def threads (k : κ) (t : Task ι σ ε) : Pool κ ι σ ε := t.spawn.map fun t => (k, t)

/-- Runs of a pool in which `ok others k s` holds whenever a thread labelled
`k` takes a step in state `s` beside the threads `others`. -/
inductive Runs (relabel : κ → σ → κ) (ok : Pool κ ι σ ε → κ → σ → Prop) :
    Pool κ ι σ ε → σ → Pool κ ι σ ε → σ → Prop
  | refl (ts : Pool κ ι σ ε) (s : σ) : Runs relabel ok ts s ts s
  | step {before after ts : Pool κ ι σ ε} {k : κ} {u : ι → σ → σ} {n : ι → σ → Task ι σ ε}
      {s s' : σ} (x : ι) : ok (before ++ after) k s →
      Runs relabel ok (before ++ (threads (relabel k s) (n x s) ++ after)) (u x s) ts s' →
      Runs relabel ok (before ++ (k, .await u n) :: after) s ts s'

/-- Every thread has come to an end, and failed only as `allowed` permits. -/
def Finished (allowed : ε → Prop) (ts : Pool κ ι σ ε) : Prop :=
  ∀ t ∈ ts, t.2 = .done ∨ ∃ e, allowed e ∧ t.2 = .fail e

variable {relabel : κ → σ → κ} {ok : Pool κ ι σ ε → κ → σ → Prop}

theorem mem_threads {k : κ} {t : Task ι σ ε} {th : κ × Task ι σ ε} :
    th ∈ threads k t ↔ th.1 = k ∧ th.2 ∈ t.spawn := by
  unfold threads
  rw [List.mem_map]
  constructor
  · rintro ⟨t', h, rfl⟩; exact ⟨rfl, h⟩
  · rintro ⟨rfl, h⟩; exact ⟨_, h, rfl⟩

/-- A thread that is not the one that takes the step is still there. -/
theorem mem_turn {before after new : Pool κ ι σ ε} {k : κ} {t : Task ι σ ε} {th : κ × Task ι σ ε}
    (h : th ∈ before ++ (k, t) :: after) (ht : th.2 ≠ t) : th ∈ before ++ (new ++ after) := by
  rcases List.mem_append.1 h with h | h
  · exact List.mem_append_left _ h
  · rcases List.mem_cons.1 h with rfl | h
    · exact absurd rfl ht
    · exact List.mem_append_right _ (List.mem_append_right _ h)

/-! ## Steps that satisfy a relation -/

theorem each_spawn {R : σ → σ → Prop} : ∀ t : Task ι σ ε, t.Each R → ∀ t' ∈ t.spawn, t'.Each R
  | .done, h, t', ht => by rw [List.mem_singleton.1 ht]; exact h
  | .fail _, h, t', ht => by rw [List.mem_singleton.1 ht]; exact h
  | .await _ _, h, t', ht => by rw [List.mem_singleton.1 ht]; exact h
  | .fork c r, h, t', ht => by
    rcases List.mem_append.1 ht with ht | ht
    · exact each_spawn r h.2 t' ht
    · exact each_spawn c h.1 t' ht

/-- What every atomic step of every thread satisfies, a run satisfies. -/
theorem Runs.each {R : σ → σ → Prop} (hrefl : ∀ s, R s s)
    (htrans : ∀ a b c, R a b → R b c → R a c) {ts ts' : Pool κ ι σ ε} {s s' : σ}
    (hrun : Runs relabel ok ts s ts' s') (h : ∀ t ∈ ts, t.2.Each R) : R s s' := by
  induction hrun with
  | refl ts s => exact hrefl s
  | @step before after ts k u n s s' x _ _ ih =>
    have hk := h (k, .await u n) (by simp)
    refine htrans _ _ _ (hk x s).1 (ih fun t ht => ?_)
    rcases List.mem_append.1 ht with ht | ht
    · exact h t (List.mem_append_left _ ht)
    · rcases List.mem_append.1 ht with ht | ht
      · exact each_spawn _ (hk x s).2 _ (mem_threads.1 ht).2
      · exact h t (List.mem_append_right _ (List.mem_cons_of_mem _ ht))

/-! ## What threads keep -/

/-- A fact about each thread and an invariant of the state: a thread that takes
a step keeps the invariant, its own facts and those of the others. -/
theorem Runs.keeps {I : σ → Prop} {T : κ → Task ι σ ε → σ → Prop}
    (hstep : ∀ k u n x s, I s → T k (.await u n) s →
      I (u x s) ∧ (∀ t ∈ (n x s).spawn, T (relabel k s) t (u x s)) ∧
        ∀ k' t', T k' t' s → T k' t' (u x s))
    {ts ts' : Pool κ ι σ ε} {s s' : σ} (hrun : Runs relabel ok ts s ts' s') (hI : I s)
    (hT : ∀ th ∈ ts, T th.1 th.2 s) : I s' ∧ ∀ th ∈ ts', T th.1 th.2 s' := by
  induction hrun with
  | refl ts s => exact ⟨hI, hT⟩
  | @step before after ts k u n s s' x _ _ ih =>
    obtain ⟨hI', hown, hothers⟩ := hstep k u n x s hI (hT (k, .await u n) (by simp))
    refine ih hI' fun th hth => ?_
    rcases List.mem_append.1 hth with hth | hth
    · exact hothers _ _ (hT th (List.mem_append_left _ hth))
    · rcases List.mem_append.1 hth with hth | hth
      · obtain ⟨hk, ht⟩ := mem_threads.1 hth
        rw [hk]
        exact hown _ ht
      · exact hothers _ _ (hT th (List.mem_append_right _ (List.mem_cons_of_mem _ hth)))

/-- A thread of which a fact holds that the steps of others keep leads to one
of which it holds. -/
theorem Runs.persists {R : σ → σ → Prop} {T : Task ι σ ε → σ → Prop}
    (hown : ∀ u n x s, T (.await u n) s → ∃ t ∈ (n x s).spawn, T t (u x s))
    (hothers : ∀ t s s', R s s' → T t s → T t s')
    {ts ts' : Pool κ ι σ ε} {s s' : σ} (hrun : Runs relabel ok ts s ts' s')
    (hR : ∀ th ∈ ts, th.2.Each R) (hT : ∃ th ∈ ts, T th.2 s) : ∃ th ∈ ts', T th.2 s' := by
  induction hrun with
  | refl ts s => exact hT
  | @step before after ts k u n s s' x _ _ ih =>
    have heach := hR (k, .await u n) (by simp)
    refine ih (fun th hth => ?_) ?_
    · rcases List.mem_append.1 hth with hth | hth
      · exact hR th (List.mem_append_left _ hth)
      · rcases List.mem_append.1 hth with hth | hth
        · exact each_spawn _ (heach x s).2 _ (mem_threads.1 hth).2
        · exact hR th (List.mem_append_right _ (List.mem_cons_of_mem _ hth))
    · obtain ⟨th, hth, hfact⟩ := hT
      have hkept := hothers _ _ _ (heach x s).1 hfact
      rcases List.mem_append.1 hth with hth | hth
      · exact ⟨th, List.mem_append_left _ hth, hkept⟩
      · rcases List.mem_cons.1 hth with rfl | hth
        · obtain ⟨t, ht, hnew⟩ := hown u n x s hfact
          refine ⟨(relabel k s, t), List.mem_append_right _ (List.mem_append_left _ ?_), hnew⟩
          exact mem_threads.2 ⟨rfl, ht⟩
        · exact ⟨th, List.mem_append_right _ (List.mem_append_right _ hth), hkept⟩

/-! ## The invariant rule -/

section Phases

variable (task : φ → Task ι σ ε)

/-- The pool whose threads stand at the given phases. -/
def ofPhases (qs : List (κ × φ)) : Pool κ ι σ ε := qs.map fun q => (q.1, task q.2)

variable {task} {I : List (κ × φ) → σ → Prop}

/-- **The invariant rule.** If every thread stands at a phase, and a step from
a phase leads to phases again and keeps `I`, then after every run the threads
stand at phases that satisfy `I`. -/
theorem Runs.phases
    (hstep : ∀ before after k q u n x s, I (before ++ (k, q) :: after) s →
      ok (ofPhases task (before ++ after)) k s → task q = .await u n →
      ∃ qs : List φ, (n x s).spawn = qs.map task ∧
        I (before ++ (qs.map (fun q => (relabel k s, q)) ++ after)) (u x s))
    {ts ts' : Pool κ ι σ ε} {s s' : σ} (hrun : Runs relabel ok ts s ts' s') :
    ∀ qs, ts = ofPhases task qs → I qs s → ∃ qs', ts' = ofPhases task qs' ∧ I qs' s' := by
  induction hrun with
  | refl ts s => exact fun qs h hi => ⟨qs, h, hi⟩
  | @step before after ts k u n s s' x hok _ ih =>
    intro qs h hi
    obtain ⟨qb, qr, rfl, hb, hr⟩ := List.map_eq_append_iff.1 h.symm
    obtain ⟨⟨k', q⟩, qa, rfl, hq, ha⟩ := List.map_eq_cons_iff.1 hr
    obtain ⟨hk, ht⟩ : k' = k ∧ task q = .await u n := Prod.mk.inj hq
    subst hk hb ha
    have hok' : ok (ofPhases task (qb ++ qa)) k' s := by
      simpa [ofPhases] using hok
    obtain ⟨qs', hs', hi'⟩ := hstep qb qa k' q u n x s hi hok' ht
    refine ih _ ?_ hi'
    simp [ofPhases, threads, hs', Function.comp_def]

end Phases

/-! ## One thread -/

/-- `p`, run alone and with everything it forked, can come to an end in `s'`. -/
def Settles (allowed : ε → Prop) (p : Prog ι σ ε α) (s s' : σ) : Prop :=
  ∃ ts, Runs (fun k _ => k) (fun _ _ _ => True) (threads () p.toTask) s ts s' ∧
    Finished allowed ts

theorem Settles.mono {allowed allowed' : ε → Prop} (hle : ∀ e, allowed e → allowed' e)
    {p : Prog ι σ ε α} {s s' : σ} (h : Settles allowed p s s') : Settles allowed' p s s' := by
  obtain ⟨ts, hrun, hfin⟩ := h
  refine ⟨ts, hrun, fun t ht => ?_⟩
  rcases hfin t ht with hdone | ⟨e, he, hfail⟩
  · exact .inl hdone
  · exact .inr ⟨e, hle e he, hfail⟩

theorem Settles.each {R : σ → σ → Prop} (hrefl : ∀ s, R s s)
    (htrans : ∀ a b c, R a b → R b c → R a c) {allowed : ε → Prop} {p : Prog ι σ ε α} {s s' : σ}
    (h : Settles allowed p s s') (hp : p.Each R) : R s s' := by
  obtain ⟨ts, hrun, -⟩ := h
  exact hrun.each hrefl htrans fun t ht => each_spawn _ hp.toTask _ (mem_threads.1 ht).2

theorem runs_done {ts : Pool κ ι σ ε} {k : κ} {s s' : σ}
    (h : Runs relabel ok [(k, .done)] s ts s') : ts = [(k, .done)] ∧ s' = s := by
  generalize hts : [(k, Task.done)] = ts₀ at h
  cases h with
  | refl => exact ⟨rfl, rfl⟩
  | @step before after _ _ _ _ _ _ _ _ _ => rcases before with _ | ⟨_, _ | _⟩ <;> simp at hts

theorem runs_fail {ts : Pool κ ι σ ε} {k : κ} {e : ε} {s s' : σ}
    (h : Runs relabel ok [(k, .fail e)] s ts s') : ts = [(k, .fail e)] ∧ s' = s := by
  generalize hts : [(k, Task.fail e)] = ts₀ at h
  cases h with
  | refl => exact ⟨rfl, rfl⟩
  | @step before after _ _ _ _ _ _ _ _ _ => rcases before with _ | ⟨_, _ | _⟩ <;> simp at hts

/-- The first step of a program that settles. -/
theorem Settles.await {allowed : ε → Prop} {p : Prog ι σ ε α} {s s' : σ} {u : ι → σ → σ}
    {n : ι → σ → Task ι σ ε} (hp : p.toTask = .await u n) (h : Settles allowed p s s') :
    ∃ x ts, Runs (fun k _ => k) (fun _ _ _ => True) (threads () (n x s)) (u x s) ts s' ∧
      Finished allowed ts := by
  obtain ⟨ts, hrun, hfin⟩ := h
  have hts : threads () p.toTask = [((), Task.await u n)] := by
    rw [hp]
    rfl
  rw [hts] at hrun
  generalize hts₀ : [((), Task.await u n)] = ts₀ at hrun
  cases hrun with
  | refl =>
    subst hts₀
    rcases hfin _ List.mem_cons_self with h | ⟨e, -, h⟩ <;> cases h
  | @step before after _ k u' n' _ _ x _ hrun =>
    rcases before with _ | ⟨_, _ | _⟩
    · simp only [List.nil_append, List.cons.injEq, Prod.mk.injEq, Task.await.injEq] at hts₀
      obtain ⟨⟨-, rfl, rfl⟩, rfl⟩ := hts₀
      rw [List.nil_append, List.append_nil] at hrun
      exact ⟨x, ts, hrun, hfin⟩
    · simp at hts₀
    · simp at hts₀

/-- A program that forks nothing settles as it ends alone. -/
theorem Settles.ends {allowed : ε → Prop} {p : Prog ι σ ε α} (hp : p.ForkFree) {s s' : σ}
    (h : Settles allowed p s s') : ∃ r, p.Ends s r s' ∧ ∀ e, r = .error e → allowed e := by
  induction p generalizing s with
  | pure a =>
    obtain ⟨ts, hrun, -⟩ := h
    obtain ⟨-, rfl⟩ := runs_done hrun
    exact ⟨_, .pure a _, fun e h => by cases h⟩
  | throw e =>
    obtain ⟨ts, hrun, hfin⟩ := h
    obtain ⟨rfl, rfl⟩ := runs_fail hrun
    refine ⟨_, .throw e _, fun e' h => ?_⟩
    cases h
    rcases hfin _ List.mem_cons_self with h | ⟨e', he', h⟩
    · cases h
    · cases h; exact he'
  | await u n ih =>
    obtain ⟨x, ts, hrun, hfin⟩ := Settles.await rfl h
    obtain ⟨r, hr, he⟩ := ih x s (hp x s) ⟨ts, hrun, hfin⟩
    exact ⟨r, .await x hr, he⟩
  | fork c r => exact hp.elim

theorem Settles.of_ends {allowed : ε → Prop} {p : Prog ι σ ε α} {s s' : σ} {r : Except ε α}
    (h : p.Ends s r s') (hr : ∀ e, r = .error e → allowed e) : Settles allowed p s s' := by
  induction h with
  | pure a s => exact ⟨_, .refl _ _, fun t ht => .inl (by rw [List.mem_singleton.1 ht])⟩
  | throw e s =>
    exact ⟨_, .refl _ _, fun t ht => .inr ⟨e, hr e rfl, by rw [List.mem_singleton.1 ht]⟩⟩
  | @await u n s s' r x _ ih =>
    obtain ⟨ts, hrun, hfin⟩ := ih hr
    refine ⟨ts, ?_, hfin⟩
    rw [← List.append_nil (threads () _)] at hrun
    exact @Runs.step _ _ _ _ _ _ [] [] _ _ _ _ _ _ x trivial hrun

/-- The threads of a run may carry any labels, as long as a property of
labelled pools that every step keeps allows the step. -/
theorem Runs.lift {P : Pool κ ι σ ε → Prop}
    (hP : ∀ before after k u n s x, P (before ++ (k, .await u n) :: after) →
      ok (before ++ after) k s ∧ P (before ++ (threads (relabel k s) (n x s) ++ after)))
    {ts ts' : Pool Unit ι σ ε} {s s' : σ}
    (h : Runs (fun k _ => k) (fun _ _ _ => True) ts s ts' s') {ls : Pool κ ι σ ε}
    (hl : ls.map Prod.snd = ts.map Prod.snd) (hp : P ls) :
    ∃ ls', Runs relabel ok ls s ls' s' ∧ ls'.map Prod.snd = ts'.map Prod.snd := by
  induction h generalizing ls with
  | refl ts s => exact ⟨ls, .refl _ s, hl⟩
  | @step before after ts j u n s s' x _ _ ih =>
    rw [List.map_append, List.map_cons] at hl
    obtain ⟨lb, lr, rfl, hb, hr⟩ := List.map_eq_append_iff.1 hl
    obtain ⟨⟨k, t⟩, la, rfl, rfl, ha⟩ := List.map_eq_cons_iff.1 hr
    obtain ⟨hok, hp'⟩ := hP lb la k u n s x hp
    have hthreads : (threads (relabel k s) (n x s)).map Prod.snd =
        (threads j (n x s)).map Prod.snd := by
      unfold threads
      rw [List.map_map, List.map_map]
      rfl
    obtain ⟨ls', hrun, hls⟩ := ih (by simp only [List.map_append, hb, ha, hthreads]) hp'
    exact ⟨ls', .step x hok hrun, hls⟩

theorem Finished.congr {allowed : ε → Prop} {κ' : Type} {ts : Pool κ ι σ ε} {ts' : Pool κ' ι σ ε}
    (h : Finished allowed ts) (hts : ts'.map Prod.snd = ts.map Prod.snd) : Finished allowed ts' := by
  intro t ht
  have hmem := List.mem_map_of_mem (f := Prod.snd) ht
  rw [hts] at hmem
  obtain ⟨t', ht', heq⟩ := List.mem_map.1 hmem
  rw [← heq]
  exact h t' ht'

theorem spawn_toTask {p : Prog ι σ ε α} (hp : p.ForkFree) : p.toTask.spawn = [p.toTask] := by
  cases p with
  | fork c r => exact hp.elim
  | _ => rfl

/-- A loop that starts a thread for each item amounts to its own end and these
threads. -/
theorem spawn_forM_detach {γ : Type} {f : γ → Prog ι σ ε Unit} (hf : ∀ c, (f c).ForkFree)
    (l : List γ) : (ForM.forM l fun c => (f c).detach).toTask.spawn =
      .done :: (l.map fun c => (f c).toTask).reverse := by
  induction l with
  | nil =>
    rw [List.forM_nil]
    rfl
  | cons c l ih =>
    rw [List.forM_cons, List.map_cons, List.reverse_cons, ← List.cons_append, ← ih,
      ← spawn_toTask (hf c)]
    rfl

/-- A program that forks nothing settles as a run of it on inputs ends. -/
theorem Settles.of_run {allowed : ε → Prop} {p : Prog ι σ ε α} {xs : List ι} {s s' : σ} {a : α}
    (h : p.run xs s = some (.ok a, s')) : Settles allowed p s s' :=
  .of_ends (Prog.ends_of_run h) fun _ he => by cases he

/-! ## Runs on a schedule -/

/-- The thread has come to its end. -/
def isDone : Task ι σ ε → Bool
  | .done => true
  | _ => false

theorem finished_of_isDone {allowed : ε → Prop} {ts : Pool κ ι σ ε}
    (h : ts.all (fun t => isDone t.2) = true) : Finished allowed ts := by
  intro t ht
  have hdone := List.all_eq_true.1 h t ht
  cases hcase : t.2 with
  | done => exact .inl rfl
  | _ => rw [hcase] at hdone; cases hdone

/-- The thread has come to its end, or failed. -/
def isEnded : Task ι σ ε → Bool
  | .done => true
  | .fail _ => true
  | _ => false

theorem finished_iff_isEnded {ts : Pool κ ι σ ε} :
    Finished (fun _ => True) ts ↔ ts.all (fun t => isEnded t.2) = true := by
  rw [List.all_eq_true]
  constructor
  · intro h t ht
    rcases h t ht with hdone | ⟨e, -, hfail⟩
    · rw [hdone]
      rfl
    · rw [hfail]
      rfl
  · intro h t ht
    have hended := h t ht
    cases hcase : t.2 with
    | done => exact .inl rfl
    | fail e => exact .inr ⟨e, trivial, rfl⟩
    | _ => rw [hcase] at hended; cases hended

/-- Lets thread number `i` take one step on input `x`. -/
def stepAt (relabel : κ → σ → κ) (x : ι) :
    Nat → Pool κ ι σ ε → σ → Option (Pool κ ι σ ε × σ)
  | 0, (k, .await u n) :: ts, s => some (threads (relabel k s) (n x s) ++ ts, u x s)
  | i + 1, t :: ts, s => (stepAt relabel x i ts s).map fun o => (t :: o.1, o.2)
  | _, _, _ => none

/-- Runs a pool on a schedule: which thread steps next, on which input. -/
def exec (relabel : κ → σ → κ) : List (Nat × ι) → Pool κ ι σ ε → σ → Option (Pool κ ι σ ε × σ)
  | [], ts, s => some (ts, s)
  | (i, x) :: rest, ts, s => (stepAt relabel x i ts s).bind fun o => exec relabel rest o.1 o.2

theorem stepAt_eq {x : ι} {i : Nat} {ts : Pool κ ι σ ε} {s : σ} {o : Pool κ ι σ ε × σ}
    (h : stepAt relabel x i ts s = some o) :
    ∃ before after k u n, ts = before ++ (k, .await u n) :: after ∧ before.length = i ∧
      o = (before ++ (threads (relabel k s) (n x s) ++ after), u x s) := by
  induction i, ts, s using stepAt.induct generalizing o with
  | case1 k u n ts s =>
    simp only [stepAt, Option.some.injEq] at h
    exact ⟨[], ts, k, u, n, rfl, rfl, h.symm⟩
  | case2 i t ts s ih =>
    simp only [stepAt, Option.map_eq_some_iff] at h
    obtain ⟨o', ho', rfl⟩ := h
    obtain ⟨before, after, k, u, n, rfl, rfl, rfl⟩ := ih ho'
    exact ⟨t :: before, after, k, u, n, rfl, rfl, rfl⟩
  | case3 i ts s h0 h1 => rw [stepAt] at h <;> simp_all

theorem runs_of_exec {sched : List (Nat × ι)} {ts : Pool κ ι σ ε} {s : σ}
    {o : Pool κ ι σ ε × σ} (h : exec relabel sched ts s = some o) :
    Runs relabel (fun _ _ _ => True) ts s o.1 o.2 := by
  induction sched generalizing ts s with
  | nil => simp only [exec, Option.some.injEq] at h; subst h; exact .refl _ _
  | cons ix rest ih =>
    obtain ⟨i, x⟩ := ix
    simp only [exec, Option.bind_eq_some_iff] at h
    obtain ⟨o', ho', h⟩ := h
    obtain ⟨before, after, k, u, n, rfl, -, rfl⟩ := stepAt_eq ho'
    exact .step x trivial (ih h)

/-- Runs a pool on a schedule all of whose turns are allowed beside the threads that
wait. -/
def execIf (relabel : κ → σ → κ) (allows : Pool κ ι σ ε → κ → σ → Bool) :
    List (Nat × ι) → Pool κ ι σ ε → σ → Option (Pool κ ι σ ε × σ)
  | [], ts, s => some (ts, s)
  | (i, x) :: rest, ts, s =>
    if (ts[i]?).all fun th => allows (ts.eraseIdx i) th.1 s then
      (stepAt relabel x i ts s).bind fun o => execIf relabel allows rest o.1 o.2
    else none

theorem runs_of_execIf {allows : Pool κ ι σ ε → κ → σ → Bool}
    (hok : ∀ others k s, allows others k s = true → ok others k s) {sched : List (Nat × ι)} {ts : Pool κ ι σ ε} {s : σ} {o : Pool κ ι σ ε × σ}
    (h : execIf relabel allows sched ts s = some o) : Runs relabel ok ts s o.1 o.2 := by
  induction sched generalizing ts s with
  | nil => simp only [execIf, Option.some.injEq] at h; subst h; exact .refl _ _
  | cons ix rest ih =>
    obtain ⟨i, x⟩ := ix
    rw [execIf] at h
    split at h
    · rename_i hallows
      obtain ⟨o', ho', h⟩ := Option.bind_eq_some_iff.1 h
      obtain ⟨before, after, k, u, n, rfl, rfl, rfl⟩ := stepAt_eq ho'
      rw [List.getElem?_append_right (Nat.le_refl _), List.eraseIdx_append_of_length_le (Nat.le_refl _),
        Nat.sub_self] at hallows
      exact .step x (hok _ _ _ hallows) (ih h)
    · cases h

end Pool

end Async
