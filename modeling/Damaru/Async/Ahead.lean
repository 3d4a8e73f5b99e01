import Damaru.Async.Live

/-!
# Notes made ahead

Code that makes a note of what it is about to do before it does it: until the
note is made its steps do nothing of the kind, and once it is made they do what
the note says. If no step of anything takes a note back, then whatever takes
turns with the code, each of its steps finds its note.
-/

namespace Async

variable {ι σ ε α β κ η τ : Type}

/-- The steps of the thread satisfy `R` until one of them brings some `F i`
about. From then on they satisfy `S i`. -/
def Task.Ahead (F : τ → σ → Prop) (R : σ → σ → Prop) (S : τ → σ → σ → Prop) : Task ι σ ε → Prop
  | .done => True
  | .fail _ => True
  | .await u n => ∀ x s, R s (u x s) ∧ ((n x s).Ahead F R S ∨ ∃ i, F i (u x s) ∧ (n x s).Each (S i))
  | .fork c r => c.Ahead F R S ∧ r.Ahead F R S

/-- A thread that has nothing to make a note of. -/
theorem Task.Each.ahead {F : τ → σ → Prop} {R : σ → σ → Prop} {S : τ → σ → σ → Prop} {t : Task ι σ ε}
    (ht : t.Each R) : t.Ahead F R S := by
  induction t with
  | done => trivial
  | fail e => trivial
  | await u n ih => exact fun x s => ⟨(ht x s).1, .inl (ih x s (ht x s).2)⟩
  | fork c r ihc ihr => exact ⟨ihc ht.1, ihr ht.2⟩

namespace Prog

variable {F : τ → σ → Prop} {R : σ → σ → Prop} {S : τ → σ → σ → Prop}

def Ahead (F : τ → σ → Prop) (R : σ → σ → Prop) (S : τ → σ → σ → Prop) : Prog ι σ ε α → Prop
  | pure _ => True
  | throw _ => True
  | await u n => ∀ x s, R s (u x s) ∧ ((n x s).Ahead F R S ∨ ∃ i, F i (u x s) ∧ (n x s).Each (S i))
  | fork c r => c.Ahead F R S ∧ r.Ahead F R S

theorem Each.ahead {p : Prog ι σ ε α} (hp : p.Each R) : p.Ahead F R S := by
  induction p with
  | pure a => trivial
  | throw e => trivial
  | await u n ih => exact fun x s => ⟨(hp x s).1, .inl (ih x s (hp x s).2)⟩
  | fork c r ih => exact ⟨hp.1.ahead, ih hp.2⟩

/-- The note is made by what follows. -/
theorem Each.bind_ahead {p : Prog ι σ ε α} {f : α → Prog ι σ ε β} (hp : p.Each R)
    (hf : ∀ a, (f a).Ahead F R S) : (p >>= f).Ahead F R S := by
  show (p.bind f).Ahead F R S
  induction p with
  | pure a => exact hf a
  | throw e => trivial
  | await u n ih => exact fun x s => ⟨(hp x s).1, .inl (ih x s (hp x s).2)⟩
  | fork c r ih => exact ⟨hp.1.ahead, ih hp.2⟩

/-- The call makes the note, or it is made by what follows the answer. -/
theorem ahead_op_bind {g : ι → σ → Except ε α × σ} {f : α → Prog ι σ ε β}
    (hstep : ∀ x s, R s (g x s).2)
    (hnote : ∀ x s a, (g x s).1 = .ok a →
      (f a).Ahead F R S ∨ ∃ i, F i (g x s).2 ∧ (f a).Each (S i)) :
    (op g >>= f).Ahead F R S := by
  intro x s
  refine ⟨hstep x s, ?_⟩
  show ((ofExcept (g x s).1).bind f).Ahead F R S ∨
    ∃ i, F i (g x s).2 ∧ ((ofExcept (g x s).1).bind f).Each (S i)
  cases hg : (g x s).1 with
  | error e => exact .inl trivial
  | ok a => exact hnote x s a hg

/-- What holds of every step holds of those that follow an answer. -/
theorem Each.of_op_bind {g : ι → σ → Except ε α × σ} {f : α → Prog ι σ ε β} (h : (op g >>= f).Each R)
    {x : ι} {s : σ} {a : α} (hg : (g x s).1 = .ok a) : (f a).Each R := by
  have hrest : ((ofExcept (g x s).1).bind f).Each R := (h x s).2
  rw [hg] at hrest
  exact hrest

/-- What follows the code afterwards keeps to the note. -/
theorem Ahead.bind {p : Prog ι σ ε α} {f : α → Prog ι σ ε β} (hp : p.Ahead F R S)
    (hR : ∀ a, (f a).Each R) (hS : ∀ i a, (f a).Each (S i)) : (p >>= f).Ahead F R S := by
  show (p.bind f).Ahead F R S
  induction p with
  | pure a => exact (hR a).ahead
  | throw e => trivial
  | await u n ih =>
    refine fun x s => ⟨(hp x s).1, (hp x s).2.imp (ih x s) fun hnote => ?_⟩
    obtain ⟨i, hF, heach⟩ := hnote
    exact ⟨i, hF, heach.bind (hS i)⟩
  | fork c r ih => exact ⟨hp.1, ih hp.2⟩

theorem Ahead.thenTask {p : Prog ι σ ε α} {k : Except ε α → Task ι σ ε} (hp : p.Ahead F R S)
    (hR : ∀ r, (k r).Ahead F R S) (hS : ∀ i r, (k r).Each (S i)) : (p.thenTask k).Ahead F R S := by
  induction p with
  | pure a => exact hR _
  | throw e => exact hR _
  | await u n ih =>
    refine fun x s => ⟨(hp x s).1, (hp x s).2.imp (ih x s) fun hnote => ?_⟩
    obtain ⟨i, hF, heach⟩ := hnote
    exact ⟨i, hF, heach.thenTask (hS i)⟩
  | fork c r ih => exact ⟨hp.1, ih hp.2⟩

theorem Ahead.toTask {p : Prog ι σ ε α} (hp : p.Ahead F R S) : p.toTask.Ahead F R S :=
  hp.thenTask (fun r => by cases r <;> trivial) fun _ r => by cases r <;> trivial

end Prog

theorem Task.ahead_spawn {F : τ → σ → Prop} {R : σ → σ → Prop} {S : τ → σ → σ → Prop} :
    ∀ t : Task ι σ ε, t.Ahead F R S → ∀ t' ∈ t.spawn, t'.Ahead F R S
  | .done, h, t', ht => by rw [List.mem_singleton.1 ht]; exact h
  | .fail _, h, t', ht => by rw [List.mem_singleton.1 ht]; exact h
  | .await _ _, h, t', ht => by rw [List.mem_singleton.1 ht]; exact h
  | .fork c r, h, t', ht => by
    rcases List.mem_append.1 ht with ht | ht
    · exact ahead_spawn r h.2 t' ht
    · exact ahead_spawn c h.1 t' ht

namespace Live

variable {sys : Meeting κ ι σ ε η} {w w' : Live κ ι σ ε η} {F : κ → τ → σ → Prop} {R : κ → σ → σ → Prop}
  {S : κ → τ → σ → σ → Prop}

/-- Each thread is of an event as in `C`, and has its note yet to make or finds
it made. -/
def Noted (C : κ → Prop) (F : κ → τ → σ → Prop) (R : κ → σ → σ → Prop) (S : κ → τ → σ → σ → Prop)
    (w : Live κ ι σ ε η) : Prop :=
  ∀ th ∈ w.threads, C th.1 ∧
    (th.2.Ahead (F th.1) (R th.1) (S th.1) ∨ ∃ i, F th.1 i w.state ∧ th.2.Each (S th.1 i))

/-- The step lemma. -/
theorem Step.noted {C : κ → Prop}
    (hstart : ∀ e x s, C e → R e s (sys.start e x s).1 ∧ (sys.start e x s).2.Ahead (F e) (R e) (S e))
    (hkeeps : ∀ k i e s s', C e → R e s s' ∨ (∃ j, S e j s s') → F k i s → F k i s')
    (haside : ∀ k i s s', sys.aside s s' → F k i s → F k i s')
    {m : Move κ ι σ ε} (h : Step sys w m w') (hm : ∀ e, m.event? = some e → C e)
    (hw : w.Noted C F R S) : w'.Noted C F R S ∧ ∀ e, m.author = some e → C e ∧
      (R e w.state w'.state ∨ ∃ i, F e i w.state ∧ S e i w.state w'.state) := by
  cases h with
  | @arrive ts s note e x hadmits =>
    have hC := hm e rfl
    obtain ⟨hR, hahead⟩ := hstart e x s hC
    refine ⟨fun th hth => ?_, fun e' he => by cases he; exact ⟨hC, .inl hR⟩⟩
    rcases List.mem_append.1 hth with hth | hth
    · refine (hw th hth).imp_right (Or.imp_right fun hnote => ?_)
      obtain ⟨i, hF, heach⟩ := hnote
      exact ⟨i, hkeeps _ _ e _ _ hC (.inl hR) hF, heach⟩
    · obtain ⟨hk, ht⟩ := Pool.mem_threads.1 hth
      rw [hk]
      exact ⟨hC, .inl (Task.ahead_spawn _ hahead _ ht)⟩
  | aside haside' =>
    refine ⟨fun th hth => (hw th hth).imp_right (Or.imp_right fun hnote => ?_), fun e he => by cases he⟩
    obtain ⟨i, hF, heach⟩ := hnote
    exact ⟨i, haside _ _ _ _ haside' hF, heach⟩
  | @turn before after k u n s note x =>
    obtain ⟨hC, hk⟩ := hw (k, .await u n) (List.mem_append_right _ List.mem_cons_self)
    -- What the thread does, and how it goes on.
    have hturn : (R k s (u x s) ∨ ∃ i, F k i s ∧ S k i s (u x s)) ∧
        ((n x s).Ahead (F k) (R k) (S k) ∨ ∃ i, F k i (u x s) ∧ (n x s).Each (S k i)) := by
      rcases hk with hahead | ⟨i, hF, heach⟩
      · exact ⟨.inl (hahead x s).1, (hahead x s).2⟩
      · exact ⟨.inr ⟨i, hF, (heach x s).1⟩,
          .inr ⟨i, hkeeps _ _ k _ _ hC (.inr ⟨i, (heach x s).1⟩) hF, (heach x s).2⟩⟩
    have hothers : ∀ th : κ × Task ι σ ε, (C th.1 ∧ (th.2.Ahead (F th.1) (R th.1) (S th.1) ∨
        ∃ i, F th.1 i s ∧ th.2.Each (S th.1 i))) → C th.1 ∧ (th.2.Ahead (F th.1) (R th.1) (S th.1) ∨
        ∃ i, F th.1 i (u x s) ∧ th.2.Each (S th.1 i)) := by
      refine fun _ hth => hth.imp_right (Or.imp_right fun hnote => ?_)
      obtain ⟨i, hF, heach⟩ := hnote
      exact ⟨i, hkeeps _ _ k _ _ hC (hturn.1.imp_right fun ⟨j, _, hS⟩ => ⟨j, hS⟩) hF, heach⟩
    refine ⟨fun th hth => ?_, fun e' he => by cases he; exact ⟨hC, hturn.1⟩⟩
    rcases List.mem_append.1 hth with hth | hth
    · exact hothers th (hw th (List.mem_append_left _ hth))
    · rcases List.mem_append.1 hth with hth | hth
      · obtain ⟨hk', ht⟩ := Pool.mem_threads.1 hth
        rw [hk']
        refine ⟨hC, hturn.2.imp (fun hahead => Task.ahead_spawn _ hahead _ ht) fun hnote => ?_⟩
        obtain ⟨i, hF, heach⟩ := hnote
        exact ⟨i, hF, Pool.each_spawn _ heach _ ht⟩
      · exact hothers th (hw th (List.mem_append_right _ (List.mem_cons_of_mem _ hth)))

/-- **The rule for notes.** In a run of events as in `C`, each move does nothing
that needs a note, or finds the note of its event made. -/
theorem noted_run {C : κ → Prop}
    (hstart : ∀ e x s, C e → R e s (sys.start e x s).1 ∧ (sys.start e x s).2.Ahead (F e) (R e) (S e))
    (hkeeps : ∀ k i e s s', C e → R e s s' ∨ (∃ j, S e j s s') → F k i s → F k i s')
    (haside : ∀ k i s s', sys.aside s s' → F k i s → F k i s')
    {w₀ : Live κ ι σ ε η} {steps : List (Live κ ι σ ε η × Move κ ι σ ε × Live κ ι σ ε η)}
    (hrun : Trace (Step sys) w₀ steps w) (hw₀ : w₀.threads = [])
    (hevents : ∀ x ∈ steps, ∀ e, x.2.1.event? = some e → C e) :
    ∀ x ∈ steps, ∀ e, x.2.1.author = some e → C e ∧
      (R e x.1.state x.2.2.state ∨ ∃ i, F e i x.1.state ∧ S e i x.1.state x.2.2.state) :=
  hrun.forall_mem_of_invariant (I := Noted C F R S)
    (P := fun x => ∀ e, x.2.1.author = some e → C e ∧
      (R e x.1.state x.2.2.state ∨ ∃ i, F e i x.1.state ∧ S e i x.1.state x.2.2.state))
    (fun x hx hstep hw => hstep.noted hstart hkeeps haside (hevents x hx) hw)
    fun _ hth => absurd (hw₀ ▸ hth) List.not_mem_nil

end Live

end Async
