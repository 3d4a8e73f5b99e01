import Damaru.Async.Pool
import Damaru.Async.Trace

/-!
# Live systems

Events come to a live system while the threads of earlier events are still on
their way. What an event does before it first awaits anything it does at once;
what is left of it joins the pool under the event as its label. Beside the
shared state a note is kept of the events, which no thread reads.
-/

namespace Async

variable {κ ι σ ε η φ : Type}

/-- How a system meets its events. -/
structure Meeting (κ ι σ ε η : Type) where
  /-- The events that can come after those the note tells of. -/
  admits : η → κ → Prop
  /-- What an event does at once, and the thread that is left of it. -/
  start : κ → ι → σ → σ × Task ι σ ε
  note : η → σ → κ → η
  /-- What can happen to the state from outside. -/
  aside : σ → σ → Prop

structure Live (κ ι σ ε η : Type) where
  threads : Pool κ ι σ ε
  state : σ
  note : η

namespace Live

/-- An event comes, a thread takes one step, or something happens outside. -/
inductive Move (κ ι σ ε : Type) where
  | arrive (e : κ)
  | turn (k : κ) (t : Task ι σ ε)
  | aside

inductive Step (sys : Meeting κ ι σ ε η) : Live κ ι σ ε η → Move κ ι σ ε → Live κ ι σ ε η → Prop
  | arrive {ts : Pool κ ι σ ε} {s : σ} {h : η} {e : κ} (x : ι) : sys.admits h e →
      Step sys ⟨ts, s, h⟩ (.arrive e)
        ⟨ts ++ Pool.threads e (sys.start e x s).2, (sys.start e x s).1, sys.note h s e⟩
  | turn {before after : Pool κ ι σ ε} {k : κ} {u : ι → σ → σ} {n : ι → σ → Task ι σ ε} {s : σ}
      {h : η} (x : ι) :
      Step sys ⟨before ++ (k, .await u n) :: after, s, h⟩ (.turn k (.await u n))
        ⟨before ++ (Pool.threads k (n x s) ++ after), u x s, h⟩
  | aside {ts : Pool κ ι σ ε} {s s' : σ} {h : η} : sys.aside s s' →
      Step sys ⟨ts, s, h⟩ .aside ⟨ts, s', h⟩

/-- Every thread has come to its end, or failed. -/
def Quiet (w : Live κ ι σ ε η) : Prop := Pool.Finished (fun _ => True) w.threads

variable {sys : Meeting κ ι σ ε η} {w w' : Live κ ι σ ε η}

/-! ## Phases -/

section Phases

variable (task : φ → Task ι σ ε)

/-- The threads stand at phases that satisfy `I`. -/
def At (I : List (κ × φ) → σ → η → Prop) (w : Live κ ι σ ε η) : Prop :=
  ∃ qs, w.threads = Pool.ofPhases task qs ∧ I qs w.state w.note

variable {task} {I : List (κ × φ) → σ → η → Prop}

theorem ofPhases_append (qs qs' : List (κ × φ)) :
    Pool.ofPhases task (qs ++ qs') = Pool.ofPhases task qs ++ Pool.ofPhases task qs' :=
  List.map_append

theorem threads_eq_ofPhases {k : κ} {t : Task ι σ ε} {qs : List φ} (h : t.spawn = qs.map task) :
    Pool.threads k t = Pool.ofPhases task (qs.map fun q => (k, q)) := by
  unfold Pool.threads Pool.ofPhases
  rw [h, List.map_map, List.map_map]
  rfl

/-- The turn of a thread is the turn of a phase. -/
theorem Step.turn_at {k : κ} {t : Task ι σ ε} (h : Step sys w (.turn k t) w') {qs : List (κ × φ)}
    (hqs : w.threads = Pool.ofPhases task qs) :
    ∃ before after q u n x, qs = before ++ (k, q) :: after ∧ t = task q ∧ task q = .await u n ∧
      w'.threads = Pool.ofPhases task before ++
        (Pool.threads k (n x w.state) ++ Pool.ofPhases task after) ∧
      w'.state = u x w.state ∧ w'.note = w.note := by
  generalize hm : Move.turn k t = m at h
  cases h with
  | arrive x hadmits => cases hm
  | aside haside => cases hm
  | @turn before after k' u n s note x =>
    cases hm
    obtain ⟨qb, qr, rfl, hb, hr⟩ := List.map_eq_append_iff.1 hqs.symm
    obtain ⟨⟨k', q⟩, qa, rfl, hq, ha⟩ := List.map_eq_cons_iff.1 hr
    obtain ⟨rfl, ht⟩ : k' = k ∧ task q = .await u n := Prod.mk.inj hq
    subst hb ha
    exact ⟨qb, qa, q, u, n, x, rfl, ht.symm, ht, rfl, rfl, rfl⟩

/-- **The invariant rule.** If what is left of an event stands at phases, and
so does what is left of a phase, then an invariant of phases that every step
keeps holds of every state that a run reaches. -/
theorem Step.at {C : Live κ ι σ ε η → Move κ ι σ ε → Prop}
    (harrive : ∀ qs s h e x, I qs s h → sys.admits h e →
      C ⟨Pool.ofPhases task qs, s, h⟩ (.arrive e) →
      ∃ qs' : List φ, (sys.start e x s).2.spawn = qs'.map task ∧
        I (qs ++ qs'.map fun q => (e, q)) (sys.start e x s).1 (sys.note h s e))
    (hturn : ∀ before after k q u n x s h, I (before ++ (k, q) :: after) s h →
      C ⟨Pool.ofPhases task (before ++ (k, q) :: after), s, h⟩ (.turn k (task q)) →
      task q = .await u n →
      ∃ qs' : List φ, (n x s).spawn = qs'.map task ∧
        I (before ++ (qs'.map (fun q => (k, q)) ++ after)) (u x s) h)
    (haside : ∀ qs s s' h, I qs s h → sys.aside s s' → I qs s' h) {m : Move κ ι σ ε}
    (h : Step sys w m w') (hC : C w m) (hw : w.At task I) : w'.At task I := by
  obtain ⟨qs, hqs, hI⟩ := hw
  cases m with
  | arrive e =>
    cases h with
    | @arrive ts s note e x hadmits =>
      obtain rfl : ts = _ := hqs
      obtain ⟨qs', hspawn, hI'⟩ := harrive qs s note e x hI hadmits hC
      refine ⟨_, ?_, hI'⟩
      rw [ofPhases_append, threads_eq_ofPhases hspawn]
  | aside =>
    cases h with
    | aside haside' => exact ⟨qs, hqs, haside _ _ _ _ hI haside'⟩
  | turn k t =>
    obtain ⟨before, after, q, u, n, x, rfl, rfl, hq, hthreads, hstate, hnote⟩ := h.turn_at hqs
    obtain ⟨ts, s, note⟩ := w
    obtain rfl : ts = _ := hqs
    obtain ⟨qs', hspawn, hI'⟩ := hturn before after k q u n x s note hI hC hq
    refine ⟨before ++ (qs'.map (fun q => (k, q)) ++ after), ?_, ?_⟩
    · rw [hthreads, threads_eq_ofPhases hspawn, ofPhases_append, ofPhases_append]
    · rw [hstate, hnote]
      exact hI'

end Phases

/-! ## Who moves -/

/-- The event that comes, or whose thread takes the step. -/
def Move.author : Move κ ι σ ε → Option κ
  | .arrive e => some e
  | .turn k _ => some k
  | .aside => none

/-- The event that comes, if one does. -/
def Move.event? : Move κ ι σ ε → Option κ
  | .arrive e => some e
  | _ => none

section Authors

variable {C : κ → Prop} {R : κ → σ → σ → Prop}

/-- What the code of an event as in `C` does in each of its steps, the moves
that it is the author of do, and the threads that it leaves behind. -/
theorem Step.each
    (hstart : ∀ e x s, C e → R e s (sys.start e x s).1 ∧ (sys.start e x s).2.Each (R e))
    {m : Move κ ι σ ε} (h : Step sys w m w') (hm : ∀ e, m.event? = some e → C e)
    (hw : ∀ th ∈ w.threads, C th.1 ∧ th.2.Each (R th.1)) :
    (∀ th ∈ w'.threads, C th.1 ∧ th.2.Each (R th.1)) ∧
      ∀ e, m.author = some e → C e ∧ R e w.state w'.state := by
  cases h with
  | @arrive ts s note e x hadmits =>
    have hC := hm e rfl
    obtain ⟨hR, heach⟩ := hstart e x s hC
    refine ⟨fun th hth => ?_, fun e' he => by cases he; exact ⟨hC, hR⟩⟩
    rcases List.mem_append.1 hth with hth | hth
    · exact hw th hth
    · obtain ⟨hk, ht⟩ := Pool.mem_threads.1 hth
      rw [hk]
      exact ⟨hC, Pool.each_spawn _ heach _ ht⟩
  | @turn before after k u n s note x =>
    obtain ⟨hC, hk⟩ := hw (k, .await u n) (List.mem_append_right _ List.mem_cons_self)
    refine ⟨fun th hth => ?_, fun e' he => by cases he; exact ⟨hC, (hk x s).1⟩⟩
    rcases List.mem_append.1 hth with hth | hth
    · exact hw th (List.mem_append_left _ hth)
    · rcases List.mem_append.1 hth with hth | hth
      · obtain ⟨hk', ht⟩ := Pool.mem_threads.1 hth
        rw [hk']
        exact ⟨hC, Pool.each_spawn _ (hk x s).2 _ ht⟩
      · exact hw th (List.mem_append_right _ (List.mem_cons_of_mem _ hth))
  | aside haside => exact ⟨hw, fun e he => by cases he⟩

/-- So do the moves of a run of such events. -/
theorem each_run (hstart : ∀ e x s, C e → R e s (sys.start e x s).1 ∧ (sys.start e x s).2.Each (R e))
    {w₀ : Live κ ι σ ε η} {steps : List (Live κ ι σ ε η × Move κ ι σ ε × Live κ ι σ ε η)}
    (hrun : Trace (Step sys) w₀ steps w) (hw₀ : w₀.threads = [])
    (hevents : ∀ x ∈ steps, ∀ e, x.2.1.event? = some e → C e) :
    ∀ x ∈ steps, ∀ e, x.2.1.author = some e → C e ∧ R e x.1.state x.2.2.state :=
  hrun.forall_mem_of_invariant (I := fun w => ∀ th ∈ w.threads, C th.1 ∧ th.2.Each (R th.1))
    (P := fun x => ∀ e, x.2.1.author = some e → C e ∧ R e x.1.state x.2.2.state)
    (fun x hx hstep hw => hstep.each hstart (hevents x hx) hw)
    fun _ hth => absurd (hw₀ ▸ hth) List.not_mem_nil

/-- What the code that an event leaves behind does in each of its steps, the
turns of its threads do, whatever the event does at once. -/
theorem turns_run (hstart : ∀ e x s, (sys.start e x s).2.Each (R e)) {w₀ : Live κ ι σ ε η}
    {steps : List (Live κ ι σ ε η × Move κ ι σ ε × Live κ ι σ ε η)} (hrun : Trace (Step sys) w₀ steps w)
    (hw₀ : w₀.threads = []) :
    ∀ x ∈ steps, ∀ e t, x.2.1 = .turn e t → R e x.1.state x.2.2.state := by
  refine hrun.forall_mem_of_invariant (I := fun w => ∀ th ∈ w.threads, th.2.Each (R th.1))
    (P := fun x => ∀ e t, x.2.1 = .turn e t → R e x.1.state x.2.2.state) ?_
    fun _ hth => absurd (hw₀ ▸ hth) List.not_mem_nil
  rintro ⟨w, m, w'⟩ - hstep hw
  cases hstep with
  | @arrive ts s note e x hadmits =>
    refine ⟨fun th hth => ?_, nofun⟩
    rcases List.mem_append.1 hth with hth | hth
    · exact hw th hth
    · obtain ⟨hk, ht⟩ := Pool.mem_threads.1 hth
      rw [hk]
      exact Pool.each_spawn _ (hstart e x s) _ ht
  | @turn before after k u n s note x =>
    have hk := hw (k, .await u n) (List.mem_append_right _ List.mem_cons_self)
    refine ⟨fun th hth => ?_, fun e t he => by cases he; exact (hk x s).1⟩
    rcases List.mem_append.1 hth with hth | hth
    · exact hw th (List.mem_append_left _ hth)
    · rcases List.mem_append.1 hth with hth | hth
      · obtain ⟨hk', ht⟩ := Pool.mem_threads.1 hth
        rw [hk']
        exact Pool.each_spawn _ (hk x s).2 _ ht
      · exact hw th (List.mem_append_right _ (List.mem_cons_of_mem _ hth))
  | aside haside => exact ⟨hw, nofun⟩

end Authors

/-! ## Playing -/

/-- An event on an input, or the turn of the thread of a number on an input. -/
inductive Choice (κ ι : Type) where
  | arrive (e : κ) (x : ι)
  | turn (i : Nat) (x : ι)

def Choice.event? : Choice κ ι → Option κ
  | .arrive e _ => some e
  | .turn _ _ => none

section Playing

variable (sys) [∀ h e, Decidable (sys.admits h e)]

def next (w : Live κ ι σ ε η) : Choice κ ι → Option (Move κ ι σ ε × Live κ ι σ ε η)
  | .arrive e x =>
    if sys.admits w.note e then
      some (.arrive e, ⟨w.threads ++ Pool.threads e (sys.start e x w.state).2,
        (sys.start e x w.state).1, sys.note w.note w.state e⟩)
    else none
  | .turn i x =>
    match w.threads.drop i with
    | (k, .await u n) :: after => some (.turn k (.await u n),
        ⟨w.threads.take i ++ (Pool.threads k (n x w.state) ++ after), u x w.state, w.note⟩)
    | _ => none

/-- Plays the choices as long as the moves they make are allowed. -/
def play (allows : Live κ ι σ ε η → Move κ ι σ ε → Bool) :
    List (Choice κ ι) → Live κ ι σ ε η → Option (Live κ ι σ ε η)
  | [], w => some w
  | c :: cs, w => (w.next sys c).bind fun o => if allows w o.1 then play allows cs o.2 else none

variable {sys}

theorem step_of_next {c : Choice κ ι} {m : Move κ ι σ ε} (h : w.next sys c = some (m, w')) :
    Step sys w m w' ∧ m.event? = c.event? := by
  cases c with
  | arrive e x =>
    rw [next] at h
    split at h
    · rename_i hadmits
      cases h
      exact ⟨.arrive x hadmits, rfl⟩
    · cases h
  | turn i x =>
    obtain ⟨ts, s, note⟩ := w
    rw [next] at h
    split at h
    · rename_i k u n after hdrop
      cases h
      have hts : ts = ts.take i ++ (k, .await u n) :: after := by
        rw [← hdrop, List.take_append_drop]
      have hstep : Step sys ⟨ts.take i ++ (k, .await u n) :: after, s, note⟩
          (.turn k (.await u n)) ⟨ts.take i ++ (Pool.threads k (n x s) ++ after), u x s, note⟩ :=
        .turn x
      rw [← hts] at hstep
      exact ⟨hstep, rfl⟩
    · cases h

theorem trace_of_play {allows : Live κ ι σ ε η → Move κ ι σ ε → Bool} {cs : List (Choice κ ι)}
    {w₀ : Live κ ι σ ε η} {steps : List (Live κ ι σ ε η × Move κ ι σ ε × Live κ ι σ ε η)}
    (hrun : Trace (Step sys) w₀ steps w) (h : play sys allows cs w = some w') :
    ∃ steps', Trace (Step sys) w₀ (steps ++ steps') w' ∧
      steps'.filterMap (fun x => x.2.1.event?) = cs.filterMap Choice.event? ∧
      ∀ x ∈ steps', allows x.1 x.2.1 = true := by
  induction cs generalizing w steps with
  | nil =>
    cases h
    exact ⟨[], by rwa [List.append_nil], rfl, by simp⟩
  | cons c cs ih =>
    obtain ⟨⟨m, t⟩, ht, h⟩ := Option.bind_eq_some_iff.1 h
    obtain ⟨hallows, h⟩ := Option.ite_none_right_eq_some.1 h
    obtain ⟨hstep, hevent⟩ := step_of_next ht
    obtain ⟨steps', hrun', hevents, hall⟩ := ih (hrun.snoc hstep) h
    refine ⟨(w, m, t) :: steps', by simpa using hrun', ?_, ?_⟩
    · rw [List.filterMap_cons, List.filterMap_cons, hevents, ← hevent]
    · rw [List.forall_mem_cons]
      exact ⟨hallows, hall⟩

end Playing

end Live

end Async
