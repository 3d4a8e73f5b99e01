import Damaru.Async.Beside
import Damaru.Async.Live

/-!
# Runs that are related

Inputs and states are compared by relations `I` and `S`. Two programs are related
if they await and fork together, if states that compare are taken to states that
compare by every two inputs that do, and if they come to answers that compare or
are rejected with the same error. Unlike in two worlds, the second input is not
told by the first. Two live systems that are related stay so, choice after choice.
-/

namespace Async

variable {κ ι σ ε η α β γ : Type}

inductive Task.Related (I : ι → ι → Prop) (S : σ → σ → Prop) : Task ι σ ε → Task ι σ ε → Prop
  | done : Related I S .done .done
  | fail (e : ε) : Related I S (.fail e) (.fail e)
  | await {u u' : ι → σ → σ} {n n' : ι → σ → Task ι σ ε} :
      (∀ x x' s s', I x x' → S s s' → S (u x s) (u' x' s')) →
      (∀ x x' s s', I x x' → S s s' → Related I S (n x s) (n' x' s')) →
      Related I S (.await u n) (.await u' n')
  | fork {c c' r r' : Task ι σ ε} : Related I S c c' → Related I S r r' → Related I S (.fork c r) (.fork c' r')

theorem answers_of_map {f : α → γ} {r r' : Except ε α} (h : r.map f = r'.map f) :
    Answers (fun a a' => f a = f a') r r' := by
  cases r with
  | ok a =>
    cases r' with
    | ok a' => exact Except.ok.inj h
    | error e' => cases h
  | error e =>
    cases r' with
    | ok a' => cases h
    | error e' => exact Except.error.inj h

namespace Prog

inductive Related (I : ι → ι → Prop) (S : σ → σ → Prop) (R : α → α → Prop) :
    Prog ι σ ε α → Prog ι σ ε α → Prop
  | pure {a a' : α} : R a a' → Related I S R (.pure a) (.pure a')
  | throw (e : ε) : Related I S R (.throw e) (.throw e)
  | await {u u' : ι → σ → σ} {n n' : ι → σ → Prog ι σ ε α} :
      (∀ x x' s s', I x x' → S s s' → S (u x s) (u' x' s')) →
      (∀ x x' s s', I x x' → S s s' → Related I S R (n x s) (n' x' s')) →
      Related I S R (.await u n) (.await u' n')
  | fork {c c' : Task ι σ ε} {r r' : Prog ι σ ε α} : c.Related I S c' →
      Related I S R r r' → Related I S R (.fork c r) (.fork c' r')

variable {I : ι → ι → Prop} {S : σ → σ → Prop} {R : α → α → Prop} {Q : β → β → Prop}

theorem related_ofExcept {r r' : Except ε α} (h : Answers R r r') :
    (ofExcept r : Prog ι σ ε α).Related I S R (ofExcept r') := by
  cases r with
  | ok a =>
    cases r' with
    | ok a' => exact .pure h
    | error e' => exact h.elim
  | error e =>
    cases r' with
    | ok a' => exact h.elim
    | error e' =>
      obtain rfl : e = e' := h
      exact .throw e

theorem related_op {f f' : ι → σ → Except ε α × σ}
    (h : ∀ x x' s s', I x x' → S s s' →
      Answers R (f x s).1 (f' x' s').1 ∧ S (f x s).2 (f' x' s').2) : (op f).Related I S R (op f') :=
  .await (fun x x' s s' hx hs => (h x x' s s' hx hs).2)
    fun x x' s s' hx hs => related_ofExcept (h x x' s s' hx hs).1

theorem Related.bind {p p' : Prog ι σ ε α} {f f' : α → Prog ι σ ε β} (hp : p.Related I S R p')
    (hf : ∀ a a', R a a' → (f a).Related I S Q (f' a')) :
    (p >>= f).Related I S Q (p' >>= f') := by
  show (p.bind f).Related I S Q (p'.bind f')
  induction hp with
  | pure h => exact hf _ _ h
  | throw e => exact .throw e
  | await hu _ ih => exact .await hu ih
  | fork hc _ ih => exact .fork hc ih

theorem Related.tryCatch {p p' : Prog ι σ ε α} {h h' : ε → Prog ι σ ε α} (hp : p.Related I S R p')
    (hh : ∀ e, (h e).Related I S R (h' e)) : (p.tryCatch h).Related I S R (p'.tryCatch h') := by
  induction hp with
  | pure ha => exact .pure ha
  | throw e => exact hh e
  | await hu _ ih => exact .await hu ih
  | fork hc _ ih => exact .fork hc ih

/-- Two loops over items that `P` relates. -/
theorem Related.forM {P : γ → γ → Prop} {f f' : γ → Prog ι σ ε PUnit} {l l' : List γ}
    (hl : List.Forall₂ P l l')
    (hf : ∀ c c', P c c' → (f c).Related I S (fun _ _ => True) (f' c')) :
    (ForM.forM l f).Related I S (fun _ _ => True) (ForM.forM l' f') := by
  induction hl with
  | nil =>
    rw [List.forM_nil, List.forM_nil]
    exact .pure trivial
  | cons hc _ ih =>
    rw [List.forM_cons, List.forM_cons]
    exact (hf _ _ hc).bind fun _ _ _ => ih

theorem Related.toTask {p p' : Prog ι σ ε α} (hp : p.Related I S R p') :
    p.toTask.Related I S p'.toTask := by
  show (p.thenTask finish).Related I S (p'.thenTask finish)
  induction hp with
  | pure _ => exact .done
  | throw e => exact .fail e
  | await hu _ ih => exact .await hu ih
  | fork hc _ ih => exact .fork hc ih

theorem Related.detach {p p' : Prog ι σ ε α} (hp : p.Related I S R p') :
    p.detach.Related I S (fun _ _ => True) p'.detach :=
  .fork hp.toTask (.pure trivial)

theorem Related.mono {P : α → α → Prop} {p p' : Prog ι σ ε α} (hp : p.Related I S R p')
    (h : ∀ a a', R a a' → P a a') : p.Related I S P p' := by
  induction hp with
  | pure ha => exact .pure (h _ _ ha)
  | throw e => exact .throw e
  | await hu _ ih => exact .await hu ih
  | fork hc _ ih => exact .fork hc ih

/-- Run alone on inputs that compare, two programs that are related come to the
same answer, in states that compare. -/
theorem Related.run {p p' : Prog ι σ ε α} (hp : p.Related I S R p') {xs xs' : List ι}
    (hxs : List.Forall₂ I xs xs') {s s' : σ} (hs : S s s') :
    Option.Rel (fun o o' => Answers R o.1 o'.1 ∧ S o.2 o'.2) (p.run xs s) (p'.run xs' s') := by
  induction hp generalizing xs xs' s s' with
  | pure ha => exact .some ⟨ha, hs⟩
  | throw e => exact .some ⟨rfl, hs⟩
  | await hu _ ih =>
    cases hxs with
    | nil => exact .none
    | cons hx hxs => exact ih _ _ _ _ hx hs hxs (hu _ _ _ _ hx hs)
  | fork _ _ _ => exact .none

end Prog

/-! ## Live systems -/

variable {I : ι → ι → Prop} {S : σ → σ → Prop}

theorem Task.Related.spawn {t t' : Task ι σ ε} (h : t.Related I S t') :
    List.Forall₂ (Task.Related I S) t.spawn t'.spawn := by
  induction h with
  | done => exact .cons .done .nil
  | fail e => exact .cons (.fail e) .nil
  | await hu hn _ => exact .cons (.await hu hn) .nil
  | fork _ _ ihc ihr => exact List.rel_append ihr ihc

namespace Live

/-- Threads of the same events that are related, beside states that compare. -/
structure Related (I : ι → ι → Prop) (S : σ → σ → Prop) (w w' : Live κ ι σ ε η) : Prop where
  threads : List.Forall₂ (fun th th' => th.1 = th'.1 ∧ th.2.Related I S th'.2) w.threads w'.threads
  state : S w.state w'.state
  note : w.note = w'.note

/-- The same choice on inputs that compare. -/
def Choice.Related (I : ι → ι → Prop) : Choice κ ι → Choice κ ι → Prop
  | .arrive e x, .arrive e' x' => e = e' ∧ I x x'
  | .turn i x, .turn j x' => i = j ∧ I x x'
  | _, _ => False

theorem Choice.Related.refl (hI : ∀ x, I x x) : ∀ c : Choice κ ι, c.Related I c
  | .arrive _ x => ⟨rfl, hI x⟩
  | .turn _ x => ⟨rfl, hI x⟩

/-- For the events as in `C`, the system starts threads that are related for
inputs and states that compare. -/
structure Respects (sys : Meeting κ ι σ ε η) (C : κ → Prop) (I : ι → ι → Prop) (S : σ → σ → Prop) :
    Prop where
  state : ∀ e x x' s s', C e → I x x' → S s s' → S (sys.start e x s).1 (sys.start e x' s').1
  thread : ∀ e x x' s s', C e → I x x' → S s s' →
    (sys.start e x s).2.Related I S (sys.start e x' s').2
  note : ∀ h s s' e, S s s' → sys.note h s e = sys.note h s' e

variable {sys : Meeting κ ι σ ε η} {C : κ → Prop} {w w' : Live κ ι σ ε η}

theorem forall₂_threads {k : κ} {t t' : Task ι σ ε} (h : t.Related I S t') :
    List.Forall₂ (fun th th' : κ × Task ι σ ε => th.1 = th'.1 ∧ th.2.Related I S th'.2)
      (Pool.threads k t) (Pool.threads k t') := by
  unfold Pool.threads
  rw [List.forall₂_map_left_iff, List.forall₂_map_right_iff]
  exact h.spawn.imp fun _ _ h => ⟨rfl, h⟩

section Playing

variable [∀ h e, Decidable (sys.admits h e)]

theorem Related.next (hsys : Respects sys C I S) (hw : w.Related I S w') {c c' : Choice κ ι}
    (hc : c.Related I c') (he : ∀ e, c.event? = some e → C e) :
    Option.Rel (fun o o' => o.2.Related I S o'.2) (w.next sys c) (w'.next sys c') := by
  obtain ⟨ts, s, h⟩ := w
  obtain ⟨ts', s', h'⟩ := w'
  obtain ⟨hts, hs, hh⟩ := hw
  obtain rfl : h = h' := hh
  cases c with
  | arrive e x =>
    cases c' with
    | turn j x' => exact hc.elim
    | arrive e' x' =>
      obtain ⟨rfl, hx⟩ := hc
      rw [Live.next, Live.next]
      split
      · have hthread := hsys.thread e x x' s s' (he e rfl) hx hs
        exact .some ⟨List.rel_append hts (forall₂_threads hthread),
          hsys.state e x x' s s' (he e rfl) hx hs, hsys.note h s s' e hs⟩
      · exact .none
  | turn i x =>
    cases c' with
    | arrive e' x' => exact hc.elim
    | turn j x' =>
      obtain ⟨rfl, hx⟩ := hc
      have htake := List.forall₂_take i hts
      have hdrop := List.forall₂_drop i hts
      rw [Live.next, Live.next]
      dsimp only at htake hdrop ⊢
      generalize ts.drop i = l at hdrop
      generalize ts'.drop i = l' at hdrop
      cases hdrop with
      | nil => exact .none
      | @cons th th' l l' hth hl =>
        obtain ⟨k, t⟩ := th
        obtain ⟨k', t'⟩ := th'
        obtain ⟨rfl, ht⟩ : k = k' ∧ t.Related I S t' := hth
        cases ht with
        | done => exact .none
        | fail e => exact .none
        | fork _ _ => exact .none
        | await hu hn =>
          exact .some ⟨List.rel_append htake (List.rel_append (forall₂_threads (hn _ _ _ _ hx hs)) hl),
            hu _ _ _ _ hx hs, rfl⟩

/-- **Two plays.** On choices that differ in their inputs only as `I` allows,
systems that are related do the same. -/
theorem Related.play (hsys : Respects sys C I S) {cs cs' : List (Choice κ ι)}
    (hcs : List.Forall₂ (Choice.Related I) cs cs') (hevents : ∀ e ∈ cs.filterMap Choice.event?, C e)
    (hw : w.Related I S w') :
    Option.Rel (Related I S) (play sys (fun _ _ => true) cs w) (play sys (fun _ _ => true) cs' w') := by
  induction hcs generalizing w w' with
  | nil => exact .some hw
  | @cons c c' cs cs' hc _ ih =>
    have hnext := hw.next hsys hc fun e he =>
      hevents e (List.mem_filterMap.2 ⟨c, List.mem_cons_self, he⟩)
    have hrest : ∀ e ∈ cs.filterMap Choice.event?, C e := fun e he => by
      obtain ⟨c', hc', he⟩ := List.mem_filterMap.1 he
      exact hevents e (List.mem_filterMap.2 ⟨c', List.mem_cons_of_mem _ hc', he⟩)
    rw [Live.play, Live.play]
    generalize w.next sys c = o at hnext
    generalize w'.next sys c' = o' at hnext
    cases hnext with
    | none => exact .none
    | some ho => exact ih hrest ho

/-- Every run of a system is a play of the events that come in it. -/
theorem exists_play (haside : ∀ s s', ¬ sys.aside s s') {w₀ : Live κ ι σ ε η}
    {steps : List (Live κ ι σ ε η × Move κ ι σ ε × Live κ ι σ ε η)} (hrun : Trace (Step sys) w₀ steps w) :
    ∃ cs, cs.length = steps.length ∧
      steps.filterMap (fun x => x.2.1.event?) = cs.filterMap Choice.event? ∧
      play sys (fun _ _ => true) cs w₀ = some w := by
  have hplay : ∀ (cs : List (Choice κ ι)) (c : Choice κ ι) (w₀ w w' : Live κ ι σ ε η) (m : Move κ ι σ ε),
      play sys (fun _ _ => true) cs w₀ = some w → w.next sys c = some (m, w') →
      play sys (fun _ _ => true) (cs ++ [c]) w₀ = some w' := by
    intro cs c w₀ w w' m hcs hc
    induction cs generalizing w₀ with
    | nil =>
      cases hcs
      rw [List.nil_append, play, hc]
      rfl
    | cons c₁ cs ih =>
      rw [play] at hcs
      obtain ⟨o, ho, hcs⟩ := Option.bind_eq_some_iff.1 hcs
      rw [List.cons_append, play, ho]
      exact ih _ hcs
  induction hrun with
  | nil => exact ⟨[], rfl, rfl, rfl⟩
  | @snoc w w' m steps _ hstep ih =>
    obtain ⟨cs, hlength, hevents, hcs⟩ := ih
    have hnext : ∃ c, w.next sys c = some (m, w') := by
      cases hstep with
      | @arrive ts s h e x hadmits => exact ⟨.arrive e x, by rw [Live.next, if_pos hadmits]⟩
      | @turn before after k u n s h x =>
        refine ⟨.turn before.length x, ?_⟩
        rw [Live.next, List.drop_left, List.take_left]
      | aside ha => exact absurd ha (haside _ _)
    obtain ⟨c, hc⟩ := hnext
    refine ⟨cs ++ [c], ?_, ?_, hplay cs c _ _ _ m hcs hc⟩
    · rw [List.length_append, List.length_append, hlength]
      rfl
    · rw [List.filterMap_append, List.filterMap_append, hevents, List.filterMap_cons,
        List.filterMap_cons, (step_of_next hc).2]
      rfl

end Playing

end Live

end Async
