/-!
# Traces

A run of a system that takes one event after another, as the list of its
steps. Every prefix of a trace is a trace, so what holds in the last state of
every trace holds in every state reached.
-/

namespace Async

variable {σ ε : Type}

/-- The steps of a run, each with the state before and the state after it. -/
inductive Trace (step : σ → ε → σ → Prop) (s : σ) : List (σ × ε × σ) → σ → Prop
  | nil : Trace step s [] s
  | snoc {s' s'' : σ} {e : ε} {l : List (σ × ε × σ)} :
      Trace step s l s' → step s' e s'' → Trace step s (l ++ [(s', e, s'')]) s''

namespace Trace

variable {step : σ → ε → σ → Prop}

/-- What every step satisfies, the steps of a run satisfy. -/
theorem forall_steps {P : σ → ε → σ → Prop} (hstep : ∀ s e s', step s e s' → P s e s') {s s' : σ}
    {l : List (σ × ε × σ)} (h : Trace step s l s') : ∀ x ∈ l, P x.1 x.2.1 x.2.2 := by
  induction h with
  | nil => exact fun x hx => (List.not_mem_nil hx).elim
  | snoc _ hlast ih =>
    intro x hx
    rcases List.mem_append.1 hx with hx | hx
    · exact ih x hx
    · rw [List.mem_singleton.1 hx]
      exact hstep _ _ _ hlast

/-- What the steps of a run preserve, the run preserves. -/
theorem invariant_of_mem {I : σ → Prop} {s s' : σ} {l : List (σ × ε × σ)} (h : Trace step s l s')
    (hstep : ∀ x ∈ l, step x.1 x.2.1 x.2.2 → I x.1 → I x.2.2) (hs : I s) : I s' := by
  induction h with
  | nil => exact hs
  | snoc _ hlast ih =>
    refine hstep _ (List.mem_append_right _ (List.mem_singleton.2 rfl)) hlast ?_
    exact ih fun x hx => hstep x (List.mem_append_left _ hx)

/-- What the steps of a run satisfy if they start in an invariant that they
preserve, they all satisfy. -/
theorem forall_mem_of_invariant {I : σ → Prop} {P : σ × ε × σ → Prop} {s s' : σ}
    {l : List (σ × ε × σ)} (h : Trace step s l s')
    (hstep : ∀ x ∈ l, step x.1 x.2.1 x.2.2 → I x.1 → I x.2.2 ∧ P x) (hs : I s) : ∀ x ∈ l, P x := by
  induction h with
  | nil => simp
  | @snoc t t' e l hprefix hlast ih =>
    have hbefore := fun x hx => hstep x (List.mem_append_left _ hx)
    rw [List.forall_mem_append, List.forall_mem_singleton]
    refine ⟨ih hbefore, (hstep _ (List.mem_append_right _ (List.mem_singleton.2 rfl)) hlast ?_).2⟩
    exact hprefix.invariant_of_mem (fun x hx hx' hI => (hbefore x hx hx' hI).1) hs

/-- The steps of a run preserve an invariant in every state that it reaches. -/
theorem forall_states_of_mem {I : σ → Prop} {s s' : σ} {l : List (σ × ε × σ)}
    (h : Trace step s l s') (hstep : ∀ x ∈ l, step x.1 x.2.1 x.2.2 → I x.1 → I x.2.2) (hs : I s) :
    ∀ x ∈ l, I x.2.2 :=
  h.forall_mem_of_invariant
    (fun x hx hx' hI => ⟨hstep x hx hx' hI, hstep x hx hx' hI⟩) hs

/-- The last state of a run is its first or one that a step has reached. -/
theorem last_mem {s s' : σ} {l : List (σ × ε × σ)} (h : Trace step s l s') :
    s' = s ∨ ∃ x ∈ l, x.2.2 = s' := by
  cases h with
  | nil => exact .inl rfl
  | snoc hprefix hlast => exact .inr ⟨_, List.mem_append_right _ (List.mem_singleton.2 rfl), rfl⟩

/-- What every step preserves, a run preserves. -/
theorem invariant {I : σ → Prop} (hstep : ∀ s e s', step s e s' → I s → I s') {s s' : σ}
    {l : List (σ × ε × σ)} (h : Trace step s l s') (hs : I s) : I s' :=
  h.invariant_of_mem (fun _ _ => hstep _ _ _) hs

/-- What holds at the end of a run and did not hold at its start, a step of the
run has brought about. -/
theorem origin {P : σ → Prop} {s s' : σ} {l : List (σ × ε × σ)} (h : Trace step s l s')
    (hs : ¬ P s) (hs' : P s') : ∃ x ∈ l, step x.1 x.2.1 x.2.2 ∧ ¬ P x.1 ∧ P x.2.2 := by
  induction h with
  | nil => exact absurd hs' hs
  | @snoc t t' e l _ hlast ih =>
    by_cases ht : P t
    · obtain ⟨x, hx, hstep⟩ := ih ht
      exact ⟨x, List.mem_append_left _ hx, hstep⟩
    · exact ⟨(t, e, t'), List.mem_append_right _ (List.mem_singleton.2 rfl), hlast, ht, hs'⟩

/-- If a step out of an invariant shows a property only under a condition, and
keeps the invariant under the condition, then all states that a run reaches
show the property exactly if all of its steps meet the condition. -/
theorem forall_states_iff_of {I P : σ → Prop} {C : σ × ε × σ → Prop} {s s' : σ}
    {l : List (σ × ε × σ)} (h : Trace step s l s')
    (hstep : ∀ x ∈ l, step x.1 x.2.1 x.2.2 → I x.1 → (P x.2.2 → C x) ∧ (C x → I x.2.2))
    (hIP : ∀ s, I s → P s) (hs : I s) : (∀ x ∈ l, P x.2.2) ↔ ∀ x ∈ l, C x := by
  suffices hall : ((∀ x ∈ l, P x.2.2) ↔ ∀ x ∈ l, C x) ∧ ((∀ x ∈ l, C x) → I s') from hall.1
  induction h with
  | nil => exact ⟨by simp, fun _ => hs⟩
  | @snoc t t' e l _ hlast ih =>
    obtain ⟨hiff, hend⟩ := ih fun x hx => hstep x (List.mem_append_left _ hx)
    have hlast' := hstep _ (List.mem_append_right _ (List.mem_singleton.2 rfl)) hlast
    rw [List.forall_mem_append, List.forall_mem_append, List.forall_mem_singleton,
      List.forall_mem_singleton]
    refine ⟨⟨fun hP => ?_, fun hC => ?_⟩, fun hC => (hlast' (hend hC.1)).2 hC.2⟩
    · have hC := hiff.1 hP.1
      exact ⟨hC, (hlast' (hend hC)).1 hP.2⟩
    · exact ⟨hiff.2 hC.1, hIP _ ((hlast' (hend hC.1)).2 hC.2)⟩

/-- If a step keeps an invariant exactly under a condition, a run does so
exactly if all of its steps meet the condition. -/
theorem forall_states_iff {I : σ → Prop} {C : σ × ε × σ → Prop} {s s' : σ} {l : List (σ × ε × σ)}
    (h : Trace step s l s')
    (hstep : ∀ x ∈ l, step x.1 x.2.1 x.2.2 → I x.1 → (I x.2.2 ↔ C x)) (hs : I s) :
    (∀ x ∈ l, I x.2.2) ↔ ∀ x ∈ l, C x :=
  h.forall_states_iff_of (fun x hx hx' hI => ⟨(hstep x hx hx' hI).1, (hstep x hx hx' hI).2⟩)
    (fun _ hI => hI) hs

/-- So it is for a property that looks back at the steps of the run. -/
theorem forall_histories_iff {I P : List (σ × ε × σ) → σ → Prop} {C : σ × ε × σ → Prop} {s s' : σ}
    {l : List (σ × ε × σ)} (h : Trace step s l s')
    (hstep : ∀ l t e t', step t e t' → I l t →
      (P (l ++ [(t, e, t')]) t' → C (t, e, t')) ∧ (C (t, e, t') → I (l ++ [(t, e, t')]) t'))
    (hIP : ∀ l s, I l s → P l s) (hs : I [] s) :
    (∀ l₁ x l₂, l = l₁ ++ x :: l₂ → P (l₁ ++ [x]) x.2.2) ↔ ∀ x ∈ l, C x := by
  suffices hall : ((∀ l₁ x l₂, l = l₁ ++ x :: l₂ → P (l₁ ++ [x]) x.2.2) ↔ ∀ x ∈ l, C x) ∧
      ((∀ x ∈ l, C x) → I l s') from hall.1
  induction h with
  | nil => exact ⟨by simp, fun _ => hs⟩
  | @snoc t t' e l _ hlast ih =>
    obtain ⟨hiff, hend⟩ := ih
    rw [List.forall_mem_append, List.forall_mem_singleton]
    refine ⟨⟨fun hP => ?_, fun hC l₁ x l₂ hl => ?_⟩, fun hC => (hstep l _ _ _ hlast (hend hC.1)).2 hC.2⟩
    · have hC : ∀ x ∈ l, C x := by
        refine hiff.1 fun l₁ x l₂ hl => hP l₁ x (l₂ ++ [(t, e, t')]) ?_
        rw [hl, List.append_assoc, List.cons_append]
      exact ⟨hC, (hstep l _ _ _ hlast (hend hC)).1 (hP l _ [] rfl)⟩
    · rcases l₂.eq_nil_or_concat with rfl | ⟨l₂, y, rfl⟩
      · obtain ⟨rfl, hx⟩ := List.append_inj' hl rfl
        cases hx
        exact hIP _ _ ((hstep _ _ _ _ hlast (hend hC.1)).2 hC.2)
      · refine hiff.2 hC.1 l₁ x l₂ ?_
        rw [List.concat_eq_append, ← List.cons_append, ← List.append_assoc] at hl
        exact List.append_inj_left' hl rfl

theorem eq_of_nil {s s' : σ} (h : Trace step s [] s') : s' = s := by
  generalize hl : ([] : List (σ × ε × σ)) = l at h
  cases h with
  | nil => rfl
  | @snoc _ _ _ l => exact absurd hl.symm (List.append_ne_nil_of_right_ne_nil l (List.cons_ne_nil _ _))

/-- The last step of a run, and the run before it. -/
theorem of_concat {s s' : σ} {x : σ × ε × σ} {l : List (σ × ε × σ)} (h : Trace step s (l ++ [x]) s') :
    Trace step s l x.1 ∧ step x.1 x.2.1 x.2.2 ∧ x.2.2 = s' := by
  generalize hl : l ++ [x] = l' at h
  cases h with
  | nil => exact absurd hl (List.append_ne_nil_of_right_ne_nil l (List.cons_ne_nil _ _))
  | snoc hinit hlast =>
    obtain ⟨rfl, hx⟩ := List.append_inj' hl rfl
    cases hx
    exact ⟨hinit, hlast, rfl⟩

/-- A run is cut in two in any of the states that it reaches. -/
theorem of_append {s s' : σ} {l₁ l₂ : List (σ × ε × σ)} (h : Trace step s (l₁ ++ l₂) s') :
    ∃ t, Trace step s l₁ t ∧ Trace step t l₂ s' := by
  generalize hl : l₁ ++ l₂ = l at h
  induction h generalizing l₂ with
  | nil =>
    obtain ⟨rfl, rfl⟩ := List.append_eq_nil_iff.1 hl
    exact ⟨s, .nil, .nil⟩
  | @snoc t t' e l hprefix hlast ih =>
    rcases l₂.eq_nil_or_concat with rfl | ⟨l₂, x, rfl⟩
    · rw [List.append_nil] at hl
      exact ⟨t', hl ▸ .snoc hprefix hlast, .nil⟩
    · rw [List.concat_eq_append, ← List.append_assoc] at hl
      obtain ⟨hinit, hx⟩ := List.append_inj' hl rfl
      cases hx
      obtain ⟨u, h₁, h₂⟩ := ih hinit
      exact ⟨u, h₁, List.concat_eq_append ▸ .snoc h₂ hlast⟩

/-- A run that goes on where another has ended. -/
theorem append {s t s' : σ} {l₁ l₂ : List (σ × ε × σ)} (h : Trace step s l₁ t)
    (h' : Trace step t l₂ s') : Trace step s (l₁ ++ l₂) s' := by
  induction h' with
  | nil => exact (List.append_nil l₁).symm ▸ h
  | snoc _ hlast ih => exact List.append_assoc l₁ _ _ ▸ .snoc ih hlast

/-- The first step of a run, and the run that follows it. -/
theorem of_cons {s s' : σ} {x : σ × ε × σ} {l : List (σ × ε × σ)} (h : Trace step s (x :: l) s') :
    x.1 = s ∧ step x.1 x.2.1 x.2.2 ∧ Trace step x.2.2 l s' := by
  rw [← List.singleton_append] at h
  obtain ⟨t, hfirst, hrest⟩ := h.of_append
  obtain ⟨hnil, hstep, rfl⟩ := of_concat (l := []) hfirst
  exact ⟨hnil.eq_of_nil, hstep, hrest⟩

end Trace

end Async
