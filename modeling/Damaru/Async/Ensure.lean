import Damaru.Async.Points

/-!
# Providing for goals

A program that looks whether something is there and makes it if it is missing,
goal by goal. If each goal is made by one write, which keeps the others, then
running the program again changes nothing, and running it after it has been cut
off ends as if it had not been.
-/

namespace Async

variable {ι σ ε : Type}

/-! ## Programs that write last -/

namespace Prog

variable {α β : Type}

/-- Cut off before its end, the program has changed nothing. -/
def WritesLast (p : Prog ι σ ε α) : Prop :=
  ∀ xs s, (p.stop xs s).1 = none → (p.stop xs s).2 = s

theorem WritesLast.throw {e : ε} : (throw e : Prog ι σ ε α).WritesLast := fun _ _ _ => rfl

theorem WritesLast.op {f : ι → σ → Except ε α × σ} : (op f).WritesLast := by
  intro xs s h
  cases xs with
  | nil => rfl
  | cons x xs =>
    have hstop : (Prog.op f).stop (x :: xs) s = (ofExcept (f x s).1).stop xs (f x s).2 := rfl
    rw [hstop] at h
    cases hf : (f x s).1 with
    | ok a =>
      rw [hf] at h
      cases h
    | error e =>
      rw [hf] at h
      cases h

theorem WritesLast.bind_pure {p : Prog ι σ ε α} (hp : p.WritesLast) {f : α → β} :
    (p >>= fun a => Pure.pure (f a)).WritesLast := by
  intro xs s h
  rcases stop_bind_cases p (fun a => Pure.pure (f a)) xs s with
    ⟨hcut, heq⟩ | ⟨e, t, -, heq⟩ | ⟨a, t, xs', -, heq⟩
  · rw [heq]
    exact hp xs s hcut
  · rw [heq] at h
    cases h
  · rw [heq] at h
    cases h

/-- Reading first, and then writing last. -/
theorem WritesLast.read_bind {f : ι → σ → Except ε α} {g : α → Prog ι σ ε β}
    (hg : ∀ a, (g a).WritesLast) : (Prog.op (fun x s => (f x s, s)) >>= g).WritesLast := by
  intro xs s h
  cases xs with
  | nil => rfl
  | cons x xs =>
    rw [stop_op_bind] at h ⊢
    cases hf : f x s with
    | ok a =>
      rw [hf] at h
      exact hg a xs s h
    | error e => rfl

theorem WritesLast.within {ρ : Type} {P : Part ρ σ} {p : Prog ι σ ε α} (hp : p.WritesLast) :
    (p.within P).WritesLast := by
  intro xs s h
  rw [stop_within] at h ⊢
  rw [hp xs (P.get s) h]
  exact P.put_get s

end Prog

/-! ## Goals -/

/-- What is to be there, and how it is made if it is not. -/
structure Goal (ι σ ε : Type) where
  present : σ → Bool
  make : Prog ι σ ε Unit

namespace Goal

def ensure (g : Goal ι σ ε) : Prog ι σ ε Unit := do
  let found ← Prog.op fun _ s => (.ok (g.present s), s)
  if found then pure () else g.make

def ensureAll : List (Goal ι σ ε) → Prog ι σ ε Unit
  | [] => pure ()
  | g :: gs => g.ensure >>= fun _ => ensureAll gs

open Prog

/-- The goals are made by one write each, which is the last step and keeps the
other goals; and in one state either no attempt is rejected or all are. -/
structure Lawful (gs : List (Goal ι σ ε)) : Prop where
  last : ∀ g ∈ gs, g.make.WritesLast
  made : ∀ g ∈ gs, ∀ s s', g.make.Ends s (.ok ()) s' → g.present s' = true
  rejected : ∀ g ∈ gs, ∀ s e s', g.make.Ends s (.error e) s' → s' = s
  keeps : ∀ g ∈ gs, ∀ h ∈ gs, ∀ s r s', g.make.Ends s r s' → h.present s = true → h.present s' = true
  decided : ∀ g ∈ gs, ∀ s e s' s'', g.present s = false → g.make.Ends s (.error e) s' →
    ¬ g.make.Ends s (.ok ()) s''

variable {g : Goal ι σ ε} {gs l l₁ l₂ : List (Goal ι σ ε)} {s s' s'' : σ} {r r' : Except ε Unit}

/-- The lookup may answer with what it has found. -/
theorem ensure_eq {β : Type} {find : ι → σ → Option β} (h : ∀ x s, (find x s).isSome = g.present s) :
    (op (fun x s => (.ok (find x s), s)) >>= fun found =>
      if found.isNone then g.make else Pure.pure ()) = g.ensure := by
  unfold ensure
  show Prog.await _ _ = Prog.await _ _
  congr 1
  funext x s
  show (if (find x s).isNone = true then g.make else Pure.pure ()) =
    if g.present s = true then Pure.pure () else g.make
  rw [← h x s]
  cases find x s <;> rfl

theorem ends_ensure [Inhabited ι] : g.ensure.Ends s r s' ↔
    (g.present s = true ∧ r = .ok () ∧ s' = s) ∨ (g.present s = false ∧ g.make.Ends s r s') := by
  unfold ensure
  rw [ends_bind]
  simp only [ends_op, Prod.mk.injEq]
  constructor
  · rintro (⟨e, -, x, he, -⟩ | ⟨found, t, ⟨x, hfound, rfl⟩, hend⟩)
    · cases he
    · cases hfound
      cases hp : g.present s with
      | true =>
        rw [hp, if_pos rfl] at hend
        exact .inl ⟨rfl, ends_pure.1 hend⟩
      | false =>
        rw [hp, if_neg Bool.false_ne_true] at hend
        exact .inr ⟨rfl, hend⟩
  · rintro (⟨hp, rfl, rfl⟩ | ⟨hp, hend⟩)
    · refine .inr ⟨true, s', ⟨default, by rw [hp], rfl⟩, ?_⟩
      rw [if_pos rfl]
      exact .pure _ _
    · refine .inr ⟨false, s, ⟨default, by rw [hp], rfl⟩, ?_⟩
      rwa [if_neg Bool.false_ne_true]

@[simp] theorem ends_ensureAll_nil : (ensureAll (ι := ι) (ε := ε) []).Ends s r s' ↔
    r = .ok () ∧ s' = s := ends_pure

/-- The first goal is there or is made, and the others follow; or making it is
rejected. -/
theorem ends_ensureAll_cons [Inhabited ι] : (ensureAll (g :: gs)).Ends s r s' ↔
    (g.present s = true ∧ (ensureAll gs).Ends s r s') ∨
      (g.present s = false ∧ ∃ t, g.make.Ends s (.ok ()) t ∧ (ensureAll gs).Ends t r s') ∨
      (g.present s = false ∧ ∃ e, r = .error e ∧ g.make.Ends s (.error e) s') := by
  rw [ensureAll, ends_bind]
  simp only [ends_ensure]
  constructor
  · rintro (⟨e, rfl, ⟨-, he, -⟩ | ⟨hp, hend⟩⟩ | ⟨⟨⟩, t, ⟨hp, -, rfl⟩ | ⟨hp, hend⟩, hrest⟩)
    · cases he
    · exact .inr (.inr ⟨hp, e, rfl, hend⟩)
    · exact .inl ⟨hp, hrest⟩
    · exact .inr (.inl ⟨hp, t, hend, hrest⟩)
  · rintro (⟨hp, hrest⟩ | ⟨hp, t, hend, hrest⟩ | ⟨hp, e, rfl, hend⟩)
    · exact .inr ⟨(), s, .inl ⟨hp, trivial, rfl⟩, hrest⟩
    · exact .inr ⟨(), t, .inr ⟨hp, hend⟩, hrest⟩
    · exact .inl ⟨e, rfl, .inr ⟨hp, hend⟩⟩

theorem forkFree_ensureAll (h : ∀ g ∈ gs, g.make.ForkFree) : (ensureAll gs).ForkFree := by
  induction gs with
  | nil => exact trivial
  | cons g gs ih =>
    rw [List.forall_mem_cons] at h
    refine ForkFree.bind (ForkFree.bind forkFree_op fun found => ?_) fun _ => ih h.2
    cases found with
    | true => exact trivial
    | false => exact h.1

/-- Providing for goals that are all there is no more than looking. -/
theorem ends_append_of_present [Inhabited ι] (h : ∀ g ∈ l₁, g.present s = true) :
    (ensureAll (l₁ ++ l₂)).Ends s r s' ↔ (ensureAll l₂).Ends s r s' := by
  induction l₁ with
  | nil => rfl
  | cons g l ih =>
    have hg := h g List.mem_cons_self
    rw [List.cons_append, ends_ensureAll_cons, ih fun g' hg' => h g' (List.mem_cons_of_mem _ hg')]
    simp [hg]

theorem ends_append_of_ends [Inhabited ι] (h : (ensureAll l₁).Ends s (.ok ()) s')
    (h' : (ensureAll l₂).Ends s' r s'') : (ensureAll (l₁ ++ l₂)).Ends s r s'' := by
  induction l₁ generalizing s with
  | nil =>
    obtain ⟨-, rfl⟩ := ends_ensureAll_nil.1 h
    exact h'
  | cons g l ih =>
    rw [List.cons_append, ends_ensureAll_cons]
    rcases ends_ensureAll_cons.1 h with ⟨hp, h⟩ | ⟨hp, t, hmake, h⟩ | ⟨-, e, he, -⟩
    · exact .inl ⟨hp, ih h⟩
    · exact .inr (.inl ⟨hp, t, hmake, ih h⟩)
    · cases he

namespace Lawful

variable [Inhabited ι] (hgs : Lawful gs)

include hgs

theorem ends_keeps (hl : l ⊆ gs) (hg : g ∈ gs) (h : (ensureAll l).Ends s r s')
    (hp : g.present s = true) : g.present s' = true := by
  induction l generalizing s with
  | nil =>
    obtain ⟨-, rfl⟩ := ends_ensureAll_nil.1 h
    exact hp
  | cons g' l ih =>
    obtain ⟨hg', hl⟩ := List.cons_subset.1 hl
    rcases ends_ensureAll_cons.1 h with ⟨-, h⟩ | ⟨-, t, hmake, h⟩ | ⟨-, e, -, hmake⟩
    · exact ih hl h hp
    · exact ih hl h (hgs.keeps g' hg' g hg _ _ _ hmake hp)
    · exact hgs.keeps g' hg' g hg _ _ _ hmake hp

/-- A run that is not rejected provides for all goals. -/
theorem ends_present (hl : l ⊆ gs) (h : (ensureAll l).Ends s (.ok ()) s') :
    ∀ g ∈ l, g.present s' = true := by
  induction l generalizing s with
  | nil => exact fun g hg => (List.not_mem_nil hg).elim
  | cons g l ih =>
    obtain ⟨hg, hl⟩ := List.cons_subset.1 hl
    rw [List.forall_mem_cons]
    rcases ends_ensureAll_cons.1 h with ⟨hp, h⟩ | ⟨-, t, hmake, h⟩ | ⟨-, e, he, -⟩
    · exact ⟨hgs.ends_keeps hl hg h hp, ih hl h⟩
    · exact ⟨hgs.ends_keeps hl hg h (hgs.made g hg _ _ hmake), ih hl h⟩
    · cases he

/-- **Once more changes nothing.** -/
theorem ends_again (hl : l ⊆ gs) (h : (ensureAll l).Ends s r s') (h' : (ensureAll l).Ends s' r' s'') :
    s'' = s' := by
  induction l generalizing s with
  | nil => exact (ends_ensureAll_nil.1 h').2
  | cons g l ih =>
    obtain ⟨hg, hl⟩ := List.cons_subset.1 hl
    have hrest : ∀ {t}, (ensureAll l).Ends t r s' → g.present s' = true → s'' = s' := by
      intro t ht hp
      rcases ends_ensureAll_cons.1 h' with ⟨-, h'⟩ | ⟨hnot, -⟩ | ⟨hnot, -⟩
      · exact ih hl ht h'
      · rw [hp] at hnot
        cases hnot
      · rw [hp] at hnot
        cases hnot
    rcases ends_ensureAll_cons.1 h with ⟨hp, h⟩ | ⟨-, t, hmake, h⟩ | ⟨hp, e, -, hmake⟩
    · exact hrest h (hgs.ends_keeps hl hg h hp)
    · exact hrest h (hgs.ends_keeps hl hg h (hgs.made g hg _ _ hmake))
    · -- the attempt that was rejected is rejected again
      obtain rfl := hgs.rejected g hg _ _ _ hmake
      rcases ends_ensureAll_cons.1 h' with ⟨hp', -⟩ | ⟨-, t, hmake', -⟩ | ⟨-, e', -, hmake'⟩
      · rw [hp] at hp'
        cases hp'
      · exact (hgs.decided g hg _ _ _ _ hp hmake hmake').elim
      · exact hgs.rejected g hg _ _ _ hmake'

omit [Inhabited ι] in
/-- Cut off before its write, providing for a goal has changed nothing. -/
theorem ensure_stop (hg : g ∈ gs) {xs : List ι} (h : (g.ensure.stop xs s).1 = none) :
    (g.ensure.stop xs s).2 = s := by
  unfold ensure at h ⊢
  cases xs with
  | nil => rfl
  | cons x xs =>
    rw [stop_op_bind] at h ⊢
    dsimp only at h ⊢
    cases hp : g.present s with
    | true =>
      rw [hp, if_pos rfl] at h
      cases h
    | false =>
      rw [hp, if_neg Bool.false_ne_true] at h
      rw [if_neg Bool.false_ne_true]
      exact hgs.last g hg xs s h

/-- Wherever the program is stopped, it has provided for the first goals. -/
theorem stop_prefix (hl : l ⊆ gs) (xs : List ι) (s : σ) :
    ∃ done rest, l = done ++ rest ∧ (ensureAll done).Ends s (.ok ()) ((ensureAll l).stop xs s).2 := by
  induction l generalizing xs s with
  | nil => exact ⟨[], [], rfl, .pure _ _⟩
  | cons g l ih =>
    obtain ⟨hg, hl⟩ := List.cons_subset.1 hl
    have hnone : ∃ done rest, g :: l = done ++ rest ∧ (ensureAll done).Ends s (.ok ()) s :=
      ⟨[], g :: l, rfl, .pure _ _⟩
    have hstop : ∀ {t xs'}, g.ensure.Ends s (.ok ()) t →
        ∃ done rest, g :: l = done ++ rest ∧
          (ensureAll done).Ends s (.ok ()) ((ensureAll l).stop xs' t).2 := by
      intro t xs' ht
      obtain ⟨done, rest, rfl, hdone⟩ := ih hl xs' t
      exact ⟨g :: done, rest, rfl, ends_ok_bind.2 ⟨(), t, ht, hdone⟩⟩
    rcases stop_bind_cases g.ensure (fun _ => ensureAll l) xs s with
      ⟨hcut, heq⟩ | ⟨e, t, hend, heq⟩ | ⟨⟨⟩, t, xs', hend, heq⟩
    · rw [ensureAll, heq, hgs.ensure_stop hg hcut]
      exact hnone
    · rw [ensureAll, heq]
      rcases ends_ensure.1 hend with ⟨-, he, -⟩ | ⟨-, hmake⟩
      · cases he
      · obtain rfl := hgs.rejected g hg _ _ _ hmake
        exact hnone
    · rw [ensureAll, heq]
      exact hstop hend

/-- **A run after a cut** ends as a run that was not cut off can end. -/
theorem ends_after_stop {xs : List ι} (h : (ensureAll gs).Ends ((ensureAll gs).stop xs s).2 r s') :
    (ensureAll gs).Ends s r s' := by
  obtain ⟨done, rest, hsplit, hdone⟩ := hgs.stop_prefix (List.Subset.refl gs) xs s
  have hdone' : done ⊆ gs := hsplit ▸ List.subset_append_left done rest
  generalize ((ensureAll gs).stop xs s).2 = t at h hdone
  rw [hsplit, ends_append_of_present (hgs.ends_present hdone' hdone)] at h
  rw [hsplit]
  exact ends_append_of_ends hdone h

end Lawful

/-- What making any goal satisfies, providing for them satisfies. -/
theorem ends_relates [Inhabited ι] {R : σ → σ → Prop} (hrefl : ∀ s, R s s)
    (htrans : ∀ a b c, R a b → R b c → R a c) (hmake : ∀ g ∈ gs, ∀ s r s', g.make.Ends s r s' → R s s')
    (h : (ensureAll gs).Ends s r s') : R s s' := by
  induction gs generalizing s with
  | nil =>
    obtain ⟨-, rfl⟩ := ends_ensureAll_nil.1 h
    exact hrefl s'
  | cons g gs ih =>
    rw [List.forall_mem_cons] at hmake
    rcases ends_ensureAll_cons.1 h with ⟨-, h⟩ | ⟨-, t, ht, h⟩ | ⟨-, e, -, h⟩
    · exact ih hmake.2 h
    · exact htrans _ _ _ (hmake.1 _ _ _ ht) (ih hmake.2 h)
    · exact hmake.1 _ _ _ h

/-- Two states in which the same goals are there, and in which making one keeps
the likeness: providing for the goals keeps it. -/
theorem ends_alike [Inhabited ι] {R : σ → σ → Prop}
    (hpresent : ∀ g ∈ gs, ∀ a b, R a b → g.present a = g.present b)
    (hmake : ∀ g ∈ gs, ∀ a b r r' a' b', R a b → g.present a = false → g.present b = false →
      g.make.Ends a r a' → g.make.Ends b r' b' → R a' b' ∧ (r = .ok () ↔ r' = .ok ()))
    {a b a' b' : σ} (hR : R a b) (ha : (ensureAll gs).Ends a r a') (hb : (ensureAll gs).Ends b r' b') :
    R a' b' := by
  induction gs generalizing a b with
  | nil =>
    obtain ⟨-, rfl⟩ := ends_ensureAll_nil.1 ha
    obtain ⟨-, rfl⟩ := ends_ensureAll_nil.1 hb
    exact hR
  | cons g gs ih =>
    rw [List.forall_mem_cons] at hpresent hmake
    have hp := hpresent.1 a b hR
    rcases ends_ensureAll_cons.1 ha with ⟨hpa, ha⟩ | ⟨hpa, ta, hta, ha⟩ | ⟨hpa, e, -, hta⟩ <;>
      rcases ends_ensureAll_cons.1 hb with ⟨hpb, hb⟩ | ⟨hpb, tb, htb, hb⟩ | ⟨hpb, e', -, htb⟩
    · exact ih hpresent.2 hmake.2 hR ha hb
    · simp [hpa, hpb] at hp
    · simp [hpa, hpb] at hp
    · simp [hpa, hpb] at hp
    · exact ih hpresent.2 hmake.2 (hmake.1 _ _ _ _ _ _ hR hpa hpb hta htb).1 ha hb
    · exact absurd ((hmake.1 _ _ _ _ _ _ hR hpa hpb hta htb).2.1 rfl) (by simp)
    · simp [hpa, hpb] at hp
    · exact absurd ((hmake.1 _ _ _ _ _ _ hR hpa hpb hta htb).2.2 rfl) (by simp)
    · exact (hmake.1 _ _ _ _ _ _ hR hpa hpb hta htb).1

end Goal

end Async
