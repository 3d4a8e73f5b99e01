import Damaru.Async.Pool

/-!
# Requests that read and then write

A request looks at a part of the state, computes, and writes what it computed,
and other requests may write in between. A `Turn` is the label of such a
request: it holds what the request saw. If no request writes in a state other
than the one it saw, the run amounts to a serial one: the part of the state
goes through the effects of the requests, each as a whole.
-/

namespace Async.Pool

variable {ρ ν ι σ ε : Type}

/-- One effect after another. -/
inductive Serial (effect : ρ → ν → ν → Prop) (v : ν) : List ρ → ν → Prop
  | nil : Serial effect v [] v
  | snoc {l : List ρ} {r : ρ} {v' v'' : ν} :
      Serial effect v l v' → effect r v' v'' → Serial effect v (l ++ [r]) v''

/-- What every effect preserves, a serial run preserves. -/
theorem Serial.invariant {effect : ρ → ν → ν → Prop} {I : ν → Prop} {v v' : ν} {l : List ρ}
    (h : Serial effect v l v') (heffect : ∀ r ∈ l, ∀ v v', effect r v v' → I v → I v') (hv : I v) :
    I v' := by
  induction h with
  | nil => exact hv
  | snoc _ hlast ih =>
    refine heffect _ (List.mem_append_right _ (List.mem_singleton.2 rfl)) _ _ hlast ?_
    exact ih fun r hr => heffect r (List.mem_append_left _ hr)

/-- A request on its way: how many steps it has taken, and what it saw before
the first of them. -/
structure Turn (ρ ν : Type) where
  request : ρ
  taken : Nat
  seen : ν

namespace Turn

def next (view : σ → ν) (k : Turn ρ ν) (s : σ) : Turn ρ ν :=
  ⟨k.request, k.taken + 1, if k.taken = 0 then view s else k.seen⟩

/-- If the step is the one that writes, what it is to write over is what the
request saw. -/
def Undisturbed (view : σ → ν) (writes : ρ → Option Nat) (k : Turn ρ ν) (s : σ) : Prop :=
  writes k.request = some k.taken → view s = k.seen

instance [DecidableEq ν] (view : σ → ν) (writes : ρ → Option Nat) (k : Turn ρ ν) (s : σ) :
    Decidable (k.Undisturbed view writes s) :=
  inferInstanceAs (Decidable (_ → _))

end Turn

/-- The requests that have come to their end. -/
def ended (ts : Pool (Turn ρ ν) ι σ ε) : List ρ :=
  (ts.filter fun th => isEnded th.2).map fun th => th.1.request

theorem ended_append (ts ts' : Pool (Turn ρ ν) ι σ ε) : ended (ts ++ ts') = ended ts ++ ended ts' := by
  unfold ended
  rw [List.filter_append, List.map_append]

theorem ended_cons_await {k : Turn ρ ν} {u : ι → σ → σ} {n : ι → σ → Task ι σ ε}
    {ts : Pool (Turn ρ ν) ι σ ε} : ended ((k, .await u n) :: ts) = ended ts := rfl

theorem ended_cons_ended {k : Turn ρ ν} {t : Task ι σ ε} {ts : Pool (Turn ρ ν) ι σ ε}
    (ht : isEnded t = true) : ended ((k, t) :: ts) = k.request :: ended ts := by
  simp [ended, ht]

/-- Once all have come to their end, these are all requests. -/
theorem ended_of_finished {allowed : ε → Prop} {ts : Pool (Turn ρ ν) ι σ ε} (h : Finished allowed ts) :
    ended ts = ts.map fun th => th.1.request := by
  unfold ended
  rw [List.filter_eq_self.2]
  intro th hth
  rcases h th hth with hdone | ⟨e, -, hfail⟩
  · rw [hdone]
    rfl
  · rw [hfail]
    rfl

theorem spawn_of_isEnded {t : Task ι σ ε} (h : isEnded t = true) : t.spawn = [t] := by
  cases t with
  | done => rfl
  | fail e => rfl
  | _ => cases h

section Serialises

variable {view : σ → ν} {writes : ρ → Option Nat} {I : σ → Prop}
  {stage : Turn ρ ν → Task ι σ ε → Prop}

/-- **Undisturbed runs are serial.** If a step out of a stage either goes on to
a stage and leaves the view, or ends the request by its effect on the view,
then an undisturbed run of requests is a serial run of those that have ended. -/
theorem Runs.serial (effect : ρ → ν → ν → Prop)
    (hstep : ∀ k u n x s, I s → stage k (.await u n) → k.Undisturbed view writes s →
      I (u x s) ∧
        ((view (u x s) = view s ∧ ∃ u' n', n x s = .await u' n' ∧ stage (k.next view s) (.await u' n')) ∨
          (isEnded (n x s) = true ∧ effect k.request (view s) (view (u x s)))))
    {ts ts' : Pool (Turn ρ ν) ι σ ε} {s s' : σ}
    (hrun : Runs (Turn.next view) (fun _ k s => k.Undisturbed view writes s) ts s ts' s') (hs : I s)
    (hts : ∀ th ∈ ts, isEnded th.2 = true ∨ stage th.1 th.2) :
    I s' ∧ (ts'.map fun th => th.1.request) = (ts.map fun th => th.1.request) ∧
      ∃ l, Serial effect (view s) l (view s') ∧ (ended ts').Perm (ended ts ++ l) := by
  suffices hmain : ∀ v l₀, Serial effect v l₀ (view s) → I s' ∧
      (ts'.map fun th => th.1.request) = (ts.map fun th => th.1.request) ∧
      ∃ l, Serial effect v (l₀ ++ l) (view s') ∧ (ended ts').Perm (ended ts ++ l) by
    simpa using hmain (view s) [] .nil
  induction hrun with
  | refl ts s =>
    intro v l₀ hserial
    exact ⟨hs, rfl, [], by rwa [List.append_nil], by rw [List.append_nil]⟩
  | @step before after ts k u n s s' x hok _ ih =>
    intro v l₀ hserial
    have hstage : stage k (.await u n) := by
      rcases hts (k, .await u n) (by simp) with hended | hstage
      · cases hended
      · exact hstage
    obtain ⟨hs', hgoes⟩ := hstep k u n x s hs hstage hok
    -- either way the thread becomes one thread
    obtain ⟨hspawn, hnext⟩ : (n x s).spawn = [n x s] ∧
        (isEnded (n x s) = true ∨ stage (k.next view s) (n x s)) := by
      rcases hgoes with ⟨-, u', n', hn, hstage'⟩ | ⟨hended, -⟩
      · rw [hn]
        exact ⟨rfl, .inr hstage'⟩
      · exact ⟨spawn_of_isEnded hended, .inl hended⟩
    have hthreads : threads (k.next view s) (n x s) = [(k.next view s, n x s)] := by
      unfold threads
      rw [hspawn]
      rfl
    rw [hthreads] at ih
    replace ih := ih hs' (by
      intro th hth
      rcases List.mem_append.1 hth with hth | hth
      · exact hts th (List.mem_append_left _ hth)
      · rcases List.mem_cons.1 hth with rfl | hth
        · exact hnext
        · exact hts th (List.mem_append_right _ (List.mem_cons_of_mem _ hth))) v
    rw [List.map_append, List.map_append, List.map_singleton] at ih
    rw [List.map_append, List.map_cons, ended_append, ended_cons_await]
    rcases hgoes with ⟨hview, u', n', hn, -⟩ | ⟨hended, heffect⟩
    · obtain ⟨hI, hrequests, l, hl, hperm⟩ := ih l₀ (hview ▸ hserial)
      rw [hn, ended_append, List.singleton_append, ended_cons_await] at hperm
      exact ⟨hI, hrequests, l, hl, hperm⟩
    · obtain ⟨hI, hrequests, l, hl, hperm⟩ := ih (l₀ ++ [k.request]) (hserial.snoc heffect)
      refine ⟨hI, hrequests, k.request :: l, by rwa [List.append_assoc] at hl, hperm.trans ?_⟩
      rw [ended_append, List.singleton_append, ended_cons_ended hended]
      refine (List.perm_middle.append_right l).trans ?_
      rw [List.cons_append]
      exact List.perm_middle.symm

end Serialises

end Async.Pool
