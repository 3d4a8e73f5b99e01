import Damaru.Common.Utils
import Damaru.Repository

/-!
# One step of a thread

What a thread that stands at a query or at a statement can become, once for
every program that goes on with the answer.
-/

namespace Damaru

open Async Table

section Steps

variable {α β : Type} {g : α → Svc β} {u : Ext → Server → Server}
  {n : Ext → Server → Task Ext Server Rejection}

/-- How a thread goes on with the answer of an awaited call. -/
theorem toTask_bind_op {f : Ext → Server → Except Rejection α × Server}
    (h : (Prog.op f >>= g).toTask = .await u n) (x : Ext) (s : Server) :
    u x s = (f x s).2 ∧ n x s = (Prog.ofExcept (f x s).1 >>= g).toTask := by
  have heq : (Prog.op f >>= g).toTask =
    .await (fun x s => (f x s).2) fun x s => (Prog.ofExcept (f x s).1 >>= g).toTask := rfl
  rw [heq] at h
  obtain ⟨rfl, rfl⟩ := Task.await.inj h
  exact ⟨rfl, rfl⟩

theorem query_step {f : Ext → Server → Except Rejection α}
    (h : (query f >>= g).toTask = .await u n) (x : Ext) (s : Server) :
    u x s = s ∧ ((∃ a, f x s = .ok a ∧ n x s = (g a).toTask) ∨
      ∃ e, f x s = .error e ∧ n x s = .fail e) := by
  obtain ⟨hu, hn⟩ := toTask_bind_op h x s
  refine ⟨hu, ?_⟩
  cases hf : f x s with
  | ok a =>
    rw [hf] at hn
    exact .inl ⟨a, rfl, hn⟩
  | error e =>
    rw [hf] at hn
    exact .inr ⟨e, rfl, hn⟩

theorem statement_step {f : Ext → Server → Except Rejection (α × Tables)}
    (h : (statement f >>= g).toTask = .await u n) (x : Ext) (s : Server) :
    (∃ a t, f x s = .ok (a, t) ∧ n x s = (g a).toTask ∧ ∃ h : t.Integrity, u x s = s.commit t h) ∨
      (u x s = s ∧ ∃ e, n x s = .fail e ∧ (f x s = .error e ∨ e = .query)) := by
  obtain ⟨hu, hn⟩ := toTask_bind_op h x s
  cases hf : f x s with
  | error e =>
    rw [hf] at hu hn
    exact .inr ⟨hu, e, hn, .inl rfl⟩
  | ok o =>
    obtain ⟨a, t⟩ := o
    rw [hf] at hu hn
    by_cases ht : t.Integrity
    · simp only [dif_pos ht] at hu hn
      exact .inl ⟨a, t, rfl, hn, ht, hu⟩
    · simp only [dif_neg ht] at hu hn
      exact .inr ⟨hu, .query, hn, .inr rfl⟩

end Steps

namespace Repository

variable {α β : Type} {repo : Repository α} {u : Ext → Server → Server}
  {n : Ext → Server → Task Ext Server Rejection}

theorem findRow_step {p : Tables → α → Bool} {g : Option α → Svc β}
    (h : (repo.findRow p >>= g).toTask = .await u n) (x : Ext) (s : Server) :
    u x s = s ∧ n x s = (g (repo.scan p x s.tables).head?).toTask := by
  obtain ⟨hu, ⟨a, ha, hn⟩ | ⟨e, he, -⟩⟩ := query_step h x s
  · rw [Option.map_id'] at ha
    cases ha
    exact ⟨hu, hn⟩
  · cases he

theorem findReadable_step {readable : Server → Bool} {p : Tables → α → Bool} {g : Option α → Svc β}
    (h : (repo.findReadable readable p >>= g).toTask = .await u n) (x : Ext) (s : Server) :
    u x s = s ∧ ((readable s = true ∧ n x s = (g (repo.scan p x s.tables).head?).toTask) ∨
      (readable s = false ∧ ∃ e, n x s = .fail e)) := by
  obtain ⟨hu, hn⟩ := query_step h x s
  refine ⟨hu, ?_⟩
  cases hreads : readable s with
  | true =>
    rw [hreads] at hn
    obtain ⟨a, ha, hn⟩ | ⟨e, he, -⟩ := hn
    · cases ha
      exact .inl ⟨rfl, hn⟩
    · cases he
  | false =>
    rw [hreads] at hn
    obtain ⟨a, ha, -⟩ | ⟨e, -, hn⟩ := hn
    · cases ha
    · exact .inr ⟨rfl, e, hn⟩

theorem insert_step {values : Ext → Server → Except Rejection α} {g : String → Svc β}
    (h : (repo.insert values >>= g).toTask = .await u n) (x : Ext) (s : Server) :
    (∃ a, values x s = .ok a ∧ n x s = (g (repo.key a)).toTask ∧
      ∃ h, u x s = s.commit (repo.put (repo.rows s.tables ++ [a]) s.tables) h) ∨
      (u x s = s ∧ ∃ e, n x s = .fail e ∧ (values x s = .error e ∨ e = .query)) := by
  rcases statement_step h x s with ⟨k, t, hf, hn, ht, hu⟩ | ⟨hu, e, hn, he⟩
  · cases hv : values x s with
    | error e => rw [hv] at hf; cases hf
    | ok a =>
      rw [hv] at hf
      cases hf
      exact .inl ⟨a, rfl, hn, ht, hu⟩
  · refine .inr ⟨hu, e, hn, he.imp_left fun he => ?_⟩
    cases hv : values x s with
    | error e' => rw [hv] at he; exact congrArg Except.error (Except.error.inj he)
    | ok a => rw [hv] at he; cases he

/-- An insert of a given row: committed if the tables keep their constraints. -/
theorem insert_row_step {a : α} {g : String → Svc β}
    (h : ((repo.insert fun _ _ => .ok a) >>= g).toTask = .await u n) (x : Ext) (s : Server) :
    (∃ hi : (repo.put (repo.rows s.tables ++ [a]) s.tables).Integrity,
      u x s = s.commit _ hi ∧ n x s = (g (repo.key a)).toTask) ∨
      (¬ (repo.put (repo.rows s.tables ++ [a]) s.tables).Integrity ∧ u x s = s ∧
        n x s = .fail .query) := by
  obtain ⟨hu, hn⟩ := toTask_bind_op h x s
  by_cases hi : (repo.put (repo.rows s.tables ++ [a]) s.tables).Integrity
  · simp only [dif_pos hi] at hu hn
    exact .inl ⟨hi, hu, hn⟩
  · simp only [dif_neg hi] at hu hn
    exact .inr ⟨hi, hu, hn⟩

/-- An update is refused for its criterion, or commits unless it violates a
constraint. -/
theorem set_criterion_step {criterion : JsVal} {f : Ext → α → α} {g : Nat → Svc β}
    (h : (repo.set criterion f >>= g).toTask = .await u n) (x : Ext) (s : Server) :
    (emptyCriterion criterion = true ∧ u x s = s ∧ ∃ e, n x s = .fail e) ∨
      (emptyCriterion criterion = false ∧ ∀ hi : (repo.put (updateWhere
          (fun a => selected x criterion (repo.key a)) (f x) (repo.rows s.tables)) s.tables).Integrity,
        u x s = s.commit _ hi ∧ ∃ c, n x s = (g c).toTask) := by
  obtain ⟨hu, hn⟩ := toTask_bind_op h x s
  by_cases hk : emptyCriterion criterion = true
  · simp only [hk, if_true] at hu hn
    exact .inl ⟨hk, hu, _, hn⟩
  · have hk' : emptyCriterion criterion = false := Bool.eq_false_iff.2 hk
    refine .inr ⟨hk', fun hi => ?_⟩
    simp only [hk', Bool.false_eq_true, if_false, dif_pos hi] at hu hn
    exact ⟨hu, _, hn⟩

/-- An update whose values are refused. -/
theorem update_error_step {criterion : JsVal} {e : Rejection} {g : Nat → Svc β}
    (h : (repo.update criterion (fun _ _ => .error e) >>= g).toTask = .await u n) (x : Ext) (s : Server) :
    u x s = s ∧ ∃ e, n x s = .fail e := by
  rcases statement_step h x s with ⟨k, t, hf, -⟩ | ⟨hu, e, hn, -⟩
  · split at hf <;> cases hf
  · exact ⟨hu, e, hn⟩

/-- An update by a key that is not empty. -/
theorem set_step {k : String} {f : Ext → α → α} {g : Nat → Svc β}
    (h : (repo.set (some (.str k)) f >>= g).toTask = .await u n) (x : Ext) (s : Server) :
    (∃ c, n x s = (g c).toTask ∧ ∃ h, u x s = s.commit
      (repo.put (updateWhere (fun a => decide (repo.key a = k)) (f x) (repo.rows s.tables)) s.tables) h) ∨
      (u x s = s ∧ ∃ e, n x s = .fail e ∧ ¬ e.Explicit) := by
  rcases statement_step h x s with ⟨c, t, hf, hn, ht, hu⟩ | ⟨hu, e, hn, he⟩
  · by_cases hk : emptyCriterion (some (.str k)) = true
    · rw [if_pos hk] at hf; cases hf
    · rw [if_neg hk] at hf
      cases hf
      exact .inl ⟨_, hn, ht, hu⟩
  · refine .inr ⟨hu, e, hn, ?_⟩
    rcases he with he | rfl
    · by_cases hk : emptyCriterion (some (.str k)) = true
      · rw [if_pos hk] at he
        cases he
        exact not_false
      · rw [if_neg hk] at he; cases he
    · exact not_false

theorem write_step {k : String} {f : α → α} {g : Unit → Svc β}
    (h : (repo.write k f >>= g).toTask = .await u n) (x : Ext) (s : Server)
    (hi : (repo.put (updateWhere (fun a => decide (repo.key a = k)) f (repo.rows s.tables))
      s.tables).Integrity) : u x s = s.commit _ hi ∧ n x s = (g ()).toTask := by
  obtain ⟨hu, hn⟩ := toTask_bind_op h x s
  simp only [dif_pos hi] at hu hn
  exact ⟨hu, hn⟩

theorem delete_step {p : α → Bool} {g : Unit → Svc β}
    (h : (repo.delete p >>= g).toTask = .await u n) (x : Ext) (s : Server) :
    (n x s = (g ()).toTask ∧ ∃ h, u x s = s.commit
      (repo.put ((repo.rows s.tables).filter fun a => !p a) s.tables).cascade h) ∨
      (u x s = s ∧ n x s = .fail .query) := by
  rcases statement_step h x s with ⟨c, t, hf, hn, ht, hu⟩ | ⟨hu, e, hn, he | rfl⟩
  · cases hf
    exact .inl ⟨hn, ht, hu⟩
  · cases he
  · exact .inr ⟨hu, hn⟩

end Repository

end Damaru
