import Damaru.Async.Points
import Damaru.Common.Utils
import Damaru.Repository

/-!
# What a call can come to

The rules of postconditions for the repositories' calls. A rule for a call
that writes has two cases: the statement is rejected and leaves everything, or
it commits.
-/

namespace Damaru

open Async Table

section Calls

variable {α β : Type} {s : Server} {Q : Except Rejection β → Server → Prop} {g : α → Svc β}

/-- Going on with the answer of a call that only reads. -/
theorem post_query_bind {f : Ext → Server → Except Rejection α}
    (hok : ∀ x a, f x s = .ok a → (g a).Post s Q)
    (herr : ∀ x e, f x s = .error e → Q (.error e) s) : (query f >>= g).Post s Q := by
  refine .bind (.op fun x => ?_)
  cases hf : f x s with
  | ok a => exact hok x a hf
  | error e => exact herr x e hf

/-- Going on with the answer of a call that always has one. -/
theorem post_read_bind {f : Ext → Server → α} (h : ∀ x, (g (f x s)).Post s Q) :
    ((query fun x s => .ok (f x s)) >>= g).Post s Q :=
  post_query_bind (fun x _ ha => Except.ok.inj ha ▸ h x) fun _ _ he => nomatch he

theorem post_statement_bind {f : Ext → Server → Except Rejection (α × Tables)}
    (hok : ∀ x a t, f x s = .ok (a, t) → ∀ h : t.Integrity, (g a).Post (s.commit t h) Q)
    (herr : ∀ x e, f x s = .error e ∨
      (e = .query ∧ ∃ a t, f x s = .ok (a, t) ∧ ¬ t.Integrity) → Q (.error e) s) :
    (statement f >>= g).Post s Q := by
  refine .bind (.op fun x => ?_)
  cases hf : f x s with
  | error e => exact herr x e (.inl hf)
  | ok o =>
    obtain ⟨a, t⟩ := o
    by_cases ht : t.Integrity
    · simp only [dif_pos ht]
      exact hok x a t hf ht
    · simp only [dif_neg ht]
      exact herr x .query (.inr ⟨rfl, a, t, hf, ht⟩)

theorem post_sync_bind {f : Server → Except Rejection α × Server}
    (hok : ∀ a, (f s).1 = .ok a → (g a).Post (f s).2 Q)
    (herr : ∀ e, (f s).1 = .error e → Q (.error e) (f s).2) : (sync f >>= g).Post s Q := by
  refine .bind (.op fun x => ?_)
  cases hf : (f s).1 with
  | ok a => exact hok a hf
  | error e => exact herr e hf

end Calls

/-! ## At the points of a program -/

section Stop

variable {α β : Type} {g : α → Svc β} {x : Ext} {xs : List Ext} {s : Server} {a : α}

theorem stop_query_bind {f : Ext → Server → Except Rejection α} (h : f x s = .ok a) :
    (query f >>= g).stop (x :: xs) s = (g a).stop xs s := by
  unfold query
  rw [Prog.stop_op_bind, h]

theorem stop_statement_bind {f : Ext → Server → Except Rejection (α × Tables)} {t : Tables}
    (h : f x s = .ok (a, t)) (hi : t.Integrity) :
    (statement f >>= g).stop (x :: xs) s = (g a).stop xs (s.commit t hi) := by
  unfold statement
  rw [Prog.stop_op_bind]
  simp only [h, dif_pos hi]

theorem stop_statement_bind_error {f : Ext → Server → Except Rejection (α × Tables)} {e : Rejection}
    (h : f x s = .error e) : (statement f >>= g).stop (x :: xs) s = (some (.error e), s) := by
  unfold statement
  rw [Prog.stop_op_bind]
  simp only [h]

variable {I : Server → Prop}

theorem points_query_bind {f : Ext → Server → Except Rejection α} (hs : I s)
    (hok : ∀ x a, f x s = .ok a → (g a).Points s I) : (query f >>= g).Points s I := by
  refine .op_bind hs (fun x a t h => ?_) fun x e t h => ?_
  · obtain ⟨hf, rfl⟩ := Prod.mk.inj h
    exact hok x a hf
  · obtain ⟨-, rfl⟩ := Prod.mk.inj h
    exact hs

/-- A statement that is refused leaves the state in which it was issued. -/
theorem points_statement_bind {f : Ext → Server → Except Rejection (α × Tables)} (hs : I s)
    (hok : ∀ x a t, f x s = .ok (a, t) → ∀ h : t.Integrity, (g a).Points (s.commit t h) I) :
    (statement f >>= g).Points s I := by
  refine .op_bind hs (fun x a t h => ?_) fun x e t h => ?_
  · cases hf : f x s with
    | error e =>
      rw [hf] at h
      cases (Prod.mk.inj h).1
    | ok o =>
      rw [hf] at h
      by_cases hi : o.2.Integrity
      · simp only [dif_pos hi, Prod.mk.injEq, Except.ok.injEq] at h
        obtain ⟨rfl, rfl⟩ := h
        exact hok x o.1 o.2 hf hi
      · simp only [dif_neg hi, Prod.mk.injEq] at h
        cases h.1
  · cases hf : f x s with
    | error e' =>
      rw [hf] at h
      obtain ⟨-, rfl⟩ := Prod.mk.inj h
      exact hs
    | ok o =>
      rw [hf] at h
      by_cases hi : o.2.Integrity
      · simp only [dif_pos hi, Prod.mk.injEq] at h
        cases h.1
      · simp only [dif_neg hi, Prod.mk.injEq] at h
        obtain ⟨-, rfl⟩ := h
        exact hs

end Stop

namespace Repository

variable {α β γ : Type} {repo : Repository α} {s : Server} {Q : Except Rejection β → Server → Prop}

theorem post_findRow_bind {p : Tables → α → Bool} {g : Option α → Svc β}
    (hsome : ∀ a ∈ repo.rows s.tables, p s.tables a = true → (g (some a)).Post s Q)
    (hnone : (∀ a ∈ repo.rows s.tables, p s.tables a = false) → (g none).Post s Q) :
    (repo.findRow p >>= g).Post s Q := by
  refine post_read_bind fun x => ?_
  rw [Option.map_id']
  cases hf : (repo.scan p x s.tables).head? with
  | some a => exact hsome a (of_scan_head hf).1 (of_scan_head hf).2
  | none => exact hnone fun a ha => scan_head_none hf ha

theorem post_find_bind {p : Tables → α → Bool} {relations : Tables → α → γ} {g : List γ → Svc β}
    (h : ∀ l : List α, (∀ a, a ∈ l ↔ a ∈ repo.rows s.tables ∧ p s.tables a = true) →
      (g (l.map (relations s.tables))).Post s Q) : (repo.find p relations >>= g).Post s Q :=
  post_read_bind fun _ => h _ fun _ => mem_scan

theorem post_insert_bind {values : Ext → Server → Except Rejection α} {g : String → Svc β}
    (hok : ∀ x a, values x s = .ok a →
      ∀ h : (repo.put (repo.rows s.tables ++ [a]) s.tables).Integrity,
        (g (repo.key a)).Post (s.commit _ h) Q)
    (herr : ∀ x e, values x s = .error e ∨ (e = .query ∧ ∃ a, values x s = .ok a ∧
      ¬ (repo.put (repo.rows s.tables ++ [a]) s.tables).Integrity) → Q (.error e) s) :
    (repo.insert values >>= g).Post s Q := by
  refine post_statement_bind (fun x k t hf ht => ?_) fun x e he => herr x e ?_
  · cases hv : values x s with
    | error e => rw [hv] at hf; cases hf
    | ok a =>
      rw [hv] at hf
      cases hf
      exact hok x a hv ht
  · cases hv : values x s with
    | error e' =>
      rw [hv] at he
      rcases he with he | ⟨-, _, _, he, -⟩
      · exact .inl (congrArg Except.error (Except.error.inj he))
      · cases he
    | ok a =>
      rw [hv] at he
      rcases he with he | ⟨rfl, _, t, ht, hnot⟩
      · cases he
      · cases ht
        exact .inr ⟨rfl, a, rfl, hnot⟩

/-- An update sets columns of the selected rows, or finds none to set. -/
theorem post_update_bind {criterion : JsVal}
    {fields : Ext → Server → Except Rejection (Option (α → α))} {g : Nat → Svc β}
    (hok : ∀ x f, fields x s = .ok (some f) → emptyCriterion criterion = false →
      ∀ h : (repo.put (updateWhere (fun a => selected x criterion (repo.key a)) f
        (repo.rows s.tables)) s.tables).Integrity, ∀ n, (g n).Post (s.commit _ h) Q)
    (hnone : ∀ h : s.tables.Integrity, (g 0).Post (s.commit s.tables h) Q)
    (herr : ∀ e, Q (.error e) s) : (repo.update criterion fields >>= g).Post s Q := by
  refine post_statement_bind (fun x c t hf ht => ?_) fun x e _ => herr e
  by_cases hk : emptyCriterion criterion = true
  · rw [if_pos hk] at hf; cases hf
  · rw [if_neg hk] at hf
    cases hv : fields x s with
    | error e => rw [hv] at hf; cases hf
    | ok o =>
      rw [hv] at hf
      cases o with
      | some f =>
        cases hf
        exact hok x f hv (Bool.eq_false_iff.2 hk) ht _
      | none =>
        simp only at hf
        split at hf
        · cases hf
          exact hnone ht
        · cases hf

/-- An update with values that the database accepts. -/
theorem post_update_ok_bind {criterion : JsVal}
    {fields : Ext → Server → Except Rejection (Option (α → α))} {f : α → α} {g : Nat → Svc β}
    (hf : ∀ x, fields x s = .ok (some f)) (hk : emptyCriterion criterion = false)
    (hi : ∀ x, (repo.put (updateWhere (fun a => selected x criterion (repo.key a)) f
      (repo.rows s.tables)) s.tables).Integrity)
    (hok : ∀ x n, (g n).Post (s.commit _ (hi x)) Q) : (repo.update criterion fields >>= g).Post s Q := by
  refine post_statement_bind (fun x c t hv ht => ?_) fun x e he => ?_
  · rw [hk, hf x] at hv
    cases hv
    exact hok x _
  · rw [hk, hf x] at he
    rcases he with he | ⟨-, c, t, ht, hnot⟩
    · cases he
    · cases ht
      exact (hnot (hi x)).elim

/-- An update by a key. -/
theorem post_set_bind {k : String} {f : Ext → α → α} {g : Nat → Svc β}
    (hok : ∀ x,
      ∀ h : (repo.put (updateWhere (fun a => decide (repo.key a = k)) (f x)
        (repo.rows s.tables)) s.tables).Integrity, ∀ n, (g n).Post (s.commit _ h) Q)
    (herr : ∀ x e, ¬ e.Explicit → (k = "" ∨
      ¬ (repo.put (updateWhere (fun a => decide (repo.key a = k)) (f x)
        (repo.rows s.tables)) s.tables).Integrity) → Q (.error e) s) :
    (repo.set (some (.str k)) f >>= g).Post s Q := by
  refine post_statement_bind (fun x c t hf ht => ?_) fun x e he => ?_
  · by_cases hk : emptyCriterion (some (.str k)) = true
    · rw [if_pos hk] at hf; cases hf
    · rw [if_neg hk] at hf
      cases hf
      exact hok x ht _
  · by_cases hk : emptyCriterion (some (.str k)) = true
    · rw [if_pos hk] at he
      rcases he with he | ⟨-, _, _, he, -⟩
      · cases he
        exact herr x _ not_false (.inl (of_decide_eq_true hk))
      · cases he
    · rw [if_neg hk] at he
      rcases he with he | ⟨rfl, _, t, ht, hnot⟩
      · cases he
      · cases ht
        exact herr x _ not_false (.inr hnot)

theorem post_delete {p : α → Bool} {Q : Except Rejection Unit → Server → Prop}
    (hok : ∀ h : (repo.put ((repo.rows s.tables).filter fun a => !p a) s.tables).cascade.Integrity,
      Q (.ok ()) (s.commit _ h))
    (herr : ¬ (repo.put ((repo.rows s.tables).filter fun a => !p a) s.tables).cascade.Integrity →
      Q (.error .query) s) : (repo.delete p).Post s Q := by
  rw [← bind_pure (repo.delete p)]
  refine post_statement_bind (fun x c t hf ht => ?_) fun x e he => ?_
  · cases hf
    exact .pure (hok ht)
  · rcases he with he | ⟨rfl, c, t, ht, hnot⟩
    · cases he
    · cases ht
      exact herr hnot

/-! ## On given inputs -/

theorem run_insert_bind {values : Ext → Server → Except Rejection α} {g : String → Svc β} {x : Ext}
    {xs : List Ext} {a : α} (ha : values x s = .ok a)
    (h : (repo.put (repo.rows s.tables ++ [a]) s.tables).Integrity) :
    (repo.insert values >>= g).run (x :: xs) s = (g (repo.key a)).run xs (s.commit _ h) := by
  unfold insert statement
  rw [Prog.run_op_bind]
  simp only [ha, dif_pos h]

theorem run_insert_bind_error {values : Ext → Server → Except Rejection α} {g : String → Svc β}
    {x : Ext} {xs : List Ext} {e : Rejection} (he : values x s = .error e) :
    (repo.insert values >>= g).run (x :: xs) s = some (.error e, s) := by
  unfold insert statement
  rw [Prog.run_op_bind]
  simp only [he]

theorem run_insert_bind_refused {values : Ext → Server → Except Rejection α} {g : String → Svc β}
    {x : Ext} {xs : List Ext} {a : α} (ha : values x s = .ok a)
    (h : ¬ (repo.put (repo.rows s.tables ++ [a]) s.tables).Integrity) :
    (repo.insert values >>= g).run (x :: xs) s = some (.error .query, s) := by
  unfold insert statement
  rw [Prog.run_op_bind]
  simp only [ha, dif_neg h]

/-! ## Wherever it is stopped -/

variable {I : Server → Prop}

theorem points_findRow_bind {p : Tables → α → Bool} {g : Option α → Svc β} (hs : I s)
    (hsome : ∀ a ∈ repo.rows s.tables, p s.tables a = true → (g (some a)).Points s I)
    (hnone : (g none).Points s I) : (repo.findRow p >>= g).Points s I := by
  refine points_query_bind hs fun x a ha => ?_
  rw [← Except.ok.inj ha, Option.map_id']
  cases hf : (repo.scan p x s.tables).head? with
  | some a => exact hsome a (of_scan_head hf).1 (of_scan_head hf).2
  | none => exact hnone

theorem points_insert_bind {values : Ext → Server → Except Rejection α} {g : String → Svc β} (hs : I s)
    (hok : ∀ x a, values x s = .ok a →
      ∀ h : (repo.put (repo.rows s.tables ++ [a]) s.tables).Integrity,
        (g (repo.key a)).Points (s.commit _ h) I) : (repo.insert values >>= g).Points s I := by
  refine points_statement_bind hs fun x k t hf ht => ?_
  cases hv : values x s with
  | error e => rw [hv] at hf; cases hf
  | ok a =>
    rw [hv] at hf
    cases hf
    exact hok x a hv ht

theorem points_set_bind {k : String} {f : Ext → α → α} {g : Nat → Svc β} (hs : I s)
    (hok : ∀ x, ∀ h : (repo.put (updateWhere (fun a => decide (repo.key a = k)) (f x)
      (repo.rows s.tables)) s.tables).Integrity, ∀ n, (g n).Points (s.commit _ h) I) :
    (repo.set (some (.str k)) f >>= g).Points s I := by
  rw [set_str]
  refine points_statement_bind hs fun x n t hf ht => ?_
  split at hf
  · cases hf
  · cases hf
    exact hok x ht _

theorem points_delete_bind {p : α → Bool} {g : Unit → Svc β} (hs : I s)
    (hok : ∀ h : (repo.put ((repo.rows s.tables).filter fun a => !p a) s.tables).cascade.Integrity,
      (g ()).Points (s.commit _ h) I) : (repo.delete p >>= g).Points s I := by
  refine points_statement_bind hs fun x n t hf ht => ?_
  cases hf
  exact hok ht

end Repository

end Damaru
