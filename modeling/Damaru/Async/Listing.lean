import Damaru.Async.Prog

/-!
# Programs that list rows

A program reads some rows and answers with what it makes of each: an item, no
item, or an error, and then it answers with nothing. What is made of a row may
depend on an input.
-/

namespace Async

variable {ι σ ε α β : Type}

/-! ## One row after another -/

theorem mem_of_mapM {f : α → Except ε β} {l : List α} {r : List β} (h : l.mapM f = .ok r) :
    ∀ b, b ∈ r ↔ ∃ a ∈ l, f a = .ok b := by
  induction l generalizing r with
  | nil =>
    cases h
    simp
  | cons a l ih =>
    rw [List.mapM_cons] at h
    cases ha : f a with
    | error e => rw [ha] at h; cases h
    | ok b =>
      cases hl : l.mapM f with
      | error e => rw [ha, hl] at h; cases h
      | ok r' =>
        rw [ha, hl] at h
        cases h
        intro c
        rw [List.mem_cons, ih hl]
        simp [ha, eq_comm]

theorem mapM_ok_iff {f : α → Except ε β} {l : List α} :
    (∃ r, l.mapM f = .ok r) ↔ ∀ a ∈ l, ∃ b, f a = .ok b := by
  induction l with
  | nil => exact ⟨fun _ a ha => (List.not_mem_nil ha).elim, fun _ => ⟨[], rfl⟩⟩
  | cons a l ih =>
    rw [List.forall_mem_cons, ← ih, List.mapM_cons]
    constructor
    · rintro ⟨r, h⟩
      cases ha : f a with
      | error e => rw [ha] at h; cases h
      | ok b =>
        cases hl : l.mapM f with
        | error e => rw [ha, hl] at h; cases h
        | ok r' => exact ⟨⟨b, rfl⟩, r', rfl⟩
    · rintro ⟨⟨b, ha⟩, r, hl⟩
      exact ⟨b :: r, by rw [ha, hl]; rfl⟩

/-- A listing that makes an item of every row. -/
theorem mapM_eq_ok {f : α → Except ε β} {g : α → β} {l : List α} (h : ∀ a ∈ l, f a = .ok (g a)) :
    l.mapM f = .ok (l.map g) := by
  induction l with
  | nil => rfl
  | cons a l ih =>
    rw [List.mapM_cons, h a List.mem_cons_self, ih fun b hb => h b (List.mem_cons_of_mem _ hb)]
    rfl

/-- A listing that skips no row. -/
theorem mapM_some {f : α → Except ε β} {l : List α} {r : List β} :
    l.mapM f = .ok r ↔
      ∃ items, l.mapM (fun a => (f a).map some) = .ok items ∧ r = items.filterMap id := by
  have heq : l.mapM (fun a => (f a).map some) = (l.mapM f).map (List.map some) := by
    induction l with
    | nil => rfl
    | cons a l ih =>
      rw [List.mapM_cons, List.mapM_cons, ih]
      cases f a with
      | error e => rfl
      | ok b => cases l.mapM f <;> rfl
  rw [heq]
  cases l.mapM f with
  | error e =>
    constructor
    · intro h
      cases h
    · rintro ⟨_, h, -⟩
      cases h
  | ok r' =>
    constructor
    · intro h
      cases h
      exact ⟨r.map some, rfl, by simp⟩
    · rintro ⟨_, h, rfl⟩
      cases h
      simp

/-! ## Listings -/

/-- The program answers with the items that `item x` makes of the rows of `M`,
for any input `x` with which it makes one of each. -/
structure Lists (p : Prog ι σ ε (List β)) (s : σ) (M : α → Prop)
    (item : ι → α → Except ε (Option β)) : Prop where
  sound : ∀ l s', p.Ends s (.ok l) s' → ∃ x, (∀ a, M a → ∃ o, item x a = .ok o) ∧
    ∀ i, i ∈ l ↔ ∃ a, M a ∧ item x a = .ok (some i)
  complete : ∀ x, (∀ a, M a → ∃ o, item x a = .ok o) → ∃ l s', p.Ends s (.ok l) s' ∧
    ∀ i, i ∈ l ↔ ∃ a, M a ∧ item x a = .ok (some i)

/-- A program that reads rows in some order and maps them. -/
theorem Lists.of_ends {p : Prog ι σ ε (List β)} {s : σ} {M : α → Prop}
    {item : ι → α → Except ε (Option β)} (rows : ι → List α) (hrows : ∀ x a, a ∈ rows x ↔ M a)
    (h : ∀ l s', p.Ends s (.ok l) s' ↔ s' = s ∧ ∃ y x items,
      (rows y).mapM (item x) = .ok items ∧ l = items.filterMap id) : Lists p s M item := by
  have hmem : ∀ {y x items}, (rows y).mapM (item x) = .ok items →
      ∀ i, i ∈ items.filterMap id ↔ ∃ a, M a ∧ item x a = .ok (some i) := by
    intro y x items hitems i
    rw [List.mem_filterMap]
    constructor
    · rintro ⟨_, hi, rfl⟩
      obtain ⟨a, ha, hai⟩ := (mem_of_mapM hitems _).1 hi
      exact ⟨a, (hrows y a).1 ha, hai⟩
    · rintro ⟨a, ha, hai⟩
      exact ⟨some i, (mem_of_mapM hitems _).2 ⟨a, (hrows y a).2 ha, hai⟩, rfl⟩
  refine ⟨fun l s' hend => ?_, fun x hok => ?_⟩
  · obtain ⟨-, y, x, items, hitems, rfl⟩ := (h l s').1 hend
    exact ⟨x, fun a ha => mapM_ok_iff.1 ⟨items, hitems⟩ a ((hrows y a).2 ha), hmem hitems⟩
  · obtain ⟨items, hitems⟩ := mapM_ok_iff.2 fun a (ha : a ∈ rows x) => hok a ((hrows x a).1 ha)
    exact ⟨_, s, (h _ s).2 ⟨rfl, x, x, items, hitems, rfl⟩, hmem hitems⟩

end Async
