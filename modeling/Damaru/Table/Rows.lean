import Mathlib.Data.List.Sort
import Mathlib.Data.List.Nodup

/-!
# Tables as lists of rows

A table is a list of rows with a key. Nothing orders the rows that a scan
returns, so `scan` takes the order from an arbitrary ranking of the keys: over
all rankings, every order of rows with distinct keys occurs.
-/

namespace Table

variable {α β κ : Type}

/-! ## Scanning -/

/-- The rows in the order in which a scan meets them. -/
def scan (rank : κ → Nat) (key : α → κ) (rows : List α) : List α :=
  rows.insertionSort fun a b => rank (key a) ≤ rank (key b)

theorem scan_perm (rank : κ → Nat) (key : α → κ) (rows : List α) :
    (scan rank key rows).Perm rows := List.perm_insertionSort _ _

@[simp] theorem mem_scan {rank : κ → Nat} {key : α → κ} {rows : List α} {a : α} :
    a ∈ scan rank key rows ↔ a ∈ rows := (scan_perm rank key rows).mem_iff

@[simp] theorem scan_head_eq_none {rank : κ → Nat} {key : α → κ} {rows : List α} :
    (scan rank key rows).head? = none ↔ rows = [] := by
  rw [List.head?_eq_none_iff]
  exact ⟨fun h => (h ▸ scan_perm rank key rows).symm.eq_nil, fun h => by rw [h]; rfl⟩

/-- A scan can meet any row first. -/
theorem exists_scan_head [DecidableEq κ] {key : α → κ} {rows : List α}
    (hkey : (rows.map key).Nodup) {a : α} (ha : a ∈ rows) :
    ∃ rank : κ → Nat, (scan rank key rows).head? = some a := by
  refine ⟨fun k => if k = key a then 0 else 1, ?_⟩
  generalize hrank : (fun k => if k = key a then 0 else 1) = rank
  have hsorted : (scan rank key rows).Pairwise fun x y => rank (key x) ≤ rank (key y) := by
    let _ : Std.Total fun x y : α => rank (key x) ≤ rank (key y) := ⟨fun x y => Nat.le_total _ _⟩
    let _ : IsTrans α fun x y : α => rank (key x) ≤ rank (key y) := ⟨fun x y z => Nat.le_trans⟩
    exact List.pairwise_insertionSort _ _
  have hmem : a ∈ scan rank key rows := mem_scan.2 ha
  cases hs : scan rank key rows with
  | nil => rw [hs] at hmem; cases hmem
  | cons b l =>
    rw [hs] at hsorted hmem
    have hb : b ∈ rows := mem_scan.1 (hs ▸ List.mem_cons_self : b ∈ scan rank key rows)
    rcases List.mem_cons.1 hmem with rfl | hl
    · rfl
    · have hle := (List.pairwise_cons.1 hsorted).1 a hl
      have hba : key b = key a := by
        by_contra hne
        rw [← hrank] at hle
        simp [hne] at hle
      rw [List.head?_cons, List.inj_on_of_nodup_map hkey hb ha hba]

/-! ## Changing rows -/

/-- Applies `f` to the rows that `p` selects. -/
def updateWhere (p : α → Bool) (f : α → α) (rows : List α) : List α :=
  rows.map fun a => if p a then f a else a

theorem mem_updateWhere {p : α → Bool} {f : α → α} {rows : List α} {b : α} :
    b ∈ updateWhere p f rows ↔ (∃ a ∈ rows, p a = true ∧ f a = b) ∨ (b ∈ rows ∧ p b = false) := by
  unfold updateWhere
  rw [List.mem_map]
  constructor
  · rintro ⟨a, ha, h⟩
    by_cases hp : p a = true
    · rw [if_pos hp] at h; exact .inl ⟨a, ha, hp, h⟩
    · rw [if_neg hp] at h; subst h; exact .inr ⟨ha, by simpa using hp⟩
  · rintro (⟨a, ha, hp, rfl⟩ | ⟨hb, hp⟩)
    · exact ⟨a, ha, if_pos hp⟩
    · exact ⟨b, hb, by simp [hp]⟩

/-- What `f` leaves alone of the selected rows, changing them leaves alone. -/
theorem map_updateWhere_of_mem {p : α → Bool} {f : α → α} {g : α → β} {rows : List α}
    (h : ∀ a ∈ rows, p a = true → g (f a) = g a) : (updateWhere p f rows).map g = rows.map g := by
  unfold updateWhere
  rw [List.map_map]
  refine List.map_congr_left fun a ha => ?_
  by_cases hp : p a = true
  · simp [hp, h a ha hp]
  · simp [hp]

theorem map_updateWhere {p : α → Bool} {f : α → α} {g : α → β} {rows : List α}
    (h : ∀ a, p a = true → g (f a) = g a) : (updateWhere p f rows).map g = rows.map g :=
  map_updateWhere_of_mem fun a _ => h a

theorem filterMap_updateWhere {p : α → Bool} {f : α → α} {g : α → Option β} {rows : List α}
    (h : ∀ a, p a = true → g (f a) = g a) : (updateWhere p f rows).filterMap g = rows.filterMap g := by
  unfold updateWhere
  rw [List.filterMap_map]
  refine List.filterMap_congr fun a _ => ?_
  by_cases hp : p a = true
  · simp [hp, h a hp]
  · simp [hp]

theorem updateWhere_eq_self {p : α → Bool} {f : α → α} {rows : List α}
    (h : ∀ a ∈ rows, p a = true → f a = a) : updateWhere p f rows = rows := by
  unfold updateWhere
  conv_rhs => rw [← List.map_id rows]
  refine List.map_congr_left fun a ha => ?_
  by_cases hp : p a = true
  · simp [hp, h a ha hp]
  · simp [hp]

/-- Changing rows that correspond, in tables that correspond. -/
theorem forall₂_updateWhere {R : α → β → Prop} {p : α → Bool} {q : β → Bool} {f : α → α} {g : β → β}
    {rows : List α} {rows' : List β} (h : List.Forall₂ R rows rows')
    (hp : ∀ a b, R a b → q b = p a) (hf : ∀ a b, R a b → p a = true → R (f a) (g b)) :
    List.Forall₂ R (updateWhere p f rows) (updateWhere q g rows') := by
  unfold updateWhere
  induction h with
  | nil => exact .nil
  | @cons a b rows rows' hab _ ih =>
    refine .cons ?_ ih
    dsimp only
    rw [hp a b hab]
    split
    · rename_i hpa
      exact hf a b hab hpa
    · exact hab

theorem updateWhere_append {p : α → Bool} {f : α → α} {rows rows' : List α} :
    updateWhere p f (rows ++ rows') = updateWhere p f rows ++ updateWhere p f rows' := List.map_append

@[simp] theorem updateWhere_nil {p : α → Bool} {f : α → α} : updateWhere p f [] = [] := rfl

theorem filter_updateWhere {p q : α → Bool} {f : α → α} {rows : List α}
    (h : ∀ a, p a = true → q (f a) = q a) :
    (updateWhere p f rows).filter q = updateWhere p f (rows.filter q) := by
  unfold updateWhere
  rw [List.filter_map]
  congr 1
  refine List.filter_congr fun a _ => ?_
  by_cases hp : p a = true
  · simp [hp, h a hp]
  · simp [hp]

/-- The rows that a query selects after a change that takes them out of it. -/
theorem filter_updateWhere_of_false {p q : α → Bool} {f : α → α} {rows : List α}
    (h : ∀ a, p a = true → q (f a) = false) :
    (updateWhere p f rows).filter q = rows.filter fun a => !p a && q a := by
  unfold updateWhere
  induction rows with
  | nil => rfl
  | cons a rows ih =>
    rw [List.map_cons, List.filter_cons, List.filter_cons, ih]
    by_cases hp : p a = true
    · simp [hp, h a hp]
    · simp [hp]

/-- One change of some rows and then of others. -/
theorem updateWhere_updateWhere {p q : α → Bool} {f : α → α} {rows : List α}
    (hq : ∀ a, q (f a) = q a) (hf : ∀ a, f (f a) = f a) :
    updateWhere q f (updateWhere p f rows) = updateWhere (fun a => p a || q a) f rows := by
  unfold updateWhere
  rw [List.map_map]
  refine List.map_congr_left fun a _ => ?_
  by_cases hpa : p a = true <;> by_cases hqa : q a = true <;> simp [hpa, hqa, hq, hf]

/-- Rows with one key are one row. -/
theorem eq_of_key {key : α → κ} {rows : List α} (h : (rows.map key).Nodup) {a b : α}
    (ha : a ∈ rows) (hb : b ∈ rows) (hk : key a = key b) : a = b :=
  List.inj_on_of_nodup_map h ha hb hk

/-- A row that has been added has a key of its own. -/
theorem new_of_nodup {key : α → κ} {rows : List α} {a b : α} (h : ((rows ++ [a]).map key).Nodup)
    (hb : b ∈ rows) : key b ≠ key a := by
  rw [List.map_append, List.nodup_append] at h
  exact h.2.2 _ (List.mem_map_of_mem hb) _ (List.mem_singleton.2 rfl)

/-- A row with a key of its own can be added. -/
theorem nodup_append_of_new {key : α → κ} {rows : List α} {a : α} (h : (rows.map key).Nodup)
    (hnew : ∀ b ∈ rows, key b ≠ key a) : ((rows ++ [a]).map key).Nodup := by
  rw [List.map_append, List.nodup_append]
  refine ⟨h, List.nodup_singleton _, fun k hk k' hk' heq => ?_⟩
  obtain ⟨b, hb, rfl⟩ := List.mem_map.1 hk
  exact hnew b hb (heq.trans (List.mem_singleton.1 hk'))

/-- Looking up the key of a row finds the row. -/
theorem find?_key [DecidableEq κ] {key : α → κ} {rows : List α} (h : (rows.map key).Nodup) {a : α}
    (ha : a ∈ rows) : (rows.find? fun r => decide (key r = key a)) = some a := by
  cases hf : rows.find? fun r => decide (key r = key a) with
  | none =>
    have hnone := List.find?_eq_none.1 hf a ha
    exact absurd (decide_eq_true rfl) hnone
  | some b =>
    have hkey := @List.find?_some _ (fun r => decide (key r = key a)) _ _ hf
    rw [eq_of_key h (List.mem_of_find?_eq_some hf) ha (of_decide_eq_true hkey)]

/-- A column that every row of a table has from the row with its key in
another is the same in both. -/
theorem agree_of_subset {key : α → κ} {column : α → β} {rows rows' : List α}
    (h : (rows.map key).Nodup) (hsub : ∀ b ∈ rows', ∃ a ∈ rows, key a = key b ∧ column a = column b)
    {a b : α} (ha : a ∈ rows) (hb : b ∈ rows') (hk : key a = key b) : column a = column b := by
  obtain ⟨a', ha', hk', hcolumn⟩ := hsub b hb
  rw [eq_of_key h ha ha' (hk.trans hk'.symm), hcolumn]

/-- So are rows with one value of a unique column that may be null. -/
theorem eq_of_unique {key : α → Option κ} {rows : List α} (h : (rows.filterMap key).Nodup) {a b : α}
    (ha : a ∈ rows) (hb : b ∈ rows) {k : κ} (hak : key a = some k) (hbk : key b = some k) : a = b := by
  induction rows with
  | nil => cases ha
  | cons c rows ih =>
    rw [List.filterMap_cons] at h
    have hmem : ∀ x ∈ rows, key x = some k → k ∈ rows.filterMap key :=
      fun x hx hk => List.mem_filterMap.2 ⟨x, hx, hk⟩
    rcases List.mem_cons.1 ha with rfl | ha' <;> rcases List.mem_cons.1 hb with rfl | hb'
    · rfl
    · rw [hak] at h
      exact absurd (hmem b hb' hbk) (List.nodup_cons.1 h).1
    · rw [hbk] at h
      exact absurd (hmem a ha' hak) (List.nodup_cons.1 h).1
    · refine ih ?_ ha' hb'
      cases hc : key c with
      | none => rwa [hc] at h
      | some k' =>
        rw [hc] at h
        exact (List.nodup_cons.1 h).2

/-- Rows that a partial column tells apart show each of its values once. -/
theorem nodup_filterMap_of_mem {column : α → Option β} {rows : List α} (h : rows.Nodup)
    (hinj : ∀ a ∈ rows, ∀ b ∈ rows, ∀ k, column a = some k → column b = some k → a = b) :
    (rows.filterMap column).Nodup := by
  rw [List.Nodup, List.pairwise_filterMap]
  refine List.Pairwise.imp_of_mem ?_ h
  intro a b ha hb hne k hak k' hbk heq
  exact hne (hinj a ha b hb k hak (heq ▸ hbk))

theorem nodup_map_sublist {key : α → κ} {rows rows' : List α} (h : (rows.map key).Nodup)
    (hs : rows'.Sublist rows) : (rows'.map key).Nodup := h.sublist (hs.map key)

/-! ## Rows that evolve -/

/-- The rows of one key, before and after, are related. -/
def Evolves (key : α → κ) (Q : α → α → Prop) (rows rows' : List α) : Prop :=
  ∀ a ∈ rows, ∀ b ∈ rows', key b = key a → Q a b

theorem evolves_of_subset {key : α → κ} {Q : α → α → Prop} (hQ : ∀ a, Q a a) {rows rows' : List α}
    (h : (rows.map key).Nodup) (hsub : rows' ⊆ rows) : Evolves key Q rows rows' := by
  intro a ha b hb hkey
  rw [eq_of_key h (hsub hb) ha hkey]
  exact hQ a

theorem evolves_append {key : α → κ} {Q : α → α → Prop} (hQ : ∀ a, Q a a) {rows : List α} {c : α}
    (h : ((rows ++ [c]).map key).Nodup) : Evolves key Q rows (rows ++ [c]) := by
  intro a ha b hb hkey
  rw [eq_of_key h hb (List.mem_append_left _ ha) hkey]
  exact hQ a

theorem evolves_updateWhere {key : α → κ} {Q : α → α → Prop} (hQ : ∀ a, Q a a) {p : α → Bool} {f : α → α}
    {rows : List α} (h : (rows.map key).Nodup) (hf : ∀ a, p a = true → key (f a) = key a ∧ Q a (f a)) :
    Evolves key Q rows (updateWhere p f rows) := by
  intro a ha b hb hkey
  rcases mem_updateWhere.1 hb with ⟨c, hc, hp, rfl⟩ | ⟨hb, -⟩
  · rw [eq_of_key h ha hc (hkey.symm.trans (hf c hp).1)]
    exact (hf c hp).2
  · rw [eq_of_key h hb ha hkey]
    exact hQ a

/-! ## Generated keys -/

/-- A generated key, which is never empty: `id` unless it is taken, and then a
longer one than all that are. -/
def fresh (id : String) (used : List String) : String :=
  if id = "" ∨ id ∈ used then used.foldr (· ++ ·) "+" else id

theorem foldr_length_pos (used : List String) : 0 < (used.foldr (· ++ ·) "+").length := by
  induction used with
  | nil => decide
  | cons a used ih =>
    rw [List.foldr_cons, String.length_append]
    omega

theorem length_lt_foldr {used : List String} {k : String} (h : k ∈ used) :
    k.length < (used.foldr (· ++ ·) "+").length := by
  induction used with
  | nil => cases h
  | cons a used ih =>
    rw [List.foldr_cons, String.length_append]
    rcases List.mem_cons.1 h with rfl | h
    · have := foldr_length_pos used
      omega
    · have := ih h
      omega

theorem fresh_not_mem (id : String) (used : List String) : fresh id used ∉ used := by
  unfold fresh
  split
  · intro h
    exact Nat.lt_irrefl _ (length_lt_foldr h)
  · rename_i h
    exact fun hmem => h (.inr hmem)

theorem fresh_ne_empty (id : String) (used : List String) : fresh id used ≠ "" := by
  unfold fresh
  split
  · intro h
    have hpos := foldr_length_pos used
    rw [h] at hpos
    exact Nat.lt_irrefl _ hpos
  · rename_i h
    exact fun hid => h (.inl hid)

end Table
