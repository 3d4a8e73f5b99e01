import Damaru.Text.Number
import Damaru.Text.Utf

/-!
# JSON values

The values that JSON has a text for, and the text that `JSON.stringify` gives
them. An object lists its members the way the language does: the array indices
among the names in ascending order, then the others as they were added.
-/

namespace Text

/-- The string of a literal. -/
def ofString (s : String) : Units := Utf16.ofChars s.toList

inductive Json where
  | null
  | bool (b : Bool)
  | number (x : Number)
  | str (s : Units)
  | arr (items : List Json)
  | obj (members : List (Units × Json))

namespace Json

/-- Induction over what a value is made of. -/
@[elab_as_elim, induction_eliminator]
theorem induct {motive : Json → Prop} (null : motive .null) (bool : ∀ b, motive (.bool b))
    (number : ∀ x, motive (.number x)) (str : ∀ s, motive (.str s))
    (arr : ∀ items, (∀ v ∈ items, motive v) → motive (.arr items))
    (obj : ∀ members, (∀ m ∈ members, motive m.2) → motive (.obj members)) (v : Json) : motive v := by
  exact @Json.rec motive (fun items => ∀ v ∈ items, motive v) (fun members => ∀ m ∈ members, motive m.2)
    (fun m => motive m.2) null bool number str arr obj nofun
    (fun _ _ hv hitems => List.forall_mem_cons.2 ⟨hv, hitems⟩) nofun
    (fun _ _ hm hmembers => List.forall_mem_cons.2 ⟨hm, hmembers⟩) (fun _ _ hv => hv) v

/-! ## Objects -/

/-- The array index that a name says. -/
def index (k : Units) : Option Nat :=
  let n := Nat.ofDigitChars 10 (Utf16.chars k) 0
  if Utf16.ofChars (Nat.toDigits 10 n) = k ∧ n < 4294967295 then some n else none

/-- The first name is listed before the second. -/
def precedes (k k' : Units) : Bool :=
  match index k, index k' with
  | some i, some j => i < j
  | some _, none => true
  | none, some _ => false
  | none, none => k ≠ k'

/-- What an object has under a name. -/
def get? (v : Json) (k : Units) : Option Json :=
  match v with
  | .obj members => members.lookup k
  | _ => none

/-- An object's members with one of them set. -/
def insert : List (Units × Json) → Units → Json → List (Units × Json)
  | [], k, v => [(k, v)]
  | m :: ms, k, v =>
    if k = m.1 then (k, v) :: ms
    else if (index k).isSome ∧ precedes k m.1 then (k, v) :: m :: ms
    else m :: insert ms k v

/-- The members stand in the order in which they are listed, none twice. -/
def Ordered (members : List (Units × Json)) : Prop :=
  members.Pairwise fun m m' => precedes m.1 m'.1 = true

/-- An object's members are in order, here and inside. -/
inductive WellFormed : Json → Prop where
  | null : WellFormed .null
  | bool (b : Bool) : WellFormed (.bool b)
  | number (x : Number) : WellFormed (.number x)
  | str (s : Units) : WellFormed (.str s)
  | arr {items : List Json} (h : ∀ v ∈ items, WellFormed v) : WellFormed (.arr items)
  | obj {members : List (Units × Json)} (ordered : Ordered members) (h : ∀ m ∈ members, WellFormed m.2) :
    WellFormed (.obj members)

/-- The order is one of names. -/
theorem ordered_of_names {ms : List (Units × Json)}
    (h : (ms.map Prod.fst).Pairwise fun k k' => precedes k k' = true) : Ordered ms :=
  List.pairwise_map.1 h

theorem Ordered.of_names {ms ms' : List (Units × Json)} (h : Ordered ms)
    (hnames : ms'.map Prod.fst = ms.map Prod.fst) : Ordered ms' := by
  refine ordered_of_names ?_
  rw [hnames]
  exact List.pairwise_map.2 h

theorem index_inj {k k' : Units} {n : Nat} (h : index k = some n) (h' : index k' = some n) : k = k' := by
  unfold index at h h'
  dsimp only at h h'
  split at h
  · split at h'
    · rename_i hk hk'
      rw [← hk.1, ← hk'.1, Option.some.inj h, Option.some.inj h']
    · cases h'
  · cases h

theorem precedes_iff {k k' : Units} :
    precedes k k' = true ↔
      (∃ i, index k = some i ∧ ∀ j, index k' = some j → i < j) ∨
        (index k = none ∧ index k' = none ∧ k ≠ k') := by
  unfold precedes
  cases hk : index k with
  | none => cases hk' : index k' <;> simp
  | some i => cases hk' : index k' <;> simp

theorem ne_of_precedes {k k' : Units} (h : precedes k k' = true) : k ≠ k' := by
  rcases precedes_iff.1 h with ⟨i, hk, hlt⟩ | ⟨-, -, hne⟩
  · intro heq
    exact absurd (hlt i (heq ▸ hk)) (Nat.lt_irrefl i)
  · exact hne

theorem precedes_trans {k k' k'' : Units} (hk : (index k).isSome) (h : precedes k k' = true)
    (h' : precedes k' k'' = true) : precedes k k'' = true := by
  obtain ⟨i, hi⟩ := Option.isSome_iff_exists.1 hk
  refine precedes_iff.2 (.inl ⟨i, hi, fun l hl => ?_⟩)
  rcases precedes_iff.1 h with ⟨i', hi', hlt⟩ | ⟨hnone, -⟩
  · rcases precedes_iff.1 h' with ⟨j, hj, hlt'⟩ | ⟨-, hnone, -⟩
    · rw [Option.some.inj (hi.symm.trans hi')]
      exact (hlt j hj).trans (hlt' l hl)
    · rw [hnone] at hl
      cases hl
  · rw [hnone] at hi
    cases hi

/-- Of two names one precedes the other, unless the second is an index that does. -/
theorem precedes_of_not {k k' : Units} (hne : k ≠ k') (h : ¬((index k).isSome ∧ precedes k k')) :
    precedes k' k = true := by
  rw [precedes_iff]
  cases hk : index k with
  | none =>
    cases hk' : index k' with
    | none => exact .inr ⟨rfl, rfl, hne.symm⟩
    | some j => exact .inl ⟨j, rfl, nofun⟩
  | some i =>
    cases hk' : index k' with
    | none => exact absurd ⟨by rw [hk]; rfl, precedes_iff.2 (.inl ⟨i, hk, by rw [hk']; nofun⟩)⟩ h
    | some j =>
      refine .inl ⟨j, rfl, fun l hl => ?_⟩
      obtain rfl := Option.some.inj hl
      have hle : ¬ i < j := fun hlt =>
        h ⟨by rw [hk]; rfl, precedes_iff.2 (.inl ⟨i, hk, fun l hl => by
          rw [← Option.some.inj (hk'.symm.trans hl)]
          exact hlt⟩)⟩
      have hij : i ≠ j := fun heq => hne (index_inj hk (heq ▸ hk'))
      omega

theorem mem_insert {ms : List (Units × Json)} {k : Units} {v : Json} {m : Units × Json}
    (h : m ∈ insert ms k v) : m = (k, v) ∨ m ∈ ms := by
  induction ms with
  | nil => exact .inl (List.mem_singleton.1 h)
  | cons m' ms ih =>
    unfold insert at h
    split at h
    · rcases List.mem_cons.1 h with h | h
      · exact .inl h
      · exact .inr (List.mem_cons_of_mem _ h)
    · split at h
      · exact List.mem_cons.1 h
      · rcases List.mem_cons.1 h with h | h
        · exact .inr (h ▸ List.mem_cons_self)
        · exact (ih h).imp id (List.mem_cons_of_mem _)

/-- Setting a member keeps the order. -/
theorem Ordered.insert {ms : List (Units × Json)} (h : Ordered ms) (k : Units) (v : Json) :
    Ordered (insert ms k v) := by
  induction ms with
  | nil => exact List.pairwise_singleton _ _
  | cons m ms ih =>
    obtain ⟨hm, hms⟩ := List.pairwise_cons.1 h
    unfold Json.insert
    split
    · rename_i hk
      exact List.pairwise_cons.2 ⟨hk ▸ hm, hms⟩
    · rename_i hne
      split
      · rename_i hk
        refine List.pairwise_cons.2 ⟨fun m' hm' => ?_, h⟩
        rcases List.mem_cons.1 hm' with rfl | hm'
        · exact hk.2
        · exact precedes_trans hk.1 hk.2 (hm m' hm')
      · rename_i hnot
        refine List.pairwise_cons.2 ⟨fun m' hm' => ?_, ih hms⟩
        rcases mem_insert hm' with rfl | hm'
        · exact precedes_of_not hne hnot
        · exact hm m' hm'

/-- What comes last is added at the end. -/
theorem insert_append {ms : List (Units × Json)} {k : Units} (v : Json)
    (h : ∀ m ∈ ms, precedes m.1 k = true) : insert ms k v = ms ++ [(k, v)] := by
  induction ms with
  | nil => rfl
  | cons m ms ih =>
    obtain ⟨hm, hms⟩ := List.forall_mem_cons.1 h
    have hback : ¬((index k).isSome ∧ precedes k m.1) := fun hk =>
      ne_of_precedes (precedes_trans hk.1 hk.2 hm) rfl
    unfold insert
    rw [if_neg (ne_of_precedes hm).symm, if_neg hback, ih hms]
    rfl

/-! ## Copies -/

mutual

/-- The value that the text of a value stands for: a number without a text is
null there, and the zeros have one text. -/
def copy : Json → Json
  | .null => .null
  | .bool b => .bool b
  | .number x => ((Number.copy x).map .number).getD .null
  | .str s => .str s
  | .arr items => .arr (copyItems items)
  | .obj members => .obj (copyMembers members)

def copyItems : List Json → List Json
  | [] => []
  | v :: vs => copy v :: copyItems vs

def copyMembers : List (Units × Json) → List (Units × Json)
  | [] => []
  | (k, v) :: ms => (k, copy v) :: copyMembers ms

end

theorem copyItems_eq (items : List Json) : copyItems items = items.map copy := by
  induction items with
  | nil => rfl
  | cons v vs ih => exact congrArg (copy v :: ·) ih

theorem copyMembers_eq (members : List (Units × Json)) :
    copyMembers members = members.map fun m => (m.1, copy m.2) := by
  induction members with
  | nil => rfl
  | cons m ms ih => exact congrArg ((m.1, copy m.2) :: ·) ih

@[simp] theorem copy_arr (items : List Json) : copy (.arr items) = .arr (items.map copy) :=
  congrArg Json.arr (copyItems_eq items)

@[simp] theorem copy_obj (members : List (Units × Json)) :
    copy (.obj members) = .obj (members.map fun m => (m.1, copy m.2)) :=
  congrArg Json.obj (copyMembers_eq members)

theorem copy_number (x : Number) :
    (∃ y, Number.copy x = some y ∧ copy (.number x) = .number y) ∨
      (Number.copy x = none ∧ copy (.number x) = .null) := by
  show (∃ y, _ ∧ ((Number.copy x).map Json.number).getD .null = _) ∨ (_ ∧ ((Number.copy x).map _).getD _ = _)
  cases Number.copy x with
  | none => exact .inr ⟨rfl, rfl⟩
  | some y => exact .inl ⟨y, rfl, rfl⟩

theorem WellFormed.copy {v : Json} (h : WellFormed v) : WellFormed (copy v) := by
  induction v with
  | null => exact .null
  | bool b => exact .bool b
  | number x =>
    rcases copy_number x with ⟨y, -, hcopy⟩ | ⟨-, hcopy⟩
    · rw [hcopy]
      exact .number y
    · rw [hcopy]
      exact .null
  | str s => exact .str s
  | arr items ih =>
    cases h with
    | arr h =>
      rw [copy_arr]
      exact .arr (List.forall_mem_map.2 fun v hv => ih v hv (h v hv))
  | obj members ih =>
    cases h with
    | obj ordered h =>
      rw [copy_obj]
      exact .obj (List.pairwise_map.2 ordered) (List.forall_mem_map.2 fun m hm => ih m hm (h m hm))

/-- What has come back stays as it is. -/
theorem copy_copy (v : Json) : copy (copy v) = copy v := by
  induction v with
  | null => rfl
  | bool b => rfl
  | number x =>
    rcases copy_number x with ⟨y, hy, hcopy⟩ | ⟨-, hcopy⟩
    · rw [hcopy]
      show ((Number.copy y).map Json.number).getD .null = _
      rw [Number.copy_of_copy hy]
      rfl
    · rw [hcopy]
      rfl
  | str s => rfl
  | arr items ih =>
    rw [copy_arr, copy_arr, List.map_map]
    exact congrArg Json.arr (List.map_congr_left ih)
  | obj members ih =>
    rw [copy_obj, copy_obj, List.map_map]
    exact congrArg Json.obj (List.map_congr_left fun m hm => congrArg (Prod.mk m.1) (ih m hm))

theorem get?_copy (v : Json) (k : Units) : get? (copy v) k = (get? v k).map copy := by
  cases v with
  | null | bool | str => rfl
  | number x => rcases copy_number x with ⟨y, -, hcopy⟩ | ⟨-, hcopy⟩ <;> rw [hcopy] <;> rfl
  | arr items => rw [copy_arr]; rfl
  | obj members =>
    rw [copy_obj]
    show List.lookup k (members.map _) = (members.lookup k).map copy
    induction members with
    | nil => rfl
    | cons m ms ih =>
      rw [List.map_cons, List.lookup_cons, List.lookup_cons]
      cases k == m.1 with
      | true => rfl
      | false => exact ih

theorem copy_eq_bool {v : Json} {b : Bool} (h : copy v = .bool b) : v = .bool b := by
  cases v with
  | bool c => exact h
  | number x =>
    rcases copy_number x with ⟨y, -, hcopy⟩ | ⟨-, hcopy⟩
    · rw [hcopy] at h
      cases h
    · rw [hcopy] at h
      cases h
  | arr items =>
    rw [copy_arr] at h
    cases h
  | obj members =>
    rw [copy_obj] at h
    cases h
  | null | str => cases h

theorem copy_eq_obj {v : Json} {members : List (Units × Json)} (h : copy v = .obj members) :
    ∃ members', v = .obj members' := by
  cases v with
  | obj members' => exact ⟨members', rfl⟩
  | number x =>
    rcases copy_number x with ⟨y, -, hcopy⟩ | ⟨-, hcopy⟩
    · rw [hcopy] at h
      cases h
    · rw [hcopy] at h
      cases h
  | arr items =>
    rw [copy_arr] at h
    cases h
  | null | bool | str => cases h

theorem mem_of_get? {members : List (Units × Json)} {k : Units} {v : Json} (h : get? (.obj members) k = some v) :
    (k, v) ∈ members := by
  obtain ⟨before, after, rfl, -⟩ := List.lookup_eq_some_iff.1 (show members.lookup k = some v from h)
  exact List.mem_append_right before List.mem_cons_self

/-- No value is a member of itself. -/
theorem get?_ne_self (v : Json) (k : Units) : get? v k ≠ some v := by
  induction v generalizing k with
  | obj members ih =>
    intro h
    exact ih _ (mem_of_get? h) k h
  | _ => nofun

end Json

end Text
