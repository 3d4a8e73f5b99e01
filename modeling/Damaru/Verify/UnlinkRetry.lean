import Damaru.Verify.Operations
import Damaru.Verify.Unlinking

/-!
# Retrying an interrupted `unlinkEmulator`

`unlinkEmulator` opens no transaction: what it has written before a call of the
database that fails stays. The same call again does the rest, unless the first
one has ended a link and not made its device AVAILABLE: the lookup does not
find an ended link again.
-/

namespace Damaru

open Async Table

/-- A device is REGISTERED and no link of it is in force. -/
def Tables.Stuck (t : Tables) : Prop :=
  ∃ e ∈ t.emulators, e.state = .REGISTERED ∧ t.active e.device_id = []

/-- The tables without the dates at which links were ended. -/
def Tables.undated (t : Tables) : Tables :=
  { t with
    userEmulators := t.userEmulators.map fun l =>
      { l with unlinked_at := l.unlinked_at.map fun _ => 0 } }

/-- The user has a link in force with the device. -/
def Tables.holds (t : Tables) (u d : String) : Bool := t.userEmulators.any (UserEmulators.joins u [d])

/-- After `n` calls of the database the loop is among the writes for a device:
its link has been ended, and its state is still to be set. A device takes a
lookup, and three writes if the user holds it. -/
def midway (holds : String → Bool) : List String → Nat → Bool
  | [], _ => false
  | d :: ds, n =>
    if holds d then n = 2 || n = 3 || midway (fun d' => holds d' && d' ≠ d) ds (n - 4)
    else midway holds ds (n - 1)

instance (t : Tables) (u : String) (ds : List String) : Decidable (t.Endable u ds) :=
  inferInstanceAs (Decidable (∀ l ∈ t.joining u ds, l.id ≠ "" ∧ l.device ≠ some ""))

/-- Unlinking from `s₁`, where a call from `s` was interrupted, returns, and
ends as a call from `s` that is not interrupted does, the dates apart; no
device is stuck then. -/
structure Recovers (s s₁ : Server) (u : String) (ds : List String) : Prop where
  returns : ∃ s', (EmulatorService.unlinkEmulator (LinkRequest.linkDto u ds)).Ends s₁ (.ok ()) s'
  only_returns : ∀ r s',
    (EmulatorService.unlinkEmulator (LinkRequest.linkDto u ds)).Ends s₁ r s' → r = .ok ()
  agrees : ∀ r s' r₂ s₂,
    (EmulatorService.unlinkEmulator (LinkRequest.linkDto u ds)).Ends s₁ r s' →
    (EmulatorService.unlinkEmulator (LinkRequest.linkDto u ds)).Ends s r₂ s₂ →
    s'.tables.undated = s₂.tables.undated
  frees : ∀ r s', (EmulatorService.unlinkEmulator (LinkRequest.linkDto u ds)).Ends s₁ r s' →
    ¬ s'.tables.Stuck

namespace Tables

variable {t : Tables} {date date' : UserEmulators → Date} {u d : String} {ds : List String}

theorem undated_unlink : (t.unlink date u ds).undated = (t.unlink date' u ds).undated := by
  unfold undated unlink updateWhere
  simp only [List.map_map]
  congr 1
  refine List.map_congr_left fun l _ => ?_
  by_cases hl : l.joins u ds = true
  · simp [hl]
  · simp [hl]

theorem LinkState.not_stuck (h : t.LinkState) : ¬ t.Stuck := by
  intro ⟨e, he, hst, hnil⟩
  rcases h e he with ⟨-, hlen⟩ | ⟨havail, -⟩
  · rw [hnil] at hlen
    cases hlen
  · rw [havail] at hst
    cases hst

/-- Unlinking does not find a device that is stuck. -/
theorem Stuck.unlink (h : t.Stuck) : (t.unlink date u ds).Stuck := by
  obtain ⟨e, he, hst, hnil⟩ := h
  refine ⟨e, mem_updateWhere.2 (.inr ⟨he, ?_⟩), hst, ?_⟩
  · refine List.any_eq_false.2 fun l hl hdev => ?_
    obtain ⟨hmem, hjoins⟩ := mem_joining.1 hl
    have hactive : l ∈ t.active e.device_id :=
      mem_active.2 ⟨hmem, of_decide_eq_true hdev, (UserEmulators.joins_iff.1 hjoins).2.1⟩
    rw [hnil] at hactive
    cases hactive
  · rw [active_unlink, hnil]
    rfl

/-- A link that has been ended before its device was made AVAILABLE leaves the
device stuck. -/
theorem LinkState.stuck_of_endLink (h : t.LinkState) (hi : t.Integrity) {t' : Tables}
    {l : UserEmulators} (hl : l ∈ t.joining u [d]) {now : Date} (he : t'.emulators = t.emulators)
    (hlinks : t'.userEmulators = (t.endLink l.id now).userEmulators) : t'.Stuck := by
  obtain ⟨hmem, hjoins⟩ := mem_joining.1 hl
  have hactive := mem_active_of_joins hmem hjoins
  obtain ⟨e, hemu, rfl⟩ := hi.device_exists hactive
  refine ⟨e, he ▸ hemu, ?_, ?_⟩
  · rcases h e hemu with ⟨hst, -⟩ | ⟨-, hnil⟩
    · exact hst
    · rw [hnil] at hactive
      cases hactive
  · rw [active_updateWhere_unlinked hlinks]
    refine List.filter_eq_nil_iff.2 fun r hr => ?_
    rw [h.exclusive hi _ r hr l hactive]
    simp

theorem holds_iff : t.holds u d = true ↔ t.joining u [d] ≠ [] := by
  unfold holds joining
  rw [List.any_eq_true, ne_eq, List.filter_eq_nil_iff]
  simp

theorem holds_unlink {d' : String} :
    (t.unlink date u [d]).holds u d' = (t.holds u d' && decide (d' ≠ d)) := by
  have hdevice : ∀ {l : UserEmulators}, l.joins u [d'] = true → l.joins u [d] = decide (d' = d) := by
    intro l hl
    obtain ⟨huser, hactive, k, hk, hdev⟩ := UserEmulators.joins_iff.1 hl
    rw [List.mem_singleton.1 hk] at hdev
    rw [Bool.eq_iff_iff, UserEmulators.joins_iff, decide_eq_true_eq]
    simp [huser, hactive, hdev]
  rw [Bool.eq_iff_iff, Bool.and_eq_true, holds_iff, holds_iff, joining_unlink, joining, ne_eq, ne_eq,
    List.filter_eq_nil_iff, List.filter_eq_nil_iff, decide_eq_true_eq]
  simp only [not_forall, not_not, Bool.and_eq_true, Bool.not_eq_true', exists_prop]
  constructor
  · intro ⟨l, hl, hnot, hjoins⟩
    rw [hdevice hjoins, decide_eq_false_iff_not] at hnot
    exact ⟨⟨l, hl, hjoins⟩, hnot⟩
  · intro ⟨⟨l, hl, hjoins⟩, hne⟩
    exact ⟨l, hl, by rw [hdevice hjoins]; exact decide_eq_false hne, hjoins⟩

theorem Endable.of_cons (h : t.Endable u (d :: ds)) : t.Endable u ds := by
  intro l hl
  obtain ⟨hmem, hjoins⟩ := mem_joining.1 hl
  refine h l (mem_joining.2 ⟨hmem, ?_⟩)
  rw [← List.singleton_append, UserEmulators.joins_append, hjoins, Bool.or_true]

end Tables

/-! ## The points of an interruption -/

section Stop

variable {u : String} {ds : List String} {s : Server} {xs : List Ext}

theorem midway_cons_nil {d : String} {n : Nat} (h : s.tables.joining u [d] = []) :
    midway (s.tables.holds u) (d :: ds) n = midway (s.tables.holds u) ds (n - 1) := by
  have hholds : s.tables.holds u d = false := Bool.eq_false_iff.2 fun hd => Tables.holds_iff.1 hd h
  rw [midway, hholds]
  rfl

theorem midway_cons_held {d : String} {n : Nat} (h : s.tables.joining u [d] ≠ [])
    (date : UserEmulators → Date) :
    midway (s.tables.holds u) (d :: ds) n =
      (n = 2 || n = 3 || midway ((s.tables.unlink date u [d]).holds u) ds (n - 4)) := by
  rw [midway, Tables.holds_iff.2 h, if_pos rfl]
  congr 2
  funext d'
  rw [Tables.holds_unlink]

theorem midway_zero (holds : String → Bool) : midway holds ds 0 = false := by
  induction ds generalizing holds with
  | nil => rfl
  | cons d ds ih =>
    rw [midway]
    split
    · simp [ih]
    · exact ih holds

/-- What follows a turn is midway as the whole call is. -/
theorem midway_after {d : String} {xs' : List Ext} {now : Date} {s₁ : Server}
    (htables : s₁.tables = s.tables.unlink (fun _ => now) u [d])
    (hlen : xs.length = xs'.length + (if s.tables.joining u [d] = [] then 1 else 4)) :
    midway (s.tables.holds u) (d :: ds) xs.length = midway (s₁.tables.holds u) ds xs'.length := by
  by_cases hd : s.tables.joining u [d] = []
  · rw [midway_cons_nil hd, htables, Tables.unlink_of_none s.integrity hd _, hlen, if_pos hd,
      Nat.add_sub_cancel]
  · rw [midway_cons_held hd fun _ => now, ← htables, hlen, if_neg hd, Nat.add_sub_cancel]
    simp

open Phase in
theorem stop_exclusive (h : s.tables.Exclusive) :
    ((unlinkRest u ds).stop xs s).2.tables.Exclusive := by
  induction ds generalizing s xs with
  | nil => exact h
  | cons d ds ih =>
    have hturn := unlinkTurn u d ds h xs
    generalize (unlinkRest u (d :: ds)).stop xs s = o at hturn
    cases hturn with
    | before _ _ => exact h
    | refused _ _ => exact h
    | within _ _ _ _ hlinks =>
      refine h.of_subset fun l hl hactive => ?_
      rw [hlinks] at hl
      rcases mem_updateWhere.1 hl with ⟨r, -, -, rfl⟩ | ⟨hl, -⟩
      · cases hactive
      · exact hl
    | after _ htables _ => exact ih (htables ▸ h.unlink)

open Phase in
/-- Interrupted between the writes for two devices, the call has ended the
links with some of the list, and nothing else. -/
theorem stop_between (xs : List Ext) (h : s.tables.Exclusive) (hend : s.tables.Endable u ds)
    (hpoint : midway (s.tables.holds u) ds xs.length = false) :
    ∃ done date, (∀ d ∈ done, d ∈ ds) ∧
      ((unlinkRest u ds).stop xs s).2.tables = s.tables.unlink date u done := by
  have hnone : ∀ t : Tables, t.Integrity → t.unlink (fun _ => 0) u [] = t := fun t hi =>
    Tables.unlink_of_none hi (List.filter_eq_nil_iff.2 fun l _ => by simp [UserEmulators.joins]) _
  induction ds generalizing s xs with
  | nil => exact ⟨[], fun _ => 0, fun _ hd => hd, (hnone _ s.integrity).symm⟩
  | cons d ds ih =>
    obtain ⟨hfirst, hrest⟩ := (Tables.endable_cons fun _ => 0).1 hend
    have hturn := unlinkTurn u d ds h xs
    generalize (unlinkRest u (d :: ds)).stop xs s = o at hturn
    cases hturn with
    | before _ _ => exact ⟨[], fun _ => 0, fun _ hd => (List.not_mem_nil hd).elim, (hnone _ s.integrity).symm⟩
    | refused hmem hid => exact ((hfirst _ hmem).1 hid).elim
    | within hmem hid hwhere _ _ =>
      rcases hwhere with ⟨-, hlen⟩ | ⟨rfl, -⟩
      · rw [midway_cons_held (List.ne_nil_of_mem hmem) fun _ => 0] at hpoint
        rcases hlen with hlen | hlen <;> simp [hlen] at hpoint
      · obtain ⟨-, -, d', hd', hdev⟩ := UserEmulators.joins_iff.1 (Tables.mem_joining.1 hmem).2
        rw [List.mem_singleton.1 hd'] at hdev
        exact ((hfirst _ hmem).2 hdev).elim
    | @after xs' now s₁ _ htables hlen =>
      rw [midway_after htables hlen] at hpoint
      have hend' : s₁.tables.Endable u ds := by
        rw [htables]
        exact ((Tables.endable_cons fun _ => now).1 hend).2
      obtain ⟨done, date, hdone, hdate⟩ := ih xs' (htables ▸ h.unlink) hend' hpoint
      refine ⟨d :: done, fun l => if l.joins u [d] then now else date l, fun d' hd' => ?_, ?_⟩
      · exact (List.mem_cons.1 hd').elim (fun h => h ▸ List.mem_cons_self)
          fun h => List.mem_cons_of_mem _ (hdone d' h)
      · rw [hdate, htables, Tables.unlink_unlink]
        rfl

open Phase in
/-- Interrupted among the writes for a device, the call leaves it stuck. -/
theorem stop_midway (h : s.tables.LinkState) (hend : s.tables.Endable u ds)
    (hpoint : midway (s.tables.holds u) ds xs.length = true) :
    ((unlinkRest u ds).stop xs s).2.tables.Stuck := by
  induction ds generalizing s xs with
  | nil => cases hpoint
  | cons d ds ih =>
    have hturn := unlinkTurn u d ds (h.exclusive s.integrity) xs
    generalize (unlinkRest u (d :: ds)).stop xs s = o at hturn
    cases hturn with
    | before hlen hnil =>
      by_cases hd : s.tables.joining u [d] = []
      · rw [hnil hd, List.length_nil, midway_zero] at hpoint
        cases hpoint
      · rw [midway_cons_held hd fun _ => 0, Nat.sub_eq_zero_of_le (by omega), midway_zero] at hpoint
        simp at hpoint
        omega
    | refused hmem hid =>
      exact (((Tables.endable_cons fun _ => 0).1 hend).1 _ hmem |>.1 hid).elim
    | within hmem _ _ hemulators hlinks =>
      exact h.stuck_of_endLink s.integrity hmem hemulators hlinks
    | @after xs' now s₁ _ htables hlen =>
      rw [midway_after htables hlen] at hpoint
      refine ih (htables ▸ h.unlink s.integrity) ?_ hpoint
      rw [htables]
      exact ((Tables.endable_cons fun _ => now).1 hend).2

open Phase in
/-- A link that cannot be ended still cannot be ended, or its device is stuck. -/
theorem stop_not_endable (xs : List Ext) (h : s.tables.LinkState) (hend : ¬ s.tables.Endable u ds) :
    ¬ ((unlinkRest u ds).stop xs s).2.tables.Endable u ds ∨
      ((unlinkRest u ds).stop xs s).2.tables.Stuck := by
  induction ds generalizing s xs with
  | nil => exact .inl hend
  | cons d ds ih =>
    have hturn := unlinkTurn u d ds (h.exclusive s.integrity) xs
    generalize (unlinkRest u (d :: ds)).stop xs s = o at hturn
    cases hturn with
    | before _ _ => exact .inl hend
    | refused _ _ => exact .inl hend
    | within hmem _ _ hemulators hlinks =>
      exact .inr (h.stuck_of_endLink s.integrity hmem hemulators hlinks)
    | @after xs' now s₁ hfirst htables _ =>
      have hrest : ¬ s₁.tables.Endable u ds := fun hrest =>
        hend ((Tables.endable_cons fun _ => now).2 ⟨hfirst, htables ▸ hrest⟩)
      exact (ih xs' (htables ▸ h.unlink s.integrity) hrest).imp_left fun hnot hall => hnot hall.of_cons

end Stop

/-! ## The retry -/

open Phase in
/-- A retry cannot help a device that is stuck. -/
theorem Recovers.not_stuck {s s₁ : Server} {u : String} {ds : List String}
    (h : Recovers s s₁ u ds) (hexcl : s₁.tables.Exclusive) : ¬ s₁.tables.Stuck := by
  intro hstuck
  obtain ⟨s', hs'⟩ := h.returns
  rcases @unlinkRest_ends u ds _ _ _ hexcl hs' with ⟨-, -, date, hdate⟩ | ⟨⟨e, he⟩, -⟩
  · exact h.frees _ _ hs' (hdate ▸ hstuck.unlink)
  · cases he

open Phase in
/-- **Retrying an interrupted unlink.** From a state in which states and links
agree, `unlinkEmulator` is interrupted after any number of calls of the
database. The same call again completes what it has begun if and only if it was
not interrupted among the writes for a device, and no id among those that the
user holds is empty. -/
theorem EmulatorService.unlink_retry_iff {s : Server} (h : s.tables.LinkState) (u : String)
    (ds : List String) (xs : List Ext) :
    Recovers s ((unlinkEmulator (LinkRequest.linkDto u ds)).stop xs s).2 u ds ↔
      midway (s.tables.holds u) ds xs.length = false ∧ s.tables.Endable u ds := by
  have hprog : unlinkEmulator (LinkRequest.linkDto u ds) = unlinkRest u ds := rfl
  have hexcl := h.exclusive s.integrity
  rw [hprog]
  generalize hs₁ : ((unlinkRest u ds).stop xs s).2 = s₁
  have hexcl₁ : s₁.tables.Exclusive := hs₁ ▸ stop_exclusive hexcl
  constructor
  · intro hrec
    obtain ⟨s', hs'⟩ := hrec.returns
    have hnot := hrec.not_stuck hexcl₁
    have hend₁ : s₁.tables.Endable u ds := by
      rcases unlinkRest_ends hexcl₁ hs' with ⟨-, hend, -⟩ | ⟨⟨e, he⟩, -⟩
      · exact hend
      · cases he
    have hend : s.tables.Endable u ds := by
      by_contra hend
      rcases stop_not_endable xs h hend with hnot' | hstuck
      · exact hnot' (hs₁ ▸ hend₁)
      · exact hnot (hs₁ ▸ hstuck)
    refine ⟨Bool.eq_false_iff.2 fun hpoint => hnot ?_, hend⟩
    exact hs₁ ▸ stop_midway h hend hpoint
  · intro ⟨hpoint, hend⟩
    obtain ⟨done, date, hdone, hdate⟩ := stop_between xs hexcl hend hpoint
    rw [hs₁] at hdate
    have hretry : ∀ r s', (unlinkRest u ds).Ends s₁ r s' →
        r = .ok () ∧ ∃ date', s'.tables = s.tables.unlink date' u ds := by
      intro r s' hends
      rcases unlinkRest_ends hexcl₁ hends with ⟨hr, -, date', hdate'⟩ | ⟨-, hnot⟩
      · refine ⟨hr, fun l => if l.joins u done then date l else date' l, ?_⟩
        rw [hdate', hdate, Tables.unlink_unlink]
        exact Tables.unlink_congr fun d => by simp [or_iff_right_of_imp (hdone d)]
      · refine (hnot fun l hl => hend l ?_).elim
        rw [hdate, Tables.joining_unlink, List.mem_filter] at hl
        exact Tables.mem_joining.2 ⟨hl.1, (Bool.and_eq_true_iff.1 hl.2).2⟩
    refine ⟨?_, fun r s' hends => (hretry r s' hends).1, ?_, ?_⟩
    · obtain ⟨r, s', hends⟩ := (LinkRequest.forkFree_unlink u ds).exists_ends s₁
      obtain ⟨rfl, -⟩ := hretry r s' hends
      exact ⟨s', hends⟩
    · intro r s' r₂ s₂ hends hends₂
      obtain ⟨-, date', hdate'⟩ := hretry r s' hends
      rcases unlinkRest_ends hexcl hends₂ with ⟨-, -, date₂, hdate₂⟩ | ⟨-, hnot⟩
      · rw [hdate', hdate₂, Tables.undated_unlink]
      · exact (hnot hend).elim
    · intro r s' hends
      obtain ⟨-, date', hdate'⟩ := hretry r s' hends
      rw [hdate']
      exact (h.unlink s.integrity).not_stuck

namespace Sample

/-- The history, and then the other device is linked to the second user too. -/
def heldBoth : List (Event × List Ext) :=
  history ++
    [(.http superAdmin (.emulators_linkEmulator (linkBody "v" ["d"])),
      ["", "link-d", "", "a3", ""].map input)]

/-- The first device is unlinked when the call is interrupted. -/
def cut (s : Server) : Server :=
  ((EmulatorService.unlinkEmulator (LinkRequest.linkDto "v" ["e", "d"])).stop
    (["", "", "", ""].map input) s).2

end Sample

open EmulatorService in
/-- The call is interrupted between two devices. -/
theorem unlink_retry_sample : ∃ s, Reachable s ∧
    (s.tables.holds "v" "e" = true ∧ s.tables.holds "v" "d" = true) ∧
    ((Sample.cut s).tables.holds "v" "e" = false ∧ (Sample.cut s).tables.holds "v" "d" = true) ∧
    Recovers s (Sample.cut s) "v" ["e", "d"] := by
  have hrun : (playAll Sample.heldBoth Sample.seeded).any (fun s => decide
      ((s.tables.LinkState ∧ midway (s.tables.holds "v") ["e", "d"] 4 = false ∧
        s.tables.Endable "v" ["e", "d"]) ∧
      (s.tables.holds "v" "e" = true ∧ s.tables.holds "v" "d" = true) ∧
      (Sample.cut s).tables.holds "v" "e" = false ∧
        (Sample.cut s).tables.holds "v" "d" = true)) = true := by decide +kernel
  obtain ⟨s, hplay, hs⟩ := (Option.any_eq_true _ _).1 hrun
  obtain ⟨⟨hlinks, hpoint, hend⟩, hheld, hcut⟩ := of_decide_eq_true hs
  exact ⟨s, Sample.reachable hplay, hheld, hcut,
    (unlink_retry_iff hlinks "v" ["e", "d"] _).2 ⟨hpoint, hend⟩⟩

open EmulatorService in
/-- The call is interrupted after it has ended the link. -/
theorem unlink_not_retried : ¬ ∀ (s : Server) (u : String) (ds : List String) (xs : List Ext),
    s.tables.LinkState →
      Recovers s ((unlinkEmulator (LinkRequest.linkDto u ds)).stop xs s).2 u ds := by
  intro hall
  have hrun : (playAll (Sample.history ++ []) Sample.seeded).any (fun s =>
      decide s.tables.LinkState && decide (s.tables.Endable "v" ["e"]) &&
        midway (s.tables.holds "v") ["e"] 2) = true := by decide +kernel
  obtain ⟨s, -, hs⟩ := (Option.any_eq_true _ _).1 hrun
  obtain ⟨hs, hpoint⟩ := Bool.and_eq_true_iff.1 hs
  obtain ⟨hlinks, hend⟩ := Bool.and_eq_true_iff.1 hs
  have hlinks := of_decide_eq_true hlinks
  have hrec := hall s "v" ["e"] (["", ""].map Sample.input) hlinks
  exact hrec.not_stuck (stop_exclusive (hlinks.exclusive s.integrity))
    (stop_midway hlinks (of_decide_eq_true hend) hpoint)

end Damaru
