import Damaru.Repository

/-!
# Links in force

The links of a device that are in force, what each change of the tables does
to them, and the law that ties them to the device's state.
-/

namespace Damaru

open Table

namespace Tables

/-- The links of a device that are in force. -/
def active (t : Tables) (d : String) : List UserEmulators :=
  t.userEmulators.filter fun l => l.device = some d && l.active

/-- A device is REGISTERED with exactly one link in force, or AVAILABLE with
none. -/
def LinkState (t : Tables) : Prop :=
  ∀ e ∈ t.emulators,
    (e.state = .REGISTERED ∧ (t.active e.device_id).length = 1) ∨
      (e.state = .AVAILABLE ∧ t.active e.device_id = [])

theorem mem_active {t : Tables} {d : String} {l : UserEmulators} :
    l ∈ t.active d ↔ l ∈ t.userEmulators ∧ l.device = some d ∧ l.active = true := by
  unfold active
  rw [List.mem_filter, Bool.and_eq_true, decide_eq_true_eq]

theorem active_congr {t t' : Tables} (h : t'.userEmulators = t.userEmulators) (d : String) :
    t'.active d = t.active d := by
  unfold active
  rw [h]

/-- The device of a link exists. -/
theorem Integrity.device_exists {t : Tables} (h : t.Integrity) {d : String} {l : UserEmulators}
    (hl : l ∈ t.active d) : ∃ e ∈ t.emulators, e.device_id = d := by
  obtain ⟨hmem, hd, -⟩ := mem_active.1 hl
  have href := h.link_device l hmem
  rw [hd, refers_some] at href
  exact List.mem_map.1 href

/-! ## Inserting a link -/

theorem active_append {t t' : Tables} {l : UserEmulators} (hl : l.active = true) {d : String}
    (hd : l.device = some d) (h : t'.userEmulators = t.userEmulators ++ [l]) (d' : String) :
    t'.active d' = if d' = d then t.active d' ++ [l] else t.active d' := by
  unfold active
  rw [h, List.filter_append, List.filter_singleton, hl, hd, Bool.and_true]
  by_cases hdd : d' = d
  · simp [hdd]
  · simp [hdd, Ne.symm hdd]

/-! ## Ending a link -/

theorem active_updateWhere_unlinked {t t' : Tables} {id : String} {now : Date}
    (h : t'.userEmulators =
      updateWhere (fun l => decide (l.id = id)) (fun l => { l with unlinked_at := some now })
        t.userEmulators) (d : String) :
    t'.active d = (t.active d).filter fun l => !decide (l.id = id) := by
  unfold active
  rw [h, List.filter_filter]
  unfold updateWhere
  rw [List.filter_map]
  have hq : ∀ l ∈ t.userEmulators, (((fun l => decide (l.device = some d) && l.active) ∘ fun l =>
      if decide (l.id = id) = true then { l with unlinked_at := some now } else l) l) =
      (!decide (l.id = id) && (decide (l.device = some d) && l.active)) := by
    intro l _
    by_cases hid : l.id = id
    · simp [hid, UserEmulators.active]
    · simp [hid]
  rw [List.filter_congr hq]
  conv_rhs => rw [← List.map_id (List.filter _ _)]
  refine List.map_congr_left fun l hl => ?_
  have hid := (Bool.and_eq_true_iff.1 (List.mem_filter.1 hl).2).1
  simp only [Bool.not_eq_true', decide_eq_false_iff_not] at hid
  simp [hid]

/-! ## Changes that leave a link where it is -/

/-- A link keeps its device and stays in force or not. -/
theorem active_updateWhere {t t' : Tables} {p : UserEmulators → Bool} {f : UserEmulators → UserEmulators}
    (hf : ∀ l, (f l).device = l.device ∧ (f l).active = l.active)
    (h : t'.userEmulators = updateWhere p f t.userEmulators) (d : String) :
    t'.active d = updateWhere p f (t.active d) := by
  unfold active
  rw [h, filter_updateWhere]
  intro l _
  rw [(hf l).1, (hf l).2]

theorem active_filter {t t' : Tables} {p : UserEmulators → Bool}
    (h : t'.userEmulators = t.userEmulators.filter p) (d : String) :
    t'.active d = (t.active d).filter p := by
  unfold active
  rw [h, List.filter_filter, List.filter_filter]
  exact List.filter_congr fun l _ => Bool.and_comm _ _

instance (t : Tables) : Decidable t.LinkState :=
  inferInstanceAs (Decidable (∀ e ∈ t.emulators,
    (e.state = .REGISTERED ∧ (t.active e.device_id).length = 1) ∨
      (e.state = .AVAILABLE ∧ t.active e.device_id = [])))

end Tables

end Damaru
