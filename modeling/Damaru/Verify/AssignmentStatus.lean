import Damaru.Verify.EventWrites

/-!
# The status of assignments

Nothing ever gives an assignment another status than ACTIVE.
-/

namespace Damaru

open Async Table

/-- Every assignment is ACTIVE. -/
def Tables.AllActive (t : Tables) : Prop := ∀ a ∈ t.accountEmulators, a.status = .ACTIVE

theorem Tables.AllActive.of_subset {t t' : Tables} (h : t.AllActive)
    (hsub : t'.accountEmulators ⊆ t.accountEmulators) : t'.AllActive := fun a ha => h a (hsub ha)

/-- A step that keeps every assignment ACTIVE. -/
def KeepsActive (s s' : Server) : Prop := s.tables.AllActive → s'.tables.AllActive

theorem KeepsActive.refl (s : Server) : KeepsActive s s := id

theorem KeepsActive.trans {a b c : Server} (hab : KeepsActive a b) (hbc : KeepsActive b c) :
    KeepsActive a c := fun h => hbc (hab h)

/-- Other writes add no assignment. -/
theorem Write.subset_assignments {t t' : Tables} {k : Kind} (h : Write t k t') (hk : k ≠ .assignments) :
    t'.accountEmulators ⊆ t.accountEmulators := by
  cases h with
  | assignments l c => exact (hk rfl).elim
  | deleteEmulator p => exact (Tables.cascade_subset _).2.2.2
  | deleteAccount p => exact (Tables.cascade_subset _).2.2.2
  | deleteUser p => exact (Tables.cascade_subset _).2.2.2
  | _ => exact List.Subset.refl _

theorem Writes.keepsActive {ks : List Kind} (hks : Kind.assignments ∉ ks) {s s' : Server}
    (h : Writes ks s s') : KeepsActive s s' := by
  intro hs
  rcases h.tables with heq | ⟨k, hk, hw⟩
  · rw [heq]
    exact hs
  · exact hs.of_subset (hw.subset_assignments fun heq => hks (heq ▸ hk))

namespace EmulatorService

theorem keepsActive_tryAssign (account : JsVal) (l : UserEmulators) :
    (tryAssign account l).Each KeepsActive := by
  refine (each_statement KeepsActive.refl fun x s a t hf ht hs => ?_ :
    (accountEmulatorRepository.upsert account.bound l.id).Each KeepsActive).tryCatch fun _ => trivial
  dsimp only at hf
  split at hf
  · cases hf
    intro b hb
    rcases mem_updateWhere.1 hb with ⟨c, -, -, rfl⟩ | ⟨hb, -⟩
    · rfl
    · exact hs b hb
  · cases hf
    intro b hb
    rcases List.mem_append.1 hb with hb | hb
    · exact hs b hb
    · rw [List.mem_singleton.1 hb]

theorem keepsActive_delete (p : AccountEmulators → Bool) :
    (accountEmulatorRepository.delete p).Each KeepsActive :=
  Repository.each_delete KeepsActive.refl fun _ _ hs =>
    hs.of_subset (List.Subset.trans (Tables.cascade_subset _).2.2.2 (List.filter_subset_self _))

theorem keepsActive_tryUnassign (account : JsVal) (l : UserEmulators) (p : AccountEmulators → Bool) :
    (tryUnassign account l p).Each KeepsActive := by
  refine Prog.Each.tryCatch ?_ fun _ => trivial
  split
  · exact keepsActive_delete _
  · exact trivial

theorem keepsActive_setState (device_id : JsVal) (st : EmulatorState) :
    (setState device_id st).Each KeepsActive :=
  (@each_setState [.state] device_id st (List.mem_singleton.2 rfl)).mono fun _ _ =>
    Writes.keepsActive (by simp)

theorem keepsActive_linkDevice (userId device_id : JsVal) : (linkDevice userId device_id).Each KeepsActive := by
  unfold linkDevice findEmulatorByDeviceId
  refine (Repository.each_findRow KeepsActive.refl).bind fun found => ?_
  split
  · refine (Repository.each_insert KeepsActive.refl fun _ _ _ _ _ hs => hs :
      (insertLink userId device_id).Each KeepsActive).bind fun link => ?_
    refine (Repository.each_findRow KeepsActive.refl).bind fun root => ?_
    cases root with
    | none => exact trivial
    | some a =>
      refine (Repository.each_insert KeepsActive.refl fun x s d hd _ hs => ?_).bind fun _ => ?_
      · cases hd
        intro b hb
        rcases List.mem_append.1 hb with hb | hb
        · exact hs b hb
        · rw [List.mem_singleton.1 hb]
      · exact keepsActive_setState _ _
  · exact trivial

theorem keepsActive_unlinkDevice (userId device_id : JsVal) :
    (unlinkDevice userId device_id).Each KeepsActive := by
  unfold unlinkDevice
  refine (Repository.each_findRow KeepsActive.refl).bind fun found => ?_
  cases found with
  | none => exact trivial
  | some l =>
    refine (Repository.each_update KeepsActive.refl (fun _ _ _ _ _ hs => hs) fun _ _ hs => hs :
      (userEmulatorRepository.set _ _).Each KeepsActive).bind fun _ => ?_
    exact (keepsActive_delete _).bind fun _ => keepsActive_setState _ _

end EmulatorService

/-- Handling an event keeps every assignment ACTIVE. -/
theorem Event.keepsActive (e : Event) : e.prog.Each KeepsActive := by
  by_cases hks : Kind.assignments ∈ e.kinds
  · cases e with
    | http user req =>
      obtain ⟨hadmits, hreq⟩ := kinds_http hks
      refine Prog.Each.bind ?_ fun _ => trivial
      rw [HttpRequest.handle_of_admits hadmits]
      cases req with
      | emulators_linkEmulator dto =>
        exact HttpRequest.each_reading ((each_forOf fun _ =>
          EmulatorService.keepsActive_linkDevice _ _).bind fun _ => trivial)
      | emulators_unlinkEmulator dto =>
        exact HttpRequest.each_reading ((each_forOf fun _ =>
          EmulatorService.keepsActive_unlinkDevice _ _).bind fun _ => trivial)
      | emulators_assignEmulator dto =>
        refine HttpRequest.each_reading (Prog.Each.bind ?_ fun _ => trivial)
        unfold EmulatorService.assignEmulator
        split
        · exact EmulatorService.each_withLink KeepsActive.refl fun _ => each_forOf fun _ =>
            EmulatorService.keepsActive_tryAssign _ _
        · exact trivial
      | emulators_assignEmulatorsToAccount dto =>
        refine HttpRequest.each_reading (Prog.Each.bind ?_ fun _ => trivial)
        unfold EmulatorService.assignEmulatorsToAccount
        split
        · exact each_forOf fun _ => EmulatorService.each_withLink KeepsActive.refl fun _ =>
            EmulatorService.keepsActive_tryAssign _ _
        · exact trivial
      | emulators_unAssignEmulatorsToAccount dto =>
        refine HttpRequest.each_reading (Prog.Each.bind ?_ fun _ => trivial)
        unfold EmulatorService.unassignEmulatorsToAccount
        split
        · exact each_forOf fun _ => EmulatorService.each_withLink KeepsActive.refl fun _ =>
            EmulatorService.keepsActive_tryUnassign _ _ _
        · exact trivial
      | emulators_unAssignEmulatorFromAccounts dto =>
        exact HttpRequest.each_reading ((EmulatorService.each_withLink KeepsActive.refl fun _ =>
          each_forOf fun _ => EmulatorService.keepsActive_tryUnassign _ _ _).bind fun _ => trivial)
      | _ => simp [HttpRequest.kinds] at hreq
    | message client user event body =>
      cases event <;> simp [kinds, SignalingServerGateway.Event.kinds] at hks
    | disconnect client => simp [kinds] at hks
    | login dto => simp [kinds] at hks
  · exact e.each_prog.mono fun _ _ => Writes.keepsActive hks

/-- **Status.** In every reachable state, every assignment is ACTIVE. -/
theorem Reachable.allActive {s : Server} (h : Reachable s) : s.tables.AllActive := by
  obtain ⟨s₀, l, hstart, -, -, hrun⟩ := h
  refine hrun.invariant (I := fun s => s.tables.AllActive) (fun s e s' hstep => ?_) fun a ha => ?_
  · exact Pool.Settles.each KeepsActive.refl (fun _ _ _ => KeepsActive.trans) hstep e.keepsActive
  · rw [hstart.accountEmulators] at ha
    cases ha

end Damaru
